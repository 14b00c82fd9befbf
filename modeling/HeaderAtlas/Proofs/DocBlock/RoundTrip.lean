import HeaderAtlas.Proofs.DocBlock.Sections

/-!
# Writing a doc comment and reading it back

A comment that is laid out as it should be gives back what was written: each parameter has
the lines on it, joined by blanks, the summary keeps its line breaks and indentation, and the
lines on the return value are joined by blanks again. Nothing of one section gets into
another, since each ends where its own reader stops: an argument at a separator or at the
next argument, the summary at `Returns`.
-/

namespace HeaderAtlas

open Text

namespace DocBlock

/-! ## Joined lines -/

section Joined

variable {sep : Char}

@[simp] theorem joined_singleton (l : Line) : joined sep [l] = l := List.intercalate_singleton

theorem joined_cons_cons (l m : Line) (ls : List Line) :
    joined sep (l :: m :: ls) = l ++ sep :: joined sep (m :: ls) := by
  rw [joined, List.intercalate_cons_cons, List.append_assoc, List.singleton_append]
  rfl

theorem lines_joined {ls : List Line} (hne : ls ≠ []) (h : ∀ l ∈ ls, '\n' ∉ l) :
    lines (joined '\n' ls) = ls := by
  induction ls with
  | nil => exact absurd rfl hne
  | cons l ls ih =>
    obtain ⟨hl, hls⟩ := List.forall_mem_cons.mp h
    have hline : lines l = [l] := pieces_eq_singleton fun c hc => by
      refine beq_eq_false_iff_ne.mpr ?_
      rintro rfl
      exact hl hc
    cases ls with
    | nil => rw [joined_singleton, hline]
    | cons m ls =>
      rw [joined_cons_cons, lines, pieces_append l _ rfl, ← lines, ← lines, hline,
        ih (List.cons_ne_nil _ _) hls]
      rfl

theorem joined_append {xs ys : List Line} (hxs : xs ≠ []) (hys : ys ≠ []) :
    joined sep (xs ++ ys) = joined sep xs ++ sep :: joined sep ys := by
  obtain ⟨m, ys, rfl⟩ := List.exists_cons_of_ne_nil hys
  induction xs with
  | nil => exact absurd rfl hxs
  | cons l xs ih =>
    cases xs with
    | nil => rw [joined_singleton]; exact joined_cons_cons l m ys
    | cons k xs =>
      have hrest := ih (List.cons_ne_nil _ _)
      rw [List.cons_append] at hrest
      rw [List.cons_append, List.cons_append, joined_cons_cons, hrest, joined_cons_cons,
        List.append_assoc, List.cons_append]

/-- Empty lines add nothing but what joins them. -/
theorem joined_append_replicate {ls : List Line} (hne : ls ≠ []) (n : Nat) :
    joined sep (ls ++ List.replicate n []) = joined sep ls ++ List.replicate n sep := by
  induction n with
  | zero => simp
  | succ n ih =>
    rw [List.replicate_succ', ← List.append_assoc,
      joined_append (List.append_ne_nil_of_left_ne_nil hne _) (List.cons_ne_nil _ _), ih,
      List.replicate_succ', ← List.append_assoc]
    rfl

theorem opens_joined {ls : List Line} (h : ls.head?.any opens = true) :
    opens (joined sep ls) = true := by
  cases ls with
  | nil => cases h
  | cons l ls =>
    cases ls with
    | nil => simpa using h
    | cons m ls =>
      rw [opens, joined_cons_cons, List.head?_append_of_ne_nil _ (ne_nil_of_opens h)]
      exact h

theorem closes_joined {ls : List Line} (h : ls.getLast?.any closes = true) :
    closes (joined sep ls) = true := by
  rcases List.eq_nil_or_concat ls with rfl | ⟨ls, l, rfl⟩
  · cases h
  · rw [List.concat_eq_append, List.getLast?_concat, Option.any_some] at h
    rw [List.concat_eq_append]
    cases ls with
    | nil => simpa using h
    | cons m ls =>
      rw [joined_append (List.cons_ne_nil _ _) (List.cons_ne_nil _ _), closes,
        List.getLast?_append_of_ne_nil _ (List.cons_ne_nil _ _), joined_singleton,
        List.getLast?_cons_of_ne_nil (ne_nil_of_closes h)]
      exact h

/-- Lines with words at both ends are what is left of them, empty lines after them aside. -/
theorem trim_joined (hsep : isBlank sep = true) {ls : List Line} (hfirst : ls.head?.any opens = true)
    (hlast : ls.getLast?.any closes = true) (n : Nat) :
    trim (joined sep (ls ++ List.replicate n [])) = joined sep ls := by
  have hne : ls ≠ [] := by
    rintro rfl
    cases hfirst
  rw [joined_append_replicate hne]
  refine trim_append_blank (opens_joined hfirst) (closes_joined hlast) fun c hc => ?_
  rwa [List.eq_of_mem_replicate hc]

end Joined

/-! ## Written comments -/

/-- Lines that are read as one. -/
structure Prose where
  first : Line
  more : List Line := []

namespace Prose

def lines (t : Prose) : List Line := t.first :: t.more

/-- The lines joined by blanks. -/
def text (t : Prose) : String := String.ofList (joined ' ' t.lines)

end Prose

/-- A parameter, and what the comment says of it. -/
structure DocumentedParam where
  type : String
  name : String
  /-- What was said of it before. -/
  earlier : Option String := none
  doc : Prose

/-- A comment that says something of each parameter. -/
structure FunctionDoc where
  params : List DocumentedParam
  summary : List Line
  returns : Prose

/-- The line on which the comment says this. -/
def starred (text : Line) : Line := if text.isEmpty then ['*'] else '*' :: ' ' :: text

namespace DocumentedParam

/-- The parameter before the comment is read. -/
def param (p : DocumentedParam) : Param := ⟨p.type, some p.name, p.earlier⟩

/-- The parameter as the comment describes it. -/
def described (p : DocumentedParam) : Param := ⟨p.type, some p.name, some p.doc.text⟩

def lines (p : DocumentedParam) : List Line :=
  (['*', ' ', '@'] ++ p.name.toList ++ ':' :: ' ' :: p.doc.first) :: p.doc.more.map starred

end DocumentedParam

namespace FunctionDoc

/-- The lines on what the function does and returns. -/
def proseLines (d : FunctionDoc) : List Line :=
  d.summary.map starred
    ++ ['*'] :: starred ("Returns ".toList ++ d.returns.first) :: d.returns.more.map starred

/-- The lines after the one that names the function. -/
def body (d : FunctionDoc) : List Line := d.params.flatMap (·.lines) ++ ['*'] :: d.proseLines

/-- The comment of the function `name`, with as many line breaks after it. -/
def comment (d : FunctionDoc) (name : String) (breaks : Nat) : String :=
  String.ofList (joined '\n'
    (['*'] :: headerLine name :: (d.body ++ List.replicate breaks [])))

end FunctionDoc

/-! ## Legible comments -/

/-- The line is not blank and has no blanks at its ends. -/
def isWords (line : Line) : Bool := !line.isEmpty && trim line == line && !line.contains '\n'

/-- The line has no blanks at its end and does not start the return section. -/
def isSummary (line : Line) : Bool :=
  trimEnd line == line && !line.contains '\n' && !startsWith "Returns".toList line

/-- The line goes on with the argument above it. -/
def goesOn (line : Line) : Bool :=
  isWords line && !startsWith ['@'] line && !startsWith "Returns".toList line

/-- The parameter has a name that stands before a colon, and lines that stay together. -/
def DocumentedParam.isLegible (p : DocumentedParam) : Bool :=
  isWords p.name.toList && !p.name.toList.contains ':' && isWords p.doc.first
    && p.doc.more.all goesOn

/-- The comment can be told apart from its layout. -/
structure FunctionDoc.Legible (d : FunctionDoc) (name : String) : Prop where
  name : '\n' ∉ name.toList
  distinct : (d.params.map (·.name)).Nodup
  params : ∀ p ∈ d.params, p.isLegible = true
  summary : ∀ l ∈ d.summary, isSummary l = true
  starts : d.summary.head?.any (fun l => opens l && !startsWith ['@'] l) = true
  ends : d.summary.getLast?.any (!·.isEmpty) = true
  returns : ∀ l ∈ d.returns.lines, isWords l = true

variable {line : Line}

theorem isWords_iff :
    isWords line = true ↔ opens line = true ∧ closes line = true ∧ '\n' ∉ line := by
  simp only [isWords, Bool.and_eq_true, Bool.not_eq_true', List.isEmpty_eq_false_iff, beq_iff_eq,
    List.contains_eq_mem, decide_eq_false_iff_not, and_assoc]
  rw [← and_assoc, ← and_assoc]
  refine and_congr_left fun _ => ⟨fun ⟨hne, htrim⟩ => ?_, fun ⟨hopens, hcloses⟩ => ?_⟩
  · rw [← htrim] at hne ⊢
    exact ⟨opens_trim hne, closes_trim hne⟩
  · exact ⟨ne_nil_of_opens hopens, trim_of_opens_closes hopens hcloses⟩

theorem blank_gap : ∀ c ∈ [' '], isBlank c = true :=
  List.forall_mem_singleton.mpr rfl

theorem trim_of_isWords (h : isWords line = true) : trim line = line := by
  simp only [isWords, Bool.and_eq_true, beq_iff_eq] at h
  exact h.1.2

theorem starred_of_closes (h : closes line = true) : starred line = ['*', ' '] ++ line := by
  cases line with
  | nil => cases h
  | cons c cs => rfl

/-- The words on the line are what stands on it. -/
theorem content_starred (h : isWords line = true) : content (starred line) = line := by
  rw [starred_of_closes (isWords_iff.mp h).2.1]
  exact (trim_append blank_gap line).trans (trim_of_isWords h)

theorem trim_starred (h : closes line = true) : trim (starred line) = starred line := by
  rw [starred_of_closes h]
  exact trim_of_opens_closes rfl (closes_append _ h)

/-- What stands on a line of the summary is what was written. -/
theorem indented_starred (line : Line) : indented (starred line) = line := by
  cases line with
  | nil => rfl
  | cons c cs => rfl

theorem continues_starred (h : goesOn line = true) : continues true (starred line) = true := by
  simp only [goesOn, Bool.and_eq_true, Bool.not_eq_true'] at h
  obtain ⟨⟨hwords, hat⟩, hreturns⟩ := h
  have hcloses := (isWords_iff.mp hwords).2.1
  have hsize : ¬ byteSize (starred line) ≤ 2 := by
    cases line with
    | nil => cases hcloses
    | cons c cs =>
      have hc := c.utf8Size_pos
      change ¬ 1 + (1 + (c.utf8Size + byteSize cs)) ≤ 2
      omega
  have hstem : startsWith ['*', ' ', '@'] (starred line) = false := by
    rw [starred_of_closes hcloses]
    exact hat
  rw [continues, trim_starred hcloses, content_starred hwords, hstem, hreturns]
  simp [hsize]

/-! ## The lines of the comment -/

/-- The line is one of a comment as it is read. -/
def IsBlockLine (line : Line) : Prop := '\n' ∉ line ∧ trimEnd line = line

theorem isBlockLine_of_isWords (h : isWords line = true) : IsBlockLine line :=
  ⟨(isWords_iff.mp h).2.2, trimEnd_of_closes (isWords_iff.mp h).2.1⟩

theorem isBlockLine_of_isSummary (h : isSummary line = true) : IsBlockLine line := by
  simp only [isSummary, Bool.and_eq_true, beq_iff_eq, Bool.not_eq_true', List.contains_eq_mem,
    decide_eq_false_iff_not] at h
  exact ⟨h.1.2, h.1.1⟩

theorem isBlockLine_starred (h : IsBlockLine line) : IsBlockLine (starred line) := by
  cases line with
  | nil => exact ⟨by decide, rfl⟩
  | cons c cs =>
    have hcloses : closes (c :: cs) = true := closes_of_trimEnd h.2 (List.cons_ne_nil _ _)
    rw [starred_of_closes hcloses]
    refine ⟨fun hmem => ?_, trimEnd_of_closes (closes_append _ hcloses)⟩
    exact (List.mem_append.mp hmem).elim (by decide) h.1

theorem isBlockLine_map_starred {ls : List Line} (h : ∀ l ∈ ls, IsBlockLine l) :
    ∀ l ∈ ls.map starred, IsBlockLine l :=
  List.forall_mem_map.mpr fun l hl => isBlockLine_starred (h l hl)

/-! ## Reading what was written -/

namespace Prose

variable {t : Prose}

/-- Lines of words are joined with nothing lost, empty lines after them aside. -/
theorem trim_text (h : ∀ l ∈ t.lines, isWords l = true) (n : Nat) :
    trim (joined ' ' (t.lines ++ List.replicate n [])) = joined ' ' t.lines := by
  refine trim_joined rfl ?_ ?_ n
  · exact (isWords_iff.mp (h t.first List.mem_cons_self)).1
  · have hlast : t.lines.getLast? = some (t.lines.getLast (List.cons_ne_nil _ _)) :=
      List.getLast?_eq_some_getLast _
    rw [hlast]
    exact (isWords_iff.mp (h _ (List.getLast_mem _))).2.1

theorem map_content (h : ∀ l ∈ t.lines, isWords l = true) :
    (t.more.map starred).map content = t.more := by
  have hself : ∀ l ∈ t.more, (content ∘ starred) l = l := fun l hl =>
    content_starred (h l (List.mem_cons_of_mem _ hl))
  rw [List.map_map, List.map_congr_left hself, List.map_id']

theorem map_trim (h : ∀ l ∈ t.lines, isWords l = true) :
    (t.more.map starred).map trim = t.more.map starred := by
  rw [List.map_map]
  exact List.map_congr_left fun l hl =>
    trim_starred (isWords_iff.mp (h l (List.mem_cons_of_mem _ hl))).2.1

end Prose

namespace DocumentedParam

variable {p : DocumentedParam}

/-- What the lines on the parameter are read as. -/
def argument (p : DocumentedParam) : Argument :=
  .described p.name.toList (joined ' ' p.doc.lines)

theorem isLegible_iff : p.isLegible = true ↔ (isWords p.name.toList = true ∧ ':' ∉ p.name.toList)
    ∧ (∀ l ∈ p.doc.lines, isWords l = true) ∧ ∀ l ∈ p.doc.more, goesOn l = true := by
  simp only [isLegible, Bool.and_eq_true, Bool.not_eq_true', List.contains_eq_mem,
    decide_eq_false_iff_not, List.all_eq_true, Prose.lines, List.forall_mem_cons, and_assoc]
  refine and_congr_right fun _ => and_congr_right fun _ => and_congr_right fun _ => ?_
  refine ⟨fun hmore => ⟨fun l hl => ?_, hmore⟩, And.right⟩
  have hl := hmore l hl
  simp only [goesOn, Bool.and_eq_true] at hl
  exact hl.1.1

theorem isBlockLine_lines (h : p.isLegible = true) :
    ∀ l ∈ p.lines, IsBlockLine l := by
  obtain ⟨⟨hname, -⟩, hwords, -⟩ := isLegible_iff.mp h
  obtain ⟨hfirst, hmore⟩ := List.forall_mem_cons.mp hwords
  have hlines : ∀ l ∈ p.doc.more, IsBlockLine l := fun l hl => isBlockLine_of_isWords (hmore l hl)
  refine List.forall_mem_cons.mpr ⟨⟨?_, ?_⟩, isBlockLine_map_starred hlines⟩
  · have hbreak := (isWords_iff.mp hname).2.2
    have hbreak' := (isWords_iff.mp hfirst).2.2
    simp [hbreak, hbreak']
  · refine trimEnd_of_closes ?_
    rw [show ':' :: ' ' :: p.doc.first = [':', ' '] ++ p.doc.first from rfl]
    exact closes_append _ (closes_append _ (isWords_iff.mp hfirst).2.1)

/-- The lines on a parameter are read up to a line that does not go on with them. -/
theorem arguments_lines (h : p.isLegible = true) {l : Line} (hl : continues true l = false)
    (rest : List Line) :
    arguments true (p.lines ++ l :: rest)
      = (p.argument :: (arguments true (l :: rest)).1, (arguments true (l :: rest)).2) := by
  obtain ⟨⟨hname, hcolon⟩, hwords, hmore⟩ := isLegible_iff.mp h
  have hgoes : ∀ m ∈ p.doc.more.map starred, continues true m = true := by
    intro m hm
    obtain ⟨k, hk, rfl⟩ := List.mem_map.mp hm
    exact continues_starred (hmore k hk)
  have htake : (p.doc.more.map starred ++ l :: rest).takeWhile (continues true)
      = p.doc.more.map starred := by
    rw [List.takeWhile_append_of_pos hgoes, List.takeWhile_cons_of_neg (by simp [hl]),
      List.append_nil]
  have hdrop : (p.doc.more.map starred ++ l :: rest).dropWhile (continues true) = l :: rest := by
    rw [List.dropWhile_append_of_pos hgoes, List.dropWhile_cons_of_neg (by simp [hl])]
  have hread : (p.doc.more.map starred).map (fun m => content (trim m)) = p.doc.more := by
    have hcontent := Prose.map_content hwords
    rwa [← Prose.map_trim hwords, List.map_map] at hcontent
  have hfirst : trim (' ' :: p.doc.first) = p.doc.first :=
    (trim_append blank_gap _).trans (trim_of_isWords (hwords _ List.mem_cons_self))
  have htext := Prose.trim_text hwords 0
  rw [List.replicate_zero, List.append_nil] at htext
  rw [lines, List.cons_append, arguments_of_start hcolon, htake, hdrop, hread, hfirst,
    trim_of_isWords hname]
  exact congrArg (fun text => (Argument.described _ text :: _, _)) htext

end DocumentedParam

namespace FunctionDoc

variable {d : FunctionDoc} {name : String}

theorem arguments_params {ps : List DocumentedParam} (h : ∀ p ∈ ps, p.isLegible = true)
    (after : List Line) :
    arguments true (ps.flatMap (·.lines) ++ ['*'] :: after)
      = (ps.map (·.argument), ['*'] :: after) := by
  induction ps with
  | nil => exact arguments_of_stop rfl after
  | cons p ps ih =>
    obtain ⟨hp, hps⟩ := List.forall_mem_cons.mp h
    -- What comes next is the first line on the next parameter or the separator.
    obtain ⟨l, tail, htail, hl⟩ : ∃ l tail, ps.flatMap (·.lines) ++ ['*'] :: after = l :: tail
        ∧ continues true l = false := by
      cases ps with
      | nil => exact ⟨['*'], after, rfl, rfl⟩
      | cons q qs =>
        refine ⟨_, _, rfl, Bool.eq_false_iff.mpr fun hgoes => ?_⟩
        cases not_isArgument_of_continues hgoes
    rw [List.flatMap_cons, List.append_assoc, htail, DocumentedParam.arguments_lines hp hl tail,
      ← htail, ih hps, List.map_cons]

theorem exists_first (h : d.Legible name) : ∃ first tail, d.proseLines = starred first :: tail
    ∧ opens first = true ∧ startsWith ['@'] first = false := by
  have hstarts := h.starts
  rw [proseLines]
  cases hsummary : d.summary with
  | nil =>
    rw [hsummary] at hstarts
    cases hstarts
  | cons first more =>
    rw [hsummary, List.head?_cons, Option.any_some, Bool.and_eq_true, Bool.not_eq_true'] at hstarts
    exact ⟨first, _, rfl, hstarts⟩

/-- The reader takes in what is said of the parameters, and then the summary is next. -/
theorem arguments_body (h : d.Legible name) (n : Nat) :
    ∃ after, arguments true (skipSeparators (d.body ++ List.replicate n []))
        = (d.params.map (·.argument), after)
      ∧ skipSeparators after = d.proseLines ++ List.replicate n [] := by
  obtain ⟨first, tail, hprose, hopens, hat⟩ := exists_first h
  obtain ⟨c, cs, rfl⟩ := List.exists_cons_of_ne_nil (ne_nil_of_opens hopens)
  have hskip : skipSeparators (d.proseLines ++ List.replicate n [])
      = d.proseLines ++ List.replicate n [] := by
    rw [hprose]
    rfl
  rw [body]
  cases hparams : d.params with
  | nil =>
    refine ⟨_, ?_, hskip⟩
    refine (congrArg (arguments true) hskip).trans ?_
    rw [hprose]
    exact arguments_of_stop (l := starred (c :: cs)) hat _
  | cons p ps =>
    have hps : ∀ q ∈ p :: ps, q.isLegible = true := hparams ▸ h.params
    exact ⟨['*'] :: (d.proseLines ++ List.replicate n []), by
      rw [List.append_assoc]
      exact arguments_params hps _, hskip⟩

theorem proseLines_append (d : FunctionDoc) (n : Nat) :
    d.proseLines ++ List.replicate n [] = (d.summary ++ [[]]).map starred
      ++ starred ("Returns ".toList ++ d.returns.first)
        :: (d.returns.more.map starred ++ List.replicate n []) := by
  simp [proseLines, starred]

theorem startsReturns_starred (l : Line) :
    startsReturns (starred l) = startsWith "Returns".toList l := by
  rw [startsReturns, indented_starred]

/-- The summary ends where the return section starts. -/
theorem not_startsReturns_of_mem (h : d.Legible name) :
    ∀ l ∈ (d.summary ++ [[]]).map starred, (!startsReturns l) = true := by
  intro l hl
  obtain ⟨k, hk, rfl⟩ := List.mem_map.mp hl
  rw [startsReturns_starred]
  rcases List.mem_append.mp hk with hk | hk
  · have hsummary := h.summary k hk
    rw [isSummary, Bool.and_eq_true] at hsummary
    exact hsummary.2
  · rw [List.mem_singleton.mp hk]
    rfl

theorem startsReturns_returns (first : Line) :
    startsReturns (starred ("Returns ".toList ++ first)) = true := by
  rw [startsReturns_starred]
  rfl

theorem takeWhile_proseLines (h : d.Legible name) (n : Nat) :
    (d.proseLines ++ List.replicate n []).takeWhile (!startsReturns ·)
      = (d.summary ++ [[]]).map starred := by
  rw [proseLines_append, List.takeWhile_append_of_pos (not_startsReturns_of_mem h),
    List.takeWhile_cons_of_neg (by rw [startsReturns_returns]; decide), List.append_nil]

theorem dropWhile_proseLines (h : d.Legible name) (n : Nat) :
    (d.proseLines ++ List.replicate n []).dropWhile (!startsReturns ·)
      = starred ("Returns ".toList ++ d.returns.first)
        :: (d.returns.more.map starred ++ List.replicate n []) := by
  rw [proseLines_append, List.dropWhile_append_of_pos (not_startsReturns_of_mem h),
    List.dropWhile_cons_of_neg (by rw [startsReturns_returns]; decide)]

theorem returnsText_lines {t : Prose} (h : ∀ l ∈ t.lines, isWords l = true) (n : Nat) :
    returnsText (starred ("Returns ".toList ++ t.first) :: (t.more.map starred
      ++ List.replicate n [])) = joined ' ' t.lines := by
  have hcut : cut? [' '] ("Returns ".toList ++ t.first) = some ("Returns".toList, t.first) :=
    cut?_eq_some_iff.mpr ⟨rfl, by decide⟩
  have hmore : (t.more.map starred ++ List.replicate n []).map content
      = t.more ++ List.replicate n [] := by
    rw [List.map_append, Prose.map_content h, List.map_replicate]
    rfl
  rw [returnsText, indented_starred, hcut, hmore]
  dsimp only
  rw [trim_of_isWords (h _ List.mem_cons_self)]
  exact Prose.trim_text h n

theorem opens_summary (h : d.Legible name) : d.summary.head?.any opens = true := by
  obtain ⟨first, hfirst, hopens⟩ := (Option.any_eq_true _ _).mp h.starts
  rw [hfirst, Option.any_some]
  exact (Bool.and_eq_true_iff.mp hopens).1

theorem closes_summary (h : d.Legible name) : d.summary.getLast?.any closes = true := by
  obtain ⟨last, hlast, hne⟩ := (Option.any_eq_true _ _).mp h.ends
  rw [hlast, Option.any_some]
  have hline := isBlockLine_of_isSummary (h.summary last (List.mem_of_getLast? hlast))
  exact closes_of_trimEnd hline.2 (by simpa using hne)

/-- The summary keeps its line breaks and its indentation. -/
theorem trim_summary (h : d.Legible name) :
    trim (joined '\n' (((d.summary ++ [[]]).map starred).map indented)) = joined '\n' d.summary := by
  have hself : ∀ l ∈ d.summary ++ [[]], (indented ∘ starred) l = l := fun l _ => indented_starred l
  rw [List.map_map, List.map_congr_left hself, List.map_id']
  exact trim_joined rfl (opens_summary h) (closes_summary h) 1

/-- The lines of a written comment are read as they were written. -/
theorem blockLines_joined {ls : List Line} (h : ∀ l ∈ ls, IsBlockLine l) :
    blockLines (some (String.ofList (joined '\n' (['*'] :: ls)))) = ls := by
  have hall : ∀ l ∈ ['*'] :: ls, IsBlockLine l :=
    List.forall_mem_cons.mpr ⟨⟨by decide, rfl⟩, h⟩
  rw [blockLines, String.toList_ofList, lines_joined (List.cons_ne_nil _ _) fun l hl => (hall l hl).1,
    List.map_congr_left fun l hl => (hall l hl).2, List.map_id']
  rfl

theorem isBlockLine_lines (h : d.Legible name) (n : Nat) :
    ∀ l ∈ headerLine name :: (d.body ++ List.replicate n []), IsBlockLine l := by
  have hheader : IsBlockLine (headerLine name) := by
    refine ⟨?_, trimEnd_of_closes (closes_append _ rfl)⟩
    simp [headerLine, h.name]
  have hparams : ∀ l ∈ d.params.flatMap (·.lines), IsBlockLine l := by
    intro l hl
    obtain ⟨p, hp, hmem⟩ := List.mem_flatMap.mp hl
    exact DocumentedParam.isBlockLine_lines (h.params p hp) l hmem
  have hsummary : ∀ l ∈ d.summary.map starred, IsBlockLine l :=
    isBlockLine_map_starred fun l hl => isBlockLine_of_isSummary (h.summary l hl)
  have hreturns : ∀ l ∈ d.returns.more.map starred, IsBlockLine l :=
    isBlockLine_map_starred fun l hl =>
      isBlockLine_of_isWords (h.returns l (List.mem_cons_of_mem _ hl))
  have hfirst : IsBlockLine (starred ("Returns ".toList ++ d.returns.first)) := by
    obtain ⟨-, hcloses, hbreak⟩ := isWords_iff.mp (h.returns _ List.mem_cons_self)
    refine isBlockLine_starred ⟨fun hmem => ?_, trimEnd_of_closes (closes_append _ hcloses)⟩
    exact (List.mem_append.mp hmem).elim (by decide) hbreak
  have hseparator : IsBlockLine ['*'] := ⟨by decide, rfl⟩
  have hempty : ∀ l ∈ List.replicate n ([] : Line), IsBlockLine l := by
    intro l hl
    rw [List.eq_of_mem_replicate hl]
    exact ⟨List.not_mem_nil, rfl⟩
  simp only [body, proseLines, List.forall_mem_cons, List.forall_mem_append]
  exact ⟨hheader, ⟨hparams, hseparator, hsummary, hseparator, hfirst, hreturns⟩, hempty⟩

theorem describedArguments_map (ps : List DocumentedParam) :
    describedArguments (ps.map (·.argument))
      = ps.map fun p => (p.name.toList, joined ' ' p.doc.lines) := by
  rw [describedArguments, List.filterMap_map]
  exact congrFun List.filterMap_eq_map ps

theorem brokenArguments_map (ps : List DocumentedParam) :
    brokenArguments (ps.map (·.argument)) = [] := by
  rw [brokenArguments, List.filterMap_map, List.filterMap_eq_nil_iff]
  exact fun _ _ => rfl

theorem describedNames_map (ps : List DocumentedParam) :
    describedNames (ps.map (·.argument)) = ps.map (·.name) := by
  rw [describedNames, describedArguments_map, List.map_map]
  exact List.map_congr_left fun p _ => String.ofList_toList

/-- Every parameter takes what is said of it. -/
theorem map_describeAll (h : d.Legible name) :
    (d.params.map (·.param)).map
        ((describedArguments (d.params.map (·.argument))).foldl describe ·)
      = d.params.map (·.described) := by
  rw [List.map_map]
  refine List.map_congr_left fun p hp => ?_
  have hnodup : (describedNames (d.params.map (·.argument))).Nodup := by
    rw [describedNames_map]
    exact h.distinct
  have hmem : (p.name.toList, joined ' ' p.doc.lines)
      ∈ describedArguments (d.params.map (·.argument)) := by
    rw [describedArguments_map]
    exact List.mem_map_of_mem hp
  exact describeAll_of_mem hnodup hmem (congrArg some String.ofList_toList.symm)

theorem isEmpty_of_opens {cs : List Char} (h : opens cs = true) :
    (String.ofList cs).isEmpty = false := by
  cases cs with
  | nil => cases h
  | cons c cs => simp

/-- A comment gives back what was written in it, and has no flaws. -/
theorem readFunction_comment (h : d.Legible name) (breaks : Nat) (returnType : String) :
    readFunction (some (d.comment name breaks)) name returnType (d.params.map (·.param))
      = ⟨{ returnType
           params := d.params.map (·.described)
           returnDescription := d.returns.text
           description := String.ofList (joined '\n' d.summary) }, []⟩ := by
  have hlines : blockLines (some (d.comment name breaks))
      = headerLine name :: (d.body ++ List.replicate breaks []) :=
    blockLines_joined (isBlockLine_lines h breaks)
  have hheader : afterHeader (some (d.comment name breaks)) name
      = .ok (skipSeparators (d.body ++ List.replicate breaks [])) := by
    rw [afterHeader_of_head? (by rw [hlines]; rfl), hlines, List.tail_cons]
  obtain ⟨after, hargs, hafter⟩ := arguments_body h breaks
  have hnodup : ((d.params.map (·.param)).filterMap Param.name).Nodup := by
    have hnames : (d.params.map (·.param)).filterMap Param.name = d.params.map (·.name) := by
      rw [List.filterMap_map]
      exact congrFun List.filterMap_eq_map d.params
    rw [hnames]
    exact h.distinct
  have hstray : (describedArguments (d.params.map (·.argument))).filterMap
      (stray? (d.params.map (·.param))) = [] := by
    rw [stray_eq_nil_iff, describedNames_map]
    intro arg harg
    obtain ⟨p, hp, rfl⟩ := List.mem_map.mp harg
    exact List.mem_map_of_mem (List.mem_map_of_mem hp)
  have hundescribed : undescribedParams (d.params.map (·.described)) = [] := by
    rw [undescribedParams, List.filterMap_map, List.filterMap_eq_nil_iff]
    exact fun _ _ => rfl
  have hreturns : (String.ofList (joined ' ' d.returns.lines)).isEmpty = false :=
    isEmpty_of_opens (opens_joined (isWords_iff.mp (h.returns _ List.mem_cons_self)).1)
  have hsummary : (String.ofList (joined '\n' d.summary)).isEmpty = false :=
    isEmpty_of_opens (opens_joined (opens_summary h))
  simp only [readFunction, hheader, hargs, hafter, describeParams_eq hnodup,
    takeWhile_proseLines h, dropWhile_proseLines h, returnsText_lines h.returns, trim_summary h,
    map_describeAll h, brokenArguments_map, hstray, hundescribed, hreturns, hsummary]
  rfl

/-- A comment with an argument on two lines and a summary with an indented one. -/
def connection : FunctionDoc where
  params :=
    [{ type := "virConnectPtr", name := "conn",
       doc := ⟨"pointer to the".toList, ["hypervisor connection".toList]⟩ },
     { type := "unsigned int", name := "flags", doc := ⟨"unused".toList, []⟩ }]
  summary := ["Summary line".toList, "  indented example".toList]
  returns := ⟨"0 in case of success".toList, ["and -1 on error.".toList]⟩

theorem readFunction_of_connection :
    connection.Legible "virFoo"
    ∧ connection.comment "virFoo" 1
      = "*\n* virFoo:\n* @conn: pointer to the\n* hypervisor connection\n* @flags: unused\n*\n"
        ++ "* Summary line\n*   indented example\n*\n"
        ++ "* Returns 0 in case of success\n* and -1 on error.\n"
    ∧ readFunction (some (connection.comment "virFoo" 1)) "virFoo" "int"
        [⟨"virConnectPtr", some "conn", none⟩, ⟨"unsigned int", some "flags", none⟩]
      = ⟨{ returnType := "int"
           params := [⟨"virConnectPtr", some "conn", some "pointer to the hypervisor connection"⟩,
             ⟨"unsigned int", some "flags", some "unused"⟩]
           returnDescription := "0 in case of success and -1 on error."
           description := "Summary line\n  indented example" }, []⟩ := by
  have hlegible : connection.Legible "virFoo" :=
    ⟨by decide, by decide, by decide, by decide, by decide, by decide, by decide⟩
  refine ⟨hlegible, by decide +kernel, ?_⟩
  exact (readFunction_comment hlegible 1 "int").trans (by decide +kernel)

end FunctionDoc

end DocBlock

end HeaderAtlas
