import HeaderAtlas.Declaration.Directive
import HeaderAtlas.Proofs.Text.Fields

/-!
# Macros with parameters, however they are spaced

A line is split into words before its parameter list is looked for, so the list comes in parts
that are cut wherever there were blanks, also next to commas and parentheses. The parts are
joined again with one blank for each cut. That keeps the words of the fields between the commas
(`paramList_pieces`), which are all that the parameters are read from
(`splitParams_of_fieldWords`).

So however a definition with parameters is spaced, its name, its parameters and the words of
its body are found (`SpacedMacro.ofWords?_words`).
-/

namespace HeaderAtlas

open Text

namespace MacroParts

/-! ## The parts of a parameter list -/

section ParamList

variable {w inner tail q : List Char} {ws qs : List (List Char)}

theorem paramList_of_cut {inside rest : List Char} (h : cut? [')'] w = some (inside, rest))
    (ws : List (List Char)) : paramList (w :: ws) = (inside, ws) := by
  cases ws <;> rw [paramList, h]

theorem paramList_close (w : List Char) (ws : List (List Char)) :
    paramList ((')' :: w) :: ws) = ([], ws) :=
  paramList_of_cut (cut?_eq_some_iff.mpr ⟨(List.nil_append _).symm, List.not_mem_nil⟩) ws

theorem paramList_cons_char {c : Char} (hc : c ≠ ')') (w : List Char) (ws : List (List Char)) :
    paramList ((c :: w) :: ws)
      = (c :: (paramList (w :: ws)).1, (paramList (w :: ws)).2) := by
  cases hw : cut? [')'] w with
  | some p =>
    obtain ⟨inside, rest⟩ := p
    obtain ⟨rfl, hinside⟩ := cut?_eq_some_iff.mp hw
    have hcut : cut? [')'] (c :: (inside ++ ')' :: rest)) = some (c :: inside, rest) :=
      cut?_eq_some_iff.mpr ⟨rfl, List.not_mem_cons_of_ne_of_not_mem hc.symm hinside⟩
    rw [paramList_of_cut hcut, paramList_of_cut hw]
  | none =>
    have hcut : cut? [')'] (c :: w) = none :=
      cut?_eq_none_iff.mpr
        (List.not_mem_cons_of_ne_of_not_mem hc.symm (cut?_eq_none_iff.mp hw))
    cases ws with
    | nil => rw [paramList, hcut, paramList, hw]
    | cons v vs => rw [paramList, hcut, paramList, hw]; rfl

theorem paramList_nil_cons (w : List Char) (ws : List (List Char)) :
    paramList ([] :: w :: ws) = (' ' :: (paramList (w :: ws)).1, (paramList (w :: ws)).2) := by
  rw [paramList]
  rfl

/-- The words of a text up to a closing parenthesis are joined to a list with the fields of the
text, and the words after it are left. By induction on the text, with anything in front of it:
what follows a character decides whether it is a part of the word after it. -/
theorem paramList_pieces (hinner : ')' ∉ inner)
    (htail : ∀ c, tail.head? = some c → isBlank c = true)
    (hq : pieces isBlank (inner ++ ')' :: tail) = q :: qs) :
    (∀ xs, fieldWords (xs ++ (paramList (q :: qs.filter (!·.isEmpty))).1)
        = fieldWords (xs ++ inner))
      ∧ (paramList (q :: qs.filter (!·.isEmpty))).2 = words tail := by
  induction inner generalizing q qs with
  | nil =>
    obtain ⟨r, rs, hr⟩ := List.exists_cons_of_ne_nil (pieces_ne_nil isBlank tail)
    rw [List.nil_append, pieces_cons_of_neg tail (by decide), hr] at hq
    cases hq
    rw [paramList_close]
    refine ⟨fun xs => rfl, ?_⟩
    cases tail with
    | nil => cases hr; rfl
    | cons c cs =>
      rw [pieces_cons_of_pos cs (htail c rfl)] at hr
      cases hr
      exact (words_cons_blank cs (htail c rfl)).symm
  | cons c inner ih =>
    obtain ⟨hc, hrest⟩ := List.ne_and_not_mem_of_not_mem_cons hinner
    obtain ⟨r, rs, hr⟩ :=
      List.exists_cons_of_ne_nil (pieces_ne_nil isBlank (inner ++ ')' :: tail))
    obtain ⟨ihfields, ihrest⟩ := ih hrest hr
    cases hblank : isBlank c with
    | true =>
      rw [List.cons_append, pieces_cons_of_pos _ hblank, hr] at hq
      cases hq
      cases r with
      | nil =>
        -- The next character is blank too, and the empty piece between them is no word.
        cases inner with
        | nil =>
          rw [List.nil_append, pieces_cons_of_neg tail (by decide)] at hr
          split at hr <;> cases hr
        | cons d ds =>
          have hd : isBlank d = true := by
            rw [← Bool.not_eq_false]
            intro hd
            rw [List.cons_append, pieces_cons_of_neg _ hd] at hr
            split at hr <;> cases hr
          refine ⟨fun xs => ?_, ihrest⟩
          rw [fieldWords_blank_blank hblank hd]
          exact ihfields xs
      | cons d ds =>
        rw [List.filter_cons_of_pos rfl, paramList_nil_cons]
        refine ⟨fun xs => ?_, ihrest⟩
        rw [fieldWords_blank hblank (by decide : isBlank ' ' = true),
          List.append_cons xs ' ' inner, List.append_cons]
        exact ihfields (xs ++ [' '])
    | false =>
      rw [List.cons_append, pieces_cons_of_neg _ hblank, hr] at hq
      cases hq
      rw [paramList_cons_char hc.symm]
      refine ⟨fun xs => ?_, ihrest⟩
      rw [List.append_cons, List.append_cons xs c inner]
      exact ihfields (xs ++ [c])

/-- Where no field has more than one word, the parameters are these words. -/
theorem splitParams_of_fieldWords {list : List Char}
    (h : ∀ ws ∈ fieldWords list, ws.length ≤ 1) :
    splitParams list = (fieldWords list).flatten.map String.ofList := by
  rw [splitParams, fieldWords]
  rw [fieldWords] at h
  congr 1
  generalize pieces (· == ',') list = fields at h
  induction fields with
  | nil => rfl
  | cons field fields ih =>
    rw [List.map_cons] at h
    obtain ⟨hfield, hfields⟩ := List.forall_mem_cons.mp h
    rw [List.map_cons, List.map_cons, List.flatten_cons, ← ih hfields]
    cases hws : words field with
    | nil => rw [trim_of_words_nil hws]; rfl
    | cons w ws =>
      rw [hws, List.length_cons] at hfield
      obtain rfl : ws = [] := List.length_eq_zero_iff.mp (by omega)
      have hne : w ≠ [] := by
        rintro rfl
        have hmem : [] ∈ words field := hws ▸ List.mem_singleton_self _
        exact absurd (List.mem_filter.mp hmem).2 (by simp)
      rw [trim_of_words hws, List.filter_cons_of_pos (by simpa using hne)]
      rfl

end ParamList

end MacroParts

/-! ## A definition as it is written -/

/-- A parameter and the blanks around it. -/
structure SpacedParam where
  before : List Char
  name : List Char
  after : List Char
  before_blank : ∀ c ∈ before, isBlank c = true
  after_blank : ∀ c ∈ after, isBlank c = true
  name_ne_nil : name ≠ []
  name_solid : ∀ c ∈ name, isBlank c = false
  comma_not_mem : ',' ∉ name
  paren_not_mem : ')' ∉ name

/-- A word of the body and the blanks in front of it. -/
structure SpacedWord where
  before : List Char
  word : List Char
  before_ne_nil : before ≠ []
  before_blank : ∀ c ∈ before, isBlank c = true
  word_ne_nil : word ≠ []
  word_solid : ∀ c ∈ word, isBlank c = false

/-- The name of a macro, its parameters in parentheses directly after the name, and its body.
There may be blanks in the parentheses if there are no parameters, and at the end. -/
structure SpacedMacro where
  name : List Char
  params : List SpacedParam
  inside : List Char
  body : List SpacedWord
  after : List Char
  name_solid : ∀ c ∈ name, isBlank c = false
  paren_not_mem : '(' ∉ name
  inside_blank : ∀ c ∈ inside, isBlank c = true
  after_blank : ∀ c ∈ after, isBlank c = true

namespace SpacedParam

/-- The text of a parameter. -/
def text (p : SpacedParam) : List Char := p.before ++ p.name ++ p.after

variable (p : SpacedParam)

theorem words_text : words p.text = [p.name] := by
  rw [text, words_append fun c d _ hd => .inr (p.after_blank d (List.mem_of_mem_head? hd)),
    words_append fun c d hc _ => .inl (p.before_blank c (List.mem_of_getLast? hc)),
    words_of_blank p.before_blank, words_of_blank p.after_blank,
    words_of_solid p.name_ne_nil p.name_solid, List.append_nil, List.nil_append]

theorem not_mem_text {c : Char} (hc : isBlank c = false) (h : c ∉ p.name) : c ∉ p.text := by
  rw [text, List.mem_append, List.mem_append]
  rintro ((hbefore | hname) | hafter)
  · exact not_mem_of_blank hc p.before_blank hbefore
  · exact h hname
  · exact not_mem_of_blank hc p.after_blank hafter

end SpacedParam

namespace SpacedWord

/-- The text of a word. -/
def text (w : SpacedWord) : List Char := w.before ++ w.word

theorem head?_flatMap_text {ws : List SpacedWord} {c : Char}
    (h : (ws.flatMap text).head? = some c) : isBlank c = true := by
  cases ws with
  | nil => cases h
  | cons w ws =>
    obtain ⟨b, bs, hb⟩ := List.exists_cons_of_ne_nil w.before_ne_nil
    rw [List.flatMap_cons, text, hb] at h
    rw [← Option.some.inj h]
    exact w.before_blank b (hb ▸ List.mem_cons_self)

theorem words_flatMap_text (ws : List SpacedWord) : words (ws.flatMap text) = ws.map word := by
  induction ws with
  | nil => rfl
  | cons w ws ih =>
    rw [List.flatMap_cons, text, words_append fun c d _ hd => .inr (head?_flatMap_text hd), ih,
      words_append fun c d hc _ => .inl (w.before_blank c (List.mem_of_getLast? hc)),
      words_of_blank w.before_blank, words_of_solid w.word_ne_nil w.word_solid]
    rfl

end SpacedWord

namespace SpacedMacro

/-- What stands between the parentheses. -/
def list (m : SpacedMacro) : List Char :=
  m.inside ++ [','].intercalate (m.params.map SpacedParam.text)

/-- What stands after them. -/
def tail (m : SpacedMacro) : List Char := m.body.flatMap SpacedWord.text ++ m.after

/-- The text of a definition, from the name on. -/
def text (m : SpacedMacro) : List Char := m.name ++ '(' :: (m.list ++ ')' :: m.tail)

/-- The name, the parameters and the body of a definition. -/
def parts (m : SpacedMacro) : MacroParts where
  name := String.ofList m.name
  params := m.params.map fun p => String.ofList p.name
  body := m.body.map fun w => String.ofList w.word

variable (m : SpacedMacro)

/-- The fields of the list are the parameters, or a single one without words. -/
theorem fieldWords_list :
    fieldWords m.list = m.params.map (fun p => [p.name])
      ∨ m.params = [] ∧ fieldWords m.list = [[]] := by
  have hcomma : ∀ c ∈ m.inside, (fun c => c == ',') c = false := by
    intro c hc
    refine beq_eq_false_iff_ne.mpr ?_
    rintro rfl
    exact not_mem_of_blank rfl m.inside_blank hc
  rw [list, fieldWords]
  cases hparams : m.params with
  | nil =>
    right
    refine ⟨rfl, ?_⟩
    rw [List.map_nil, List.intercalate_nil, List.append_nil, pieces_eq_singleton hcomma,
      List.map_singleton, words_of_blank m.inside_blank]
  | cons p ps =>
    left
    have hplain : ∀ v ∈ (p :: ps).map SpacedParam.text, ∀ c ∈ v,
        (fun c => c == ',') c = false := by
      intro v hv c hc
      obtain ⟨p, -, rfl⟩ := List.mem_map.mp hv
      refine beq_eq_false_iff_ne.mpr ?_
      rintro rfl
      exact p.not_mem_text rfl p.comma_not_mem hc
    rw [List.map_cons] at hplain ⊢
    rw [pieces_append_of_neg hcomma (pieces_intercalate (p := (· == ',')) (BEq.rfl) hplain),
      List.map_cons, words_append fun c d hc _ => .inl (m.inside_blank c (List.mem_of_getLast? hc)),
      words_of_blank m.inside_blank, List.nil_append, p.words_text, List.map_map, List.map_cons]
    congr 1
    exact List.map_congr_left fun q _ => q.words_text

theorem splitParams_of_list {list : List Char} (h : fieldWords list = fieldWords m.list) :
    MacroParts.splitParams list = m.params.map fun p => String.ofList p.name := by
  have hfields : (∀ ws ∈ fieldWords list, ws.length ≤ 1)
      ∧ (fieldWords list).flatten = m.params.map SpacedParam.name := by
    rcases h ▸ m.fieldWords_list with hlist | ⟨hnil, hlist⟩
    · rw [hlist]
      refine ⟨fun ws hws => ?_, ?_⟩
      · obtain ⟨p, -, rfl⟩ := List.mem_map.mp hws
        exact Nat.le_refl 1
      · rw [← List.flatMap_def, List.map_eq_flatMap]
    · rw [hlist, hnil]
      exact ⟨by simp, rfl⟩
  rw [MacroParts.splitParams_of_fieldWords hfields.1, hfields.2, List.map_map]
  rfl

theorem paren_not_mem_list : ')' ∉ m.list := by
  rw [list, List.mem_append]
  rintro (hinside | hparams)
  · exact not_mem_of_blank rfl m.inside_blank hinside
  · refine not_mem_intercalate (by decide) (fun w hw => ?_) hparams
    obtain ⟨p, -, rfl⟩ := List.mem_map.mp hw
    exact p.not_mem_text rfl p.paren_not_mem

theorem head?_tail {c : Char} (h : m.tail.head? = some c) : isBlank c = true := by
  rw [tail, List.head?_append] at h
  cases hbody : (m.body.flatMap SpacedWord.text).head? with
  | some d =>
    rw [hbody] at h
    cases h
    exact SpacedWord.head?_flatMap_text hbody
  | none =>
    rw [hbody] at h
    exact m.after_blank c (List.mem_of_mem_head? h)

theorem words_tail : words m.tail = m.body.map SpacedWord.word := by
  rw [tail, words_append fun c d _ hd => .inr (m.after_blank d (List.mem_of_mem_head? hd)),
    words_of_blank m.after_blank, List.append_nil, SpacedWord.words_flatMap_text]

/-- **A definition with parameters is split into its parts.** However it is spaced, also around
the commas and inside the parentheses, its words give its name, its parameters in order and the
words of its body. -/
theorem ofWords?_words :
    MacroParts.ofWords? ((words m.text).map String.ofList) = some m.parts := by
  obtain ⟨q, qs, hq⟩ :=
    List.exists_cons_of_ne_nil (pieces_ne_nil isBlank (m.list ++ ')' :: m.tail))
  have hname : ∀ c ∈ m.name ++ ['('], isBlank c = false := by
    intro c hc
    rcases List.mem_append.mp hc with hc | hc
    · exact m.name_solid c hc
    · rw [List.mem_singleton.mp hc]; rfl
  have hwords : words m.text = (m.name ++ '(' :: q) :: qs.filter (!·.isEmpty) := by
    rw [text, List.append_cons, words, pieces_append_of_neg hname hq,
      List.filter_cons_of_pos (by simp), List.append_assoc, List.singleton_append]
  have hcut : cut? ['('] (String.ofList (m.name ++ '(' :: q)).toList = some (m.name, q) := by
    rw [String.toList_ofList]
    exact cut?_eq_some_iff.mpr ⟨rfl, m.paren_not_mem⟩
  have hmore : ((qs.filter (!·.isEmpty)).map String.ofList).map String.toList
      = qs.filter (!·.isEmpty) := by
    rw [List.map_map]
    exact List.map_id'' (fun _ => String.toList_ofList) _
  obtain ⟨hfields, hbody⟩ :=
    MacroParts.paramList_pieces m.paren_not_mem_list (fun _ => m.head?_tail) hq
  rw [hwords, List.map_cons, MacroParts.ofWords?, hcut]
  dsimp only
  rw [hmore, hbody, m.splitParams_of_list (by simpa using hfields []), m.words_tail, List.map_map]
  rfl

/-- A parameter of one letter, with a character in front of it and a blank after it. -/
def letter (before c : Char) (hbefore : isBlank before = true) (hc : isBlank c = false)
    (hcomma : ',' ≠ c) (hparen : ')' ≠ c) : SpacedParam where
  before := [before]
  name := [c]
  after := [' ']
  before_blank := List.forall_mem_singleton.mpr hbefore
  after_blank := List.forall_mem_singleton.mpr rfl
  name_ne_nil := List.cons_ne_nil _ _
  name_solid := List.forall_mem_singleton.mpr hc
  comma_not_mem := by simpa using hcomma
  paren_not_mem := by simpa using hparen

/-- A definition whose list is cut within both parameters. -/
def maximum : SpacedMacro where
  name := ['M', 'A', 'X']
  params := [letter '\t' 'a' rfl rfl (by decide) (by decide),
    letter ' ' 'b' rfl rfl (by decide) (by decide)]
  inside := []
  body := [
    ⟨[' ', ' '], ['a', '+'], by decide, List.all_eq_true.mp rfl, by decide, solid_of_all rfl⟩,
    ⟨[' '], ['b'], by decide, List.all_eq_true.mp rfl, by decide, solid_of_all rfl⟩]
  after := []
  name_solid := solid_of_all rfl
  paren_not_mem := by decide
  inside_blank := nofun
  after_blank := nofun

theorem ofWords?_words_maximum :
    maximum.text = "MAX(\ta , b )  a+ b".toList
      ∧ words maximum.text
        = ["MAX(".toList, "a".toList, ",".toList, "b".toList, ")".toList, "a+".toList, "b".toList]
      ∧ MacroParts.ofWords? ((words maximum.text).map String.ofList)
        = some ⟨"MAX", ["a", "b"], ["a+", "b"]⟩ :=
  ⟨by decide +kernel, by decide +kernel, maximum.ofWords?_words.trans (by decide +kernel)⟩

end SpacedMacro

end HeaderAtlas
