import HeaderAtlas.DocBlock.Basic
import HeaderAtlas.Proofs.Text.Blanks
import Mathlib.Data.List.Forall2
import Mathlib.Data.List.Induction

/-!
# The sections of a doc comment

A comment is read section by section, and each section takes the lines up to the next.
Here each of them is told by itself: the line naming the subject is the first one that is
not the lone asterisk of the opening, the argument section is the lines up to the first that
neither starts an argument nor goes on with one, and the descriptions are filled in
parameter by parameter.
-/

namespace HeaderAtlas

open Text

namespace DocBlock

/-! ## The line naming the subject -/

section Header

/-- The lines of a comment, without the blanks at their ends. A lone asterisk on the first
line belongs to the opening. -/
def blockLines : Option String → List Line
  | none => []
  | some text =>
    let ls := (lines text.toList).map trimEnd
    if ls.head? == some ['*'] then ls.tail else ls

variable {comment : Option String} {text name : String}

theorem afterHeader_of_star (h : text.toList.head? = some '*') :
    afterHeader (some text) name = match blockLines (some text) with
      | [] => .error (.header [])
      | l :: rest =>
        if l = headerLine name then .ok (skipSeparators rest) else .error (.header l) := by
  rw [afterHeader, Option.map_some]
  exact if_neg (by simp [h])

/-- A comment that names its subject starts with an asterisk. -/
theorem star_of_blockLines {l : Line} (hl : l.head? = some '*')
    (h : (blockLines (some text)).head? = some l) : text.toList.head? = some '*' := by
  cases hls : lines text.toList with
  | nil => exact absurd hls (pieces_ne_nil _ _)
  | cons first ls =>
    refine head?_of_lines hls (head?_of_trimEnd ?_)
    rw [blockLines, hls] at h
    split at h
    · next hlone =>
      rw [List.map_cons, List.head?_cons, beq_iff_eq, Option.some.injEq] at hlone
      rw [hlone]
      rfl
    · rw [List.map_cons, List.head?_cons, Option.some.injEq] at h
      rw [h, hl]

theorem afterHeader_of_head? (h : (blockLines comment).head? = some (headerLine name)) :
    afterHeader comment name = .ok (skipSeparators (blockLines comment).tail) := by
  cases comment with
  | none => cases h
  | some text =>
    obtain ⟨rest, hrest⟩ := List.head?_eq_some_iff.mp h
    rw [afterHeader_of_star (star_of_blockLines rfl h), hrest]
    exact if_pos rfl

theorem afterHeader_of_ne (h : (blockLines comment).head? ≠ some (headerLine name)) :
    ∃ flaw, afterHeader comment name = .error flaw := by
  cases comment with
  | none => exact ⟨.absent, rfl⟩
  | some text =>
    by_cases hstar : text.toList.head? = some '*'
    · rw [afterHeader_of_star hstar]
      cases hls : blockLines (some text) with
      | nil => exact ⟨_, rfl⟩
      | cons l rest => exact ⟨_, if_neg fun hl => h (by rw [hls, hl, List.head?_cons])⟩
    · exact ⟨.unmarked, if_pos (by simpa using hstar)⟩

end Header

/-! ## The argument section -/

/-- Does the line start an argument? -/
def isArgument (line : Line) : Bool := startsWith ['*', ' ', '@'] line

/-- The line names the argument that it describes. -/
def Names (line : Line) (arg : String) : Prop :=
  ∃ before after, line = ['*', ' ', '@'] ++ before ++ ':' :: after ∧ ':' ∉ before
    ∧ String.ofList (trim before) = arg

/-- The argument section at the head of the lines: those that start an argument, and those
that go on with one that is `described`. -/
def argumentSection (untilReturns described : Bool) : List Line → List Line
  | [] => []
  | l :: ls =>
    if isArgument l then l :: argumentSection untilReturns (l.contains ':') ls
    else if described && continues untilReturns l then l :: argumentSection untilReturns true ls
    else []

/-- The lines of the section that start an argument. -/
def argumentLines (untilReturns : Bool) (ls : List Line) : List Line :=
  (argumentSection untilReturns false ls).filter isArgument

/-- What the line is read as. -/
inductive StemsFrom : Argument → Line → Prop where
  | described {before after description : Line} (h : ':' ∉ before) :
    StemsFrom (.described (trim before) description) (['*', ' ', '@'] ++ before ++ ':' :: after)
  | broken {line : Line} (h : ':' ∉ line) : StemsFrom (.broken line) line

variable {untilReturns : Bool}

/-- No line goes on with the argument before it and starts the next one. -/
theorem not_isArgument_of_continues {line : Line} (h : continues untilReturns line = true) :
    isArgument line = false := by
  rw [← Bool.not_eq_true, isArgument, startsWith_iff]
  rintro ⟨rest, rfl⟩
  have hcloses : closes ['*', ' ', '@'] = true := rfl
  have htrim : trim (['*', ' ', '@'] ++ rest) = ['*', ' ', '@'] ++ trimEnd rest :=
    trimEnd_append hcloses rest
  have hstem : startsWith ['*', ' ', '@'] (trim (['*', ' ', '@'] ++ rest)) = true :=
    startsWith_iff.mpr ⟨_, htrim.symm⟩
  rw [continues, hstem] at h
  simp at h

/-- The lines that go on with an argument stand before the rest of the section. -/
theorem argumentSection_described (ls : List Line) :
    argumentSection untilReturns true ls = ls.takeWhile (continues untilReturns)
      ++ argumentSection untilReturns false (ls.dropWhile (continues untilReturns)) := by
  induction ls with
  | nil => rfl
  | cons l ls ih =>
    cases hl : continues untilReturns l with
    | true =>
      rw [List.takeWhile_cons_of_pos hl, List.dropWhile_cons_of_pos hl, List.cons_append, ← ih,
        argumentSection, not_isArgument_of_continues hl, hl]
      rfl
    | false =>
      rw [List.takeWhile_cons_of_neg (by simp [hl]), List.dropWhile_cons_of_neg (by simp [hl]),
        List.nil_append, argumentSection, argumentSection, hl]
      rfl

section Starts

variable {l : Line} (hl : isArgument l = true) (rest : List Line)

include hl

theorem argumentSection_of_colon (hcolon : ':' ∈ l) :
    argumentSection untilReturns false (l :: rest) = l :: rest.takeWhile (continues untilReturns)
      ++ argumentSection untilReturns false (rest.dropWhile (continues untilReturns)) := by
  rw [argumentSection, if_pos hl, List.contains_iff_mem.mpr hcolon, argumentSection_described,
    List.cons_append]

theorem argumentSection_of_no_colon (hcolon : ':' ∉ l) :
    argumentSection untilReturns false (l :: rest)
      = l :: argumentSection untilReturns false rest := by
  rw [argumentSection, if_pos hl, List.contains_eq_mem, decide_eq_false hcolon]

theorem argumentLines_of_colon (hcolon : ':' ∈ l) :
    argumentLines untilReturns (l :: rest)
      = l :: argumentLines untilReturns (rest.dropWhile (continues untilReturns)) := by
  have hmore : (rest.takeWhile (continues untilReturns)).filter isArgument = [] := by
    refine List.filter_eq_nil_iff.mpr fun m hm => ?_
    have hgoes := List.all_eq_true.mp List.all_takeWhile m hm
    simp [not_isArgument_of_continues hgoes]
  rw [argumentLines, argumentSection_of_colon hl rest hcolon, List.cons_append,
    List.filter_cons_of_pos hl, List.filter_append, hmore]
  rfl

theorem argumentLines_of_no_colon (hcolon : ':' ∉ l) :
    argumentLines untilReturns (l :: rest) = l :: argumentLines untilReturns rest := by
  rw [argumentLines, argumentSection_of_no_colon hl rest hcolon, List.filter_cons_of_pos hl]
  rfl

end Starts

/-- The reader consumes the section, and reads one argument for each line that starts one. -/
theorem arguments_spec (untilReturns : Bool) (ls : List Line) :
    ls = argumentSection untilReturns false ls ++ (arguments untilReturns ls).2
      ∧ List.Forall₂ StemsFrom (arguments untilReturns ls).1 (argumentLines untilReturns ls) := by
  fun_induction arguments untilReturns ls with
  | case1 => exact ⟨rfl, .nil⟩
  | case2 l rest hl =>
    have hstop : argumentSection untilReturns false (l :: rest) = [] := by
      rw [argumentSection, isArgument, startsWith, hl]
      rfl
    rw [argumentLines, hstop]
    exact ⟨rfl, .nil⟩
  | case3 l rest text hstem hcut args after heq ih =>
    have hl : isArgument l = true := Option.isSome_iff_exists.mpr ⟨text, hstem⟩
    have hcolon : ':' ∉ l := by
      rw [dropStem?_eq_some_iff.mp hstem, List.mem_append, not_or]
      exact ⟨by decide, cut?_eq_none_iff.mp hcut⟩
    rw [heq] at ih
    rw [argumentLines_of_no_colon hl rest hcolon, argumentSection_of_no_colon hl rest hcolon,
      List.cons_append, ← ih.1]
    exact ⟨rfl, .cons (.broken hcolon) ih.2⟩
  | case4 l rest text hstem before first hcut more description _ args after heq ih =>
    have hl : isArgument l = true := Option.isSome_iff_exists.mpr ⟨text, hstem⟩
    obtain ⟨htext, hbefore⟩ := cut?_eq_some_iff.mp hcut
    have hline : l = ['*', ' ', '@'] ++ before ++ ':' :: first := by
      rw [dropStem?_eq_some_iff.mp hstem, htext, List.append_assoc]
    have hcolon : ':' ∈ l := by
      rw [hline]
      exact List.mem_append_right _ List.mem_cons_self
    rw [heq] at ih
    rw [argumentLines_of_colon hl rest hcolon, argumentSection_of_colon hl rest hcolon,
      List.append_assoc, ← ih.1, List.cons_append, List.takeWhile_append_dropWhile]
    exact ⟨rfl, .cons (hline ▸ .described hbefore) ih.2⟩

theorem arguments_of_stop {l : Line} (hl : isArgument l = false) (rest : List Line) :
    arguments untilReturns (l :: rest) = ([], l :: rest) := by
  rw [isArgument, startsWith, Option.isSome_eq_false_iff, Option.isNone_iff_eq_none] at hl
  rw [arguments, hl]

theorem arguments_of_start {before : Line} (hbefore : ':' ∉ before) (first : Line)
    (rest : List Line) :
    arguments untilReturns ((['*', ' ', '@'] ++ before ++ ':' :: first) :: rest)
      = (.described (trim before) (trim (joined ' ' (trim first
            :: (rest.takeWhile (continues untilReturns)).map fun m => content (trim m))))
          :: (arguments untilReturns (rest.dropWhile (continues untilReturns))).1,
        (arguments untilReturns (rest.dropWhile (continues untilReturns))).2) := by
  have hstem : dropStem? ['*', ' ', '@'] (['*', ' ', '@'] ++ before ++ ':' :: first)
      = some (before ++ ':' :: first) := by
    rw [dropStem?_eq_some_iff, List.append_assoc]
  rw [arguments, hstem]
  dsimp only
  rw [cut?_eq_some_iff.mpr ⟨rfl, hbefore⟩]

/-! ## The arguments by name -/

theorem Names.unique {line : Line} {arg other : String} (h : Names line arg)
    (hother : Names line other) : arg = other := by
  obtain ⟨before, after, rfl, hbefore, rfl⟩ := h
  obtain ⟨before', after', heq, hbefore', rfl⟩ := hother
  rw [List.append_assoc, List.append_assoc, List.append_cancel_left_eq] at heq
  have hcut := cut?_eq_some_iff.mpr ⟨heq, hbefore'⟩
  rw [cut?_eq_some_iff.mpr ⟨rfl, hbefore⟩, Option.some.injEq, Prod.mk.injEq] at hcut
  rw [hcut.1]

/-- The names of the described arguments. -/
def describedNames (args : List Argument) : List String :=
  (describedArguments args).map fun a => String.ofList a.1

variable {args : List Argument} {ls : List Line}

theorem brokenArguments_eq_nil_iff (h : List.Forall₂ StemsFrom args ls) :
    brokenArguments args = [] ↔ ∀ l ∈ ls, ∃ arg, Names l arg := by
  induction h with
  | nil => simp [brokenArguments]
  | cons hstems _ ih =>
    rw [List.forall_mem_cons, ← ih]
    cases hstems with
    | described hbefore => exact (and_iff_right ⟨_, _, _, rfl, hbefore, rfl⟩).symm
    | broken hcolon =>
      refine iff_of_false (List.cons_ne_nil _ _) fun hall => hcolon ?_
      obtain ⟨arg, before, after, rfl, -⟩ := hall.1
      simp

/-- The described arguments are those that the lines name. -/
theorem mem_describedNames_iff (h : List.Forall₂ StemsFrom args ls) {arg : String} :
    arg ∈ describedNames args ↔ ∃ l ∈ ls, Names l arg := by
  induction h with
  | nil => simp [describedNames, describedArguments]
  | cons hstems _ ih =>
    rw [List.exists_mem_cons_iff, ← ih]
    cases hstems with
    | described hbefore =>
      have hfirst : ∀ before after : Line, ':' ∉ before →
          (Names (['*', ' ', '@'] ++ before ++ ':' :: after) arg
            ↔ arg = String.ofList (trim before)) := fun before after hbefore =>
        ⟨fun hn => hn.unique ⟨before, after, rfl, hbefore, rfl⟩,
          fun harg => ⟨before, after, rfl, hbefore, harg.symm⟩⟩
      rw [hfirst _ _ hbefore]
      exact List.mem_cons
    | broken hcolon =>
      refine (or_iff_right ?_).symm
      rintro ⟨before, after, rfl, -⟩
      simp at hcolon

/-! ## The parameters -/

/-- The parameter with the description of the argument, if that is its name. -/
def describe (p : Param) (arg : Line × Line) : Param :=
  if p.name = some (String.ofList arg.1) then
    { p with description := some (String.ofList arg.2) }
  else p

section Describe

variable (p : Param) (arg : Line × Line) (described : List (Line × Line))

@[simp] theorem name_describe : (describe p arg).name = p.name := by
  unfold describe; split <;> rfl

@[simp] theorem type_describe : (describe p arg).type = p.type := by
  unfold describe; split <;> rfl

@[simp] theorem name_describeAll : (described.foldl describe p).name = p.name := by
  induction described generalizing p with
  | nil => rfl
  | cons a as ih => rw [List.foldl_cons, ih, name_describe]

@[simp] theorem type_describeAll : (described.foldl describe p).type = p.type := by
  induction described generalizing p with
  | nil => rfl
  | cons a as ih => rw [List.foldl_cons, ih, type_describe]

/-- A parameter has a description in the end if it had one before or an argument has its
name. -/
theorem description_describeAll_isSome :
    (described.foldl describe p).description.isSome = true
      ↔ p.description.isSome = true ∨ ∃ a ∈ described, p.name = some (String.ofList a.1) := by
  induction described generalizing p with
  | nil => simp
  | cons a as ih =>
    rw [List.foldl_cons, ih, name_describe, List.exists_mem_cons_iff, ← or_assoc]
    refine or_congr_left ?_
    unfold describe
    split
    · next hname => simp [hname]
    · next hname => simp [hname]

variable {p described}

theorem describeAll_of_ne (h : ∀ a ∈ described, p.name ≠ some (String.ofList a.1)) :
    described.foldl describe p = p := by
  induction described with
  | nil => rfl
  | cons a as ih =>
    obtain ⟨ha, has⟩ := List.forall_mem_cons.mp h
    rw [List.foldl_cons, describe, if_neg ha, ih has]

/-- Of arguments with different names, the one of its name describes the parameter. -/
theorem describeAll_of_mem (hnodup : (described.map fun a => String.ofList a.1).Nodup)
    {arg : Line × Line} (harg : arg ∈ described) (hname : p.name = some (String.ofList arg.1)) :
    described.foldl describe p = { p with description := some (String.ofList arg.2) } := by
  induction described with
  | nil => cases harg
  | cons a as ih =>
    rw [List.map_cons, List.nodup_cons] at hnodup
    rw [List.foldl_cons]
    rcases List.mem_cons.mp harg with rfl | hmem
    · rw [describe, if_pos hname]
      refine describeAll_of_ne fun b hb heq => hnodup.1 ?_
      rw [Option.some.inj (hname.symm.trans heq)]
      exact List.mem_map_of_mem hb
    · have hne : p.name ≠ some (String.ofList a.1) := by
        rw [hname]
        intro heq
        rw [← Option.some.inj heq] at hnodup
        exact hnodup.1 (List.mem_map_of_mem hmem)
      rw [describe, if_neg hne]
      exact ih hnodup.2 hmem

end Describe

variable {params : List Param}

theorem map_describe_of_not_mem {arg : Line × Line}
    (h : some (String.ofList arg.1) ∉ params.map Param.name) :
    params.map (describe · arg) = params := by
  have hself : ∀ p ∈ params, describe p arg = p := by
    intro p hp
    refine if_neg fun hname => h ?_
    rw [← hname]
    exact List.mem_map_of_mem hp
  rw [List.map_congr_left hself, List.map_id']

/-- Among parameters of different names, an argument describes the one of its own name. -/
theorem describeParam?_eq (h : (params.filterMap Param.name).Nodup) (arg description : Line) :
    describeParam? arg description params
      = if some (String.ofList arg) ∈ params.map Param.name then
          some (params.map (describe · (arg, description)))
        else none := by
  induction params with
  | nil => rfl
  | cons p ps ih =>
    rw [describeParam?]
    split
    · next hname =>
      rw [List.filterMap_cons_some hname, List.nodup_cons] at h
      have hps : some (String.ofList arg) ∉ ps.map Param.name := by
        simpa using h.1
      have hself : ps.map (describe · (arg, description)) = ps := map_describe_of_not_mem hps
      rw [if_pos (by simp [hname]), List.map_cons, hself, describe, if_pos hname]
    · next hname =>
      have hps : (ps.filterMap Param.name).Nodup :=
        h.sublist ((List.sublist_cons_self p ps).filterMap Param.name)
      rw [ih hps, apply_ite (Option.map _), Option.map_some, Option.map_none, List.map_cons,
        List.map_cons, describe, if_neg hname]
      simp [Ne.symm hname]

/-- The flaw of an argument that is none of the parameters. -/
def stray? (params : List Param) (arg : Line × Line) : Option Flaw :=
  if some (String.ofList arg.1) ∈ params.map Param.name then none
  else some (.strayArgument arg.1)

/-- Each parameter takes the descriptions of its name, and an argument is a flaw if no
parameter has its name. -/
theorem describeParams_eq (h : (params.filterMap Param.name).Nodup)
    (described : List (Line × Line)) :
    describeParams described params
      = (params.map (described.foldl describe ·), described.filterMap (stray? params)) := by
  induction described using List.reverseRecOn with
  | nil => simp [describeParams]
  | append_singleton as a ih =>
    have hnames : (params.map (as.foldl describe ·)).map Param.name = params.map Param.name := by
      simp
    have hnodup : ((params.map (as.foldl describe ·)).filterMap Param.name).Nodup := by
      rwa [List.filterMap_map, show Param.name ∘ (as.foldl describe ·) = Param.name from
        funext fun p => name_describeAll p as]
    have hall : params.map ((as ++ [a]).foldl describe ·)
        = (params.map (as.foldl describe ·)).map (describe · a) := by
      simp
    rw [describeParams] at ih ⊢
    rw [List.foldl_append, ih, List.foldl_cons, List.foldl_nil, hall, List.filterMap_append]
    dsimp only
    rw [describeParam?_eq hnodup, hnames]
    by_cases hmem : some (String.ofList a.1) ∈ params.map Param.name
    · have hstray : stray? params a = none := if_pos hmem
      rw [if_pos hmem, List.filterMap_cons_none hstray, List.filterMap_nil, List.append_nil]
    · have hstray : stray? params a = some (.strayArgument a.1) := if_neg hmem
      rw [if_neg hmem, List.filterMap_cons_some hstray, List.filterMap_nil,
        map_describe_of_not_mem (hnames ▸ hmem)]

theorem stray_eq_nil_iff {args : List Argument} :
    (describedArguments args).filterMap (stray? params) = []
      ↔ ∀ arg ∈ describedNames args, some arg ∈ params.map Param.name := by
  rw [List.filterMap_eq_nil_iff, describedNames, List.forall_mem_map]
  refine forall₂_congr fun a _ => ?_
  rw [stray?, ite_eq_left_iff]
  simp

theorem undescribedParams_eq_nil_iff {args : List Argument} :
    undescribedParams (params.map ((describedArguments args).foldl describe ·)) = []
      ↔ ∀ p ∈ params, ∀ arg, p.name = some arg → p.type ≠ "void" →
        p.description.isSome = true ∨ arg ∈ describedNames args := by
  rw [undescribedParams, List.filterMap_eq_nil_iff, List.forall_mem_map]
  refine forall₂_congr fun p _ => ?_
  rw [name_describeAll, type_describeAll]
  cases hname : p.name with
  | none => exact iff_of_true rfl nofun
  | some arg =>
    have hnamed : (∃ a ∈ describedArguments args, p.name = some (String.ofList a.1))
        ↔ arg ∈ describedNames args := by
      simp only [describedNames, List.mem_map, hname, Option.some.injEq, eq_comm]
    have hsome := (description_describeAll_isSome p (describedArguments args)).trans
      (or_congr_right hnamed)
    have hflaw : ∀ d : Option String,
        (if (d.isNone && p.type != "void") = true then some (Flaw.undescribedArgument arg) else none)
          = none ↔ (p.type ≠ "void" → d.isSome = true) := by
      intro d
      cases d <;> simp
    refine (hflaw _).trans ⟨fun h other hother hvoid => ?_, fun h hvoid => ?_⟩
    · cases hother
      exact hsome.mp (h hvoid)
    · exact hsome.mpr (h arg rfl hvoid)

end DocBlock

end HeaderAtlas
