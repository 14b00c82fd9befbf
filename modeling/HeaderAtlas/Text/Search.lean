/-!
# Looking for one text inside another

Searching for a fixed needle, and cutting a text at its first occurrence.
-/

namespace HeaderAtlas.Text

/-- The rest of `cs` after the stem `stem`, if `cs` starts with it. -/
def dropStem? : (stem cs : List Char) → Option (List Char)
  | [], cs => some cs
  | _ :: _, [] => none
  | x :: xs, c :: cs => if x = c then dropStem? xs cs else none

/-- Does `cs` start with `stem`? -/
def startsWith (stem cs : List Char) : Bool := (dropStem? stem cs).isSome

/-- The rest of `cs` before the tail `tail`, if `cs` ends with it. -/
def dropTail? (tail cs : List Char) : Option (List Char) :=
  (dropStem? tail.reverse cs.reverse).map List.reverse

/-- Does `cs` end with `tail`? -/
def endsWith (tail cs : List Char) : Bool := (dropTail? tail cs).isSome

/-- What stands before and after the first occurrence of `needle`. -/
def cut? (needle : List Char) : List Char → Option (List Char × List Char)
  | [] => if needle.isEmpty then some ([], []) else none
  | c :: cs =>
    match dropStem? needle (c :: cs) with
    | some rest => some ([], rest)
    | none => (cut? needle cs).map fun (before, rest) => (c :: before, rest)

/-- Does `needle` occur in `cs`? The empty needle always does. -/
def contains (needle cs : List Char) : Bool := (cut? needle cs).isSome

/-- A stem and what follows it make up the text. -/
theorem dropStem?_eq_some_iff {stem cs rest : List Char} :
    dropStem? stem cs = some rest ↔ cs = stem ++ rest := by
  induction stem generalizing cs with
  | nil => simp [dropStem?, eq_comm]
  | cons x xs ih =>
    cases cs with
    | nil => simp [dropStem?]
    | cons c cs =>
      by_cases h : x = c
      · subst h; simp [dropStem?, ih]
      · simp [dropStem?, h, Ne.symm h]

theorem startsWith_iff {stem cs : List Char} : startsWith stem cs = true ↔ stem <+: cs := by
  rw [startsWith, Option.isSome_iff_exists]
  exact exists_congr fun rest => dropStem?_eq_some_iff.trans eq_comm

/-- What is left and the tail make up the text. -/
theorem dropTail?_eq_some_iff {tail cs rest : List Char} :
    dropTail? tail cs = some rest ↔ cs = rest ++ tail := by
  rw [dropTail?, Option.map_eq_some_iff]
  constructor
  · rintro ⟨r, hr, rfl⟩
    rw [← List.reverse_reverse cs, dropStem?_eq_some_iff.mp hr, List.reverse_append,
      List.reverse_reverse]
  · rintro rfl
    exact ⟨rest.reverse, dropStem?_eq_some_iff.mpr List.reverse_append, List.reverse_reverse rest⟩

/-- A cut loses nothing but the needle. -/
theorem eq_of_cut? {needle cs before rest : List Char}
    (h : cut? needle cs = some (before, rest)) : cs = before ++ needle ++ rest := by
  induction cs generalizing before with
  | nil =>
    cases needle <;> simp_all [cut?]
  | cons c cs ih =>
    rw [cut?] at h
    split at h
    · next r hr =>
      simp only [Option.some.injEq, Prod.mk.injEq] at h
      obtain ⟨rfl, rfl⟩ := h
      simpa using dropStem?_eq_some_iff.mp hr
    · obtain ⟨⟨b, r⟩, hb, he⟩ := Option.map_eq_some_iff.mp h
      simp only [Prod.mk.injEq] at he
      obtain ⟨rfl, rfl⟩ := he
      simp [ih hb]

/-- The first occurrence of a character has none before it. -/
theorem cut?_eq_some_iff {c : Char} {cs before rest : List Char} :
    cut? [c] cs = some (before, rest) ↔ cs = before ++ c :: rest ∧ c ∉ before := by
  constructor
  · intro h
    refine ⟨by simpa using eq_of_cut? h, ?_⟩
    induction cs generalizing before with
    | nil => cases h
    | cons d cs ih =>
      by_cases hd : c = d
      · simp only [cut?, dropStem?, if_pos hd, Option.some.injEq, Prod.mk.injEq] at h
        rw [← h.1]
        exact List.not_mem_nil
      · simp only [cut?, dropStem?, if_neg hd, Option.map_eq_some_iff, Prod.mk.injEq] at h
        obtain ⟨⟨b, r⟩, hb, rfl, rfl⟩ := h
        exact List.not_mem_cons_of_ne_of_not_mem hd (ih hb)
  · rintro ⟨rfl, h⟩
    induction before with
    | nil => simp [cut?, dropStem?]
    | cons d before ih =>
      obtain ⟨hd, hbefore⟩ := List.ne_and_not_mem_of_not_mem_cons h
      simp [cut?, dropStem?, hd, ih hbefore]

/-- A needle occurs where it is a part of the text. -/
theorem contains_iff {needle cs : List Char} : contains needle cs = true ↔ needle <:+: cs := by
  constructor
  · intro h
    obtain ⟨⟨before, rest⟩, hcut⟩ := Option.isSome_iff_exists.mp h
    exact ⟨before, rest, (eq_of_cut? hcut).symm⟩
  · rintro ⟨before, rest, rfl⟩
    induction before with
    | nil =>
      cases needle with
      | nil => cases rest <;> rfl
      | cons c cs =>
        have hstem := dropStem?_eq_some_iff.mpr (rfl : (c :: cs) ++ rest = c :: cs ++ rest)
        simp only [List.nil_append, contains, List.cons_append, cut?] at hstem ⊢
        rw [hstem]
        rfl
    | cons c before ih =>
      rw [contains, Option.isSome_iff_exists] at ih ⊢
      obtain ⟨p, hp⟩ := ih
      simp only [List.cons_append, cut?]
      split
      · exact ⟨_, rfl⟩
      · exact ⟨_, by rw [hp]; rfl⟩

theorem cut?_eq_none_iff {c : Char} {cs : List Char} : cut? [c] cs = none ↔ c ∉ cs := by
  rw [← Option.not_isSome_iff_eq_none]
  refine not_congr (contains_iff.trans ⟨fun h => h.mem (List.mem_singleton_self c), fun h => ?_⟩)
  obtain ⟨before, rest, rfl⟩ := List.append_of_mem h
  exact ⟨before, rest, by simp⟩

/-- `contains` and its kin on strings. -/
def containsText (needle s : String) : Bool := contains needle.toList s.toList

/-- Does the string `s` start with `stem`? -/
def startsWithText (stem s : String) : Bool := startsWith stem.toList s.toList

/-- Does the string `s` end with `tail`? -/
def endsWithText (tail s : String) : Bool := endsWith tail.toList s.toList

theorem containsText_iff {needle s : String} :
    containsText needle s = true ↔ needle.toList <:+: s.toList :=
  contains_iff

end HeaderAtlas.Text
