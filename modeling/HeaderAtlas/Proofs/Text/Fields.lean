import HeaderAtlas.Proofs.Text.Blanks

/-!
# The words of comma-separated fields

A text that is split at commas keeps the words of its fields when blanks are put next to blanks
or one blank is put for another (`fieldWords_blank`, `fieldWords_blank_blank`). A field of a
single word is this word once it is trimmed (`trim_of_words`).
-/

namespace HeaderAtlas

namespace Text

/-! ## Texts of no word and of one -/

/-- A text without blanks, by a check. -/
theorem solid_of_all {xs : List Char} (h : xs.all (!isBlank ·) = true) :
    ∀ c ∈ xs, isBlank c = false := by
  simpa using h

theorem words_of_solid {xs : List Char} (hne : xs ≠ []) (h : ∀ c ∈ xs, isBlank c = false) :
    words xs = [xs] := by
  rw [words, pieces_eq_singleton h, List.filter_cons_of_pos (by simpa using hne), List.filter_nil]

theorem not_mem_of_blank {xs : List Char} {c : Char} (hc : isBlank c = false)
    (h : ∀ d ∈ xs, isBlank d = true) : c ∉ xs := by
  intro hmem
  rw [h c hmem] at hc
  cases hc

theorem words_eq_nil_iff {xs : List Char} : words xs = [] ↔ ∀ c ∈ xs, isBlank c = true := by
  refine ⟨fun h => Decidable.byContradiction fun hblank => ?_, words_of_blank⟩
  have htrim : trim xs ≠ [] := by
    intro hnil
    obtain ⟨front, back, heq, hfront, hback, -, -⟩ := exists_trim xs
    rw [heq, hnil, List.append_nil] at hblank
    exact hblank fun c hc => (List.mem_append.mp hc).elim (hfront c) (hback c)
  obtain ⟨c, hhead, hc⟩ := opens_iff.mp (opens_trim htrim)
  obtain ⟨more, hmore⟩ : ∃ more, trim xs = c :: more := List.head?_eq_some_iff.mp hhead
  have hwords : words (c :: more) = [] := by rw [← hmore, words_trim, h]
  rw [words, pieces_cons_of_neg more hc] at hwords
  split at hwords <;> simp at hwords

theorem trim_of_words_nil {xs : List Char} (h : words xs = []) : trim xs = [] := by
  have hblank := words_eq_nil_iff.mp h
  have hxs := trim_append hblank []
  rwa [List.append_nil, trim_nil] at hxs

/-- What is left of a text of one word has no blank: there would be words on both sides of it. -/
theorem solid_of_words {xs w : List Char} (h : words xs = [w]) :
    ∀ c ∈ trim xs, isBlank c = false := by
  intro c hc
  have hne : trim xs ≠ [] := List.ne_nil_of_mem hc
  obtain ⟨a, hhead, ha⟩ := opens_iff.mp (opens_trim hne)
  obtain ⟨b, hlast, hb⟩ := closes_iff.mp (closes_trim hne)
  rw [← Bool.not_eq_true]
  intro hblank
  obtain ⟨ys, zs, hsplit⟩ := List.append_of_mem hc
  have hparts := words_trim xs
  rw [hsplit, words_append_blank ys zs hblank, h] at hparts
  have hys : words ys ≠ [] := by
    intro hnil
    cases ys with
    | nil =>
      rw [hsplit] at hhead
      cases hhead
      exact Bool.false_ne_true (ha.symm.trans hblank)
    | cons y ys =>
      rw [hsplit] at hhead
      cases hhead
      rw [words_eq_nil_iff.mp hnil a List.mem_cons_self] at ha
      cases ha
  have hzs : words zs ≠ [] := by
    intro hnil
    rw [hsplit, List.getLast?_append, List.getLast?_cons, Option.some_or,
      ← List.getLast?_cons] at hlast
    rcases List.mem_cons.mp (List.mem_of_getLast? hlast) with rfl | hmem
    · exact Bool.false_ne_true (hb.symm.trans hblank)
    · rw [words_eq_nil_iff.mp hnil b hmem] at hb
      cases hb
  have hlength := congrArg List.length hparts
  rw [List.length_append, List.length_singleton] at hlength
  have := List.length_pos_iff.mpr hys
  have := List.length_pos_iff.mpr hzs
  omega

theorem words_eq_singleton_iff {xs w : List Char} :
    words xs = [w] ↔ trim xs = w ∧ w ≠ [] ∧ ∀ c ∈ w, isBlank c = false := by
  refine ⟨fun h => ?_, fun ⟨htrim, hne, hsolid⟩ => ?_⟩
  · have hne : trim xs ≠ [] := by
      intro hnil
      rw [← words_trim, hnil] at h
      cases h
    have hsolid := solid_of_words h
    rw [← words_trim, words_of_solid hne hsolid] at h
    obtain rfl := List.singleton_inj.mp h
    exact ⟨rfl, hne, hsolid⟩
  · rw [← words_trim, htrim, words_of_solid hne hsolid]

/-- What is left of a text of one word is the word. -/
theorem trim_of_words {xs w : List Char} (h : words xs = [w]) : trim xs = w :=
  (words_eq_singleton_iff.mp h).1

/-! ## Fields -/

section Pieces

variable {α : Type} (p : α → Bool)

/-- What is put in front of a text makes pieces of its own and a part of the first piece. -/
theorem exists_pieces_append (xs : List α) :
    ∃ front last, ∀ {ys q : List α} {qs : List (List α)},
      pieces p ys = q :: qs → pieces p (xs ++ ys) = front ++ (last ++ q) :: qs := by
  induction xs with
  | nil => exact ⟨[], [], fun h => h⟩
  | cons x xs ih =>
    obtain ⟨front, last, ih⟩ := ih
    cases hx : p x with
    | true =>
      refine ⟨[] :: front, last, fun h => ?_⟩
      rw [List.cons_append, pieces_cons_of_pos _ hx, ih h]
      rfl
    | false =>
      cases front with
      | nil =>
        refine ⟨[], x :: last, fun h => ?_⟩
        rw [List.cons_append, pieces_cons_of_neg _ hx, ih h]
        rfl
      | cons w front =>
        refine ⟨(x :: w) :: front, last, fun h => ?_⟩
        rw [List.cons_append, pieces_cons_of_neg _ hx, ih h]
        rfl

variable {p}

/-- What has no separator only makes the first piece longer. -/
theorem pieces_append_of_neg {xs ys q : List α} {qs : List (List α)} (h : ∀ x ∈ xs, p x = false)
    (hys : pieces p ys = q :: qs) : pieces p (xs ++ ys) = (xs ++ q) :: qs := by
  induction xs with
  | nil => exact hys
  | cons x xs ih =>
    obtain ⟨hx, hxs⟩ := List.forall_mem_cons.mp h
    rw [List.cons_append, pieces_cons_of_neg _ hx, ih hxs]
    rfl

theorem pieces_intercalate {sep : α} (hsep : p sep = true) {w : List α} {ws : List (List α)}
    (h : ∀ v ∈ w :: ws, ∀ c ∈ v, p c = false) :
    pieces p ([sep].intercalate (w :: ws)) = w :: ws := by
  induction ws generalizing w with
  | nil => rw [List.intercalate_singleton, pieces_eq_singleton (h w List.mem_cons_self)]
  | cons v ws ih =>
    obtain ⟨hw, hvs⟩ := List.forall_mem_cons.mp h
    rw [List.intercalate_cons_cons, List.append_assoc, List.singleton_append,
      pieces_append w _ hsep, pieces_eq_singleton hw, ih hvs, List.singleton_append]

end Pieces

theorem not_mem_intercalate {α : Type} {c sep : α} (hsep : c ≠ sep) {ws : List (List α)}
    (h : ∀ w ∈ ws, c ∉ w) : c ∉ [sep].intercalate ws := by
  induction ws with
  | nil => exact List.not_mem_nil
  | cons w ws ih =>
    obtain ⟨hw, hws⟩ := List.forall_mem_cons.mp h
    cases ws with
    | nil => rwa [List.intercalate_singleton]
    | cons v vs =>
      rw [List.intercalate_cons_cons, List.append_assoc, List.singleton_append, List.mem_append,
        List.mem_cons]
      rintro (hmem | rfl | hmem)
      · exact hw hmem
      · exact hsep rfl
      · exact ih hws hmem

/-- The words of the fields between the commas. -/
def fieldWords (xs : List Char) : List (List (List Char)) := (pieces (· == ',') xs).map words

section Blanks

variable {c d : Char}

theorem pieces_blank (hc : isBlank c = true) (ys : List Char) :
    ∃ q qs, pieces (· == ',') ys = q :: qs ∧ pieces (· == ',') (c :: ys) = (c :: q) :: qs := by
  have hcomma : (fun c => c == ',') c = false := by
    refine beq_eq_false_iff_ne.mpr ?_
    rintro rfl
    cases hc
  obtain ⟨q, qs, hq⟩ := List.exists_cons_of_ne_nil (pieces_ne_nil (· == ',') ys)
  refine ⟨q, qs, hq, ?_⟩
  rw [pieces_cons_of_neg (p := (· == ',')) ys hcomma, hq]

/-- One blank is as good as another. -/
theorem fieldWords_blank (hc : isBlank c = true) (hd : isBlank d = true) (xs ys : List Char) :
    fieldWords (xs ++ c :: ys) = fieldWords (xs ++ d :: ys) := by
  obtain ⟨front, last, hfront⟩ := exists_pieces_append (· == ',') xs
  obtain ⟨q, qs, hq, hcs⟩ := pieces_blank hc ys
  obtain ⟨q', qs', hq', hds⟩ := pieces_blank hd ys
  cases hq.symm.trans hq'
  rw [fieldWords, fieldWords, hfront hcs, hfront hds, List.map_append, List.map_append,
    List.map_cons, List.map_cons, words_append_blank last q hc, words_append_blank last q hd]

/-- Two blanks are as good as one. -/
theorem fieldWords_blank_blank (hc : isBlank c = true) (hd : isBlank d = true)
    (xs ys : List Char) : fieldWords (xs ++ c :: d :: ys) = fieldWords (xs ++ d :: ys) := by
  obtain ⟨front, last, hfront⟩ := exists_pieces_append (· == ',') xs
  obtain ⟨q, qs, hq, hds⟩ := pieces_blank hd ys
  obtain ⟨q', qs', hq', hcds⟩ := pieces_blank hc (d :: ys)
  cases hds.symm.trans hq'
  rw [fieldWords, fieldWords, hfront hcds, hfront hds, List.map_append, List.map_append,
    List.map_cons, List.map_cons, words_append_blank last _ hc, words_append_blank last q hd,
    words_cons_blank q hd]

end Blanks

end Text

end HeaderAtlas
