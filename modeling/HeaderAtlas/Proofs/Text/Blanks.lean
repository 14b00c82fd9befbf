import HeaderAtlas.Text.Blank

/-!
# The words of a line and the lines of a text

Blanks at the ends of a line are no part of it, and words are what stands between blanks.
So a text that is set apart by blanks has words of its own (`words_append`), and trimming
changes no word (`words_trim`).
-/

namespace HeaderAtlas

namespace Text

/-! ## Words and blanks -/

theorem words_append_blank (xs ys : List Char) {c : Char} (h : isBlank c = true) :
    words (xs ++ c :: ys) = words xs ++ words ys := by
  rw [words, pieces_append xs ys h, List.filter_append]
  rfl

theorem words_cons_blank (xs : List Char) {c : Char} (h : isBlank c = true) :
    words (c :: xs) = words xs :=
  words_append_blank [] xs h

/-- Where two texts are set apart by a blank, they have their own words. -/
theorem words_append {xs ys : List Char} (h : ∀ c d, xs.getLast? = some c → ys.head? = some d →
    isBlank c = true ∨ isBlank d = true) : words (xs ++ ys) = words xs ++ words ys := by
  cases ys with
  | nil => simp [words]
  | cons d ys =>
    rcases List.eq_nil_or_concat xs with rfl | ⟨xs, c, rfl⟩
    · rfl
    · rw [List.concat_eq_append] at h ⊢
      rcases h c d List.getLast?_concat rfl with hc | hd
      · rw [List.append_assoc, List.singleton_append, words_append_blank xs (d :: ys) hc,
          words_append_blank xs [] hc]
        simp [words]
      · rw [words_append_blank _ ys hd, words_cons_blank ys hd]

theorem words_of_blank {xs : List Char} (h : ∀ c ∈ xs, isBlank c = true) : words xs = [] := by
  induction xs with
  | nil => rfl
  | cons c xs ih =>
    rw [words_cons_blank xs (h c List.mem_cons_self)]
    exact ih fun d hd => h d (List.mem_cons_of_mem c hd)

/-- No piece holds a separator. -/
theorem not_of_mem_pieces {α : Type} {p : α → Bool} {xs w : List α} (h : w ∈ pieces p xs) :
    ∀ c ∈ w, p c = false := by
  induction xs generalizing w with
  | nil =>
    obtain rfl := List.mem_singleton.mp h
    exact List.forall_mem_nil _
  | cons x xs ih =>
    cases hx : p x with
    | true =>
      rw [pieces_cons_of_pos xs hx] at h
      rcases List.mem_cons.mp h with rfl | h
      · exact List.forall_mem_nil _
      · exact ih h
    | false =>
      rw [pieces_cons_of_neg xs hx] at h
      split at h
      · obtain rfl := List.mem_singleton.mp h
        simpa using hx
      · next v vs hv =>
        rw [hv] at ih
        rcases List.mem_cons.mp h with rfl | h
        · exact List.forall_mem_cons.mpr ⟨hx, ih List.mem_cons_self⟩
        · exact ih (List.mem_cons_of_mem v h)

/-- A word is not empty and has no blank in it. -/
theorem solid_of_mem_words {xs w : List Char} (h : w ∈ words xs) :
    w ≠ [] ∧ ∀ c ∈ w, isBlank c = false := by
  obtain ⟨hw, hne⟩ := List.mem_filter.mp h
  exact ⟨by simpa using hne, not_of_mem_pieces hw⟩

/-! ## Trimming -/

/-- The text starts with something that is no blank. -/
def opens (cs : List Char) : Bool := cs.head?.any (!isBlank ·)

/-- The text ends with something that is no blank. -/
def closes (cs : List Char) : Bool := cs.getLast?.any (!isBlank ·)

theorem opens_iff {cs : List Char} :
    opens cs = true ↔ ∃ c, cs.head? = some c ∧ isBlank c = false := by
  rw [opens, Option.any_eq_true]
  simp

theorem closes_iff {cs : List Char} :
    closes cs = true ↔ ∃ c, cs.getLast? = some c ∧ isBlank c = false := by
  rw [closes, Option.any_eq_true]
  simp

theorem ne_nil_of_opens {cs : List Char} (h : opens cs = true) : cs ≠ [] := by
  rintro rfl
  cases h

theorem ne_nil_of_closes {cs : List Char} (h : closes cs = true) : cs ≠ [] := by
  rintro rfl
  cases h

theorem trimStart_of_opens {xs : List Char} (h : opens xs = true) : trimStart xs = xs := by
  obtain ⟨c, hc, hblank⟩ := opens_iff.mp h
  obtain ⟨cs, rfl⟩ := List.head?_eq_some_iff.mp hc
  exact List.dropWhile_cons_of_neg (by simp [hblank])

theorem trimEnd_append {xs : List Char} (hxs : closes xs = true) (ys : List Char) :
    trimEnd (xs ++ ys) = xs ++ trimEnd ys := by
  obtain ⟨c, hlast, hc⟩ := closes_iff.mp hxs
  obtain ⟨front, rfl⟩ := List.getLast?_eq_some_iff.mp hlast
  rw [trimEnd, dropEndWhile, List.reverse_append, List.dropWhile_append]
  split
  · next hys =>
    rw [List.isEmpty_iff] at hys
    rw [trimEnd, dropEndWhile, hys, List.reverse_concat, List.dropWhile_cons_of_neg (by simp [hc])]
    simp
  · rw [List.reverse_append, List.reverse_reverse, trimEnd, dropEndWhile]

theorem trimEnd_of_closes {xs : List Char} (h : closes xs = true) : trimEnd xs = xs := by
  have hxs := trimEnd_append h []
  rwa [List.append_nil, show trimEnd [] = [] from rfl, List.append_nil] at hxs

theorem closes_trimEnd {xs : List Char} (hne : trimEnd xs ≠ []) : closes (trimEnd xs) = true := by
  rw [trimEnd, dropEndWhile, ne_eq, List.reverse_eq_nil_iff] at hne
  have hlast := List.head_dropWhile_not isBlank hne
  rw [closes, trimEnd, dropEndWhile, List.getLast?_reverse, List.head?_eq_some_head hne,
    Option.any_some, hlast]
  rfl

theorem closes_of_trimEnd {xs : List Char} (h : trimEnd xs = xs) (hne : xs ≠ []) :
    closes xs = true := by
  rw [← h] at hne ⊢
  exact closes_trimEnd hne

/-- A text ends as its last part does. -/
theorem closes_append (xs : List Char) {ys : List Char} (h : closes ys = true) :
    closes (xs ++ ys) = true := by
  obtain ⟨c, hlast, hc⟩ := closes_iff.mp h
  exact closes_iff.mpr ⟨c, by rw [List.getLast?_append, hlast, Option.some_or], hc⟩

theorem head?_of_trimEnd {xs : List Char} {c : Char} (h : (trimEnd xs).head? = some c) :
    xs.head? = some c := by
  obtain ⟨back, hback⟩ : trimEnd xs <+: xs := by
    rw [trimEnd, dropEndWhile, ← List.reverse_suffix, List.reverse_reverse]
    exact List.dropWhile_suffix _
  rw [← hback, List.head?_append, h]
  rfl

/-- A text without blanks at its ends is what is left of it with some. -/
theorem trim_eq {front xs back : List Char} (hfront : ∀ c ∈ front, isBlank c = true)
    (hback : ∀ c ∈ back, isBlank c = true) (hhead : ∀ c, xs.head? = some c → isBlank c = false)
    (hlast : ∀ c, xs.getLast? = some c → isBlank c = false) : trim (front ++ xs ++ back) = xs := by
  have hstart : trimStart (front ++ xs ++ back) = xs ++ back ∨ xs = [] := by
    cases xs with
    | nil => exact .inr rfl
    | cons c cs =>
      left
      rw [trimStart, List.append_assoc, List.dropWhile_append_of_pos hfront, List.cons_append,
        List.dropWhile_cons_of_neg (by simp [hhead c rfl])]
  have hnil : ∀ {ys : List Char}, (∀ c ∈ ys, isBlank c = true) → ys.dropWhile isBlank = [] := by
    intro ys hys
    rw [← List.append_nil ys, List.dropWhile_append_of_pos hys]
    rfl
  rcases hstart with hstart | rfl
  · rw [trim, hstart, trimEnd, dropEndWhile, List.reverse_append,
      List.dropWhile_append_of_pos fun c hc => hback c (List.mem_reverse.mp hc)]
    -- Trimming the end is trimming the start of the reverse.
    cases hr : xs.reverse with
    | nil => rw [List.reverse_eq_nil_iff.mp hr]; rfl
    | cons d ds =>
      have hd : isBlank d = false := hlast d (by rw [← List.head?_reverse, hr]; rfl)
      rw [List.dropWhile_cons_of_neg (by simp [hd]), ← hr, List.reverse_reverse]
  · rw [List.append_nil, trim, trimStart, hnil fun c hc => ?_]
    · rfl
    · exact (List.mem_append.mp hc).elim (hfront c) (hback c)

/-- Only the blanks after such a text are lost. -/
theorem trim_append_blank {xs back : List Char} (hopens : opens xs = true)
    (hcloses : closes xs = true) (hback : ∀ c ∈ back, isBlank c = true) :
    trim (xs ++ back) = xs := by
  obtain ⟨c, hhead, hc⟩ := opens_iff.mp hopens
  obtain ⟨d, hlast, hd⟩ := closes_iff.mp hcloses
  refine trim_eq (nofun : ∀ c ∈ ([] : List Char), isBlank c = true) hback (fun e he => ?_)
    fun e he => ?_
  · rwa [← Option.some.inj (hhead.symm.trans he)]
  · rwa [← Option.some.inj (hlast.symm.trans he)]

theorem trim_of_opens_closes {xs : List Char} (hopens : opens xs = true)
    (hcloses : closes xs = true) : trim xs = xs := by
  have h := trim_append_blank hopens hcloses (nofun : ∀ c ∈ ([] : List Char), isBlank c = true)
  rwa [List.append_nil] at h

/-- A text is what is left of it with blanks at its ends. -/
theorem exists_trim (xs : List Char) :
    ∃ front back, xs = front ++ trim xs ++ back ∧ (∀ c ∈ front, isBlank c = true)
      ∧ (∀ c ∈ back, isBlank c = true) ∧ (∀ c, (trim xs).head? = some c → isBlank c = false)
      ∧ ∀ c, (trim xs).getLast? = some c → isBlank c = false := by
  have hblank : ∀ ys : List Char, ∀ c ∈ ys.takeWhile isBlank, isBlank c = true :=
    fun ys => List.all_eq_true.mp List.all_takeWhile
  have hfirst : ∀ (ys : List Char) c, (ys.dropWhile isBlank).head? = some c → isBlank c = false := by
    intro ys c hc
    have := List.head?_dropWhile_not isBlank ys
    rwa [hc] at this
  have hback : trimStart xs = trim xs ++ ((trimStart xs).reverse.takeWhile isBlank).reverse := by
    rw [trim, trimEnd, dropEndWhile, ← List.reverse_append, List.takeWhile_append_dropWhile,
      List.reverse_reverse]
  refine ⟨xs.takeWhile isBlank, ((trimStart xs).reverse.takeWhile isBlank).reverse, ?_,
    hblank xs, fun c hc => hblank _ c (List.mem_reverse.mp hc), fun c hc => ?_, fun c hc => ?_⟩
  · rw [List.append_assoc, ← hback]
    exact List.takeWhile_append_dropWhile.symm
  · refine hfirst xs c ?_
    rw [show xs.dropWhile isBlank = trimStart xs from rfl, hback, List.head?_append, hc]
    rfl
  · refine hfirst (trimStart xs).reverse c ?_
    rwa [trim, trimEnd, dropEndWhile, List.getLast?_reverse] at hc

theorem opens_trim {xs : List Char} (hne : trim xs ≠ []) : opens (trim xs) = true := by
  obtain ⟨-, -, -, -, -, hhead, -⟩ := exists_trim xs
  exact opens_iff.mpr ⟨_, List.head?_eq_some_head hne, hhead _ (List.head?_eq_some_head hne)⟩

theorem closes_trim {xs : List Char} (hne : trim xs ≠ []) : closes (trim xs) = true :=
  closes_trimEnd hne

/-- Blanks at the ends make no difference. -/
theorem trim_blank {front back : List Char} (xs : List Char) (hfront : ∀ c ∈ front, isBlank c = true)
    (hback : ∀ c ∈ back, isBlank c = true) : trim (front ++ xs ++ back) = trim xs := by
  obtain ⟨xf, xb, heq, hxf, hxb, hhead, hlast⟩ := exists_trim xs
  generalize trim xs = m at *
  have hall : front ++ xs ++ back = (front ++ xf) ++ m ++ (xb ++ back) := by
    rw [heq]
    simp only [List.append_assoc]
  rw [hall]
  refine trim_eq (fun c hc => ?_) (fun c hc => ?_) hhead hlast
  · exact (List.mem_append.mp hc).elim (hfront c) (hxf c)
  · exact (List.mem_append.mp hc).elim (hxb c) (hback c)

theorem trim_append {front : List Char} (hfront : ∀ c ∈ front, isBlank c = true) (xs : List Char) :
    trim (front ++ xs) = trim xs := by
  have h := trim_blank xs hfront (nofun : ∀ c ∈ ([] : List Char), isBlank c = true)
  rwa [List.append_nil] at h

theorem words_trim (xs : List Char) : words (trim xs) = words xs := by
  obtain ⟨front, back, heq, hfront, hback, -, -⟩ := exists_trim xs
  have hall : words xs = words (front ++ (trim xs ++ back)) := by rw [← List.append_assoc, ← heq]
  rw [hall, words_append fun c d hc _ => .inl (hfront c (List.mem_of_getLast? hc)),
    words_append fun c d _ hd => .inr (hback d (List.mem_of_mem_head? hd)),
    words_of_blank hfront, words_of_blank hback, List.nil_append, List.append_nil]

/-! ## Lines -/

theorem head?_of_lines {xs y : List Char} {ls : List (List Char)} (h : lines xs = y :: ls)
    {c : Char} (hc : y.head? = some c) : xs.head? = some c := by
  cases xs with
  | nil => cases h; cases hc
  | cons d xs =>
    rw [lines] at h
    cases hd : (d == '\n') with
    | true =>
      rw [pieces_cons_of_pos (p := (· == '\n')) xs hd] at h
      cases h
      cases hc
    | false =>
      rw [pieces_cons_of_neg (p := (· == '\n')) xs hd] at h
      split at h
      · cases h; exact hc
      · cases h; exact hc

end Text

end HeaderAtlas
