/-!
# Blank characters

What counts as blank, and the three things the rest of the library does with
blanks: trim them, split on them, and remove them.

Everything here works on `List Char`, because the lexer, the doc-comment reader
and the constant evaluator all read a text from its front and because lists are
what one does induction on. Records keep `String`; the two meet through
`String.toList` and `String.ofList`.
-/

namespace HeaderAtlas.Text

/-- Is the character in the Unicode class `White_Space`? -/
def isBlank (c : Char) : Bool :=
  let n := c.toNat
  (0x09 ≤ n && n ≤ 0x0D) || n == 0x20 || n == 0x85 || n == 0xA0 || n == 0x1680 ||
  (0x2000 ≤ n && n ≤ 0x200A) || n == 0x2028 || n == 0x2029 || n == 0x202F ||
  n == 0x205F || n == 0x3000

/-- Core's ASCII blanks are all blank here. -/
theorem isBlank_of_isWhitespace {c : Char} (h : c.isWhitespace = true) : isBlank c = true := by
  simp only [Char.isWhitespace, Bool.or_eq_true, decide_eq_true_eq] at h
  rcases h with ((rfl | rfl) | rfl) | rfl <;> decide

/-- The two blanks that set words apart within a line. -/
def isGap (c : Char) : Bool := c == ' ' || c == '\t'

/-- A gap is blank. -/
theorem isBlank_of_isGap {c : Char} (h : isGap c = true) : isBlank c = true := by
  simp only [isGap, Bool.or_eq_true, beq_iff_eq] at h
  rcases h with rfl | rfl <;> decide

/-! ## Trimming -/

/-- The text without the longest tail whose characters all satisfy `p`. -/
def dropEndWhile (p : Char → Bool) (cs : List Char) : List Char :=
  (cs.reverse.dropWhile p).reverse

/-- The text without leading blanks. -/
def trimStart (cs : List Char) : List Char := cs.dropWhile isBlank

/-- The text without trailing blanks. -/
def trimEnd (cs : List Char) : List Char := dropEndWhile isBlank cs

/-- The text without leading and trailing blanks. -/
def trim (cs : List Char) : List Char := trimEnd (trimStart cs)

/-- The text with every blank removed. -/
def compact (cs : List Char) : List Char := cs.filter (!isBlank ·)

@[simp] theorem trim_nil : trim [] = [] := rfl

/-- Trimming the end never lengthens a text. -/
theorem length_dropEndWhile_le (p : Char → Bool) (cs : List Char) :
    (dropEndWhile p cs).length ≤ cs.length := by
  have h := (List.dropWhile_sublist (p := p) (l := cs.reverse)).length_le
  simpa [dropEndWhile] using h

/-- Trimming never lengthens a text. -/
theorem length_trim_le (cs : List Char) : (trim cs).length ≤ cs.length :=
  Nat.le_trans (length_dropEndWhile_le _ _) (List.dropWhile_sublist _).length_le

/-! ## Splitting -/

variable {α : Type}

/-- The maximal runs between the elements satisfying `p`, empty runs included:
`n` separators make `n + 1` pieces. -/
def pieces (p : α → Bool) (cs : List α) : List (List α) :=
  cs.foldr (fun c ps =>
    if p c then [] :: ps
    else match ps with
      | [] => [[c]]
      | w :: ws => (c :: w) :: ws) [[]]

@[simp] theorem pieces_nil (p : α → Bool) : pieces p [] = [[]] := rfl

/-- A separator starts a new piece. -/
theorem pieces_cons_of_pos {p : α → Bool} {c : α} (cs : List α) (h : p c = true) :
    pieces p (c :: cs) = [] :: pieces p cs := by
  simp [pieces, h]

/-- Any other element joins the piece to its right. -/
theorem pieces_cons_of_neg {p : α → Bool} {c : α} (cs : List α) (h : p c = false) :
    pieces p (c :: cs) = match pieces p cs with
      | [] => [[c]]
      | w :: ws => (c :: w) :: ws := by
  simp [pieces, h]

theorem pieces_ne_nil (p : α → Bool) (cs : List α) : pieces p cs ≠ [] := by
  cases cs with
  | nil => simp
  | cons c cs =>
    cases h : p c with
    | true => simp [pieces_cons_of_pos cs h]
    | false =>
      rw [pieces_cons_of_neg cs h]
      split <;> simp

/-- Without a separator there is one piece. -/
theorem pieces_eq_singleton {p : α → Bool} {cs : List α} (h : ∀ c ∈ cs, p c = false) :
    pieces p cs = [cs] := by
  induction cs with
  | nil => rfl
  | cons c cs ih =>
    obtain ⟨hc, hcs⟩ := List.forall_mem_cons.mp h
    rw [pieces_cons_of_neg cs hc, ih hcs]

/-- What is split at a separator is split on both sides of it. -/
theorem pieces_append {p : α → Bool} (xs ys : List α) {sep : α} (h : p sep = true) :
    pieces p (xs ++ sep :: ys) = pieces p xs ++ pieces p ys := by
  induction xs with
  | nil => rw [List.nil_append, pieces_cons_of_pos ys h, pieces_nil]; rfl
  | cons x xs ih =>
    cases hx : p x with
    | true =>
      rw [List.cons_append, pieces_cons_of_pos _ hx, pieces_cons_of_pos _ hx, ih]
      rfl
    | false =>
      rw [List.cons_append, pieces_cons_of_neg _ hx, pieces_cons_of_neg _ hx, ih]
      have hne := pieces_ne_nil p xs
      cases hp : pieces p xs with
      | nil => exact absurd hp hne
      | cons w ws => rfl

/-- The pieces are never more than the elements and one. -/
theorem length_pieces_le (p : α → Bool) (cs : List α) :
    (pieces p cs).length ≤ cs.length + 1 := by
  induction cs with
  | nil => simp
  | cons c cs ih =>
    cases h : p c with
    | true => simpa [pieces_cons_of_pos cs h] using ih
    | false =>
      rw [pieces_cons_of_neg cs h]
      split
      · simp
      · next heq => rw [heq] at ih; simp only [List.length_cons] at ih ⊢; omega

/-- The blank-separated words of a text. -/
def words (cs : List Char) : List (List Char) := (pieces isBlank cs).filter (!·.isEmpty)

/-- The lines of a text, without their line breaks. -/
def lines (cs : List Char) : List (List Char) := pieces (· == '\n') cs

end HeaderAtlas.Text
