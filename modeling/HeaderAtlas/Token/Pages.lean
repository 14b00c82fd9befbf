import HeaderAtlas.Text.Blank
import HeaderAtlas.Text.Search
import HeaderAtlas.Text.Utf8

/-!
# The lines of a source file

A file is read line by line. A physical line is what stands between two line
feeds, decoded and trimmed. A logical line is one that is not blank, together
with the lines that a backslash at its end joins to it.

`Pages` are the physical lines not read yet. They know how many lines have been
read, which is the current line number, and what is still to come costs: a
character each, and one more per line. Reading lowers the cost by at least the
length of what is read; every loop over a file is bounded by it.
-/

namespace HeaderAtlas

open Text

/-- What reading the given lines costs. -/
def lineCost : List (List Char) → Nat
  | [] => 0
  | l :: ls => l.length + 1 + lineCost ls

/-- The physical lines still to be read. -/
structure Pages where
  lines : List (List Char)
  /-- How many lines have been read. -/
  turned : Nat := 0
  /-- What the lines to come cost. -/
  cost : Nat := lineCost lines
  cost_eq : cost = lineCost lines := by rfl

namespace Pages

/-- The lines of a file of bytes. -/
def ofBytes (bytes : List UInt8) : Pages where
  lines := (byteLines bytes).map fun l => trim (decode l)

/-- The lines of a text. A line feed at the very end starts no line. -/
def ofText (text : String) : Pages where
  lines :=
    let ls := Text.lines text.toList
    (if ls.getLast? = some [] then ls.dropLast else ls).map trim

/-- The next physical line. -/
def turn? (p : Pages) : Option (List Char × Pages) :=
  match p with
  | ⟨[], _, _, _⟩ => none
  | ⟨l :: ls, n, c, h⟩ =>
    some (l, ⟨ls, n + 1, c - (l.length + 1), by rw [h, lineCost]; omega⟩)

/-- A line costs its length and one. -/
theorem cost_turn? {p q : Pages} {l : List Char} (h : p.turn? = some (l, q)) :
    q.cost + l.length + 1 = p.cost := by
  obtain ⟨ls, n, c, hc⟩ := p
  cases ls with
  | nil => simp [turn?] at h
  | cons m ms =>
    simp only [turn?, Option.some.injEq, Prod.mk.injEq] at h
    obtain ⟨rfl, rfl⟩ := h
    simp only [lineCost] at hc ⊢
    omega

/-- The line extended by those that a backslash at its end joins to it. A blank
line joins nothing and ends the logical line, as does the end of the file. -/
def join (line : List Char) (p : Pages) : List Char × Pages :=
  match dropTail? ['\\'] line with
  | none => (line, p)
  | some body =>
    match h : p.turn? with
    | none => (body, p)
    -- The blank line has been read, so it counts as a line.
    | some ([], q) => (body, q)
    | some (c :: cs, q) =>
      have := cost_turn? h
      join (body ++ c :: cs) q
termination_by p.cost

/-- The next logical line. -/
def logical (p : Pages) : Option (List Char) × Pages :=
  match h : p.turn? with
  | none => (none, p)
  | some ([], q) =>
    have := cost_turn? h
    logical q
  | some (c :: cs, q) =>
    let (line, r) := join (c :: cs) q
    (some line, r)
termination_by p.cost

section Equations

variable {p q : Pages} {line body cs : List Char} {c : Char}

theorem join_of_whole (h : dropTail? ['\\'] line = none) : join line p = (line, p) := by
  rw [join, h]

theorem join_of_end (h : dropTail? ['\\'] line = some body) (ht : p.turn? = none) :
    join line p = (body, p) := by
  rw [join, h]
  dsimp only
  split <;> simp_all

theorem join_of_blank (h : dropTail? ['\\'] line = some body) (ht : p.turn? = some ([], q)) :
    join line p = (body, q) := by
  rw [join, h]
  dsimp only
  split <;> simp_all

theorem join_of_line (h : dropTail? ['\\'] line = some body) (ht : p.turn? = some (c :: cs, q)) :
    join line p = join (body ++ c :: cs) q := by
  rw [join, h]
  dsimp only
  split <;> simp_all

theorem logical_of_end (ht : p.turn? = none) : p.logical = (none, p) := by
  rw [logical]
  split <;> simp_all

theorem logical_of_blank (ht : p.turn? = some ([], q)) : p.logical = q.logical := by
  rw [logical]
  split <;> simp_all

theorem logical_of_line (ht : p.turn? = some (c :: cs, q)) :
    p.logical = (some (join (c :: cs) q).1, (join (c :: cs) q).2) := by
  rw [logical]
  split <;> simp_all

end Equations

/-- A tail removed leaves the text shorter by it. -/
theorem length_of_dropTail? {tail cs rest : List Char} (h : dropTail? tail cs = some rest) :
    rest.length + tail.length = cs.length := by
  unfold dropTail? at h
  obtain ⟨r, hr, rfl⟩ := Option.map_eq_some_iff.mp h
  have := congrArg List.length (dropStem?_eq_some_iff.mp hr)
  simp only [List.length_reverse, List.length_append] at this ⊢
  omega

theorem cost_join (line : List Char) (p : Pages) :
    (join line p).2.cost + (join line p).1.length ≤ p.cost + line.length := by
  fun_induction join line p with
  | case1 => simp
  | case2 line p body hb h =>
    have := length_of_dropTail? hb
    simp at this ⊢
    omega
  | case3 line p body hb q h =>
    have := length_of_dropTail? hb
    have := cost_turn? h
    simp at *
    omega
  | case4 line p body hb c cs q h _ ih =>
    have := length_of_dropTail? hb
    have := cost_turn? h
    simp only [List.length_append, List.length_cons, List.length_nil] at *
    omega

/-- A logical line costs at least its length and one. -/
theorem cost_logical_some {p q : Pages} {line : List Char} (h : p.logical = (some line, q)) :
    q.cost + line.length + 1 ≤ p.cost := by
  fun_induction logical p with
  | case1 => simp at h
  | case2 p r hr _ ih =>
    have := cost_turn? hr
    have := ih h
    simp at *
    omega
  | case3 p c cs r hr l s hs =>
    simp only [Prod.mk.injEq, Option.some.injEq] at h
    obtain ⟨rfl, rfl⟩ := h
    have := cost_turn? hr
    have := cost_join (c :: cs) r
    rw [hs] at this
    simp only [List.length_cons] at *
    omega

/-- Looking for a logical line in vain costs nothing but blank lines. -/
theorem cost_logical_none {p q : Pages} (h : p.logical = (none, q)) : q.cost ≤ p.cost := by
  fun_induction logical p with
  | case1 => simp at h; simp [h]
  | case2 p r hr _ ih =>
    have := cost_turn? hr
    have := ih h
    omega
  | case3 => simp at h

end Pages

end HeaderAtlas
