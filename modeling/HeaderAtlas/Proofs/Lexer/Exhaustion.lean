import HeaderAtlas.Proofs.Lexer.Concatenation

/-!
# A lexer comes to the end of its file

Whatever is asked of a lexer, tokens or that the rest of a line be dropped, it only goes forward.
Each token makes it smaller, and it starts no larger than its file (`Lexer.exists_answers`). The
first time that it has no token to give nothing is left, and so it stays (`Lexer.Dry.answers`).

The line it is on counts those that have been read, and what has been read is always a first part
of the file (`Lexer.leadsTo_after`). Where nothing is left, every line has been counted, wherever
the file breaks off: in a string, in a comment or after a backslash.
-/

namespace HeaderAtlas

open Text

/-! ## The lines of a file -/

namespace Text

/-- The number of lines of a file: those that a line feed ends, and what comes after the last
line feed, if anything does. -/
def lineCount (bytes : List UInt8) : Nat :=
  bytes.count 0x0A + if bytes = [] ∨ bytes.getLast? = some 0x0A then 0 else 1

/-- The last piece is empty only after a separator. -/
theorem getLast?_pieces_concat {α : Type} {p : α → Bool} (xs : List α) {x : α} (hx : p x = false) :
    (pieces p (xs ++ [x])).getLast? ≠ some [] := by
  induction xs with
  | nil => simp [pieces_cons_of_neg, hx]
  | cons y xs ih =>
    cases hy : p y with
    | true =>
      rw [List.cons_append, pieces_cons_of_pos _ hy,
        List.getLast?_cons_of_ne_nil (pieces_ne_nil _ _)]
      exact ih
    | false =>
      rw [List.cons_append, pieces_cons_of_neg _ hy]
      split
      · simp
      · next w ws hws =>
        rw [hws] at ih
        cases ws with
        | nil => simp
        | cons v vs => rwa [List.getLast?_cons_cons] at ih ⊢

theorem length_byteLines (bytes : List UInt8) : (byteLines bytes).length = lineCount bytes := by
  rcases List.eq_nil_or_concat bytes with rfl | ⟨front, b, rfl⟩
  · rfl
  · rw [List.concat_eq_append, lineCount, List.getLast?_concat, List.count_append]
    by_cases hb : b = 0x0A
    · subst hb
      rw [byteLines_of_break, List.length_append, length_pieces]
      simp [List.count, byteLines]
    · have hlast := getLast?_pieces_concat (p := (· == 0x0A)) front (beq_eq_false_iff_ne.mpr hb)
      rw [byteLines, if_neg hlast, length_pieces, List.countP_append]
      simp [List.count, hb]

/-- Bytes encode no more characters than they are. -/
theorem length_decode_le (bytes : List UInt8) : (decode bytes).length ≤ bytes.length := by
  have honto : ∀ acc, (decodeOnto acc bytes).length ≤ acc.length + bytes.length := by
    intro acc
    fun_induction decodeOnto acc bytes with
    | case1 => exact Nat.le_refl _
    | case2 acc b rest hle ih =>
      simp only [List.length_cons] at ih ⊢
      omega
  rw [decode, List.length_reverse]
  exact Nat.le_trans (honto []) (by simp)

/-- The pieces lack the separators, which are one less than they. -/
theorem length_flatten_pieces {α : Type} (p : α → Bool) (xs : List α) :
    (pieces p xs).flatten.length + (pieces p xs).length = xs.length + 1 := by
  induction xs with
  | nil => rfl
  | cons x xs ih =>
    cases hx : p x with
    | true =>
      rw [pieces_cons_of_pos xs hx, List.flatten_cons, List.nil_append]
      simp only [List.length_cons]
      omega
    | false =>
      rw [pieces_cons_of_neg xs hx]
      split
      · next hnil => exact absurd hnil (pieces_ne_nil p xs)
      · next w ws hws =>
        rw [hws] at ih
        simp only [List.flatten_cons, List.length_append, List.length_cons] at ih ⊢
        omega

end Text

/-- Reading a file costs no more than it has bytes, and one. -/
theorem Pages.cost_ofBytes_le (bytes : List UInt8) : (ofBytes bytes).cost ≤ bytes.length + 1 := by
  have hdecode : ∀ ls : List (List UInt8),
      lineCost (ls.map fun l => trim (decode l)) ≤ ls.flatten.length + ls.length := by
    intro ls
    induction ls with
    | nil => exact Nat.le_refl _
    | cons l ls ih =>
      have hl := Nat.le_trans (length_trim_le (decode l)) (length_decode_le l)
      rw [List.map_cons, lineCost, List.flatten_cons, List.length_append, List.length_cons]
      omega
  obtain ⟨rest, hrest⟩ : byteLines bytes <+: pieces (· == 0x0A) bytes := by
    unfold byteLines
    dsimp only
    split
    · exact List.dropLast_prefix _
    · exact List.prefix_rfl
  have hlength := length_flatten_pieces (· == 0x0A) bytes
  rw [← hrest, List.flatten_append, List.length_append, List.length_append] at hlength
  have hcost : (ofBytes bytes).cost ≤ (byteLines bytes).flatten.length + (byteLines bytes).length :=
    hdecode (byteLines bytes)
  omega

/-! ## Calls -/

namespace Lexer

/-- What a lexer can be asked. -/
inductive Call where
  /-- For the next token. -/
  | next
  /-- To drop the rest of the line. -/
  | discard
deriving DecidableEq, Repr

/-- The lexer after the calls. -/
def after (lx : Lexer) : List Call → Lexer
  | [] => lx
  | .next :: calls => lx.next.2.after calls
  | .discard :: calls => lx.discardLine.after calls

/-- What it answers to those that are for a token. -/
def answers (lx : Lexer) : List Call → List (Option Token)
  | [] => []
  | .next :: calls => lx.next.1 :: lx.next.2.answers calls
  | .discard :: calls => lx.discardLine.answers calls

variable {lx : Lexer} {calls : List Call}

theorem after_append (lx : Lexer) (calls more : List Call) :
    lx.after (calls ++ more) = (lx.after calls).after more := by
  induction calls generalizing lx with
  | nil => rfl
  | cons call calls ih => cases call <;> exact ih _

/-- Calls only lead forward. -/
theorem leadsTo_after (lx : Lexer) (calls : List Call) :
    lx.pages.LeadsTo (lx.after calls).pages := by
  induction calls generalizing lx with
  | nil => exact .refl _
  | cons call calls ih =>
    cases call with
    | next => exact (leadsTo_next lx).trans (ih lx.next.2)
    | discard => exact ih lx.discardLine

theorem line_le_after (lx : Lexer) (calls : List Call) :
    Feed.line lx ≤ Feed.line (lx.after calls) := by
  obtain ⟨read, -, hturned⟩ := leadsTo_after lx calls
  exact Nat.le.intro hturned.symm

namespace Dry

theorem discardLine (h : lx.Dry) : lx.discardLine.Dry := ⟨h.lines, rfl, rfl⟩

theorem next_dry (h : lx.Dry) : lx.next.2.Dry := by
  rw [h.next]
  exact ⟨h.lines, rfl, rfl⟩

/-- Where nothing is left, nothing comes any more. -/
theorem answers (h : lx.Dry) (calls : List Call) :
    lx.answers calls = List.replicate (calls.count .next) none ∧ (lx.after calls).Dry := by
  induction calls generalizing lx with
  | nil => exact ⟨rfl, h⟩
  | cons call calls ih =>
    cases call with
    | next =>
      obtain ⟨hanswers, hafter⟩ := ih h.next_dry
      refine ⟨?_, hafter⟩
      rw [Lexer.answers, hanswers, List.count_cons_self, List.replicate_succ, h.next]
    | discard =>
      obtain ⟨hanswers, hafter⟩ := ih h.discardLine
      refine ⟨?_, hafter⟩
      rw [Lexer.answers, hanswers, List.count_cons_of_ne (by decide)]

/-- All lines have been counted. -/
theorem line_eq (h : lx.Dry) : Feed.line lx = lx.pages.count := by
  rw [Pages.count, h.lines]
  rfl

end Dry

/-- First come tokens, no more than the size of the lexer, and then nothing comes any more. -/
theorem exists_answers (lx : Lexer) (calls : List Call) :
    ∃ tokens : List Token, tokens.length ≤ lx.size ∧ lx.answers calls
      = tokens.map some ++ List.replicate (calls.count .next - tokens.length) none := by
  induction calls generalizing lx with
  | nil => exact ⟨[], Nat.zero_le _, rfl⟩
  | cons call calls ih =>
    cases call with
    | next =>
      cases hnext : lx.next.1 with
      | none =>
        have hdry : lx.next.2.Dry := dry_of_next hnext
        refine ⟨[], Nat.zero_le _, ?_⟩
        rw [answers, hnext, (hdry.answers calls).1, List.count_cons_self]
        rfl
      | some t =>
        obtain ⟨tokens, hlength, htokens⟩ := ih lx.next.2
        have hsize := size_next lx
        rw [hnext] at hsize
        refine ⟨t :: tokens, Nat.le_trans (Nat.succ_le_succ hlength) hsize, ?_⟩
        rw [answers, hnext, htokens, List.count_cons_self, List.length_cons, Nat.add_sub_add_right]
        rfl
    | discard =>
      obtain ⟨tokens, hlength, htokens⟩ := ih lx.discardLine
      have hsize : lx.discardLine.size ≤ lx.size := LawfulFeed.size_discardLine lx
      refine ⟨tokens, Nat.le_trans hlength hsize, ?_⟩
      rw [answers, htokens, List.count_cons_of_ne (by decide)]

theorem dry_of_mem_answers (h : none ∈ lx.answers calls) : (lx.after calls).Dry := by
  induction calls generalizing lx with
  | nil => cases h
  | cons call calls ih =>
    cases call with
    | next =>
      rcases List.mem_cons.mp h with hnone | h
      · have hdry : lx.next.2.Dry := dry_of_next hnone.symm
        exact (hdry.answers calls).2
      · exact ih h
    | discard => exact ih h

/-- **The tokens of a file come to an end, and so does the count of its lines.** Whenever
tokens are asked for and lines dropped, the answers are tokens, at most one more than there are
bytes, and after them nothing any more. The line only grows, and once there was no token it is
the number of lines of the file. -/
theorem finite_and_counted (bytes : List UInt8) (calls : List Call) :
    (∃ tokens : List Token, tokens.length ≤ bytes.length + 1 ∧ (ofBytes bytes).answers calls
      = tokens.map some ++ List.replicate (calls.count .next - tokens.length) none)
    ∧ (∀ more, Feed.line ((ofBytes bytes).after calls)
      ≤ Feed.line ((ofBytes bytes).after (calls ++ more)))
    ∧ (none ∈ (ofBytes bytes).answers calls →
      Feed.line ((ofBytes bytes).after calls) = lineCount bytes) := by
  refine ⟨?_, fun more => ?_, fun hnone => ?_⟩
  · obtain ⟨tokens, hlength, htokens⟩ := exists_answers (ofBytes bytes) calls
    have hsize : (ofBytes bytes).size = (Pages.ofBytes bytes).cost := Nat.zero_add _
    exact ⟨tokens, Nat.le_trans hlength (hsize ▸ Pages.cost_ofBytes_le bytes), htokens⟩
  · rw [after_append]
    exact line_le_after _ more
  · calc Feed.line ((ofBytes bytes).after calls)
        = ((ofBytes bytes).after calls).pages.count := (dry_of_mem_answers hnone).line_eq
      _ = (Pages.ofBytes bytes).count := (leadsTo_after _ calls).count_eq
      _ = (byteLines bytes).length := by rw [Pages.count]; simp [Pages.ofBytes]
      _ = lineCount bytes := length_byteLines bytes

/-- A string that is not closed, over a blank line and a line that goes on after the end. -/
def openString : List UInt8 := asciiBytes "f(\"a\n\n b, /* c */ d\\"

theorem line_of_openString :
    none ∈ (ofBytes openString).answers [.next, .next, .next, .discard]
      ∧ Feed.line ((ofBytes openString).after [.next, .next, .next, .discard]) = 3 := by
  obtain ⟨-, -, hline⟩ := finite_and_counted openString [.next, .next, .next, .discard]
  have hnone : none ∈ (ofBytes openString).answers [.next, .next, .next, .discard] := by
    decide +kernel
  exact ⟨hnone, (hline hnone).trans (by decide +kernel)⟩

end Lexer

end HeaderAtlas
