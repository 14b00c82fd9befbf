import HeaderAtlas.Proofs.Expressions.Arithmetic

/-!
# Shifts of one

A value that is written as `1 << n` is recorded with its bit `n`. The bit is found without the
reader: parentheses around the text are dropped, the text is cut at the first `<<`, and both parts
are evaluated as expressions of their own.

The parts of a text need not be the operands of the shift. A `|` or another shift that comes after
binds less tightly, and so does a `|` that comes before. Where there is none outside parentheses
(`LoneShift`), the parts are the operands, and bit and value agree (`evaluate_of_bitShift?`).
-/

namespace HeaderAtlas

namespace ConstExpr

variable {cs : List Char} {e l r : ConstExpr} {n : Nat} {v : Int}

/-- Up to parentheses around it, the text is a shift to the left at its first `<<`. -/
def LoneShift (cs : List Char) (l r : ConstExpr) : Prop :=
  ∃ base places, Text.cut? ['<', '<'] (unwrap cs) = some (base, places) ∧ Derives .shift base l
    ∧ Derives .sum places r

/-- Parentheses around an expression change nothing. -/
theorem derives_of_unwrap (h : Derives .or (unwrap cs) e) : Derives .or cs e := by
  fun_induction unwrap cs with
  | case1 rest inner hinner _ ih =>
    rw [Text.dropTail?_eq_some_iff.mp hinner]
    exact .shift (.sum (.unary (.group (ih h))))
  | case2 | case3 => exact h

/-- The shift is the expression that is read. -/
theorem LoneShift.derives (h : LoneShift cs l r) : Derives .or cs (.shl l r) := by
  obtain ⟨base, places, hcut, hbase, hplaces⟩ := h
  refine derives_of_unwrap ?_
  rw [Text.eq_of_cut? hcut, List.append_assoc]
  exact .shift (.shl hbase hplaces)

theorem evaluateCompact_of_derives (h : Derives .or cs e) : evaluateCompact cs = eval? e := by
  rw [evaluateCompact, ofCompact?_eq_some_iff.mpr h]
  rfl

/-- A bit is found where what is shifted has the value one, and it is the number of places. -/
theorem LoneShift.operands {text : String} (h : LoneShift (Text.compact text.toList) l r)
    (hn : bitShift? text = some n) : eval? l = some 1 ∧ eval? r = some (n : Int) := by
  obtain ⟨base, places, hcut, hbase, hplaces⟩ := h
  rw [bitShift?, hcut, Option.bind_eq_bind, Option.bind_some] at hn
  obtain ⟨a, ha, hn⟩ := Option.bind_eq_some_iff.mp hn
  rw [evaluateCompact_of_derives (.shift hbase)] at ha
  split at hn
  · next hone =>
    subst hone
    obtain ⟨b, hb, hn⟩ := Option.bind_eq_some_iff.mp hn
    rw [evaluateCompact_of_derives (.shift (.sum hplaces))] at hb
    split at hn
    · next hrange =>
      cases hn
      rw [Int.toNat_of_nonneg hrange.1]
      exact ⟨ha, hb⟩
    · cases hn
  · cases hn

/-- **The value of a lone shift with a bit is one, shifted by as many places**, in 64-bit
arithmetic. If there are more than 63, it has no value. -/
theorem evaluate_of_bitShift? {text : String} (h : LoneShift (Text.compact text.toList) l r)
    (hn : bitShift? text = some n) :
    evaluate text = if n < 64 then some (shiftLeft 1 n) else none := by
  obtain ⟨hl, hr⟩ := h.operands hn
  have hplaces : places? (n : Int) = if n < 64 then some n else none := by
    by_cases hn : n < 64
    · rw [if_pos hn, places?, if_pos (by omega)]
      rfl
    · rw [if_neg hn, places?, if_neg (by omega)]
  calc evaluate text = eval? (.shl l r) := evaluateCompact_of_derives h.derives
    _ = (places? (n : Int)).bind fun k => some (shiftLeft 1 k) := by
      rw [eval?, hl, hr]
      rfl
    _ = if n < 64 then some (shiftLeft 1 n) else none := by
      rw [hplaces]
      split <;> rfl

/-- A shift of what is shifted to the right before, by places that are in parentheses. -/
theorem evaluate_of_shiftInParentheses :
    LoneShift "(2>>1<<(2|4))".toList (.shr (.literal 2) (.literal 1)) (.or (.literal 2) (.literal 4))
      ∧ bitShift? "(2 >> 1 << (2 | 4))" = some 6
      ∧ evaluate "(2 >> 1 << (2 | 4))" = some 64 := by
  have hliteral : ∀ {w : List Char} {n : Nat}, literalValue? w = some n →
      Derives .sum w (.literal n) := fun h => .unary (derives_of_literalValue? h)
  have hbase : Derives .shift (['2'] ++ '>' :: '>' :: ['1']) (.shr (.literal 2) (.literal 1)) :=
    .shr (.sum (hliteral rfl)) (hliteral rfl)
  have hplaces : Derives .or (['2'] ++ '|' :: ['4']) (.or (.literal 2) (.literal 4)) :=
    .or (.shift (.sum (hliteral rfl))) (.sum (hliteral rfl))
  have hlone : LoneShift "(2>>1<<(2|4))".toList (.shr (.literal 2) (.literal 1))
      (.or (.literal 2) (.literal 4)) :=
    ⟨_, _, by decide +kernel, hbase, .unary (.group hplaces)⟩
  have htext : Text.compact "(2 >> 1 << (2 | 4))".toList = "(2>>1<<(2|4))".toList := by
    decide +kernel
  have hn : bitShift? "(2 >> 1 << (2 | 4))" = some 6 := by decide +kernel
  exact ⟨hlone, hn, evaluate_of_bitShift? (htext ▸ hlone) hn⟩

/-- After the shift, another one and a `|`: the bits that are found are the values of all that comes
after the first `<<`. -/
theorem bitShift?_of_severalOperators :
    (bitShift? "1<<2<<3" = some 16 ∧ evaluate "1<<2<<3" = some 32 ∧ shiftLeft 1 16 = 65536)
      ∧ bitShift? "1<<2|1" = some 3 ∧ evaluate "1<<2|1" = some 5 ∧ shiftLeft 1 3 = 8 := by
  decide +kernel

end ConstExpr

end HeaderAtlas
