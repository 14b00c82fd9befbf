import HeaderAtlas.Proofs.Expressions.Grammar

/-!
# The arithmetic of constant expressions

The value of an expression is told by rules of 64-bit machine arithmetic (`Yields`): sums,
differences and negations must not overflow, shifts go by 0 to 63 places, and what a left shift
pushes out is lost. Numbers are evaluated as integers, which agrees with the rules
(`eval?_eq_some_iff`).

Together with the grammar this says which texts have a value, and which one
(`evaluate_eq_some_iff`).
-/

namespace HeaderAtlas

namespace ConstExpr

/-- The expression has this value in 64-bit arithmetic. -/
inductive Yields : ConstExpr → BitVec 64 → Prop where
  | literal {n : Nat} : n < 2 ^ 63 → Yields (.literal n) (BitVec.ofNat 64 n)
  | neg {e : ConstExpr} {a : BitVec 64} :
      Yields e a → a.negOverflow = false → Yields (.neg e) (-a)
  | add {l r : ConstExpr} {a b : BitVec 64} :
      Yields l a → Yields r b → a.saddOverflow b = false → Yields (.add l r) (a + b)
  | sub {l r : ConstExpr} {a b : BitVec 64} :
      Yields l a → Yields r b → a.ssubOverflow b = false → Yields (.sub l r) (a - b)
  | shl {l r : ConstExpr} {a b : BitVec 64} :
      Yields l a → Yields r b → 0 ≤ b.toInt ∧ b.toInt < 64 → Yields (.shl l r) (a <<< b.toNat)
  | shr {l r : ConstExpr} {a b : BitVec 64} :
      Yields l a → Yields r b → 0 ≤ b.toInt ∧ b.toInt < 64 →
        Yields (.shr l r) (a.sshiftRight b.toNat)
  | or {l r : ConstExpr} {a b : BitVec 64} :
      Yields l a → Yields r b → Yields (.or l r) (a ||| b)

variable {e : ConstExpr} {v : Int}

/-! ## Operations -/

theorem fit?_literal (n : Nat) :
    fit? n = if n < 2 ^ 63 then some (BitVec.ofNat 64 n).toInt else none := by
  rw [fit?]
  split
  · next h =>
    have hn : n < 2 ^ 63 := by omega
    rw [if_pos hn, BitVec.toInt_ofNat', Int.bmod_eq_of_le (by omega) (by omega)]
  · next h => rw [if_neg (by omega)]

theorem fit?_neg (a : BitVec 64) :
    fit? (-a.toInt) = if a.negOverflow then none else some (-a).toInt := by
  have hlower := a.le_toInt
  have hupper := a.toInt_lt
  split
  · next h =>
    simp only [BitVec.negOverflow, beq_iff_eq] at h
    exact if_neg (by omega)
  · next h =>
    rw [BitVec.toInt_neg_of_not_negOverflow h]
    simp only [BitVec.negOverflow, beq_iff_eq] at h
    exact if_pos (by omega)

theorem fit?_add (a b : BitVec 64) :
    fit? (a.toInt + b.toInt) = if a.saddOverflow b then none else some (a + b).toInt := by
  split
  · next h =>
    simp only [BitVec.saddOverflow, Bool.or_eq_true, decide_eq_true_eq] at h
    exact if_neg (by omega)
  · next h =>
    rw [BitVec.toInt_add_of_not_saddOverflow h]
    simp only [BitVec.saddOverflow, Bool.or_eq_true, decide_eq_true_eq] at h
    exact if_pos (by omega)

theorem fit?_sub (a b : BitVec 64) :
    fit? (a.toInt - b.toInt) = if a.ssubOverflow b then none else some (a - b).toInt := by
  split
  · next h =>
    simp only [BitVec.ssubOverflow, Bool.or_eq_true, decide_eq_true_eq] at h
    exact if_neg (by omega)
  · next h =>
    rw [BitVec.toInt_sub_of_not_ssubOverflow h]
    simp only [BitVec.ssubOverflow, Bool.or_eq_true, decide_eq_true_eq] at h
    exact if_pos (by omega)

theorem places?_toInt (b : BitVec 64) :
    places? b.toInt = if 0 ≤ b.toInt ∧ b.toInt < 64 then some b.toNat else none := by
  rw [places?]
  split
  · next h =>
    have hmsb : b.msb = false := by
      rw [BitVec.msb_eq_toInt]
      exact decide_eq_false (Int.not_lt.mpr h.1)
    rw [BitVec.toNat_toInt_of_msb b hmsb]
  · rfl

theorem shiftLeft_toInt (a : BitVec 64) (k : Nat) : shiftLeft a.toInt k = (a <<< k).toInt := by
  rw [shiftLeft, BitVec.toInt_shiftLeft, Nat.shiftLeft_eq, BitVec.toInt_eq_toNat_bmod]
  push_cast
  exact Int.bmod_mul_bmod

theorem bitOr_toInt (a b : BitVec 64) : bitOr a.toInt b.toInt = (a ||| b).toInt := by
  rw [bitOr, BitVec.ofInt_toInt, BitVec.ofInt_toInt]

/-! ## Values -/

/-- Both sides of an operator are given a value, if it is. -/
theorem exists_operands {l r : ConstExpr} {f : Int → Int → Option Int}
    (h : (eval? l >>= fun m => eval? r >>= fun n => f m n) = some v) :
    ∃ m n, eval? l = some m ∧ eval? r = some n ∧ f m n = some v := by
  obtain ⟨m, hm, h⟩ := Option.bind_eq_some_iff.mp h
  obtain ⟨n, hn, h⟩ := Option.bind_eq_some_iff.mp h
  exact ⟨m, n, hm, hn, h⟩

/-- Both sides of an operator have a value, if it is given one. -/
theorem operands {l r : ConstExpr} {f : Int → Int → Option Int}
    (hl : ∀ {v}, eval? l = some v → ∃ a, Yields l a ∧ a.toInt = v)
    (hr : ∀ {v}, eval? r = some v → ∃ b, Yields r b ∧ b.toInt = v)
    (h : (eval? l >>= fun m => eval? r >>= fun n => f m n) = some v) :
    ∃ a b, Yields l a ∧ Yields r b ∧ f a.toInt b.toInt = some v := by
  obtain ⟨m, n, hm, hn, h⟩ := exists_operands h
  obtain ⟨a, ha, rfl⟩ := hl hm
  obtain ⟨b, hb, rfl⟩ := hr hn
  exact ⟨a, b, ha, hb, h⟩

/-- Evaluation finds the values that the rules tell. -/
theorem eval?_eq_some_iff : eval? e = some v ↔ ∃ a, Yields e a ∧ a.toInt = v := by
  constructor
  · intro h
    induction e generalizing v with
    | literal n =>
      rw [eval?, fit?_literal] at h
      split at h
      · next hn =>
        cases h
        exact ⟨_, .literal hn, rfl⟩
      · cases h
    | neg e ih =>
      obtain ⟨m, hm, h⟩ := Option.bind_eq_some_iff.mp h
      obtain ⟨a, ha, rfl⟩ := ih hm
      rw [fit?_neg] at h
      split at h
      · cases h
      · next hno =>
        cases h
        exact ⟨-a, .neg ha (Bool.eq_false_of_not_eq_true hno), rfl⟩
    | add l r ihl ihr =>
      obtain ⟨a, b, ha, hb, h⟩ := operands ihl ihr h
      rw [fit?_add] at h
      split at h
      · cases h
      · next hno =>
        cases h
        exact ⟨a + b, .add ha hb (Bool.eq_false_of_not_eq_true hno), rfl⟩
    | sub l r ihl ihr =>
      obtain ⟨a, b, ha, hb, h⟩ := operands ihl ihr h
      rw [fit?_sub] at h
      split at h
      · cases h
      · next hno =>
        cases h
        exact ⟨a - b, .sub ha hb (Bool.eq_false_of_not_eq_true hno), rfl⟩
    | shl l r ihl ihr =>
      obtain ⟨a, b, ha, hb, h⟩ := operands ihl ihr h
      rw [places?_toInt] at h
      split at h
      · next hplaces =>
        cases h
        exact ⟨_, .shl ha hb hplaces, (shiftLeft_toInt a b.toNat).symm⟩
      · cases h
    | shr l r ihl ihr =>
      obtain ⟨a, b, ha, hb, h⟩ := operands ihl ihr h
      rw [places?_toInt] at h
      split at h
      · next hplaces =>
        cases h
        exact ⟨_, .shr ha hb hplaces, BitVec.toInt_sshiftRight⟩
      · cases h
    | or l r ihl ihr =>
      obtain ⟨a, b, ha, hb, h⟩ := operands ihl ihr h
      cases h
      exact ⟨_, .or ha hb, (bitOr_toInt a b).symm⟩
  · rintro ⟨a, ha, rfl⟩
    induction ha with
    | literal hn => rw [eval?, fit?_literal, if_pos hn]
    | neg _ hno ih => simp [eval?, ih, fit?_neg, hno]
    | add _ _ hno ihl ihr => simp [eval?, ihl, ihr, fit?_add, hno]
    | sub _ _ hno ihl ihr => simp [eval?, ihl, ihr, fit?_sub, hno]
    | shl _ _ hb ihl ihr => simp [eval?, ihl, ihr, places?_toInt, hb, shiftLeft_toInt]
    | shr _ _ hb ihl ihr => simp [eval?, ihl, ihr, places?_toInt, hb, BitVec.toInt_sshiftRight]
    | or _ _ ihl ihr => simp [eval?, ihl, ihr, bitOr_toInt]

/-- A value is the value of some bits, so it fits. -/
theorem fit?_of_evaluate {text : String} (h : evaluate text = some v) : fit? v = some v := by
  obtain ⟨e, -, he⟩ := Option.bind_eq_some_iff.mp h
  obtain ⟨a, -, rfl⟩ := eval?_eq_some_iff.mp he
  exact if_pos ⟨a.le_toInt, a.toInt_lt⟩

/-- **A text has a value if and only if it is an expression of the grammar that has one.** -/
theorem evaluate_eq_some_iff {text : String} {v : Int} :
    evaluate text = some v
      ↔ ∃ e a, Derives .or (Text.compact text.toList) e ∧ Yields e a ∧ a.toInt = v := by
  rw [evaluate, ofText?, Option.bind_eq_bind, Option.bind_eq_some_iff]
  constructor
  · rintro ⟨e, he, hv⟩
    obtain ⟨a, ha, hav⟩ := eval?_eq_some_iff.mp hv
    exact ⟨e, a, ofCompact?_eq_some_iff.mp he, ha, hav⟩
  · rintro ⟨e, a, he, ha, hav⟩
    exact ⟨e, ofCompact?_eq_some_iff.mpr he, eval?_eq_some_iff.mpr ⟨a, ha, hav⟩⟩

end ConstExpr

end HeaderAtlas
