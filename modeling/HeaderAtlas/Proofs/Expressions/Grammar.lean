import HeaderAtlas.ConstExpr
import Mathlib.Data.List.DropRight
import Mathlib.Tactic.IntervalCases

/-!
# The grammar of constant expressions

The grammar is told by rules (`Derives`), without a reader: an operand of each level is one of the
next tighter level, and the binary operators group from the left. The reader accepts exactly the
texts that the rules derive, and it reads the expression that they derive
(`ofCompact?_eq_some_iff`).

That what is read is derived follows the reader. In the other direction the induction is on the
derivation, and what is shown of a chain of operands says how the reader goes on after it: it has
the derived expression on its left, and the rest of the text before it. Then what may come after
the text of an expression need only be said where the chain ends.
-/

namespace HeaderAtlas

namespace ConstExpr

/-! ## The rules -/

/-- The character stands for the digit. Letters may be small or capital. -/
def WritesDigit (c : Char) (d : Nat) : Prop := c = d.digitChar ∨ c = d.digitChar.toUpper

instance (c : Char) (d : Nat) : Decidable (WritesDigit c d) := inferInstanceAs (Decidable (_ ∨ _))

/-- The digits, of which there is at least one, make up the number. -/
inductive Numeral (base : Nat) : List Char → Nat → Prop where
  | digit {c : Char} {d : Nat} : d < base → WritesDigit c d → Numeral base [c] d
  | more {cs : List Char} {n : Nat} {c : Char} {d : Nat} :
      Numeral base cs n → d < base → WritesDigit c d → Numeral base (cs ++ [c]) (n * base + d)

/-- How tightly the operators of an expression bind that are not inside parentheses. -/
inductive Level where
  | or | shift | sum | unary

/-- The text is an expression of the level. -/
inductive Derives : Level → List Char → ConstExpr → Prop where
  | decimal {cs suffix : List Char} {n : Nat} : Numeral 10 cs n →
      (∀ c ∈ suffix, c ∈ ['u', 'U', 'l', 'L']) → Derives .unary (cs ++ suffix) (.literal n)
  | hexadecimal {x : Char} {cs suffix : List Char} {n : Nat} : x ∈ ['x', 'X'] → Numeral 16 cs n →
      (∀ c ∈ suffix, c ∈ ['u', 'U', 'l', 'L']) →
      Derives .unary ('0' :: x :: (cs ++ suffix)) (.literal n)
  | neg {cs : List Char} {e : ConstExpr} : Derives .unary cs e → Derives .unary ('-' :: cs) (.neg e)
  | group {cs : List Char} {e : ConstExpr} :
      Derives .or cs e → Derives .unary ('(' :: (cs ++ [')'])) e
  | unary {cs : List Char} {e : ConstExpr} : Derives .unary cs e → Derives .sum cs e
  | add {cs cs' : List Char} {l r : ConstExpr} :
      Derives .sum cs l → Derives .unary cs' r → Derives .sum (cs ++ '+' :: cs') (.add l r)
  | sub {cs cs' : List Char} {l r : ConstExpr} :
      Derives .sum cs l → Derives .unary cs' r → Derives .sum (cs ++ '-' :: cs') (.sub l r)
  | sum {cs : List Char} {e : ConstExpr} : Derives .sum cs e → Derives .shift cs e
  | shl {cs cs' : List Char} {l r : ConstExpr} :
      Derives .shift cs l → Derives .sum cs' r → Derives .shift (cs ++ '<' :: '<' :: cs') (.shl l r)
  | shr {cs cs' : List Char} {l r : ConstExpr} :
      Derives .shift cs l → Derives .sum cs' r → Derives .shift (cs ++ '>' :: '>' :: cs') (.shr l r)
  | shift {cs : List Char} {e : ConstExpr} : Derives .shift cs e → Derives .or cs e
  | or {cs cs' : List Char} {l r : ConstExpr} :
      Derives .or cs l → Derives .shift cs' r → Derives .or (cs ++ '|' :: cs') (.or l r)

variable {cs cs' rest : List Char} {c : Char} {e l r : ConstExpr} {base d n fuel : Nat}
  {level : Level}

/-! ## Digits and suffixes -/

theorem digit?_of_writesDigit (hbase : base ≤ 16) (hd : d < base) (h : WritesDigit c d) :
    Text.digit? base c = some d := by
  have hvalue : Text.digitValue? c = some d := by
    have hd' : d < 16 := Nat.lt_of_lt_of_le hd hbase
    rcases h with rfl | rfl <;> interval_cases d <;> rfl
  simp [Text.digit?, hvalue, hd]

theorem writesDigit_of_digit? (hbase : base ≤ 16) (h : Text.digit? base c = some d) :
    WritesDigit c d := by
  have hd : d < 16 := Nat.lt_of_lt_of_le (Text.lt_of_digit? h) hbase
  have hvalue : Text.digitValue? c = some d := (Option.filter_eq_some_iff.mp h).1
  have hc : c.toNat < 128 := by
    unfold Text.digitValue? at hvalue
    simp only [Char.le_def, UInt32.le_iff_toNat_le] at hvalue
    grind
  -- There are only so many characters to look at.
  have hall : ∀ n < 128, ∀ d < 16, Text.digitValue? (Char.ofNat n) = some d →
      WritesDigit (Char.ofNat n) d := by
    decide +kernel
  have hwrites := hall c.toNat hc d hd
  rw [Char.ofNat_toNat] at hwrites
  exact hwrites hvalue

/-- One more digit. -/
theorem numeral?_concat (hcs : cs ≠ []) :
    Text.numeral? base (cs ++ [c])
      = (Text.numeral? base cs).bind fun n => (Text.digit? base c).map (n * base + ·) := by
  simp [Text.numeral?, hcs, List.foldlM_append]

/-- The numerals of the rules are those that are read. -/
theorem numeral?_eq_some_iff (hbase : base ≤ 16) :
    Text.numeral? base cs = some n ↔ Numeral base cs n := by
  constructor
  · intro h
    induction cs using List.reverseRecOn generalizing n with
    | nil => cases h
    | append_singleton cs c ih =>
      cases cs with
      | nil =>
        have hd : Text.digit? base c = some n := by simpa [Text.numeral?] using h
        exact .digit (Text.lt_of_digit? hd) (writesDigit_of_digit? hbase hd)
      | cons b bs =>
        rw [numeral?_concat (List.cons_ne_nil b bs)] at h
        obtain ⟨m, hm, h⟩ := Option.bind_eq_some_iff.mp h
        obtain ⟨d, hd, rfl⟩ := Option.map_eq_some_iff.mp h
        exact .more (ih hm) (Text.lt_of_digit? hd) (writesDigit_of_digit? hbase hd)
  · intro h
    induction h with
    | digit hd hc => simp [Text.numeral?, digit?_of_writesDigit hbase hd hc]
    | @more cs m c d hcs hd hc ih =>
      have hne : cs ≠ [] := by
        rintro rfl
        cases ih
      rw [numeral?_concat hne, ih, digit?_of_writesDigit hbase hd hc]
      rfl

/-- A numeral consists of digits. -/
theorem Numeral.forall_mem (h : Numeral base cs n) :
    cs ≠ [] ∧ ∀ c ∈ cs, ∃ d < base, WritesDigit c d := by
  induction h with
  | digit hd hc => exact ⟨by simp, by simpa using ⟨_, hd, hc⟩⟩
  | more hcs hd hc ih =>
    refine ⟨by simp, fun c hmem => ?_⟩
    rcases List.mem_append.mp hmem with hmem | hmem
    · exact ih.2 c hmem
    · obtain rfl := List.mem_singleton.mp hmem
      exact ⟨_, hd, hc⟩

/-! ## Literals -/

/-- A digit is a letter or a digit, and no suffix. -/
theorem WritesDigit.classes (h : WritesDigit c d) (hd : d < 16) :
    c.isAlphanum = true ∧ isSuffix c = false ∧ (d < 10 → c.isDigit = true) := by
  rcases h with rfl | rfl <;> interval_cases d <;> decide

theorem isSuffix_iff : isSuffix c = true ↔ c ∈ ['u', 'U', 'l', 'L'] := by
  simp [isSuffix, or_assoc]

theorem isAlphanum_of_isSuffix (h : isSuffix c = true) : c.isAlphanum = true := by
  simp only [isSuffix, Bool.or_eq_true, beq_iff_eq] at h
  rcases h with ((rfl | rfl) | rfl) | rfl <;> decide

/-- A literal is a word. -/
theorem Numeral.isAlphanum {suffix : List Char} (h : Numeral base cs n) (hbase : base ≤ 16)
    (hsuffix : ∀ c ∈ suffix, c ∈ ['u', 'U', 'l', 'L']) :
    ∀ c ∈ cs ++ suffix, c.isAlphanum = true := by
  intro c hc
  rcases List.mem_append.mp hc with hc | hc
  · obtain ⟨d, hd, hwrites⟩ := h.forall_mem.2 c hc
    exact (hwrites.classes (by omega)).1
  · exact isAlphanum_of_isSuffix (isSuffix_iff.mpr (hsuffix c hc))

theorem isAlphanum_hexadecimal {x : Char} {suffix : List Char} (hx : x ∈ ['x', 'X'])
    (hcs : Numeral 16 cs n) (hsuffix : ∀ c ∈ suffix, c ∈ ['u', 'U', 'l', 'L']) :
    ∀ c ∈ '0' :: x :: (cs ++ suffix), c.isAlphanum = true := by
  have hdigits := hcs.isAlphanum (by omega) hsuffix
  refine List.forall_mem_cons.mpr ⟨rfl, List.forall_mem_cons.mpr ⟨?_, hdigits⟩⟩
  rcases List.mem_pair.mp hx with rfl | rfl <;> rfl

theorem Numeral.not_isSuffix (h : Numeral base cs n) (hbase : base ≤ 16) :
    ∀ c ∈ cs, isSuffix c = false := by
  intro c hc
  obtain ⟨d, hd, hwrites⟩ := h.forall_mem.2 c hc
  exact (hwrites.classes (by omega)).2.1

theorem not_isSuffix_hexadecimal {x : Char} (hx : x ∈ ['x', 'X']) (hcs : Numeral 16 cs n) :
    ∀ c ∈ '0' :: x :: cs, isSuffix c = false := by
  refine List.forall_mem_cons.mpr ⟨rfl, List.forall_mem_cons.mpr ⟨?_, hcs.not_isSuffix (by omega)⟩⟩
  rcases List.mem_pair.mp hx with rfl | rfl <;> rfl

/-- The suffix is all that is trimmed off a literal. -/
theorem dropEndWhile_isSuffix {suffix : List Char} (hcs : ∀ c ∈ cs, isSuffix c = false)
    (hsuffix : ∀ c ∈ suffix, isSuffix c = true) :
    Text.dropEndWhile isSuffix (cs ++ suffix) = cs := by
  have hrest : cs.reverse.dropWhile isSuffix = cs.reverse := by
    refine List.dropWhile_eq_self_iff.mpr fun hlt => ?_
    rw [hcs _ (List.mem_reverse.mp (List.getElem_mem hlt))]
    exact Bool.false_ne_true
  rw [Text.dropEndWhile, List.reverse_append, List.dropWhile_append_of_pos (by simpa using hsuffix),
    hrest, List.reverse_reverse]

/-- A text that does not go on with a letter or a digit. -/
def EndsWord (rest : List Char) : Prop := ∀ c, rest.head? = some c → c.isAlphanum = false

theorem readLiteral_append {word : List Char} (hword : ∀ c ∈ word, c.isAlphanum = true)
    (hrest : EndsWord rest) :
    readLiteral (word ++ rest) = (literalValue? word).map fun n => (.literal n, rest) := by
  have htake : rest.takeWhile Char.isAlphanum = [] := by
    cases rest with
    | nil => rfl
    | cons c cs => simp [hrest c rfl]
  have hdrop : rest.dropWhile Char.isAlphanum = rest := by
    cases rest with
    | nil => rfl
    | cons c cs => simp [hrest c rfl]
  rw [readLiteral, List.takeWhile_append_of_pos hword, List.dropWhile_append_of_pos hword, htake,
    hdrop, List.append_nil]
  cases literalValue? word <;> rfl

/-- The literals of the rules are read. -/
theorem literalValue?_decimal {suffix : List Char} (hcs : Numeral 10 cs n)
    (hsuffix : ∀ c ∈ suffix, c ∈ ['u', 'U', 'l', 'L']) :
    literalValue? (cs ++ suffix) = some n := by
  have hdigits : ∀ c ∈ cs, c.isDigit = true := by
    intro c hc
    obtain ⟨d, hd, hwrites⟩ := hcs.forall_mem.2 c hc
    exact (hwrites.classes (by omega)).2.2 hd
  rw [literalValue?, dropEndWhile_isSuffix (hcs.not_isSuffix (by omega))
    fun c hc => isSuffix_iff.mpr (hsuffix c hc)]
  split
  · exact absurd (hdigits 'x' (by simp)) (by decide)
  · exact absurd (hdigits 'X' (by simp)) (by decide)
  · exact (numeral?_eq_some_iff (by omega)).mpr hcs

theorem literalValue?_hexadecimal {x : Char} {suffix : List Char} (hx : x ∈ ['x', 'X'])
    (hcs : Numeral 16 cs n) (hsuffix : ∀ c ∈ suffix, c ∈ ['u', 'U', 'l', 'L']) :
    literalValue? ('0' :: x :: (cs ++ suffix)) = some n := by
  have hdrop := dropEndWhile_isSuffix (not_isSuffix_hexadecimal hx hcs)
    fun c hc => isSuffix_iff.mpr (hsuffix c hc)
  rw [literalValue?, ← List.cons_append, ← List.cons_append, hdrop]
  rcases List.mem_pair.mp hx with rfl | rfl <;> exact (numeral?_eq_some_iff (by omega)).mpr hcs

/-- What is read as a literal is one. -/
theorem derives_of_literalValue? (h : literalValue? cs = some n) :
    Derives .unary cs (.literal n) := by
  obtain ⟨suffix, hcs, hsuffix⟩ : ∃ suffix, cs = Text.dropEndWhile isSuffix cs ++ suffix
      ∧ ∀ c ∈ suffix, c ∈ ['u', 'U', 'l', 'L'] := by
    refine ⟨(cs.reverse.takeWhile isSuffix).reverse, ?_, fun c hc => ?_⟩
    · rw [Text.dropEndWhile, ← List.reverse_append, List.takeWhile_append_dropWhile,
        List.reverse_reverse]
    · exact isSuffix_iff.mp (List.mem_takeWhile_imp (List.mem_reverse.mp hc))
  rw [hcs]
  unfold literalValue? at h
  split at h
  · next hex heq =>
    rw [heq]
    exact .hexadecimal (by simp) ((numeral?_eq_some_iff (by omega)).mp h) hsuffix
  · next hex heq =>
    rw [heq]
    exact .hexadecimal (by simp) ((numeral?_eq_some_iff (by omega)).mp h) hsuffix
  · exact .decimal ((numeral?_eq_some_iff (by omega)).mp h) hsuffix

/-! ## What is read is derived -/

/-- The reader takes an expression of the level off the front of a text. -/
def Sound (level : Level) (read : Reader ConstExpr) : Prop :=
  ∀ cs rest e, read cs = some (e, rest) → ∃ front, cs = front ++ rest ∧ Derives level front e

/-- The operators join an expression of the level and one of a tighter level. -/
def Joins (level tighter : Level) (operator : Reader Operator) : Prop :=
  ∀ cs rest op, operator cs = some (op, rest) →
    ∃ sign, cs = sign ++ rest ∧ sign ≠ [] ∧ ∀ front back l r, Derives level front l →
      Derives tighter back r → Derives level (front ++ (sign ++ back)) (op l r)

theorem joins_sumOperator : Joins .sum .unary sumOperator := by
  intro cs rest op h
  unfold sumOperator at h
  split at h
  · cases h
    exact ⟨['+'], rfl, by simp, fun _ _ _ _ hl hr => .add hl hr⟩
  · cases h
    exact ⟨['-'], rfl, by simp, fun _ _ _ _ hl hr => .sub hl hr⟩
  · cases h

theorem joins_shiftOperator : Joins .shift .sum shiftOperator := by
  intro cs rest op h
  unfold shiftOperator at h
  split at h
  · cases h
    exact ⟨['<', '<'], rfl, by simp, fun _ _ _ _ hl hr => .shl hl hr⟩
  · cases h
    exact ⟨['>', '>'], rfl, by simp, fun _ _ _ _ hl hr => .shr hl hr⟩
  · cases h

theorem joins_orOperator : Joins .or .shift orOperator := by
  intro cs rest op h
  unfold orOperator at h
  split at h
  · cases h
  · cases h
    exact ⟨['|'], rfl, by simp, fun _ _ _ _ hl hr => .or hl hr⟩
  · cases h

/-- A chain of sound operands is sound. -/
theorem Sound.readChain {tighter : Level} {operator : Reader Operator}
    {operand : Reader ConstExpr} (hoperator : Joins level tighter operator)
    (hoperand : Sound tighter operand)
    (hone : ∀ {cs : List Char} {e : ConstExpr}, Derives tighter cs e → Derives level cs e) :
    Sound level (readChain operator operand) := by
  have htail : ∀ (fuel : Nat) {front cs rest : List Char} {l e : ConstExpr}, Derives level front l →
      readTail operator operand fuel l cs = some (e, rest) →
      ∃ back, cs = back ++ rest ∧ Derives level (front ++ back) e := by
    intro fuel
    induction fuel with
    | zero =>
      intro front cs rest l e hl h
      cases h
      exact ⟨[], rfl, by rwa [List.append_nil]⟩
    | succ fuel ih =>
      intro front cs rest l e hl h
      rw [readTail] at h
      split at h
      · cases h
        exact ⟨[], rfl, by rwa [List.append_nil]⟩
      · next op after hop =>
        obtain ⟨⟨r, rest'⟩, hr, hmore⟩ := Option.bind_eq_some_iff.mp h
        obtain ⟨sign, rfl, -, hjoin⟩ := hoperator _ _ _ hop
        obtain ⟨middle, rfl, hmiddle⟩ := hoperand _ _ _ hr
        obtain ⟨back, rfl, hback⟩ := ih (hjoin _ _ _ _ hl hmiddle) hmore
        exact ⟨sign ++ (middle ++ back), by simp, by simpa using hback⟩
  intro cs rest e h
  obtain ⟨⟨l, after⟩, hl, hmore⟩ := Option.bind_eq_some_iff.mp h
  obtain ⟨front, rfl, hfront⟩ := hoperand _ _ _ hl
  obtain ⟨back, rfl, hback⟩ := htail after.length (hone hfront) hmore
  exact ⟨front ++ back, (List.append_assoc ..).symm, hback⟩

theorem Sound.readBinary {unary : Reader ConstExpr} (h : Sound .unary unary) :
    Sound .or (readBinary unary) :=
  .readChain joins_orOperator (.readChain joins_shiftOperator
    (.readChain joins_sumOperator h .unary) .sum) .shift

theorem sound_readLiteral : Sound .unary readLiteral := by
  intro cs rest e h
  obtain ⟨n, hn, hgive⟩ := Option.bind_eq_some_iff.mp h
  cases hgive
  exact ⟨cs.takeWhile Char.isAlphanum, List.takeWhile_append_dropWhile.symm,
    derives_of_literalValue? hn⟩

theorem sound_readUnary (fuel : Nat) : Sound .unary (readUnary fuel) := by
  induction fuel with
  | zero =>
    intro cs rest e h
    cases h
  | succ fuel ih =>
    intro cs rest e h
    unfold readUnary at h
    split at h
    · next heq => cases heq
    · next k cs heq =>
      cases heq
      obtain ⟨⟨f, after⟩, hf, hgive⟩ := Option.bind_eq_some_iff.mp h
      cases hgive
      obtain ⟨front, rfl, hfront⟩ := ih _ _ _ hf
      exact ⟨'-' :: front, rfl, .neg hfront⟩
    · next k cs heq =>
      cases heq
      obtain ⟨⟨f, after⟩, hf, hgive⟩ := Option.bind_eq_some_iff.mp h
      obtain ⟨front, rfl, hfront⟩ := Sound.readBinary ih _ _ _ hf
      dsimp only at hgive
      split at hgive
      · cases hgive
        exact ⟨'(' :: (front ++ [')']), by simp, .group hfront⟩
      · cases hgive
    · exact sound_readLiteral _ _ _ h

/-! ## What is derived is read -/

section Chain

variable {tighter : Level} {operator : Reader Operator} {operand : Reader ConstExpr} {fuel' : Nat}
  {P : List Char → Prop} {op : Operator} {sign : List Char}

/-- More rounds than there are characters make no difference. -/
theorem readTail_fuel (hoperator : Joins level tighter operator) (hoperand : Sound tighter operand)
    (hfuel : cs.length ≤ fuel) (hfuel' : cs.length ≤ fuel') :
    readTail operator operand fuel l cs = readTail operator operand fuel' l cs := by
  induction fuel generalizing fuel' l cs with
  | zero =>
    obtain rfl := List.length_eq_zero_iff.mp (Nat.le_zero.mp hfuel)
    cases fuel' with
    | zero => rfl
    | succ fuel' =>
      rw [readTail, readTail]
      split
      · rfl
      · next hop =>
        obtain ⟨sign, hnil, hne, -⟩ := hoperator _ _ _ hop
        exact absurd (List.append_eq_nil_iff.mp hnil.symm).1 hne
  | succ fuel ih =>
    rw [readTail]
    cases hop : operator cs with
    | none => cases fuel' <;> simp [readTail, hop]
    | some p =>
      obtain ⟨op, after⟩ := p
      obtain ⟨sign, rfl, hne, -⟩ := hoperator _ _ _ hop
      have hsign : 0 < sign.length := List.length_pos_iff.mpr hne
      rw [List.length_append] at hfuel hfuel'
      obtain ⟨fuel', rfl⟩ : ∃ k, fuel' = k + 1 := ⟨fuel' - 1, by omega⟩
      rw [readTail, hop]
      dsimp only
      cases hr : operand after with
      | none => rfl
      | some q =>
        obtain ⟨r, rest⟩ := q
        obtain ⟨front, rfl, -⟩ := hoperand _ _ _ hr
        rw [List.length_append] at hfuel hfuel'
        have hrest : rest.length ≤ fuel := by omega
        have hrest' : rest.length ≤ fuel' := by omega
        exact ih hrest hrest'

/-- After the text, a chain goes on with the expression on its left, if the rest is as it should
be. -/
def Chains (operator : Reader Operator) (operand : Reader ConstExpr) (P : List Char → Prop)
    (cs : List Char) (e : ConstExpr) : Prop :=
  ∀ rest, P rest → readChain operator operand (cs ++ rest)
    = readTail operator operand rest.length e rest

namespace Chains

theorem first (h : ∀ rest, P rest → operand (cs ++ rest) = some (e, rest)) :
    Chains operator operand P cs e := by
  intro rest hrest
  rw [readChain, h rest hrest]
  rfl

theorem more (hoperator : Joins level tighter operator) (hoperand : Sound tighter operand)
    (hl : Chains operator operand P cs l) (hsign : sign ≠ [])
    (hop : ∀ rest, operator (sign ++ (cs' ++ rest)) = some (op, cs' ++ rest))
    (hP : ∀ rest, P (sign ++ rest))
    (hr : ∀ rest, P rest → operand (cs' ++ rest) = some (r, rest)) :
    Chains operator operand P (cs ++ (sign ++ cs')) (op l r) := by
  intro rest hrest
  have hlength : 0 < sign.length := List.length_pos_iff.mpr hsign
  obtain ⟨k, hk⟩ : ∃ k, (sign ++ (cs' ++ rest)).length = k + 1 :=
    ⟨(sign ++ (cs' ++ rest)).length - 1, by simp; omega⟩
  rw [List.append_assoc, List.append_assoc, hl _ (hP _), hk, readTail, hop]
  show (operand (cs' ++ rest) >>= _) = _
  rw [hr rest hrest]
  refine readTail_fuel hoperator hoperand ?_ (Nat.le_refl _)
  simp only [List.length_append] at hk
  omega

theorem whole (h : Chains operator operand P cs e) (hrest : P rest) (hend : operator rest = none) :
    readChain operator operand (cs ++ rest) = some (e, rest) := by
  rw [h rest hrest]
  cases rest with
  | nil => rfl
  | cons c cs => rw [List.length_cons, readTail, hend]

end Chains

end Chain

/-- What may come after an operand of a chain of the level, which does not go on with it. -/
def Follows : Level → List Char → Prop
  | .unary, rest | .sum, rest => EndsWord rest
  | .shift, rest => EndsWord rest ∧ sumOperator rest = none
  | .or, rest => (EndsWord rest ∧ sumOperator rest = none) ∧ shiftOperator rest = none

theorem endsWord_cons (hc : c.isAlphanum = false) : EndsWord (c :: rest) := by
  intro b hb
  cases hb
  exact hc

/-- The text is read as the expression, with at most `fuel` signs and parentheses around a
literal. -/
def IsRead (fuel : Nat) : Level → List Char → ConstExpr → Prop
  | .unary, cs, e => ∀ rest, Follows .unary rest → readUnary fuel (cs ++ rest) = some (e, rest)
  | .sum, cs, e => Chains sumOperator (readUnary fuel) (Follows .sum) cs e
  | .shift, cs, e =>
    Chains shiftOperator (readChain sumOperator (readUnary fuel)) (Follows .shift) cs e
  | .or, cs, e =>
    Chains orOperator (readChain shiftOperator (readChain sumOperator (readUnary fuel)))
      (Follows .or) cs e

namespace IsRead

variable {sign : Char} {op : Operator}

/-- A sign and one more operand. -/
theorem sum (hl : IsRead fuel .sum cs l) (hr : IsRead fuel .unary cs' r)
    (hop : ∀ rest, sumOperator (sign :: rest) = some (op, rest)) (hsign : sign.isAlphanum = false) :
    IsRead fuel .sum (cs ++ sign :: cs') (op l r) :=
  Chains.more joins_sumOperator (sound_readUnary fuel) hl (List.cons_ne_nil sign [])
    (fun rest => hop (cs' ++ rest)) (fun _ => endsWord_cons hsign) hr

/-- A double sign and one more operand. -/
theorem shift (hl : IsRead fuel .shift cs l) (hr : IsRead fuel .sum cs' r)
    (hop : ∀ rest, shiftOperator (sign :: sign :: rest) = some (op, rest))
    (hfollows : ∀ rest, Follows .shift (sign :: sign :: rest)) :
    IsRead fuel .shift (cs ++ sign :: sign :: cs') (op l r) :=
  Chains.more joins_shiftOperator (.readChain joins_sumOperator (sound_readUnary fuel) .unary) hl
    (List.cons_ne_nil sign [sign]) (fun rest => hop (cs' ++ rest)) hfollows
    fun _ hrest => hr.whole hrest.1 hrest.2

end IsRead

/-- An expression starts with a digit, a sign or a parenthesis. -/
theorem Derives.exists_head (h : Derives level cs e) :
    ∃ c t, cs = c :: t ∧ (c.isAlphanum = true ∨ c = '-' ∨ c = '(') := by
  induction h with
  | @decimal cs suffix n hcs hsuffix =>
    obtain ⟨hne, hdigits⟩ := hcs.forall_mem
    obtain ⟨c, t, rfl⟩ := List.exists_cons_of_ne_nil hne
    obtain ⟨d, hd, hc⟩ := hdigits c List.mem_cons_self
    exact ⟨c, t ++ suffix, rfl, .inl (hc.classes (by omega)).1⟩
  | hexadecimal => exact ⟨_, _, rfl, .inl rfl⟩
  | neg => exact ⟨_, _, rfl, .inr (.inl rfl)⟩
  | group => exact ⟨_, _, rfl, .inr (.inr rfl)⟩
  | unary _ ih | sum _ ih | shift _ ih => exact ih
  | add _ _ ih | sub _ _ ih | shl _ _ ih | shr _ _ ih | or _ _ ih =>
    obtain ⟨c, t, rfl, hc⟩ := ih
    exact ⟨c, _, rfl, hc⟩

/-- A word with the value of a literal is read as this literal. -/
theorem readUnary_literal (h : literalValue? cs = some n) (hcs : ∀ c ∈ cs, c.isAlphanum = true)
    (hfuel : cs.length ≤ fuel) (hrest : EndsWord rest) :
    readUnary fuel (cs ++ rest) = some (.literal n, rest) := by
  have hne : cs ≠ [] := by
    rintro rfl
    cases h
  obtain ⟨c, t, rfl⟩ := List.exists_cons_of_ne_nil hne
  obtain ⟨k, rfl⟩ : ∃ k, fuel = k + 1 := ⟨fuel - 1, by rw [List.length_cons] at hfuel; omega⟩
  have hc : c.isAlphanum = true := hcs c List.mem_cons_self
  have hread : readUnary (k + 1) (c :: t ++ rest) = readLiteral (c :: t ++ rest) := by
    rw [List.cons_append, readUnary]
    · rintro cs heq
      cases heq
      cases hc
    · rintro cs heq
      cases heq
      cases hc
  rw [hread, readLiteral_append hcs hrest, h]
  rfl

/-- What the rules derive is read, if the fuel is as much as the text is long. -/
theorem Derives.isRead (h : Derives level cs e) (hfuel : cs.length ≤ fuel) :
    IsRead fuel level cs e := by
  induction h generalizing fuel with
  | decimal hcs hsuffix =>
    exact fun rest hrest => readUnary_literal (literalValue?_decimal hcs hsuffix)
      (hcs.isAlphanum (by omega) hsuffix) hfuel hrest
  | hexadecimal hx hcs hsuffix =>
    exact fun rest hrest => readUnary_literal (literalValue?_hexadecimal hx hcs hsuffix)
      (isAlphanum_hexadecimal hx hcs hsuffix) hfuel hrest
  | neg _ ih =>
    obtain ⟨k, rfl⟩ : ∃ k, fuel = k + 1 := ⟨fuel - 1, by rw [List.length_cons] at hfuel; omega⟩
    rw [List.length_cons, Nat.add_le_add_iff_right] at hfuel
    intro rest hrest
    rw [List.cons_append, readUnary, ih hfuel rest hrest]
    rfl
  | group _ ih =>
    obtain ⟨k, rfl⟩ : ∃ k, fuel = k + 1 := ⟨fuel - 1, by rw [List.length_cons] at hfuel; omega⟩
    rw [List.length_cons, List.length_append, Nat.add_le_add_iff_right] at hfuel
    intro rest hrest
    have hinner := (ih (Nat.le_of_succ_le hfuel)).whole
      (⟨⟨endsWord_cons rfl, rfl⟩, rfl⟩ : Follows .or (')' :: rest)) rfl
    rw [List.cons_append, List.append_assoc, List.singleton_append, readUnary, readBinary, hinner]
    rfl
  | unary _ ih => exact .first (ih hfuel)
  | add _ _ ihl ihr | sub _ _ ihl ihr =>
    rw [List.length_append, List.length_cons] at hfuel
    exact .sum (ihl (by omega)) (ihr (by omega)) (fun _ => rfl) rfl
  | sum _ ih => exact .first fun rest hrest => (ih hfuel).whole hrest.1 hrest.2
  | shl _ _ ihl ihr | shr _ _ ihl ihr =>
    rw [List.length_append, List.length_cons, List.length_cons] at hfuel
    exact .shift (ihl (by omega)) (ihr (by omega)) (fun _ => rfl) fun _ => ⟨endsWord_cons rfl, rfl⟩
  | shift _ ih => exact .first fun rest hrest => (ih hfuel).whole hrest.1 hrest.2
  | or _ hr ihl ihr =>
    rw [List.length_append, List.length_cons] at hfuel
    obtain ⟨c, t, rfl, hc⟩ := hr.exists_head
    -- The operand does not start with a bar, so the one before it stands alone.
    have hsingle : ∀ rest, orOperator (['|'] ++ (c :: t ++ rest)) = some (.or, c :: t ++ rest) := by
      intro rest
      rw [List.singleton_append, List.cons_append, orOperator]
      rintro cs heq
      cases heq
      rcases hc with hc | hc | hc <;> cases hc
    exact .more joins_orOperator (.readChain joins_shiftOperator (.readChain joins_sumOperator
        (sound_readUnary fuel) .unary) .sum) (ihl (by omega)) (by simp : ['|'] ≠ []) hsingle
      (fun rest => ⟨⟨endsWord_cons rfl, rfl⟩, rfl⟩)
      fun rest hrest => (ihr (by omega)).whole hrest.1 hrest.2

/-- **The reader accepts exactly the grammar**, and reads what the rules derive. -/
theorem ofCompact?_eq_some_iff : ofCompact? cs = some e ↔ Derives .or cs e := by
  constructor
  · intro h
    obtain ⟨⟨f, rest⟩, hf, hgive⟩ := Option.bind_eq_some_iff.mp h
    dsimp only at hgive
    split at hgive
    · next hrest =>
      cases hgive
      obtain ⟨front, rfl, hfront⟩ := Sound.readBinary (sound_readUnary _) _ _ _ hf
      rwa [List.isEmpty_iff.mp hrest, List.append_nil]
    · cases hgive
  · intro h
    have hread := (h.isRead (Nat.le_succ cs.length)).whole
      (⟨⟨nofun, rfl⟩, rfl⟩ : Follows .or []) rfl
    rw [List.append_nil] at hread
    rw [ofCompact?, readBinary, hread]
    rfl

end ConstExpr

end HeaderAtlas
