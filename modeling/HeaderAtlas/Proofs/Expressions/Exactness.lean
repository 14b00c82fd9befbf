import HeaderAtlas.Proofs.Expressions.Arithmetic
import Mathlib.Data.Int.Bitwise

/-!
# Exact values

What a constant expression is, and which value it has, is told here by the rules of C and over
unbounded integers: constants may be octal, a shift to the left multiplies, and one to the right is
a division that rounds down (`Denotes`, `unbounded?`).

An expression is told by its text without blanks, which may be taken apart in any way that fits. So
`1 2` is the constant `12` here, `1 < < 2` a shift and `--1` the negation of a negation, though none
of these is an expression of C: there, blanks set tokens apart, and a token is as long as it can be.

The value that is evaluated is not always the one that the expression has. An octal constant is read
as a decimal one, and what a left shift pushes out is lost without notice, though sums, differences
and negations that do not fit have no value. A constant may also end in letters that are no suffix
of C, and then there is no value that it should have. Where each constant is read as C reads it
(`Plain`) and no left shift loses anything (`Lossless`), the value is exact, and so are all values on
the way to it (`exact_of_evaluate`).
-/

namespace HeaderAtlas

namespace ConstExpr

/-! ## What C says -/

/-- The suffixes of an integer constant. -/
def integerSuffixes : List (List Char) :=
  let unsigned := [['u'], ['U']]
  let long := [['l'], ['L'], ['l', 'l'], ['L', 'L']]
  [[]] ++ unsigned ++ long ++ unsigned.flatMap (fun u => long.map (u ++ ·)) ++
    long.flatMap fun l => unsigned.map (l ++ ·)

/-- The text is an integer constant of the value. One that starts with a zero and is not
hexadecimal is octal. -/
inductive Constant : List Char → Nat → Prop where
  | decimal {cs suffix : List Char} {n : Nat} : Numeral 10 cs n → cs.head? ≠ some '0' →
      suffix ∈ integerSuffixes → Constant (cs ++ suffix) n
  | octal {cs suffix : List Char} {n : Nat} : Numeral 8 cs n → cs.head? = some '0' →
      suffix ∈ integerSuffixes → Constant (cs ++ suffix) n
  | hexadecimal {x : Char} {cs suffix : List Char} {n : Nat} : x ∈ ['x', 'X'] → Numeral 16 cs n →
      suffix ∈ integerSuffixes → Constant ('0' :: x :: (cs ++ suffix)) n

/-- The text, which has no blanks, is by the rules of C a constant expression of the level. How it
is split into tokens is left open. -/
inductive Denotes : Level → List Char → ConstExpr → Prop where
  | constant {cs : List Char} {n : Nat} : Constant cs n → Denotes .unary cs (.literal n)
  | neg {cs : List Char} {e : ConstExpr} : Denotes .unary cs e → Denotes .unary ('-' :: cs) (.neg e)
  | group {cs : List Char} {e : ConstExpr} :
      Denotes .or cs e → Denotes .unary ('(' :: (cs ++ [')'])) e
  | unary {cs : List Char} {e : ConstExpr} : Denotes .unary cs e → Denotes .sum cs e
  | add {cs cs' : List Char} {l r : ConstExpr} :
      Denotes .sum cs l → Denotes .unary cs' r → Denotes .sum (cs ++ '+' :: cs') (.add l r)
  | sub {cs cs' : List Char} {l r : ConstExpr} :
      Denotes .sum cs l → Denotes .unary cs' r → Denotes .sum (cs ++ '-' :: cs') (.sub l r)
  | sum {cs : List Char} {e : ConstExpr} : Denotes .sum cs e → Denotes .shift cs e
  | shl {cs cs' : List Char} {l r : ConstExpr} :
      Denotes .shift cs l → Denotes .sum cs' r → Denotes .shift (cs ++ '<' :: '<' :: cs') (.shl l r)
  | shr {cs cs' : List Char} {l r : ConstExpr} :
      Denotes .shift cs l → Denotes .sum cs' r → Denotes .shift (cs ++ '>' :: '>' :: cs') (.shr l r)
  | shift {cs : List Char} {e : ConstExpr} : Denotes .shift cs e → Denotes .or cs e
  | or {cs cs' : List Char} {l r : ConstExpr} :
      Denotes .or cs l → Denotes .shift cs' r → Denotes .or (cs ++ '|' :: cs') (.or l r)

/-- The value over unbounded integers. Only a shift by less than no places has none. -/
def unbounded? : ConstExpr → Option Int
  | literal n => some n
  | neg e => do return -(← unbounded? e)
  | add l r => do return (← unbounded? l) + (← unbounded? r)
  | sub l r => do return (← unbounded? l) - (← unbounded? r)
  | shl l r => do
    let n ← unbounded? l
    let places ← unbounded? r
    if 0 ≤ places then some (n * 2 ^ places.toNat) else none
  | shr l r => do
    let n ← unbounded? l
    let places ← unbounded? r
    if 0 ≤ places then some (n.fdiv (2 ^ places.toNat)) else none
  | or l r => do return (← unbounded? l).lor (← unbounded? r)

/-- Does the test hold of the expression and of all those that it is made of? -/
def everywhere (test : ConstExpr → Bool) : ConstExpr → Bool
  | literal n => test (literal n)
  | neg e => test (neg e) && everywhere test e
  | add l r => test (add l r) && (everywhere test l && everywhere test r)
  | sub l r => test (sub l r) && (everywhere test l && everywhere test r)
  | shl l r => test (shl l r) && (everywhere test l && everywhere test r)
  | shr l r => test (shr l r) && (everywhere test l && everywhere test r)
  | or l r => test (or l r) && (everywhere test l && everywhere test r)

/-- Is the value over unbounded integers one of 64 bits? -/
def fits (e : ConstExpr) : Bool := (e.unbounded? >>= fit?).isSome

/-- The value over unbounded integers fits into 64 bits, and so do all values on the way to it. -/
def AllFit (e : ConstExpr) : Prop := e.everywhere fits = true

/-- Does the expression not lose anything by a left shift of its own? The product has to fit. -/
def shiftFits : ConstExpr → Bool
  | shl l r =>
    match eval? l, eval? r with
    | some n, some places => (fit? (n * 2 ^ places.toNat)).isSome
    | _, _ => true
  | _ => true

/-- No left shift in the expression pushes anything out. -/
def Lossless (e : ConstExpr) : Prop := e.everywhere shiftFits = true

instance (e : ConstExpr) : Decidable e.AllFit := inferInstanceAs (Decidable (_ = true))

instance (e : ConstExpr) : Decidable e.Lossless := inferInstanceAs (Decidable (_ = true))

/-- The words of a text without blanks that are neither signs nor parentheses. -/
def constants (cs : List Char) : List (List Char) :=
  (Text.pieces (!Char.isAlphanum ·) cs).filter (!·.isEmpty)

/-- Is the word a constant that is read as C reads it? It has a suffix that C knows, and after a
leading zero it is hexadecimal or less than eight. -/
def isPlain (word : List Char) : Bool :=
  integerSuffixes.contains (word.filter isSuffix) &&
    (word.head? != some '0' || word[1]? == some 'x' || word[1]? == some 'X' ||
      (literalValue? word).all (· < 8))

/-- All constants in the text are plain. -/
def Plain (cs : List Char) : Prop := ∀ word ∈ constants cs, isPlain word = true

instance (cs : List Char) : Decidable (Plain cs) :=
  inferInstanceAs (Decidable (∀ word ∈ constants cs, _))

variable {cs cs' suffix word : List Char} {e l r : ConstExpr} {n m : Nat} {v a b : Int}
  {level : Level}

/-! ## Constants -/

theorem forall_isSuffix_of_mem (h : suffix ∈ integerSuffixes) :
    ∀ c ∈ suffix, c ∈ ['u', 'U', 'l', 'L'] := by
  have hall : (integerSuffixes.all fun s => s.all fun c => ['u', 'U', 'l', 'L'].contains c) = true := by
    decide
  have hsuffix := List.all_eq_true.mp (List.all_eq_true.mp hall suffix h)
  exact fun c hc => List.contains_iff_mem.mp (hsuffix c hc)

/-- Digits are no part of the suffix. -/
theorem filter_isSuffix (hcs : ∀ c ∈ cs, isSuffix c = false)
    (hsuffix : ∀ c ∈ suffix, c ∈ ['u', 'U', 'l', 'L']) : (cs ++ suffix).filter isSuffix = suffix := by
  rw [List.filter_append, List.filter_eq_nil_iff.mpr (by simpa using hcs), List.nil_append,
    List.filter_eq_self]
  exact fun c hc => isSuffix_iff.mpr (hsuffix c hc)

/-- A number less than eight has the same digits in base eight and in base ten. -/
theorem numeral_eight_iff (hn : n < 8) : Numeral 8 cs n ↔ Numeral 10 cs n := by
  constructor
  · intro h
    induction h with
    | digit hd hc => exact .digit (by omega) hc
    | @more cs m c d hcs hd hc ih =>
      obtain rfl : m = 0 := by omega
      simpa using Numeral.more (ih (by omega)) (by omega : d < 10) hc
  · intro h
    induction h with
    | digit hd hc => exact .digit hn hc
    | @more cs m c d hcs hd hc ih =>
      obtain rfl : m = 0 := by omega
      simpa using Numeral.more (ih (by omega)) (by omega : d < 8) hc

/-- Octal digits are decimal ones, which do not make less. -/
theorem Numeral.exists_decimal (h : Numeral 8 cs n) : ∃ m, Numeral 10 cs m ∧ n ≤ m := by
  induction h with
  | digit hd hc => exact ⟨_, .digit (by omega) hc, Nat.le_refl _⟩
  | more _ hd hc ih =>
    obtain ⟨m, hm, hle⟩ := ih
    exact ⟨_, .more hm (by omega) hc, by omega⟩

/-- A constant is made up of letters and digits. -/
theorem Constant.isAlphanum (h : Constant word n) :
    word ≠ [] ∧ ∀ c ∈ word, c.isAlphanum = true := by
  cases h with
  | decimal hcs _ hsuffix =>
    exact ⟨by simp [hcs.forall_mem.1],
      hcs.isAlphanum (by omega) (forall_isSuffix_of_mem hsuffix)⟩
  | octal hcs _ hsuffix =>
    exact ⟨by simp [hcs.forall_mem.1],
      hcs.isAlphanum (by omega) (forall_isSuffix_of_mem hsuffix)⟩
  | hexadecimal hx hcs hsuffix =>
    exact ⟨by simp, isAlphanum_hexadecimal hx hcs (forall_isSuffix_of_mem hsuffix)⟩

/-- A plain literal without an x is less than eight, if it starts with a zero. -/
theorem isPlain_decimal (hcs : Numeral 10 cs n) (hsuffix : ∀ c ∈ suffix, c ∈ ['u', 'U', 'l', 'L']) :
    isPlain (cs ++ suffix) = true
      ↔ suffix ∈ integerSuffixes ∧ (cs.head? = some '0' → n < 8) := by
  have hx' : ∀ x, x = 'x' ∨ x = 'X' → (cs ++ suffix)[1]? ≠ some x := by
    intro x hx hget
    rcases List.mem_append.mp (List.mem_of_getElem? hget) with hmem | hmem
    · obtain ⟨d, hd, hwrites⟩ := hcs.forall_mem.2 x hmem
      have hdigit := (hwrites.classes (by omega)).2.2 hd
      rcases hx with rfl | rfl <;> cases hdigit
    · rcases hx with rfl | rfl <;> simpa using hsuffix _ hmem
  have hhead : (cs ++ suffix).head? = cs.head? := by
    rw [List.head?_append, List.head?_eq_some_head hcs.forall_mem.1, Option.some_or]
  have hnox := fun x hx => beq_eq_false_iff_ne.mpr (hx' x hx)
  rw [isPlain, filter_isSuffix (hcs.not_isSuffix (by omega)) hsuffix,
    literalValue?_decimal hcs hsuffix, hhead, hnox 'x' (.inl rfl), hnox 'X' (.inr rfl)]
  simp [imp_iff_not_or]

theorem isPlain_hexadecimal {x : Char} (hx : x ∈ ['x', 'X']) (hcs : Numeral 16 cs n)
    (hsuffix : ∀ c ∈ suffix, c ∈ ['u', 'U', 'l', 'L']) :
    isPlain ('0' :: x :: (cs ++ suffix)) = true ↔ suffix ∈ integerSuffixes := by
  have hfilter : ('0' :: x :: (cs ++ suffix)).filter isSuffix = suffix := by
    rw [← List.cons_append, ← List.cons_append]
    exact filter_isSuffix (not_isSuffix_hexadecimal hx hcs) hsuffix
  rw [isPlain, hfilter]
  rcases List.mem_pair.mp hx with rfl | rfl <;> simp

/-- A plain literal is a constant with the value that is read. -/
theorem constant_of_decimal (hcs : Numeral 10 cs n) (hsuffix : ∀ c ∈ suffix, c ∈ ['u', 'U', 'l', 'L'])
    (hplain : isPlain (cs ++ suffix) = true) : Constant (cs ++ suffix) n := by
  obtain ⟨hknown, hsmall⟩ := (isPlain_decimal hcs hsuffix).mp hplain
  by_cases hzero : cs.head? = some '0'
  · exact .octal ((numeral_eight_iff (hsmall hzero)).mpr hcs) hzero hknown
  · exact .decimal hcs hzero hknown

/-- A plain constant is a literal, and is read with its value. -/
theorem Constant.derives (h : Constant word n) (hplain : isPlain word = true) :
    Derives .unary word (.literal n) := by
  cases h with
  | decimal hcs _ hsuffix => exact .decimal hcs (forall_isSuffix_of_mem hsuffix)
  | octal hcs hzero hsuffix =>
    have hsuffix := forall_isSuffix_of_mem hsuffix
    obtain ⟨m, hm, hle⟩ := hcs.exists_decimal
    -- The digits make less than eight in base ten, so they make the same in base eight.
    have hm8 : m < 8 := ((isPlain_decimal hm hsuffix).mp hplain).2 hzero
    exact .decimal ((numeral_eight_iff (Nat.lt_of_le_of_lt hle hm8)).mp hcs) hsuffix
  | hexadecimal hx hcs hsuffix => exact .hexadecimal hx hcs (forall_isSuffix_of_mem hsuffix)

/-! ## The text of an expression -/

theorem constants_word (hne : word ≠ []) (h : ∀ c ∈ word, c.isAlphanum = true) :
    constants word = [word] := by
  rw [constants, Text.pieces_eq_singleton fun c hc => by rw [h c hc]; rfl]
  simpa using hne

/-- A sign or a parenthesis parts the constants before it from those after it. -/
theorem constants_append (cs cs' : List Char) {c : Char} (hc : c.isAlphanum = false) :
    constants (cs ++ c :: cs') = constants cs ++ constants cs' := by
  rw [constants, Text.pieces_append cs cs' (by rw [hc]; rfl), List.filter_append]
  rfl

theorem Plain.isPlain (h : Plain word) (hne : word ≠ []) (hword : ∀ c ∈ word, c.isAlphanum = true) :
    isPlain word = true := by
  rw [Plain, constants_word hne hword] at h
  exact h word List.mem_cons_self

theorem plain_append {c : Char} (hc : c.isAlphanum = false) :
    Plain (cs ++ c :: cs') ↔ Plain cs ∧ Plain cs' := by
  rw [Plain, constants_append cs cs' hc]
  exact List.forall_mem_append

theorem plain_cons {c : Char} (hc : c.isAlphanum = false) : Plain (c :: cs) ↔ Plain cs := by
  rw [Plain, ← List.nil_append (c :: cs), constants_append [] cs hc]
  rfl

theorem plain_group : Plain ('(' :: (cs ++ [')'])) ↔ Plain cs := by
  rw [plain_cons rfl, plain_append rfl]
  exact and_iff_left nofun

/-- Where all constants are plain, what is read is what C says. -/
theorem Derives.denotes (h : Derives level cs e) (hplain : Plain cs) : Denotes level cs e := by
  induction h with
  | decimal hcs hsuffix =>
    exact .constant (constant_of_decimal hcs hsuffix
      (hplain.isPlain (by simp [hcs.forall_mem.1]) (hcs.isAlphanum (by omega) hsuffix)))
  | hexadecimal hx hcs hsuffix =>
    have hword := hplain.isPlain (List.cons_ne_nil _ _) (isAlphanum_hexadecimal hx hcs hsuffix)
    exact .constant (.hexadecimal hx hcs ((isPlain_hexadecimal hx hcs hsuffix).mp hword))
  | neg _ ih => exact .neg (ih ((plain_cons rfl).mp hplain))
  | group _ ih => exact .group (ih (plain_group.mp hplain))
  | unary _ ih => exact .unary (ih hplain)
  | add _ _ ihl ihr =>
    obtain ⟨hl, hr⟩ := (plain_append rfl).mp hplain
    exact .add (ihl hl) (ihr hr)
  | sub _ _ ihl ihr =>
    obtain ⟨hl, hr⟩ := (plain_append rfl).mp hplain
    exact .sub (ihl hl) (ihr hr)
  | sum _ ih => exact .sum (ih hplain)
  | shl _ _ ihl ihr =>
    obtain ⟨hl, hr⟩ := (plain_append rfl).mp hplain
    exact .shl (ihl hl) (ihr ((plain_cons rfl).mp hr))
  | shr _ _ ihl ihr =>
    obtain ⟨hl, hr⟩ := (plain_append rfl).mp hplain
    exact .shr (ihl hl) (ihr ((plain_cons rfl).mp hr))
  | shift _ ih => exact .shift (ih hplain)
  | or _ _ ihl ihr =>
    obtain ⟨hl, hr⟩ := (plain_append rfl).mp hplain
    exact .or (ihl hl) (ihr hr)

/-- Where all constants are plain, what C says is what is read. -/
theorem Denotes.derives (h : Denotes level cs e) (hplain : Plain cs) : Derives level cs e := by
  induction h with
  | constant hword =>
    obtain ⟨hne, halphanum⟩ := hword.isAlphanum
    exact hword.derives (hplain.isPlain hne halphanum)
  | neg _ ih => exact .neg (ih ((plain_cons rfl).mp hplain))
  | group _ ih => exact .group (ih (plain_group.mp hplain))
  | unary _ ih => exact .unary (ih hplain)
  | add _ _ ihl ihr =>
    obtain ⟨hl, hr⟩ := (plain_append rfl).mp hplain
    exact .add (ihl hl) (ihr hr)
  | sub _ _ ihl ihr =>
    obtain ⟨hl, hr⟩ := (plain_append rfl).mp hplain
    exact .sub (ihl hl) (ihr hr)
  | sum _ ih => exact .sum (ih hplain)
  | shl _ _ ihl ihr =>
    obtain ⟨hl, hr⟩ := (plain_append rfl).mp hplain
    exact .shl (ihl hl) (ihr ((plain_cons rfl).mp hr))
  | shr _ _ ihl ihr =>
    obtain ⟨hl, hr⟩ := (plain_append rfl).mp hplain
    exact .shr (ihl hl) (ihr ((plain_cons rfl).mp hr))
  | shift _ ih => exact .shift (ih hplain)
  | or _ _ ihl ihr =>
    obtain ⟨hl, hr⟩ := (plain_append rfl).mp hplain
    exact .or (ihl hl) (ihr hr)

/-! ## Operations -/

theorem getLsbD_ofInt (w : Nat) (n : Int) (i : Nat) :
    (BitVec.ofInt w n).getLsbD i = (decide (i < w) && n.testBit i) := by
  cases n with
  | ofNat m => simp [Int.testBit, BitVec.getLsbD_ofNat]
  | negSucc m =>
    rw [BitVec.ofInt_negSucc_eq_not_ofNat, BitVec.getLsbD_not, BitVec.getLsbD_ofNat, Int.testBit]
    cases decide (i < w) <;> rfl

theorem ofInt_lor (w : Nat) (a b : Int) :
    BitVec.ofInt w (a.lor b) = BitVec.ofInt w a ||| BitVec.ofInt w b := by
  refine BitVec.eq_of_getLsbD_eq fun i hi => ?_
  rw [BitVec.getLsbD_or, getLsbD_ofInt, getLsbD_ofInt, getLsbD_ofInt, Int.testBit_lor,
    Bool.and_or_distrib_left]

theorem isSome_fit?_iff : (fit? a).isSome = true ↔ -2 ^ 63 ≤ a ∧ a < 2 ^ 63 := by
  rw [fit?]
  split
  · next h => simpa using h
  · next h => simpa using h

theorem eq_of_fit? (h : fit? a = some v) : a = v := by
  rw [fit?] at h
  split at h <;> cases h
  rfl

/-- Of two numbers that fit, the one with the bits of both fits as well. -/
theorem isSome_fit?_lor (ha : (fit? a).isSome = true) (hb : (fit? b).isSome = true) :
    (fit? (a.lor b)).isSome = true := by
  have hand : ∀ m n : Nat, m.ldiff n ≤ m := by
    intro m n
    refine Nat.le_of_testBit fun i hi => ?_
    rw [Nat.testBit_ldiff, Bool.and_eq_true] at hi
    exact hi.1
  rw [isSome_fit?_iff] at ha hb ⊢
  cases a with
  | ofNat m =>
    rw [Int.ofNat_eq_natCast] at ha
    cases b with
    | ofNat n =>
      rw [Int.ofNat_eq_natCast] at hb
      have hor : m ||| n < 2 ^ 63 := Nat.or_lt_two_pow (by omega) (by omega)
      show -2 ^ 63 ≤ ((m ||| n : Nat) : Int) ∧ ((m ||| n : Nat) : Int) < 2 ^ 63
      omega
    | negSucc n =>
      have hdiff := hand n m
      show -2 ^ 63 ≤ Int.negSucc (n.ldiff m) ∧ Int.negSucc (n.ldiff m) < 2 ^ 63
      omega
  | negSucc m =>
    cases b with
    | ofNat n =>
      have hdiff := hand m n
      show -2 ^ 63 ≤ Int.negSucc (m.ldiff n) ∧ Int.negSucc (m.ldiff n) < 2 ^ 63
      omega
    | negSucc n =>
      have hdiff : m &&& n ≤ m := Nat.and_le_left
      show -2 ^ 63 ≤ Int.negSucc (m &&& n) ∧ Int.negSucc (m &&& n) < 2 ^ 63
      omega

theorem bitOr_eq_lor (ha : (fit? a).isSome = true) (hb : (fit? b).isSome = true) :
    bitOr a b = a.lor b := by
  have hfit := isSome_fit?_iff.mp (isSome_fit?_lor ha hb)
  rw [bitOr, ← ofInt_lor, BitVec.toInt_ofInt]
  exact Int.bmod_eq_of_le (by omega) (by omega)

theorem shiftLeft_eq_mul {k : Nat} (h : (fit? (a * 2 ^ k)).isSome = true) :
    shiftLeft a k = a * 2 ^ k := by
  have hfit := isSome_fit?_iff.mp h
  show (a * 2 ^ k).bmod 18446744073709551616 = a * 2 ^ k
  exact Int.bmod_eq_of_le (by omega) (by omega)

theorem shiftRight_eq_fdiv (k : Nat) : a >>> k = a.fdiv (2 ^ k) := by
  rw [Int.shiftRight_eq_div_pow, Int.fdiv_eq_ediv_of_nonneg _ (by positivity)]
  push_cast
  rfl

theorem places?_eq_some_iff {k : Nat} : places? v = some k ↔ v = k ∧ k < 64 := by
  rw [places?]
  split
  · next h => rw [Option.some.injEq]; omega
  · next h => simp; omega

theorem isSome_fit?_of_eval? (h : eval? e = some v) : (fit? v).isSome = true := by
  obtain ⟨x, -, rfl⟩ := eval?_eq_some_iff.mp h
  exact isSome_fit?_iff.mpr ⟨x.le_toInt, x.toInt_lt⟩

/-! ## Values -/

/-- The value is exact if no left shift loses anything, and that is so if all values fit. -/
def Tracks (e : ConstExpr) (v : Int) : Prop :=
  (e.AllFit ↔ e.Lossless) ∧ (e.Lossless → e.unbounded? = some v)

/-- What is exact where nothing is lost in the operands, which `rest` tells, and is no left shift
itself. -/
theorem tracks_of_exact (rest : (ConstExpr → Bool) → Bool) (hv : eval? e = some v)
    (he : ∀ test, e.everywhere test = (test e && rest test)) (hshift : e.shiftFits = true)
    (hrest : rest fits = true ↔ rest shiftFits = true)
    (hexact : rest shiftFits = true → e.unbounded? = some v) : Tracks e v := by
  have hloss : e.Lossless ↔ rest shiftFits = true := by
    rw [Lossless, he, hshift, Bool.true_and]
  have hfit : rest shiftFits = true → e.fits = true := by
    intro h
    rw [fits, hexact h]
    exact isSome_fit?_of_eval? hv
  refine ⟨?_, fun h => hexact (hloss.mp h)⟩
  rw [hloss, AllFit, he, Bool.and_eq_true, hrest]
  exact and_iff_right_of_imp hfit

theorem Tracks.binary (hl : Tracks l a) (hr : Tracks r b) (hv : eval? e = some v)
    (he : ∀ test, e.everywhere test = (test e && (l.everywhere test && r.everywhere test)))
    (hshift : e.shiftFits = true)
    (hexact : l.unbounded? = some a → r.unbounded? = some b → e.unbounded? = some v) :
    Tracks e v := by
  refine tracks_of_exact (fun test => l.everywhere test && r.everywhere test) hv he hshift ?_ ?_
  · rw [Bool.and_eq_true, Bool.and_eq_true]
    exact and_congr hl.1 hr.1
  · intro h
    rw [Bool.and_eq_true] at h
    exact hexact (hl.2 h.1) (hr.2 h.2)

/-- A left shift is exact if it fits. -/
theorem Tracks.shl {k : Nat} (hl : Tracks l a) (hr : Tracks r k) (ha : eval? l = some a)
    (hk : eval? r = some (k : Int)) : Tracks (.shl l r) (shiftLeft a k) := by
  have hshift : (ConstExpr.shl l r).shiftFits = (fit? (a * 2 ^ k)).isSome := by
    rw [shiftFits, ha, hk]
    rfl
  have hexact : l.Lossless → r.Lossless → (ConstExpr.shl l r).unbounded? = some (a * 2 ^ k) := by
    intro hl' hr'
    simp [unbounded?, hl.2 hl', hr.2 hr']
  have hloss : (ConstExpr.shl l r).Lossless
      ↔ (fit? (a * 2 ^ k)).isSome = true ∧ l.Lossless ∧ r.Lossless := by
    rw [Lossless, everywhere, Bool.and_eq_true, Bool.and_eq_true, hshift]
    rfl
  refine ⟨?_, fun h => ?_⟩
  · rw [hloss, AllFit, everywhere, Bool.and_eq_true, Bool.and_eq_true]
    refine (and_congr_right' (and_congr hl.1 hr.1)).trans (and_congr_left fun hlr => ?_)
    rw [fits, hexact hlr.1 hlr.2]
    rfl
  · obtain ⟨hfit, hl', hr'⟩ := hloss.mp h
    rw [hexact hl' hr', shiftLeft_eq_mul hfit]

/-- **Evaluation is exact where no left shift loses anything**, and then all values fit. -/
theorem tracks_of_eval? (h : eval? e = some v) : Tracks e v := by
  induction e generalizing v with
  | literal n =>
    refine tracks_of_exact (fun _ => true) h (fun _ => (Bool.and_true _).symm) rfl Iff.rfl fun _ => ?_
    rw [← eq_of_fit? h]
    rfl
  | neg e ih =>
    obtain ⟨a, ha, hneg⟩ := Option.bind_eq_some_iff.mp h
    refine tracks_of_exact (fun test => e.everywhere test) h (fun _ => rfl) rfl (ih ha).1 fun he => ?_
    rw [unbounded?, (ih ha).2 he, ← eq_of_fit? hneg]
    rfl
  | add l r ihl ihr =>
    obtain ⟨a, b, ha, hb, hr⟩ := exists_operands h
    refine (ihl ha).binary (ihr hb) h (fun _ => rfl) rfl fun hla hrb => ?_
    rw [unbounded?, hla, hrb, ← eq_of_fit? hr]
    rfl
  | sub l r ihl ihr =>
    obtain ⟨a, b, ha, hb, hr⟩ := exists_operands h
    refine (ihl ha).binary (ihr hb) h (fun _ => rfl) rfl fun hla hrb => ?_
    rw [unbounded?, hla, hrb, ← eq_of_fit? hr]
    rfl
  | shl l r ihl ihr =>
    obtain ⟨a, b, ha, hb, hr⟩ := exists_operands h
    obtain ⟨k, hk, hgive⟩ := Option.bind_eq_some_iff.mp hr
    obtain ⟨rfl, -⟩ := places?_eq_some_iff.mp hk
    cases hgive
    exact (ihl ha).shl (ihr hb) ha hb
  | shr l r ihl ihr =>
    obtain ⟨a, b, ha, hb, hr⟩ := exists_operands h
    obtain ⟨k, hk, hgive⟩ := Option.bind_eq_some_iff.mp hr
    obtain ⟨rfl, -⟩ := places?_eq_some_iff.mp hk
    cases hgive
    refine (ihl ha).binary (ihr hb) h (fun _ => rfl) rfl fun hla hrb => ?_
    simp [unbounded?, hla, hrb, shiftRight_eq_fdiv]
  | or l r ihl ihr =>
    obtain ⟨a, b, ha, hb, hr⟩ := exists_operands h
    cases hr
    refine (ihl ha).binary (ihr hb) h (fun _ => rfl) rfl fun hla hrb => ?_
    rw [unbounded?, hla, hrb, bitOr_eq_lor (isSome_fit?_of_eval? ha) (isSome_fit?_of_eval? hb)]
    rfl

/-- **A value that is evaluated is the exact one**, of the only expression that the text denotes
without its blanks, and all values on the way to it fit, exactly if no left shift in it loses
anything. All constants are to be plain. -/
theorem exact_of_evaluate {text : String} {v : Int} (h : evaluate text = some v)
    (hplain : Plain (Text.compact text.toList)) :
    ∃ e, (∀ f, Denotes .or (Text.compact text.toList) f ↔ f = e)
      ∧ (e.Lossless → e.unbounded? = some v) ∧ (e.AllFit ↔ e.Lossless) := by
  obtain ⟨e, he, hv⟩ := Option.bind_eq_some_iff.mp h
  have hread := ofCompact?_eq_some_iff.mp he
  obtain ⟨hfit, hexact⟩ := tracks_of_eval? hv
  refine ⟨e, fun f => ⟨fun hf => ?_, ?_⟩, hexact, hfit⟩
  · have hf' : ofCompact? _ = some f := ofCompact?_eq_some_iff.mpr (hf.derives hplain)
    exact Option.some.inj (hf'.symm.trans he)
  · rintro rfl
    exact hread.denotes hplain

/-- A hexadecimal constant with a suffix and an octal one that is small, under every operator. -/
theorem exact_of_mixedOperators :
    ∃ e, (∀ f, Denotes .or "0x10u<<2|-(07-9)>>1".toList f ↔ f = e)
      ∧ e.unbounded? = some 65 ∧ e.AllFit := by
  have hv : evaluate "0x10u << 2 | -(07 - 9) >> 1" = some 65 := by decide +kernel
  obtain ⟨e, hdenotes, hexact, hfit⟩ := exact_of_evaluate hv (by decide +kernel)
  have htext : Text.compact "0x10u << 2 | -(07 - 9) >> 1".toList
      = "0x10u<<2|-(07-9)>>1".toList := by decide +kernel
  rw [htext] at hdenotes
  have hread : ofCompact? "0x10u<<2|-(07-9)>>1".toList = some (.or (.shl (.literal 16) (.literal 2))
      (.shr (.neg (.sub (.literal 7) (.literal 9))) (.literal 1))) := by decide +kernel
  obtain rfl := (hdenotes _).mp ((ofCompact?_eq_some_iff.mp hread).denotes (by decide +kernel))
  have hlossless : Lossless (.or (.shl (.literal 16) (.literal 2))
      (.shr (.neg (.sub (.literal 7) (.literal 9))) (.literal 1))) := by decide +kernel
  exact ⟨_, hdenotes, hexact hlossless, hfit.mpr hlossless⟩

/-- A left shift to the sign has a negative value, though two to the power of 63 does not fit, and
an octal ten is not eight. -/
theorem evaluate_of_signShift :
    (evaluate "1<<63" = some (-9223372036854775808)
        ∧ ∀ e, Denotes .or "1<<63".toList e → e.unbounded? = some 9223372036854775808 ∧ ¬ e.AllFit)
      ∧ evaluate "010" = some 10 ∧ Denotes .or "010".toList (.literal 8) := by
  have hread : ofCompact? "1<<63".toList = some (.shl (.literal 1) (.literal 63)) := by
    decide +kernel
  have hplain : Plain "1<<63".toList := by decide +kernel
  refine ⟨⟨by decide +kernel, fun e he => ?_⟩, by decide +kernel, ?_⟩
  · obtain rfl : e = .shl (.literal 1) (.literal 63) :=
      Option.some.inj ((ofCompact?_eq_some_iff.mpr (he.derives hplain)).symm.trans hread)
    decide +kernel
  · have hdigits : Numeral 8 "010".toList 8 := (numeral?_eq_some_iff (by omega)).mp (by decide)
    have hconstant : Constant ("010".toList ++ []) 8 := .octal hdigits rfl (by decide)
    exact .shift (.sum (.unary (.constant hconstant)))

end ConstExpr

end HeaderAtlas
