import HeaderAtlas.Text.Blank
import HeaderAtlas.Text.Numeral
import HeaderAtlas.Text.Search

/-!
# Constant expressions

Enumerators may have explicit values. The small expressions found in headers are
evaluated, so that counting can go on after them:

    or    := shift ('|' shift)*
    shift := sum (('<<' | '>>') sum)*
    sum   := unary (('+' | '-') unary)*
    unary := '-' unary | '(' or ')' | literal

A literal is decimal or hexadecimal and may end in `u`, `U`, `l` and `L`. A text
is first read into a `ConstExpr` and then evaluated in 64-bit arithmetic. Sums,
differences, negations and literals that do not fit have no value, and neither
have shifts by less than 0 or more than 63 places; what a left shift pushes out
is lost.
-/

namespace HeaderAtlas

/-- A constant expression. -/
inductive ConstExpr where
  | literal (n : Nat)
  | neg (e : ConstExpr)
  | add (l r : ConstExpr)
  | sub (l r : ConstExpr)
  | shl (l r : ConstExpr)
  | shr (l r : ConstExpr)
  | or (l r : ConstExpr)
deriving DecidableEq, Inhabited, Repr

namespace ConstExpr

/-! ## Evaluation -/

/-- The number, if it fits into 64 bits with a sign. -/
def fit? (n : Int) : Option Int :=
  if -9223372036854775808 ≤ n ∧ n < 9223372036854775808 then some n else none

/-- The number of places to shift by, if it is one. -/
def places? (n : Int) : Option Nat :=
  if 0 ≤ n ∧ n < 64 then some n.toNat else none

/-- Bitwise or of two 64-bit numbers. -/
def bitOr (a b : Int) : Int := (BitVec.ofInt 64 a ||| BitVec.ofInt 64 b).toInt

/-- A shift to the left. The result is the 64-bit number with a sign that differs
from the product by a multiple of 2^64. -/
def shiftLeft (n : Int) (places : Nat) : Int :=
  (n * Int.pow 2 places).bmod 18446744073709551616

/-- The value of an expression. -/
def eval? : ConstExpr → Option Int
  | literal n => fit? n
  | neg e => do fit? (-(← eval? e))
  | add l r => do fit? ((← eval? l) + (← eval? r))
  | sub l r => do fit? ((← eval? l) - (← eval? r))
  | shl l r => do return shiftLeft (← eval? l) (← places? (← eval? r))
  | shr l r => do return (← eval? l) >>> (← places? (← eval? r))
  | or l r => do return bitOr (← eval? l) (← eval? r)

/-! ## Reading -/

/-- Letters that mark a literal as unsigned or long. -/
def isSuffix (c : Char) : Bool := c == 'u' || c == 'U' || c == 'l' || c == 'L'

/-- The value of a whole literal. -/
def literalValue? (word : List Char) : Option Nat :=
  match Text.dropEndWhile isSuffix word with
  | '0' :: 'x' :: hex => Text.numeral? 16 hex
  | '0' :: 'X' :: hex => Text.numeral? 16 hex
  | digits => Text.numeral? 10 digits

/-- Reads something off the front of a text. -/
abbrev Reader (α : Type) := List Char → Option (α × List Char)

/-- A literal: the longest run of letters and digits. -/
def readLiteral : Reader ConstExpr := fun cs => do
  let n ← literalValue? (cs.takeWhile Char.isAlphanum)
  return (.literal n, cs.dropWhile Char.isAlphanum)

/-- Makes an expression of the two sides of an operator. -/
abbrev Operator := ConstExpr → ConstExpr → ConstExpr

/-- `+` or `-`. -/
def sumOperator : Reader Operator
  | '+' :: cs => some (add, cs)
  | '-' :: cs => some (sub, cs)
  | _ => none

/-- `<<` or `>>`. -/
def shiftOperator : Reader Operator
  | '<' :: '<' :: cs => some (shl, cs)
  | '>' :: '>' :: cs => some (shr, cs)
  | _ => none

/-- A single `|`. -/
def orOperator : Reader Operator
  | '|' :: '|' :: _ => none
  | '|' :: cs => some (or, cs)
  | _ => none

/-- Operators and operands after `left`, grouped from the left. The text gets
shorter with every operator, so its length bounds their number. -/
def readTail (operator : Reader Operator) (operand : Reader ConstExpr) :
    Nat → ConstExpr → Reader ConstExpr
  | 0, left, cs => some (left, cs)
  | fuel + 1, left, cs =>
    match operator cs with
    | none => some (left, cs)
    | some (op, rest) => do
      let (right, rest) ← operand rest
      readTail operator operand fuel (op left right) rest

/-- Operands joined by operators of one level, grouped from the left. -/
def readChain (operator : Reader Operator) (operand : Reader ConstExpr) : Reader ConstExpr :=
  fun cs => do
    let (left, rest) ← operand cs
    readTail operator operand rest.length left rest

/-- The three binary levels over a given way to read what is below them. -/
def readBinary (unary : Reader ConstExpr) : Reader ConstExpr :=
  readChain orOperator (readChain shiftOperator (readChain sumOperator unary))

/-- A unary expression, with at most `fuel` signs and parentheses around its
literal. -/
def readUnary : Nat → Reader ConstExpr
  | 0, _ => none
  | fuel + 1, '-' :: cs => do
    let (e, rest) ← readUnary fuel cs
    return (.neg e, rest)
  | fuel + 1, '(' :: cs => do
    let (e, rest) ← readBinary (readUnary fuel) cs
    match rest with
    | ')' :: rest => return (e, rest)
    | _ => none
  | _ + 1, cs => readLiteral cs

/-- The expression that a text without blanks is. -/
def ofCompact? (cs : List Char) : Option ConstExpr := do
  let (e, rest) ← readBinary (readUnary (cs.length + 1)) cs
  if rest.isEmpty then some e else none

/-- The expression that a text is, blanks aside. -/
def ofText? (text : String) : Option ConstExpr := ofCompact? (Text.compact text.toList)

end ConstExpr

/-! ## Values of texts -/

namespace ConstExpr

/-- The value of a text without blanks. -/
def evaluateCompact (cs : List Char) : Option Int := ofCompact? cs >>= eval?

/-- The value of a text, if it is a constant expression that has one. -/
def evaluate (text : String) : Option Int := ofText? text >>= eval?

/-- The text without the parentheses around it, however many there are. -/
def unwrap (cs : List Char) : List Char :=
  match cs with
  | '(' :: rest =>
    match h : Text.dropTail? [')'] rest with
    | some inner =>
      have : inner.length < rest.length + 1 := by
        unfold Text.dropTail? at h
        obtain ⟨r, hr, rfl⟩ := Option.map_eq_some_iff.mp h
        have := Text.dropStem?_eq_some_iff.mp hr
        have := congrArg List.length this
        simp at this ⊢
        omega
      unwrap inner
    | none => cs
  | _ => cs
termination_by cs.length

/-- `n` for a text that reads `1 << n`, blanks and outer parentheses aside. The
text is cut at its first `<<`; the part before must have the value one. -/
def bitShift? (text : String) : Option Nat := do
  let (base, shift) ← Text.cut? ['<', '<'] (unwrap (Text.compact text.toList))
  if (← evaluateCompact base) = 1 then
    let n ← evaluateCompact shift
    if 0 ≤ n ∧ n < 4294967296 then some n.toNat else none
  else none

/-- A decimal literal without its `U`; any other token as it is. -/
def stripUnsigned (token : String) : String :=
  match Text.dropTail? ['U'] token.toList with
  | some digits =>
    if !digits.isEmpty && digits.all Char.isDigit then String.ofList digits else token
  | none => token

end ConstExpr

end HeaderAtlas
