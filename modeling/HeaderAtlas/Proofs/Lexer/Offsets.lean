import HeaderAtlas.Proofs.Lexer.TokenShapes
import HeaderAtlas.Proofs.Text.Slices

/-!
# Lines taken apart by byte offsets

A line can be taken apart without a look at its characters. Scans over its bytes tell where its
code, a comment, a string or a name stops, and the pieces are slices between these offsets. Here
each scan is shown to stop where the lexer does character by character.

What the scans look for is ASCII, and such a byte is always a character of its own
(`Stop.find?_encode`). Only the scan for the end of a string may get inside a character, as it
takes two bytes at a backslash, of which the second may be the first of several. The others are
not ASCII, so there the scan neither stops nor meets another backslash before it has left the
character (`Lexeme.closingQuote?_backslash`).
-/

namespace HeaderAtlas

open Text

/-! ## Scans -/

/-- What a scan stops at: a character of the table `alone`, or one of `first` right before one of
`second`. -/
structure Stop where
  alone : List Char := []
  first : List Char := []
  second : List Char := []
  ascii : IsAscii alone ∧ IsAscii first ∧ IsAscii second := by decide

namespace Stop

variable {α : Type} {s : Stop} {isIn : List Char → α → Bool} {a : α} {as : List α}

/-- Does the scan stop at this before that? It may be bytes or characters, and `isIn` tells which
of them are in a table. -/
def at? (s : Stop) (isIn : List Char → α → Bool) (a : α) (next? : Option α) : Bool :=
  isIn s.alone a || isIn s.first a && next?.any (isIn s.second)

/-- The position of the first stop. -/
def find? (s : Stop) (isIn : List Char → α → Bool) : List α → Option Nat
  | [] => none
  | a :: as => if s.at? isIn a as.head? then some 0 else (s.find? isIn as).map (· + 1)

/-- How much there is before the first stop. -/
def reach (s : Stop) (isIn : List Char → α → Bool) (as : List α) : Nat :=
  (s.find? isIn as).getD as.length

theorem reach_cons_of_pos (h : s.at? isIn a as.head? = true) : s.reach isIn (a :: as) = 0 := by
  rw [reach, find?, if_pos h]
  rfl

theorem reach_cons_of_neg (h : s.at? isIn a as.head? = false) :
    s.reach isIn (a :: as) = s.reach isIn as + 1 := by
  rw [reach, reach, find?, if_neg (by simp [h])]
  cases s.find? isIn as <;> rfl

theorem find?_append (h : ∀ a ∈ as, isIn s.alone a = false ∧ isIn s.first a = false)
    (rest : List α) : s.find? isIn (as ++ rest) = (s.find? isIn rest).map (· + as.length) := by
  induction as with
  | nil => simp
  | cons a as ih =>
    obtain ⟨⟨halone, hfirst⟩, has⟩ := List.forall_mem_cons.mp h
    rw [List.cons_append, find?, at?, halone, hfirst, Bool.false_and, Bool.or_false,
      if_neg (by simp), ih has, Option.map_map, List.length_cons]
    congr 1

/-- A scan over bytes stops where one over characters does. -/
theorem find?_encode (s : Stop) (cs : List Char) : s.find? isAny (encode cs)
    = (s.find? List.contains cs).map fun n => (encode (cs.take n)).length := by
  obtain ⟨halone, hfirst, hsecond⟩ := s.ascii
  induction cs with
  | nil => rfl
  | cons c cs ih =>
    rw [encode_cons]
    rcases Nat.lt_or_ge c.toNat 128 with hc | hc
    · -- One byte, and the next one is the first of the next character.
      have hbyte := encodeChar_of_ascii hc
      have hmem : UInt8.ofNat c.toNat ∈ String.utf8EncodeChar c := by simp [hbyte]
      rw [hbyte, List.singleton_append, find?, find?, at?, at?, isAny_of_mem halone hmem,
        isAny_of_mem hfirst hmem, head?_encode hsecond, ih]
      split
      · rfl
      · rw [Option.map_map, Option.map_map]
        congr 1
        funext n
        simp [hbyte]
    · -- Several bytes, at none of which the scan stops.
      have hbytes : ∀ b ∈ String.utf8EncodeChar c,
          isAny s.alone b = false ∧ isAny s.first b = false := by
        intro b hb
        have hle := le_of_mem_encodeChar hc hb
        exact ⟨isAny_eq_false halone hle, isAny_eq_false hfirst hle⟩
      rw [find?_append hbytes, ih, find?, at?, contains_eq_false halone hc,
        contains_eq_false hfirst hc, Bool.false_and, Bool.or_false, if_neg (by simp),
        Option.map_map, Option.map_map]
      congr 1
      funext n
      simp [Nat.add_comm]

theorem reach_encode (s : Stop) (cs : List Char) : s.reach isAny (encode cs)
    = (encode (cs.take (s.reach List.contains cs))).length := by
  rw [reach, reach, find?_encode]
  cases s.find? List.contains cs <;> simp

end Stop

namespace Lexeme

variable {cs before inside after : List Char} {c quote : Char} {b q : UInt8} {bs : List UInt8}
  {i j : Nat} {t : Option Token}

/-! ## The pieces of a line -/

/-- Code stops at a quote or at the opening of a comment. -/
def codeEnd : Stop := { alone := ['"', '\''], first := ['/'], second := ['/', '*'] }

/-- A block comment stops at its end. -/
def commentEnd : Stop := { first := ['*'], second := ['/'] }

/-- A name stops at what ends names. -/
def nameEnd : Stop := { alone := Token.nameStops }

theorem splitCode_eq (cs : List Char) : splitCode cs
    = (cs.take (codeEnd.reach List.contains cs), cs.drop (codeEnd.reach List.contains cs)) := by
  induction cs with
  | nil => rfl
  | cons c cs ih =>
    have hstop : (isQuote c || (c == '/' && (cs.head? == some '/' || cs.head? == some '*')))
        = codeEnd.at? List.contains c cs.head? := by
      cases cs.head? <;> simp [isQuote, codeEnd, Stop.at?, Bool.beq_eq_decide_eq]
    rw [splitCode]
    dsimp only
    rw [hstop]
    split
    · next h =>
      rw [Stop.reach_cons_of_pos h]
      rfl
    · next h =>
      rw [Stop.reach_cons_of_neg (Bool.eq_false_iff.mpr h), ih]
      rfl

theorem cut?_commentEnd (cs : List Char) : cut? ['*', '/'] cs
    = (commentEnd.find? List.contains cs).map fun n => (cs.take n, cs.drop (n + 2)) := by
  induction cs with
  | nil => rfl
  | cons c cs ih =>
    have hstem : dropStem? ['*', '/'] (c :: cs)
        = if commentEnd.at? List.contains c cs.head? then some (cs.drop 1) else none := by
      cases cs with
      | nil => simp [dropStem?, commentEnd, Stop.at?]
      | cons d ds =>
        by_cases hc : c = '*' <;> by_cases hd : d = '/' <;>
          simp [dropStem?, commentEnd, Stop.at?, hc, hd, eq_comm (a := '*'), eq_comm (a := '/')]
    rw [cut?, Stop.find?, hstem]
    split
    · next rest hrest =>
      split at hrest
      · next hstop =>
        cases hrest
        rw [if_pos hstop]
        rfl
      · cases hrest
    · next hrest =>
      split at hrest
      · cases hrest
      · next hstop =>
        rw [if_neg hstop, ih, Option.map_map, Option.map_map]
        rfl

/-- A comment ends for a scan over bytes where it does character by character. -/
theorem find?_commentEnd (cs : List Char) : commentEnd.find? isAny (encode cs)
    = (cut? ['*', '/'] cs).map fun (inside, _) => (encode inside).length := by
  rw [Stop.find?_encode, cut?_commentEnd, Option.map_map]
  rfl

theorem at?_nameEnd (c : Char) (next? : Option Char) :
    nameEnd.at? List.contains c next? = endsName c := by
  rw [Bool.eq_iff_iff, endsName_iff]
  simp [nameEnd, Stop.at?]

theorem takeWhile_endsName (cs : List Char) :
    cs.takeWhile (!endsName ·) = cs.take (nameEnd.reach List.contains cs) := by
  induction cs with
  | nil => rfl
  | cons c cs ih =>
    cases h : endsName c with
    | true =>
      rw [Stop.reach_cons_of_pos ((at?_nameEnd c _).trans h),
        List.takeWhile_cons_of_neg (by simp [h])]
      rfl
    | false =>
      rw [Stop.reach_cons_of_neg ((at?_nameEnd c _).trans h),
        List.takeWhile_cons_of_pos (by simp [h]), ih]
      rfl

/-! ## The end of a string -/

/-- The offset of the closing quote, among the bytes from the offset `i` on. A backslash takes the
byte after it along, which need not be a whole character. -/
def closingQuote? (q : UInt8) (i : Nat) : List UInt8 → Option Nat
  | [] => none
  | b :: bs =>
    if isAny ['\\'] b then closingQuote? q (i + 2) (bs.drop 1)
    else if b = q then some i
    else closingQuote? q (i + 1) bs
termination_by bs => bs.length

/-- All other bytes are passed over, wherever among the bytes of a character the scan begins. -/
theorem closingQuote?_append (h : ∀ b ∈ bs, isAny ['\\'] b = false ∧ b ≠ q) (rest : List UInt8) :
    closingQuote? q i (bs ++ rest) = closingQuote? q (i + bs.length) rest := by
  induction bs generalizing i with
  | nil => rfl
  | cons b bs ih =>
    obtain ⟨⟨hbackslash, hquote⟩, hbs⟩ := List.forall_mem_cons.mp h
    rw [List.cons_append, closingQuote?, hbackslash, if_neg (by simp), if_neg hquote, ih hbs,
      List.length_cons, Nat.add_right_comm, Nat.add_assoc]

/-- After a backslash the scan may go on inside a character, which it then leaves. -/
theorem closingQuote?_backslash (hquote : quote.toNat < 128) (i : Nat) (c : Char)
    (rest : List UInt8) :
    closingQuote? (UInt8.ofNat quote.toNat) i
        (String.utf8EncodeChar '\\' ++ (String.utf8EncodeChar c ++ rest))
      = closingQuote? (UInt8.ofNat quote.toNat) (i + (encode ['\\', c]).length) rest := by
  obtain ⟨b, bs, hc⟩ := List.exists_cons_of_length_pos (length_encodeChar_pos c)
  have hbs : ∀ d ∈ bs, isAny ['\\'] d = false ∧ d ≠ UInt8.ofNat quote.toNat := by
    intro d hd
    have hle : 128 ≤ d.toNat := le_of_mem_tail_encodeChar (c := c) (by rw [hc]; exact hd)
    refine ⟨isAny_eq_false (by decide) hle, fun heq => ?_⟩
    rw [heq, UInt8.toNat_ofNat', Nat.mod_eq_of_lt (by omega)] at hle
    omega
  have hbackslash : String.utf8EncodeChar '\\' = [0x5C] := by decide
  rw [hbackslash, hc, List.singleton_append, closingQuote?, if_pos (by decide), List.cons_append,
    List.drop_one, List.tail_cons, closingQuote?_append hbs]
  have hlength : (encode ['\\', c]).length = 2 + bs.length := by
    simp [hbackslash, hc]
    omega
  rw [hlength, Nat.add_assoc]

/-- A string ends for a scan over bytes where it does character by character. -/
theorem closingQuote?_encode (hquote : quote.toNat < 128) (i : Nat) (cs : List Char) :
    closingQuote? (UInt8.ofNat quote.toNat) i (encode cs)
      = (closeQuote? quote cs).map fun (inside, _) => i + (encode inside).length := by
  have htable : IsAscii [quote] := by simpa [IsAscii] using hquote
  fun_induction closeQuote? quote cs generalizing i with
  | case1 =>
    rw [encode_nil, closingQuote?]
    rfl
  | case2 =>
    -- The backslash takes along what is not there.
    have hbackslash : encode ['\\'] = [0x5C] := by decide
    rw [hbackslash, closingQuote?, if_pos (by decide), List.drop_nil, closingQuote?]
    rfl
  | case3 c cs ih =>
    rw [encode_cons, encode_cons, closingQuote?_backslash hquote, ih, Option.map_map]
    congr 1
    funext p
    simp [Nat.add_assoc]
  | case4 cs hlast hescape =>
    have hbackslash : isAny ['\\'] (UInt8.ofNat quote.toNat) = false := by
      rw [isAny_of_mem (c := quote) (by decide) (by simp [encodeChar_of_ascii hquote])]
      simp [ne_backslash hlast hescape]
    rw [encode_cons, encodeChar_of_ascii hquote, List.singleton_append, closingQuote?, hbackslash,
      if_neg (by simp), if_pos rfl]
    rfl
  | case5 c cs hlast hescape hc ih =>
    have hbytes : ∀ b ∈ String.utf8EncodeChar c,
        isAny ['\\'] b = false ∧ b ≠ UInt8.ofNat quote.toNat := by
      intro b hb
      rw [isAny_of_mem (by decide) hb, ne_eq, ← isAny_singleton hquote, isAny_of_mem htable hb]
      simp [ne_backslash hlast hescape, hc]
    rw [encode_cons, closingQuote?_append hbytes, ih, Option.map_map]
    congr 1
    funext p
    simp [Nat.add_assoc]

theorem closingQuote?_drop (hquote : quote.toNat < 128) (before cs : List Char) :
    closingQuote? (UInt8.ofNat quote.toNat) (encode before).length
        ((encode (before ++ cs)).drop (encode before).length)
      = (closeQuote? quote cs).map fun (inside, _) => (encode (before ++ inside)).length := by
  rw [encode_append, List.drop_left, closingQuote?_encode hquote]
  congr 1
  funext p
  simp

/-! ## The tokens of some code -/

/-- The token at the offset `i` of some code, if no blank is there, and the offset after it. `b` is
the byte at the offset, and `bs` are those after it. -/
def tokenAt? (code : List Char) (i : Nat) (b : UInt8) (bs : List UInt8) :
    Option (Option Token × Nat) :=
  if isAny [' ', '\t'] b then some (none, i + 1)
  else if isAny Token.separators b then do
    let text ← slice? code i (i + 1)
    return (some (.ofChars .separator text), i + 1)
  else if isAny Token.operators b then do
    let rest ← slice? code i (encode code).length
    if startsWith ['.', '.', '.'] rest then
      return (some (.ofChars .name ['.', '.', '.']), i + 3)
    else
      let stop := i + if bs.head?.any (isAny Token.operatorTails) then 2 else 1
      let text ← slice? code i stop
      return (some (.ofChars .operator text), stop)
  else do
    let stop := i + nameEnd.reach isAny (b :: bs)
    let text ← slice? code i stop
    return (some (.ofChars .name text), stop)

/-- What neither is a blank nor starts a separator or an operator does not end a name. -/
theorem isAny_nameStops (hgap : isAny [' ', '\t'] b = false)
    (hseparator : isAny Token.separators b = false) (hoperator : isAny Token.operators b = false) :
    isAny Token.nameStops b = false := by
  have hall : ((encode Token.nameStops).all fun d =>
      isAny [' ', '\t'] d || isAny Token.separators d || isAny Token.operators d) = true := by
    decide
  rw [Bool.eq_false_iff]
  intro h
  have hd := List.all_eq_true.mp hall b (List.contains_iff_mem.mp h)
  rw [hgap, hseparator, hoperator] at hd
  cases hd

/-- The offset after a token is a later one. -/
theorem lt_of_tokenAt? {code : List Char} (h : tokenAt? code i b bs = some (t, j)) : i < j := by
  unfold tokenAt? at h
  split at h
  · cases h
    omega
  · next hgap =>
    split at h
    · obtain ⟨text, -, h⟩ := Option.bind_eq_some_iff.mp h
      cases h
      omega
    · next hseparator =>
      split at h
      · obtain ⟨rest, -, h⟩ := Option.bind_eq_some_iff.mp h
        split at h
        · cases h
          omega
        · obtain ⟨text, -, h⟩ := Option.bind_eq_some_iff.mp h
          cases h
          split <;> omega
      · next hoperator =>
        obtain ⟨text, -, h⟩ := Option.bind_eq_some_iff.mp h
        cases h
        have hstop := isAny_nameStops (Bool.eq_false_iff.mpr hgap)
          (Bool.eq_false_iff.mpr hseparator) (Bool.eq_false_iff.mpr hoperator)
        have hname : nameEnd.at? isAny b bs.head? = false := by
          rw [Stop.at?, show isAny nameEnd.alone b = false from hstop]
          rfl
        rw [Stop.reach_cons_of_neg hname]
        omega

/-- The tokens of some code from the offset `i` on. -/
def codeFrom? (code : List Char) (i : Nat) : Option (List Token) :=
  match hbytes : (encode code).drop i with
  | [] => some []
  | b :: bs =>
    match htoken : tokenAt? code i b bs with
    | none => none
    | some (t, next) =>
      have hlt := lt_of_tokenAt? htoken
      -- There is a byte at the offset, so the next one comes closer to the end.
      have hi : i < (encode code).length := by
        refine Nat.lt_of_not_le fun hge => ?_
        rw [List.drop_eq_nil_of_le hge] at hbytes
        cases hbytes
      (codeFrom? code next).map (t.toList ++ ·)
termination_by (encode code).length - i

/-- The first token of code that starts with an operator. -/
theorem codeToken_of_operator (hgap : ¬ isGap c = true) (hseparator : ¬ isSeparator c = true)
    (hoperator : isOperator c = true) : codeToken c cs =
      if startsWith ['.', '.', '.'] (c :: cs) then
        (some (.ofChars .name ['.', '.', '.']), (c :: cs).drop 3)
      else
        let n := if cs.head?.any isOperatorTail then 2 else 1
        (some (.ofChars .operator ((c :: cs).take n)), (c :: cs).drop n) := by
  unfold codeToken
  rw [if_neg hgap, if_neg hseparator, if_pos hoperator]
  split
  · rfl
  · next d rest hdots =>
    have hnot : ¬ startsWith ['.', '.', '.'] (c :: d :: rest) = true := by
      rw [startsWith_iff]
      rintro ⟨after, h⟩
      simp only [List.cons_append, List.nil_append, List.cons.injEq] at h
      obtain ⟨hc, hd, hrest⟩ := h
      exact hdots after hc.symm hd.symm hrest.symm
    rw [if_neg hnot]
    cases htail : isOperatorTail d <;> simp [htail]
  · have hnot : ¬ startsWith ['.', '.', '.'] [c] = true := by
      rw [startsWith_iff]
      exact fun h => absurd h.length_le (by simp)
    rw [if_neg hnot]
    rfl

theorem isGap_eq (c : Char) : isGap c = [' ', '\t'].contains c := by
  simp [isGap, Bool.beq_eq_decide_eq]

theorem isSeparator_eq (c : Char) : isSeparator c = Token.separators.contains c := by
  rw [Bool.eq_iff_iff, isSeparator_iff, List.contains_iff_mem]

theorem isOperator_eq (c : Char) : isOperator c = Token.operators.contains c := by
  rw [Bool.eq_iff_iff, isOperator_iff, List.contains_iff_mem]

theorem isOperatorTail_eq : isOperatorTail = Token.operatorTails.contains := by
  funext c
  rw [Bool.eq_iff_iff, isOperatorTail_iff, List.contains_iff_mem]

/-- An operator has one byte for each character. -/
theorem length_encode_operator (hc : isOperator c = true) :
    (encode ((c :: cs).take (if cs.head?.any isOperatorTail then 2 else 1))).length
      = if cs.head?.any isOperatorTail then 2 else 1 := by
  have hone := length_encodeChar_of_mem (by decide) ((isOperator_eq c).symm.trans hc)
  split
  · next htail =>
    cases cs with
    | nil => cases htail
    | cons d ds =>
      rw [List.head?_cons, Option.any_some, isOperatorTail_eq] at htail
      have htwo := length_encodeChar_of_mem (by decide) htail
      simp only [List.take_succ_cons, List.take_zero, encode_cons, encode_nil, List.length_append,
        List.length_nil, hone, htwo]
  · simp only [List.take_succ_cons, List.take_zero, encode_cons, encode_nil, List.length_append,
      List.length_nil, hone]

/-- What the first byte says of the first character. -/
theorem isAny_of_encode {table : List Char} (htable : IsAscii table)
    (hb : encode (c :: cs) = b :: bs) : isAny table b = table.contains c := by
  simpa [hb] using head?_encode htable (c :: cs)

theorem kind_of_encode (hb : encode (c :: cs) = b :: bs) : isAny [' ', '\t'] b = isGap c
    ∧ isAny Token.separators b = isSeparator c ∧ isAny Token.operators b = isOperator c := by
  rw [isGap_eq, isSeparator_eq, isOperator_eq]
  exact ⟨isAny_of_encode (by decide) hb, isAny_of_encode (by decide) hb,
    isAny_of_encode (by decide) hb⟩

/-- Where the code `c :: cs` starts is its first token, with the offset at which the code after
that starts. -/
def FirstAt (before : List Char) (c : Char) (cs : List Char) (b : UInt8) (bs : List UInt8) :
    Prop :=
  ∃ taken, c :: cs = taken ++ (codeToken c cs).2
    ∧ tokenAt? (before ++ c :: cs) (encode before).length b bs
      = some ((codeToken c cs).1, (encode (before ++ taken)).length)

theorem firstAt_of_operator (before : List Char) (hb : encode (c :: cs) = b :: bs)
    (hgap : ¬ isGap c = true) (hseparator : ¬ isSeparator c = true)
    (hoperator : isOperator c = true) : FirstAt before c cs b bs := by
  obtain ⟨hgaps, hseparators, hoperators⟩ := kind_of_encode hb
  have hone := length_encodeChar_of_mem (by decide) ((isOperator_eq c).symm.trans hoperator)
  obtain ⟨b', hc⟩ := List.length_eq_one_iff.mp hone
  -- The bytes after an operator are those of the code after it.
  obtain ⟨rfl, rfl⟩ : b' = b ∧ encode cs = bs := by
    rw [encode_cons, hc] at hb
    exact List.cons.inj hb
  rw [FirstAt, tokenAt?, hgaps, if_neg hgap, hseparators, if_neg hseparator, hoperators,
    if_pos hoperator, slice?_rest _ rfl, codeToken_of_operator hgap hseparator hoperator,
    head?_encode (by decide), ← isOperatorTail_eq]
  dsimp only [Option.bind_eq_bind, Option.bind_some]
  by_cases hdots : startsWith ['.', '.', '.'] (c :: cs) = true
  · obtain ⟨after, hafter⟩ := startsWith_iff.mp hdots
    rw [if_pos hdots, if_pos hdots, ← hafter]
    refine ⟨['.', '.', '.'], rfl, ?_⟩
    rw [encode_append, List.length_append]
    rfl
  · have htaken := List.take_append_drop (if cs.head?.any isOperatorTail then 2 else 1) (c :: cs)
    rw [if_neg hdots, if_neg hdots,
      slice?_after htaken.symm (length_encode_operator hoperator).symm]
    refine ⟨_, htaken.symm, ?_⟩
    rw [encode_append, List.length_append, length_encode_operator hoperator]
    rfl

theorem firstAt_of_name (before : List Char) (hb : encode (c :: cs) = b :: bs)
    (hgap : ¬ isGap c = true) (hseparator : ¬ isSeparator c = true)
    (hoperator : ¬ isOperator c = true) : FirstAt before c cs b bs := by
  obtain ⟨hgaps, hseparators, hoperators⟩ := kind_of_encode hb
  have hname : endsName c = false := by
    have htail : ¬ isOperatorTail c = true := fun h => hoperator (Bool.or_eq_true_iff.mpr (.inl h))
    simp [endsName, hgap, hseparator, htail]
  have hcode : codeToken c cs = (some (.ofChars .name ((c :: cs).takeWhile (!endsName ·))),
      (c :: cs).dropWhile (!endsName ·)) := by
    unfold codeToken
    rw [if_neg hgap, if_neg hseparator, if_neg hoperator,
      List.takeWhile_cons_of_pos (by simp [hname]), List.dropWhile_cons_of_pos (by simp [hname])]
  have htaken := List.takeWhile_append_dropWhile (p := (!endsName ·)) (l := c :: cs)
  have hreach : nameEnd.reach isAny (b :: bs)
      = (encode ((c :: cs).takeWhile (!endsName ·))).length := by
    rw [← hb, Stop.reach_encode, takeWhile_endsName]
  rw [FirstAt, hcode, tokenAt?, hgaps, if_neg hgap, hseparators, if_neg hseparator, hoperators,
    if_neg hoperator, hreach]
  dsimp only
  rw [slice?_after htaken.symm rfl]
  exact ⟨_, htaken.symm, by simp⟩

theorem firstAt (before : List Char) (hb : encode (c :: cs) = b :: bs) :
    FirstAt before c cs b bs := by
  obtain ⟨hgaps, hseparators, -⟩ := kind_of_encode hb
  by_cases hgap : isGap c = true
  · have hone := length_encodeChar_of_mem (by decide) ((isGap_eq c).symm.trans hgap)
    have hcode : codeToken c cs = (none, cs) := if_pos hgap
    rw [FirstAt, hcode, tokenAt?, hgaps, if_pos hgap]
    exact ⟨[c], rfl, by simp [hone]⟩
  by_cases hseparator : isSeparator c = true
  · have hone := length_encodeChar_of_mem (by decide) ((isSeparator_eq c).symm.trans hseparator)
    have hcode : codeToken c cs = (some (.ofChars .separator [c]), cs) := by
      unfold codeToken
      rw [if_neg hgap, if_pos hseparator]
    rw [FirstAt, hcode, tokenAt?, hgaps, if_neg hgap, hseparators, if_pos hseparator,
      slice?_after (List.singleton_append (l := cs)).symm (by simp [hone])]
    exact ⟨[c], rfl, by simp [hone]⟩
  by_cases hoperator : isOperator c = true
  · exact firstAt_of_operator before hb hgap hseparator hoperator
  · exact firstAt_of_name before hb hgap hseparator hoperator

theorem codeFrom?_of_end {code : List Char} (h : (encode code).drop i = []) :
    codeFrom? code i = some [] := by
  rw [codeFrom?]
  split <;> simp_all

theorem codeFrom?_of_token {code : List Char} (h : (encode code).drop i = b :: bs)
    (ht : tokenAt? code i b bs = some (t, j)) :
    codeFrom? code i = (codeFrom? code j).map (t.toList ++ ·) := by
  rw [codeFrom?]
  split
  · simp_all
  · next hbytes =>
    rw [h] at hbytes
    cases hbytes
    split <;> simp_all

/-- From where a character starts, the tokens are those of the code from there on. -/
theorem codeFrom?_eq (before cs : List Char) :
    codeFrom? (before ++ cs) (encode before).length = some (code cs) := by
  fun_induction code cs generalizing before with
  | case1 => exact codeFrom?_of_end (by simp)
  | case2 c cs hlength ih =>
    obtain ⟨b, bs, hb⟩ : ∃ b bs, encode (c :: cs) = b :: bs := by
      refine List.exists_cons_of_length_pos ?_
      rw [encode_cons, List.length_append]
      exact Nat.add_pos_left (length_encodeChar_pos c) _
    obtain ⟨taken, htaken, htoken⟩ := firstAt before hb
    have hdrop : (encode (before ++ c :: cs)).drop (encode before).length = b :: bs := by
      rw [encode_append, List.drop_left, hb]
    rw [codeFrom?_of_token hdrop htoken, htaken, ← List.append_assoc, ih]
    rfl

/-! ## The pieces, sliced -/

/-- The cut between code and what it stops at. -/
theorem slice?_splitCode (line : List Char) :
    slice? line 0 (codeEnd.reach isAny (encode line)) = some (splitCode line).1
      ∧ slice? line (codeEnd.reach isAny (encode line)) (encode line).length
        = some (splitCode line).2 := by
  have hcut : codeEnd.reach isAny (encode line) = (encode (splitCode line).1).length := by
    rw [Stop.reach_encode, splitCode_eq]
  have hfront := slice?_front (splitCode line).2 hcut
  have hrest := slice?_rest (splitCode line).2 hcut
  rw [splitCode_append] at hfront hrest
  exact ⟨hfront, hrest⟩

/-- The cuts around the closing quote of a string. -/
theorem slice?_string (hquote : quote.toNat < 128) (text inside after : List Char) :
    slice? (quote :: text ++ (inside ++ quote :: after)) 1
        (encode (quote :: text ++ inside)).length = some (text ++ inside)
      ∧ slice? (quote :: text ++ (inside ++ quote :: after))
        ((encode (quote :: text ++ inside)).length + 1)
        (encode (quote :: text ++ (inside ++ quote :: after))).length = some after := by
  have hone : (encode [quote]).length = 1 := by simp [encodeChar_of_ascii hquote]
  constructor
  · have hline : quote :: text ++ (inside ++ quote :: after)
        = [quote] ++ ((text ++ inside) ++ quote :: after) := by
      simp
    have hstop : (encode (quote :: text ++ inside)).length
        = 1 + (encode (text ++ inside)).length := by
      rw [List.cons_append, ← List.singleton_append, encode_append, List.length_append, hone]
    rw [hline]
    exact slice?_append hone.symm hstop
  · have hline : quote :: text ++ (inside ++ quote :: after)
        = (quote :: text ++ inside ++ [quote]) ++ after := by
      simp
    rw [hline]
    exact slice?_rest _ (by rw [encode_append _ [quote], List.length_append, hone])

/-- The cuts around the end of a comment. -/
theorem slice?_comment (inside after : List Char) :
    slice? (inside ++ ['*', '/'] ++ after) 0 (encode inside).length = some inside
      ∧ slice? (inside ++ ['*', '/'] ++ after) ((encode inside).length + 2)
        (encode (inside ++ ['*', '/'] ++ after)).length = some after := by
  have htwo : (encode ['*', '/']).length = 2 := by decide
  constructor
  · rw [List.append_assoc]
    exact slice?_front _ rfl
  · exact slice?_rest _ (by rw [encode_append, List.length_append, htwo])

end Lexeme

end HeaderAtlas
