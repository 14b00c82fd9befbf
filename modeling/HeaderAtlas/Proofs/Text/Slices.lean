import HeaderAtlas.Text.Blank

/-!
# Slices of a text between byte offsets

A text is encoded as bytes, and a part of it can be told by the offsets at which its bytes start
and stop. Not any two offsets will do. They have to be in order, within the text, and neither may
be inside a character of several bytes (`isSome_slice?_iff`).

Offsets are found by looking for the bytes of certain ASCII characters. A character that is not
ASCII has no such byte in it, so a byte is one of those only if the character that it belongs to is
(`isAny_of_mem`).
-/

namespace HeaderAtlas

namespace Text

variable {cs before middle after table : List Char} {c : Char} {b : UInt8} {i j : Nat}

/-! ## Encoding -/

/-- The bytes that encode a text. -/
def encode (cs : List Char) : List UInt8 := cs.flatMap String.utf8EncodeChar

@[simp] theorem encode_nil : encode [] = [] := rfl

@[simp] theorem encode_cons (c : Char) (cs : List Char) :
    encode (c :: cs) = String.utf8EncodeChar c ++ encode cs := rfl

@[simp] theorem encode_append (xs ys : List Char) : encode (xs ++ ys) = encode xs ++ encode ys :=
  List.flatMap_append

/-- An ASCII character is one byte, its number. -/
theorem encodeChar_of_ascii (h : c.toNat < 128) :
    String.utf8EncodeChar c = [UInt8.ofNat c.toNat] :=
  if_pos (Nat.le_of_lt_succ h)

/-- The bytes of any other character are no numbers of ASCII ones. -/
theorem le_of_mem_encodeChar (h : 128 ≤ c.toNat) (hb : b ∈ String.utf8EncodeChar c) :
    128 ≤ b.toNat := by
  have hbyte : ∀ n k, 128 ≤ k → n + k < 256 → b = UInt8.ofNat (n + k) → 128 ≤ b.toNat := by
    rintro n k hk hn rfl
    rw [UInt8.toNat_ofNat']
    omega
  have hlt : ¬ c.val.toNat ≤ 127 := Nat.not_le_of_lt h
  unfold String.utf8EncodeChar at hb
  dsimp only at hb
  rw [if_neg hlt] at hb
  split at hb
  · simp only [List.mem_cons, List.not_mem_nil, or_false] at hb
    rcases hb with hb | hb <;> exact hbyte _ _ (by omega) (by omega) hb
  · split at hb
    · simp only [List.mem_cons, List.not_mem_nil, or_false] at hb
      rcases hb with hb | hb | hb <;> exact hbyte _ _ (by omega) (by omega) hb
    · simp only [List.mem_cons, List.not_mem_nil, or_false] at hb
      rcases hb with hb | hb | hb | hb <;> exact hbyte _ _ (by omega) (by omega) hb

theorem length_encodeChar_pos (c : Char) : 0 < (String.utf8EncodeChar c).length := by
  rw [String.length_utf8EncodeChar]
  exact c.utf8Size_pos

/-! ## Tables of ASCII characters -/

/-- The characters are ASCII. -/
def IsAscii (table : List Char) : Prop := ∀ c ∈ table, c.toNat < 128

instance (table : List Char) : Decidable (IsAscii table) :=
  List.decidableBAll (fun c : Char => c.toNat < 128) table

/-- Is the byte that of a character in the table? -/
def isAny (table : List Char) (b : UInt8) : Bool := (encode table).contains b

/-- A byte is in the table as the character that it belongs to is. -/
theorem isAny_of_mem (htable : IsAscii table) (hb : b ∈ String.utf8EncodeChar c) :
    isAny table b = table.contains c := by
  rw [Bool.eq_iff_iff, isAny, List.contains_iff_mem, List.contains_iff_mem, encode,
    List.mem_flatMap]
  constructor
  · rintro ⟨d, hd, hbd⟩
    have hd' := htable d hd
    obtain rfl := List.mem_singleton.mp (encodeChar_of_ascii hd' ▸ hbd)
    rcases Nat.lt_or_ge c.toNat 128 with hc | hc
    · -- Two ASCII characters with the same byte have the same number.
      have hnum := congrArg UInt8.toNat (List.mem_singleton.mp (encodeChar_of_ascii hc ▸ hb))
      rw [UInt8.toNat_ofNat', UInt8.toNat_ofNat', Nat.mod_eq_of_lt (by omega),
        Nat.mod_eq_of_lt (by omega)] at hnum
      rwa [← Char.toNat_inj.mp hnum]
    · have hle := le_of_mem_encodeChar hc hb
      rw [UInt8.toNat_ofNat', Nat.mod_eq_of_lt (by omega)] at hle
      omega
  · exact fun hc => ⟨c, hc, hb⟩

theorem isAny_singleton (hc : c.toNat < 128) :
    isAny [c] b = true ↔ b = UInt8.ofNat c.toNat := by
  rw [isAny, List.contains_iff_mem, encode_cons, encode_nil, List.append_nil,
    encodeChar_of_ascii hc, List.mem_singleton]

/-- In particular, no byte is that is not ASCII itself. -/
theorem isAny_eq_false (htable : IsAscii table) (hb : 128 ≤ b.toNat) : isAny table b = false := by
  rw [Bool.eq_false_iff, isAny, ne_eq, List.contains_iff_mem, encode, List.mem_flatMap]
  rintro ⟨d, hd, hbd⟩
  have hd' := htable d hd
  obtain rfl := List.mem_singleton.mp (encodeChar_of_ascii hd' ▸ hbd)
  rw [UInt8.toNat_ofNat', Nat.mod_eq_of_lt (by omega)] at hb
  omega

theorem contains_eq_false (htable : IsAscii table) (hc : 128 ≤ c.toNat) :
    table.contains c = false := by
  rw [Bool.eq_false_iff, ne_eq, List.contains_iff_mem]
  intro hmem
  have := htable c hmem
  omega

/-- The bytes of a character after its first one are not ASCII. -/
theorem le_of_mem_tail_encodeChar (hb : b ∈ (String.utf8EncodeChar c).tail) : 128 ≤ b.toNat := by
  rcases Nat.lt_or_ge c.toNat 128 with hc | hc
  · rw [encodeChar_of_ascii hc] at hb
    cases hb
  · exact le_of_mem_encodeChar hc (List.mem_of_mem_tail hb)

/-- A character of such a table is one byte. -/
theorem length_encodeChar_of_mem (htable : IsAscii table) (h : table.contains c = true) :
    (String.utf8EncodeChar c).length = 1 := by
  rw [encodeChar_of_ascii (htable c (List.contains_iff_mem.mp h))]
  rfl

theorem head?_encode (htable : IsAscii table) (cs : List Char) :
    (encode cs).head?.any (isAny table) = cs.head?.any table.contains := by
  cases cs with
  | nil => rfl
  | cons c cs =>
    obtain ⟨b, bs, hc⟩ := List.exists_cons_of_length_pos (length_encodeChar_pos c)
    have hb := isAny_of_mem htable (c := c) (b := b) (by rw [hc]; exact List.mem_cons_self)
    rw [encode_cons, hc]
    exact hb

/-! ## Slices -/

/-- The offset is at an end of the text or between two of its characters. -/
def IsBoundary (cs : List Char) (i : Nat) : Prop :=
  ∃ before after, cs = before ++ after ∧ i = (encode before).length

/-- What stands before a byte offset and after it. There is neither if the offset is beyond the
text or inside a character. -/
def cutAt? : List Char → Nat → Option (List Char × List Char)
  | cs, 0 => some ([], cs)
  | [], _ + 1 => none
  | c :: cs, i + 1 =>
    if c.utf8Size ≤ i + 1 then
      (cutAt? cs (i + 1 - c.utf8Size)).map fun (before, after) => (c :: before, after)
    else none

/-- The text between two byte offsets. -/
def slice? (cs : List Char) (start stop : Nat) : Option (List Char) := do
  let (front, _) ← cutAt? cs stop
  let (_, middle) ← cutAt? front start
  return middle

theorem length_encode_eq_zero : (encode cs).length = 0 ↔ cs = [] := by
  cases cs with
  | nil => simp
  | cons c cs =>
    have hpos := length_encodeChar_pos c
    simp only [encode_cons, List.length_append, reduceCtorEq, iff_false]
    omega

theorem cutAt?_eq_some_iff :
    cutAt? cs i = some (before, after) ↔ cs = before ++ after ∧ i = (encode before).length := by
  fun_induction cutAt? cs i generalizing before with
  | case1 cs =>
    rw [eq_comm (a := 0), length_encode_eq_zero]
    constructor
    · rintro h
      cases h
      exact ⟨rfl, rfl⟩
    · rintro ⟨rfl, rfl⟩
      rfl
  | case2 i =>
    refine ⟨nofun, fun ⟨h, hi⟩ => ?_⟩
    rw [(List.append_eq_nil_iff.mp h.symm).1] at hi
    cases hi
  | case3 c cs i hle ih =>
    rw [Option.map_eq_some_iff]
    constructor
    · rintro ⟨⟨front, rest⟩, hcut, h⟩
      cases h
      obtain ⟨rfl, hi⟩ := ih.mp hcut
      refine ⟨rfl, ?_⟩
      rw [encode_cons, List.length_append, String.length_utf8EncodeChar, ← hi]
      omega
    · rintro ⟨h, hi⟩
      cases before with
      | nil => cases hi
      | cons d front =>
        obtain ⟨rfl, rfl⟩ := List.cons.inj h
        rw [encode_cons, List.length_append, String.length_utf8EncodeChar] at hi
        exact ⟨(front, after), ih.mpr ⟨rfl, by omega⟩, rfl⟩
  | case4 c cs i hlt =>
    refine ⟨nofun, fun ⟨h, hi⟩ => absurd ?_ hlt⟩
    cases before with
    | nil => cases hi
    | cons d front =>
      obtain ⟨rfl, -⟩ := List.cons.inj h
      rw [encode_cons, List.length_append, String.length_utf8EncodeChar] at hi
      omega

theorem slice?_eq_some_iff : slice? cs i j = some middle ↔
    ∃ before after, cs = before ++ (middle ++ after) ∧ i = (encode before).length
      ∧ j = (encode (before ++ middle)).length := by
  constructor
  · intro h
    obtain ⟨⟨front, after⟩, hfront, h⟩ := Option.bind_eq_some_iff.mp h
    obtain ⟨⟨before, middle'⟩, hbefore, h⟩ := Option.bind_eq_some_iff.mp h
    cases h
    obtain ⟨rfl, hj⟩ := cutAt?_eq_some_iff.mp hfront
    obtain ⟨rfl, hi⟩ := cutAt?_eq_some_iff.mp hbefore
    exact ⟨before, after, List.append_assoc .., hi, hj⟩
  · rintro ⟨before, after, rfl, hi, hj⟩
    have hfront : cutAt? (before ++ (middle ++ after)) j = some (before ++ middle, after) :=
      cutAt?_eq_some_iff.mpr ⟨(List.append_assoc ..).symm, hj⟩
    have hbefore : cutAt? (before ++ middle) i = some (before, middle) :=
      cutAt?_eq_some_iff.mpr ⟨rfl, hi⟩
    exact Option.bind_eq_some_iff.mpr
      ⟨_, hfront, Option.bind_eq_some_iff.mpr ⟨_, hbefore, rfl⟩⟩

theorem slice?_append (hi : i = (encode before).length) (hj : j = i + (encode middle).length) :
    slice? (before ++ (middle ++ after)) i j = some middle := by
  refine slice?_eq_some_iff.mpr ⟨before, after, rfl, hi, ?_⟩
  rw [hj, hi, encode_append, List.length_append]

theorem slice?_front (after : List Char) (hj : j = (encode before).length) :
    slice? (before ++ after) 0 j = some before :=
  slice?_eq_some_iff.mpr ⟨[], after, rfl, rfl, hj⟩

theorem slice?_after (hcs : cs = middle ++ after) (hi : i = (encode middle).length) :
    slice? (before ++ cs) (encode before).length ((encode before).length + i) = some middle := by
  rw [hcs]
  exact slice?_append rfl (by rw [hi])

theorem slice?_rest (after : List Char) (hi : i = (encode before).length) :
    slice? (before ++ after) i (encode (before ++ after)).length = some after :=
  slice?_eq_some_iff.mpr ⟨before, [], by rw [List.append_nil], hi, rfl⟩

/-- **Which offsets will do.** They are in order, and each is a boundary of the text. -/
theorem isSome_slice?_iff :
    (slice? cs i j).isSome = true ↔ i ≤ j ∧ IsBoundary cs i ∧ IsBoundary cs j := by
  rw [Option.isSome_iff_exists]
  constructor
  · rintro ⟨middle, h⟩
    obtain ⟨before, after, rfl, hi, hj⟩ := slice?_eq_some_iff.mp h
    refine ⟨?_, ⟨before, middle ++ after, rfl, hi⟩,
      ⟨before ++ middle, after, (List.append_assoc ..).symm, hj⟩⟩
    rw [hi, hj, encode_append, List.length_append]
    exact Nat.le_add_right _ _
  · rintro ⟨hle, ⟨before, rest, rfl, hi⟩, ⟨front, after, hcs, hj⟩⟩
    -- The text before the first offset is the start of that before the second.
    have hprefix : before <+: front := by
      rcases List.prefix_or_prefix_of_prefix ⟨rest, rfl⟩ ⟨after, hcs.symm⟩ with h | ⟨middle, rfl⟩
      · exact h
      · rw [hi, hj, encode_append, List.length_append] at hle
        obtain rfl := length_encode_eq_zero.mp (show (encode middle).length = 0 by omega)
        simp
    obtain ⟨middle, rfl⟩ := hprefix
    exact ⟨middle, slice?_eq_some_iff.mpr ⟨before, after, by rw [hcs, List.append_assoc], hi, hj⟩⟩

/-- An offset inside a character will not do. -/
example : slice? ['é', 'a'] 1 3 = none ∧ slice? ['é', 'a'] 2 3 = some ['a'] := by decide

end Text

end HeaderAtlas
