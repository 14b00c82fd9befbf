import HeaderAtlas.Proofs.Reader.Types
import HeaderAtlas.WidthPolicy

/-!
# The texts of types

The text of a type is put together token by token. Here it is told at once: the words of the
type, set apart by blanks, and its dimensions as they are written.

The width policy looks for `long` in such a text. It is never found across a blank, a bracket or
a parenthesis, so it comes from one word, or from the inside of one dimension. What stands inside
a dimension is not set apart, so there it may come from two tokens.
-/

namespace HeaderAtlas

open Text Reader

/-! ## Looking for a word among others -/

namespace Text

/-- A word stands on one side of a character that it does not have. -/
theorem contains_around {needle : List Char} {c : Char} (hne : needle ≠ []) (hc : c ∉ needle)
    {xs ys : List Char} (h : contains needle (xs ++ c :: ys) = true) :
    contains needle xs = true ∨ contains needle ys = true := by
  rw [contains_iff] at *
  rw [contains_iff]
  have hstart : ∀ {l : List Char}, l ≠ [] → l <+: c :: ys → c ∈ l := by
    intro l hl hprefix
    obtain ⟨x, l, rfl⟩ := List.exists_cons_of_ne_nil hl
    rw [(List.cons_prefix_cons.mp hprefix).1]
    exact List.mem_cons_self
  rcases List.infix_append_iff_ne_nil.mp h with h | h | ⟨l₁, l₂, -, hl₂, rfl, -, hprefix⟩
  · exact .inl h
  · rcases List.infix_cons_iff.mp h with hprefix | h
    · exact absurd (hstart hne hprefix) hc
    · exact .inr h
  · exact absurd (List.mem_append_right l₁ (hstart hl₂ hprefix)) hc

end Text

namespace WidthPolicy

/-- Is there no `long` in the text? -/
def lacksLong (text : String) : Bool := !containsText "long" text

theorem isPlainLong_of_lacksLong {text : String} (h : lacksLong text = true) :
    isPlainLong text = false := by
  rw [lacksLong, Bool.not_eq_true'] at h
  rw [isPlainLong, h]
  rfl

/-- What sets texts apart. -/
def isDivider (text : String) : Bool := [" ", "[", "]", "(", ")"].contains text

theorem lacksLong_around {s t d : String} (hd : isDivider d = true) (hs : lacksLong s = true)
    (ht : lacksLong t = true) : lacksLong (s ++ d ++ t) = true := by
  obtain ⟨c, hc, hlong⟩ : ∃ c, d.toList = [c] ∧ c ∉ "long".toList := by
    simp only [isDivider, List.contains_cons, List.contains_nil, Bool.or_false, Bool.or_eq_true,
      beq_iff_eq] at hd
    rcases hd with rfl | rfl | rfl | rfl | rfl <;> exact ⟨_, rfl, by decide⟩
  rw [lacksLong, Bool.not_eq_true', ← Bool.not_eq_true] at *
  intro h
  have hlist : (s ++ d ++ t).toList = s.toList ++ c :: t.toList := by
    simp [String.toList_append, hc]
  rw [containsText, hlist] at h
  rcases contains_around (by decide) hlong h with h | h
  · exact hs h
  · exact ht h

theorem lacksLong_intercalate {ws : List String} (h : ws.all lacksLong = true) :
    lacksLong (" ".intercalate ws) = true := by
  induction ws with
  | nil => decide
  | cons w ws ih =>
    rw [List.all_cons, Bool.and_eq_true] at h
    cases ws with
    | nil => rw [String.intercalate_singleton]; exact h.1
    | cons v vs =>
      rw [String.intercalate_cons_cons]
      exact lacksLong_around (by decide) h.1 (ih h.2)

end WidthPolicy

open WidthPolicy

/-! ## Types -/

/-- The texts of tokens, one after the other. -/
def Token.joined (ts : List Token) : String := String.join (ts.map text)

/-- The texts of tokens, set apart by blanks. -/
def Token.spaced (ts : List Token) : String := " ".intercalate (ts.map text)

namespace TypeSpec

theorem text_words (ty : TypeSpec) (hne : ty.text.isEmpty = false) (ws : List Token) :
    (ty.words ws).text = " ".intercalate (ty.text :: ws.map Token.text) := by
  induction ws generalizing ty with
  | nil => exact String.intercalate_singleton.symm
  | cons w ws ih =>
    have hword : (ty.word w.text).text = ty.text ++ " " ++ w.text := by
      rw [word, if_neg (by simp [hne])]
    refine (ih (ty.word w.text) ?_).trans ?_
    · simp [hword]
    · rw [hword, String.intercalate_cons_append, List.map_cons, String.intercalate_cons_cons]

theorem text_texts (ty : TypeSpec) (ts : List Token) :
    (ty.texts ts).text = ty.text ++ Token.joined ts := by
  induction ts generalizing ty with
  | nil => exact (String.append_empty).symm
  | cons t ts ih =>
    refine (ih (ty.append t.text)).trans ?_
    simp [append, Token.joined, String.append_assoc]

end TypeSpec

/-- The dimensions as they are written. -/
def Dimensions.text (dims : Dimensions) : String :=
  String.join (dims.map fun d => "[" ++ Token.joined d ++ "]")

/-- Is there no `long` in the inside of a dimension? -/
def Dimensions.lackLong (dims : Dimensions) : Bool := dims.all fun d => lacksLong (Token.joined d)

theorem TypeSpec.text_dimensions (ty : TypeSpec) (dims : Dimensions) :
    (ty.dimensions dims).text = ty.text ++ dims.text := by
  induction dims generalizing ty with
  | nil => exact (String.append_empty).symm
  | cons d dims ih =>
    refine (ih (((ty.append "[").texts d).append "]")).trans ?_
    simp [append, text_texts, Dimensions.text, String.append_assoc]

theorem Dimensions.lacksLong_append (dims : Dimensions) (hdims : dims.lackLong = true) {s : String}
    (hs : lacksLong s = true) : lacksLong (s ++ dims.text) = true := by
  induction dims generalizing s with
  | nil => simpa [text] using hs
  | cons d dims ih =>
    rw [lackLong, List.all_cons, Bool.and_eq_true] at hdims
    have htext : s ++ text (d :: dims) = s ++ "[" ++ Token.joined d ++ "]" ++ "" ++ text dims := by
      simp [text, String.append_assoc]
    rw [htext]
    exact ih hdims.2 (lacksLong_around (by decide)
      (lacksLong_around (by decide) hs hdims.1) (by decide))

namespace WrittenType

/-- The type as it is written. -/
def text (T : WrittenType) : String := Token.spaced T.tokens

/-- Does the type not start with an empty word? -/
def isWorded (T : WrittenType) : Bool := T.tokens.head?.all (!·.text.isEmpty)

/-- Is there no `long` in a word of the type? -/
def lacksLong (T : WrittenType) : Bool := T.tokens.all fun t => WidthPolicy.lacksLong t.text

theorem text_spec (T : WrittenType) (h : T.isWorded = true) : T.spec.text = T.text := by
  obtain ⟨t, ts, ht, -⟩ := T.exists_head
  rw [isWorded, ht, List.head?_cons, Option.all_some, Bool.not_eq_true'] at h
  rw [spec, text, Token.spaced, ht]
  exact TypeSpec.text_words (TypeSpec.word {} t.text) h ts

theorem isEmpty_text (T : WrittenType) (h : T.isWorded = true) : T.text.isEmpty = false := by
  obtain ⟨t, ts, ht, -⟩ := T.exists_head
  rw [isWorded, ht, List.head?_cons, Option.all_some, Bool.not_eq_true'] at h
  rw [text, Token.spaced, ht]
  cases ts with
  | nil => simpa using h
  | cons u us => simp [String.intercalate_cons_cons]

theorem lacksLong_text (T : WrittenType) (h : T.lacksLong = true) :
    WidthPolicy.lacksLong T.text = true := by
  refine lacksLong_intercalate ?_
  rw [List.all_map]
  exact h

end WrittenType

end HeaderAtlas
