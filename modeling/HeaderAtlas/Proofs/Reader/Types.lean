import HeaderAtlas.Proofs.Reader.Tokens

/-!
# Types and parameters as they are written

A type without a body is a list of words: qualifiers, a base, operators. The reader
takes them all and joins their texts. The dimensions of an array follow the declared
name, and are added to the type of what stands before it.
-/

namespace HeaderAtlas

open Reader

/-! ## Types -/

/-- The base of a type. -/
inductive WrittenBase where
  /-- The name of a type. -/
  | plain (name : String)
  /-- A struct, a union or an enumeration that is defined elsewhere. -/
  | tagged (keyword tag : String)
  /-- `long`, with or without a second `long`, with or without `int`. -/
  | long (twice int : Bool)
  /-- `short`, with or without `int`. -/
  | short (int : Bool)
  /-- None: the qualifiers say it all, as in `unsigned *`. -/
  | implied

namespace WrittenBase

/-- The tokens of the base. -/
def tokens : WrittenBase → List Token
  | plain name => [.word name]
  | tagged keyword tag => [.word keyword, .word tag]
  | long twice int =>
    .word "long" :: ((if twice then [.word "long"] else []) ++ if int then [.word "int"] else [])
  | short int => .word "short" :: if int then [.word "int"] else []
  | implied => []

/-- May it stand between these qualifiers and marks? The name of a type is not a word that
the reader of types knows, and a tag has one of the keywords before it. -/
def isLegal (qualifiers marks : List Token) : WrittenBase → Bool
  | plain name =>
    !(["const", "unsigned", "signed", "long", "short", "struct", "union", "enum"].contains name)
  | tagged keyword _ => ["struct", "union", "enum"].contains keyword
  | long _ _ | short _ => true
  | implied => !qualifiers.isEmpty && !marks.head?.any Token.isName

/-- May the token follow the base? It is neither taken for a word of the base nor for the
start of a body. -/
def endsAt (b : WrittenBase) (t : Token) : Bool :=
  match b with
  | plain _ => true
  | tagged .. => !t.isSep "\x7b"
  | long .. | short _ => !t.isWord "long" && !t.isWord "int"
  | implied => !t.isName

end WrittenBase

/-- A type without a body. -/
structure WrittenType where
  qualifiers : List Token
  base : WrittenBase
  /-- What follows the base: operators and `const`. -/
  marks : List Token
  qualifiers_legal : qualifiers.all isQualifier = true
  base_legal : base.isLegal qualifiers marks = true
  marks_legal : marks.all isPointerPart = true

/-- The dimensions of an array, each with the tokens between its brackets. -/
abbrev Dimensions := List (List Token)

namespace Dimensions

/-- The tokens of the dimensions. -/
def tokens (dims : Dimensions) : List Token :=
  dims.flatMap fun d => .sep "[" :: d ++ [.sep "]"]

/-- There are no separators inside the brackets. -/
def areLegal (dims : Dimensions) : Bool := dims.all fun d => d.all (·.cls != .separator)

end Dimensions

namespace TypeSpec

/-- Adds words, each set apart by a blank. -/
def words (ty : TypeSpec) (ws : List Token) : TypeSpec := ws.foldl (fun ty t => ty.word t.text) ty

/-- Adds the texts of tokens as they are. -/
def texts (ty : TypeSpec) (ts : List Token) : TypeSpec := ts.foldl (fun ty t => ty.append t.text) ty

/-- Adds dimensions. -/
def dimensions (ty : TypeSpec) (dims : Dimensions) : TypeSpec :=
  dims.foldl (fun ty d => ((ty.append "[").texts d).append "]") ty

end TypeSpec

namespace WrittenType

/-- The tokens of the type. -/
def tokens (T : WrittenType) : List Token := T.qualifiers ++ T.base.tokens ++ T.marks

/-- What is read. -/
def spec (T : WrittenType) : TypeSpec := TypeSpec.words {} T.tokens

/-- The type that is the word `int`. -/
def int : WrittenType := ⟨[], .plain "int", [], rfl, rfl, rfl⟩

/-- The type that is a `...`. -/
def ellipsis : WrittenType := ⟨[], .plain "...", [], rfl, rfl, rfl⟩

/-- A struct that is defined elsewhere. -/
def struct (tag : String) : WrittenType := ⟨[], .tagged "struct" tag, [], rfl, rfl, rfl⟩

/-- The type with `const` before it. -/
def const (T : WrittenType) : WrittenType where
  qualifiers := .word "const" :: T.qualifiers
  base := T.base
  marks := T.marks
  qualifiers_legal := by
    rw [List.all_cons, T.qualifiers_legal]
    rfl
  base_legal := by
    have hlegal := T.base_legal
    cases hbase : T.base with
    | implied =>
      rw [hbase, WrittenBase.isLegal, Bool.and_eq_true] at hlegal
      exact hlegal.2
    | _ =>
      rw [hbase] at hlegal
      exact hlegal
  marks_legal := T.marks_legal

/-- The type with operators after it. -/
def pointed (T : WrittenType) (operators : List Token)
    (h : operators.all (·.cls == .operator) = true) : WrittenType where
  qualifiers := T.qualifiers
  base := T.base
  marks := T.marks ++ operators
  qualifiers_legal := T.qualifiers_legal
  base_legal := by
    have hlegal := T.base_legal
    cases hbase : T.base with
    | implied =>
      rw [hbase, WrittenBase.isLegal, Bool.and_eq_true] at hlegal
      rw [WrittenBase.isLegal, Bool.and_eq_true]
      refine ⟨hlegal.1, ?_⟩
      cases hmarks : T.marks with
      | cons m ms => simpa [hmarks] using hlegal.2
      | nil =>
        cases operators with
        | nil => rfl
        | cons t ts =>
          rw [List.all_cons, Bool.and_eq_true, beq_iff_eq] at h
          simp [Token.isName, h.1]
    | _ =>
      rw [hbase] at hlegal
      exact hlegal
  marks_legal := by
    rw [List.all_append, T.marks_legal, Bool.true_and, List.all_eq_true]
    intro t ht
    simp [isPointerPart, beq_iff_eq.mp (List.all_eq_true.mp h t ht)]

/-- The type with asterisks after it. -/
def pointer (T : WrittenType) (stars : String) : WrittenType := T.pointed [⟨.operator, stars⟩] rfl

theorem tokens_pointed (T : WrittenType) {operators : List Token}
    (h : operators.all (·.cls == .operator) = true) :
    (T.pointed operators h).tokens = T.tokens ++ operators := by
  simp [pointed, tokens]

/-- Can a name follow without being taken for the base? -/
def isComplete (T : WrittenType) : Bool :=
  match T.base with
  | .implied => !T.marks.isEmpty
  | _ => true

/-- May the token follow the type? It is not taken for a part of it. -/
def endsAt (T : WrittenType) (t : Token) : Bool :=
  !isPointerPart t && (!T.marks.isEmpty || T.base.endsAt t)

end WrittenType

/-- May the name be declared? Some words would be taken for a part of the type. -/
def isDeclarable (name : String) : Bool := !(["const", "long", "int"].contains name)

/-- A name that may be declared may be declared with any complete type. -/
theorem WrittenType.endsAt_word (T : WrittenType) {name : String} (hT : T.isComplete = true)
    (hname : isDeclarable name = true) : T.endsAt (.word name) = true := by
  simp only [isDeclarable, List.contains_cons, List.contains_nil, Bool.or_false,
    Bool.not_eq_true', Bool.or_eq_false_iff] at hname
  obtain ⟨hconst, hlong, hint⟩ := hname
  rw [endsAt, Bool.and_eq_true, Bool.or_eq_true]
  refine ⟨by simp [isPointerPart, Token.isWord, Token.word, hconst], ?_⟩
  cases hbase : T.base with
  | plain => exact .inr rfl
  | tagged => exact .inr rfl
  | long => exact .inr (by simp [WrittenBase.endsAt, Token.isWord, Token.word, hlong, hint])
  | short => exact .inr (by simp [WrittenBase.endsAt, Token.isWord, Token.word, hlong, hint])
  | implied =>
    rw [isComplete, hbase] at hT
    exact .inl hT

/-- No type goes on at a separator that opens nothing. -/
theorem WrittenType.endsAt_separator (T : WrittenType) {u : Token} (hu : u.cls = .separator)
    (hbrace : u.isSep "\x7b" = false) : T.endsAt u = true := by
  rw [endsAt, Bool.and_eq_true, Bool.or_eq_true]
  refine ⟨by simp [isPointerPart, Token.isWord, hu], .inr ?_⟩
  cases T.base <;> simp [WrittenBase.endsAt, Token.isWord, Token.isName, hu, hbrace]

namespace Reader.Takes

variable {σ : Type} [Feed σ] [LawfulFeed σ] {env : ScanEnv} {P : TokenStream σ → Prop}
  {room : Room} {ts : List Token} {t u : Token}

theorem takeRound_again {α : Type} {p : Token → Bool} {v : Token} (f : α → Token → α) (a : α)
    (ht : p t = true) :
    Takes env P room .empty (Reader.takeRound p f a) (t :: v :: ts) (v :: ts)
      (.again (f a t)) := by
  refine look_view fun w hw => ?_
  rw [hw, List.head?_cons, Option.filter_some, ht]
  exact bind advance (pure _)

theorem takeRound_done {α : Type} {p : Token → Bool} (f : α → Token → α) (a : α)
    (hu : p u = false) :
    Takes env P room room (Reader.takeRound p f a) (u :: ts) (u :: ts) (.done a) := by
  refine look_view fun w hw => ?_
  rw [hw, List.head?_cons, Option.filter_some, hu]
  exact pure _

/-- Tokens are taken up to the first one that does not belong to them. -/
theorem takeWhile {α : Type} {p : Token → Bool} {ws rest : List Token} (hroom : room ≠ .taken)
    (hws : ws.all p = true) (hrest : rest = u :: ts) (hu : p u = false) (f : α → Token → α)
    (a : α) :
    Takes env P room room (Reader.takeWhile p f a) (ws ++ rest) rest (ws.foldl f a) := by
  subst hrest
  induction ws generalizing a with
  | nil => exact loop_done (takeRound_done f a hu)
  | cons w ws ih =>
    rw [List.all_cons, Bool.and_eq_true] at hws
    obtain ⟨v, vs, hv⟩ : ∃ v vs, ws ++ u :: ts = v :: vs :=
      List.exists_cons_of_ne_nil (by simp)
    have hrest := ih hws.2 (f a w)
    rw [List.cons_append, hv] at *
    exact loop_again (progresses_takeRound p f) ((takeRound_again f a hws.1).keep hroom) hrest

theorem takeWords {p : Token → Bool} {ws rest : List Token} (hws : ws.all p = true)
    (hrest : rest = u :: ts) (hu : p u = false) (ty : TypeSpec) :
    Takes env P .any .any (Reader.takeWords p ty) (ws ++ rest) rest (ty.words ws) :=
  takeWhile (by nofun) hws hrest hu _ ty

theorem optionalWord_taken {w : String} (ty : TypeSpec) :
    Takes env P room .empty (Reader.optionalWord w ty) (.word w :: u :: ts) (u :: ts)
      (ty.word w) :=
  bind (atWord (show Token.isWord w (.word w) = true by simp [Token.word, Token.isWord]))
    (bind advance (pure _))

theorem optionalWord_absent {w : String} (hu : u.isWord w = false) (ty : TypeSpec) :
    Takes env P room room (Reader.optionalWord w ty) (u :: ts) (u :: ts) ty :=
  bind (atWord hu) (pure _)

/-- A tag without a body after it. -/
theorem readAggregate (a : Aggregate) {k tag : String} (hu : u.isSep "\x7b" = false)
    (ty : TypeSpec) :
    Takes env P room .empty (Reader.readAggregate a ty) (.word k :: .word tag :: u :: ts)
      (u :: ts) ⟨(ty.word a.keyword).word tag, true⟩ :=
  bind advance (past_gone rfl (bind (atSep hu) (pure _)))

theorem readEnum {k tag : String} (hu : u.isSep "\x7b" = false) (ty : TypeSpec) :
    Takes env P room .empty (Reader.readEnum ty) (.word k :: .word tag :: u :: ts) (u :: ts)
      ⟨(ty.word "enum").word tag, true⟩ :=
  bind advance (bind (currentName rfl) (bind advance (bind (atSep hu) (pure _))))

/-- A base is taken word by word. -/
theorem readBase {T : WrittenType} {rest : List Token} (hrest : rest = u :: ts)
    (hu : T.base.endsAt u = true) {ty : TypeSpec}
    (hty : T.base = .implied → ty.text.isEmpty = false) :
    Takes env P .any .any (Reader.readBase ty) (T.base.tokens ++ rest) rest
      ⟨ty.words T.base.tokens, true⟩ := by
  subst hrest
  have hlegal := T.base_legal
  cases hbase : T.base with
  | plain name =>
    rw [hbase] at hlegal
    simp only [WrittenBase.isLegal, List.contains_cons, List.contains_nil, Bool.or_false,
      Bool.not_eq_true', Bool.or_eq_false_iff] at hlegal
    obtain ⟨-, -, -, hlong, hshort, hstruct, hunion, henum⟩ := hlegal
    exact toAny (bind (atWord hlong) (bind (atWord hshort) (bind (atWord hstruct)
      (bind (atWord hunion) (bind (atWord henum) (bind (atName rfl) (bind take (pure _))))))))
  | tagged keyword tag =>
    rw [hbase] at hlegal
    simp only [WrittenBase.isLegal, List.contains_cons, List.contains_nil, Bool.or_false,
      Bool.or_eq_true, beq_iff_eq] at hlegal
    rw [hbase, WrittenBase.endsAt, Bool.not_eq_true'] at hu
    rcases hlegal with rfl | rfl | rfl
    · exact toAny (bind (atWord rfl) (bind (atWord rfl) (bind (atWord rfl)
        (readAggregate .struct hu ty))))
    · exact toAny (bind (atWord rfl) (bind (atWord rfl) (bind (atWord rfl) (bind (atWord rfl)
        (readAggregate .union hu ty)))))
    · exact toAny (bind (atWord rfl) (bind (atWord rfl) (bind (atWord rfl) (bind (atWord rfl)
        (bind (atWord rfl) (readEnum hu ty))))))
  | long twice int =>
    rw [hbase, WrittenBase.endsAt, Bool.and_eq_true, Bool.not_eq_true', Bool.not_eq_true'] at hu
    obtain ⟨hlong, hint⟩ := hu
    have hwords : Takes env P .any .empty (longRest (ty.word "long"))
        ((WrittenBase.long twice int).tokens ++ u :: ts) (u :: ts)
        (ty.words (WrittenBase.long twice int).tokens) := by
      cases twice <;> cases int
      · exact bind advance (bind (optionalWord_absent hlong _) (optionalWord_absent hint _))
      · exact bind advance (bind (optionalWord_absent rfl _) (optionalWord_taken _))
      · exact bind advance (bind (optionalWord_taken _) (optionalWord_absent hint _))
      · exact bind advance (bind (optionalWord_taken _) (optionalWord_taken _))
    exact toAny (bind (atWord rfl) (bind hwords (pure _)))
  | short int =>
    rw [hbase, WrittenBase.endsAt, Bool.and_eq_true, Bool.not_eq_true', Bool.not_eq_true'] at hu
    obtain ⟨-, hint⟩ := hu
    have hwords : Takes env P .any .empty (shortRest (ty.word "short"))
        ((WrittenBase.short int).tokens ++ u :: ts) (u :: ts)
        (ty.words (WrittenBase.short int).tokens) := by
      cases int
      · exact bind advance (optionalWord_absent hint _)
      · exact bind advance (optionalWord_taken _)
    exact toAny (bind (atWord rfl) (bind (atWord rfl) (bind hwords (pure _))))
  | implied =>
    have hname : u.isName = false := by simpa [hbase, WrittenBase.endsAt] using hu
    have hword : ∀ w, u.isWord w = false := by
      rw [Token.isName] at hname
      simp [Token.isWord, hname]
    refine bind (atWord (hword _)) (bind (atWord (hword _)) (bind (atWord (hword _))
      (bind (atWord (hword _)) (bind (atWord (hword _)) (bind (atName hname) ?_)))))
    rw [if_neg Bool.false_ne_true, if_neg (by simp [hty hbase])]
    exact pure _

/-! ## Dimensions -/

/-- All dimensions up to the first token that starts none. -/
theorem readDimensions {dims : Dimensions} (hdims : dims.areLegal = true)
    (hu : u.isSep "[" = false) (ty : TypeSpec) :
    Takes env P .empty .empty (Reader.readDimensions ty) (dims.tokens ++ u :: ts) (u :: ts)
      (ty.dimensions dims, true) := by
  rw [readDimensions_eq]
  induction dims generalizing ty with
  | nil => exact loop_done (bind (atSep hu) (pure _))
  | cons d dims ih =>
    rw [Dimensions.areLegal, List.all_cons, Bool.and_eq_true] at hdims
    have hrest := ih hdims.2 (((ty.append "[").texts d).append "]")
    have htokens : Dimensions.tokens (d :: dims) ++ u :: ts
        = .sep "[" :: (d ++ .sep "]" :: (Dimensions.tokens dims ++ u :: ts)) := by
      simp [Dimensions.tokens]
    rw [htokens]
    refine loop_again progresses_dimensionRound (bind (atSep rfl) (bind (advance_of_ne ?_)
      (bind (takeWhile (by nofun) hdims.1 rfl rfl _ _) (bind (atSep rfl)
        (bind (advance_of_ne ?_) (pure _)))))) hrest
    · simp
    · simp

/-- The dimensions after a name are added to its type, and the name is put back. -/
theorem readSuffix {dims : Dimensions} (hdims : dims.areLegal = true) (ht : t.isName = true)
    (hu : u.isSep "[" = false) (hcolon : u.isSep ":" = false) (ty : TypeSpec) :
    Takes env P room .taken (Reader.readSuffix ty) (t :: (dims.tokens ++ u :: ts)) (t :: u :: ts)
      (ty.dimensions dims) := by
  cases dims with
  | nil => exact past_back ht (bind (atSep hu) (bind (atSep hcolon) (pure _))) (by simp)
  | cons d dims => exact past_back ht (bind (atSep rfl) (readDimensions hdims hu ty)) (by simp)

/-! ## Whole types -/

/-- No base goes on at an operator or at `const`. -/
theorem endsAt_of_isPointerPart {b : WrittenBase} (h : isPointerPart t = true)
    (himplied : b = .implied → t.isName = false) : b.endsAt t = true := by
  simp only [isPointerPart, Token.isWord, Bool.or_eq_true, Bool.and_eq_true, beq_iff_eq] at h
  cases b with
  | plain => rfl
  | implied => rw [WrittenBase.endsAt, himplied rfl]; rfl
  | tagged => rcases h with h | ⟨h, -⟩ <;> simp [WrittenBase.endsAt, Token.isSep, h]
  | long =>
    rcases h with h | ⟨hcls, htext⟩
    · simp [WrittenBase.endsAt, Token.isWord, h]
    · simp [WrittenBase.endsAt, Token.isWord, hcls, htext]
  | short =>
    rcases h with h | ⟨hcls, htext⟩
    · simp [WrittenBase.endsAt, Token.isWord, h]
    · simp [WrittenBase.endsAt, Token.isWord, hcls, htext]

/-- What comes after the base is not taken for a part of it. -/
theorem exists_afterBase (T : WrittenType) (ts : List Token) (hu : T.endsAt u = true) :
    ∃ v vs, T.marks ++ u :: ts = v :: vs ∧ T.base.endsAt v = true := by
  have hmarks := T.marks_legal
  have hlegal := T.base_legal
  rw [WrittenType.endsAt, Bool.and_eq_true] at hu
  cases hm : T.marks with
  | nil => exact ⟨u, ts, rfl, by simpa [hm] using hu.2⟩
  | cons m ms =>
    rw [hm, List.all_cons, Bool.and_eq_true] at hmarks
    refine ⟨m, ms ++ u :: ts, rfl, endsAt_of_isPointerPart hmarks.1 fun himplied => ?_⟩
    rw [himplied, WrittenBase.isLegal, hm] at hlegal
    simpa using (Bool.and_eq_true_iff.mp hlegal).2

/-- What comes after the qualifiers is none. -/
theorem exists_afterQualifiers (T : WrittenType) {v : Token} (vs : List Token)
    (hv : T.base.endsAt v = true) :
    ∃ b bs, T.base.tokens ++ v :: vs = b :: bs ∧ isQualifier b = false := by
  have hlegal := T.base_legal
  cases hbase : T.base with
  | plain name =>
    refine ⟨_, _, rfl, ?_⟩
    rw [hbase] at hlegal
    simp only [WrittenBase.isLegal, List.contains_cons, List.contains_nil, Bool.or_false,
      Bool.not_eq_true', Bool.or_eq_false_iff] at hlegal
    obtain ⟨hconst, hunsigned, hsigned, -⟩ := hlegal
    simp [isQualifier, Token.isWord, Token.word, hconst, hunsigned, hsigned]
  | tagged keyword tag =>
    refine ⟨_, _, rfl, ?_⟩
    rw [hbase] at hlegal
    simp only [WrittenBase.isLegal, List.contains_cons, List.contains_nil, Bool.or_false,
      Bool.or_eq_true, beq_iff_eq] at hlegal
    rcases hlegal with rfl | rfl | rfl <;> rfl
  | long twice int => exact ⟨_, _, rfl, rfl⟩
  | short int => exact ⟨_, _, rfl, rfl⟩
  | implied =>
    have hname : v.isName = false := by simpa [hbase, WrittenBase.endsAt] using hv
    rw [Token.isName] at hname
    exact ⟨v, vs, rfl, by simp [isQualifier, Token.isWord, hname]⟩

theorem isEmpty_words {ws : List Token} (hws : ws.all isQualifier = true) (ty : TypeSpec)
    (h : ws ≠ [] ∨ ty.text.isEmpty = false) : (ty.words ws).text.isEmpty = false := by
  induction ws generalizing ty with
  | nil => exact h.resolve_left (· rfl)
  | cons w ws ih =>
    rw [List.all_cons, Bool.and_eq_true] at hws
    refine ih hws.2 (ty.word w.text) (.inr ?_)
    have hqualifier := hws.1
    simp only [isQualifier, Token.isWord, Bool.or_eq_true, Bool.and_eq_true, beq_iff_eq] at hqualifier
    dsimp only [TypeSpec.word]
    split
    · rcases hqualifier with (⟨-, h⟩ | ⟨-, h⟩) | ⟨-, h⟩ <;> rw [h] <;> decide
    · simp

/-- All words of a type are taken. -/
theorem wholeType (T : WrittenType) {ts' : List Token} {ty : TypeSpec} (hu : T.endsAt u = true)
    (h : Takes env P .any room (Reader.readRest T.spec) (u :: ts) ts' ty) :
    Takes env P .any room Reader.wholeType (T.tokens ++ u :: ts) ts' ty := by
  obtain ⟨v, vs, hv, hends⟩ := exists_afterBase T ts hu
  obtain ⟨b, bs, hb, hqualifier⟩ := exists_afterQualifiers T vs hends
  have hmark : isPointerPart u = false := by
    rw [WrittenType.endsAt, Bool.and_eq_true, Bool.not_eq_true'] at hu
    exact hu.1
  have hwords : T.spec = ((TypeSpec.words {} T.qualifiers).words T.base.tokens).words T.marks := by
    simp only [WrittenType.spec, WrittenType.tokens, TypeSpec.words, List.foldl_append]
  have htokens : T.tokens ++ u :: ts
      = T.qualifiers ++ (T.base.tokens ++ (T.marks ++ u :: ts)) := by
    rw [WrittenType.tokens, List.append_assoc, List.append_assoc]
  have htext : T.base = .implied → (TypeSpec.words {} T.qualifiers).text.isEmpty = false := by
    intro hbase
    have hlegal := T.base_legal
    rw [hbase, WrittenBase.isLegal, Bool.and_eq_true, Bool.not_eq_true', List.isEmpty_eq_false_iff]
      at hlegal
    exact isEmpty_words T.qualifiers_legal {} (.inl hlegal.1)
  rw [htokens]
  refine bind (atEnd_of_ne (by simp)) (bind (takeWords T.qualifiers_legal (hv ▸ hb) hqualifier {})
    (bind (readBase hv hends htext)
      (bind (takeWords T.marks_legal rfl hmark _) (hwords ▸ h))))

/-- A type with nothing declared in it. -/
theorem wholeType_bare (T : WrittenType) (hu : u.cls = .separator) (hopen : u.isSep "(" = false)
    (hbrace : u.isSep "\x7b" = false) :
    Takes env P .any .any Reader.wholeType (T.tokens ++ u :: ts) (u :: ts) T.spec := by
  have hname : u.isName = false := by simp [Token.isName, hu]
  exact wholeType T (T.endsAt_separator hu hbrace)
    (bind (atSep hopen) (bind (atName hname) (pure _)))

/-- A type with a name declared in it, which is left as the current token. -/
theorem wholeType_named (T : WrittenType) {name : String} {dims : Dimensions}
    (hT : T.endsAt (.word name) = true) (hdims : dims.areLegal = true)
    (hu : u.isSep "[" = false) (hcolon : u.isSep ":" = false) :
    Takes env P .any .taken Reader.wholeType
      (T.tokens ++ .word name :: (dims.tokens ++ u :: ts)) (.word name :: u :: ts)
      (T.spec.dimensions dims) :=
  wholeType T hT (bind (atSep rfl) (bind (atName rfl) (readSuffix hdims rfl hu hcolon _)))

end Reader.Takes

/-- A type starts with a name. -/
theorem WrittenType.exists_head (T : WrittenType) :
    ∃ t ts, T.tokens = t :: ts ∧ t.isName = true := by
  have hq := T.qualifiers_legal
  have hlegal := T.base_legal
  unfold tokens
  cases h : T.qualifiers with
  | cons q qs =>
    rw [h, List.all_cons, Bool.and_eq_true] at hq
    refine ⟨q, _, rfl, ?_⟩
    simp only [isQualifier, Token.isWord, Bool.or_eq_true, Bool.and_eq_true] at hq
    simp only [Token.isName]
    rcases hq.1 with (h | h) | h <;> exact h.1
  | nil =>
    rw [h] at hlegal
    cases hbase : T.base with
    | implied => rw [hbase] at hlegal; cases hlegal
    | plain name => exact ⟨_, _, rfl, rfl⟩
    | tagged keyword tag => exact ⟨_, _, rfl, rfl⟩
    | long twice int => exact ⟨_, _, rfl, rfl⟩
    | short int => exact ⟨_, _, rfl, rfl⟩

/-! ## Parameters -/

/-- A parameter. -/
inductive WrittenParam where
  /-- A type and no name. -/
  | bare (type : WrittenType)
  /-- A type, a name and its dimensions. -/
  | named (type : WrittenType) (name : String) (dims : Dimensions)
  /-- A pointer to a function: the type of its result, the asterisks before its name, and
  its own parameters. -/
  | pointer (type : WrittenType) (stars : List Token) (name : String) (params : List WrittenParam)

namespace WrittenParam

mutual

/-- The tokens of the parameter. -/
def tokens : WrittenParam → List Token
  | bare T => T.tokens
  | named T name dims => T.tokens ++ .word name :: dims.tokens
  | pointer T stars name ps =>
    T.tokens ++ .sep "(" :: (stars ++ .word name :: .sep ")" :: .sep "(" :: listTokens ps)

/-- The tokens of a parameter list from after its opening parenthesis. -/
def listTokens : List WrittenParam → List Token
  | [] => [.sep ")"]
  | p :: ps => p.tokens ++ moreTokens ps

/-- The tokens of a parameter list from after one of its parameters. -/
def moreTokens : List WrittenParam → List Token
  | [] => [.sep ")"]
  | p :: ps => .sep "," :: (p.tokens ++ moreTokens ps)

end

mutual

/-- Can it be read? -/
def isLegal : WrittenParam → Bool
  | bare _ => true
  | named T name dims => T.isComplete && isDeclarable name && dims.areLegal
  | pointer _ stars _ ps => stars.all isStars && areLegal ps

/-- Can they all be read? -/
def areLegal : List WrittenParam → Bool
  | [] => true
  | p :: ps => p.isLegal && areLegal ps

end

/-- The name, if there is one. -/
def name? : WrittenParam → Option String
  | bare _ => none
  | named _ name _ => some name
  | pointer _ _ name _ => some name

/-- The text of the type. -/
def text : WrittenParam → String
  | bare T => T.spec.text
  | named T _ dims => (T.spec.dimensions dims).text
  | pointer T stars name _ => ((((T.spec.append "(").texts stars).append name).append ")").text

/-- What is read. -/
def params (p : WrittenParam) : List Param :=
  match p.name? with
  | some name => [⟨p.text, some name, none⟩]
  | none => bareParam p.text

/-- The type that is read. -/
def spec : WrittenParam → TypeSpec
  | bare T => T.spec
  | named T _ dims => T.spec.dimensions dims
  | pointer T stars name ps =>
    { (((T.spec.append "(").texts stars).append name).append ")" with
      signature := some (ps.flatMap params) }

theorem text_spec (p : WrittenParam) : p.spec.text = p.text := by
  cases p <;> rfl

/-- A parameter starts with a name. -/
theorem exists_head (p : WrittenParam) (ts : List Token) :
    ∃ t us, p.tokens ++ ts = t :: us ∧ t.isSep ")" = false := by
  have hhead : ∃ T more, p.tokens = WrittenType.tokens T ++ more := by
    cases p with
    | bare T => exact ⟨T, [], by rw [tokens, List.append_nil]⟩
    | named T name dims => exact ⟨T, _, by rw [tokens]⟩
    | pointer T stars name ps => exact ⟨T, _, by rw [tokens]⟩
  obtain ⟨T, more, htokens⟩ := hhead
  obtain ⟨t, us, ht, hname⟩ := T.exists_head
  rw [Token.isName, beq_iff_eq] at hname
  refine ⟨t, us ++ more ++ ts, ?_, by simp [Token.isSep, hname]⟩
  rw [htokens, ht, List.cons_append, List.cons_append]

end WrittenParam

namespace Reader.Takes

variable {σ : Type} [Feed σ] [LawfulFeed σ] {env : ScanEnv} {P : TokenStream σ → Prop}
  {ts : List Token} {t u : Token}

/-- A pointer to a function, given how its parameters are read. -/
theorem readFunctionPointer {stars : List Token} {name : String} {ps : List WrittenParam}
    (hstars : stars.all isStars = true)
    (hps : Takes env P .any .empty Reader.readParams (WrittenParam.listTokens ps ++ u :: ts)
      (u :: ts) (ps.flatMap WrittenParam.params)) (ty : TypeSpec) :
    Takes env P .any .taken (Reader.readFunctionPointer ty)
      (.sep "(" :: (stars ++ .word name :: .sep ")" :: .sep "("
        :: (WrittenParam.listTokens ps ++ u :: ts)))
      (.word name :: u :: ts)
      { (((ty.append "(").texts stars).append name).append ")" with
        signature := some (ps.flatMap WrittenParam.params) } := by
  have hne : WrittenParam.listTokens ps ++ u :: ts ≠ [] := by simp
  exact bind (advance_of_ne (by simp)) (bind (takeWhile (by nofun) hstars rfl rfl _ _)
    (past_back rfl (bind (atSep rfl) (bind advance (bind (atSep rfl) (bind (advance_of_ne hne)
      (bind hps.ofAny (pure _)))))) (List.cons_ne_nil u ts)))

/-- A declared name with its type, given how the parameters inside it are read. -/
theorem wholeType_declared {p : WrittenParam} {name : String} (hp : p.isLegal = true)
    (hname : p.name? = some name) (hu : u.isSep "[" = false) (hcolon : u.isSep ":" = false)
    (hps : ∀ T stars ps, p = .pointer T stars name ps →
      Takes env P .any .empty Reader.readParams (WrittenParam.listTokens ps ++ u :: ts) (u :: ts)
        (ps.flatMap WrittenParam.params)) :
    Takes env P .any .taken Reader.wholeType (p.tokens ++ u :: ts) (.word name :: u :: ts)
      p.spec := by
  cases p with
  | bare T => cases hname
  | named T _ dims =>
    cases hname
    rw [WrittenParam.isLegal, Bool.and_eq_true, Bool.and_eq_true] at hp
    rw [WrittenParam.tokens, List.append_assoc]
    exact wholeType_named T (T.endsAt_word hp.1.1 hp.1.2) hp.2 hu hcolon
  | pointer T stars _ ps =>
    cases hname
    rw [WrittenParam.isLegal, Bool.and_eq_true] at hp
    have htokens : WrittenParam.tokens (.pointer T stars name ps) ++ u :: ts
        = T.tokens ++ .sep "(" :: (stars ++ .word name :: .sep ")" :: .sep "("
          :: (WrittenParam.listTokens ps ++ u :: ts)) := by
      simp [WrittenParam.tokens]
    rw [htokens]
    exact wholeType T (T.endsAt_separator rfl rfl) (bind (atSep rfl)
      (readFunctionPointer hp.1 (hps T stars ps rfl) T.spec))

/-- One round over a parameter, given how the parameters inside it are read. -/
theorem paramRound {p : WrittenParam} (hp : p.isLegal = true)
    (hu : u = .sep "," ∨ u = .sep ")") (hne : ts ≠ [])
    (hps : ∀ T stars name ps, p = .pointer T stars name ps →
      Takes env P .any .empty Reader.readParams (WrittenParam.listTokens ps ++ u :: ts) (u :: ts)
        (ps.flatMap WrittenParam.params)) (ps : List Param) :
    Takes env P .any .empty (Reader.paramRound ps) (p.tokens ++ u :: ts) ts
      (if u = .sep "," then .again (ps ++ p.params) else .done (ps ++ p.params)) := by
  have hsep : u.cls = .separator ∧ u.isSep "(" = false ∧ u.isSep "\x7b" = false
      ∧ u.isSep "[" = false ∧ u.isSep ":" = false := by
    rcases hu with rfl | rfl <;> decide
  -- What comes after the type and the name is the same in all cases.
  have hend : ∀ room, Takes env P room .empty (endParam (ps ++ p.params)) (u :: ts) ts
      (if u = .sep "," then .again (ps ++ p.params) else .done (ps ++ p.params)) := by
    intro room
    rcases hu with rfl | rfl
    · exact bind (atSep rfl) (bind (advance_of_ne hne) (pure _))
    · exact bind (atSep rfl) (bind (atSep rfl) (bind (advance_of_ne hne) (pure _)))
  rw [paramRound_eq]
  refine bind (atEnd_of_ne (by simp)) ?_
  cases hname : p.name? with
  | some name =>
    have htype := wholeType_declared hp hname hsep.2.2.2.1 hsep.2.2.2.2
      fun T stars ps h => hps T stars name ps h
    have hparams : p.params = [⟨p.spec.text, some name, none⟩] := by
      rw [WrittenParam.params, hname, p.text_spec]
    rw [hparams] at hend ⊢
    exact bind (call htype) (bind (currentName rfl) (bind advance (bind (pure _) (hend _))))
  | none =>
    cases p with
    | bare T =>
      have htype : Takes env P .any .any Reader.wholeType (T.tokens ++ u :: ts) (u :: ts) T.spec :=
        wholeType_bare T hsep.1 hsep.2.1 hsep.2.2.1
      refine bind (call htype) ?_
      rcases hu with rfl | rfl
      · exact bind (currentName rfl) (bind (atSep rfl) (bind (atSep rfl) (bind (pure _) (hend _))))
      · exact bind (currentName rfl) (bind (atSep rfl) (bind (atSep rfl) (bind (pure _) (hend _))))
    | named => cases hname
    | pointer => cases hname

/-- A parameter list is empty or read by a loop. -/
theorem readParams_of_loop {ps : List WrittenParam} (hne : ts ≠ [])
    (h : ∀ p qs, ps = p :: qs → Takes env P .any .empty (.loop Reader.paramRound [])
      (p.tokens ++ (WrittenParam.moreTokens qs ++ ts)) ts (ps.flatMap WrittenParam.params)) :
    Takes env P .any .empty Reader.readParams (WrittenParam.listTokens ps ++ ts) ts
      (ps.flatMap WrittenParam.params) := by
  cases ps with
  | nil =>
    rw [WrittenParam.listTokens]
    exact bind (atSep rfl) (bind (advance_of_ne hne) (pure _))
  | cons p qs =>
    have hloop := h p qs rfl
    obtain ⟨v, vs, hv, hsep⟩ := p.exists_head (WrittenParam.moreTokens qs ++ ts)
    rw [WrittenParam.listTokens, List.append_assoc]
    rw [hv] at hloop ⊢
    exact bind (atSep hsep) hloop

/-- The rounds over a parameter and those after it. The parameters of a function pointer
are read in the same way. -/
theorem loop_paramRound (p : WrittenParam) (qs : List WrittenParam)
    (hlegal : WrittenParam.areLegal (p :: qs) = true) {ts : List Token} (hne : ts ≠ [])
    (ps : List Param) :
    Takes env P .any .empty (.loop Reader.paramRound ps)
      (p.tokens ++ (WrittenParam.moreTokens qs ++ ts)) ts
      (ps ++ (p :: qs).flatMap WrittenParam.params) := by
  rw [WrittenParam.areLegal, Bool.and_eq_true] at hlegal
  have hinside : ∀ T stars name ps' (u : Token) us, p = .pointer T stars name ps' →
      Takes env P .any .empty Reader.readParams (WrittenParam.listTokens ps' ++ u :: us) (u :: us)
        (ps'.flatMap WrittenParam.params) := by
    rintro T stars name ps' u us rfl
    have hlegal' := hlegal.1
    rw [WrittenParam.isLegal, Bool.and_eq_true] at hlegal'
    refine readParams_of_loop (List.cons_ne_nil u us) fun p' qs' h => ?_
    subst h
    exact loop_paramRound p' qs' hlegal'.2 (List.cons_ne_nil u us) []
  cases qs with
  | nil =>
    rw [WrittenParam.moreTokens, List.flatMap_singleton]
    exact loop_done (paramRound hlegal.1 (.inr rfl) hne
      (fun T stars name ps' => hinside T stars name ps' _ _) ps)
  | cons q qs =>
    have hrest := loop_paramRound q qs hlegal.2 hne (ps ++ p.params)
    rw [List.append_assoc] at hrest
    rw [WrittenParam.moreTokens, List.cons_append, List.append_assoc, List.flatMap_cons]
    obtain ⟨v, vs, hv, -⟩ := q.exists_head (WrittenParam.moreTokens qs ++ ts)
    have hne' : q.tokens ++ (WrittenParam.moreTokens qs ++ ts) ≠ [] := by
      rw [hv]
      exact List.cons_ne_nil v vs
    have hround := paramRound hlegal.1 (.inl rfl) hne'
      (fun T stars name ps' => hinside T stars name ps' _ _) ps
    exact loop_again progresses_paramRound hround hrest.ofAny
termination_by sizeOf p + sizeOf qs

/-- A parameter list from after its opening parenthesis. -/
theorem readParams {ps : List WrittenParam} (hlegal : WrittenParam.areLegal ps = true)
    (hne : ts ≠ []) :
    Takes env P .any .empty Reader.readParams (WrittenParam.listTokens ps ++ ts) ts
      (ps.flatMap WrittenParam.params) := by
  refine readParams_of_loop hne fun p qs h => ?_
  subst h
  exact loop_paramRound p qs hlegal hne []

/-- A declared name with its type. -/
theorem readType_declared {p : WrittenParam} {name : String} (hp : p.isLegal = true)
    (hname : p.name? = some name) (hu : u.isSep "[" = false) (hcolon : u.isSep ":" = false) :
    Takes env P .any .taken Reader.readType (p.tokens ++ u :: ts) (.word name :: u :: ts)
      p.spec := by
  refine call (r := .type) (wholeType_declared hp hname hu hcolon ?_)
  rintro T stars ps rfl
  rw [WrittenParam.isLegal, Bool.and_eq_true] at hp
  exact readParams hp.2 (List.cons_ne_nil u ts)

end Reader.Takes

end HeaderAtlas
