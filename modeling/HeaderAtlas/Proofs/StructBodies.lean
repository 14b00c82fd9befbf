import HeaderAtlas.Proofs.Reader.Comments
import HeaderAtlas.Proofs.Reader.TypeTexts

/-!
# The bodies of structs and unions

A struct or a union that is defined with a body is recorded with the fields of the body, in
order, and the fields of a body inside it are nested in theirs (`fields_of_body`). The comment
that describes a field comes after its `;`, so it is taken in when the reader goes on to the next
field or to the closing brace, and it has to be shown that it is used up before anything else
is read. The tag of a body inside is put back after the body, and read again.

The width policy looks at the types of the fields of a struct, but not at those nested in them.
A dimension in which a `long` comes about is refused (`refused_of_splitDimension`).
-/

namespace HeaderAtlas

open Ending Reader WidthPolicy

/-! ## What is written -/

/-- What follows the name of a field. -/
inductive FieldSuffix where
  | array (dims : Dimensions)
  /-- The width of a bit-field. -/
  | width (token : Token)

namespace FieldSuffix

/-- The tokens of the suffix. -/
def tokens : FieldSuffix → List Token
  | array dims => dims.tokens
  | width t => [.sep ":", t]

/-- What is added to the type. -/
def text : FieldSuffix → String
  | array dims => dims.text
  | width _ => ""

/-- Can it be read? -/
def isLegal : FieldSuffix → Bool
  | array dims => dims.areLegal
  | width _ => true

/-- Does no `long` come about in it? -/
def lacksLong : FieldSuffix → Bool
  | array dims => dims.lackLong
  | width _ => true

end FieldSuffix

/-- A field, with the comment after it. -/
inductive WrittenField where
  | plain (type : WrittenType) (name : String) (suffix : FieldSuffix) (comment : Option String)
  /-- A struct or a union that is defined in place. -/
  | inner (kind : Aggregate) (tag : Option String) (fields : List WrittenField) (name : String)
    (comment : Option String)

namespace WrittenField

/-- The tag as a token. -/
def tagTokens (tag : Option String) : List Token := tag.toList.map .word

mutual

/-- The tokens of the field and its comment. -/
def tokens : WrittenField → List Token
  | plain T name suffix comment =>
    T.tokens ++ .word name :: (suffix.tokens ++ .sep ";" :: Token.comments comment)
  | inner a tag fs name comment =>
    .word a.keyword :: (tagTokens tag ++ .sep "\x7b" :: (listTokens fs
      ++ .sep "\x7d" :: .word name :: .sep ";" :: Token.comments comment))

/-- The tokens of several fields. -/
def listTokens : List WrittenField → List Token
  | [] => []
  | f :: fs => f.tokens ++ listTokens fs

end

mutual

/-- Can it be read? The name is not taken for a part of the type (after the name of a type or a
tag, only `const` would be), and all tokens but the comments are handed on as they are. -/
def isLegal (g : GrammarSettings) : WrittenField → Bool
  | plain T name suffix _ =>
    T.endsAt (.word name) && T.isWorded && suffix.isLegal
      && (T.tokens ++ .word name :: suffix.tokens).all g.passes
  | inner a tag fs name _ =>
    (.word a.keyword :: .word name :: tagTokens tag).all g.passes && areLegal g fs

/-- Can they all be read? -/
def areLegal (g : GrammarSettings) : List WrittenField → Bool
  | [] => true
  | f :: fs => f.isLegal g && areLegal g fs

end

/-- The description that a comment amounts to, if anything is left of it. -/
def described (comment : Option String) : Option String :=
  comment.map DocBlock.cleaned |>.filter (!·.isEmpty)

/-- The type of what is defined in place. -/
def innerType (a : Aggregate) : Option String → String
  | some tag => a.keyword ++ " " ++ tag
  | none => a.keyword

mutual

/-- The field that is declared. -/
def field : WrittenField → Field
  | plain T name suffix comment => ⟨T.text ++ suffix.text, name, described comment, []⟩
  | inner a tag fs name comment => ⟨innerType a tag, name, described comment, fields fs⟩

/-- The fields that are declared. -/
def fields : List WrittenField → List Field
  | [] => []
  | f :: fs => f.field :: fields fs

end

/-- Is there no `long` in the type, and does none come about in it? -/
def lacksLong : WrittenField → Bool
  | plain T _ suffix _ => T.lacksLong && suffix.lacksLong
  | inner _ tag _ _ _ => tag.all WidthPolicy.lacksLong

theorem lacksLong_field (f : WrittenField) (h : f.lacksLong = true) :
    WidthPolicy.lacksLong f.field.type = true := by
  cases f with
  | plain T name suffix comment =>
    rw [lacksLong, Bool.and_eq_true] at h
    rw [field]
    cases suffix with
    | array dims => exact dims.lacksLong_append h.2 (T.lacksLong_text h.1)
    | width t =>
      rw [FieldSuffix.text, String.append_empty]
      exact T.lacksLong_text h.1
  | inner a tag fs name comment =>
    have hkeyword : WidthPolicy.lacksLong a.keyword = true := by cases a <;> decide
    rw [field]
    cases tag with
    | none => exact hkeyword
    | some tag => exact lacksLong_around (by decide) hkeyword h

/-- The policy has nothing against the fields. -/
theorem tolerated {fs : List WrittenField} (h : fs.all lacksLong = true) (w : WidthSettings)
    (name : String) : inStruct? w name (fields fs) = none := by
  induction fs with
  | nil => rfl
  | cons f fs ih =>
    rw [List.all_cons, Bool.and_eq_true] at h
    have hrest : (fields fs).findSome? _ = none := ih h.2
    rw [inStruct?, fields, List.findSome?_cons,
      isPlainLong_of_lacksLong (f.lacksLong_field h.1), Bool.false_and,
      if_neg Bool.false_ne_true]
    exact hrest

end WrittenField

variable {σ : Type} [Feed σ] [LawfulFeed σ] {env : ScanEnv} {room : Room} {t u : Token}
  {ts rest : List Token}

/-! ## What is read -/

namespace WrittenField

/-- A field starts with a name. -/
theorem exists_head {g : GrammarSettings} (f : WrittenField) (hlegal : f.isLegal g = true)
    (ts : List Token) :
    ∃ t us, f.tokens ++ ts = t :: us ∧ t.isName = true ∧ g.passes t = true := by
  cases f with
  | plain T name suffix comment =>
    obtain ⟨t, us, ht, hname⟩ := T.exists_head
    rw [isLegal, Bool.and_eq_true, List.all_append, ht, List.all_cons] at hlegal
    rw [tokens, ht]
    exact ⟨t, _, rfl, hname, by simp_all⟩
  | inner a tag fs name comment =>
    rw [isLegal, List.all_cons] at hlegal
    rw [tokens]
    exact ⟨_, _, rfl, rfl, by simp_all⟩

/-- What comes after the opening brace is handed on as it is. -/
theorem exists_first {g : GrammarSettings} (fs : List WrittenField) (hlegal : areLegal g fs = true)
    (ts : List Token) :
    ∃ t us, listTokens fs ++ .sep "\x7d" :: ts = t :: us ∧ g.passes t = true := by
  cases fs with
  | nil => exact ⟨_, _, rfl, rfl⟩
  | cons f fs =>
    rw [areLegal, Bool.and_eq_true] at hlegal
    obtain ⟨t, us, ht, -, hpasses⟩ :=
      f.exists_head hlegal.1 (listTokens fs ++ .sep "\x7d" :: ts)
    exact ⟨t, us, by rw [listTokens, List.append_assoc, ht], hpasses⟩

end WrittenField

namespace Reader

open WrittenField

/-- The width of a bit-field is passed over, and the name before it is put back. -/
theorem Takes.readSuffix_width {P : TokenStream σ → Prop} {w : Token} (ht : t.isName = true)
    (ty : TypeSpec) :
    Takes env P room .taken (Reader.readSuffix ty) (t :: .sep ":" :: w :: u :: ts) (t :: u :: ts)
      ty :=
  past_back ht (bind (atSep rfl) (bind (atSep rfl) (bind advance (bind advance (pure _)))))
    (List.cons_ne_nil u ts)

/-- The type of a field and what follows its name. -/
theorem Takes.wholeType_plain {P : TokenStream σ → Prop} {T : WrittenType} {name : String}
    {suffix : FieldSuffix} (hT : T.endsAt (.word name) = true) (hworded : T.isWorded = true)
    (hsuffix : suffix.isLegal = true) :
    Takes env P .any .taken Reader.wholeType
      (T.tokens ++ .word name :: (suffix.tokens ++ [.sep ";"])) [.word name, .sep ";"]
      { text := T.text ++ suffix.text } := by
  cases suffix with
  | array dims =>
    have hspec : T.spec.dimensions dims = { text := T.text ++ dims.text } := by
      rw [T.spec_dimensions, TypeSpec.text_dimensions, T.text_spec hworded]
    rw [FieldSuffix.text, ← hspec]
    exact wholeType_named T hT hsuffix rfl rfl
  | width w =>
    have hspec : T.spec = { text := T.text ++ "" } := by
      rw [String.append_empty, ← T.text_spec hworded]
      exact T.spec_dimensions []
    rw [FieldSuffix.text, ← hspec]
    exact wholeType T hT (bind (atSep rfl) (bind (atName rfl) (readSuffix_width rfl _)))

namespace Reads

/-- A field ends at its `;`, and the comment after that describes it. -/
theorem endField {comment : Option String} (hu : env.settings.grammar.passes u = true)
    (acc : List Field) (type name : String) (nested : List Field) :
    Reads σ env .any .empty (do
        Reader.dropComment
        Reader.advance
        let description ← takeComment
        return Round.again (acc ++ [⟨type, name, description, nested⟩]))
      (.sep ";" :: (Token.comments comment ++ u :: rest)) (u :: rest)
      (.again (acc ++ [⟨type, name, WrittenField.described comment, nested⟩])) := by
  intro s hs
  -- The comment is taken in with the next token, when no other one is pending.
  obtain ⟨hcurrent, hstream, hheld, hcontext, hfindings⟩ :=
    Scanner.advance_cell (s := s.forget)
      ((Cell.isLegal_commented comment u).trans hu) (Cell.isQuiet_commented comment u)
      (by rw [Cell.allTokens_commented]; exact hs.stream)
  have hcomment : (s.forget.advance env).comment = comment := by
    refine (congrArg Context.comment hcontext).trans ?_
    cases comment <;> rfl
  refine ⟨(s.forget.advance env).forget, ?_, ⟨hcurrent, hstream, hheld⟩, hfindings⟩
  rw [← hcomment]
  rfl

/-- A field that is not defined in place. -/
theorem fieldRound_plain (a : Aggregate) {T : WrittenType} {name : String} {suffix : FieldSuffix}
    {comment : Option String} (hT : T.endsAt (.word name) = true) (hworded : T.isWorded = true)
    (hsuffix : suffix.isLegal = true)
    (hpasses : (T.tokens ++ .word name :: suffix.tokens).all env.settings.grammar.passes = true)
    (hu : env.settings.grammar.passes u = true) (acc : List Field) :
    Reads σ env .any .empty (Reader.fieldRound a acc)
      ((plain T name suffix comment).tokens ++ u :: rest) (u :: rest)
      (.again (acc ++ [(plain T name suffix comment).field])) := by
  obtain ⟨t, ts, ht, hname⟩ := T.exists_head
  have hsep : ∀ sep, t.isSep sep = false := by
    rw [Token.isName, beq_iff_eq] at hname
    simp [Token.isSep, hname]
  have htokens : (plain T name suffix comment).tokens ++ u :: rest
      = t :: ((ts ++ .word name :: (suffix.tokens ++ [.sep ";"]))
        ++ (Token.comments comment ++ u :: rest)) := by
    simp [tokens, ht]
  have hall : (t :: (ts ++ .word name :: (suffix.tokens ++ [.sep ";"]))).all
      env.settings.grammar.passes = true := by
    have hsemicolon : env.settings.grammar.passes (.sep ";") = true := rfl
    rw [ht] at hpasses
    simp_all
  have htype : Takes env
      (fun st : TokenStream σ => st.Supplies (Token.comments comment ++ u :: rest)) .any .taken
      readType (t :: (ts ++ .word name :: (suffix.tokens ++ [.sep ";"])))
      [.word name, .sep ";"] { text := T.text ++ suffix.text } := by
    rw [← List.cons_append, ← ht]
    exact .call (r := .type) (.wholeType_plain hT hworded hsuffix)
  rw [htokens, field]
  exact lead (.step .atEnd (.step (.atSep (hsep _)) (.step (.atSep (hsep _)) (.step htype
    (.step (.pure _) (.step (.currentName rfl) (.step .advance (.step (.atSep rfl)
      (.refl _ _))))))))) hall (endField hu acc _ _ _)

/-- A struct or a union with a body, given how its fields are read. Its tag comes again. -/
theorem wholeType_inner (a : Aggregate) (tag : Option String) {fs : List WrittenField}
    (hkeyword : env.settings.grammar.passes (.word a.keyword) = true)
    (hlegal : areLegal env.settings.grammar fs = true)
    (hfields : Reads σ env .any .empty (.loop (Reader.fieldRound a) [])
      (listTokens fs ++ .sep "\x7d" :: u :: rest) (u :: rest) (fields fs))
    (htag : (tagTokens tag).all env.settings.grammar.passes = true) :
    Reads σ env .any .any Reader.wholeType
      (.word a.keyword :: (tagTokens tag ++ .sep "\x7b" :: (listTokens fs
        ++ .sep "\x7d" :: u :: rest)))
      (tagTokens tag ++ u :: rest)
      { text := a.keyword, body := some (a, fields fs), tag := tag } := by
  obtain ⟨v, vs, hv, hpasses⟩ := exists_first fs hlegal (u :: rest)
  rw [hv] at hfields ⊢
  have haggregate : Reads σ env .any .any (Reader.readAggregate a {})
      (.word a.keyword :: (tagTokens tag ++ .sep "\x7b" :: v :: vs)) (tagTokens tag ++ u :: rest)
      ⟨{ text := a.keyword, body := some (a, fields fs), tag := tag }, false⟩ := by
    cases tag with
    | none =>
      rw [tagTokens, Option.toList_none, List.map_nil, List.nil_append, List.nil_append]
      exact (advance rfl).bind (past_none true rfl (peek (.atSep rfl) rfl
        ((advance hpasses).bind (hfields.ofAny.toAny.bind (pure _)))))
    | some tag =>
      -- The tag is put back after the closing brace.
      rw [tagTokens, Option.toList_some, List.map_singleton, List.all_cons, Bool.and_eq_true]
        at htag
      exact (advance htag.1).bind (past_back rfl rfl (peek (.atSep rfl) rfl
        ((advance hpasses).bind (hfields.ofAny.bind (pure _)))))
  have hbase : Reads σ env .any .any (Reader.readBase {})
      (.word a.keyword :: (tagTokens tag ++ .sep "\x7b" :: v :: vs)) (tagTokens tag ++ u :: rest)
      ⟨{ text := a.keyword, body := some (a, fields fs), tag := tag }, false⟩ := by
    cases a with
    | struct =>
      exact peek (.atWord rfl) hkeyword (peek (.atWord rfl) hkeyword
        (peek (.atWord rfl) hkeyword haggregate))
    | union =>
      exact peek (.atWord rfl) hkeyword (peek (.atWord rfl) hkeyword
        (peek (.atWord rfl) hkeyword (peek (.atWord rfl) hkeyword haggregate)))
  have hqualifier : isQualifier (.word a.keyword) = false := by cases a <;> rfl
  exact peek .atEnd hkeyword (peek (.loop_done (.takeRound_done _ _ hqualifier)) hkeyword
    (hbase.bind (pure _)))

/-- A struct or a union that is defined in place, given how its fields are read. -/
theorem fieldRound_inner (a b : Aggregate) {tag : Option String} {fs : List WrittenField}
    {name : String} {comment : Option String}
    (hkeyword : env.settings.grammar.passes (.word b.keyword) = true)
    (hname : env.settings.grammar.passes (.word name) = true)
    (htag : (tagTokens tag).all env.settings.grammar.passes = true)
    (hinner : areLegal env.settings.grammar fs = true)
    (hu : env.settings.grammar.passes u = true)
    (hfields : Reads σ env .any .empty (.loop (Reader.fieldRound b) [])
      (listTokens fs ++ .sep "\x7d" :: .word name :: .sep ";" :: (Token.comments comment
        ++ u :: rest))
      (.word name :: .sep ";" :: (Token.comments comment ++ u :: rest)) (fields fs))
    (acc : List Field) :
    Reads σ env .any .empty (Reader.fieldRound a acc)
      ((inner b tag fs name comment).tokens ++ u :: rest) (u :: rest)
      (.again (acc ++ [(inner b tag fs name comment).field])) := by
  have htokens : (inner b tag fs name comment).tokens ++ u :: rest
      = .word b.keyword :: (tagTokens tag ++ .sep "\x7b" :: (listTokens fs
        ++ .sep "\x7d" :: .word name :: .sep ";" :: (Token.comments comment ++ u :: rest))) := by
    simp [tokens]
  have htype := (wholeType_inner b tag hkeyword hinner hfields htag).call (r := .type)
  have htext : Reads σ env .any .any
      (fieldType { text := b.keyword, body := some (b, fields fs), tag := tag })
      (tagTokens tag ++ .word name :: .sep ";" :: (Token.comments comment ++ u :: rest))
      (.word name :: .sep ";" :: (Token.comments comment ++ u :: rest)) (innerType b tag) := by
    cases tag with
    | none => exact pure _
    | some tag =>
      -- The tag that was put back is read again, and the name comes after it.
      have hword : Token.isWord tag (.word tag) = true := by simp [Token.isWord, Token.word]
      rw [tagTokens, Option.toList_some, List.map_singleton, List.all_cons, Bool.and_eq_true]
        at htag
      exact peek (.atWord hword) htag.1 ((advance hname).toAny.bind (pure _))
  rw [htokens, field]
  exact peek .atEnd hkeyword (peek (.atSep rfl) hkeyword (peek (.atSep rfl) hkeyword
    (htype.bind (htext.bind (peek (.currentName rfl) hname ((advance rfl).bind
      (peek (.atSep rfl) rfl (endField hu acc _ _ _).ofAny)))))))

-- The induction is on the tree: a field asks for the list of the fields inside it, and a list for
-- its first field and those after it.
mutual

/-- One round over a field. The fields inside it are read in the same way. -/
theorem fieldRound (a : Aggregate) (f : WrittenField)
    (hlegal : f.isLegal env.settings.grammar = true) {u : Token} {rest : List Token}
    (hu : env.settings.grammar.passes u = true) (acc : List Field) :
    Reads σ env .any .empty (Reader.fieldRound a acc) (f.tokens ++ u :: rest) (u :: rest)
      (.again (acc ++ [f.field])) := by
  cases f with
  | plain T name suffix comment =>
    simp only [isLegal, Bool.and_eq_true] at hlegal
    obtain ⟨⟨⟨hT, hworded⟩, hsuffix⟩, hpasses⟩ := hlegal
    exact fieldRound_plain a hT hworded hsuffix hpasses hu acc
  | inner b tag fs name comment =>
    simp only [isLegal, List.all_cons, Bool.and_eq_true] at hlegal
    obtain ⟨⟨hkeyword, hname, htag⟩, hinner⟩ := hlegal
    exact fieldRound_inner a b hkeyword hname htag hinner hu
      (loop_fieldRound b fs hinner hname []) acc
termination_by sizeOf f

/-- All fields of a body, and its closing brace. -/
theorem loop_fieldRound (a : Aggregate) (fs : List WrittenField)
    (hlegal : areLegal env.settings.grammar fs = true) {u : Token} {rest : List Token}
    (hu : env.settings.grammar.passes u = true) (acc : List Field) :
    Reads σ env .any .empty (.loop (Reader.fieldRound a) acc)
      (listTokens fs ++ .sep "\x7d" :: u :: rest) (u :: rest) (acc ++ fields fs) := by
  cases fs with
  | nil =>
    rw [fields, List.append_nil]
    exact loop_done (peek .atEnd rfl (peek (.atSep rfl) rfl ((advance hu).bind (pure _))))
  | cons f fs =>
    rw [areLegal, Bool.and_eq_true] at hlegal
    obtain ⟨v, vs, hv, hpasses⟩ := exists_first fs hlegal.2 (u :: rest)
    have hrest : Reads σ env .any .empty _ (listTokens fs ++ .sep "\x7d" :: u :: rest) _ _ :=
      loop_fieldRound a fs hlegal.2 hu (acc ++ [f.field])
    rw [listTokens, List.append_assoc, fields, List.append_cons acc]
    rw [hv] at hrest ⊢
    exact loop_again (progresses_fieldRound a) (fieldRound a f hlegal.1 hpasses acc) hrest.ofAny
termination_by sizeOf fs

end

end Reads

end Reader

/-! ## Bodies at the top level -/

/-- A struct or a union with a tag and a body. -/
structure WrittenBody where
  kind : Aggregate
  tag : String
  fields : List WrittenField

namespace WrittenBody

/-- The tokens of the declaration. -/
def tokens (B : WrittenBody) : List Token :=
  .word B.kind.keyword :: .word B.tag :: .sep "\x7b" :: (WrittenField.listTokens B.fields
    ++ [.sep "\x7d", .sep ";"])

/-- Can it be read? -/
def isLegal (env : ScanEnv) (B : WrittenBody) : Bool :=
  Token.startsDeclaration env (.word B.kind.keyword)
    && [.word B.kind.keyword, .word B.tag].all env.settings.grammar.passes
    && WrittenField.areLegal env.settings.grammar B.fields

/-- What is read of it. -/
def spec (B : WrittenBody) : TypeSpec where
  text := B.kind.keyword
  body := some (B.kind, WrittenField.fields B.fields)
  tag := some B.tag

variable {B : WrittenBody}

/-- What is left to do at the `;` is to record the body. -/
theorem reads_wholeDeclaration (hB : B.isLegal env = true) :
    Reader.Reads σ env .any .any wholeDeclaration B.tokens [.sep ";"]
      (some (.declare B.spec ⟨B.tag, B.kind.keyword⟩ false)) := by
  simp only [isLegal, List.all_cons, List.all_nil, Bool.and_true, Bool.and_eq_true] at hB
  obtain ⟨⟨hstart, hkeyword, htag⟩, hfields⟩ := hB
  have hbody : Reads σ env .any .empty _
      (WrittenField.listTokens B.fields ++ .sep "\x7d" :: [.sep ";"]) _ _ :=
    .loop_fieldRound B.kind B.fields hfields rfl []
  have htype : Reads σ env .any .any readType B.tokens [.word B.tag, .sep ";"] B.spec :=
    .call (r := .type) (.wholeType_inner B.kind (some B.tag) hkeyword hfields hbody
      (by simp [WrittenField.tagTokens, htag]))
  have hround : Reads σ env .any .any (declaratorRound B.spec false (⟨B.tag, B.kind.keyword⟩, none))
      [.sep ";"] [.sep ";"]
      (.done (⟨B.tag, B.kind.keyword⟩, some (.declare B.spec ⟨B.tag, B.kind.keyword⟩ false))) :=
    .peek (.atClass rfl) rfl (.peek (.atClass rfl) rfl (.peek (.atSep rfl) rfl
      (.peek (.pure _) rfl (.peek (.atOp rfl) rfl (.peek (.atSep rfl) rfl
        (Reads.dropComment.bind (.pure _)))))))
  refine .lead (.wholeDeclaration hstart .none (.refl _ _)) (by simp [hkeyword]) (htype.bind ?_)
  exact .peek (.atSep rfl) htag (.peek (.currentName rfl) htag ((Reads.advance rfl).toAny.bind
    (hround.loop_done.bind (.pure _))))

end WrittenBody

/-- What the policy tolerates is recorded. -/
theorem Reader.run_recordAggregate {a : Aggregate} {name : String} {fields : List Field}
    (h : a = .struct → inStruct? env.settings.width name fields = none) (s : Scanner σ) :
    (recordAggregate a name fields).run (Routine.run env) env s
      = .ok () (s.record env name a.category (some (.fields fields)) none env.isLocal) := by
  cases a with
  | struct =>
    rw [recordAggregate, if_pos rfl, run_bind, run_env, andThen_ok, h rfl]
    rfl
  | union => rfl

/-- **The fields of a body are recorded as they are written**, in order and each with the comment
after it, if no type of a field starts with an empty word and, in a struct, the policy finds
no `long` in the types of its own fields. -/
theorem fields_of_body {o : ScanOptions} {file : String} {feed : σ} {B : WrittenBody}
    (hB : B.isLegal (o.env file) = true) (hname : Catalog.admits B.tag = true)
    (hlong : B.kind = .struct → B.fields.all WrittenField.lacksLong = true)
    (h : TokenStream.Supplies ⟨feed, none⟩ B.tokens) :
    ∃ C e, (Catalog.ofFeed o file feed).result = .ok C
      ∧ C.get? B.kind.category B.tag = some e ∧ e.category = B.kind.category
      ∧ e.detail = some (.fields (WrittenField.fields B.fields)) := by
  have hkeyword : (o.env file).settings.grammar.passes (.word B.kind.keyword) = true := by
    simp only [WrittenBody.isLegal, List.all_cons, Bool.and_eq_true] at hB
    exact hB.1.2.1
  obtain ⟨s, hs, hnothing, hscan⟩ := Scanner.exists_opening (o.env file) rfl
    (by rw [List.all_cons, hkeyword]; rfl) (show TokenStream.Supplies ⟨feed, none⟩
      (.word B.kind.keyword :: ([] ++ B.tokens.tail)) from h)
  obtain ⟨u, hrun, hu, hfindings⟩ :=
    B.reads_wholeDeclaration hB s ⟨hs.current, hs.context_eq.2, trivial⟩
  rw [hrun, andThen_ok] at hscan
  have hrecord : ∀ w : Scanner σ,
      (recordDeclarator B.spec ⟨B.tag, B.kind.keyword⟩ false).run (Routine.run (o.env file))
          (o.env file) w
        = .ok () (w.record (o.env file) B.tag B.kind.category
            (some (.fields (WrittenField.fields B.fields))) none (o.env file).isLocal) := by
    intro w
    have htag : (B.spec.tag = some B.tag && B.kind.keyword = B.spec.text) = true := by
      simp [WrittenBody.spec]
    simp only [recordDeclarator, WrittenBody.spec] at htag ⊢
    rw [if_pos htag]
    exact run_recordAggregate (fun hkind => WrittenField.tolerated (hlong hkind) _ _) w
  obtain ⟨v, obs, hfinish, hfound, hdetail⟩ :=
    Scanner.exists_finish_declare (o.env file) hu.stream hrecord
  obtain ⟨C, hC, hentries⟩ := Catalog.exists_of_run (hscan.trans hfinish)
  refine ⟨C, Entry.create B.tag B.kind.category obs, hC, ?_, rfl, hdetail⟩
  refine (hentries B.kind.category.shelf B.tag).trans ?_
  rw [hfound, hfindings, hnothing]
  simp [Catalog.sightings, Catalog.Finding.isOf, Catalog.see, hname]

/-- A struct with an array, a bit-field and a union in it, some of them with comments. -/
def nestedBody : WrittenBody where
  kind := .struct
  tag := "s"
  fields := [
    .plain ((WrittenType.struct "t").const.pointer "*") "p" (.array [[.word "2"]])
      (some " the others "),
    .plain .int "n" (.width (.word "3")) none,
    .inner .union (some "u") [.plain .int "c" (.array []) (some " in it ")] "v" (some " ")]

/-- Its fields are recorded as they are written. -/
theorem fields_of_nestedBody :
    ∃ C e, (Catalog.ofFeed {} "a.h" nestedBody.tokens).result = .ok C
      ∧ C.get? .struct "s" = some e ∧ e.category = .struct
      ∧ e.detail = some (.fields [⟨"const struct t *[2]", "p", some "the others", []⟩,
          ⟨"int", "n", none, []⟩, ⟨"union u", "v", none, [⟨"int", "c", some "in it", []⟩]⟩]) := by
  have hlegal : nestedBody.isLegal (ScanOptions.env {} "a.h") = true := by decide +kernel
  have hfields : WrittenField.fields nestedBody.fields
      = [⟨"const struct t *[2]", "p", some "the others", []⟩, ⟨"int", "n", none, []⟩,
        ⟨"union u", "v", none, [⟨"int", "c", some "in it", []⟩]⟩] := by decide +kernel
  rw [← hfields]
  exact fields_of_body hlegal (by decide +kernel) (fun _ => by decide +kernel)
    (TokenStream.supplies_list _)

/-- A struct whose only field has a dimension of two words. -/
def splitDimension : WrittenBody where
  kind := .struct
  tag := "S"
  fields := [.plain .int "a" (.array [[.word "lo", .word "ng"]]) none]

/-- No word has a `long` in it. But the two words of the dimension make up one, and the struct is
refused. -/
theorem refused_of_splitDimension :
    splitDimension.isLegal (ScanOptions.env {} "a.h") = true
      ∧ Catalog.admits splitDimension.tag = true
      ∧ (splitDimension.tokens.all fun t => lacksLong t.text) = true
      ∧ (Catalog.ofFeed {} "a.h" splitDimension.tokens).failure?
        = some (.width (Violation.field "S" "a").message ⟨"a.h", 1⟩) := by
  decide +kernel

end HeaderAtlas
