import HeaderAtlas.Proofs.Reader.Bodies

/-!
# Declarations as they are written

Functions, typedefs and variables, each from its first token up to the token that ends
it. Reading a function or a typedef comes down to what records it. Reading a variable
leaves nothing behind but what is left to do for it.
-/

namespace HeaderAtlas

open Ending Reader

/-! ## What is written -/

/-- What may stand before a declaration. -/
inductive Storage where
  | none
  | static
  | external

namespace Storage

/-- The token. -/
def tokens : Storage → List Token
  | none => []
  | static => [.word "static"]
  | external => [.word "extern"]

/-- Is it `static`? -/
def isStatic : Storage → Bool
  | static => true
  | _ => false

end Storage

/-- Can a declaration start with the token? It is neither a keyword of declarations nor
the name of a form that has a layout of its own. -/
def Token.startsDeclaration (env : ScanEnv) (t : Token) : Bool :=
  t.isName && !(["extern", "static", "typedef"].contains t.text)
    && !env.settings.grammar.specialForms.contains t.text

/-- A function up to its closing parenthesis. -/
structure Signature where
  storage : Storage
  type : WrittenType
  name : String
  params : List WrittenParam

namespace Signature

/-- The type and the name of the function. -/
def declarator (f : Signature) : WrittenParam := .named f.type f.name []

/-- The tokens of the signature. -/
def tokens (f : Signature) : List Token :=
  f.storage.tokens ++ (f.declarator.tokens ++ .sep "(" :: WrittenParam.listTokens f.params)

/-- The type of what the function returns. -/
def returnType (f : Signature) : String := f.type.spec.text

/-- The parameters as they are read. -/
def readParams (f : Signature) : List Param := f.params.flatMap WrittenParam.params

/-- Can it be read? -/
def isLegal (env : ScanEnv) (f : Signature) : Bool :=
  f.declarator.tokens.head?.all (Token.startsDeclaration env) && f.declarator.isLegal
    && WrittenParam.areLegal f.params

end Signature

/-- A typedef of one name. -/
structure WrittenTypedef where
  type : WrittenType
  name : String
  dims : Dimensions

namespace WrittenTypedef

/-- The type and the name. -/
def declarator (d : WrittenTypedef) : WrittenParam := .named d.type d.name d.dims

/-- The tokens of the typedef. -/
def tokens (d : WrittenTypedef) : List Token :=
  .word "typedef" :: (d.declarator.tokens ++ [.sep ";"])

end WrittenTypedef

/-- The value of a variable. -/
inductive WrittenValue where
  | none
  /-- Tokens without a comma. -/
  | plain (tokens : List Token)
  /-- A block, from after its opening brace. -/
  | block (tokens : List Token)

namespace WrittenValue

/-- The tokens of the value. -/
def tokens : WrittenValue → List Token
  | none => []
  | plain ts => ⟨.operator, "="⟩ :: ts
  | block ts => ⟨.operator, "="⟩ :: .sep "\x7b" :: ts

/-- Can it be skipped? -/
def isLegal : WrittenValue → Bool
  | none => true
  | plain ts =>
    ts.all (fun t => !t.isSep "," && !t.isSep ";") && !ts.head?.any (Token.isSep "\x7b")
  | block ts => closesBlocks 1 ts

end WrittenValue

/-- A further variable of a declaration. -/
structure FurtherVariable where
  /-- What stands between the comma and the name. -/
  marks : List Token
  name : String
  value : WrittenValue

/-- A declaration of variables. -/
structure WrittenVariables where
  storage : Storage
  declarator : WrittenParam
  value : WrittenValue
  more : List FurtherVariable

namespace WrittenVariables

/-- The tokens of further variables up to the `;`. -/
def moreTokens : List FurtherVariable → List Token
  | [] => [.sep ";"]
  | v :: vs => .sep "," :: (v.marks ++ .word v.name :: (v.value.tokens ++ moreTokens vs))

/-- The tokens of the declaration. -/
def tokens (v : WrittenVariables) : List Token :=
  v.storage.tokens ++ (v.declarator.tokens ++ (v.value.tokens ++ moreTokens v.more))

/-- Can it be read? -/
def isLegal (env : ScanEnv) (v : WrittenVariables) : Bool :=
  v.declarator.tokens.head?.all (Token.startsDeclaration env) && v.declarator.isLegal
    && v.declarator.name?.isSome && v.value.isLegal
    && v.more.all fun w =>
      w.marks.all (fun t => t.cls == .separator || t.cls == .operator) && w.value.isLegal

end WrittenVariables

/-! ## Types have no bodies -/

theorem TypeSpec.words_eq (ty : TypeSpec) (ws : List Token) :
    ty.words ws = { ty with text := (ty.words ws).text } := by
  induction ws generalizing ty with
  | nil => rfl
  | cons w ws ih => exact ih (ty.word w.text)

theorem TypeSpec.texts_eq (ty : TypeSpec) (ts : List Token) :
    ty.texts ts = { ty with text := (ty.texts ts).text } := by
  induction ts generalizing ty with
  | nil => rfl
  | cons t ts ih => exact ih (ty.append t.text)

theorem TypeSpec.dimensions_eq (ty : TypeSpec) (dims : Dimensions) :
    ty.dimensions dims = { ty with text := (ty.dimensions dims).text } := by
  induction dims generalizing ty with
  | nil => rfl
  | cons d dims ih =>
    have hd := (ty.append "[").texts_eq d
    have hrest := ih (((ty.append "[").texts d).append "]")
    rw [TypeSpec.dimensions, List.foldl_cons]
    refine hrest.trans ?_
    rw [TypeSpec.append, hd]
    rfl

theorem WrittenType.spec_dimensions (T : WrittenType) (dims : Dimensions) :
    T.spec.dimensions dims = { text := (T.spec.dimensions dims).text } := by
  rw [TypeSpec.dimensions_eq, WrittenType.spec, TypeSpec.words_eq]

/-- A declared type has neither a body nor a tag. -/
theorem WrittenParam.spec_eq (p : WrittenParam) :
    p.spec = { text := p.text, signature := p.spec.signature } := by
  cases p with
  | bare T => rw [spec, text, WrittenType.spec, TypeSpec.words_eq]
  | named T name dims => rw [spec, text, T.spec_dimensions]
  | pointer T stars name ps =>
    rw [spec, text, TypeSpec.append, TypeSpec.append, TypeSpec.texts_eq, TypeSpec.append,
      WrittenType.spec, TypeSpec.words_eq]

theorem WrittenParam.signature_named (T : WrittenType) (name : String) (dims : Dimensions) :
    (named T name dims).spec.signature = none := by
  rw [spec, T.spec_dimensions]

/-- A declarator starts with a name. -/
theorem WrittenParam.exists_start {p : WrittenParam} {env : ScanEnv}
    (hp : p.tokens.head?.all (Token.startsDeclaration env) = true) (ts : List Token) :
    ∃ t us, p.tokens ++ ts = t :: us ∧ t.startsDeclaration env = true := by
  obtain ⟨t, us, ht, -⟩ := p.exists_head []
  rw [List.append_nil] at ht
  rw [ht, List.head?_cons, Option.all_some] at hp
  exact ⟨t, us ++ ts, by rw [ht, List.cons_append], hp⟩

/-- A result that is paired up and taken out again. -/
theorem Ending.andThen_snd {σ α β : Type} (d : α) (r : Ending σ β) :
    ((r.andThen fun c s => .ok (d, c) s).andThen fun p s => .ok p.2 s) = r := by
  cases r <;> rfl

namespace Reader.LeadsTo

variable {σ : Type} [Feed σ] [LawfulFeed σ] {env : ScanEnv} {P : TokenStream σ → Prop}
  {room : Room} {t : Token} {ts ts' : List Token} {k : Reader (Option Closing)}

/-! ## Functions -/

/-- A declaration that is neither a typedef nor a special form. -/
theorem readUnqualified (ht : t.startsDeclaration env = true) (isStatic : Bool)
    (h : LeadsTo env P room (Reader.readDeclarators isStatic) (t :: ts) k ts') :
    LeadsTo env P room (Reader.readUnqualified isStatic) (t :: ts) k ts' := by
  simp only [Token.startsDeclaration, Bool.and_eq_true, Bool.not_eq_true', List.contains_cons,
    List.contains_nil, Bool.or_false, Bool.or_eq_false_iff] at ht
  obtain ⟨⟨-, -, -, htypedef⟩, hform⟩ := ht
  have hword : t.isWord "typedef" = false := by simp [Token.isWord, htypedef]
  have hnone : env.settings.grammar.specialForms.get? t.text = none := by
    simpa [NameMap.contains] using hform
  intro last s hs
  have hcur : s.current = some t := hs.current
  have hrun : (Reader.readUnqualified isStatic).run (Routine.run env) env s
      = (Reader.readDeclarators isStatic).run (Routine.run env) env s := by
    simp only [Reader.readUnqualified, run_bind, run_look, andThen_ok, Scanner.view, hcur, hword,
      Bool.false_eq_true, if_false, run_env, hnone]
  rw [hrun]
  exact h last s hs

/-- A declaration with or without a word before its type. -/
theorem wholeDeclaration (ht : t.startsDeclaration env = true) (storage : Storage)
    (h : LeadsTo env P room (Reader.readDeclarators storage.isStatic) (t :: ts) k ts') :
    LeadsTo env P room Reader.wholeDeclaration (storage.tokens ++ t :: ts) k ts' := by
  have hunqualified := readUnqualified ht _ h
  simp only [Token.startsDeclaration, Bool.and_eq_true, Bool.not_eq_true', List.contains_cons,
    List.contains_nil, Bool.or_false, Bool.or_eq_false_iff] at ht
  obtain ⟨⟨hname, hextern, hstatic, -⟩, -⟩ := ht
  have hextern' : t.isWord "extern" = false := by simp [Token.isWord, hextern]
  have hstatic' : t.isWord "static" = false := by simp [Token.isWord, hstatic]
  have hstring : (t.cls == .string) = false := by
    rw [Token.isName, beq_iff_eq] at hname
    simp [hname]
  cases storage with
  | none => exact step (.atWord hextern') (step (.atWord hstatic') hunqualified)
  | static =>
    exact step (.atWord rfl) (step (.atWord rfl) (step .advance (step (.atName hname)
      hunqualified)))
  | external =>
    exact step (.atWord rfl) (step .advance (step (.atClass hstring) hunqualified))

/-- The type and the first name of a declaration. -/
theorem readDeclarators {p : WrittenParam} {name : String} {u : Token}
    {k : Reader (Declarator × Option Closing)} (hp : p.isLegal = true)
    (hname : p.name? = some name) (hu : u.isSep "[" = false) (hcolon : u.isSep ":" = false)
    (isStatic : Bool)
    (h : LeadsTo env P room (.loop (declaratorRound p.spec isStatic) (⟨name, p.text⟩, none))
      (u :: ts) k ts') :
    LeadsTo env P room (Reader.readDeclarators isStatic) (p.tokens ++ u :: ts)
      (k >>= fun p => pure p.2) ts' := by
  have hdefinition : p.spec.isDefinition = false := by
    rw [p.spec_eq]
    rfl
  refine step (.readType_declared hp hname hu hcolon) (step (.atSep rfl) ?_)
  rw [hdefinition, p.text_spec]
  exact step (.currentName rfl) (step .advance h.bind)

/-- The parameters of a function. -/
theorem declaratorRound_params (ty : TypeSpec) (isStatic : Bool) (d : Declarator)
    {ps : List WrittenParam} (hps : WrittenParam.areLegal ps = true) (hne : ts ≠ []) :
    LeadsTo env P .any (declaratorRound ty isStatic (d, none))
      (.sep "(" :: (WrittenParam.listTokens ps ++ ts))
      (readFunction d.name d.type (ps.flatMap WrittenParam.params) isStatic >>= fun c =>
        pure (.done (d, c))) ts := by
  have hopen : Takes env P .any .empty Reader.advance
      (.sep "(" :: (WrittenParam.listTokens ps ++ ts)) (WrittenParam.listTokens ps ++ ts) () :=
    .advance_of_ne (by simp [hne])
  exact step (.atClass rfl) (step (.atClass rfl) (step (.atSep rfl) (step (.pure _)
    (step (.atOp rfl) (step (.atSep rfl) (step (.atSep rfl) (step hopen
      (step (.readParams hps hne) (refl _ _)))))))))

/-- A function comes down to what is done after its parameter list. -/
theorem wholeDeclaration_function {f : Signature} (hf : f.isLegal env = true) (hne : ts ≠ []) :
    LeadsTo env P .any Reader.wholeDeclaration (f.tokens ++ ts)
      (readFunction f.name f.returnType f.readParams f.storage.isStatic) ts := by
  rw [Signature.isLegal, Bool.and_eq_true, Bool.and_eq_true] at hf
  obtain ⟨⟨hstart, hlegal⟩, hparams⟩ := hf
  have hround : LeadsTo env P .any (declaratorRound f.declarator.spec f.storage.isStatic
      (⟨f.name, f.declarator.text⟩, none)) _ _ ts := declaratorRound_params _ _ _ hparams hne
  have hdeclarators := readDeclarators hlegal rfl rfl rfl f.storage.isStatic (loop hround)
  have htokens : f.tokens ++ ts = f.storage.tokens ++ (f.declarator.tokens
      ++ .sep "(" :: (WrittenParam.listTokens f.params ++ ts)) := by
    simp [Signature.tokens]
  obtain ⟨t, us, ht, htstart⟩ := WrittenParam.exists_start hstart
    (.sep "(" :: (WrittenParam.listTokens f.params ++ ts))
  rw [htokens]
  rw [ht] at hdeclarators ⊢
  exact (wholeDeclaration htstart f.storage hdeclarators).congr fun s => Ending.andThen_snd _ _

/-! ## Typedefs -/

/-- A typedef is read after its keyword. -/
theorem wholeDeclaration_of_readTypedef
    (h : LeadsTo env P room
      (Reader.readTypedef >>= fun b => pure (if b then some .nothing else none)) (t :: ts) k ts') :
    LeadsTo env P room Reader.wholeDeclaration (.word "typedef" :: t :: ts) k ts' := by
  have hunqualified : LeadsTo env P room (Reader.readUnqualified false)
      (.word "typedef" :: t :: ts) k ts' := by
    intro last s hs
    have hcur : s.current = some (.word "typedef") := hs.current
    have hrun : (Reader.readUnqualified false).run (Routine.run env) env s
        = (Reader.advance >>= fun _ => Reader.readTypedef >>= fun b =>
            pure (if b then some Closing.nothing else none)).run (Routine.run env) env s := by
      rw [Reader.readUnqualified, run_bind, run_look, andThen_ok, Scanner.view, hcur]
      rfl
    rw [hrun]
    exact step .advance h last s hs
  exact step (.atWord rfl) (step (.atWord rfl) hunqualified)

/-- The type of a typedef is read before its first name is recorded, and the token after the
name has then been seen. -/
theorem wholeDeclaration_typedef {p : WrittenParam} {name : String} {u : Token}
    (hp : p.isLegal = true) (hname : p.name? = some name) (hplain : p.spec.signature = none)
    (hu : u.isSep "[" = false) (hcolon : u.isSep ":" = false) :
    LeadsTo env P .taken Reader.wholeDeclaration (.word "typedef" :: (p.tokens ++ u :: ts))
      (.loop (typedefRound none) ⟨p.text, p.text, none, none, false⟩
        >>= fun p => pure (if p.closed then some .nothing else none))
      (.word name :: u :: ts) := by
  obtain ⟨v, vs, hv⟩ : ∃ v vs, p.tokens ++ u :: ts = v :: vs :=
    List.exists_cons_of_ne_nil (by simp)
  have htype : Takes env P .any .taken Reader.readType (v :: vs) (.word name :: u :: ts)
      { text := p.text } := by
    rw [← hv, ← hplain, ← p.spec_eq]
    exact .readType_declared hp hname hu hcolon
  rw [hv]
  refine (wholeDeclaration_of_readTypedef (bind (step .atEnd (last_step htype)))).congr fun s => ?_
  rw [run_bind, run_bind, run_bind]
  cases (Reader.loop (typedefRound none) _).run (Routine.run env) env s <;> rfl

end Reader.LeadsTo

/-! ## What is recorded -/

/-- What is recorded of a function in the given context. -/
def Signature.gist (f : Signature) (c : Context) : Gist :=
  ⟨f.name, .function, c.guards.active,
    some (.function (DocBlock.readFunction c.comment f.name f.returnType f.readParams).value), none⟩

/-- What is recorded of a typedef in the given context. -/
def WrittenTypedef.gist (d : WrittenTypedef) (c : Context) : Gist :=
  ⟨d.name, .typedef, c.guards.active, some (.type d.declarator.text),
    DocBlock.readTypedef c.comment d.name⟩

namespace Reader

variable {σ : Type} [Feed σ] [LawfulFeed σ] {env : ScanEnv} {P : TokenStream σ → Prop}
  {s u : Scanner σ} {f : Signature} {last : Context} {c : Option Closing}

/-- A function is found where it is recorded, with the comment before it. -/
theorem findings_recordFunction {name returnType : String} {params : List Param}
    {isStatic isDefinition : Bool}
    (h : (recordFunction name returnType params isStatic isDefinition).run
      (Routine.run env) env s = .ok () u) :
    u.stream = s.stream ∧ u.current = s.current ∧ u.context = s.context
      ∧ u.findings = s.findings ++ [.declaration name .function
        (env.observe s.guards.active s.stream.line
          (some (.function (DocBlock.readFunction s.comment name returnType params).value)) none
          isStatic)] := by
  rw [recordFunction, run_bind, run_env, andThen_ok] at h
  obtain ⟨_, v, henforce, h⟩ := run_bind_eq_ok h
  cases h
  rcases enforce_eq henforce with rfl | ⟨failure, rfl⟩
  · exact ⟨rfl, rfl, rfl, rfl⟩
  · exact ⟨rfl, rfl, rfl, rfl⟩

/-- A function is recorded with the comment before it. -/
theorem recordFunction_eq {isStatic isDefinition : Bool}
    (h : (recordFunction f.name f.returnType f.readParams isStatic isDefinition).run
      (Routine.run env) env s = .ok () u) :
    u.stream = s.stream ∧ u.current = s.current ∧ u.context = s.context
      ∧ u.gists = s.gists ++ [f.gist s.context] := by
  obtain ⟨hstream, hcurrent, hcontext, hfindings⟩ := findings_recordFunction h
  refine ⟨hstream, hcurrent, hcontext, ?_⟩
  rw [Scanner.gists, hfindings, List.filterMap_append]
  rfl

/-- A prototype is over when it is recorded. Its comment is forgotten later. -/
theorem run_prototype (hf : f.isLegal env = true)
    (hs : s.At env P .any (f.tokens ++ [.sep ";"]) last)
    (h : wholeDeclaration.run (Routine.run env) env s = .ok c u) :
    c = some .forget ∧ P u.stream ∧ u.context = last ∧ u.gists = s.gists ++ [f.gist last] := by
  obtain ⟨v, hrun, hat, hfindings⟩ :=
    LeadsTo.wholeDeclaration_function hf (List.cons_ne_nil _ []) last s hs
  obtain ⟨hcontext, hstream⟩ := hat.context_eq
  have hcur : v.current = some (.sep ";") := hat.current
  rw [hrun, readFunction, run_bind, run_atSep, andThen_ok, hcur, Option.any_some,
    if_neg (by decide), run_bind, run_atSep, andThen_ok, hcur, Option.any_some,
    if_pos (by decide)] at h
  obtain ⟨_, w, hrecord, h⟩ := run_bind_eq_ok h
  cases h
  obtain ⟨hstream', -, hcontext', hgists'⟩ := recordFunction_eq hrecord
  rw [hcontext, Scanner.gists_eq hfindings] at hgists'
  exact ⟨rfl, hstream' ▸ hstream, hcontext'.trans hcontext, hgists'⟩

/-- A definition is recorded before its body is read. -/
theorem run_definition {body : List Cell} (hf : f.isLegal env = true)
    (hbody : closesBlocks 1 (body.map Cell.token) = true)
    (hs : s.At env (·.Hands env P body) .any (f.tokens ++ [.sep "\x7b"]) last)
    (h : wholeDeclaration.run (Routine.run env) env s = .ok c u) :
    c = some .nothing ∧ P u.stream
      ∧ u.context = ⟨none, (Cell.directives body).foldl Guards.obey last.guards⟩
      ∧ u.gists = s.gists ++ [f.gist last] := by
  obtain ⟨v, hrun, hat, hfindings⟩ :=
    LeadsTo.wholeDeclaration_function hf (List.cons_ne_nil _ []) last s hs
  obtain ⟨hcontext, hstream⟩ := hat.context_eq
  have hcur : v.current = some (.sep "\x7b") := hat.current
  rw [hrun, readFunction, run_bind, run_atSep, andThen_ok, hcur, Option.any_some,
    if_pos (by decide)] at h
  obtain ⟨_, w, hrecord, h⟩ := run_bind_eq_ok h
  obtain ⟨hstream', -, hcontext', hgists'⟩ := recordFunction_eq hrecord
  cases body with
  | nil => cases hbody
  | cons b body =>
    -- The directives of the body are obeyed after the function has been recorded.
    have hguards : w.guards = last.guards := congrArg Context.guards (hcontext'.trans hcontext)
    obtain ⟨hin, hgists''⟩ := Scanner.InBody.advance (hstream' ▸ hstream) hbody rfl
    obtain ⟨x, hread, hend⟩ := run_readBody hin
    rw [run_bind, run_advance, andThen_ok, run_bind, hread, andThen_ok, run_bind, run_atSep,
      andThen_ok, hend.current] at h
    cases h
    refine ⟨rfl, hend.stream, ?_, ?_⟩
    · rw [hend.context, hguards]
    · rw [hend.gists, hgists'', hgists', Scanner.gists_eq hfindings, hcontext]

/-- A typedef is recorded with the comment before it, which stays. -/
theorem run_typedef {d : WrittenTypedef} (hd : d.declarator.isLegal = true)
    (hs : s.At env P .any d.tokens last) :
    ∃ u, wholeDeclaration.run (Routine.run env) env s = .ok (some .nothing) u
      ∧ P u.stream ∧ u.context = last ∧ u.gists = s.gists ++ [d.gist last] := by
  obtain ⟨v, hrun, hv, hfindings⟩ :=
    LeadsTo.wholeDeclaration_typedef hd rfl (WrittenParam.signature_named ..) rfl rfl last s hs
  have hcontext := hv.context_eq_of_taken
  -- `w` is the state with the typedef recorded, before the name is passed.
  generalize hw : v.edit env (.record d.name .typedef (some (.type d.declarator.text))
    (DocBlock.readTypedef v.comment d.name) env.isLocal) = w
  have hfound : w.gists = s.gists ++ [d.gist last] := by
    rw [← Scanner.gists_eq hfindings, ← hcontext, ← hw]
    exact Scanner.gists_find _ _
  have hrecorded : w.At env P .taken [.word d.name, .sep ";"] last := by
    subst hw
    exact ⟨hv.current, hv.stream, hv.passes, hv.room⟩
  obtain ⟨hat, hfindings'⟩ := hrecorded.advance
  obtain ⟨hcontext', hstream⟩ := hat.context_eq
  have hround : (typedefRound none
      ⟨d.declarator.text, d.declarator.text, none, none, false⟩).run (Routine.run env) env v
      = .ok (.done ⟨d.declarator.text, d.declarator.text, none, none, true⟩)
        (w.advance env) := by
    have hrecord : (recordTypedef none d.name
        ⟨d.declarator.text, d.declarator.text, none, none, false⟩).run (Routine.run env) env v
        = .ok ⟨d.declarator.text, d.declarator.text, none, none, false⟩ w := by
      rw [← hw]
      rfl
    rw [typedefRound, run_bind, run_currentName, andThen_ok, hv.current]
    show ((recordTypedef none d.name _).run (Routine.run env) env v).andThen _ = _
    rw [hrecord, andThen_ok, run_bind, run_advance, andThen_ok, run_bind, run_atSep, andThen_ok,
      hat.current]
    show Reader.run (Routine.run env) env (atSep ";" >>= _) (w.advance env) = _
    rw [run_bind, run_atSep, andThen_ok, hat.current]
    rfl
  have hloop : (Reader.loop (typedefRound none)
      ⟨d.declarator.text, d.declarator.text, none, none, false⟩).run (Routine.run env) env v
      = .ok ⟨d.declarator.text, d.declarator.text, none, none, true⟩ (w.advance env) :=
    Scanner.iterate_done hround
  refine ⟨w.advance env, ?_, hstream, hcontext', (Scanner.gists_eq hfindings').trans hfound⟩
  rw [hrun, run_bind, hloop]
  rfl

end Reader

/-! ## Variables -/

namespace Reader

variable {σ : Type} [Feed σ] [LawfulFeed σ] {env : ScanEnv} {P : TokenStream σ → Prop}
  {α β : Type}

/-- The reader turns the tokens `ts` to come into `ts'` and records nothing that is
documented. The comment may be forgotten, but the guards are not touched. The result and
the context in the end satisfy `R`. -/
def Drops (env : ScanEnv) (P : TokenStream σ → Prop) (m : Reader α) (ts ts' : List Token)
    (R : α → Context → Prop) : Prop :=
  ∀ (last : Context) (s : Scanner σ), s.At env P .any ts last →
    ∃ a last' s', m.run (Routine.run env) env s = .ok a s' ∧ s'.At env P .any ts' last'
      ∧ last'.guards = last.guards ∧ R a last' ∧ s'.gists = s.gists

namespace Drops

variable {room : Room} {m : Reader α} {ts ts' ts'' : List Token} {a : α}
  {R : α → Context → Prop} {R' : β → Context → Prop} {u : Token}

theorem bind {f : α → Reader β} (h : Drops env P m ts ts' R)
    (h' : ∀ a c, R a c → Drops env P (f a) ts' ts'' R') : Drops env P (m >>= f) ts ts'' R' := by
  intro last s hs
  obtain ⟨a, last', s', hrun, hs', hguards, ha, hgists⟩ := h last s hs
  obtain ⟨b, last'', s'', hrun', hs'', hguards', hb, hgists'⟩ := h' a last' ha last' s' hs'
  exact ⟨b, last'', s'', run_bind_of_ok hrun hrun', hs'', hguards'.trans hguards, hb,
    hgists'.trans hgists⟩

/-- First comes what takes tokens. -/
theorem step {f : α → Reader β} (h : Takes env P .any room m ts ts' a)
    (h' : Drops env P (f a) ts' ts'' R') : Drops env P (m >>= f) ts ts'' R' := by
  intro last s hs
  obtain ⟨s', hrun, hs', hfindings⟩ := h last s hs
  obtain ⟨b, last', s'', hrun', hs'', hguards, hb, hgists⟩ := h' last s' hs'.toAny
  exact ⟨b, last', s'', run_bind_of_ok hrun hrun', hs'', hguards, hb,
    hgists.trans (Scanner.gists_eq hfindings)⟩

theorem pure (h : ∀ c, R a c) : Drops env P (pure a) ts ts R :=
  fun last s hs => ⟨a, last, s, rfl, hs, rfl, h last, rfl⟩

/-- An edit that records nothing documented. -/
theorem edit {e : Edit} (he : ∀ s : Scanner σ, (s.edit env e).gists = s.gists
      ∧ (s.edit env e).guards = s.guards) :
    Drops env P (.edit e) ts ts fun _ _ => True := by
  intro last s hs
  obtain ⟨cs, hcs, hhands, hquiet, hlast⟩ := hs.stream
  obtain ⟨hgists, hguards⟩ := he s
  refine ⟨(), Aside.afterAll env (s.edit env e).context (Cell.allAsides cs), s.edit env e, rfl,
    ⟨?_, ⟨cs, hcs, ?_, hquiet, rfl⟩, hs.passes, trivial⟩, ?_, trivial, hgists⟩
  · rw [Scanner.current_edit]
    exact hs.current
  · rw [Scanner.stream_edit]
    exact hhands
  · rw [← hlast, Aside.guards_afterAll, Aside.guards_afterAll]
    exact congrArg (List.foldl Guards.obey · _) hguards

theorem dropComment : Drops env P Reader.dropComment ts ts fun _ _ => True :=
  edit fun _ => ⟨rfl, rfl⟩

/-- On the last token the comment is gone for good. -/
theorem dropComment_bind {f : Unit → Reader β}
    (h : ∀ (last : Context) (s : Scanner σ), last.comment = none → s.At env P .any [u] last →
      ∃ b, (f ()).run (Routine.run env) env s = .ok b s ∧ R' b last) :
    Drops env P (Reader.dropComment >>= f) [u] [u] R' := by
  intro last s hs
  obtain ⟨hcontext, hstream⟩ := hs.context_eq
  have hat : s.forget.At env P .any [u] ⟨none, last.guards⟩ := by
    refine ⟨hs.current, ⟨[], rfl, hstream, rfl, ?_⟩, hs.passes, trivial⟩
    rw [← hcontext]
    rfl
  obtain ⟨b, hrun, hb⟩ := h _ s.forget rfl hat
  exact ⟨b, _, s.forget, hrun, hat, rfl, hb, rfl⟩

theorem loop_done {round : α → Reader (Round α)}
    (h : Drops env P (round a) ts ts' fun r c => ∃ b, r = .done b ∧ R b c) :
    Drops env P (.loop round a) ts ts' R := by
  intro last s hs
  obtain ⟨r, last', s', hrun, hs', hguards, ⟨b, rfl, hb⟩, hgists⟩ := h last s hs
  exact ⟨b, last', s', Scanner.iterate_done hrun, hs', hguards, hb, hgists⟩

theorem loop_again {round : α → Reader (Round α)} (hround : Progresses round) {S : α → Prop}
    (h : Drops env P (round a) ts ts' fun r _ => ∃ b, r = .again b ∧ S b)
    (h' : ∀ b, S b → Drops env P (.loop round b) ts' ts'' R) :
    Drops env P (.loop round a) ts ts'' R := by
  intro last s hs
  obtain ⟨r, last', s', hrun, hs', hguards, ⟨b, rfl, hb⟩, hgists⟩ := h last s hs
  obtain ⟨c, last'', s'', hrun', hs'', hguards', hc, hgists'⟩ := h' b hb last' s' hs'
  exact ⟨c, last'', s'', (hround.run_loop hrun).trans hrun', hs'', hguards'.trans hguards, hc,
    hgists'.trans hgists⟩

/-- A block is read up to its closing brace. -/
theorem readBody {block : List Token} (hblock : closesBlocks 1 block = true) :
    Drops env P Reader.readBody (block ++ ts) (.sep "\x7d" :: ts) fun _ _ => True := by
  intro last s hs
  cases block with
  | nil => cases hblock
  | cons t block =>
    obtain ⟨cs, hcs, hhands, hquiet, hlast⟩ := hs.stream
    -- The cells of the tokens to come are those of the block and those after it.
    obtain ⟨cs₁, cs₂, rfl, hblock', hrest⟩ := List.map_eq_append_iff.mp hcs
    rw [TokenStream.hands_append] at hhands
    rw [List.all_append, Bool.and_eq_true] at hquiet
    obtain ⟨u, hrun, hend⟩ := run_readBody ⟨hs.current, hhands, hblock' ▸ hblock, rfl⟩
    refine ⟨(), Aside.afterAll env u.context (Cell.allAsides cs₂), u, hrun,
      ⟨hend.current, ⟨cs₂, hrest, hend.stream, hquiet.2, rfl⟩, fun v hv => ?_, trivial⟩, ?_, trivial,
      hend.gists⟩
    · rcases List.mem_cons.mp hv with rfl | hv
      · rfl
      · exact hs.passes v (List.mem_append_right _ hv)
    · rw [← hlast, Aside.guards_afterAll, Aside.guards_afterAll, hend.context,
        Cell.allAsides_append, List.filterMap_append, List.foldl_append]
      rfl

/-- The value of a variable is skipped up to the separator after it. -/
theorem skipInitializer {value : WrittenValue} {v : Token} {vs : List Token}
    (hvalue : value.isLegal = true) (htokens : value.tokens = v :: vs)
    (hu : u = .sep "," ∨ u = .sep ";") :
    Drops env P Reader.skipInitializer (value.tokens ++ u :: ts) (u :: ts) fun _ _ => True := by
  have hend : Drops env P (do
      Reader.dropComment
      if !(← Reader.atSep ";") && !(← Reader.atSep ",") then
        unexpected "missing ';' or ',' after value") (u :: ts) (u :: ts) fun _ _ => True := by
    refine bind dropComment fun _ _ _ => ?_
    rcases hu with rfl | rfl
    · exact step (.atSep rfl) (step (.atSep rfl) (pure fun _ => trivial))
    · exact step (.atSep rfl) (step (.atSep rfl) (pure fun _ => trivial))
  have hends : (!u.isSep "," && !u.isSep ";") = false := by
    rcases hu with rfl | rfl <;> rfl
  cases value with
  | none => cases htokens
  | plain ws =>
    simp only [WrittenValue.isLegal, Bool.and_eq_true, Bool.not_eq_true'] at hvalue
    obtain ⟨w, us, hw, hbrace⟩ : ∃ w us, ws ++ u :: ts = w :: us ∧ w.isSep "\x7b" = false := by
      cases ws with
      | nil => exact ⟨u, ts, rfl, by rcases hu with rfl | rfl <;> rfl⟩
      | cons w ws => exact ⟨w, _, rfl, hvalue.2⟩
    have htake : Takes env P .any .any (Reader.takeWhile (fun t => !t.isSep "," && !t.isSep ";")
        (fun _ _ => ()) ()) (w :: us) (u :: ts) (ws.foldl (fun _ _ => ()) ()) := by
      rw [← hw]
      exact .takeWhile (by nofun) hvalue.1 rfl hends _ _
    rw [WrittenValue.tokens, List.cons_append, hw]
    exact step .advance (step (.atSep hbrace) (bind dropComment fun _ _ _ => step htake hend))
  | block ws =>
    rw [WrittenValue.isLegal] at hvalue
    have hne : ws ++ u :: ts ≠ [] := by simp
    rw [WrittenValue.tokens, List.cons_append, List.cons_append]
    exact step .advance (step (.atSep rfl) (step (.advance_of_ne hne)
      (bind (readBody hvalue) fun _ _ _ => step (.atSep rfl) (step .advance hend))))

/-- The value of a variable, if there is one, and what is done after it. -/
theorem declaratorRound {value : WrittenValue} (hvalue : value.isLegal = true)
    (hu : u = .sep "," ∨ u = .sep ";") (ty : TypeSpec) (isStatic : Bool) (d : Declarator)
    {R : Round (Declarator × Option Closing) → Context → Prop}
    (h : Drops env P (endDeclarator ty isStatic d) (u :: ts) ts' R) :
    Drops env P (Reader.declaratorRound ty isStatic (d, none)) (value.tokens ++ u :: ts) ts'
      R := by
  cases htokens : value.tokens with
  | nil =>
    rw [List.nil_append]
    rcases hu with rfl | rfl
    · exact step (.atClass rfl) (step (.atClass rfl) (step (.atSep rfl) (step (.pure _)
        (step (.atOp rfl) h))))
    · exact step (.atClass rfl) (step (.atClass rfl) (step (.atSep rfl) (step (.pure _)
        (step (.atOp rfl) h))))
  | cons v vs =>
    have hskip : Drops env P Reader.skipInitializer (value.tokens ++ u :: ts) (u :: ts) _ :=
      skipInitializer hvalue htokens hu
    obtain rfl : v = ⟨.operator, "="⟩ := by
      cases value <;> cases htokens <;> rfl
    rw [htokens] at hskip
    exact step (.atClass rfl) (step (.atClass rfl) (step (.atSep rfl) (step (.pure _)
      (step (.atOp rfl) (bind hskip fun _ _ _ => h)))))

/-- The last variable of a declaration. -/
theorem endDeclarator_last (ty : TypeSpec) (isStatic : Bool) (d : Declarator) :
    Drops env P (endDeclarator ty isStatic d) [.sep ";"] [.sep ";"] fun r c =>
      ∃ p, r = .done p ∧ (∃ d, p.2 = some (.declare ty d isStatic)) ∧ c.comment = none :=
  step (.atSep rfl) (dropComment_bind fun _ _ hnone _ => ⟨_, rfl, _, rfl, ⟨d, rfl⟩, hnone⟩)

/-- A variable with another one after it. -/
theorem endDeclarator_comma {marks : List Token} (ty : TypeSpec) (isStatic : Bool)
    (d : Declarator) (name : String)
    (hmarks : marks.all (fun t => t.cls == .separator || t.cls == .operator) = true)
    (hne : ts ≠ []) :
    Drops env P (endDeclarator ty isStatic d) (.sep "," :: (marks ++ .word name :: ts)) ts
      fun r _ => ∃ p, r = .again p ∧ p.2 = none := by
  have hcomma : Takes env P .any .empty Reader.advance (.sep "," :: (marks ++ .word name :: ts))
      (marks ++ .word name :: ts) () := .advance_of_ne (by simp)
  have hrecord : Drops env P (recordVariable d.name d.type isStatic)
      (.sep "," :: (marks ++ .word name :: ts)) (.sep "," :: (marks ++ .word name :: ts))
      fun _ _ => True := by
    have hlocal : Takes env P .any .any Reader.isLocal (.sep "," :: (marks ++ .word name :: ts))
        (.sep "," :: (marks ++ .word name :: ts)) env.isLocal := .bind .askEnv (.pure _)
    exact step hlocal (edit fun s => ⟨(Scanner.gists_find s _).trans (List.append_nil _), rfl⟩)
  exact step (.atSep rfl) (step (.atSep rfl) (step (.atSep rfl) (bind dropComment fun _ _ _ =>
    bind hrecord fun _ _ _ => step hcomma (step (.takeWhile (by nofun) hmarks rfl rfl _ _)
      (step (.currentName rfl) (step (.advance_of_ne hne) (pure fun _ => ⟨_, rfl, rfl⟩)))))))

/-- All variables of a declaration. -/
theorem loop_declaratorRound (ty : TypeSpec) (isStatic : Bool) {more : List FurtherVariable}
    (hmore : (more.all fun w =>
      w.marks.all (fun t => t.cls == .separator || t.cls == .operator) && w.value.isLegal) = true)
    {value : WrittenValue} (hvalue : value.isLegal = true) (d : Declarator) :
    Drops env P (.loop (Reader.declaratorRound ty isStatic) (d, none))
      (value.tokens ++ WrittenVariables.moreTokens more) [.sep ";"] fun p c =>
        (∃ d, p.2 = some (.declare ty d isStatic)) ∧ c.comment = none := by
  induction more generalizing value d with
  | nil =>
    exact loop_done (declaratorRound hvalue (.inr rfl) ty isStatic d
      (endDeclarator_last ty isStatic d))
  | cons w more ih =>
    rw [List.all_cons, Bool.and_eq_true, Bool.and_eq_true] at hmore
    have hne : w.value.tokens ++ WrittenVariables.moreTokens more ≠ [] := by
      cases more <;> simp [WrittenVariables.moreTokens]
    have hround : Drops env P (Reader.declaratorRound ty isStatic (d, none)) _ _ _ :=
      declaratorRound hvalue (.inl rfl) ty isStatic d
        (endDeclarator_comma ty isStatic d w.name hmore.1.1 hne)
    rw [WrittenVariables.moreTokens]
    refine loop_again (progresses_declaratorRound ty isStatic) hround fun p hp => ?_
    obtain ⟨d', c⟩ := p
    subst hp
    exact ih hmore.2 hmore.1.2 d'

end Drops

/-- A declaration of variables is read up to its `;`. What is left to do for it is to
record the last of them. -/
theorem run_variables {v : WrittenVariables} (hv : v.isLegal env = true) {s : Scanner σ}
    {last : Context} (hs : s.At env P .any v.tokens last) :
    ∃ d u, wholeDeclaration.run (Routine.run env) env s
        = .ok (some (.declare v.declarator.spec d v.storage.isStatic)) u
      ∧ P u.stream ∧ u.context = ⟨none, last.guards⟩ ∧ u.gists = s.gists := by
  simp only [WrittenVariables.isLegal, Bool.and_eq_true, Option.isSome_iff_exists] at hv
  obtain ⟨⟨⟨⟨hstart, hlegal⟩, name, hname⟩, hvalue⟩, hmore⟩ := hv
  obtain ⟨u, us, hu, hbracket, hcolon⟩ : ∃ u us, v.value.tokens
      ++ WrittenVariables.moreTokens v.more = u :: us ∧ u.isSep "[" = false
        ∧ u.isSep ":" = false := by
    cases v.value with
    | none => cases v.more <;> exact ⟨_, _, rfl, rfl, rfl⟩
    | plain => exact ⟨_, _, rfl, rfl, rfl⟩
    | block => exact ⟨_, _, rfl, rfl, rfl⟩
  have hloop : Drops env P (.loop (declaratorRound v.declarator.spec v.storage.isStatic)
      (⟨name, v.declarator.text⟩, none)) _ _ _ :=
    Drops.loop_declaratorRound _ _ hmore hvalue _
  have hdeclarators : LeadsTo env P .any (readDeclarators v.storage.isStatic)
      (v.declarator.tokens ++ u :: us) _ (u :: us) :=
    .readDeclarators hlegal hname hbracket hcolon v.storage.isStatic (.refl _ (u :: us))
  obtain ⟨t, ts, ht, htstart⟩ := WrittenParam.exists_start hstart (u :: us)
  rw [ht] at hdeclarators
  have hlead := LeadsTo.wholeDeclaration htstart v.storage hdeclarators
  rw [← ht, ← hu] at hlead
  obtain ⟨s', hrun, hs', hfindings⟩ := hlead last s hs
  obtain ⟨⟨d', c⟩, last', s'', hrun', hs'', hguards, ⟨⟨d, rfl⟩, hnone⟩, hgists⟩ :=
    hloop last s' hs'
  obtain ⟨hcontext, hstream⟩ := hs''.context_eq
  refine ⟨d, s'', ?_, hstream, ?_, hgists.trans (Scanner.gists_eq hfindings)⟩
  · rw [hrun, run_bind, hrun']
    rfl
  · rw [hcontext, ← hguards, ← hnone]

end Reader

end HeaderAtlas
