import HeaderAtlas.Declaration.Global

/-!
# What all readers of the grammar have in common

A property of readers may be handed on by the connectives of their language, so that a reader
has it if its parts have it (`Compositional`). The grammar then has it as a whole, provided that
the few readers that write something down do (`Pervasive`): these are where such properties
differ, and what is special about them is shown there. All the rest of the grammar is gone
through here, reader by reader, once for all properties.

That a reader has a property is a class (`Has`), and an instance for each reader follows its
definition.
-/

namespace HeaderAtlas

-- An instance is found for a whole reader at once, and some are long.
set_option synthInstance.maxSize 1024

variable {α β : Type}

namespace Reader

/-! ## Properties of readers -/

/-- The property is handed on by the connectives, and readers that write nothing down but
notices have it. -/
class Compositional (P : (α : Type) → Reader α → Prop) : Prop where
  give : ∀ {α : Type} (a : α), P α (pure a)
  bind : ∀ {α β : Type} {m : Reader α} {f : α → Reader β}, P α m → (∀ a, P β (f a)) →
    P β (m >>= f)
  /-- What stays the same during the scan may be looked at, but not whether uses are
  collected. -/
  env_bind : ∀ {α : Type} {f : ScanEnv → Reader α},
    (∀ (e : ScanEnv) (c : Bool), f { e with collectUsages := c } = f e) → (∀ e, P α (f e)) →
    P α (Reader.env >>= f)
  look : P View look
  advance : P Unit advance
  past : ∀ {α : Type} {m : Option String → Reader (α × Bool)}, (∀ name, P (α × Bool) (m name)) →
    P α (.past m)
  loop : ∀ {α : Type} {round : α → Reader (Round α)} {a : α}, (∀ a, P (Round α) (round a)) →
    P α (.loop round a)
  call : ∀ r : Routine, P r.Result (call r)
  warn : ∀ topic messages, P Unit (edit (.warn topic messages))
  forget : P Unit (edit .forget)
  malformed : ∀ message, P Unit (malformed message)

/-- The property is compositional, and those readers have it that write down declarations and
uses. -/
class Pervasive (P : (α : Type) → Reader α → Prop) : Prop extends Compositional P where
  record_functionType : ∀ name detail extra isStatic,
    P Unit (record name .functionType detail extra isStatic)
  record_typedef : ∀ name detail extra isStatic,
    P Unit (record name .typedef detail extra isStatic)
  record_var : ∀ name detail extra isStatic, P Unit (record name .var detail extra isStatic)
  recordAggregate : ∀ a name fields, P Unit (recordAggregate a name fields)
  recordFunction : ∀ name returnType params isStatic isDefinition,
    P Unit (recordFunction name returnType params isStatic isDefinition)
  /-- The enumerators of a block are read and written down. -/
  enumerators : ∀ {α : Type} {m : Reader α}, P α m →
    P α (do
      let es ← readEnumerators
      recordEnumerators es (← currentName)
      m)
  readBody : P Unit readBody

/-- The reader has the property. -/
class Has (P : (α : Type) → Reader α → Prop) (m : Reader α) : Prop where
  holds : P α m

variable {P : (α : Type) → Reader α → Prop}

/-! ## Connectives -/

section

variable [Compositional P]

namespace Has

instance (a : α) : Has P (pure a : Reader α) := ⟨Compositional.give a⟩

instance bind {m : Reader α} {f : α → Reader β} [hm : Has P m] [hf : ∀ a, Has P (f a)] :
    Has P (m >>= f) :=
  ⟨Compositional.bind hm.holds fun a => (hf a).holds⟩

/-- `bind`, where what comes after is shown by hand. -/
theorem after {m : Reader α} {f : α → Reader β} [Has P m] (hf : ∀ a, Has P (f a)) :
    Has P (m >>= f) :=
  inferInstance

theorem env_bind {f : ScanEnv → Reader α}
    (h : ∀ (e : ScanEnv) (c : Bool), f { e with collectUsages := c } = f e)
    (hf : ∀ e, Has P (f e)) : Has P (Reader.env >>= f) :=
  ⟨Compositional.env_bind h fun e => (hf e).holds⟩

omit [Compositional P] in
instance ite {c : Prop} [Decidable c] {m n : Reader α} [hm : Has P m] [hn : Has P n] :
    Has P (if c then m else n) := by
  split
  · exact hm
  · exact hn

instance : Has P look := ⟨Compositional.look⟩

instance : Has P advance := ⟨Compositional.advance⟩

instance past {m : Option String → Reader (α × Bool)} [hm : ∀ name, Has P (m name)] :
    Has P (.past m) :=
  ⟨Compositional.past fun name => (hm name).holds⟩

/-- `past`, where what is read past the name is shown by hand. -/
theorem of_past {m : Option String → Reader (α × Bool)} (hm : ∀ name, Has P (m name)) :
    Has P (.past m) :=
  inferInstance

instance loop {round : α → Reader (Round α)} {a : α} [hround : ∀ a, Has P (round a)] :
    Has P (.loop round a) :=
  ⟨Compositional.loop fun a => (hround a).holds⟩

/-- `loop`, where the round is shown by hand. -/
theorem of_round {round : α → Reader (Round α)} {a : α} (hround : ∀ a, Has P (round a)) :
    Has P (.loop round a) :=
  inferInstance

instance (r : Routine) : Has P (call r) := ⟨Compositional.call r⟩

instance (topic : Topic) (messages : List String) : Has P (edit (.warn topic messages)) :=
  ⟨Compositional.warn topic messages⟩

instance (message : String) : Has P (malformed message) := ⟨Compositional.malformed message⟩

end Has

open Has

/-! ## Looking at the current token -/

instance (p : Token → Bool) : Has P (at? p) := by unfold at?; infer_instance

instance (sep : String) : Has P (atSep sep) := by unfold atSep; infer_instance

instance (op : String) : Has P (atOp op) := by unfold atOp; infer_instance

instance (word : String) : Has P (atWord word) := by unfold atWord; infer_instance

instance : Has P atName := by unfold atName; infer_instance

instance (cls : TokenClass) : Has P (atClass cls) := by unfold atClass; infer_instance

instance : Has P atEnd := by unfold atEnd; infer_instance

instance : Has P currentName := by unfold currentName; infer_instance

instance : Has P describe := by unfold describe; infer_instance

instance : Has P take := by unfold take; infer_instance

instance (p : Token → Bool) (f : α → Token → α) (a : α) : Has P (takeRound p f a) := by
  unfold takeRound
  refine after fun v => ?_
  split <;> infer_instance

instance (p : Token → Bool) (f : α → Token → α) (a : α) : Has P (takeWhile p f a) := by
  unfold takeWhile; infer_instance

/-! ## Small readers -/

instance (message : String) : Has P (unexpected message) := by unfold unexpected; infer_instance

instance : Has P isLocal := env_bind (fun _ _ => rfl) fun _ => inferInstance

instance : Has P dropComment := ⟨Compositional.forget⟩

instance : Has P takeComment := by unfold takeComment; infer_instance

instance : Has P readType := ⟨Compositional.call .type⟩

instance : Has P readDeclaration := ⟨Compositional.call .declaration⟩

instance : Has P skipBraces := by unfold skipBraces; infer_instance

/-! ## Types -/

instance (p : Token → Bool) (ty : TypeSpec) : Has P (takeWords p ty) := by
  unfold takeWords; infer_instance

instance (w : String) (ty : TypeSpec) : Has P (optionalWord w ty) := by
  unfold optionalWord; infer_instance

instance (ty : TypeSpec) : Has P (longRest ty) := by unfold longRest; infer_instance

instance (ty : TypeSpec) : Has P (shortRest ty) := by unfold shortRest; infer_instance

instance (params : List Param) : Has P (paramRound params) := by
  unfold paramRound
  refine after fun ends => ?_
  split
  · infer_instance
  refine after fun ty => after fun name => ?_
  dsimp only
  cases name <;> infer_instance

instance : Has P readParams := by unfold readParams; infer_instance

instance (ty : TypeSpec) : Has P (fieldType ty) := by
  unfold fieldType
  split <;> infer_instance

instance (a : Aggregate) (fields : List Field) : Has P (fieldRound a fields) := by
  unfold fieldRound
  refine after fun ends => ?_
  split
  · infer_instance
  refine after fun closes => ?_
  split
  · infer_instance
  refine after fun opens => ?_
  split
  · infer_instance
  refine after fun ty => after fun type => after fun name => ?_
  cases name with
  | some name => infer_instance
  | none =>
    refine after fun opens => ?_
    dsimp only
    split <;> infer_instance

instance (a : Aggregate) : Has P (readFields a) := by unfold readFields; infer_instance

instance (a : Aggregate) (ty : TypeSpec) : Has P (readAggregate a ty) := by
  unfold readAggregate
  refine after fun _ => of_past fun tag => after fun opens => ?_
  split
  · infer_instance
  cases tag <;> infer_instance

/-! ## Enumerators -/

instance (value : String) : Has P (readValue value) := by
  unfold readValue
  refine of_round fun value => after fun v => ?_
  split <;> infer_instance

instance (name : String) (previous : Option Int) : Has P (readEnumValue name previous) := by
  unfold readEnumValue
  refine after fun v => ?_
  split
  · infer_instance
  · split <;> infer_instance

instance (p : EnumProgress) : Has P (settle p) := by
  unfold settle
  split <;> infer_instance

/-! ## Declarators -/

instance (ty : TypeSpec) : Has P (readFunctionPointer ty) := by
  unfold readFunctionPointer
  refine after fun _ => after fun ty => of_past fun name => ?_
  cases name <;> infer_instance

instance (ty : TypeSpec) : Has P (readDimensions ty) := by
  unfold readDimensions; infer_instance

instance (ty : TypeSpec) : Has P (readSuffix ty) := by unfold readSuffix; infer_instance

instance (ty : TypeSpec) : Has P (readRest ty) := by unfold readRest; infer_instance

instance (type : String) : Has P (readPointers type) := by unfold readPointers; infer_instance

instance (type : String) : Has P (readToSemicolon type) := by
  unfold readToSemicolon; infer_instance

instance (type : String) : Has P (readMarks type) := by unfold readMarks; infer_instance

/-! ## Call-like macros -/

instance (form what : String) (p : Token → Bool) : Has P (expect form what p) := by
  unfold expect; infer_instance

instance (form : String) : Has P (expectName form) := by unfold expectName; infer_instance

instance (form : String) : Has P (expectString form) := by unfold expectString; infer_instance

instance (form sep : String) : Has P (expectSep form sep) := by unfold expectSep; infer_instance

instance (form : String) : Has P (readEnumImpl form) := by
  unfold readEnumImpl
  refine after fun _ => after fun _ => after fun _ => of_round fun _ => after fun comma => ?_
  split
  · infer_instance
  refine after fun _ => after fun closes => ?_
  dsimp only
  infer_instance

instance : Has P skipToSemicolon := by unfold skipToSemicolon; infer_instance

instance (form : SpecialForm) : Has P (readSpecialForm form) := by
  unfold readSpecialForm
  cases form <;> infer_instance

instance : Has P strayToken := by unfold strayToken; infer_instance

instance : Has P readItem := by unfold readItem; infer_instance

end

/-! ## Readers that write something down -/

section

variable [Pervasive P]

open Has

instance (name : String) (detail : Option Detail) (extra : Option String) (isStatic : Bool) :
    Has P (record name .functionType detail extra isStatic) :=
  ⟨Pervasive.record_functionType ..⟩

instance (name : String) (detail : Option Detail) (extra : Option String) (isStatic : Bool) :
    Has P (record name .typedef detail extra isStatic) :=
  ⟨Pervasive.record_typedef ..⟩

instance (name : String) (detail : Option Detail) (extra : Option String) (isStatic : Bool) :
    Has P (record name .var detail extra isStatic) :=
  ⟨Pervasive.record_var ..⟩

instance (a : Aggregate) (name : String) (fields : List Field) :
    Has P (recordAggregate a name fields) :=
  ⟨Pervasive.recordAggregate ..⟩

instance (name returnType : String) (params : List Param) (isStatic isDefinition : Bool) :
    Has P (recordFunction name returnType params isStatic isDefinition) :=
  ⟨Pervasive.recordFunction ..⟩

instance : Has P readBody := ⟨Pervasive.readBody⟩

/-! ## Types -/

instance (ty : TypeSpec) : Has P (readEnum ty) := by
  have henumerators : ∀ b : BaseSpec, Has P (do
      let es ← readEnumerators
      recordEnumerators es (← currentName)
      pure b) :=
    fun b => ⟨Pervasive.enumerators (Compositional.give b)⟩
  unfold readEnum
  refine after fun _ => after fun tag => ?_
  dsimp only
  cases tag <;> infer_instance

instance (ty : TypeSpec) : Has P (readBase ty) := by
  unfold readBase
  -- The keywords one after another, and then any name.
  iterate 5
    refine after fun atKeyword => ?_
    split
    · infer_instance
  refine after fun isName => ?_
  split
  · refine after fun t => ?_
    cases t <;> infer_instance
  · infer_instance

instance : Has P wholeType := by unfold wholeType; infer_instance

/-! ## Typedefs -/

instance (tag : Option String) (name : String) (p : TypedefProgress) :
    Has P (recordTypedef tag name p) := by
  unfold recordTypedef
  refine after fun v => after fun isLocal => ?_
  split <;> infer_instance

instance (tag : Option String) (p : TypedefProgress) : Has P (typedefRound tag p) := by
  unfold typedefRound
  refine after fun name => ?_
  cases name <;> infer_instance

instance : Has P readTypedef := by unfold readTypedef; infer_instance

/-! ## Declarations -/

instance (name type : String) (isStatic : Bool) : Has P (recordVariable name type isStatic) := by
  unfold recordVariable; infer_instance

instance (ty : TypeSpec) (d : Declarator) (isStatic : Bool) :
    Has P (recordDeclarator ty d isStatic) := by
  unfold recordDeclarator
  split <;> infer_instance

instance (c : Closing) : Has P (close c) := by
  unfold close
  cases c <;> infer_instance

instance : Has P skipInitializer := by
  unfold skipInitializer
  refine after fun _ => after fun opens => ?_
  dsimp only
  split
  · refine after fun _ => after fun _ => after fun closes => ?_
    split <;> infer_instance
  · infer_instance

instance (name returnType : String) (params : List Param) (isStatic : Bool) :
    Has P (readFunction name returnType params isStatic) := by
  unfold readFunction; infer_instance

instance (ty : TypeSpec) (isStatic : Bool) (d : Declarator) :
    Has P (endDeclarator ty isStatic d) := by
  unfold endDeclarator
  refine after fun ends => ?_
  split
  · infer_instance
  refine after fun opens => ?_
  split
  · infer_instance
  refine after fun comma => ?_
  split
  · refine after fun _ => after fun _ => after fun _ => after fun type => after fun name => ?_
    cases name <;> infer_instance
  · infer_instance

instance (ty : TypeSpec) (isStatic : Bool) (p : Declarator × Option Closing) :
    Has P (declaratorRound ty isStatic p) := by
  unfold declaratorRound; infer_instance

instance (isStatic : Bool) : Has P (readDeclarators isStatic) := by
  unfold readDeclarators
  refine after fun ty => after fun closes => ?_
  split
  · infer_instance
  refine after fun name => ?_
  cases name <;> infer_instance

instance (isStatic : Bool) : Has P (readUnqualified isStatic) := by
  unfold readUnqualified
  refine after fun v => ?_
  split
  · infer_instance
  split
  · infer_instance
  refine env_bind (fun _ _ => rfl) fun e => ?_
  split <;> infer_instance

instance : Has P blockRound := by
  unfold blockRound
  refine after fun c => ?_
  split <;> infer_instance

instance (u : Unit) : Has P (linkageRound u) := by unfold linkageRound; infer_instance

instance : Has P readLinkageBlock := by unfold readLinkageBlock; infer_instance

instance : Has P wholeDeclaration := by unfold wholeDeclaration; infer_instance

instance (u : Unit) : Has P (fileRound u) := by unfold fileRound; infer_instance

/-- The routines have the property. -/
instance (r : Routine) : Has P r.body := by
  cases r with
  | type => exact (inferInstance : Has P wholeType)
  | declaration => exact (inferInstance : Has P wholeDeclaration)

/-- The whole grammar has the property. -/
instance : Has P readFile := by unfold readFile; infer_instance

end

end Reader

end HeaderAtlas
