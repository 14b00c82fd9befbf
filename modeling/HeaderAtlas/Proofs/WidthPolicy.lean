import HeaderAtlas.Proofs.Reader.Upholding
import HeaderAtlas.Proofs.Scanner.Follow
import HeaderAtlas.Proofs.TokenSources

/-!
# How far the width policy reaches

A function or a struct is checked before it is recorded, and a violation ends the scan. So a
scan that comes to its end has let nothing pass, as long as errors were never off: all that it
has found conforms to the policy (`conforms_of_run`). The catalogue is made of nothing else.
This is an invariant of the scan that no single instruction keeps, for a record may be of
anything. It is upheld by the readers that check before they record, and handed on by all
others (`Polices`).

The check looks at the fields of a struct, but not at the fields nested in them. So a struct
has no field that is refused (`not_refused_of_field`), and may still contain one
(`refused_of_nestedLong`).

A function is checked each time it is seen, and its entry tells the signature of one of these
times. So it is tolerated as recorded (`tolerated_of_function`), if its name is not also that of
a function type: a function type goes into the same table, and is not checked. Errors can be
off in a text without the marker for it, which may be made up of two comments
(`refused_of_splitMarker`).
-/

namespace HeaderAtlas

-- An instance is found for a whole reader at once, and some are long.
set_option synthInstance.maxSize 512

open Text Reader WidthPolicy
open Catalog (Finding)

variable {σ : Type} [Feed σ]

/-! ## What conforms to the policy -/

/-- The policy has nothing against a finding. Only functions and structs are looked at. -/
def Catalog.Finding.Conforms (w : WidthSettings) : Finding → Prop
  | declaration name .function o =>
    ∃ d, o.detail = some (.function d) ∧ inFunction? w name d.returnType d.params = none
  | declaration name .struct o =>
    ∀ fields, o.detail = some (.fields fields) → inStruct? w name fields = none
  | _ => True

/-- Documentation is of no concern to the policy. -/
theorem WidthPolicy.inFunction?_congr {params params' : List Param}
    (h : params.map (fun p => (p.type, p.name)) = params'.map fun p => (p.type, p.name))
    (w : WidthSettings) (name returnType : String) :
    inFunction? w name returnType params = inFunction? w name returnType params' := by
  have hcheck : ∀ ps : List Param,
      (ps.findSome? fun p => if isPlainLong p.type && !w.allowsParam name p.name
        then some (Violation.param name p.name) else none)
      = (ps.map fun p => (p.type, p.name)).findSome? fun p =>
          if isPlainLong p.1 && !w.allowsParam name p.2 then some (.param name p.2) else none := by
    intro ps
    rw [List.findSome?_map]
    rfl
  rw [inFunction?, inFunction?, hcheck params, hcheck params', h]

/-- A description leaves types and names alone. -/
theorem DocBlock.signature_describeParam? {arg description : Line} {params params' : List Param}
    (h : describeParam? arg description params = some params') :
    params'.map (fun p => (p.type, p.name)) = params.map fun p => (p.type, p.name) := by
  induction params generalizing params' with
  | nil => cases h
  | cons p ps ih =>
    rw [describeParam?] at h
    split at h
    · cases h
      rfl
    · obtain ⟨ps', hps', rfl⟩ := Option.map_eq_some_iff.mp h
      rw [List.map_cons, List.map_cons, ih hps']

theorem DocBlock.signature_describeParams (args : List (Line × Line)) (params : List Param) :
    (describeParams args params).1.map (fun p => (p.type, p.name))
      = params.map fun p => (p.type, p.name) := by
  unfold describeParams
  have hstart : ((params, []) : List Param × List Flaw).1 = params := rfl
  rw [← hstart]
  generalize ((params, []) : List Param × List Flaw) = sofar
  induction args generalizing sofar with
  | nil => rfl
  | cons arg args ih =>
    rw [List.foldl_cons, ih]
    dsimp only
    split
    · next hdescribed => exact signature_describeParam? hdescribed
    · rfl

theorem DocBlock.inFunction?_readFunction (w : WidthSettings) (comment : Option String)
    (name returnType : String) (params : List Param) :
    inFunction? w name (readFunction comment name returnType params).value.returnType
        (readFunction comment name returnType params).value.params
      = inFunction? w name returnType params := by
  unfold readFunction
  split
  · rfl
  · exact inFunction?_congr (signature_describeParams ..) w name returnType

/-- Macros and inclusions are not looked at. -/
theorem Catalog.Finding.conforms_of_directive {f : Finding} (h : f.ofDirective = true)
    (w : WidthSettings) : f.Conforms w := by
  cases f with
  | use name role place => cases h
  | declaration name category o =>
    cases category with
    | function => simp [ofDirective, Category.shelf] at h
    | struct => simp [ofDirective, Category.shelf] at h
    | _ => trivial

/-- Nor are enumerators and uses. -/
theorem Catalog.Finding.conforms_of_minor {f : Finding} (h : f.isMinor = true)
    (w : WidthSettings) : f.Conforms w := by
  cases f with
  | use name role place => trivial
  | declaration name category o =>
    cases category with
    | function | struct => cases h
    | _ => trivial

namespace Scanner

variable {env : ScanEnv}

/-- All that has been found conforms to the policy. -/
def Conforms (w : WidthSettings) (s : Scanner σ) : Prop := ∀ f ∈ s.findings, f.Conforms w

omit [Feed σ] in
theorem Conforms.find {w : WidthSettings} {s : Scanner σ} (h : s.Conforms w) {fs : List Finding}
    (hfs : ∀ f ∈ fs, f.Conforms w) : (s.find fs).Conforms w :=
  List.forall_mem_append.mpr ⟨h, hfs⟩

theorem Conforms.obey {w : WidthSettings} {s : Scanner σ} (h : s.Conforms w) (word : String)
    (args : List String) : (s.obey env word args).Conforms w := by
  obtain ⟨d, hd, hfindings, -⟩ := findings_obey_alike (s := s) env rfl rfl rfl word args
  rw [Conforms, hfindings]
  refine List.forall_mem_append.mpr ⟨h, ?_⟩
  cases d with
  | none => exact List.forall_mem_nil _
  | some f => exact List.forall_mem_singleton.mpr (f.conforms_of_directive hd w)

variable [LawfulFeed σ]

/-- What is found on the way to the next token is a directive. -/
theorem Conforms.seek {w : WidthSettings} (next : Option Token) (s : Scanner σ)
    (h : s.Conforms w) : (seek env next s).2.Conforms w := by
  fun_induction Scanner.seek env next s with
  | case2 s t ht _ ih => exact ih h
  | case3 s t ht _ s' ih => exact ih (Conforms.obey (s := s') h t.text s.stream.directiveArgs.1)
  | case6 s t ht _ _ count hcount _ _ ih => exact ih h
  | _ => exact h

/-- As long as errors have been on, all that has been found conforms to the policy. -/
def Policed (env : ScanEnv) (h : List (Scanner σ)) (s : Scanner σ) : Prop :=
  (∀ u ∈ h, ∀ y ∈ u.intakes env, y.errorsOff = false) →
    s.errorsOff = false ∧ s.Conforms env.settings.width

namespace Policed

variable {h : List (Scanner σ)} {s s' : Scanner σ}

theorem same (hs : Policed env h s) (hoff : s'.errorsOff = s.errorsOff)
    (hfindings : s'.findings = s.findings) : Policed env h s' := by
  intro hon
  rw [hoff, Conforms, hfindings]
  exact hs hon

theorem find (hs : Policed env h s) {fs : List Finding}
    (hfs : ∀ f ∈ fs, f.Conforms env.settings.width) : Policed env h (s.find fs) := by
  intro hon
  obtain ⟨hoff, hfound⟩ := hs hon
  exact ⟨hoff, hfound.find hfs⟩

theorem advance (hs : Policed env h s) : Policed env (h ++ [s]) (s.advance env) := by
  intro hon
  obtain ⟨hbefore, hnow⟩ := List.forall_mem_append.mp hon
  obtain ⟨hoff, hfound⟩ := hs hbefore
  exact ⟨errorsOff_seek _ _ hoff (List.forall_mem_singleton.mp hnow), .seek _ _ hfound⟩

end Policed

end Scanner

open Scanner

variable [LawfulFeed σ] {env : ScanEnv}

/-! ## Readers that uphold the policy -/

variable (σ env) in
/-- As long as errors are on, the reader lets nothing pass that the policy refuses. -/
abbrev Polices : (α : Type) → Reader α → Prop := Upholds env (Policed (σ := σ) env)

instance : Selective env (Policed (σ := σ) env) where
  warn hs _ _ := hs.same rfl rfl
  forget hs := hs.same rfl rfl
  find hs _ hfs := hs.find fun f hf => f.conforms_of_minor (hfs f hf) _
  dropLine hs _ := hs.same rfl rfl
  advance := Policed.advance
  unread _ _ _ hs := hs.same rfl rfl

/-- Nothing comes after a violation, unless errors are off: then nothing is claimed. -/
theorem polices_enforce_bind {violation : Option Violation} {m : Reader Unit}
    (hm : violation = none → Polices σ env Unit m) :
    Polices σ env Unit (enforce violation >>= fun _ => m) := by
  cases violation with
  | none => exact hm rfl
  | some v =>
    intro inner told hinner h s hs
    cases hoff : s.errorsOff with
    | true =>
      intro hon
      obtain ⟨hon, -⟩ := hs fun u hu => hon u (List.mem_append_left _ hu)
      rw [hoff] at hon
      cases hon
    | false =>
      have hrun : (enforce (some v) >>= fun _ => m).run inner env s
          = .failed (.width v.message (s.place env)) s := by
        simp [enforce, raise, Reader.place, Scanner.place, Scanner.view, hoff, Reader.run]
      have hdepartures : (enforce (some v) >>= fun _ => m).departures inner told env s = [] := by
        simp [enforce, raise, Reader.place, Reader.departures, Scanner.view, hoff, Reader.run,
          Ending.onward]
      rw [hrun, hdepartures, List.append_nil]
      exact hs

theorem polices_record {name : String} {category : Category} {detail : Option Detail}
    {extra : Option String} {isStatic : Bool}
    (h : ∀ o : Observation, o.detail = detail →
      (Finding.declaration name category o).Conforms env.settings.width) :
    Polices σ env Unit (record name category detail extra isStatic) :=
  .edit fun hs => hs.find (List.forall_mem_singleton.mpr (h _ rfl))

theorem polices_recordAggregate (a : Aggregate) (name : String) (fields : List Field) :
    Polices σ env Unit (recordAggregate a name fields) := by
  unfold recordAggregate
  cases a with
  | struct =>
    refine .env_bind (polices_enforce_bind fun hnone => .bind Has.holds fun isLocal => ?_)
    apply polices_record
    intro o ho fields' hfields'
    rw [ho] at hfields'
    cases hfields'
    exact hnone
  | union =>
    refine .bind Has.holds fun isLocal => ?_
    apply polices_record
    exact fun _ _ => trivial

theorem polices_recordFunction (name returnType : String) (params : List Param)
    (isStatic isDefinition : Bool) :
    Polices σ env Unit (recordFunction name returnType params isStatic isDefinition) := by
  refine .env_bind (polices_enforce_bind fun hnone => ?_)
  refine .bind .look fun v => .bind Has.holds fun _ => ?_
  apply polices_record
  intro o ho
  refine ⟨_, ho, ?_⟩
  rw [DocBlock.inFunction?_readFunction]
  exact hnone

instance : Pervasive (Polices σ env) where
  record_functionType _ _ _ _ := polices_record fun _ _ => trivial
  record_typedef _ _ _ _ := polices_record fun _ _ => trivial
  record_var _ _ _ _ := polices_record fun _ _ => trivial
  recordAggregate := polices_recordAggregate
  recordFunction := polices_recordFunction
  enumerators := upholds_enumerators
  readBody := upholds_readBody

/-! ## The whole scan -/

/-- A scan that ends well without errors ever being off has found nothing that the policy
refuses. -/
theorem conforms_of_run {feed : σ} {s : Scanner σ} (h : Scanner.run env feed = .ok () s)
    (hon : ∀ y ∈ allIntakes env feed, y.errorsOff = false) : s.Conforms env.settings.width := by
  have hscan : Policed env (departures env feed) (Scanner.run env feed).state :=
    Upholds.scan (fun _ => Has.holds) Has.holds feed fun _ => ⟨rfl, List.forall_mem_nil _⟩
  rw [h] at hscan
  exact (hscan fun u hu y hy => hon y (List.mem_flatMap.mpr ⟨u, hu, hy⟩)).2

namespace WidthPolicy

/-- The field is a plain `long`, and the settings do not tolerate it in this struct. -/
def Refused (w : WidthSettings) (struct : String) (f : Field) : Prop :=
  isPlainLong f.type = true ∧ w.allowsField struct f.name = false

instance (w : WidthSettings) (struct : String) (f : Field) : Decidable (Refused w struct f) :=
  inferInstanceAs (Decidable (_ ∧ _))

theorem inStruct?_eq_none_iff {w : WidthSettings} {name : String} {fields : List Field} :
    inStruct? w name fields = none ↔ ∀ f ∈ fields, ¬ Refused w name f := by
  simp [inStruct?, Refused, List.findSome?_eq_none_iff]

/-- The field is one of the fields, or it is nested in them at some depth. -/
inductive Occurs (f : Field) : List Field → Prop
  | here {fields : List Field} (h : f ∈ fields) : Occurs f fields
  | inside {fields : List Field} {g : Field} (hg : g ∈ fields) (h : Occurs f g.nested) :
      Occurs f fields

end WidthPolicy

/-- **No field of a struct is refused by the width policy**, if no pending comment contains the
disabling marker. A field that is refused can only be nested in others, so there is none in a
struct that defines no aggregate in place. -/
theorem not_refused_of_field {o : ScanOptions} {file : String} {feed : σ} {c : Catalog}
    (h : (Catalog.ofFeed o file feed).result = .ok c)
    (hmarker : ∀ y ∈ allIntakes (o.env file) feed,
      containsText o.settings.grammar.errorsOffMarker y.pending = false)
    {name : String} {e : Entry} {fields : List Field} (he : c.structs.get? name = some e)
    (hfields : e.detail = some (.fields fields)) :
    (∀ f ∈ fields, ¬ Refused o.settings.width name f)
      ∧ ∀ f, Occurs f fields → Refused o.settings.width name f →
        ∃ g ∈ fields, Occurs f g.nested := by
  obtain ⟨s, hs, hentries⟩ := Catalog.exists_run h
  have hconforms := conforms_of_run hs ((successive_intakes (o.env file) feed).all_errorsOn hmarker)
  have hdirect : ∀ f ∈ fields, ¬ Refused o.settings.width name f := by
    rw [← inStruct?_eq_none_iff]
    obtain ⟨category, obs, hfound, hshelf, hdetail⟩ :=
      Catalog.exists_sighting ((hentries .structs name).symm.trans he) hfields
    have hconform := hconforms _ hfound
    cases category with
    | struct => exact hconform fields hdetail
    | _ => cases hshelf
  refine ⟨hdirect, fun f hf hrefused => ?_⟩
  cases hf with
  | here hf => exact absurd hrefused (hdirect f hf)
  | inside hg hf => exact ⟨_, hg, hf⟩

/-- A struct that may have a field `maxMem` of type `long`, with another such field inside a
field. -/
def legacyStruct : List Token :=
  [⟨.name, "struct"⟩, ⟨.name, "_virDomainInfo"⟩, ⟨.separator, "\x7b"⟩,
    ⟨.name, "long"⟩, ⟨.name, "maxMem"⟩, ⟨.separator, ";"⟩,
    ⟨.name, "struct"⟩, ⟨.separator, "\x7b"⟩, ⟨.name, "long"⟩, ⟨.name, "x"⟩, ⟨.separator, ";"⟩,
    ⟨.separator, "\x7d"⟩, ⟨.name, "in"⟩, ⟨.separator, ";"⟩, ⟨.separator, "\x7d"⟩, ⟨.separator, ";"⟩]

theorem not_refused_of_legacyStruct :
    ∃ c e fields f, (Catalog.ofFeed {} "a.h" legacyStruct).result = .ok c
      ∧ c.structs.get? "_virDomainInfo" = some e ∧ e.detail = some (.fields fields)
      ∧ f ∈ fields ∧ isPlainLong f.type = true
      ∧ ∀ f ∈ fields, ¬ Refused Settings.builtin.width "_virDomainInfo" f := by
  have hdetail : ((Catalog.ofFeed {} "a.h" legacyStruct).result.toOption.bind
      (·.structs.get? "_virDomainInfo")).bind Entry.detail
      = some (.fields [⟨"long", "maxMem", none, []⟩,
          ⟨"struct", "in", none, [⟨"long", "x", none, []⟩]⟩]) := by
    decide +kernel
  obtain ⟨e, hentry, hfields⟩ := Option.bind_eq_some_iff.mp hdetail
  obtain ⟨c, hc, he⟩ := Option.bind_eq_some_iff.mp hentry
  have hresult := Outcome.eq_ok_of_toOption hc
  exact ⟨c, e, _, _, hresult, he, hfields, List.mem_cons_self, by decide +kernel,
    (not_refused_of_field hresult (by decide +kernel) he hfields).1⟩

/-- A struct with a `long` inside a field. -/
def nestedLong : String := "struct _a \x7b\n  struct \x7b\n    long x;\n  \x7d in;\n\x7d;\n"

/-- There is no comment, and the struct is recorded. But there is a field in it that is
refused. -/
theorem refused_of_nestedLong :
    allIntakes (ScanOptions.env {} "a.h") (Lexer.ofText nestedLong) = []
      ∧ ∃ fields f, ((Catalog.ofText {} "a.h" nestedLong).result.toOption.bind
          (·.structs.get? "_a")).bind Entry.detail = some (.fields fields)
        ∧ Occurs f fields ∧ Refused Settings.builtin.width "_a" f := by
  refine ⟨by decide +kernel, [⟨"struct", "in", none, [⟨"long", "x", none, []⟩]⟩],
    ⟨"long", "x", none, []⟩, by decide +kernel, ?_, by decide +kernel⟩
  exact .inside (List.mem_singleton.mpr rfl) (.here (List.mem_singleton.mpr rfl))

/-! ## Functions -/

namespace Catalog

/-- The names that are declared in a category. -/
def declared (category : Category) (fs : List Finding) : List String :=
  fs.filterMap fun
    | .declaration name c _ => if c = category then some name else none
    | .use .. => none

theorem mem_declared {category : Category} {fs : List Finding} {name : String} {o : Observation}
    (h : .declaration name category o ∈ fs) : name ∈ declared category fs :=
  List.mem_filterMap.mpr ⟨_, h, if_pos rfl⟩

end Catalog

/-- **The width policy tolerates every function that is recorded**, as it is recorded and however
often it was seen, if no pending comment contains the disabling marker and no function type has
the name of a function. -/
theorem tolerated_of_function {o : ScanOptions} {file : String} {feed : σ} {c : Catalog}
    (h : (Catalog.ofFeed o file feed).result = .ok c)
    (hmarker : ∀ y ∈ allIntakes (o.env file) feed,
      containsText o.settings.grammar.errorsOffMarker y.pending = false)
    (hapart : ∀ name ∈ Catalog.declared .function (Scanner.run (o.env file) feed).state.findings,
      name ∉ Catalog.declared .functionType (Scanner.run (o.env file) feed).state.findings)
    {name : String} {e : Entry} (he : c.functions.get? name = some e)
    (hcategory : e.category = .function) :
    ∃ d, e.detail = some (.function d)
      ∧ inFunction? o.settings.width name d.returnType d.params = none := by
  obtain ⟨s, hs, hentries⟩ := Catalog.exists_run h
  have hconforms := conforms_of_run hs ((successive_intakes (o.env file) feed).all_errorsOn hmarker)
  rw [hs] at hapart
  have hseen := (hentries .functions name).symm.trans he
  obtain ⟨first, hfirst⟩ := Catalog.exists_sighting_category hseen
  rw [hcategory] at hfirst
  have hno := hapart name (Catalog.mem_declared hfirst)
  -- Each sighting is one of a function, and it has been checked.
  have hchecked : ∀ n category obs,
      .declaration n category obs ∈ Catalog.sightings .functions name s.findings →
      ∃ d, obs.detail = some (.function d)
        ∧ inFunction? o.settings.width name d.returnType d.params = none := by
    intro n category obs hobs
    obtain ⟨hfound, hof⟩ := List.mem_filter.mp hobs
    simp only [Finding.isOf, Bool.and_eq_true, decide_eq_true_eq] at hof
    obtain ⟨hshelf, rfl⟩ := hof
    cases category with
    | function => exact hconforms _ hfound
    | functionType => exact absurd (Catalog.mem_declared hfound) hno
    | _ => cases hshelf
  refine Catalog.foldl_see_induction (P := fun e => ∃ d, e.detail = some (.function d)
      ∧ inFunction? o.settings.width name d.returnType d.params = none)
    hchecked ?_ ?_ hseen
  · intro n category obs e₀ hobs _
    obtain ⟨d, hd, htolerated⟩ := hchecked n category obs hobs
    exact ⟨d, by simp [Entry.amend, hd], htolerated⟩
  · intro e₀ hnone
    cases hnone

/-- A scan that lets `g` alone return `long`. -/
def gOnly : ScanOptions :=
  { settings := { Settings.builtin with
      width := { legacyFunctions := .ofList [("g", ⟨true, []⟩)], legacyFields := ∅ } } }

/-- A function `g` that returns `long`, declared and defined, after a function type that does so
as well. -/
def legacyFunction : List Token :=
  [⟨.name, "typedef"⟩, ⟨.name, "long"⟩, ⟨.separator, "("⟩, ⟨.operator, "*"⟩, ⟨.name, "callback"⟩,
    ⟨.separator, ")"⟩, ⟨.separator, "("⟩, ⟨.separator, ")"⟩, ⟨.separator, ";"⟩,
    ⟨.name, "long"⟩, ⟨.name, "g"⟩, ⟨.separator, "("⟩, ⟨.separator, ")"⟩, ⟨.separator, ";"⟩,
    ⟨.name, "long"⟩, ⟨.name, "g"⟩, ⟨.separator, "("⟩, ⟨.name, "int"⟩, ⟨.name, "x"⟩,
    ⟨.separator, ")"⟩, ⟨.separator, "\x7b"⟩, ⟨.separator, "\x7d"⟩]

theorem tolerated_of_legacyFunction :
    ∃ c e d, (Catalog.ofFeed gOnly "a.h" legacyFunction).result = .ok c
      ∧ c.functions.get? "g" = some e ∧ e.detail = some (.function d)
      ∧ isPlainLong d.returnType = true ∧ d.params = [⟨"int", some "x", none⟩]
      ∧ inFunction? gOnly.settings.width "g" d.returnType d.params = none := by
  have hentry : ((Catalog.ofFeed gOnly "a.h" legacyFunction).result.toOption.bind
      (·.functions.get? "g")).map (fun e => (e.category, e.detail))
      = some (.function,
          some (.function { returnType := "long", params := [⟨"int", some "x", none⟩] })) := by
    decide +kernel
  obtain ⟨e, hentry, hfound⟩ := Option.map_eq_some_iff.mp hentry
  obtain ⟨hcategory, hdetail⟩ := Prod.mk.inj hfound
  obtain ⟨c, hc, he⟩ := Option.bind_eq_some_iff.mp hentry
  have hresult := Outcome.eq_ok_of_toOption hc
  obtain ⟨d, hd, htolerated⟩ :=
    tolerated_of_function hresult (by decide +kernel) (by decide +kernel) he hcategory
  rw [hdetail] at hd
  cases hd
  exact ⟨c, e, _, hresult, he, hdetail, by decide +kernel, rfl, htolerated⟩

/-- Two comments that make up the disabling marker between them, and a function `f` that returns
`long`. -/
def splitMarker : List Token :=
  [⟨.comment, "DOC_DIS"⟩, ⟨.comment, "ABLE"⟩, ⟨.name, "long"⟩, ⟨.name, "f"⟩, ⟨.separator, "("⟩,
    ⟨.separator, ")"⟩, ⟨.separator, ";"⟩]

/-- No comment contains the marker, and there is no function type. But the function is recorded
and refused. -/
theorem refused_of_splitMarker :
    (∀ y ∈ allIntakes (gOnly.env "a.h") splitMarker,
        containsText gOnly.settings.grammar.errorsOffMarker y.text = false)
      ∧ Catalog.declared .functionType
          (Scanner.run (gOnly.env "a.h") splitMarker).state.findings = []
      ∧ ∃ d, ((Catalog.ofFeed gOnly "a.h" splitMarker).result.toOption.bind
          (·.functions.get? "f")).map (fun e => (e.category, e.detail))
            = some (.function, some (.function d))
        ∧ inFunction? gOnly.settings.width "f" d.returnType d.params ≠ none :=
  ⟨by decide +kernel, by decide +kernel, { returnType := "long" }, by decide +kernel,
    by decide +kernel⟩

end HeaderAtlas
