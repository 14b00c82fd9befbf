import HeaderAtlas.Proofs.Reader.Passing
import HeaderAtlas.Proofs.Reader.Upholding
import HeaderAtlas.Proofs.Scanner.Findings
import HeaderAtlas.Proofs.Scanner.Heard
import HeaderAtlas.Proofs.Scanner.Slot

/-!
# Macros come from definitions

Macros are recorded by the `#define` directives of a scan and by nothing else, in order, and
each as its words say. So the macros of a scan that comes to its end are the definitions among
the tokens of the file that the filter looks at, as long as no error is passed over
(`macros_of_run`), and the entry of a macro tells what its last definition says
(`Catalog.exists_macro`).

The invariant is that the macros found and the definitions still to come make up the same list
at any time (`Accounted`). No single instruction keeps it, for a record may be of anything; it
is upheld by the readers of the grammar, of which none records a macro.
-/

namespace HeaderAtlas

-- An instance is found for a whole reader at once, and some are long.
set_option synthInstance.maxSize 512

open Text Reader
open Catalog (Finding)

/-! ## Definitions -/

/-- What is recorded of a macro, apart from its documentation. -/
structure Definition where
  name : String
  params : List String
  value? : Option String
deriving DecidableEq, Repr

/-- The macro that a directive defines, if it is to be recorded. -/
def Directive.definition? (g : GrammarSettings) (d : Directive) : Option Definition :=
  if d.word = "#define" then
    (MacroParts.ofWords? d.args).bind fun m =>
      if g.hiddenMacros.contains m.name || g.isHeaderGuard m.name then none
      else some ⟨m.name, m.params, m.stringValue?⟩
  else none

/-- The definitions among some tokens that the filter looks at. -/
def GrammarSettings.definitions (g : GrammarSettings) (ts : List Token) : List Definition :=
  (Directive.ofTokens (g.audible ts)).filterMap (Directive.definition? g)

/-- Does the finding declare a macro? -/
def Catalog.Finding.isMacro : Finding → Bool
  | declaration _ .macroDef _ => true
  | _ => false

theorem Catalog.Finding.isMacro_of_isMinor {f : Finding} (h : f.isMinor = true) :
    f.isMacro = false := by
  cases f with
  | use => rfl
  | declaration name category o => cases category <;> first | rfl | cases h

/-- What a finding tells of a macro. -/
def Catalog.Finding.definition? : Finding → Option Definition
  | declaration name _ { detail := some (.macroDef d), .. } => some ⟨name, d.params, d.stringValue⟩
  | _ => none

/-- What the macros found so far tell. -/
def Scanner.macros {σ : Type} (s : Scanner σ) : List (Option Definition) :=
  (s.findings.filter Finding.isMacro).map Finding.definition?

theorem Directive.definition?_of_ne {g : GrammarSettings} {word : String} (h : word ≠ "#define")
    (args : List String) : Directive.definition? g ⟨word, args⟩ = none :=
  if_neg h

theorem Directive.definition?_of_not_opens {g : GrammarSettings} {word : String}
    (h : startsWith ['#'] word.toList = false) (args : List String) :
    Directive.definition? g ⟨word, args⟩ = none := by
  refine definition?_of_ne ?_ args
  rintro rfl
  cases h

/-- Definitions added one after another are all added. -/
theorem Directive.foldl_definitions (g : GrammarSettings) (ds : List Directive)
    (ms : List (Option Definition)) :
    ds.foldl (fun ms d => ms ++ (Directive.definition? g d).toList.map some) ms
      = ms ++ (ds.filterMap (Directive.definition? g)).map some := by
  induction ds generalizing ms with
  | nil => exact (List.append_nil ms).symm
  | cons d ds ih =>
    rw [List.foldl_cons, ih, List.append_assoc, ← List.map_append]
    cases hd : Directive.definition? g d with
    | none => rw [List.filterMap_cons_none hd]; rfl
    | some D => rw [List.filterMap_cons_some hd]; rfl

namespace GrammarSettings

variable {g : GrammarSettings} {t : Token} {ts : List Token}

theorem definitions_of_held {held : Option Token} (h : ∀ t, held = some t → Settled g t)
    (ts : List Token) : g.definitions (held.toList ++ ts) = g.definitions ts :=
  congrArg (List.filterMap (Directive.definition? g)) (heard_of_held h ts)

/-- The first directive comes first. -/
theorem definitions_of_directive (ht : t.cls = .directive) (ts : List Token) :
    g.definitions (t :: ts)
      = (Directive.definition? g
          ⟨t.text, (ts.takeWhile Token.continuesDirective).map Token.text⟩).toList
        ++ g.definitions (ts.dropWhile Token.continuesDirective) := by
  refine (congrArg (List.filterMap _) (heard_of_directive ht ts)).trans ?_
  rw [List.filterMap_append]
  refine congrArg (· ++ _) ?_
  cases hopens : t.opensDirective with
  | true => rw [if_pos rfl, List.filterMap_cons, List.filterMap_nil]; split <;> simp_all
  | false =>
    rw [Directive.definition?_of_not_opens (by simpa [Token.opensDirective, ht] using hopens)]
    rfl

end GrammarSettings

/-! ## One step of the scan -/

namespace Scanner

variable {σ : Type} [Feed σ] {env : ScanEnv}

theorem macros_define (env : ScanEnv) (args : List String) (s : Scanner σ) :
    (s.define env args).macros = s.macros
      ++ ((Directive.definition? env.settings.grammar ⟨"#define", args⟩).toList.map some) := by
  rw [Directive.definition?, if_pos rfl, define]
  cases hm : MacroParts.ofWords? args with
  | none => exact (List.append_nil _).symm
  | some m =>
    dsimp only
    rw [Option.bind_some]
    split
    · exact (List.append_nil _).symm
    · rw [macros, macros]
      exact (congrArg (List.map _) (List.filter_append ..)).trans List.map_append

/-- A directive adds the macro that it defines to those found. -/
theorem macros_obey (env : ScanEnv) (word : String) (args : List String) (s : Scanner σ) :
    (s.obey env word args).macros = s.macros
      ++ ((Directive.definition? env.settings.grammar ⟨word, args⟩).toList.map some) := by
  by_cases hword : word = "#define"
  · subst hword
    exact macros_define env args s
  · have hsame : (s.obey env word args).findings.filter Finding.isMacro
        = s.findings.filter Finding.isMacro := by
      unfold obey
      dsimp only
      split
      · split
        · rfl
        · exact (List.filter_append ..).trans (List.append_nil _)
      · exact absurd rfl hword
      all_goals rfl
    rw [Directive.definition?_of_ne hword, macros, hsame]
    exact (List.append_nil _).symm

theorem movedBy_macros (env : ScanEnv) :
    MovedBy env (fun s : Scanner σ => s.macros)
      fun ms d => ms ++ (Directive.definition? env.settings.grammar d).toList.map some where
  obey s word args := macros_obey env word args s
  absorb _ _ := rfl
  stream _ _ := rfl
  idle ms _ args h := by
    rw [Directive.definition?_of_not_opens h args]
    exact List.append_nil ms

variable [LawfulFeed σ] [FusedFeed σ]

/-- Looking for a token of the grammar finds the macros of the directives on the way. Those and
the definitions after it are all that there were. -/
theorem seek_macros (hown : env.settings.grammar.KeepsOwn) (next : Option Token) (s : Scanner σ)
    (ts : List Token) (hs : s.stream.listed = ⟨ts, none⟩) (hend : next = none → ts = []) :
    ∃ ts', (seek env next s).2.stream.listed = ⟨ts', none⟩
      ∧ ((seek env next s).1 = none → ts' = [])
      ∧ (seek env next s).2.macros ++ (env.settings.grammar.definitions ts').map some
        = s.macros ++ (env.settings.grammar.definitions (next.toList ++ ts)).map some := by
  obtain ⟨ts', hstream, hnone, hmoved⟩ := seek_heard (movedBy_macros env) hown next s ts hs hend
  rw [Directive.foldl_definitions, Directive.foldl_definitions] at hmoved
  exact ⟨ts', hstream, hnone, hmoved⟩

/-- An error has been passed over, and the rest of its line with it. -/
def Erred (s : Scanner σ) : Prop := ∃ n ∈ s.journal, n.topic = .swallowedError

omit [FusedFeed σ] in
theorem erred_invariant (env : ScanEnv) : Invariant env (Erred (σ := σ)) where
  edit s e := fun ⟨n, hn, ht⟩ => ⟨n, (journal_invariant env n).edit s e hn, ht⟩
  dropLine s failure := fun ⟨n, hn, ht⟩ => ⟨n, (journal_invariant env n).dropLine s failure hn, ht⟩
  advance s := fun ⟨n, hn, ht⟩ => ⟨n, (journal_invariant env n).advance s hn, ht⟩
  unread _ _ _ _ _ _ := id

/-- The macros found and the definitions still to come make up `all`, unless an error has been
passed over. -/
structure Accounted (env : ScanEnv) (all : List Definition) (s : Scanner σ) : Prop where
  keepsOwn : env.settings.grammar.KeepsOwn
  held : ∀ t, s.stream.held = some t → Settled env.settings.grammar t
  current : ∀ t, s.current = some t → Settled env.settings.grammar t
  exhausted : ¬ s.Erred → s.current = none → s.stream.listed = ⟨[], none⟩
  macros : ¬ s.Erred →
    s.macros ++ (env.settings.grammar.definitions
        (s.stream.held.toList ++ Feed.tokens s.stream.feed)).map some
      = all.map some

namespace Accounted

variable {all : List Definition} {s : Scanner σ}

omit [FusedFeed σ] in
theorem edit (h : Accounted env all s) (e : Edit)
    (he : (s.edit env e).macros = s.macros) : Accounted env all (s.edit env e) := by
  have herred : ¬ (s.edit env e).Erred → ¬ s.Erred :=
    mt fun hs => (erred_invariant env).edit s e hs
  refine ⟨h.keepsOwn, ?_, ?_, fun hn => ?_, fun hn => ?_⟩
  · rw [stream_edit]; exact h.held
  · rw [current_edit]; exact h.current
  · rw [stream_edit, current_edit]; exact h.exhausted (herred hn)
  · rw [stream_edit, he]; exact h.macros (herred hn)

omit [FusedFeed σ] in
/-- What is written down may be anything but a macro. -/
theorem find (h : Accounted env all s) {fs : List Finding} (hfs : ∀ f ∈ fs, f.isMacro = false) :
    Accounted env all (s.find fs) := by
  refine h.edit (.find fs) (congrArg (List.map _) ((List.filter_append ..).trans ?_))
  have hnone : fs.filter Finding.isMacro = [] :=
    List.filter_eq_nil_iff.mpr fun f hf => by simp [hfs f hf]
  rw [hnone, List.append_nil]

omit [FusedFeed σ] in
theorem dropLine (h : Accounted env all s) (failure : Failure) :
    Accounted env all (s.swallow failure).discardLine := by
  have herred : (s.swallow failure).discardLine.Erred :=
    ⟨_, List.mem_append_right _ (List.mem_singleton_self _), rfl⟩
  exact ⟨h.keepsOwn, h.held, h.current, fun hn => absurd herred hn, fun hn => absurd herred hn⟩

/-- From the start on, where no token has been looked at yet. -/
theorem advance_of (hown : env.settings.grammar.KeepsOwn)
    (hmacros : ¬ s.Erred → s.macros ++ (env.settings.grammar.definitions
      (s.stream.held.toList ++ Feed.tokens s.stream.feed)).map some = all.map some) :
    Accounted env all (s.advance env) := by
  obtain ⟨ts, hnext, hall, hend⟩ := s.stream.next_listed_held
  obtain ⟨ts', hstream, hnone, hseek⟩ :=
    seek_macros hown s.stream.next.1 { s with stream := s.stream.next.2 } ts hnext hend
  have hlisted : (s.advance env).stream.listed = ⟨ts', none⟩ := hstream
  have herred : ¬ (s.advance env).Erred → ¬ s.Erred :=
    mt fun hs => (erred_invariant env).advance s hs
  rw [hall] at hseek
  refine ⟨hown, ?_, fun u hu => settled_seek hown _ _ hu, fun _ hcur => ?_, fun hn => ?_⟩
  · rw [held_advance]
    exact nofun
  · rw [hlisted, hnone hcur]
  · have hfeed : Feed.tokens (s.advance env).stream.feed = ts' :=
      congrArg TokenStream.feed hlisted
    rw [held_advance, hfeed]
    exact hseek.trans (hmacros (herred hn))

theorem advance (h : Accounted env all s) : Accounted env all (s.advance env) :=
  advance_of h.keepsOwn h.macros

omit [FusedFeed σ] in
theorem unread {s₀ : Scanner σ} {t : Token} (h₀ : Accounted env all s₀) (ht : s₀.current = some t)
    (h : Accounted env all s) : Accounted env all (s.unread t) := by
  have hheld := settled_unread t h.held h.current
  refine ⟨h.keepsOwn, hheld, fun u hu => ?_, nofun, fun hn => ?_⟩
  · cases hu
    exact h₀.current t ht
  · rw [feed_unread, GrammarSettings.definitions_of_held hheld,
      ← GrammarSettings.definitions_of_held h.held]
    exact h.macros hn

end Accounted

end Scanner

/-! ## Readers that record no macro -/

section Readers

open Scanner

variable {σ : Type} [Feed σ] [LawfulFeed σ] [FusedFeed σ] {env : ScanEnv} {all : List Definition}

variable (σ env all) in
/-- The reader changes nothing in what the macros and the definitions make up. -/
abbrev Accounts : (α : Type) → Reader α → Prop :=
  Upholds env fun _ (s : Scanner σ) => Accounted env all s

omit [FusedFeed σ] in
theorem accounts_record {name : String} {category : Category} (h : category ≠ .macroDef)
    (detail : Option Detail) (extra : Option String) (isStatic : Bool) :
    Accounts σ env all Unit (record name category detail extra isStatic) :=
  .edit fun hs => hs.find <| List.forall_mem_singleton.mpr <| by
    cases category <;> first | rfl | exact absurd rfl h

instance : Selective env (fun _ (s : Scanner σ) => Accounted env all s) where
  warn hs _ _ := hs.edit (.warn ..) rfl
  forget hs := hs.edit .forget rfl
  find hs _ hfs := hs.find fun f hf => Finding.isMacro_of_isMinor (hfs f hf)
  dropLine hs failure := hs.dropLine failure
  advance := Accounted.advance
  unread h₀ ht _ h := Accounted.unread h₀ ht h

omit [FusedFeed σ] in
/-- A violation of the width policy is raised, or passed over where errors are off. -/
theorem accounts_enforce (violation : Option WidthPolicy.Violation) :
    Accounts σ env all Unit (enforce violation) := by
  unfold enforce
  cases violation with
  | none => exact .give ()
  | some v =>
    refine .bind Has.holds fun p => .bind .look fun v => ?_
    split
    · exact .edit fun hs => hs.edit _ rfl
    · exact .fail _

theorem accounts_recordAggregate (a : Aggregate) (name : String) (fields : List Field) :
    Accounts σ env all Unit (recordAggregate a name fields) := by
  unfold recordAggregate
  cases a with
  | struct =>
    exact .env_bind (.bind (accounts_enforce _) fun _ => .bind Has.holds fun _ =>
      accounts_record (by decide) _ _ _)
  | union => exact .bind Has.holds fun _ => accounts_record (by decide) _ _ _

theorem accounts_recordFunction (name returnType : String) (params : List Param)
    (isStatic isDefinition : Bool) :
    Accounts σ env all Unit (recordFunction name returnType params isStatic isDefinition) := by
  unfold recordFunction
  refine .env_bind (.bind (accounts_enforce _) fun _ => ?_)
  refine .bind .look fun v => .bind Has.holds fun _ => ?_
  exact accounts_record (by decide) _ _ _

instance : Pervasive (Accounts σ env all) where
  record_functionType _ := accounts_record (by decide)
  record_typedef _ := accounts_record (by decide)
  record_var _ := accounts_record (by decide)
  recordAggregate := accounts_recordAggregate
  recordFunction := accounts_recordFunction
  enumerators := upholds_enumerators
  readBody := upholds_readBody

end Readers

/-! ## The whole scan -/

section Scan

variable {σ : Type} [Feed σ] [LawfulFeed σ] [FusedFeed σ]

/-- **The macros of a scan are the definitions of its tokens**, in order, as far as the filter
looks at them. -/
theorem macros_of_run {env : ScanEnv} {feed : σ} {s : Scanner σ}
    (hown : env.settings.grammar.KeepsOwn) (h : Scanner.run env feed = .ok () s)
    (herred : ¬ s.Erred) :
    s.macros = (env.settings.grammar.definitions (Feed.tokens feed)).map some := by
  have hstart : Scanner.Accounted env (env.settings.grammar.definitions (Feed.tokens feed))
      ((Scanner.start env feed).advance env) :=
    .advance_of hown fun _ => rfl
  have hend : Scanner.Accounted env (env.settings.grammar.definitions (Feed.tokens feed)) s := by
    have hloop : Accounts σ env (env.settings.grammar.definitions (Feed.tokens feed)) Unit
        (.loop fileRound ()) := Has.holds
    have hs : (Scanner.run env feed).state = s := by rw [h]; rfl
    exact hs ▸ hloop _ (Routine.departures env) (Upholds.routine fun _ => Has.holds) [] _ hstart
  have hlisted := hend.exhausted herred (current_of_readFile h)
  have hmacros := hend.macros herred
  have hheld : s.stream.held = none := congrArg TokenStream.held hlisted
  have hfeed : Feed.tokens s.stream.feed = [] := congrArg TokenStream.feed hlisted
  rw [hheld, hfeed] at hmacros
  simpa [GrammarSettings.definitions, GrammarSettings.audible, Directive.ofTokens] using hmacros

namespace Catalog

theorem Finding.isMacro_of_isOf {f : Finding} {name : String} (h : f.isOf .macros name = true) :
    f.isMacro = true := by
  cases f with
  | use => cases h
  | declaration n category o =>
    simp only [isOf, Bool.and_eq_true, decide_eq_true_eq] at h
    cases category <;> first | rfl | cases h.1

theorem Finding.name_of_isOf {f : Finding} {name : String} {D : Definition}
    (h : f.isOf .macros name = true) (hD : f.definition? = some D) : D.name = name := by
  unfold definition? at hD
  split at hD
  · simp only [isOf, Bool.and_eq_true, decide_eq_true_eq] at h
    cases hD
    exact h.2
  · cases hD

theorem Finding.exists_of_definition? {f : Finding} {D : Definition} (h : f.isMacro = true)
    (hD : f.definition? = some D) : ∃ o d, f = .declaration D.name .macroDef o
      ∧ o.detail = some (.macroDef d) ∧ d.params = D.params ∧ d.stringValue = D.value? := by
  unfold definition? at hD
  split at hD
  · next name category header module d extra guards line isStatic =>
    cases hD
    cases category with
    | macroDef =>
      exact ⟨⟨header, module, some (.macroDef d), extra, guards, line, isStatic⟩, d, rfl, rfl, rfl,
        rfl⟩
    | _ => cases h
  · cases hD

/-- **The entry of a macro tells what its last definition says.** -/
theorem exists_macro {o : ScanOptions} {file : String} {feed : σ} {C : Catalog}
    {before after : List Definition} {D : Definition} (hown : o.settings.grammar.KeepsOwn)
    (h : (Catalog.ofFeed o file feed).result = .ok C)
    (herred : ∀ n ∈ (Catalog.ofFeed o file feed).journal, n.topic ≠ .swallowedError)
    (hdefs : o.settings.grammar.definitions (Feed.tokens feed) = before ++ D :: after)
    (hlast : ∀ D' ∈ after, D'.name ≠ D.name) (hadmits : admits D.name = true) :
    ∃ e d, C.macros.get? D.name = some e ∧ e.detail = some (.macroDef d) ∧ d.params = D.params
      ∧ d.stringValue = D.value? := by
  obtain ⟨s, hs, hentries⟩ := exists_run h
  have hclean : ¬ s.Erred := by
    rintro ⟨n, hn, htopic⟩
    refine herred n ?_ htopic
    rw [journal_ofFeed, hs]
    exact hn
  have hmacros : s.macros = (o.settings.grammar.definitions (Feed.tokens feed)).map some :=
    macros_of_run (hown : (o.env file).settings.grammar.KeepsOwn) hs hclean
  rw [hdefs, List.map_append, List.map_cons, Scanner.macros] at hmacros
  obtain ⟨xs, rest, hfound, -, hrest⟩ := List.map_eq_append_iff.mp hmacros
  obtain ⟨f, ys, rfl, hf, hys⟩ := List.map_eq_cons_iff.mp hrest
  have hkind : f.isMacro = true :=
    (List.mem_filter.mp (hfound ▸ List.mem_append_right xs List.mem_cons_self)).2
  obtain ⟨obs, d, rfl, hdetail, hparams, hvalue⟩ := Finding.exists_of_definition? hkind hf
  have hsightings : sightings .macros D.name s.findings
      = xs.filter (·.isOf .macros D.name) ++ [.declaration D.name .macroDef obs] := by
    have hall : sightings .macros D.name s.findings
        = (s.findings.filter Finding.isMacro).filter (·.isOf .macros D.name) := by
      rw [List.filter_filter, sightings]
      refine List.filter_congr fun g _ => ?_
      cases hg : g.isOf .macros D.name with
      | false => rfl
      | true => rw [Finding.isMacro_of_isOf hg]; rfl
    have hnone : ys.filter (·.isOf .macros D.name) = [] := by
      refine List.filter_eq_nil_iff.mpr fun g hg hof => ?_
      obtain ⟨D', hD', hgD'⟩ : ∃ D' ∈ after, some D' = g.definition? :=
        List.mem_map.mp (hys ▸ List.mem_map_of_mem hg)
      exact hlast D' hD' (Finding.name_of_isOf hof hgD'.symm)
    rw [hall, hfound, List.filter_append,
      List.filter_cons_of_pos (by simp [Finding.isOf, Category.shelf]), hnone]
  have hget := hentries .macros D.name
  rw [hsightings, List.foldl_append, List.foldl_cons, List.foldl_nil] at hget
  simp only [see, if_pos hadmits] at hget
  split at hget
  · exact ⟨_, d, hget, by rw [Entry.amend, hdetail]; rfl, hparams, hvalue⟩
  · exact ⟨_, d, hget, hdetail, hparams, hvalue⟩

end Catalog

end Scan

end HeaderAtlas
