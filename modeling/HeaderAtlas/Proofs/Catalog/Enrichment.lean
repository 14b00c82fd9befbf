import HeaderAtlas.Proofs.Catalog.Notices

/-!
# What implementation files add to the headers

The functions that the headers declare are looked up in one implementation file after the
other. An entry takes three things from there: the module, the detail and the annotation.
All else stays as the headers have it, in the entry (`Entry.SameDeclaration`) and around it
(`Catalog.enrichAll_eq`). In particular the guards stay, so every file is compared with those
of the headers (`Catalog.mismatches_enrichAll`).

The three things do not follow one rule. The module is fixed by the first file that names
one other than the header, while the detail is replaced by every file that has one
(`Entry.module_consultAll`, `Entry.detail_consultAll`). So when several files declare a
function, its module can be from one of them and its documentation from another.
-/

namespace HeaderAtlas

namespace Entry

/-! ## One entry -/

/-- The entry with what an implementation file says of it. -/
def consult (e u : Entry) : Entry :=
  e.amend { module := u.module, detail := u.detail, extra := u.extra }

/-- The entry with what several implementation files say of it, one after the other. -/
def consultAll (e : Entry) (us : List Entry) : Entry := us.foldl consult e

@[simp] theorem consultAll_nil (e : Entry) : e.consultAll [] = e := rfl

@[simp] theorem consultAll_cons (e u : Entry) (us : List Entry) :
    e.consultAll (u :: us) = (e.consult u).consultAll us := rfl

/-- The two entries are of the same declaration: they may differ in module, detail and
annotation only. -/
structure SameDeclaration (e e' : Entry) : Prop where
  name : e'.name = e.name
  header : e'.header = e.header
  category : e'.category = e.category
  line : e'.line = e.line
  isStatic : e'.isStatic = e.isStatic
  guards : e'.guards = e.guards

theorem SameDeclaration.refl (e : Entry) : e.SameDeclaration e :=
  ⟨rfl, rfl, rfl, rfl, rfl, rfl⟩

theorem SameDeclaration.trans {e e' e'' : Entry} (h : e.SameDeclaration e')
    (h' : e'.SameDeclaration e'') : e.SameDeclaration e'' where
  name := h'.name.trans h.name
  header := h'.header.trans h.header
  category := h'.category.trans h.category
  line := h'.line.trans h.line
  isStatic := h'.isStatic.trans h.isStatic
  guards := h'.guards.trans h.guards

theorem SameDeclaration.eq {e e' : Entry} (h : e.SameDeclaration e')
    (hmodule : e'.module = e.module) (hdetail : e'.detail = e.detail)
    (hextra : e'.extra = e.extra) : e' = e := by
  obtain ⟨hname, hheader, hcategory, hline, hstatic, hguards⟩ := h
  cases e
  cases e'
  simp_all

theorem sameDeclaration_consult (e u : Entry) : e.SameDeclaration (e.consult u) where
  name := rfl
  header := by simp [consult, amend]
  category := rfl
  line := rfl
  isStatic := by simp [consult, amend]
  guards := rfl

theorem sameDeclaration_consultAll (e : Entry) (us : List Entry) :
    e.SameDeclaration (e.consultAll us) := by
  induction us generalizing e with
  | nil => exact .refl e
  | cons u us ih => exact (sameDeclaration_consult e u).trans (ih (e.consult u))

/-! ## The module: the first file counts -/

/-- The module moves as long as there is none, or it only repeats the header. -/
theorem module_consult (e u : Entry) :
    (e.consult u).module
      = if e.module = none ∨ e.header = e.module then u.module <|> e.module else e.module := by
  unfold consult amend
  cases u.module with
  | none => simp
  | some m => cases e.module <;> simp

/-- A module that is not the header's stays. -/
theorem module_consultAll_of_ne {e : Entry} (hsome : e.module ≠ none)
    (hne : e.header ≠ e.module) (us : List Entry) : (e.consultAll us).module = e.module := by
  induction us generalizing e with
  | nil => rfl
  | cons u us ih =>
    have hstay : (e.consult u).module = e.module := by
      rw [module_consult, if_neg (not_or.mpr ⟨hsome, hne⟩)]
    have hheader := (sameDeclaration_consult e u).header
    rw [consultAll_cons, ih (by rwa [hstay]) (by rwa [hheader, hstay]), hstay]

/-- The file that an implementation is from. The header itself does not count. -/
def definedIn? (header : Option String) (u : Entry) : Option String :=
  if u.module = header then none else u.module

theorem module_consultAll {e : Entry} (hheader : e.module = e.header) (us : List Entry) :
    (e.consultAll us).module = (us.findSome? (definedIn? e.header) <|> e.module) := by
  induction us generalizing e with
  | nil => simp
  | cons u us ih =>
    have hkept := (sameDeclaration_consult e u).header
    have hmodule : (e.consult u).module = (u.module <|> e.module) := by
      rw [module_consult, if_pos (.inr hheader.symm)]
    rw [consultAll_cons, List.findSome?_cons, definedIn?]
    by_cases hu : u.module = e.header
    · -- The file repeats the header, and the next one may still set the module.
      have hsame : (e.consult u).module = e.module := by
        rw [hmodule, hu, ← hheader]
        cases e.module <;> rfl
      rw [if_pos hu, ih (by rw [hsame, hkept, hheader]), hkept, hsame]
    · rw [if_neg hu]
      cases hm : u.module with
      | none =>
        have hsame : (e.consult u).module = e.module := by rw [hmodule, hm]; rfl
        rw [ih (by rw [hsame, hkept, hheader]), hkept, hsame]
      | some m =>
        have hset : (e.consult u).module = some m := by rw [hmodule, hm]; rfl
        rw [module_consultAll_of_ne (by simp [hset]) ?_ us, hset]
        · rfl
        · rw [hkept, hset, ← hm]
          exact fun h => hu h.symm

/-! ## The detail: the last file counts -/

theorem detail_consultAll (e : Entry) (us : List Entry) :
    (e.consultAll us).detail = ((us.filterMap (·.detail)).getLast? <|> e.detail) := by
  induction us generalizing e with
  | nil => simp
  | cons u us ih =>
    have hdetail : (e.consult u).detail = (u.detail <|> e.detail) := rfl
    rw [consultAll_cons, ih, hdetail]
    cases hu : u.detail with
    | none => simp [hu]
    | some d => simp [hu, List.getLast?_cons]

/-! ## The same file again -/

/-- A file that is consulted twice in a row adds nothing the second time. -/
theorem consult_consult (e u : Entry) : (e.consult u).consult u = e.consult u := by
  have hmodule : ((e.consult u).consult u).module = (e.consult u).module := by
    have hheader := (sameDeclaration_consult e u).header
    rw [module_consult, hheader, module_consult]
    cases u.module with
    | none => simp
    | some m =>
      by_cases hmoves : e.module = none ∨ e.header = e.module <;> simp [hmoves]
  have hdetail : ((e.consult u).consult u).detail = (e.consult u).detail := by
    simp [consult, amend, ← Option.or_assoc]
  have hextra : ((e.consult u).consult u).extra = (e.consult u).extra := by
    simp [consult, amend, ← Option.or_assoc]
  exact (sameDeclaration_consult (e.consult u) u).eq hmodule hdetail hextra

end Entry

namespace Catalog

/-! ## One file -/

theorem get?_enrich1 (m : Merging) (b : String × Entry) (name : String) :
    (enrich1 m b).1.get? name
      = (m.1.get? name).map fun e => if b.1 = name then e.consult b.2 else e := by
  by_cases hb : b.1 = name
  · subst hb
    unfold enrich1
    cases hm : m.1.get? b.1 with
    | none => simp [hm]
    | some declared => simp [Entry.consult]
  · simp [get?_enrich1_of_ne m hb, hb]

/-- An entry takes what the binding of its own name says. -/
theorem get?_foldl_enrich1 {l : List (String × Entry)} (hl : l.Pairwise (·.1 < ·.1))
    (m : Merging) (name : String) :
    (l.foldl enrich1 m).1.get? name
      = (m.1.get? name).map (·.consultAll (NameMap.find? name l).toList) := by
  induction l generalizing m with
  | nil => simp [NameMap.find?]
  | cons b l ih =>
    obtain ⟨hb, hl⟩ := List.pairwise_cons.mp hl
    rw [List.foldl_cons, ih hl, get?_enrich1, Option.map_map, NameMap.find?]
    by_cases hname : b.1 = name
    · -- No binding after this one has the name.
      have hlater : NameMap.find? name l = none := by
        refine NameMap.find?_eq_none_iff.mpr fun b' hb' he => ?_
        have hlt := hb b' hb'
        rw [hname, he] at hlt
        exact String.lt_irrefl _ hlt
      simp [hname, hlater, Function.comp_def]
    · simp [hname, Function.comp_def]

theorem functions_enrich (c unit : Catalog) (j : Journal) (name : String) :
    (c.enrich unit j).1.functions.get? name
      = (c.functions.get? name).map (·.consultAll (unit.functions.get? name).toList) :=
  get?_foldl_enrich1 unit.functions.sorted (c.functions, j) name

/-! ## One file after the other -/

/-- Consults the implementation files in order. -/
def enrichAll (c : Catalog) (units : List Catalog) (j : Journal) : Catalog × Journal :=
  units.foldl (fun m u => m.1.enrich u m.2) (c, j)

@[simp] theorem enrichAll_nil (c : Catalog) (j : Journal) : c.enrichAll [] j = (c, j) := rfl

@[simp] theorem enrichAll_cons (c u : Catalog) (us : List Catalog) (j : Journal) :
    c.enrichAll (u :: us) j = (c.enrich u j).1.enrichAll us (c.enrich u j).2 := rfl

/-- What several implementation files say of a function. -/
def implementations (units : List Catalog) (name : String) : List Entry :=
  units.filterMap (·.functions.get? name)

theorem functions_enrichAll (c : Catalog) (units : List Catalog) (j : Journal) (name : String) :
    (c.enrichAll units j).1.functions.get? name
      = (c.functions.get? name).map (·.consultAll (implementations units name)) := by
  induction units generalizing c j with
  | nil => simp [implementations]
  | cons u us ih =>
    rw [enrichAll_cons, ih, functions_enrich, Option.map_map]
    cases hu : u.functions.get? name <;> simp [implementations, hu, Function.comp_def]

/-- No function is added or lost. -/
theorem contains_enrichAll (c : Catalog) (units : List Catalog) (j : Journal) (name : String) :
    (c.enrichAll units j).1.functions.contains name = c.functions.contains name := by
  rw [NameMap.contains, functions_enrichAll, Option.isSome_map]
  rfl

/-- Files are consulted for functions only. -/
theorem enrichAll_eq (c : Catalog) (units : List Catalog) (j : Journal) :
    (c.enrichAll units j).1 = { c with functions := (c.enrichAll units j).1.functions } := by
  induction units generalizing c j with
  | nil => rfl
  | cons u us ih =>
    rw [enrichAll_cons, ih]
    rfl

/-! ## The functions whose guards differ -/

/-- The header and the implementation file have the function under different guards. -/
def Disagree (c unit : Catalog) (name : String) (e u : Entry) : Prop :=
  c.functions.get? name = some e ∧ unit.functions.get? name = some u ∧ e.guards ≠ u.guards

/-- The notices are about the functions that are under different guards: one for each, in
the order of the names. -/
def NotesDisagreements (c unit : Catalog) (ns : List Notice) : Prop :=
  ∃ names : List String, names.Pairwise (· < ·)
    ∧ (∀ name, name ∈ names ↔ ∃ e u, c.Disagree unit name e u)
    ∧ List.Forall₂ (fun name n => ∃ e u, c.Disagree unit name e u ∧ n = guardMismatch name e u)
        names ns

theorem mismatch?_eq_some_iff {c unit : Catalog} {b : String × Entry} {n : Notice}
    (hb : b ∈ unit.functions.entries) :
    mismatch? c.functions b = some n
      ↔ ∃ e, c.Disagree unit b.1 e b.2 ∧ n = guardMismatch b.1 e b.2 := by
  have hunit : unit.functions.get? b.1 = some b.2 := NameMap.get?_eq_some_iff.mpr hb
  unfold mismatch? Disagree
  cases c.functions.get? b.1 with
  | none => simp
  | some e => by_cases h : e.guards = b.2.guards <;> simp [h, hunit, eq_comm]

/-- The functions that there is a notice about. -/
def disputed (c unit : Catalog) : List String :=
  unit.functions.entries.filterMap fun b => (mismatch? c.functions b).map fun _ => b.1

theorem pairwise_disputed (c unit : Catalog) : (c.disputed unit).Pairwise (· < ·) := by
  refine unit.functions.sorted.filterMap _ fun b b' hlt name hname name' hname' => ?_
  obtain ⟨-, -, rfl⟩ := Option.map_eq_some_iff.mp hname
  obtain ⟨-, -, rfl⟩ := Option.map_eq_some_iff.mp hname'
  exact hlt

theorem mem_disputed_iff {c unit : Catalog} {name : String} :
    name ∈ c.disputed unit ↔ ∃ e u, c.Disagree unit name e u := by
  rw [disputed, List.mem_filterMap]
  constructor
  · rintro ⟨b, hb, hname⟩
    obtain ⟨n, hn, rfl⟩ := Option.map_eq_some_iff.mp hname
    obtain ⟨e, he, -⟩ := (mismatch?_eq_some_iff hb).mp hn
    exact ⟨e, b.2, he⟩
  · rintro ⟨e, u, he⟩
    have hb : (name, u) ∈ unit.functions.entries := NameMap.get?_eq_some_iff.mp he.2.1
    have hn : mismatch? c.functions (name, u) = some (guardMismatch name e u) :=
      (mismatch?_eq_some_iff hb).mpr ⟨e, he, rfl⟩
    exact ⟨(name, u), hb, by rw [hn]; rfl⟩

theorem forall₂_disputed (c unit : Catalog) :
    List.Forall₂ (fun name n => ∃ e u, c.Disagree unit name e u ∧ n = guardMismatch name e u)
      (c.disputed unit) (c.mismatches unit) := by
  suffices ∀ l : List (String × Entry), (∀ b ∈ l, b ∈ unit.functions.entries) →
      List.Forall₂ (fun name n => ∃ e u, c.Disagree unit name e u ∧ n = guardMismatch name e u)
        (l.filterMap fun b => (mismatch? c.functions b).map fun _ => b.1)
        (l.filterMap (mismatch? c.functions)) from this unit.functions.entries fun _ hb => hb
  intro l hl
  induction l with
  | nil => exact .nil
  | cons b l ih =>
    have hrest := ih fun b' hb' => hl b' (List.mem_cons_of_mem _ hb')
    cases hn : mismatch? c.functions b with
    | none => simpa [hn] using hrest
    | some n =>
      obtain ⟨e, he, hnotice⟩ := (mismatch?_eq_some_iff (hl b List.mem_cons_self)).mp hn
      simpa [hn] using List.Forall₂.cons ⟨e, b.2, he, hnotice⟩ hrest

theorem notesDisagreements_mismatches (c unit : Catalog) :
    c.NotesDisagreements unit (c.mismatches unit) :=
  ⟨c.disputed unit, pairwise_disputed c unit, fun _ => mem_disputed_iff, forall₂_disputed c unit⟩

/-- Guards are never changed, so every file finds those of the headers. -/
theorem mismatches_enrichAll (c : Catalog) (units : List Catalog) (j : Journal)
    (unit : Catalog) : (c.enrichAll units j).1.mismatches unit = c.mismatches unit := by
  refine List.filterMap_congr fun b _ => ?_
  rw [mismatch?, mismatch?, functions_enrichAll]
  cases c.functions.get? b.1 with
  | none => rfl
  | some e =>
    have hguards := (e.sameDeclaration_consultAll (implementations units b.1)).guards
    simp only [Option.map_some, Option.bind_some, hguards, guardMismatch]

/-! ## The frame -/

theorem enrich_eq (c unit : Catalog) (j k : Journal) :
    (c.enrich unit j).1 = (c.enrich unit k).1 := by
  have hfunctions : (c.enrich unit j).1.functions = (c.enrich unit k).1.functions :=
    NameMap.ext_get? fun name => by rw [functions_enrich, functions_enrich]
  exact congrArg (fun functions => { c with functions }) hfunctions

theorem enrich_enrich (c unit : Catalog) (j k : Journal) :
    ((c.enrich unit j).1.enrich unit k).1 = (c.enrich unit j).1 := by
  have hfunctions : ((c.enrich unit j).1.enrich unit k).1.functions
      = (c.enrich unit j).1.functions := by
    refine NameMap.ext_get? fun name => ?_
    rw [functions_enrich, functions_enrich, Option.map_map]
    refine congrArg (Option.map · _) (funext fun e => ?_)
    cases unit.functions.get? name with
    | none => rfl
    | some u => exact e.consult_consult u
  exact congrArg (fun functions => { c with functions }) hfunctions

/-- **Implementation files add documentation and modules, and nothing else.** However many
are consulted, the tables other than that of the functions, the uses and the description of
the file are the same. So are the names of the functions, and all of an entry but its
module, detail and annotation. Each file, whatever was consulted before it, gives rise to
one notice for each function whose guards differ from its header's, and consulting it once
more gives rise to these notices again and changes nothing. -/
theorem enrichAll_frame (c : Catalog) (units : List Catalog) (j : Journal) :
    ((c.enrichAll units j).1.name = c.name ∧ (c.enrichAll units j).1.info = c.info
      ∧ (c.enrichAll units j).1.usages = c.usages
      ∧ ∀ shelf, shelf ≠ .functions → (c.enrichAll units j).1.table shelf = c.table shelf)
    ∧ (∀ name, (c.enrichAll units j).1.functions.contains name = c.functions.contains name)
    ∧ (∀ name e e', c.functions.get? name = some e →
        (c.enrichAll units j).1.functions.get? name = some e' → e.SameDeclaration e')
    ∧ ∀ unit, ∃ d ns, c.NotesDisagreements unit ns
      ∧ (∀ k, (c.enrichAll units j).1.enrich unit k = (d, k ++ ns))
      ∧ ∀ k, d.enrich unit k = (d, k ++ ns) := by
  refine ⟨?_, ?_, ?_, ?_⟩
  · rw [enrichAll_eq]
    refine ⟨rfl, rfl, rfl, fun shelf hshelf => ?_⟩
    cases shelf with
    | functions => exact absurd rfl hshelf
    | _ => rfl
  · exact contains_enrichAll c units j
  · intro name e e' he he'
    rw [functions_enrichAll, he] at he'
    cases he'
    exact e.sameDeclaration_consultAll (implementations units name)
  · intro unit
    have hnotices : ((c.enrichAll units j).1.enrich unit []).1.mismatches unit
        = c.mismatches unit := by
      have h := mismatches_enrichAll (c.enrichAll units j).1 [unit] [] unit
      exact h.trans (mismatches_enrichAll c units j unit)
    refine ⟨((c.enrichAll units j).1.enrich unit []).1, c.mismatches unit,
      notesDisagreements_mismatches c unit, fun k => ?_, fun k => ?_⟩
    · refine Prod.ext (enrich_eq _ unit k []) ?_
      rw [journal_enrich, mismatches_enrichAll]
    · refine Prod.ext (enrich_enrich _ unit [] k) ?_
      rw [journal_enrich, hnotices]

/-- A file in which a function `f` is found, with the given description. -/
def ofFunction (file description : String) (o : Observation) : Catalog :=
  add { name := file } (.declaration "f" .function
    { o with
      module := some file
      detail := some (.function { returnType := "int", description }) })

/-- A header with a function under a guard, and a struct. -/
def guardedHeader : Catalog :=
  add (ofFunction "a.h" ""
      { header := some "a.h", line := some 2, guards := some ["defined(FOO_ENABLED)"] })
    (.declaration "s" .struct { header := some "a.h", module := some "a.h", line := some 4 })

/-- An implementation of the function, `static` and not under a guard. -/
def unguardedUnit : Catalog :=
  ofFunction "a.c" "Doubles a number." { line := some 7, isStatic := true }

theorem frame_of_unguardedUnit :
    ∃ e e' n d, guardedHeader.functions.get? "f" = some e
      ∧ (guardedHeader.enrichAll [unguardedUnit] []).1.functions.get? "f" = some e'
      ∧ e.SameDeclaration e' ∧ e.module = some "a.h" ∧ e'.module = some "a.c"
      ∧ (guardedHeader.enrichAll [unguardedUnit] []).1.structs = guardedHeader.structs
      ∧ (guardedHeader.enrichAll [unguardedUnit] []).1.enrich unguardedUnit [] = (d, [n])
      ∧ d.enrich unguardedUnit [n] = (d, [n, n]) := by
  obtain ⟨⟨-, -, -, htables⟩, -, hsame, hnotices⟩ :=
    enrichAll_frame guardedHeader [unguardedUnit] []
  obtain ⟨d, ns, -, honce, hagain⟩ := hnotices unguardedUnit
  have hone : ((guardedHeader.enrichAll [unguardedUnit] []).1.enrich unguardedUnit []).2.length
      = 1 := by decide +kernel
  rw [honce, List.nil_append] at hone
  obtain ⟨n, rfl⟩ := List.length_eq_one_iff.mp hone
  have hbefore : (guardedHeader.functions.get? "f").map Entry.module = some (some "a.h") := by
    decide +kernel
  have hafter : ((guardedHeader.enrichAll [unguardedUnit] []).1.functions.get? "f").map
      Entry.module = some (some "a.c") := by decide +kernel
  obtain ⟨e, he, hmodule⟩ := Option.map_eq_some_iff.mp hbefore
  obtain ⟨e', he', hmodule'⟩ := Option.map_eq_some_iff.mp hafter
  exact ⟨e, e', n, d, he, he', hsame "f" e e' he he', hmodule, hmodule',
    htables .structs (by decide), honce [], hagain [n]⟩

/-! ## Module and documentation -/

/-- **The module is from the first file, the documentation from the last.** An entry that
has its header for a module takes the module of the first implementation that is from
another file, and the detail of the last implementation that has one. Both are from the
same file if there is only one implementation. -/
theorem enrichAll_origins {c : Catalog} {units : List Catalog} {j : Journal} {name : String}
    {e : Entry} (he : c.functions.get? name = some e) (hheader : e.module = e.header) :
    ∃ e', (c.enrichAll units j).1.functions.get? name = some e'
      ∧ e'.module = ((implementations units name).findSome? (Entry.definedIn? e.header)
          <|> e.module)
      ∧ e'.detail = (((implementations units name).filterMap (·.detail)).getLast? <|> e.detail)
      ∧ ∀ u, implementations units name = [u] → u.module ≠ none → u.detail ≠ none →
          e'.module = u.module ∧ e'.detail = u.detail := by
  have hmodule := Entry.module_consultAll hheader (implementations units name)
  have hdetail := e.detail_consultAll (implementations units name)
  refine ⟨e.consultAll (implementations units name), by rw [functions_enrichAll, he]; rfl,
    hmodule, hdetail, fun u hu hm hd => ?_⟩
  obtain ⟨m, hm⟩ := Option.ne_none_iff_exists'.mp hm
  obtain ⟨d, hd⟩ := Option.ne_none_iff_exists'.mp hd
  rw [hu] at hmodule hdetail ⊢
  rw [hmodule, hdetail]
  by_cases hsame : u.module = e.header
  · simp [Entry.definedIn?, hd, hsame, hheader]
  · simp [Entry.definedIn?, hd, hm, hm ▸ hsame]

/-- A file that documents the function, and one that only declares it. -/
def twoUnits : List Catalog := [unguardedUnit, ofFunction "b.c" "" {}]

theorem origins_of_twoUnits :
    ∃ e e', guardedHeader.functions.get? "f" = some e ∧ e.module = e.header
      ∧ (guardedHeader.enrichAll twoUnits []).1.functions.get? "f" = some e'
      ∧ e'.module = some "a.c"
      ∧ e'.detail = some (.function { returnType := "int", description := "" }) := by
  have hbefore : (guardedHeader.functions.get? "f").map (fun e => (e.header, e.module))
      = some (some "a.h", some "a.h") := by decide +kernel
  obtain ⟨e, he, hfiles⟩ := Option.map_eq_some_iff.mp hbefore
  obtain ⟨hheader, hmodule⟩ := Prod.mk.inj hfiles
  have hplace : e.module = e.header := hmodule.trans hheader.symm
  obtain ⟨e', he', hmodule', hdetail', -⟩ := enrichAll_origins he hplace
  have hlast : ((implementations twoUnits "f").filterMap (·.detail)).getLast?
      = some (.function { returnType := "int", description := "" }) := by decide +kernel
  refine ⟨e, e', he, hplace, he', ?_, ?_⟩
  · rw [hmodule', hheader, hmodule]
    decide +kernel
  · rw [hdetail', hlast]
    rfl

/-- The function then has the module of the one file and the documentation of the other. -/
theorem apart_of_twoUnits :
    (∀ b ∈ guardedHeader.functions.entries, b.2.module = b.2.header)
    ∧ implementations twoUnits "f" ≠ []
    ∧ ∃ e', (guardedHeader.enrichAll twoUnits []).1.functions.get? "f" = some e'
      ∧ ∀ u ∈ implementations twoUnits "f", ¬ (e'.module = u.module ∧ e'.detail = u.detail) := by
  refine ⟨by decide +kernel, by decide +kernel, ?_⟩
  have hapart : ((guardedHeader.enrichAll twoUnits []).1.functions.get? "f").any
      (fun e' => decide (∀ u ∈ implementations twoUnits "f",
        ¬ (e'.module = u.module ∧ e'.detail = u.detail))) = true := by decide +kernel
  obtain ⟨e', he', hall⟩ := (Option.any_eq_true ..).mp hapart
  exact ⟨e', he', of_decide_eq_true hall⟩

end Catalog

end HeaderAtlas
