import HeaderAtlas.Proofs.Catalog.Sightings
import HeaderAtlas.Proofs.Reader.Invariant
import HeaderAtlas.Proofs.Reader.Progress

/-!
# What has been found stays found

The findings and the journal of a scan are only ever added to. So where two scans have
the same findings at some point, both keep them, whatever comes next.
-/

namespace HeaderAtlas

variable {σ : Type} [Feed σ]

namespace Scanner

/-- Nothing that was found or noted is lost. -/
structure Keeps (s s' : Scanner σ) : Prop where
  findings : s.findings <+: s'.findings
  journal : s.journal <+: s'.journal

omit [Feed σ] in
theorem Keeps.refl (s : Scanner σ) : s.Keeps s := ⟨List.prefix_rfl, List.prefix_rfl⟩

omit [Feed σ] in
theorem Keeps.trans {s₁ s₂ s₃ : Scanner σ} (h : s₁.Keeps s₂) (h' : s₂.Keeps s₃) :
    s₁.Keeps s₃ :=
  ⟨h.findings.trans h'.findings, h.journal.trans h'.journal⟩

variable (env : ScanEnv)

theorem keeps_define (args : List String) (s : Scanner σ) : s.Keeps (s.define env args) := by
  unfold define
  split
  · exact .refl s
  · dsimp only
    split
    · exact .refl s
    · exact ⟨List.prefix_append .., List.prefix_append ..⟩

theorem keeps_obey (word : String) (args : List String) (s : Scanner σ) :
    s.Keeps (s.obey env word args) := by
  unfold obey
  dsimp only
  split
  · split
    · exact .refl s
    · exact ⟨List.prefix_append .., List.prefix_rfl⟩
  · exact keeps_define env args s
  all_goals exact ⟨List.prefix_rfl, List.prefix_rfl⟩

theorem keeps_edit (s : Scanner σ) (e : Edit) : s.Keeps (s.edit env e) := by
  cases e with
  | find fs => exact ⟨List.prefix_append .., List.prefix_rfl⟩
  | record name category detail extra isStatic => exact ⟨List.prefix_append .., List.prefix_rfl⟩
  | swallow failure => exact ⟨List.prefix_rfl, List.prefix_append ..⟩
  | warn topic messages => exact ⟨List.prefix_rfl, List.prefix_append ..⟩
  | forget => exact ⟨List.prefix_rfl, List.prefix_rfl⟩

variable [LawfulFeed σ]

theorem keeps_seek (next : Option Token) (s : Scanner σ) : s.Keeps (seek env next s).2 := by
  fun_induction seek env next s with
  | case2 s t ht _ ih => exact ⟨ih.findings, ih.journal⟩
  | case3 s t ht _ s' ih =>
    have hobey := (keeps_obey env t.text s.stream.directiveArgs.1 s').trans ih
    exact ⟨hobey.findings, hobey.journal⟩
  | case6 s t ht _ _ count hcount _ _ ih => exact ⟨ih.findings, ih.journal⟩
  | _ => exact ⟨List.prefix_rfl, List.prefix_rfl⟩

theorem keeps_advance (s : Scanner σ) : s.Keeps (s.advance env) := by
  have hseek := keeps_seek env s.stream.next.1 { s with stream := s.stream.next.2 }
  exact ⟨hseek.findings, hseek.journal⟩

end Scanner

/-! ## Where the first of two scans has come to its end -/

namespace Catalog

/-- Is it a directive that was found? -/
def Finding.ofDirective : Finding → Bool
  | declaration _ category _ => category.shelf = .macros || category.shelf = .inclusions
  | use .. => false

/-- What the first scan has found beyond `base` has been found by the second scan too.
Only the line of the last directive may be another one: a directive is carried out when
the token after it has been read. -/
def Leads (base fs fs' : List Finding) : Prop :=
  ∃ (xs : List Finding) (d : Option Finding) (line : Nat), d.all Finding.ofDirective
    ∧ fs = base ++ xs ++ d.toList
    ∧ base ++ xs ++ (d.map (·.moved line none)).toList <+: fs'

namespace Leads

variable {base fs fs' : List Finding}

theorem of_le (h : base <+: fs) (h' : fs <+: fs') : Leads base fs fs' := by
  obtain ⟨xs, rfl⟩ := h
  exact ⟨xs, none, 0, rfl, by simp, by simpa using h'⟩

theorem of_directive {d : Option Finding} {line : Nat} (hd : d.all Finding.ofDirective = true)
    (hfs : fs = base ++ d.toList) (h : base ++ (d.map (·.moved line none)).toList <+: fs') :
    Leads base fs fs' :=
  ⟨[], d, line, hd, by simpa using hfs, by simpa using h⟩

theorem trans_prefix {base' : List Finding} (h : base <+: base') (hl : Leads base' fs fs') :
    Leads base fs fs' := by
  obtain ⟨ys, rfl⟩ := h
  obtain ⟨xs, d, line, hd, hfs, hfs'⟩ := hl
  exact ⟨ys ++ xs, d, line, hd, by simpa using hfs, by simpa using hfs'⟩

end Leads

end Catalog

/-- What has been found is not lost again. -/
theorem findings_invariant [LawfulFeed σ] (env : ScanEnv) (fs : List Catalog.Finding) :
    Invariant env fun s : Scanner σ => fs <+: s.findings where
  edit s e hs := hs.trans (s.keeps_edit env e).findings
  dropLine _ _ hs := hs
  advance s hs := hs.trans (s.keeps_advance env).findings
  unread _ _ _ _ _ _ hs := hs

/-- What has been noted is not lost again. -/
theorem journal_invariant [LawfulFeed σ] (env : ScanEnv) (n : Notice) :
    Invariant env fun s : Scanner σ => n ∈ s.journal where
  edit s e hs := (s.keeps_edit env e).journal.subset hs
  dropLine _ _ hs := List.mem_append_left _ hs
  advance s hs := (s.keeps_advance env).journal.subset hs
  unread _ _ _ _ _ _ hs := hs

theorem Catalog.journal_ofFeed [LawfulFeed σ] (o : ScanOptions) (file : String) (feed : σ) :
    (Catalog.ofFeed o file feed).journal = (Scanner.run (o.env file) feed).state.journal := by
  unfold Catalog.ofFeed
  cases Scanner.run (o.env file) feed with
  | ok _ s => rfl
  | failed e s => rfl

/-- A catalogue is made of the findings of its scan. -/
theorem Catalog.exists_catalog_eq [LawfulFeed σ] {o : ScanOptions} {file : String} {feed : σ}
    {C : Catalog} (h : (Catalog.ofFeed o file feed).result = .ok C) :
    ∃ s, Scanner.run (o.env file) feed = .ok () s ∧ s.catalog (o.env file) = C := by
  unfold Catalog.ofFeed at h
  split at h
  · next s hs =>
    cases h
    exact ⟨s, hs, rfl⟩
  · cases h

/-- So are its entries. -/
theorem Catalog.exists_run [LawfulFeed σ] {o : ScanOptions} {file : String} {feed : σ}
    {C : Catalog} (h : (Catalog.ofFeed o file feed).result = .ok C) :
    ∃ s, Scanner.run (o.env file) feed = .ok () s
      ∧ ∀ shelf name, (C.table shelf).get? name
        = (sightings shelf name s.findings).foldl see none := by
  obtain ⟨s, hs, rfl⟩ := exists_catalog_eq h
  refine ⟨s, hs, fun shelf name => ?_⟩
  have hempty : (({ name := (o.env file).file } : Catalog).table shelf).get? name = none := by
    cases shelf <;> rfl
  have hfold := get?_foldl_add { name := (o.env file).file } s.findings shelf name
  rw [hempty] at hfold
  rw [← hfold]
  cases shelf <;> rfl

/-- A scan that comes to its end makes a catalogue. -/
theorem Catalog.exists_of_run [LawfulFeed σ] {o : ScanOptions} {file : String} {feed : σ}
    {s : Scanner σ} (h : Scanner.run (o.env file) feed = .ok () s) :
    ∃ C, (Catalog.ofFeed o file feed).result = .ok C
      ∧ ∀ shelf name, (C.table shelf).get? name
        = (sightings shelf name s.findings).foldl see none := by
  have hresult : (Catalog.ofFeed o file feed).result = .ok (s.catalog (o.env file)) := by
    rw [Catalog.ofFeed, h]
  obtain ⟨s', hs', hentries⟩ := exists_run hresult
  rw [h] at hs'
  cases hs'
  exact ⟨_, hresult, hentries⟩

end HeaderAtlas
