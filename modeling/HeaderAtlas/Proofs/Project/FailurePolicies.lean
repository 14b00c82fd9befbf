import HeaderAtlas.Project.Survey
import HeaderAtlas.Proofs.Catalog.Repetition

/-!
# What is lost with a file that cannot be catalogued

A survey meets a file that it cannot catalogue. It either ends there or leaves the file out
and goes on. The two ways agree as far as they can: to leave out the bad files is to survey
the good ones (`Agrees`), and to end is to report the first of the bad ones
(`run_abort_and_skip`).

A bad file does leave a trace, for the notices that were made before it failed stay in the
journal. This can only be seen in the journal, because a merge reads no notices: what it
makes of two catalogues does not depend on the journal (`union_eq`, `enrich_eq`), and it
writes the same notices whatever was written before (`journal_union`, `journal_enrich`). So
each step of a survey keeps two surveys in agreement (`Steady`), and with it each list of
files does.
-/

namespace HeaderAtlas

/-- What a union makes of two catalogues does not depend on the journal. -/
theorem Catalog.union_eq (c h : Catalog) (j k : Journal) : (c.union h j).1 = (c.union h k).1 := by
  refine eq_of_get? rfl rfl (fun shelf name => ?_) (fun name => ?_)
  · by_cases hshelf : shelf = .macros
    · subst hshelf
      simp only [table]
      rw [macros_union, macros_union]
    · rw [get?_union c h j hshelf, get?_union c h k hshelf]
  · rw [usages_union, usages_union]

namespace Survey

/-! ## One file -/

/-- The two surveys have come to the same, but for the journal and the files left out. All
that was noted in the survey `t` was noted in `s`, in the same order. -/
structure Agrees (s t : Survey) : Prop where
  catalog : s.catalog = t.catalog
  headers : s.headers = t.headers
  sources : s.sources = t.sources
  journal : t.journal.Sublist s.journal

theorem Agrees.refl (s : Survey) : s.Agrees s := ⟨rfl, rfl, rfl, .refl _⟩

/-- Notices that are made in both surveys, or in the first one only. -/
theorem Agrees.note {s t : Survey} (h : s.Agrees t) {j k : Journal} (hjk : k.Sublist j) :
    Agrees { s with journal := s.journal ++ j } { t with journal := t.journal ++ k } :=
  ⟨h.catalog, h.headers, h.sources, h.journal.append hjk⟩

/-- A way to take in the catalogue of a file that does not look at the journal and leaves out
no file. -/
structure Steady (add : Survey → String → Catalog → Survey) : Prop where
  agrees : ∀ {s t : Survey} (file : String) (c : Catalog), s.Agrees t →
    (add s file c).Agrees (add t file c)
  skipped : ∀ (s : Survey) (file : String) (c : Catalog), (add s file c).skipped = s.skipped

theorem steady_addHeader : Steady addHeader where
  agrees {s t} file c h := by
    refine ⟨?_, congrArg (·.insert file c) h.headers, h.sources, ?_⟩
    · show (s.catalog.union c s.journal).1 = (t.catalog.union c t.journal).1
      rw [h.catalog]
      exact t.catalog.union_eq c s.journal t.journal
    · show (t.catalog.union c t.journal).2.Sublist (s.catalog.union c s.journal).2
      rw [Catalog.journal_union, Catalog.journal_union, h.catalog]
      exact h.journal.append (.refl _)
  skipped _ _ _ := rfl

theorem steady_addSource : Steady addSource where
  agrees {s t} file c h := by
    refine ⟨?_, h.headers, congrArg (·.insert file c) h.sources, ?_⟩
    · show (s.catalog.enrich c s.journal).1 = (t.catalog.enrich c t.journal).1
      rw [h.catalog]
      exact t.catalog.enrich_eq c s.journal t.journal
    · show (t.catalog.enrich c t.journal).2.Sublist (s.catalog.enrich c s.journal).2
      rw [Catalog.journal_enrich, Catalog.journal_enrich, h.catalog]
      exact h.journal.append (.refl _)
  skipped _ _ _ := rfl

/-! ## A list of files -/

section

variable (look : String → Outcome Catalog)

/-- The files that can be catalogued. -/
def sound (paths : List String) : List String := paths.filter fun path => (look path).result.isOk

/-- The files that cannot be catalogued, and why. -/
def failures (paths : List String) : List Skipped :=
  paths.filterMap fun path =>
    match (look path).result with
    | .ok _ => none
    | .error failure => some ⟨path, failure⟩

/-- The files that can be catalogued, with their catalogues. -/
def contents (paths : List String) : List (String × Catalog) :=
  paths.filterMap fun path => (look path).result.toOption.map (path, ·)

/-- Takes in one file after the other. -/
def takeAll (onFailure : OnFailure) (add : Survey → String → Catalog → Survey) (s : Survey)
    (paths : List String) : Except Failure Survey :=
  paths.foldlM (fun s path => take onFailure add s path (look path)) s

variable {look} {add : Survey → String → Catalog → Survey}

theorem takeAll_cons {onFailure : OnFailure} {s : Survey} {path : String} {paths : List String} :
    takeAll look onFailure add s (path :: paths)
      = take onFailure add s path (look path) >>= (takeAll look onFailure add · paths) :=
  List.foldlM_cons

/-- A file that can be catalogued is taken in, whatever is done about failures. -/
theorem takeAll_cons_ok {path : String} {c : Catalog} (h : (look path).result = .ok c)
    (onFailure : OnFailure) (s : Survey) (paths : List String) :
    takeAll look onFailure add s (path :: paths)
      = takeAll look onFailure add
          (add { s with journal := s.journal ++ (look path).journal } path c) paths := by
  simp only [takeAll_cons, take, h]
  rfl

theorem takeAll_abort_cons_error {path : String} {failure : Failure}
    (h : (look path).result = .error failure) (s : Survey) (paths : List String) :
    takeAll look .abort add s (path :: paths) = .error failure := by
  simp only [takeAll_cons, take, h]
  rfl

theorem takeAll_skip_cons_error {path : String} {failure : Failure}
    (h : (look path).result = .error failure) (s : Survey) (paths : List String) :
    takeAll look .skip add s (path :: paths)
      = takeAll look .skip add
          { s with
            journal := s.journal ++ (look path).journal
            skipped := s.skipped ++ [⟨path, failure⟩] } paths := by
  simp only [takeAll_cons, take, h]
  rfl

variable (look) in
/-- Leaving out the bad files comes to the same as taking in the good ones. -/
theorem takeAll_skip (hadd : Steady add) {s t : Survey} (h : s.Agrees t) (paths : List String) :
    ∃ s' t', takeAll look .skip add s paths = .ok s'
      ∧ takeAll look .abort add t (sound look paths) = .ok t'
      ∧ s'.Agrees t' ∧ s'.skipped = s.skipped ++ failures look paths := by
  induction paths generalizing s t with
  | nil => exact ⟨s, t, rfl, rfl, h, by simp [failures]⟩
  | cons path paths ih =>
    cases hlook : (look path).result with
    | ok c =>
      obtain ⟨s', t', hs', ht', hagrees, hskipped⟩ :=
        ih (hadd.agrees path c (h.note (.refl (look path).journal)))
      have hsound : sound look (path :: paths) = path :: sound look paths :=
        List.filter_cons_of_pos (by rw [hlook]; rfl)
      refine ⟨s', t', ?_, ?_, hagrees, ?_⟩
      · rw [takeAll_cons_ok hlook, hs']
      · rw [hsound, takeAll_cons_ok hlook, ht']
      · rw [hskipped, hadd.skipped]
        simp [failures, hlook]
    | error failure =>
      -- Only the first survey notices the file.
      have hnoted : Agrees { s with
          journal := s.journal ++ (look path).journal
          skipped := s.skipped ++ [⟨path, failure⟩] } t :=
        ⟨h.catalog, h.headers, h.sources, h.journal.trans (List.sublist_append_left ..)⟩
      obtain ⟨s', t', hs', ht', hagrees, hskipped⟩ := ih hnoted
      have hsound : sound look (path :: paths) = sound look paths :=
        List.filter_cons_of_neg (by rw [hlook]; exact Bool.false_ne_true)
      refine ⟨s', t', ?_, ?_, hagrees, ?_⟩
      · rw [takeAll_skip_cons_error hlook, hs']
      · rw [hsound, ht']
      · rw [hskipped]
        simp [failures, hlook]

/-- A survey that ends at the first bad file reports that one. If there is none, it makes no
difference what would be done about it. -/
theorem takeAll_abort (s : Survey) (paths : List String) :
    takeAll look .abort add s paths
      = match failures look paths with
        | [] => takeAll look .skip add s paths
        | f :: _ => .error f.failure := by
  induction paths generalizing s with
  | nil => rfl
  | cons path paths ih =>
    cases hlook : (look path).result with
    | ok c =>
      have hfailures : failures look (path :: paths) = failures look paths := by
        simp [failures, hlook]
      rw [takeAll_cons_ok hlook, takeAll_cons_ok hlook, hfailures, ih]
    | error failure =>
      have hfailures : failures look (path :: paths)
          = ⟨path, failure⟩ :: failures look paths := by
        simp [failures, hlook]
      rw [takeAll_abort_cons_error hlook, hfailures]

/-- What a survey has kept of the files that it took in, one after the other. -/
theorem takeAll_skip_foldl {β : Type} (kept : Survey → β) (keep : β → String × Catalog → β)
    {s s' : Survey} {paths : List String} (h : takeAll look .skip add s paths = .ok s')
    (hadd : ∀ s file c, kept (add s file c) = keep (kept s) (file, c))
    (hnote : ∀ (s : Survey) journal skipped, kept { s with journal, skipped } = kept s) :
    kept s' = (contents look paths).foldl keep (kept s) := by
  induction paths generalizing s with
  | nil => cases h; rfl
  | cons path paths ih =>
    cases hlook : (look path).result with
    | ok c =>
      have hcontents : contents look (path :: paths) = (path, c) :: contents look paths := by
        simp [contents, hlook, Except.toOption]
      rw [takeAll_cons_ok hlook] at h
      rw [ih h, hcontents, List.foldl_cons, hadd]
      exact congrArg (fun b => (contents look paths).foldl keep (keep b (path, c)))
        (hnote s _ s.skipped)
    | error failure =>
      have hcontents : contents look (path :: paths) = contents look paths := by
        simp [contents, hlook, Except.toOption]
      rw [takeAll_skip_cons_error hlook] at h
      rw [ih h, hcontents, hnote]

end

/-! ## Headers and sources -/

section

variable (settings : Settings) (disk : Disk)

/-- What cataloguing one file of a project comes to. -/
def catalogued (kind : FileKind) (path : String) : Outcome Catalog :=
  Catalog.ofFile { settings, kind := some kind } disk path

/-- The files of a project that can be catalogued. -/
def soundFiles (files : FileLists) : FileLists where
  headers := sound (catalogued settings disk .header) files.headers
  sources := sound (catalogued settings disk .source) files.sources

/-- The files of a project that cannot be catalogued, and why. -/
def failuresIn (files : FileLists) : List Skipped :=
  failures (catalogued settings disk .header) files.headers
    ++ failures (catalogued settings disk .source) files.sources

theorem run_eq (name : String) (onFailure : OnFailure) (files : FileLists) :
    run settings disk name onFailure files
      = takeAll (catalogued settings disk .header) onFailure addHeader { catalog := { name } }
          files.headers
        >>= (takeAll (catalogued settings disk .source) onFailure addSource · files.sources) :=
  rfl

/-- A survey keeps the catalogues of the headers and sources that can be catalogued. Its own is the
union of the headers, in order, enriched by the sources. -/
theorem run_skip_eq {name : String} {files : FileLists} {s : Survey}
    (h : run settings disk name .skip files = .ok s) :
    s.headers = (contents (catalogued settings disk .header) files.headers).foldl
        (fun m p => m.insert p.1 p.2) ∅
      ∧ s.sources = (contents (catalogued settings disk .source) files.sources).foldl
        (fun m p => m.insert p.1 p.2) ∅
      ∧ s.catalog = (contents (catalogued settings disk .source) files.sources).foldl
        (fun C p => (C.enrich p.2 []).1)
          ((contents (catalogued settings disk .header) files.headers).foldl
            (fun C p => (C.union p.2 []).1) { name }) := by
  obtain ⟨s₁, -, hs₁, -⟩ := takeAll_skip (catalogued settings disk .header) steady_addHeader
    (.refl { catalog := { name } }) files.headers
  rw [run_eq, hs₁] at h
  have hs : takeAll (catalogued settings disk .source) .skip addSource s₁ files.sources = .ok s := h
  -- Sources leave the headers as they are, and headers the sources.
  have hheaders : s.headers = s₁.headers :=
    (takeAll_skip_foldl headers (fun m _ => m) hs (fun _ _ _ => rfl) fun _ _ _ => rfl).trans
      (List.foldl_fixed' (fun _ => rfl) _)
  have hsources : s₁.sources = ∅ :=
    (takeAll_skip_foldl sources (fun m _ => m) hs₁ (fun _ _ _ => rfl) fun _ _ _ => rfl).trans
      (List.foldl_fixed' (fun _ => rfl) _)
  have hunion : s₁.catalog = (contents (catalogued settings disk .header) files.headers).foldl
      (fun C p => (C.union p.2 []).1) { name } :=
    takeAll_skip_foldl catalog (fun C p => (C.union p.2 []).1) hs₁
      (fun s _ c => s.catalog.union_eq c s.journal []) fun _ _ _ => rfl
  refine ⟨?_, ?_, ?_⟩
  · rw [hheaders]
    exact takeAll_skip_foldl headers (fun m p => m.insert p.1 p.2) hs₁ (fun _ _ _ => rfl)
      fun _ _ _ => rfl
  · rw [← hsources]
    exact takeAll_skip_foldl sources (fun m p => m.insert p.1 p.2) hs (fun _ _ _ => rfl)
      fun _ _ _ => rfl
  · rw [← hunion]
    exact takeAll_skip_foldl catalog (fun C p => (C.enrich p.2 []).1) hs
      (fun s _ c => s.catalog.enrich_eq c s.journal []) fun _ _ _ => rfl

/-- **A survey that goes on and one that ends agree.** A survey that leaves out the files
that cannot be catalogued always comes to an end. It arrives at the same catalogues as a
survey of the other files, which has nothing to leave out; it has left out just the bad
files, the headers before the sources; and all notices of the other survey are among its own,
in the same order. A survey that ends at the first bad file reports this file's failure, and
comes to the same as the one that goes on if there is none. -/
theorem run_abort_and_skip (name : String) (files : FileLists) :
    ∃ s t, run settings disk name .skip files = .ok s
      ∧ run settings disk name .abort (soundFiles settings disk files) = .ok t
      ∧ s.catalog = t.catalog ∧ s.headers = t.headers ∧ s.sources = t.sources
      ∧ s.skipped = failuresIn settings disk files
      ∧ t.journal.Sublist s.journal
      ∧ run settings disk name .abort files
          = match failuresIn settings disk files with
            | [] => .ok s
            | f :: _ => .error f.failure := by
  obtain ⟨s₁, t₁, hs₁, ht₁, hagrees₁, hskipped₁⟩ :=
    takeAll_skip (catalogued settings disk .header) steady_addHeader
      (.refl { catalog := { name } }) files.headers
  obtain ⟨s, t, hs, ht, hagrees, hskipped⟩ :=
    takeAll_skip (catalogued settings disk .source) steady_addSource hagrees₁ files.sources
  have hskip : run settings disk name .skip files = .ok s := by
    rw [run_eq, hs₁]
    exact hs
  refine ⟨s, t, hskip, ?_, hagrees.catalog, hagrees.headers, hagrees.sources, ?_,
    hagrees.journal, ?_⟩
  · rw [run_eq, soundFiles, ht₁]
    exact ht
  · rw [hskipped, hskipped₁]
    rfl
  · rw [run_eq, takeAll_abort, failuresIn]
    cases failures (catalogued settings disk .header) files.headers with
    | cons f fs => rfl
    | nil =>
      rw [hs₁]
      show takeAll _ .abort addSource s₁ files.sources = _
      rw [takeAll_abort, hs]
      rfl

end

end Survey

end HeaderAtlas
