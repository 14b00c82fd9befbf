import HeaderAtlas.Proofs.Catalog.Unlined
import HeaderAtlas.Proofs.Directives
import HeaderAtlas.Proofs.Reader.Twins

/-!
# Scans that are the same but for lines

Two scans are kindred if they have written down the same but for lines. What a scan does when
it takes in a comment or carries out a directive does not depend on lines, so kindred scans stay
kindred.

Where their tokens come from is another matter. If two streams give the same tokens for ever
(`TokenStream.Bisim`), the filter makes the same of them, and kindred scans over such streams
come to the same token (`Kindred.seek`).
-/

namespace HeaderAtlas

open Catalog (Finding)

variable {σ τ : Type} [Feed σ] [LawfulFeed σ] [Feed τ] [LawfulFeed τ]

/-! ## Streams with the same tokens -/

namespace TokenStream

/-- Related streams give the same token and are related after it. -/
def Bisim (ρ : TokenStream σ → TokenStream τ → Prop) : Prop :=
  ∀ {a b}, ρ a b → a.next.1 = b.next.1 ∧ ρ a.next.2 b.next.2

namespace Bisim

variable {ρ : TokenStream σ → TokenStream τ → Prop} {a : TokenStream σ} {b : TokenStream τ}

omit [LawfulFeed σ] [LawfulFeed τ] in
theorem skip (hρ : Bisim ρ) (n : Nat) (h : ρ a b) : ρ (a.skip n) (b.skip n) := by
  induction n generalizing a b with
  | zero => exact h
  | succ n ih => exact ih (hρ h).2

omit [LawfulFeed σ] [LawfulFeed τ] in
theorem of_next (hρ : Bisim ρ) (h : ρ a b) {t : Option Token} {a' : TokenStream σ}
    (ha : a.next = (t, a')) : ∃ b', b.next = (t, b') ∧ ρ a' b' := by
  obtain ⟨hnext, hrest⟩ := hρ h
  rw [ha] at hnext hrest
  exact ⟨b.next.2, Prod.ext hnext.symm rfl, hrest⟩

theorem skipAttribute (hρ : Bisim ρ) (h : ρ a b) :
    a.skipAttribute.1 = b.skipAttribute.1 ∧ ρ a.skipAttribute.2 b.skipAttribute.2 := by
  fun_induction TokenStream.skipAttribute a generalizing b with
  | case1 a a' ha =>
    obtain ⟨b', hb, h'⟩ := hρ.of_next h ha
    rw [skipAttribute_of_none hb]
    exact ⟨rfl, h'⟩
  | case2 a t a' ha _ ht =>
    obtain ⟨b', hb, h'⟩ := hρ.of_next h ha
    rw [skipAttribute_of_semicolon hb ht]
    exact ⟨rfl, h'⟩
  | case3 a t a' ha _ ht ih =>
    obtain ⟨b', hb, h'⟩ := hρ.of_next h ha
    rw [skipAttribute_of_other hb ht]
    exact ih h'

theorem directiveArgs (hρ : Bisim ρ) (h : ρ a b) :
    a.directiveArgs.1 = b.directiveArgs.1 ∧ a.directiveArgs.2.1 = b.directiveArgs.2.1
      ∧ ρ a.directiveArgs.2.2 b.directiveArgs.2.2 := by
  fun_induction TokenStream.directiveArgs a generalizing b with
  | case1 a a' ha =>
    obtain ⟨b', hb, h'⟩ := hρ.of_next h ha
    rw [directiveArgs_of_none hb]
    exact ⟨rfl, rfl, h'⟩
  | case2 a t a' ha _ ht args next after hd ih =>
    obtain ⟨b', hb, h'⟩ := hρ.of_next h ha
    rw [directiveArgs_of_continues hb ht]
    have hrest := ih h'
    rw [hd] at hrest
    exact ⟨congrArg (t.text :: ·) hrest.1, hrest.2⟩
  | case3 a t a' ha _ ht =>
    obtain ⟨b', hb, h'⟩ := hρ.of_next h ha
    rw [directiveArgs_of_other hb (by simpa using ht)]
    exact ⟨rfl, rfl, h'⟩

end Bisim

end TokenStream

/-! ## The same but for lines -/

/-- What is kept of a notice does not depend on its line. -/
def Notice.Blind {ν : Type} (note : Notice → ν) : Prop := ∀ n : Notice, note n.unlined = note n

namespace Scanner

/-- The scans have written down the same but for lines, as far as `note` keeps it of notices. -/
structure Kindred {ν : Type} (note : Notice → ν) (s : Scanner σ) (t : Scanner τ) : Prop where
  current : s.current = t.current
  position : s.position = t.position
  findings : s.findings.map Finding.unlined = t.findings.map Finding.unlined
  journal : s.journal.map note = t.journal.map note
  comment : s.comment = t.comment
  topComment : s.topComment = t.topComment
  errorsOff : s.errorsOff = t.errorsOff
  guards : s.guards = t.guards

namespace Kindred

variable {ν : Type} {note : Notice → ν} {env : ScanEnv} {s : Scanner σ} {t : Scanner τ}

section Edits

omit [Feed σ] [LawfulFeed σ] [Feed τ] [LawfulFeed τ]

theorem refl (s : Scanner σ) : s.Kindred note s := ⟨rfl, rfl, rfl, rfl, rfl, rfl, rfl, rfl⟩

theorem symm (h : s.Kindred note t) : t.Kindred note s :=
  ⟨h.current.symm, h.position.symm, h.findings.symm, h.journal.symm, h.comment.symm,
    h.topComment.symm, h.errorsOff.symm, h.guards.symm⟩

theorem trans {υ : Type} {u : Scanner υ} (h : s.Kindred note t) (h' : t.Kindred note u) :
    s.Kindred note u :=
  ⟨h.current.trans h'.current, h.position.trans h'.position, h.findings.trans h'.findings,
    h.journal.trans h'.journal, h.comment.trans h'.comment, h.topComment.trans h'.topComment,
    h.errorsOff.trans h'.errorsOff, h.guards.trans h'.guards⟩

theorem start (env : ScanEnv) (a : σ) (b : τ) :
    (Scanner.start env a).Kindred note (Scanner.start env b) :=
  ⟨rfl, rfl, rfl, rfl, rfl, rfl, rfl, rfl⟩

/-- Kindred scans look alike to a reader. -/
theorem view (h : s.Kindred note t) : s.view = t.view := by
  simp only [Scanner.view, h.current, h.comment, h.errorsOff, h.guards]

/-- Where the tokens come from does not matter. -/
theorem withStream (h : s.Kindred note t) (a : TokenStream σ) (b : TokenStream τ) :
    ({ s with stream := a } : Scanner σ).Kindred note { t with stream := b } :=
  ⟨h.current, h.position, h.findings, h.journal, h.comment, h.topComment, h.errorsOff, h.guards⟩

theorem find (h : s.Kindred note t) {fs fs' : List Finding}
    (hfs : fs.map Finding.unlined = fs'.map Finding.unlined) :
    (s.find fs).Kindred note (t.find fs') :=
  { h with findings := by simp only [Scanner.find, List.map_append, h.findings, hfs] }

theorem forget (h : s.Kindred note t) : s.forget.Kindred note t.forget := { h with comment := rfl }

theorem guard (h : s.Kindred note t) (f : Guards → Guards) :
    (s.guard f).Kindred note (t.guard f) :=
  { h with guards := congrArg f h.guards }

theorem absorb (h : s.Kindred note t) (text : String) :
    (s.absorb env text).Kindred note (t.absorb env text) :=
  { h with
    comment := by simp only [Scanner.absorb, h.comment]
    topComment := by simp only [Scanner.absorb, h.topComment]
    errorsOff := by simp only [Scanner.absorb, h.comment, h.errorsOff] }

theorem unread (h : s.Kindred note t) (c : Token) : (s.unread c).Kindred note (t.unread c) :=
  { h with
    current := rfl
    position := congrArg (· - 1) h.position }

theorem catalog (h : s.Kindred note t) (env : ScanEnv) :
    (s.catalog env).unlined = (t.catalog env).unlined := by
  have hfold : (s.findings.foldl Catalog.add { name := env.file }).unlined
      = (t.findings.foldl Catalog.add { name := env.file }).unlined := by
    rw [Catalog.unlined_foldl_add, Catalog.unlined_foldl_add, h.findings]
  unfold Scanner.catalog
  rw [h.topComment]
  exact congrArg (fun C : Catalog =>
    { C with info := (t.topComment.map FileInfo.ofComment).getD ∅ }) hfold

end Edits

omit [LawfulFeed σ] [LawfulFeed τ]

theorem record (h : s.Kindred note t) (name : String) (category : Category)
    (detail : Option Detail) (extra : Option String) (isStatic : Bool) :
    (s.record env name category detail extra isStatic).Kindred note
      (t.record env name category detail extra isStatic) :=
  h.find (by simp [Finding.unlined, Observation.unlined, ScanEnv.observe, h.guards])

theorem warn (hnote : Notice.Blind note) (h : s.Kindred note t) (topic : Topic)
    (messages : List String) :
    (s.warn env topic messages).Kindred note (t.warn env topic messages) :=
  { h with
    journal := by
      have hnotice : (note ∘ fun m => ⟨topic, m, some (s.place env), s.errorsOff⟩)
          = note ∘ fun m => ⟨topic, m, some (t.place env), t.errorsOff⟩ := by
        funext m
        rw [Function.comp, Function.comp, ← hnote, ← hnote ⟨topic, m, some (t.place env), _⟩,
          h.errorsOff]
        rfl
      simp only [Scanner.warn, List.map_append, List.map_map, h.journal, hnotice] }

theorem act (hnote : Notice.Blind note) (h : s.Kindred note t) (e : Directive.Effect) :
    (s.act env e).Kindred note (t.act env e) := by
  cases e with
  | inclusion name => exact h.record ..
  | definition name params value =>
    unfold Scanner.act
    dsimp only
    rw [h.comment]
    exact ((h.warn hnote _ _).record _ _ _ _ _).forget
  | opening expression => exact h.guard (·.push expression)
  | flip => exact h.guard Guards.flip
  | leave => exact h.guard Guards.leave

theorem acts (hnote : Notice.Blind note) (h : s.Kindred note t) (es : List Directive.Effect) :
    (es.foldl (Scanner.act env) s).Kindred note (es.foldl (Scanner.act env) t) := by
  induction es generalizing s t with
  | nil => exact h
  | cons e es ih => exact ih (h.act hnote e)

theorem define (hnote : Notice.Blind note) (h : s.Kindred note t) (args : List String) :
    (s.define env args).Kindred note (t.define env args) := by
  unfold Scanner.define
  split
  · exact h
  · next m _ =>
    dsimp only
    split
    · exact h
    · exact h.act hnote (.definition m.name m.params m.stringValue?)

theorem obey (hnote : Notice.Blind note) (h : s.Kindred note t) (word : String)
    (args : List String) : (s.obey env word args).Kindred note (t.obey env word args) := by
  unfold Scanner.obey
  dsimp only
  split
  · split
    · exact h
    · exact h.record ..
  · exact h.define hnote args
  · exact h.guard _
  · exact h.guard _
  · exact h.guard _
  · exact h.guard _
  · exact h.guard _
  · exact h

end Kindred

namespace Kindred

variable {ν : Type} {note : Notice → ν} {env : ScanEnv} {s : Scanner σ} {t : Scanner τ}
  {ρ : TokenStream σ → TokenStream τ → Prop}

/-- The filter lets the same tokens through. -/
theorem seek (hnote : Notice.Blind note) (hρ : TokenStream.Bisim ρ) (next : Option Token)
    (s : Scanner σ) (t : Scanner τ) (h : s.Kindred note t) (hst : ρ s.stream t.stream) :
    (Scanner.seek env next s).1 = (Scanner.seek env next t).1
      ∧ (Scanner.seek env next s).2.Kindred note (Scanner.seek env next t).2
      ∧ ρ (Scanner.seek env next s).2.stream (Scanner.seek env next t).2.stream := by
  fun_induction Scanner.seek env next s generalizing t with
  | case1 s => rw [seek_none]; exact ⟨rfl, h, hst⟩
  | case2 s u hu _ ih =>
    obtain ⟨hnext, hrest⟩ := hρ hst
    rw [seek_comment hu, ← hnext]
    exact ih _ ((h.withStream _ _).absorb u.text) hrest
  | case3 s u hu _ s' ih =>
    obtain ⟨hwords, hnext, hrest⟩ := hρ.directiveArgs hst
    rw [seek_directive hu, ← hwords, ← hnext]
    refine ih _ ((h.withStream _ _).obey hnote u.text _) ?_
    rw [stream_obey, stream_obey]
    exact hrest
  | case4 s u hu htext => rw [seek_const hu htext]; exact ⟨rfl, h, hst⟩
  | case5 s u hu htext hattr =>
    obtain ⟨hnext, hrest⟩ := hρ.skipAttribute hst
    rw [seek_attribute hu htext hattr]
    exact ⟨hnext, h.withStream _ _, hrest⟩
  | case6 s u hu htext hattr count hcount _ _ ih =>
    obtain ⟨hnext, hrest⟩ := hρ (hρ.skip count hst)
    rw [seek_ignored hu htext hattr hcount, ← hnext]
    exact ih _ (h.withStream _ _) hrest
  | case7 s u hu htext hattr hnone => rw [seek_name hu htext hattr hnone]; exact ⟨rfl, h, hst⟩
  | case8 s u hc hd hn => rw [seek_other hc hd hn]; exact ⟨rfl, h, hst⟩

/-- The token that is found becomes the current one. -/
theorem advance_of_seek (h : s.Kindred note t)
    (hcurrent : (Scanner.seek env s.stream.next.1 { s with stream := s.stream.next.2 }).1
      = (Scanner.seek env t.stream.next.1 { t with stream := t.stream.next.2 }).1)
    (hseek : (Scanner.seek env s.stream.next.1 { s with stream := s.stream.next.2 }).2.Kindred note
      (Scanner.seek env t.stream.next.1 { t with stream := t.stream.next.2 }).2) :
    (s.advance env).Kindred note (t.advance env) :=
  { hseek with
    current := hcurrent
    position := by rw [Scanner.advance, Scanner.advance, h.position, h.current] }

theorem advance (hnote : Notice.Blind note) (hρ : TokenStream.Bisim ρ) (h : s.Kindred note t)
    (hst : ρ s.stream t.stream) :
    (s.advance env).Kindred note (t.advance env)
      ∧ ρ (s.advance env).stream (t.advance env).stream := by
  obtain ⟨hnext, hrest⟩ := hρ hst
  obtain ⟨hcurrent, hseek, hst'⟩ := seek hnote hρ s.stream.next.1 _
    { t with stream := t.stream.next.2 } (h.withStream s.stream.next.2 _) hrest
  rw [hnext] at hcurrent hseek hst'
  refine ⟨h.advance_of_seek ?_ ?_, ?_⟩
  · rw [hnext]; exact hcurrent
  · rw [hnext]; exact hseek
  · rw [Scanner.advance, hnext]; exact hst'

end Kindred

end Scanner

/-! ## What scans are told apart by -/

section Alike

variable {K : Kinship}

theorem Place.Alike.unlined {p q : Place} (h : p.Alike K q) : p.unlined = q.unlined :=
  congrArg (Place.mk · 0) h.1

theorem Failure.Alike.unlined {e e' : Failure} (h : e.Alike K e') : e.unlined = e'.unlined := by
  cases h with
  | malformed message h => exact congrArg (Failure.malformed message) h.unlined
  | width message h => exact congrArg (Failure.width message) h.unlined

theorem Catalog.Finding.Alike.unlined {f f' : Finding} (h : f.Alike K f') :
    f.unlined = f'.unlined := by
  cases h with
  | declaration name category o h => rfl
  | use name role hcollect h => exact congrArg (Finding.use name role) h.unlined

theorem unlined_eq_of_forall₂ {fs fs' : List Finding} (h : List.Forall₂ (Finding.Alike K) fs fs') :
    fs.map Finding.unlined = fs'.map Finding.unlined := by
  induction h with
  | nil => rfl
  | cons hf _ ih => rw [List.map_cons, List.map_cons, hf.unlined, ih]

omit [LawfulFeed σ] [LawfulFeed τ] in
/-- An edit that differs in lines keeps scans kindred, if a failure that is swallowed is noted
alike. -/
theorem Scanner.Kindred.edit {ν : Type} {note : Notice → ν} {env : ScanEnv} {s : Scanner σ}
    {t : Scanner τ} (hnote : Notice.Blind note)
    (hswallow : ∀ e e' : Failure, K.Switch true → e.Alike K e' →
      note ⟨.swallowedError, e.message, e.place?, true⟩
        = note ⟨.swallowedError, e'.message, e'.place?, true⟩)
    (h : s.Kindred note t) {e e' : Edit} (he : e.Alike K e') :
    (s.edit env e).Kindred note (t.edit env e') := by
  cases he with
  | swallow hoff he =>
    exact { h with
      journal := by
        simp only [Scanner.edit, Scanner.swallow, List.map_append, List.map_cons, List.map_nil,
          h.journal, hswallow _ _ hoff he] }
  | warn topic messages => exact h.warn hnote topic messages
  | find hfs => exact h.find (unlined_eq_of_forall₂ hfs)
  | record name category detail extra isStatic => exact h.record ..
  | forget => exact h.forget

end Alike

end HeaderAtlas
