import HeaderAtlas.Proofs.Reader.Bodies
import HeaderAtlas.Proofs.Reader.Impartial
import HeaderAtlas.Proofs.Reader.Recursion

/-!
# Collecting uses disturbs nothing

Whether uses are collected makes a difference inside bodies only. To tell a call from a use of
a type, a scan that collects uses looks at the tokens after a name and uses some of them up, so
that its rounds over a body are longer. What it uses up is an opening parenthesis or a second
name, and never a brace. So one of its rounds does what one or two rounds do in a scan that does
not collect uses (`Reader.bodyRound_plain`), and both come to the end of the body with
everything the same, but for the uses (`Scanner.plain`).

Outside bodies the scans are in step, since all of the grammar is impartial.
-/

namespace HeaderAtlas

open Catalog (Finding)
open Ending

variable {σ : Type} [Feed σ]

/-- Is it a declaration that was found? -/
def Catalog.Finding.isDeclaration : Finding → Bool
  | declaration .. => true
  | use .. => false

/-- The same, but uses are not collected. -/
def ScanEnv.ignoringUses (env : ScanEnv) : ScanEnv := { env with collectUsages := false }

namespace Scanner

/-- The scan without the uses that it has found. -/
def plain (s : Scanner σ) : Scanner σ :=
  { s with findings := s.findings.filter Finding.isDeclaration }

omit [Feed σ] in
/-- Declarations are found all the same. -/
theorem plain_find {fs : List Finding} (h : ∀ f ∈ fs, f.isDeclaration = true) (s : Scanner σ) :
    (s.find fs).plain = s.plain.find fs := by
  simp only [plain, find, List.filter_append, List.filter_eq_self.mpr h]

omit [Feed σ] in
/-- Uses are not. -/
theorem plain_find_use (name : String) (role : Role) (place : Place) (s : Scanner σ) :
    (s.find [.use name role place]).plain = s.plain := by
  simp [plain, find, Finding.isDeclaration]

variable (env : ScanEnv)

theorem plain_record (name : String) (category : Category) (detail : Option Detail)
    (extra : Option String) (isStatic : Bool) (s : Scanner σ) :
    (s.record env name category detail extra isStatic).plain
      = s.plain.record env.ignoringUses name category detail extra isStatic :=
  plain_find (by simp [Finding.isDeclaration]) s

theorem plain_obey (word : String) (args : List String) (s : Scanner σ) :
    (s.obey env word args).plain = s.plain.obey env.ignoringUses word args := by
  unfold obey
  dsimp only
  split
  · split
    · rfl
    · exact plain_record env ..
  · unfold define
    split
    · rfl
    · dsimp only
      split
      · next hidden => exact (if_pos hidden).symm
      · next hidden => exact (congrArg forget (plain_record env ..)).trans (if_neg hidden).symm
  all_goals rfl

variable [LawfulFeed σ]

/-- Whether uses are collected makes no difference to the filter. -/
theorem plain_seek (next : Option Token) (s : Scanner σ) :
    seek env.ignoringUses next s.plain
      = ((seek env next s).1, (seek env next s).2.plain) := by
  fun_induction seek env next s with
  | case1 s => exact seek_none
  | case2 s t ht _ ih =>
    exact (seek_comment ht).trans ih
  | case3 s t ht _ s' ih =>
    rw [plain_obey env] at ih
    exact (seek_directive ht).trans ih
  | case4 s t ht htext => exact seek_const ht htext
  | case5 s t ht htext hattr => exact seek_attribute ht htext hattr
  | case6 s t ht htext hattr count hcount _ _ ih =>
    have hseek : seek env.ignoringUses (some t) s.plain = _ :=
      seek_ignored ht htext hattr hcount
    exact hseek.trans ih
  | case7 s t ht htext hattr hnone => exact seek_name ht htext hattr hnone
  | case8 s t hc hd hn => exact seek_other hc hd hn

theorem plain_advance (s : Scanner σ) :
    (s.advance env).plain = s.plain.advance env.ignoringUses := by
  have hseek := plain_seek env s.stream.next.1 { s with stream := s.stream.next.2 }
  have hadvance : s.plain.advance env.ignoringUses
      = { (seek env.ignoringUses s.stream.next.1
            { s.plain with stream := s.stream.next.2 }).2 with
          current := (seek env.ignoringUses s.stream.next.1
            { s.plain with stream := s.stream.next.2 }).1
          position := s.position + s.current.toList.length } := rfl
  rw [hadvance]
  exact (congrArg (fun p => ({ p.2 with
    current := p.1, position := s.position + s.current.toList.length } : Scanner σ)) hseek).symm

end Scanner

/-! ## Bodies -/

namespace Reader

open Scanner

variable [LawfulFeed σ] {env : ScanEnv} {s : Scanner σ}

/-- The token is not a brace. -/
def InBlock (t : Token) : Prop := t.isSep "\x7b" = false ∧ t.isSep "\x7d" = false

/-- Noting a use takes at most one token more, which is not a brace. -/
theorem plain_note (env : ScanEnv) (t : Token) (s : Scanner σ) :
    (s.note env t).plain = s.plain
      ∨ ∃ u, s.current = some u ∧ InBlock u ∧ (s.note env t).plain = (s.advance env).plain := by
  unfold Scanner.note
  split
  · exact .inl rfl
  · exact .inl (plain_find_use ..)
  · split
    · next hopen =>
      obtain ⟨u, hcur, hu⟩ := (Option.any_eq_true ..).mp hopen
      simp only [Token.isSep, Bool.and_eq_true, beq_iff_eq] at hu
      refine .inr ⟨u, hcur, by simp [InBlock, Token.isSep, hu.2], ?_⟩
      rw [plain_advance env, plain_advance env]
      exact congrArg _ (plain_find_use ..)
    · split
      · next hname =>
        obtain ⟨u, hcur, hu⟩ := (Option.any_eq_true ..).mp hname
        rw [Token.isName, beq_iff_eq] at hu
        refine .inr ⟨u, hcur, by simp [InBlock, Token.isSep, hu], ?_⟩
        split
        · exact plain_find_use ..
        · rfl
      · exact .inl rfl

/-- Where uses are not collected, a token inside a block is passed over. -/
theorem run_loop_bodyRound_ignoringUses {u : Token} (hcur : s.current = some u) (hu : InBlock u)
    (depth : Nat) :
    (loop bodyRound depth).run (Routine.run env.ignoringUses) env.ignoringUses s.plain
      = (loop bodyRound depth).run (Routine.run env.ignoringUses) env.ignoringUses
        (s.advance env).plain := by
  have hcur' : s.plain.current = some u := hcur
  rw [plain_advance env]
  refine progresses_bodyRound.run_loop ?_
  simp [run_bodyRound_eq _ _ _ hcur', hu.1, hu.2, ScanEnv.ignoringUses]

/-- A round that collects uses does what one or two rounds do otherwise. -/
theorem bodyRound_plain (hcollect : env.collectUsages = true) (depth : Nat) (s : Scanner σ) :
    (∃ b s', (bodyRound depth).run (Routine.run env) env s = .ok (.done b) s'
      ∧ (bodyRound depth).run (Routine.run env.ignoringUses) env.ignoringUses s.plain
        = .ok (.done b) s'.plain)
    ∨ ∃ d s', (bodyRound depth).run (Routine.run env) env s = .ok (.again d) s'
      ∧ (loop bodyRound depth).run (Routine.run env.ignoringUses) env.ignoringUses s.plain
        = (loop bodyRound d).run (Routine.run env.ignoringUses) env.ignoringUses s'.plain := by
  cases hcur : s.current with
  | none =>
    refine .inl ⟨depth, s, ?_, ?_⟩
    · simp [bodyRound, hcur]
    · simp [bodyRound, plain, hcur]
  | some u =>
    have hcur' : s.plain.current = some u := hcur
    cases hopen : u.isSep "\x7b" with
    | true =>
      refine .inr ⟨depth + 1, s.advance env, ?_, ?_⟩
      · simp [run_bodyRound_eq _ _ _ hcur, hopen]
      · rw [plain_advance env]
        refine progresses_bodyRound.run_loop ?_
        simp [run_bodyRound_eq _ _ _ hcur', hopen]
    | false =>
      cases hshut : u.isSep "\x7d" with
      | true =>
        by_cases hone : depth = 1
        · refine .inl ⟨0, s.forget, ?_, ?_⟩
          · simp [run_bodyRound_eq _ _ _ hcur, hopen, hshut, hone]
          · simp [run_bodyRound_eq _ _ _ hcur', hopen, hshut, hone]
            rfl
        · refine .inr ⟨depth - 1, s.forget.advance env, ?_, ?_⟩
          · simp [run_bodyRound_eq _ _ _ hcur, hopen, hshut, hone]
          · rw [plain_advance env]
            refine progresses_bodyRound.run_loop ?_
            simp [run_bodyRound_eq _ _ _ hcur', hopen, hshut, hone]
            rfl
      | false =>
        have hround : (bodyRound depth).run (Routine.run env) env s
            = .ok (.again depth) ((s.advance env).note env u) := by
          simp [run_bodyRound_eq _ _ _ hcur, hopen, hshut, hcollect]
        refine .inr ⟨depth, _, hround, ?_⟩
        rw [run_loop_bodyRound_ignoringUses hcur ⟨hopen, hshut⟩]
        rcases plain_note env u (s.advance env) with hs' | ⟨v, hv, hblock, hs'⟩
        · rw [hs']
        · rw [hs', run_loop_bodyRound_ignoringUses hv hblock]

/-- A body is read to the same end. -/
theorem run_loop_bodyRound_plain (hcollect : env.collectUsages = true) (depth : Nat)
    (s : Scanner σ) :
    ∃ b s', (loop bodyRound depth).run (Routine.run env) env s = .ok b s'
      ∧ (loop bodyRound depth).run (Routine.run env.ignoringUses) env.ignoringUses s.plain
        = .ok b s'.plain := by
  induction hn : s.size using Nat.strongRecOn generalizing depth s with
  | ind n ih =>
    rcases bodyRound_plain hcollect depth s with ⟨b, s', hrun, hrun'⟩ | ⟨d, s', hrun, hloop⟩
    · exact ⟨b, s', iterate_done hrun, iterate_done hrun'⟩
    · have hsteady := (steady_run env (Routine.steady_run env) (bodyRound depth) s).of_eq hrun
      have hpassed := hsteady.passed_iff.mpr (progresses_bodyRound σ env depth d s s' hrun)
      obtain ⟨b, s'', hrest, hrest'⟩ := ih s'.size (hn ▸ hpassed.2) d s' rfl
      exact ⟨b, s'', (progresses_bodyRound.run_loop hrun).trans hrest, hloop.trans hrest'⟩

end Reader

/-! ## The whole scan -/

open Reader Scanner

/-- Two scans of which only the first collects uses. -/
def Kinship.usages (env : ScanEnv) : Kinship where
  env := { env with collectUsages := true }
  collects := false
  Switch _ := True
  Line := Eq
  Whole m := m = readBody

/-- Neither scan notes a use outside bodies. -/
theorem plain_edit {env : ScanEnv} {e e' : Edit} (h : e.Alike (.usages env) e') (s : Scanner σ) :
    (s.edit (Kinship.usages env).env e).plain = s.plain.edit (Kinship.usages env).env' e' := by
  have heq := h.eq fun _ _ => id
  subst heq
  cases h with
  | find h =>
    refine plain_find (fun f hf => ?_) s
    cases List.forall₂_same.mp h f hf with
    | declaration name category o h => rfl
    | use name role hcollect h => cases hcollect
  | record name category detail extra isStatic => exact plain_record (Kinship.usages env).env ..
  | swallow hoff h => rfl
  | warn topic messages => rfl
  | forget => rfl

variable [LawfulFeed σ]

theorem parallel_usages (env : ScanEnv) :
    Parallel (.usages env) (fun _ : Scanner σ => True) (fun s t : Scanner σ => t = s.plain) where
  view h := by rw [h]; rfl
  switch _ := trivial
  line h := by rw [h]; rfl
  position h := by rw [h]; rfl
  edit h he := by rw [h, plain_edit he]
  dropLine _ h _ := by rw [h]; rfl
  advance h _ := by rw [h]; exact (plain_advance (Kinship.usages env).env _).symm
  unread _ _ _ h := by rw [h]; rfl
  whole {m inner inner' s t} hm hsteady hsteady' h := by
    subst hm h
    rw [(plainly_of_no_call hsteady regular_readBody).1,
      (plainly_of_no_call hsteady' regular_readBody).1]
    obtain ⟨b, s', hrun, hrun'⟩ := run_loop_bodyRound_plain (rfl :
      (Kinship.usages env).env.collectUsages = true) 1 s
    have hbody : readBody.run (Routine.run (Kinship.usages env).env) (Kinship.usages env).env s
        = .ok () s' := by
      rw [readBody, run_bind, hrun]
      rfl
    have hbody' : readBody.run (Routine.run (Kinship.usages env).env') (Kinship.usages env).env'
        s.plain = .ok () s'.plain := by
      rw [readBody, run_bind]
      exact congrArg (Ending.andThen · _) hrun'
    rw [hbody, hbody']
    exact .ok rfl rfl

namespace Catalog

/-- The catalogue without the uses of names. -/
def withoutUsages (c : Catalog) : Catalog := { c with usages := ∅ }

theorem record_withoutUsages (c : Catalog) (name : String) (category : Category) (o : Observation) :
    c.withoutUsages.record name category o = (c.record name category o).withoutUsages := by
  unfold record
  split
  · cases category <;> rfl
  · rfl

theorem withoutUsages_recordUse (c : Catalog) (name : String) (role : Role) (place : Place) :
    (c.recordUse name role place).withoutUsages = c.withoutUsages := by
  unfold recordUse
  split <;> rfl

/-- Leaving out uses leaves out the usages of the catalogue, and nothing else. -/
theorem foldl_add_declarations (fs : List Finding) (c : Catalog) :
    (fs.filter Finding.isDeclaration).foldl add c.withoutUsages
      = (fs.foldl add c).withoutUsages := by
  induction fs generalizing c with
  | nil => rfl
  | cons f fs ih =>
    cases f with
    | declaration name category o =>
      rw [List.foldl_cons, ← ih]
      exact congrArg (List.foldl add · _) (record_withoutUsages c name category o)
    | use name role place =>
      rw [List.foldl_cons, ← ih]
      exact congrArg (List.foldl add · _) (withoutUsages_recordUse c name role place).symm

end Catalog

/-- **Collecting uses disturbs nothing.** The scan that collects them and the scan that does not
fail alike or make the same catalogue, but for the usages, and note the same. -/
theorem ofFeed_collectUsages (o : ScanOptions) (file : String) (feed : σ) :
    (Catalog.ofFeed { o with collectUsages := some false } file feed).result
        = (Catalog.ofFeed { o with collectUsages := some true } file feed).result.map
          Catalog.withoutUsages
      ∧ (Catalog.ofFeed { o with collectUsages := some false } file feed).journal
        = (Catalog.ofFeed { o with collectUsages := some true } file feed).journal := by
  have hbody : Impartial (.usages (o.env file)) readBody := ⟨.whole rfl⟩
  have hfile : Twin (.usages (o.env file)) Eq readFile readFile := Impartial.twin
  have htally : Tally (.usages (o.env file)) (fun s t : Scanner σ => t = s.plain) Eq
      (Scanner.run (ScanOptions.env { o with collectUsages := some true } file) feed)
      (Scanner.run (ScanOptions.env { o with collectUsages := some false } file) feed) :=
    (parallel_usages (o.env file)).reader (fun r => Impartial.twin) hfile rfl fun _ _ => trivial
  unfold Catalog.ofFeed
  generalize Scanner.run (ScanOptions.env { o with collectUsages := some true } file) feed = r
    at htally ⊢
  generalize Scanner.run (ScanOptions.env { o with collectUsages := some false } file) feed = r'
    at htally ⊢
  cases htally with
  | @ok s t _ _ _ hs =>
    subst hs
    refine ⟨congrArg Except.ok ?_, rfl⟩
    have hfold := Catalog.foldl_add_declarations s.findings { name := file }
    exact congrArg (fun C : Catalog =>
      { C with info := (s.topComment.map FileInfo.ofComment).getD ∅ }) hfold
  | failed _ he hs =>
    subst hs
    rw [he.eq fun _ _ => id]
    exact ⟨rfl, rfl⟩

/-- A function that declares a variable and makes a call. -/
def bodyWithUses : List Token :=
  [⟨.name, "static"⟩, ⟨.name, "void"⟩, ⟨.name, "f"⟩, ⟨.separator, "("⟩, ⟨.name, "void"⟩,
    ⟨.separator, ")"⟩, ⟨.separator, "\x7b"⟩, ⟨.name, "virPtr"⟩, ⟨.name, "p"⟩, ⟨.separator, ";"⟩,
    ⟨.name, "virFree"⟩, ⟨.separator, "("⟩, ⟨.name, "p"⟩, ⟨.separator, ")"⟩, ⟨.separator, ";"⟩,
    ⟨.separator, "\x7d"⟩, ⟨.name, "int"⟩, ⟨.name, "x"⟩, ⟨.separator, ";"⟩]

theorem collectUsages_of_bodyWithUses :
    (Catalog.ofFeed { collectUsages := some true } "a.c" bodyWithUses).result.toOption.map
        (·.usages.names) = some ["virFree", "virPtr"]
      ∧ (Catalog.ofFeed { collectUsages := some false } "a.c" bodyWithUses).result
        = (Catalog.ofFeed { collectUsages := some true } "a.c" bodyWithUses).result.map
          Catalog.withoutUsages :=
  ⟨by decide +kernel, (ofFeed_collectUsages {} "a.c" bodyWithUses).1⟩

end HeaderAtlas
