import HeaderAtlas.Proofs.Reader.Rounds

/-!
# The checks never fire

A routine is read inside itself only after a token was passed: a type after the keyword of
an aggregate or the parenthesis of a function pointer, a declaration after `extern`. A
declaration may begin with a type, but not the other way round. So the check that a routine
makes before it begins another one is always met (`Routine.run_eq`), and with it every
reader of the grammar does what `run` says, in finitely many steps (`Regular.exists_does`,
`Does.eq_run`).
-/

namespace HeaderAtlas

open Ending

variable {σ : Type} [Feed σ] [LawfulFeed σ] {α β : Type}

namespace Reader

section Walk

variable {inner : (r : Routine) → Scanner σ → Ending σ r.Result} {env : ScanEnv} {s u : Scanner σ}

/-- What calls no routine does what `run` says, whatever the routines do. -/
theorem plainly_of_no_call (hsteady : ∀ r s, SteadyFrom s (inner r s)) {m : Reader α}
    (hm : m.Regular fun _ => False) : Plainly inner env m u :=
  hm.plainly hsteady (fun _ _ h _ => h.elim) u (.refl u)

/-- Where a token has been passed since `s`, the routines do what `run` says. -/
def Deep (inner : (r : Routine) → Scanner σ → Ending σ r.Result) (env : ScanEnv)
    (s : Scanner σ) : Prop :=
  ∀ q u, s.Steady u → s.position < u.position →
    inner q u = q.run env u ∧ ∃ log, Does env q.body u log (q.run env u)

/-- What begins by going on from a token may call any routine after that. -/
theorem Deep.advance_bind (hdeep : Deep inner env s) (hsteady : ∀ r s, SteadyFrom s (inner r s))
    {f : Unit → Reader α} (hf : (advance >>= f).Regular fun _ => True) {t : Token}
    (hu : s.Steady u) (hcur : u.current = some t) : Plainly inner env (advance >>= f) u := by
  have hadvance := Scanner.steady_advance env u
  have hpos : s.position < (u.advance env).position := by
    have := hu.position
    rw [Scanner.position_advance_of_some env hcur]
    omega
  refine (plainly_of_no_call hsteady regular_advance).bind fun a s' hr => ?_
  cases hr
  refine (hf.2 ()).plainly hsteady (fun q v _ hv => ?_) _ (.refl _)
  exact hdeep q v ((hu.trans hadvance).trans hv) (Nat.lt_of_lt_of_le hpos hv.position)

theorem Deep.readBase (hdeep : Deep inner env s) (hsteady : ∀ r s, SteadyFrom s (inner r s))
    (hu : s.Steady u) (ty : TypeSpec) : Plainly inner env (readBase ty) u := by
  have hword : ∀ {w : String}, u.current.any (Token.isWord w) = true → ∃ t, u.current = some t := by
    intro w hw
    obtain ⟨t, hcur, -⟩ := (Option.any_eq_true ..).mp hw
    exact ⟨t, hcur⟩
  have hlook : ∀ w, Plainly inner env (atWord w) u :=
    fun w => plainly_of_no_call hsteady (regular_atWord w)
  -- Of all bases, only aggregates read types inside, and that after their keyword.
  refine (hlook _).bind_look (run_atWord ..) ?_
  split
  · exact plainly_of_no_call hsteady (by simp)
  refine (hlook _).bind_look (run_atWord ..) ?_
  split
  · exact plainly_of_no_call hsteady (by simp)
  refine (hlook _).bind_look (run_atWord ..) ?_
  split
  · next hw =>
    obtain ⟨t, hcur⟩ := hword hw
    exact hdeep.advance_bind hsteady (regular_readAggregate trivial .struct ty) hu hcur
  refine (hlook _).bind_look (run_atWord ..) ?_
  split
  · next hw =>
    obtain ⟨t, hcur⟩ := hword hw
    exact hdeep.advance_bind hsteady (regular_readAggregate trivial .union ty) hu hcur
  refine (hlook _).bind_look (run_atWord ..) ?_
  split
  · exact plainly_of_no_call hsteady (by simp)
  · refine plainly_of_no_call hsteady ?_
    simp only [regular_bind, regular_ite, regular_atName, regular_take, regular_unexpected,
      regular_pure, true_and, implies_true, ite_self, if_true_right]
    intro _ _ t
    cases t <;> simp

theorem Deep.wholeType (hdeep : Deep inner env s) (hsteady : ∀ r s, SteadyFrom s (inner r s)) :
    Plainly inner env wholeType s := by
  refine (plainly_of_no_call hsteady regular_atEnd).bind_look (run_atEnd ..) ?_
  split
  · exact plainly_of_no_call hsteady (regular_pure _)
  refine (plainly_of_no_call hsteady (regular_takeWords ..)).bind fun ty s₁ h₁ => ?_
  have hs₁ := (steady_run env hsteady _ s).of_eq h₁
  refine (hdeep.readBase hsteady hs₁ ty).bind fun base s₂ h₂ => ?_
  have hs₂ := hs₁.trans ((steady_run env hsteady _ s₁).of_eq h₂)
  split
  · exact plainly_of_no_call hsteady (regular_pure _)
  refine (plainly_of_no_call hsteady (regular_takeWords ..)).bind fun ty s₃ h₃ => ?_
  have hs₃ := hs₂.trans ((steady_run env hsteady _ s₂).of_eq h₃)
  refine (plainly_of_no_call hsteady (regular_atSep _)).bind_look (run_atSep ..) ?_
  split
  · next hsep =>
    obtain ⟨t, hcur, -⟩ := (Option.any_eq_true ..).mp hsep
    exact hdeep.advance_bind hsteady (regular_readFunctionPointer trivial ty) hs₃ hcur
  · exact plainly_of_no_call hsteady (by simp)

theorem Deep.wholeDeclaration (hdeep : Deep inner env s)
    (hsteady : ∀ r s, SteadyFrom s (inner r s))
    (htype : ∀ u, s.Steady u →
      inner .type u = Routine.type.run env u
        ∧ ∃ log, Does env Routine.type.body u log (Routine.type.run env u)) :
    Plainly inner env wholeDeclaration s := by
  have hregular : Reader.wholeDeclaration.Regular fun _ => True :=
    regular_wholeDeclaration trivial trivial
  have hlook : ∀ w, Plainly inner env (atWord w) s :=
    fun w => plainly_of_no_call hsteady (regular_atWord w)
  refine (hlook _).bind_look (run_atWord ..) ?_
  split
  · next hw =>
    obtain ⟨t, hcur, -⟩ := (Option.any_eq_true ..).mp hw
    exact hdeep.advance_bind hsteady (hregular.2 true) (.refl s) hcur
  refine (hlook _).bind_look (run_atWord ..) ?_
  split
  · next hw =>
    obtain ⟨t, hcur, -⟩ := (Option.any_eq_true ..).mp hw
    exact hdeep.advance_bind hsteady ((hregular.2 false).2 true) (.refl s) hcur
  · -- Nothing was passed yet, but only types are read from here on.
    have hunqualified : (readUnqualified false).Regular (· = .type) :=
      regular_readUnqualified (P := (· = .type)) rfl false
    refine hunqualified.plainly hsteady (fun q u hq hu => ?_) s (.refl s)
    subst hq
    exact htype u hu

end Walk

end Reader

namespace Routine

open Reader

variable (env : ScanEnv)

theorem plainly (r : Routine) (s : Scanner σ) :
    r.run env s = r.body.run (Routine.run env) env s
      ∧ ∃ log, Does env r.body s log (r.run env s) := by
  fun_induction Routine.run env r s with
  | case1 r s ih =>
    have hsteady := r.steady_inner env s
    -- The induction hypothesis is about the routines that the check lets through.
    have hadmits : ∀ q u, r.Admits q s u →
        (if r.Admits q s u then q.run env u else .ok default u) = q.run env u
          ∧ ∃ log, Does env q.body u log (q.run env u) :=
      fun q u hq => ⟨if_pos hq, (ih q u hq).2⟩
    have hdeep : Deep (fun q u => if r.Admits q s u then q.run env u else .ok default u) env s :=
      fun q u hu hpos => hadmits q u (.inl (hu.passed_iff.mpr hpos))
    cases r with
    | type => exact hdeep.wholeType hsteady
    | declaration =>
      refine hdeep.wholeDeclaration hsteady fun u hu => ?_
      exact hadmits .type u (.inr ⟨Nat.zero_lt_one, hu.size_le⟩)

/-- A routine does what its body says, with nothing in between. -/
theorem run_eq (r : Routine) (s : Scanner σ) :
    r.run env s = r.body.run (Routine.run env) env s :=
  (r.plainly env s).1

end Routine

namespace Reader

/-- A reader of the grammar comes to its ending in finitely many steps. -/
theorem Regular.exists_does {m : Reader α} (hm : m.Regular fun _ => True) (env : ScanEnv)
    (s : Scanner σ) : ∃ log, Does env m s log (m.run (Routine.run env) env s) :=
  (hm.plainly (Routine.steady_run env) (fun q u _ _ => ⟨rfl, (q.plainly env u).2⟩) s
    (.refl s)).2

/-- There is no other ending than that. -/
theorem Does.eq_run {env : ScanEnv} {m : Reader α} {s : Scanner σ} {log : List (Event σ)}
    {r : Ending σ α} (h : Does env m s log r) (hm : m.Regular fun _ => True) :
    m.run (Routine.run env) env s = r := by
  induction h with
  | give a s => rfl
  | andThen first rest ih ih' =>
    rw [run, ih hm.1, Ending.andThen_ok]
    exact ih' (hm.2 _)
  | andThen_failed first ih => rw [run, ih hm.1, Ending.andThen_failed]
  | env s => rfl
  | look s => rfl
  | line s => rfl
  | edit ed s => rfl
  | dropLine failure s => rfl
  | advance s => rfl
  | past_back current name inside ih =>
    rw [run, current, Option.filter_some, if_pos name]
    dsimp only
    rw [ih (hm.2 _)]
    rfl
  | past_on current name inside ih =>
    rw [run, current, Option.filter_some, if_pos name]
    dsimp only
    rw [ih (hm.2 _)]
    rfl
  | past_failed current name inside ih =>
    rw [run, current, Option.filter_some, if_pos name]
    dsimp only
    rw [ih (hm.2 _)]
    rfl
  | past_none current inside ih =>
    rw [run, current]
    dsimp only
    rw [ih (hm.2 _)]
    rfl
  | past_none_failed current inside ih =>
    rw [run, current]
    dsimp only
    rw [ih (hm.2 _)]
    rfl
  | loop_again first rest ih ih' =>
    -- `run` would give up a loop that does not get on, but a regular one does.
    rw [hm.1.run_loop (ih (hm.2 _))]
    exact ih' hm
  | loop_done first ih => exact Scanner.iterate_done (ih (hm.2 _))
  | loop_failed first ih => exact Scanner.iterate_failed (ih (hm.2 _))
  | @call r s _ _ body ih =>
    rw [run_call, Routine.run_eq]
    exact ih (regular_body r)
  | fail failure s => rfl

end Reader

end HeaderAtlas
