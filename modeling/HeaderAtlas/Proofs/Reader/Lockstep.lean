import HeaderAtlas.Proofs.Reader.Invariant
import HeaderAtlas.Proofs.Reader.Progress

/-!
# Two scans in lockstep

Two scans that look alike to a reader are driven alike by it. A relation between the
states of two scans that implies this and that is kept by every instruction is
therefore kept by every reader, however the feeds differ: the readers give the same
results, or fail alike.

A comparison may come to an end before the scans do, as when one of them runs out of
text. Such states of the first scan are `Off`: there is no way back from them, and
nothing is said about the second scan from then on.
-/

namespace HeaderAtlas

variable {σ τ : Type} [Feed σ] [LawfulFeed σ] [Feed τ] [LawfulFeed τ] {α β : Type}

/-- A relation that keeps two scans in step until the first is off. -/
structure Lockstep (env : ScanEnv) (R : Scanner σ → Scanner τ → Prop) (Off : Scanner σ → Prop) :
    Prop where
  view : ∀ {s t}, R s t → s.view = t.view
  line : ∀ {s t}, R s t → s.stream.line = t.stream.line
  position : ∀ {s t}, R s t → s.position = t.position
  edit : ∀ {s t}, R s t → ∀ e, R (s.edit env e) (t.edit env e)
  dropLine : ∀ {s t}, R s t → ∀ failure,
    R (s.swallow failure).discardLine (t.swallow failure).discardLine
      ∨ Off (s.swallow failure).discardLine
  advance : ∀ {s t}, R s t → R (s.advance env) (t.advance env) ∨ Off (s.advance env)
  unread : ∀ {s₀ t₀ s t c}, R s₀ t₀ → s₀.current = some c → c.isName = true → R s t →
    R (s.unread c) (t.unread c)
  off : Invariant env Off
  off_unread : ∀ {s c}, c.isName = true → Off s → Off (s.unread c)

/-- The same result in related states, or the same failure; unless the first is off. -/
inductive Agree (R : Scanner σ → Scanner τ → Prop) (Off : Scanner σ → Prop) :
    Ending σ α → Ending τ α → Prop
  | ok {s t} (a : α) (h : R s t) : Agree R Off (.ok a s) (.ok a t)
  | failed {s t} (e : Failure) (h : R s t) : Agree R Off (.failed e s) (.failed e t)
  | off {r r'} (h : Off r.state) : Agree R Off r r'

namespace Agree

variable {R : Scanner σ → Scanner τ → Prop} {Off : Scanner σ → Prop}

omit [Feed σ] [LawfulFeed σ] [Feed τ] [LawfulFeed τ]

/-- Endings that agree are gone on from, and agree again. A first scan that is off must
stay so. -/
theorem andThen {r : Ending σ α} {r' : Ending τ α} {f : α → Scanner σ → Ending σ β}
    {g : α → Scanner τ → Ending τ β} (h : Agree R Off r r')
    (hfg : ∀ a s t, r = .ok a s → r' = .ok a t → R s t → Agree R Off (f a s) (g a t))
    (hoff : ∀ a s, Off s → Off (f a s).state) : Agree R Off (r.andThen f) (r'.andThen g) := by
  cases h with
  | ok a h => exact hfg a _ _ rfl rfl h
  | failed e h => exact .failed e h
  | off h =>
    cases r with
    | ok a s => exact .off (hoff a s h)
    | failed e s => exact .off h

theorem of_ok {a : α} {s : Scanner σ} {r' : Ending τ α} (h : Agree R Off (.ok a s) r') :
    (∃ t, r' = .ok a t ∧ R s t) ∨ Off s := by
  cases h with
  | ok a h => exact .inl ⟨_, rfl, h⟩
  | off h => exact .inr h

theorem of_failed {e : Failure} {s : Scanner σ} {r' : Ending τ α}
    (h : Agree R Off (.failed e s) r') : (∃ t, r' = .failed e t ∧ R s t) ∨ Off s := by
  cases h with
  | failed e h => exact .inl ⟨_, rfl, h⟩
  | off h => exact .inr h

end Agree

namespace Lockstep

open Ending

variable {env : ScanEnv} {R : Scanner σ → Scanner τ → Prop} {Off : Scanner σ → Prop}

/-- Scans in step pass a token together. -/
theorem passed_iff (L : Lockstep env R Off) {s s' : Scanner σ} {t t' : Scanner τ} (h : R s t)
    (h' : R s' t') (hs : s.Steady s') (ht : t.Steady t') : s.Passed s' ↔ t.Passed t' := by
  rw [hs.passed_iff, ht.passed_iff, L.position h, L.position h']

/-- A loop keeps scans in step if its rounds do. -/
theorem iterate (L : Lockstep env R Off) {round : α → Scanner σ → Ending σ (Round α)}
    {round' : α → Scanner τ → Ending τ (Round α)} {s₀ : Scanner σ} {t₀ : Scanner τ}
    (hsteady : ∀ a s, SteadyFrom s (round a s)) (hsteady' : ∀ a t, SteadyFrom t (round' a t))
    (hoff : ∀ a s, Off s → Off (round a s).state)
    (h : ∀ a s t, s₀.Steady s → t₀.Steady t → R s t → Agree R Off (round a s) (round' a t))
    (a : α) (s : Scanner σ) (t : Scanner τ) (hs : s₀.Steady s) (ht : t₀.Steady t) (hR : R s t) :
    Agree R Off (s.iterate round a) (t.iterate round' a) := by
  fun_induction Scanner.iterate round a s generalizing t with
  | case1 a s b s' hr =>
    rcases (hr ▸ h a s t hs ht hR).of_ok with ⟨t', hr', hR'⟩ | hoff
    · rw [Scanner.iterate_done hr']
      exact .ok b hR'
    · exact .off hoff
  | case2 a s b s' hr hp _ ih =>
    rcases (hr ▸ h a s t hs ht hR).of_ok with ⟨t', hr', hR'⟩ | hoff'
    · have hst := (hsteady a s).of_eq hr
      have htt := (hsteady' a t).of_eq hr'
      rw [Scanner.iterate_again hr' ((L.passed_iff hR hR' hst htt).mp hp)]
      exact ih t' (hs.trans hst) (ht.trans htt) hR'
    · exact .off (Invariant.iterate hoff b s' hoff')
  | case3 a s b s' hr hp =>
    rcases (hr ▸ h a s t hs ht hR).of_ok with ⟨t', hr', hR'⟩ | hoff
    · -- The other loop is given up as well, since it has not passed a token either.
      have hst := (hsteady a s).of_eq hr
      have htt := (hsteady' a t).of_eq hr'
      rw [Scanner.iterate_stuck hr' (mt (L.passed_iff hR hR' hst htt).mpr hp)]
      exact .ok b hR'
    · exact .off hoff
  | case4 a s e s' hr =>
    rcases (hr ▸ h a s t hs ht hR).of_failed with ⟨t', hr', hR'⟩ | hoff
    · rw [Scanner.iterate_failed hr']
      exact .failed e hR'
    · exact .off hoff

/-- A reader keeps scans in step, if the routines inside it do. These are begun at
states that come after the two given ones. -/
theorem run (L : Lockstep env R Off) {inner : (r : Routine) → Scanner σ → Ending σ r.Result}
    {inner' : (r : Routine) → Scanner τ → Ending τ r.Result} {s₀ : Scanner σ} {t₀ : Scanner τ}
    (hsteady : ∀ r s, SteadyFrom s (inner r s)) (hsteady' : ∀ r t, SteadyFrom t (inner' r t))
    (hoff : ∀ r s, Off s → Off (inner r s).state)
    (hinner : ∀ r s t, s₀.Steady s → t₀.Steady t → R s t → Agree R Off (inner r s) (inner' r t))
    {α : Type} (m : Reader α) (s : Scanner σ) (t : Scanner τ) (hs : s₀.Steady s)
    (ht : t₀.Steady t) (hR : R s t) :
    Agree R Off (m.run inner env s) (m.run inner' env t) := by
  induction m generalizing s t with
  | give a => exact .ok a hR
  | andThen m f hm hf =>
    refine (hm s t hs ht hR).andThen (fun a s' t' hr hr' hR' => ?_)
      fun a s' h => L.off.run hoff (f a) s' h
    exact hf a s' t' (hs.trans ((Reader.steady_run env hsteady m s).of_eq hr))
      (ht.trans ((Reader.steady_run env hsteady' m t).of_eq hr')) hR'
  | env => exact .ok _ hR
  | look => rw [Reader.run, Reader.run, L.view hR]; exact .ok _ hR
  | line => rw [Reader.run, Reader.run, L.line hR]; exact .ok _ hR
  | edit e => exact .ok _ (L.edit hR e)
  | dropLine failure =>
    rcases L.dropLine hR failure with h | h
    · exact .ok _ h
    · exact .off h
  | advance =>
    rcases L.advance hR with h | h
    · exact .ok _ h
    · exact .off h
  | past m hm =>
    have hcur : s.current = t.current := congrArg View.current (L.view hR)
    rw [Reader.run, Reader.run, ← hcur]
    split
    · next c hc =>
      obtain ⟨hsc, hname⟩ := Option.filter_eq_some_iff.mp hc
      have hs' := hs.trans (Scanner.steady_advance env s)
      have ht' := ht.trans (Scanner.steady_advance env t)
      have hback : ∀ (back : Bool) s', Off s' → Off (if back then s'.unread c else s') := by
        intro back s' h
        cases back with
        | false => exact h
        | true => exact L.off_unread hname h
      rcases L.advance hR with h | h
      · refine (hm _ _ _ hs' ht' h).andThen (fun p s' t' _ _ hR' => ?_)
          fun p s' h => hback p.2 s' h
        obtain ⟨a, back⟩ := p
        cases back with
        | false => exact .ok a hR'
        | true => exact .ok a (L.unread hR hsc hname hR')
      · -- The first scan is off before the inner reader begins, and stays so in it.
        have hm' := L.off.run hoff (m (some c.text)) _ h
        refine .off ?_
        cases hr : (m (some c.text)).run inner env (s.advance env) with
        | ok p s' => exact hback p.2 s' (by simpa [hr] using hm')
        | failed e s' => simpa [hr] using hm'
    · exact (hm none s t hs ht hR).andThen (fun p s' t' _ _ hR' => .ok p.1 hR') fun _ _ h => h
  | loop round a hround =>
    exact L.iterate (fun a s => Reader.steady_run env hsteady (round a) s)
      (fun a t => Reader.steady_run env hsteady' (round a) t)
      (fun a s h => L.off.run hoff (round a) s h) hround a s t hs ht hR
  | call r => exact hinner r s t hs ht hR
  | fail failure => exact .failed failure hR

/-- A routine keeps scans in step. -/
theorem routine (L : Lockstep env R Off) (r : Routine) (s : Scanner σ) (t : Scanner τ)
    (hR : R s t) : Agree R Off (r.run env s) (r.run env t) := by
  fun_induction Routine.run env r s generalizing t with
  | case1 r s ih =>
    rw [Routine.run]
    refine L.run (fun q s' => ?_) (fun q t' => ?_) (fun q s' h => ?_)
      (fun q s' t' hs ht hR' => ?_) r.body s t (.refl s) (.refl t) hR
    · split
      · exact Routine.steady_run env q s'
      · exact .refl s'
    · split
      · exact Routine.steady_run env q t'
      · exact .refl t'
    · split
      · exact L.off.routine q s' h
      · exact h
    · -- Sizes differ, but positions do not, and steadiness makes them decide.
      have hadmits : r.Admits q s s' ↔ r.Admits q t t' := by
        unfold Routine.Admits
        rw [L.passed_iff hR hR' hs ht]
        simp only [hs.size_le, ht.size_le]
      by_cases hq : r.Admits q s s'
      · rw [dif_pos hq, dif_pos (hadmits.mp hq)]
        exact ih q s' hq t' hR'
      · rw [dif_neg hq, dif_neg (mt hadmits.mpr hq)]
        exact .ok _ hR'

/-- A reader of the grammar keeps scans in step. -/
theorem reader (L : Lockstep env R Off) (m : Reader α) {s : Scanner σ} {t : Scanner τ}
    (hR : R s t) :
    Agree R Off (m.run (Routine.run env) env s) (m.run (Routine.run env) env t) :=
  L.run (Routine.steady_run env) (Routine.steady_run env) L.off.routine
    (fun r s t _ _ h => L.routine r s t h) m s t (.refl s) (.refl t) hR

end Lockstep

end HeaderAtlas
