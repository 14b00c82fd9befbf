import HeaderAtlas.Proofs.Reader.Recursion
import HeaderAtlas.Proofs.Scanner.Findings

/-!
# Readers inside a run

To speak of something that is read anywhere in a file, at the top level or inside a block, it
is enough to know that it is read somewhere in the run of the whole file. `Inside` says so of a
reader and the state that it starts in, whatever comes before and after it.

A run that comes to its end has come to the end of every reader inside it, and it keeps what
was found until then (`Inside.exists_ok`).
-/

namespace HeaderAtlas

open Ending

variable {σ : Type} [Feed σ] [LawfulFeed σ] {env : ScanEnv} {α β γ : Type}

namespace Reader

/-- The reader `m` starts in `s` inside a run of another reader. -/
inductive Inside (env : ScanEnv) (m : Reader α) (s : Scanner σ) :
    {β : Type} → Reader β → Scanner σ → Prop
  | here : Inside env m s m s
  | first {β γ : Type} {k : Reader β} {f : β → Reader γ} {u : Scanner σ}
      (inside : Inside env m s k u) : Inside env m s (.andThen k f) u
  | rest {β γ : Type} {k : Reader β} {f : β → Reader γ} {u v : Scanner σ} {b : β}
      (before : k.run (Routine.run env) env u = .ok b v) (inside : Inside env m s (f b) v) :
      Inside env m s (.andThen k f) u
  | past {β : Type} {k : Option String → Reader (β × Bool)} {u : Scanner σ} {t : Token}
      (current : u.current.filter Token.isName = some t)
      (inside : Inside env m s (k (some t.text)) (u.advance env)) : Inside env m s (.past k) u
  | past_none {β : Type} {k : Option String → Reader (β × Bool)} {u : Scanner σ}
      (current : u.current.filter Token.isName = none) (inside : Inside env m s (k none) u) :
      Inside env m s (.past k) u
  | round {β : Type} {round : β → Reader (Round β)} {u : Scanner σ} {b : β}
      (inside : Inside env m s (round b) u) : Inside env m s (.loop round b) u
  | again {β : Type} {round : β → Reader (Round β)} {u v : Scanner σ} {b c : β}
      (before : (round b).run (Routine.run env) env u = .ok (.again c) v) (passed : u.Passed v)
      (inside : Inside env m s (.loop round c) v) : Inside env m s (.loop round b) u
  | call {r : Routine} {u : Scanner σ} (inside : Inside env m s r.body u) :
      Inside env m s (.call r) u

variable {m : Reader α} {k : Reader β} {s u v : Scanner σ} {b : β}

/-- What comes after a reader whose result is known. -/
theorem Inside.next {f : β → Reader γ} (b : β)
    (hk : (k.run (Routine.run env) env u).value? = some b)
    (h : Inside env m s (f b) (k.run (Routine.run env) env u).state) :
    Inside env m s (k >>= f) u :=
  .rest (eq_ok_of_value? hk) h

/-- What comes after a look at a token that is known. -/
theorem Inside.of_look {f : View → Reader γ} (t? : Option Token) (ht : u.current = t?)
    (h : ∀ view : View, view.current = t? → Inside env m s (f view) u) :
    Inside env m s (look >>= f) u :=
  .rest rfl (h u.view ht)

/-- What is found does not get lost again. -/
theorem findings_kept (hk : k.run (Routine.run env) env u = .ok b v) :
    u.findings <+: v.findings := by
  have hkept := (findings_invariant env u.findings).reader k u List.prefix_rfl
  rwa [hk, state_ok] at hkept

/-- A run that comes to its end has come to the end of what is inside it. -/
theorem Inside.exists_ok (h : Inside env m s k u) (hk : k.run (Routine.run env) env u = .ok b v) :
    ∃ a w, m.run (Routine.run env) env s = .ok a w ∧ w.findings <+: v.findings := by
  induction h generalizing v with
  | here => exact ⟨b, v, hk, List.prefix_rfl⟩
  | first inside ih =>
    obtain ⟨c, v', hfirst, hrest⟩ := run_bind_eq_ok hk
    obtain ⟨a, w, hrun, hkept⟩ := ih hfirst
    exact ⟨a, w, hrun, hkept.trans (findings_kept hrest)⟩
  | rest before inside ih =>
    obtain ⟨c, v', hfirst, hrest⟩ := run_bind_eq_ok hk
    rw [before] at hfirst
    cases hfirst
    exact ih hrest
  | @past _ k' u' t current inside ih =>
    rw [run, current] at hk
    dsimp only at hk
    cases hinner : (k' (some t.text)).run (Routine.run env) env (u'.advance env) with
    | failed e v' =>
      rw [hinner] at hk
      cases hk
    | ok p v' =>
      obtain ⟨a, w, hrun, hkept⟩ := ih hinner
      rw [hinner] at hk
      cases hk
      refine ⟨a, w, hrun, ?_⟩
      -- Putting the name back changes no finding.
      split <;> exact hkept
  | @past_none _ k' u' current inside ih =>
    rw [run, current] at hk
    dsimp only at hk
    cases hinner : (k' none).run (Routine.run env) env u' with
    | failed e v' =>
      rw [hinner] at hk
      cases hk
    | ok p v' =>
      rw [hinner] at hk
      cases hk
      exact ih hinner
  | @round _ round u' c inside ih =>
    cases hround : (round c).run (Routine.run env) env u' with
    | failed e v' => cases (Scanner.iterate_failed hround).symm.trans hk
    | ok x v' =>
      obtain ⟨a, w, hrun, hkept⟩ := ih hround
      refine ⟨a, w, hrun, hkept.trans ?_⟩
      cases x with
      | done d =>
        cases (Scanner.iterate_done hround).symm.trans hk
        exact List.prefix_rfl
      | again d =>
        by_cases hp : u'.Passed v'
        · have hloop : (loop round d).run (Routine.run env) env v' = .ok b v :=
            (Scanner.iterate_again hround hp).symm.trans hk
          exact findings_kept hloop
        · cases (Scanner.iterate_stuck hround hp).symm.trans hk
          exact List.prefix_rfl
  | again before passed inside ih =>
    exact ih ((Scanner.iterate_again before passed).symm.trans hk)
  | @call r _ inside ih => exact ih ((r.run_eq env _).symm.trans hk)

end Reader

end HeaderAtlas
