import HeaderAtlas.Proofs.Reader.Passing

/-!
# Runs without checks

`Reader.run` is a total function because it checks itself: a loop is given up where a
round has passed nothing, and a routine is not begun again where nothing was passed since
it was begun. The grammar knows no such checks. `Does` says what a reader does without
them. It has a derivation for each run that comes to an end and for no other, so that a
derivation is a proof of termination.

A run is also made to leave a log of the states it goes through, and of those in which a
token is put back.

Of a reader that is `Regular`, every loop gets on and every name is put back into an empty
slot. Such a reader does what `run` says (`Regular.plainly`), if that holds of the routines
that it calls.
-/

namespace HeaderAtlas

open Ending

variable {σ : Type} [Feed σ] [LawfulFeed σ] {α β : Type}

/-- Something that happens during a run. -/
inductive Event (σ : Type) where
  /-- An instruction has led to this state. -/
  | reach (s : Scanner σ)
  /-- The current token of this state is about to be put back, if there is one. -/
  | putBack (s : Scanner σ)

namespace Reader

/-- Started in `s`, the reader comes to the given ending, and this happens on the way. -/
inductive Does (env : ScanEnv) :
    {α : Type} → Reader α → Scanner σ → List (Event σ) → Ending σ α → Prop
  | give {α : Type} (a : α) (s : Scanner σ) : Does env (.give a) s [] (.ok a s)
  | andThen {α β : Type} {m : Reader α} {f : α → Reader β} {s s' : Scanner σ}
      {log log' : List (Event σ)} {a : α} {r : Ending σ β} (first : Does env m s log (.ok a s'))
      (rest : Does env (f a) s' log' r) : Does env (.andThen m f) s (log ++ log') r
  | andThen_failed {α β : Type} {m : Reader α} {f : α → Reader β} {s s' : Scanner σ}
      {log : List (Event σ)} {e : Failure} (first : Does env m s log (.failed e s')) :
      Does env (.andThen m f) s log (.failed e s')
  | env (s : Scanner σ) : Does env .env s [] (.ok env s)
  | look (s : Scanner σ) : Does env .look s [] (.ok s.view s)
  | line (s : Scanner σ) : Does env .line s [] (.ok s.stream.line s)
  | edit (ed : Edit) (s : Scanner σ) :
      Does env (.edit ed) s [.reach (s.edit env ed)] (.ok () (s.edit env ed))
  | dropLine (failure : Failure) (s : Scanner σ) :
      Does env (.dropLine failure) s [.reach (s.swallow failure).discardLine]
        (.ok () (s.swallow failure).discardLine)
  | advance (s : Scanner σ) :
      Does env .advance s [.reach (s.advance env)] (.ok () (s.advance env))
  | past_back {α : Type} {m : Option String → Reader (α × Bool)} {s s' : Scanner σ}
      {log : List (Event σ)} {t : Token} {a : α} (current : s.current = some t)
      (name : t.isName = true)
      (inside : Does env (m (some t.text)) (s.advance env) log (.ok (a, true) s')) :
      Does env (.past m) s
        (.reach (s.advance env) :: (log ++ [.putBack s', .reach (s'.unread t)]))
        (.ok a (s'.unread t))
  | past_on {α : Type} {m : Option String → Reader (α × Bool)} {s s' : Scanner σ}
      {log : List (Event σ)} {t : Token} {a : α} (current : s.current = some t)
      (name : t.isName = true)
      (inside : Does env (m (some t.text)) (s.advance env) log (.ok (a, false) s')) :
      Does env (.past m) s (.reach (s.advance env) :: log) (.ok a s')
  | past_failed {α : Type} {m : Option String → Reader (α × Bool)} {s s' : Scanner σ}
      {log : List (Event σ)} {t : Token} {e : Failure} (current : s.current = some t)
      (name : t.isName = true)
      (inside : Does env (m (some t.text)) (s.advance env) log (.failed e s')) :
      Does env (.past m) s (.reach (s.advance env) :: log) (.failed e s')
  | past_none {α : Type} {m : Option String → Reader (α × Bool)} {s s' : Scanner σ}
      {log : List (Event σ)} {p : α × Bool} (current : s.current.filter Token.isName = none)
      (inside : Does env (m none) s log (.ok p s')) : Does env (.past m) s log (.ok p.1 s')
  | past_none_failed {α : Type} {m : Option String → Reader (α × Bool)} {s s' : Scanner σ}
      {log : List (Event σ)} {e : Failure} (current : s.current.filter Token.isName = none)
      (inside : Does env (m none) s log (.failed e s')) : Does env (.past m) s log (.failed e s')
  | loop_again {α : Type} {round : α → Reader (Round α)} {s s' : Scanner σ}
      {log log' : List (Event σ)} {a b : α} {r : Ending σ α}
      (first : Does env (round a) s log (.ok (.again b) s'))
      (rest : Does env (.loop round b) s' log' r) : Does env (.loop round a) s (log ++ log') r
  | loop_done {α : Type} {round : α → Reader (Round α)} {s s' : Scanner σ}
      {log : List (Event σ)} {a b : α} (first : Does env (round a) s log (.ok (.done b) s')) :
      Does env (.loop round a) s log (.ok b s')
  | loop_failed {α : Type} {round : α → Reader (Round α)} {s s' : Scanner σ}
      {log : List (Event σ)} {a : α} {e : Failure} (first : Does env (round a) s log (.failed e s')) :
      Does env (.loop round a) s log (.failed e s')
  | call {r : Routine} {s : Scanner σ} {log : List (Event σ)} {x : Ending σ r.Result}
      (body : Does env r.body s log x) : Does env (.call r) s log x
  | fail {α : Type} (failure : Failure) (s : Scanner σ) :
      Does env (.fail failure : Reader α) s [] (.failed failure s)

/-! ## Regular readers -/

/-- A round of the loop that goes on has passed a token. -/
def Progresses (round : α → Reader (Round α)) : Prop :=
  ∀ (σ : Type) [Feed σ] [LawfulFeed σ] (env : ScanEnv) (a b : α) (s s' : Scanner σ),
    (round a).run (Routine.run env) env s = .ok (.again b) s' → s.position < s'.position

/-- Such a loop is not given up. -/
theorem Progresses.run_loop {round : α → Reader (Round α)} (h : Progresses round)
    {env : ScanEnv} {a b : α} {s s' : Scanner σ}
    (hrun : (round a).run (Routine.run env) env s = .ok (.again b) s') :
    (loop round a).run (Routine.run env) env s = (loop round b).run (Routine.run env) env s' := by
  have hsteady := (steady_run env (Routine.steady_run env) (round a) s).of_eq hrun
  exact Scanner.iterate_again hrun (hsteady.passed_iff.mpr (h σ env a b s s' hrun))

/-- Where the name is to be put back, nothing else has been put back that is not used yet,
unless the tokens are at an end. -/
def Clears (m : Option String → Reader (α × Bool)) : Prop :=
  ∀ (σ : Type) [Feed σ] [LawfulFeed σ] (env : ScanEnv) (name : String) (a : α)
    (s s' : Scanner σ), s.stream.held = none →
    (m (some name)).run (Routine.run env) env s = .ok (a, true) s' →
    s'.stream.held = none ∨ s'.current = none

/-- Every loop in the reader gets on, every name is put back into an empty slot, and only
the given routines are called. -/
def Regular (P : Routine → Prop) : {α : Type} → Reader α → Prop
  | _, andThen m f => m.Regular P ∧ ∀ a, (f a).Regular P
  | _, past m => Clears m ∧ ∀ name, (m name).Regular P
  | _, loop round _ => Progresses round ∧ ∀ a, (round a).Regular P
  | _, call r => P r
  | _, give _ => True
  | _, env => True
  | _, look => True
  | _, line => True
  | _, edit _ => True
  | _, dropLine _ => True
  | _, advance => True
  | _, fail _ => True

section Regular

variable {P : Routine → Prop}

@[simp] theorem regular_pure (a : α) : (pure a : Reader α).Regular P := trivial

@[simp] theorem regular_bind {m : Reader α} {f : α → Reader β} :
    (m >>= f).Regular P ↔ m.Regular P ∧ ∀ a, (f a).Regular P := Iff.rfl

@[simp] theorem regular_env : Reader.env.Regular P := trivial

@[simp] theorem regular_look : look.Regular P := trivial

@[simp] theorem regular_line : line.Regular P := trivial

@[simp] theorem regular_edit (ed : Edit) : (edit ed).Regular P := trivial

@[simp] theorem regular_dropLine (failure : Failure) : (dropLine failure).Regular P := trivial

@[simp] theorem regular_advance : advance.Regular P := trivial

@[simp] theorem regular_fail (failure : Failure) : (fail failure : Reader α).Regular P := trivial

@[simp] theorem regular_ite {c : Prop} [Decidable c] {m n : Reader α} :
    (if c then m else n).Regular P ↔ if c then m.Regular P else n.Regular P := by
  split <;> rfl

end Regular

/-! ## Runs and derivations -/

/-- The checks make no difference to the reader, with `inner` for the routines. -/
def Plainly (inner : (r : Routine) → Scanner σ → Ending σ r.Result) (env : ScanEnv)
    (m : Reader α) (s : Scanner σ) : Prop :=
  m.run inner env s = m.run (Routine.run env) env s
    ∧ ∃ log, Does env m s log (m.run inner env s)

namespace Plainly

variable {inner : (r : Routine) → Scanner σ → Ending σ r.Result} {env : ScanEnv} {s : Scanner σ}

theorem bind {m : Reader α} {f : α → Reader β} (hm : Plainly inner env m s)
    (hf : ∀ a s', m.run inner env s = .ok a s' → Plainly inner env (f a) s') :
    Plainly inner env (m >>= f) s := by
  obtain ⟨heq, log, hlog⟩ := hm
  unfold Plainly
  rw [run_bind, run_bind, ← heq]
  cases hr : m.run inner env s with
  | failed e s' =>
    rw [hr] at hlog
    exact ⟨rfl, log, .andThen_failed hlog⟩
  | ok a s' =>
    rw [hr] at hlog
    obtain ⟨heq', log', hlog'⟩ := hf a s' hr
    exact ⟨heq', log ++ log', .andThen hlog hlog'⟩

/-- A look leaves the state as it is. -/
theorem bind_look {m : Reader α} {f : α → Reader β} {a : α} (hm : Plainly inner env m s)
    (hrun : m.run inner env s = .ok a s) (hf : Plainly inner env (f a) s) :
    Plainly inner env (m >>= f) s := by
  refine hm.bind fun b s' hr => ?_
  rw [hrun] at hr
  cases hr
  exact hf

theorem past {m : Option String → Reader (α × Bool)} {s : Scanner σ}
    (hm : ∀ name s', s.Steady s' → Plainly inner env (m name) s') :
    Plainly inner env (.past m) s := by
  unfold Plainly
  cases hcur : s.current.filter Token.isName with
  | some t =>
    obtain ⟨hcurrent, hname⟩ := Option.filter_eq_some_iff.mp hcur
    obtain ⟨heq, log, hlog⟩ := hm (some t.text) _ (Scanner.steady_advance env s)
    rw [run, hcur, run, hcur]
    dsimp only
    rw [← heq]
    cases hr : (m (some t.text)).run inner env (s.advance env) with
    | failed e s' =>
      rw [hr] at hlog
      exact ⟨rfl, _, .past_failed hcurrent hname hlog⟩
    | ok p s' =>
      obtain ⟨a, back⟩ := p
      rw [hr] at hlog
      cases back with
      | true => exact ⟨rfl, _, .past_back hcurrent hname hlog⟩
      | false => exact ⟨rfl, _, .past_on hcurrent hname hlog⟩
  | none =>
    obtain ⟨heq, log, hlog⟩ := hm none s (.refl s)
    rw [run, hcur, run, hcur]
    dsimp only
    rw [← heq]
    cases hr : (m none).run inner env s with
    | failed e s' =>
      rw [hr] at hlog
      exact ⟨rfl, _, .past_none_failed hcur hlog⟩
    | ok p s' =>
      rw [hr] at hlog
      exact ⟨rfl, _, .past_none hcur hlog⟩

/-- A loop that gets on. Each round leaves less for the next one. -/
theorem loop {round : α → Reader (Round α)} {s₀ : Scanner σ}
    (hsteady : ∀ r s, SteadyFrom s (inner r s)) (hpass : Progresses round)
    (hround : ∀ a s, s₀.Steady s → Plainly inner env (round a) s) (a : α) (s : Scanner σ)
    (hs : s₀.Steady s) : Plainly inner env (.loop round a) s := by
  -- The check of the loop is that a token was passed, and with it the size has gone down.
  induction hn : s.size using Nat.strongRecOn generalizing a s with
  | ind n ih =>
    obtain ⟨heq, log, hlog⟩ := hround a s hs
    unfold Plainly
    rw [run, run]
    cases hr : (round a).run inner env s with
    | failed e s' =>
      rw [hr] at hlog heq
      rw [Scanner.iterate_failed hr, Scanner.iterate_failed heq.symm]
      exact ⟨rfl, log, .loop_failed hlog⟩
    | ok x s' =>
      rw [hr] at hlog heq
      cases x with
      | done b =>
        rw [Scanner.iterate_done hr, Scanner.iterate_done heq.symm]
        exact ⟨rfl, log, .loop_done hlog⟩
      | again b =>
        have hstep := (steady_run env hsteady (round a) s).of_eq hr
        have hpassed := hstep.passed_iff.mpr (hpass σ env a b s s' heq.symm)
        obtain ⟨heq', log', hlog'⟩ := ih s'.size (hn ▸ hpassed.2) b s' (hs.trans hstep) rfl
        rw [Scanner.iterate_again hr hpassed, Scanner.iterate_again heq.symm hpassed]
        exact ⟨heq', log ++ log', .loop_again hlog hlog'⟩

end Plainly

/-- A regular reader does what `run` says, if the routines that it calls do. These are
begun at states that come after the given one. -/
theorem Regular.plainly {inner : (r : Routine) → Scanner σ → Ending σ r.Result} {env : ScanEnv}
    {P : Routine → Prop} {s₀ : Scanner σ} (hsteady : ∀ r s, SteadyFrom s (inner r s))
    (hcall : ∀ q s, P q → s₀.Steady s →
      inner q s = q.run env s ∧ ∃ log, Does env q.body s log (q.run env s))
    {α : Type} {m : Reader α} (hm : m.Regular P) (s : Scanner σ) (hs : s₀.Steady s) :
    Plainly inner env m s := by
  induction m generalizing s with
  | give a => exact ⟨rfl, [], .give a s⟩
  | andThen m f ihm ihf =>
    refine Plainly.bind (ihm hm.1 s hs) fun a s' hr => ihf a (hm.2 a) s' (hs.trans ?_)
    exact (steady_run env hsteady m s).of_eq hr
  | env => exact ⟨rfl, [], .env s⟩
  | look => exact ⟨rfl, [], .look s⟩
  | line => exact ⟨rfl, [], .line s⟩
  | edit e => exact ⟨rfl, _, .edit e s⟩
  | dropLine failure => exact ⟨rfl, _, .dropLine failure s⟩
  | advance => exact ⟨rfl, _, .advance s⟩
  | past m ihm => exact .past fun name s' hs' => ihm name (hm.2 name) s' (hs.trans hs')
  | loop round a ihround =>
    exact .loop hsteady hm.1 (fun b s' hs' => ihround b (hm.2 b) s' hs') a s hs
  | call r =>
    obtain ⟨heq, log, hlog⟩ := hcall r s hm hs
    refine ⟨heq, log, ?_⟩
    rw [run_call, heq]
    exact .call hlog
  | fail failure => exact ⟨rfl, [], .fail failure s⟩

end Reader

end HeaderAtlas
