import HeaderAtlas.Declaration.Run

/-!
# The steps of a run

A run goes on to the next token from one state after another: these are its departures,
oldest first. What is taken in on the way to the next token, be it a comment or a directive,
is a function of the state that is left, so that a run and its departures tell everything
that happens in a scan.

A property may speak of the departures so far as well as of the state. A reader upholds it
(`Reader.Upholds`) if it holds at the end of a run, with all departures of the run. The
connectives hand this on, and if each instruction keeps the property (`Traced`), all readers
uphold it.
-/

namespace HeaderAtlas

variable {σ : Type} [Feed σ] {α β : Type}

/-- What comes after a result; nothing comes after a failure. -/
def Ending.onward (r : Ending σ α) (f : α → Scanner σ → List β) : List β :=
  match r with
  | .ok a s => f a s
  | .failed _ _ => []

/-- The departures of a loop, given those of its rounds. -/
def Scanner.iterateDepartures (round : α → Scanner σ → Ending σ (Round α))
    (told : α → Scanner σ → List (Scanner σ)) (a : α) (s : Scanner σ) : List (Scanner σ) :=
  told a s ++
    match round a s with
    | .ok (.again b) s' =>
      if h : s.Passed s' then have := h.2; iterateDepartures round told b s' else []
    | _ => []
termination_by s.size

section Iterate

variable {round : α → Scanner σ → Ending σ (Round α)} {told : α → Scanner σ → List (Scanner σ)}
  {a b : α} {s s' u : Scanner σ}

theorem Scanner.mem_iterateDepartures_of_round (h : u ∈ told a s) :
    u ∈ s.iterateDepartures round told a := by
  rw [iterateDepartures]
  exact List.mem_append_left _ h

theorem Scanner.mem_iterateDepartures_of_again (hr : round a s = .ok (.again b) s')
    (hp : s.Passed s') (h : u ∈ s'.iterateDepartures round told b) :
    u ∈ s.iterateDepartures round told a := by
  rw [iterateDepartures, hr]
  exact List.mem_append_right _ (by simpa [hp] using h)

end Iterate

variable [LawfulFeed σ]

/-- The states from which a run goes on to the next token, given those of the routines
inside. -/
def Reader.departures (inner : (r : Routine) → Scanner σ → Ending σ r.Result)
    (told : Routine → Scanner σ → List (Scanner σ)) (e : ScanEnv) :
    {α : Type} → Reader α → Scanner σ → List (Scanner σ)
  | _, andThen m f, s =>
    m.departures inner told e s
      ++ (m.run inner e s).onward fun a s' => (f a).departures inner told e s'
  | _, advance, s => [s]
  | _, past m, s =>
    match s.current.filter Token.isName with
    | some t => s :: (m (some t.text)).departures inner told e (s.advance e)
    | none => (m none).departures inner told e s
  | _, loop round a, s =>
    s.iterateDepartures (fun a s => (round a).run inner e s)
      (fun a s => (round a).departures inner told e s) a
  | _, call r, s => told r s
  | _, give _, _ => []
  | _, env, _ => []
  | _, look, _ => []
  | _, line, _ => []
  | _, edit _, _ => []
  | _, dropLine _, _ => []
  | _, fail _, _ => []

@[simp] theorem Reader.departures_pure (inner : (r : Routine) → Scanner σ → Ending σ r.Result)
    (told : Routine → Scanner σ → List (Scanner σ)) (e : ScanEnv) (a : α) (s : Scanner σ) :
    (pure a : Reader α).departures inner told e s = [] :=
  rfl

@[simp] theorem Reader.departures_bind (inner : (r : Routine) → Scanner σ → Ending σ r.Result)
    (told : Routine → Scanner σ → List (Scanner σ)) (e : ScanEnv) (m : Reader α)
    (f : α → Reader β) (s : Scanner σ) :
    (m >>= f).departures inner told e s
      = m.departures inner told e s
        ++ (m.run inner e s).onward fun a s' => (f a).departures inner told e s' :=
  rfl

/-- The states from which a routine goes on to the next token. -/
def Routine.departures (env : ScanEnv) (r : Routine) (s : Scanner σ) : List (Scanner σ) :=
  r.body.departures (fun q s' => if r.Admits q s s' then q.run env s' else .ok default s')
    (fun q s' => if _h : r.Admits q s s' then departures env q s' else []) env s
termination_by 2 * s.size + r.rank
decreasing_by
  have hq : q.rank ≤ 1 := by cases q <;> decide
  rcases _h with h | ⟨hr, hs⟩
  · have := h.2
    omega
  · omega

/-- The states from which the scan of a feed goes on to the next token. -/
def Scanner.departures (env : ScanEnv) (feed : σ) : List (Scanner σ) :=
  Reader.readFile.departures (Routine.run env) (Routine.departures env) env (start env feed)

/-! ## Properties of the past and the present -/

/-- A run of the reader keeps a property of the departures so far and the present state, if the
routines inside it do. -/
def Reader.Upholds (env : ScanEnv) (J : List (Scanner σ) → Scanner σ → Prop) (α : Type)
    (m : Reader α) : Prop :=
  ∀ (inner : (r : Routine) → Scanner σ → Ending σ r.Result)
    (told : Routine → Scanner σ → List (Scanner σ)),
    (∀ r h s, J h s → J (h ++ told r s) (inner r s).state) →
    ∀ h s, J h s → J (h ++ m.departures inner told env s) (m.run inner env s).state

namespace Reader.Upholds

variable {env : ScanEnv} {J : List (Scanner σ) → Scanner σ → Prop}

theorem give (a : α) : Upholds env J α (.give a) := by
  intro inner told hinner h s hs
  simpa [departures, run] using hs

theorem look : Upholds env J View .look := by
  intro inner told hinner h s hs
  simpa [departures] using hs

theorem line : Upholds env J Nat .line := by
  intro inner told hinner h s hs
  simpa [departures] using hs

theorem fail (failure : Failure) : Upholds env J α (.fail failure) := by
  intro inner told hinner h s hs
  simpa [departures, run] using hs

theorem edit {e : Edit} (he : ∀ {h s}, J h s → J h (s.edit env e)) :
    Upholds env J Unit (.edit e) := by
  intro inner told hinner h s hs
  simpa [departures] using he hs

theorem dropLine {failure : Failure}
    (hdrop : ∀ {h s}, J h s → J h (s.swallow failure).discardLine) :
    Upholds env J Unit (.dropLine failure) := by
  intro inner told hinner h s hs
  simpa [departures, run] using hdrop hs

theorem advance (hadvance : ∀ {h s}, J h s → J (h ++ [s]) (s.advance env)) :
    Upholds env J Unit .advance :=
  fun _ _ _ _ _ hs => hadvance hs

theorem call (r : Routine) : Upholds env J r.Result (.call r) :=
  fun _ _ hinner h s hs => hinner r h s hs

theorem bind {m : Reader α} {f : α → Reader β} (hm : Upholds env J α m)
    (hf : ∀ a, Upholds env J β (f a)) : Upholds env J β (m >>= f) := by
  intro inner told hinner h s hs
  have hfirst := hm inner told hinner h s hs
  rw [departures_bind, run_bind]
  cases hr : m.run inner env s with
  | ok a s' =>
    rw [hr] at hfirst
    rw [← List.append_assoc]
    exact hf a inner told hinner _ s' hfirst
  | failed e s' =>
    rw [hr] at hfirst
    simpa [Ending.onward] using hfirst

/-- What stays the same during the scan is known. -/
theorem env_bind {f : ScanEnv → Reader α} (hf : Upholds env J α (f env)) :
    Upholds env J α (Reader.env >>= f) :=
  fun inner told hinner h s hs => hf inner told hinner h s hs

theorem past {m : Option String → Reader (α × Bool)}
    (hadvance : ∀ {h s}, J h s → J (h ++ [s]) (s.advance env))
    (hunread : ∀ {h₀ s₀ h s t}, J h₀ s₀ → s₀.current = some t → t.isName = true → J h s →
      J h (s.unread t))
    (hm : ∀ name, Upholds env J (α × Bool) (m name)) : Upholds env J α (.past m) := by
  intro inner told hinner h s hs
  rw [departures, run]
  cases ht : s.current.filter Token.isName with
  | some t =>
    obtain ⟨hcur, hname⟩ := Option.filter_eq_some_iff.mp ht
    have hinside := hm (some t.text) inner told hinner _ _ (hadvance hs)
    rw [List.append_assoc, List.singleton_append] at hinside
    dsimp only
    cases hr : (m (some t.text)).run inner env (s.advance env) with
    | failed e s' =>
      rw [hr] at hinside
      exact hinside
    | ok p s' =>
      rw [hr] at hinside
      obtain ⟨a, back⟩ := p
      cases back with
      | false => exact hinside
      | true => exact hunread hs hcur hname hinside
  | none =>
    have hinside := hm none inner told hinner h s hs
    dsimp only
    cases hr : (m none).run inner env s with
    | failed e s' =>
      rw [hr] at hinside
      exact hinside
    | ok p s' =>
      rw [hr] at hinside
      exact hinside

omit [LawfulFeed σ] in
theorem iterate {round : α → Scanner σ → Ending σ (Round α)}
    (told : α → Scanner σ → List (Scanner σ))
    (hround : ∀ a h s, J h s → J (h ++ told a s) (round a s).state) (a : α)
    (h : List (Scanner σ)) (s : Scanner σ) (hs : J h s) :
    J (h ++ s.iterateDepartures round told a) (s.iterate round a).state := by
  fun_induction Scanner.iterate round a s generalizing h with
  | case1 a s b s' hr =>
    rw [Scanner.iterateDepartures, hr]
    simpa [hr] using hround a h s hs
  | case2 a s b s' hr hp _ ih =>
    have hstep := ih (h ++ told a s) (by simpa [hr] using hround a h s hs)
    rw [Scanner.iterateDepartures, hr]
    simpa [hp] using hstep
  | case3 a s b s' hr hp =>
    rw [Scanner.iterateDepartures, hr]
    simpa [hr, hp] using hround a h s hs
  | case4 a s e s' hr =>
    rw [Scanner.iterateDepartures, hr]
    simpa [hr] using hround a h s hs

theorem loop {round : α → Reader (Round α)} {a : α}
    (hround : ∀ a, Upholds env J (Round α) (round a)) : Upholds env J α (.loop round a) :=
  fun inner told hinner h s hs => iterate _ (fun a => hround a inner told hinner) a h s hs

/-- A routine keeps a property, if the bodies of all routines uphold it. -/
theorem routine (hbody : ∀ r : Routine, Upholds env J r.Result r.body) (r : Routine)
    (h : List (Scanner σ)) (s : Scanner σ) (hs : J h s) :
    J (h ++ r.departures env s) (r.run env s).state := by
  fun_induction Routine.run env r s generalizing h with
  | case1 r s ih =>
    rw [Routine.departures]
    refine hbody r _ _ (fun q h s' hs' => ?_) h s hs
    split
    · next hq => exact ih q s' hq h hs'
    · simpa using hs'

/-- What the grammar upholds and holds at the start of a scan holds at its end. -/
theorem scan (hbody : ∀ r : Routine, Upholds env J r.Result r.body)
    (hfile : Upholds env J Unit readFile) (feed : σ) (hs : J [] (Scanner.start env feed)) :
    J (Scanner.departures env feed) (Scanner.run env feed).state :=
  hfile _ _ (routine hbody) [] _ hs

end Reader.Upholds

/-- The property of the departures so far and the present state is kept by everything that
an instruction does. -/
structure Traced (env : ScanEnv) (J : List (Scanner σ) → Scanner σ → Prop) : Prop where
  edit : ∀ {h s}, J h s → ∀ e, J h (s.edit env e)
  dropLine : ∀ {h s}, J h s → ∀ failure, J h (s.swallow failure).discardLine
  advance : ∀ {h s}, J h s → J (h ++ [s]) (s.advance env)
  /-- Only a name that was the current token is put back. -/
  unread : ∀ {h₀ s₀ h s t}, J h₀ s₀ → s₀.current = some t → t.isName = true → J h s →
    J h (s.unread t)

namespace Traced

variable {env : ScanEnv} {J : List (Scanner σ) → Scanner σ → Prop}

open Reader

/-- Every reader upholds a traced property. -/
theorem upholds (T : Traced env J) {α : Type} (m : Reader α) : Upholds env J α m := by
  induction m with
  | give a => exact .give a
  | andThen m f hm hf => exact .bind hm hf
  | env => exact .env_bind (.give env)
  | look => exact .look
  | line => exact .line
  | edit e => exact .edit fun hs => T.edit hs e
  | dropLine failure => exact .dropLine fun hs => T.dropLine hs failure
  | advance => exact .advance T.advance
  | past m hm => exact .past T.advance T.unread hm
  | loop round a hround => exact .loop hround
  | call r => exact .call r
  | fail failure => exact .fail failure

/-- A traced property that holds at the start of a scan holds at its end. -/
theorem scan (T : Traced env J) (feed : σ) (hs : J [] (Scanner.start env feed)) :
    J (Scanner.departures env feed) (Scanner.run env feed).state :=
  Upholds.scan (fun r => T.upholds r.body) (T.upholds Reader.readFile) feed hs

end Traced

end HeaderAtlas
