import HeaderAtlas.Proofs.Reader.Departures

/-!
# What every reader keeps

A property of states that each instruction keeps is kept by every reader, and by a
whole scan. So an invariant of the scan is a statement about five functions on states,
and says nothing about the grammar.
-/

namespace HeaderAtlas

variable {σ : Type} [Feed σ] [LawfulFeed σ] {α β : Type}

/-- The property is kept by everything that an instruction does to a state. -/
structure Invariant (env : ScanEnv) (I : Scanner σ → Prop) : Prop where
  edit : ∀ s e, I s → I (s.edit env e)
  dropLine : ∀ s failure, I s → I (s.swallow failure).discardLine
  advance : ∀ s, I s → I (s.advance env)
  /-- Only a name that was the current token is put back. -/
  unread : ∀ s₀ s t, I s₀ → s₀.current = some t → t.isName = true → I s → I (s.unread t)

namespace Invariant

variable {env : ScanEnv} {I : Scanner σ → Prop}

/-- An invariant is a traced property that does not speak of the past. -/
theorem traced (h : Invariant env I) : Traced env fun _ s => I s where
  edit hs e := h.edit _ e hs
  dropLine hs failure := h.dropLine _ failure hs
  advance hs := h.advance _ hs
  unread hs₀ hcur hname hs := h.unread _ _ _ hs₀ hcur hname hs

omit [LawfulFeed σ] in
theorem iterate {round : α → Scanner σ → Ending σ (Round α)}
    (h : ∀ a s, I s → I (round a s).state) (a : α) (s : Scanner σ) (hs : I s) :
    I (s.iterate round a).state :=
  Reader.Upholds.iterate (J := fun _ s => I s) (fun _ _ => []) (fun a _ s => h a s) a [] s hs

/-- A reader keeps an invariant, if the routines inside it do. -/
theorem run (h : Invariant env I) {inner : (r : Routine) → Scanner σ → Ending σ r.Result}
    (hinner : ∀ r s, I s → I (inner r s).state) {α : Type} (m : Reader α) (s : Scanner σ)
    (hs : I s) : I (m.run inner env s).state :=
  h.traced.upholds m inner (fun _ _ => []) (fun r _ s => hinner r s) [] s hs

/-- A routine keeps an invariant. -/
theorem routine (h : Invariant env I) (r : Routine) (s : Scanner σ) (hs : I s) :
    I (r.run env s).state :=
  Reader.Upholds.routine (fun r => h.traced.upholds r.body) r [] s hs

/-- A reader of the grammar keeps an invariant. -/
theorem reader (h : Invariant env I) (m : Reader α) (s : Scanner σ) (hs : I s) :
    I (m.run (Routine.run env) env s).state :=
  h.run (h.routine) m s hs

end Invariant

end HeaderAtlas
