import HeaderAtlas.Declaration.Run

/-!
# Readers get on

A scan has a position, the number of tokens passed, and a size, which bounds the
number of tokens left. Going on from a token raises the one and lowers the other by
as much at least, and putting a token back undoes no more than that. So whatever a
reader does, the position does not fall and the sum of the two does not rise: that is
`Steady`, and it holds of every reader.

The check that a loop makes after every round, and a routine before it is begun, is
about both. By steadiness the position alone decides it (`Steady.passed_iff`), which
is what a comparison of two scans needs: their positions can be compared, their sizes
cannot.
-/

namespace HeaderAtlas

variable {σ : Type} [Feed σ] {α β : Type}

namespace Scanner

variable (env : ScanEnv)

/-! ## Edits -/

@[simp] theorem stream_edit (s : Scanner σ) (e : Edit) : (s.edit env e).stream = s.stream := by
  cases e <;> rfl

@[simp] theorem current_edit (s : Scanner σ) (e : Edit) : (s.edit env e).current = s.current := by
  cases e <;> rfl

@[simp] theorem position_edit (s : Scanner σ) (e : Edit) :
    (s.edit env e).position = s.position := by
  cases e <;> rfl

@[simp] theorem errorsOff_edit (s : Scanner σ) (e : Edit) :
    (s.edit env e).errorsOff = s.errorsOff := by
  cases e <;> rfl

@[simp] theorem guards_edit (s : Scanner σ) (e : Edit) : (s.edit env e).guards = s.guards := by
  cases e <;> rfl

@[simp] theorem size_edit (s : Scanner σ) (e : Edit) : (s.edit env e).size = s.size := by
  simp [size]

/-! ## Steady scans -/

/-- The position has not fallen, and what is left has shrunk by what was passed. As long
as nothing was passed, the current token is the same. -/
structure Steady (s s' : Scanner σ) : Prop where
  position : s.position ≤ s'.position
  size : s'.size + s'.position ≤ s.size + s.position
  current : s'.position = s.position → ∀ t, s.current = some t → s'.current = some t

namespace Steady

variable {s s' s'' : Scanner σ}

theorem refl (s : Scanner σ) : Steady s s := ⟨Nat.le_refl _, Nat.le_refl _, fun _ _ h => h⟩

theorem trans (h : Steady s s') (h' : Steady s' s'') : Steady s s'' where
  position := Nat.le_trans h.position h'.position
  size := Nat.le_trans h'.size h.size
  current := by
    intro heq t ht
    have h₁ := h.position
    have h₂ := h'.position
    have hcur := h.current (by omega) t ht
    exact h'.current (by omega) t hcur

/-- In a steady scan the position tells whether a token was passed. -/
theorem passed_iff (h : Steady s s') : s.Passed s' ↔ s.position < s'.position := by
  have := h.size
  unfold Passed
  omega

theorem size_le (h : Steady s s') : s'.size ≤ s.size := by
  have := h.size
  have := h.position
  omega

end Steady

theorem steady_edit (s : Scanner σ) (e : Edit) : Steady s (s.edit env e) := by
  constructor <;> simp

/-- Putting a token back adds one at most. -/
theorem size_unread (t : Token) (s : Scanner σ) : (s.unread t).size ≤ s.size + 1 := by
  cases h : s.current with
  | none => simp [unread, size, h]
  | some c => simp [unread, size, h, TokenStream.push, TokenStream.size]

/-- Putting a token back undoes the step from it and no more. -/
theorem Steady.unread {s s' : Scanner σ} {t : Token} (h : Steady s s')
    (hp : s.position < s'.position) (ht : s.current = some t) : Steady s (s'.unread t) := by
  have hu : (s'.unread t).position = s'.position - 1 := rfl
  have := size_unread t s'
  have := h.size
  refine ⟨by omega, by omega, fun _ u hu => ?_⟩
  rw [ht] at hu
  exact hu

variable [LawfulFeed σ]

theorem steady_dropLine (s : Scanner σ) (failure : Failure) :
    Steady s (s.swallow failure).discardLine := by
  have := LawfulFeed.size_discardLine s.stream.feed
  refine ⟨Nat.le_refl _, Nat.add_le_add_right ?_ _, fun _ _ h => h⟩
  simp only [discardLine, swallow, size, TokenStream.discardLine, TokenStream.size]
  omega

theorem size_seek (next : Option Token) (s : Scanner σ) :
    (seek env next s).2.stream.size + (seek env next s).1.toList.length
      ≤ s.stream.size + next.toList.length := by
  fun_induction seek env next s with
  | case1 s => exact Nat.le_refl _
  | case2 s t ht hs ih =>
    have hn : (absorb env t.text { s with stream := s.stream.next.2 }).stream.size
        = s.stream.next.2.size := rfl
    simp only [Option.toList_some, List.length_singleton]
    omega
  | case3 s t ht hs s' ih =>
    rw [stream_obey] at ih
    have hn : s'.stream.size = s.stream.directiveArgs.2.2.size := rfl
    simp only [Option.toList_some, List.length_singleton]
    omega
  | case4 s t ht htext => exact Nat.le_refl _
  | case5 s t ht htext hattr =>
    have := s.stream.size_skipAttribute
    simp only [Option.toList_some, List.length_singleton]
    omega
  | case6 s t ht htext hattr count hcount hskip hs ih =>
    dsimp only at ih
    simp only [Option.toList_some, List.length_singleton]
    omega
  | case7 s t ht htext hattr hnone => exact Nat.le_refl _
  | case8 s t => exact Nat.le_refl _

theorem position_advance (s : Scanner σ) :
    (s.advance env).position = s.position + s.current.toList.length := rfl

/-- Going on from a token leaves less. -/
theorem steady_advance (s : Scanner σ) : Steady s (s.advance env) := by
  have hseek := size_seek env s.stream.next.1 { s with stream := s.stream.next.2 }
  have hnext := s.stream.size_next
  constructor
  case current =>
    intro heq t ht
    rw [position_advance, ht] at heq
    exact absurd heq (Nat.ne_of_gt (Nat.lt_succ_self _))
  all_goals
    simp only [advance, size] at *
    omega

/-- Going on from a token passes it. -/
theorem position_advance_of_some {s : Scanner σ} {t : Token} (h : s.current = some t) :
    (s.advance env).position = s.position + 1 := by
  rw [position_advance, h]
  rfl

end Scanner

/-! ## Every reader is steady -/

/-- An ending reached by a steady scan, be it a result or a failure. -/
def Ending.SteadyFrom (s : Scanner σ) (r : Ending σ α) : Prop := s.Steady r.state

namespace Ending.SteadyFrom

variable {s : Scanner σ}

theorem of_eq {r : Ending σ α} {a : α} {s' : Scanner σ} (h : SteadyFrom s r)
    (hr : r = .ok a s') : s.Steady s' := by
  subst hr
  exact h

theorem andThen {r : Ending σ α} {f : α → Scanner σ → Ending σ β} (hr : SteadyFrom s r)
    (hf : ∀ a s', SteadyFrom s' (f a s')) : SteadyFrom s (r.andThen f) := by
  cases r with
  | failed e s' => exact hr
  | ok a s' => exact Scanner.Steady.trans hr (hf a s')

theorem iterate {round : α → Scanner σ → Ending σ (Round α)}
    (h : ∀ a s, SteadyFrom s (round a s)) (a : α) (s : Scanner σ) :
    SteadyFrom s (s.iterate round a) := by
  fun_induction Scanner.iterate round a s with
  | case1 a s b s' hr => exact (h a s).of_eq hr
  | case2 a s b s' hr _ _ ih => exact ((h a s).of_eq hr).trans ih
  | case3 a s b s' hr _ => exact (h a s).of_eq hr
  | case4 a s e s' hr =>
    have hround := h a s
    rw [hr] at hround
    exact hround

end Ending.SteadyFrom

variable [LawfulFeed σ]

namespace Reader

open Ending

/-- Every reader is steady, if the routines inside it are. -/
theorem steady_run {inner : (r : Routine) → Scanner σ → Ending σ r.Result} (env : ScanEnv)
    (hinner : ∀ r s, SteadyFrom s (inner r s)) {α : Type} (m : Reader α) (s : Scanner σ) :
    SteadyFrom s (m.run inner env s) := by
  induction m generalizing s with
  | give a => exact .refl s
  | andThen m f hm hf => exact (hm s).andThen fun a s' => hf a s'
  | env => exact .refl s
  | look => exact .refl s
  | line => exact .refl s
  | edit e => exact Scanner.steady_edit env s e
  | dropLine failure => exact Scanner.steady_dropLine s failure
  | advance => exact Scanner.steady_advance env s
  | past m hm =>
    rw [run]
    split
    · next t ht =>
      obtain ⟨hcur, -⟩ := Option.filter_eq_some_iff.mp ht
      have hadvance := Scanner.steady_advance env s
      have hrun := hm (some t.text) (s.advance env)
      cases hr : run inner env (m (some t.text)) (s.advance env) with
      | failed e u =>
        rw [hr] at hrun
        exact hadvance.trans hrun
      | ok p u =>
        obtain ⟨b, back⟩ := p
        rw [hr] at hrun
        cases back with
        | false => exact hadvance.trans hrun
        | true =>
          -- The name was passed, so there is a step to take back.
          have hp := Scanner.Steady.position hrun
          rw [Scanner.position_advance_of_some env hcur] at hp
          exact Scanner.Steady.unread (hadvance.trans hrun) hp hcur
    · exact (hm none s).andThen fun _ s' => .refl s'
  | loop round a hround => exact SteadyFrom.iterate hround a s
  | call r => exact hinner r s
  | fail failure => exact .refl s

end Reader

/-- Routines are steady. -/
theorem Routine.steady_run (env : ScanEnv) (r : Routine) (s : Scanner σ) :
    Ending.SteadyFrom s (r.run env s) := by
  fun_induction Routine.run env r s with
  | case1 r s ih =>
    refine Reader.steady_run env (fun q s' => ?_) r.body s
    split
    · next h => exact ih q s' h
    · exact .refl s'

/-- What a routine may read inside itself is steady. -/
theorem Routine.steady_inner (env : ScanEnv) (r : Routine) (s : Scanner σ) (q : Routine)
    (s' : Scanner σ) :
    Ending.SteadyFrom s' (if r.Admits q s s' then q.run env s' else .ok default s') := by
  split
  · exact q.steady_run env s'
  · exact .refl s'

end HeaderAtlas
