import HeaderAtlas.Proofs.Reader.Progress

/-!
# A scan reads all of its file

Every item of a file passes the token that it starts with: a declaration because its
type, or the keyword before it, has a first word, and a stray token because it is
passed over. So the loop over the items of a file is never given up, and a scan that
ends well has come to the end of the tokens (`current_of_readFile`).
-/

namespace HeaderAtlas

variable {σ : Type} [Feed σ] {α β : Type}

/-! ## Passing a token -/

/-- An ending reached by passing a token, be it a result or a failure. -/
def Ending.PassedFrom (s : Scanner σ) (r : Ending σ α) : Prop :=
  s.position < r.state.position

namespace Ending.PassedFrom

variable {s : Scanner σ}

omit [Feed σ] in
theorem of_eq {r : Ending σ α} {a : α} {s' : Scanner σ} (h : PassedFrom s r)
    (hr : r = .ok a s') : s.position < s'.position := by
  subst hr
  exact h

/-- A token that was passed stays so. -/
theorem andThen {r : Ending σ α} {f : α → Scanner σ → Ending σ β} (h : PassedFrom s r)
    (hf : ∀ a s', SteadyFrom s' (f a s')) : PassedFrom s (r.andThen f) := by
  cases r with
  | failed e s' => exact h
  | ok a s' => exact Nat.lt_of_lt_of_le h (hf a s').position

/-- A loop passes what its first round passes. -/
theorem iterate {round : α → Scanner σ → Ending σ (Round α)} {a : α}
    (hsteady : ∀ a s, SteadyFrom s (round a s)) (h : PassedFrom s (round a s)) :
    PassedFrom s (s.iterate round a) := by
  cases hr : round a s with
  | failed e s' =>
    rw [hr] at h
    rw [Scanner.iterate_failed hr]
    exact h
  | ok r s' =>
    have hs' := h.of_eq hr
    cases r with
    | done b =>
      rw [Scanner.iterate_done hr]
      exact hs'
    | again b =>
      by_cases hp : s.Passed s'
      · rw [Scanner.iterate_again hr hp]
        exact Nat.lt_of_lt_of_le hs' (SteadyFrom.iterate hsteady b s').position
      · rw [Scanner.iterate_stuck hr hp]
        exact hs'

/-- A loop whose rounds pass a token unless they are done ends with a round that is
done. -/
theorem exists_done {round : α → Scanner σ → Ending σ (Round α)} {a b : α} {s' : Scanner σ}
    (hsteady : ∀ a s, SteadyFrom s (round a s))
    (hpass : ∀ a s b s', round a s = .ok (.again b) s' → s.position < s'.position)
    (h : s.iterate round a = .ok b s') : ∃ a₁ s₁, round a₁ s₁ = .ok (.done b) s' := by
  fun_induction Scanner.iterate round a s with
  | case1 a s c t hr => cases h; exact ⟨a, s, hr⟩
  | case2 a s c t hr _ _ ih => exact ih h
  | case3 a s c t hr hp =>
    exact absurd (((hsteady a s).of_eq hr).passed_iff.mpr (hpass a s c t hr)) hp
  | case4 a s e t hr => cases h

end Ending.PassedFrom

namespace Reader

open Ending

variable [LawfulFeed σ] {inner : (r : Routine) → Scanner σ → Ending σ r.Result} {env : ScanEnv}
  {s : Scanner σ} {t : Token}

theorem passed_bind (hinner : ∀ r s, SteadyFrom s (inner r s)) {m : Reader α} {f : α → Reader β}
    (h : PassedFrom s (m.run inner env s)) : PassedFrom s ((m >>= f).run inner env s) :=
  h.andThen fun a s' => steady_run env hinner (f a) s'

/-- Going on from a token passes it, whatever comes after. -/
theorem passed_advance (hinner : ∀ r s, SteadyFrom s (inner r s)) (h : s.current = some t)
    (f : Unit → Reader α) : PassedFrom s ((advance >>= f).run inner env s) := by
  refine passed_bind hinner ?_
  exact Nat.lt_of_lt_of_eq (Nat.lt_succ_self _) (Scanner.position_advance_of_some env h).symm

theorem passed_take (hinner : ∀ r s, SteadyFrom s (inner r s)) (h : s.current = some t)
    (f : Option Token → Reader α) : PassedFrom s ((take >>= f).run inner env s) := by
  refine passed_bind hinner ?_
  exact Nat.lt_of_lt_of_eq (Nat.lt_succ_self _) (Scanner.position_advance_of_some env h).symm

/-- A look does not pass anything, so what comes after it must. -/
theorem passed_of_look {m : Reader β} {f : β → Reader α} {b : β}
    (hm : m.run inner env s = .ok b s) (h : PassedFrom s ((f b).run inner env s)) :
    PassedFrom s ((m >>= f).run inner env s) := by
  rw [run_bind, hm, andThen_ok]
  exact h

/-! ## Types -/

/-- Taking tokens passes one of them or does nothing. -/
theorem takeWhile_eq_or_passed (hinner : ∀ r s, SteadyFrom s (inner r s)) (p : Token → Bool)
    (f : α → Token → α) (a : α) (s : Scanner σ) :
    (takeWhile p f a).run inner env s = .ok a s
      ∨ PassedFrom s ((takeWhile p f a).run inner env s) := by
  cases hp : s.current.filter p with
  | none =>
    left
    refine Scanner.iterate_done ?_
    simp [takeRound, Scanner.view, hp]
  | some t =>
    right
    obtain ⟨hcur, -⟩ := Option.filter_eq_some_iff.mp hp
    refine PassedFrom.iterate (fun a s => steady_run env hinner _ s) ?_
    rw [takeRound, run_bind, run_look, andThen_ok]
    simp only [Scanner.view, hp]
    exact passed_advance hinner hcur _

/-- The base of a type starts with a name, which is passed. -/
theorem passed_readBase (hinner : ∀ r s, SteadyFrom s (inner r s)) (ty : TypeSpec)
    (h : s.current = some t) (hname : t.isName = true) :
    PassedFrom s ((readBase ty).run inner env s) := by
  unfold readBase
  refine passed_of_look (run_atWord ..) ?_
  split
  · exact passed_bind hinner (passed_advance hinner h _)
  refine passed_of_look (run_atWord ..) ?_
  split
  · exact passed_bind hinner (passed_advance hinner h _)
  refine passed_of_look (run_atWord ..) ?_
  split
  · exact passed_advance hinner h _
  refine passed_of_look (run_atWord ..) ?_
  split
  · exact passed_advance hinner h _
  refine passed_of_look (run_atWord ..) ?_
  split
  · exact passed_advance hinner h _
  refine passed_of_look (run_atName ..) ?_
  rw [h, Option.any_some, if_pos hname]
  exact passed_take hinner h _

/-- A type that starts with a name passes it. -/
theorem passed_wholeType (hinner : ∀ r s, SteadyFrom s (inner r s)) (h : s.current = some t)
    (hname : t.isName = true) : PassedFrom s (wholeType.run inner env s) := by
  unfold wholeType
  rw [run_bind, run_atEnd, andThen_ok, h, Option.isNone_some, if_neg Bool.false_ne_true]
  have hwords : (takeWords isQualifier {}).run inner env s = .ok {} s
      ∨ PassedFrom s ((takeWords isQualifier {}).run inner env s) :=
    takeWhile_eq_or_passed hinner isQualifier (fun ty t => TypeSpec.word ty t.text) _ s
  rcases hwords with heq | hpassed
  · rw [run_bind, heq, andThen_ok]
    exact passed_bind hinner (passed_readBase hinner {} h hname)
  · exact passed_bind hinner hpassed

end Reader

open Ending

variable [LawfulFeed σ] {env : ScanEnv} {s : Scanner σ} {t : Token}

theorem Routine.passed_type (h : s.current = some t) (hname : t.isName = true) :
    PassedFrom s (Routine.type.run env s) := by
  rw [Routine.run]
  exact Reader.passed_wholeType (Routine.type.steady_inner env s) h hname

namespace Reader

/-! ## Declarations -/

section Declaration

variable {inner : (r : Routine) → Scanner σ → Ending σ r.Result}

/-- A declaration that starts with a name passes it, if its type does. -/
theorem passed_readUnqualified (hinner : ∀ r s, SteadyFrom s (inner r s))
    (htype : PassedFrom s (inner .type s)) (isStatic : Bool) (h : s.current = some t) :
    PassedFrom s ((readUnqualified isStatic).run inner env s) := by
  unfold readUnqualified
  refine passed_of_look (run_look ..) ?_
  simp only [Scanner.view, h]
  split
  · exact passed_advance hinner h _
  refine passed_of_look (run_env ..) ?_
  split
  · exact passed_bind hinner (passed_of_look (run_look ..) (passed_advance hinner h _))
  · exact passed_bind hinner htype

theorem passed_wholeDeclaration (hinner : ∀ r s, SteadyFrom s (inner r s))
    (htype : PassedFrom s (inner .type s)) (h : s.current = some t) :
    PassedFrom s (wholeDeclaration.run inner env s) := by
  unfold wholeDeclaration
  refine passed_of_look (run_atWord ..) ?_
  split
  · exact passed_advance hinner h _
  refine passed_of_look (run_atWord ..) ?_
  split
  · exact passed_advance hinner h _
  · exact passed_readUnqualified hinner htype false h

end Declaration

/-- A declaration passes the name that it starts with. -/
theorem passed_declaration (h : s.current = some t) (hname : t.isName = true) :
    PassedFrom s (Routine.declaration.run env s) := by
  rw [Routine.run]
  refine passed_wholeDeclaration (Routine.declaration.steady_inner env s) ?_ h
  -- The type may be begun where the declaration was: it is of a lower rank.
  have hadmits : Routine.declaration.Admits .type s s := .inr ⟨Nat.zero_lt_one, Nat.le_refl _⟩
  rw [dif_pos hadmits]
  exact Routine.passed_type h hname

/-- A token that cannot start a declaration stays the current one. -/
theorem current_strayToken {c : Option Closing} {s' : Scanner σ}
    (h : strayToken.run (Routine.run env) env s = .ok c s') :
    c = some .nothing ∧ s'.current = s.current ∧ s'.position = s.position := by
  unfold strayToken malformed at h
  simp only [run_bind, run_describe, place, run_env, run_line, run_look, run_pure, andThen_ok] at h
  split at h
  · cases h
    exact ⟨rfl, rfl, rfl⟩
  · cases h

/-- An item that starts with a name passes it, whether or not it can be read. -/
theorem passed_blockRound_of_name (h : s.current = some t) (hname : t.isName = true) :
    PassedFrom s (blockRound.run (Routine.run env) env s) := by
  unfold blockRound readItem
  refine passed_bind (Routine.steady_run env) (passed_of_look (run_atName ..) ?_)
  rw [h, Option.any_some, if_pos hname]
  exact passed_declaration h hname

/-- An item passes the token that it starts with. -/
theorem passed_blockRound {a : Unit} {s' : Scanner σ} (h : s.current = some t)
    (hrun : blockRound.run (Routine.run env) env s = .ok a s') : s.position < s'.position := by
  cases hname : t.isName with
  | true => exact (passed_blockRound_of_name h hname).of_eq hrun
  | false =>
    unfold blockRound readItem at hrun
    have hread : (do if ← atName then readDeclaration else strayToken).run (Routine.run env) env s
        = strayToken.run (Routine.run env) env s := by
      rw [run_bind, run_atName, andThen_ok, h, Option.any_some, hname]
      rfl
    rw [run_bind, hread] at hrun
    cases hr : strayToken.run (Routine.run env) env s with
    | failed e u => rw [hr] at hrun; cases hrun
    | ok c u =>
      obtain ⟨rfl, hcur, hpos⟩ := current_strayToken hr
      rw [hr] at hrun
      rw [← hpos]
      exact (passed_advance (Routine.steady_run env) (hcur.trans h) _).of_eq hrun

/-! ## The end of the tokens -/

/-- A scan that ends well has come to the end of the tokens. -/
theorem current_of_readFile {s' : Scanner σ}
    (h : readFile.run (Routine.run env) env s = .ok () s') : s'.current = none := by
  have hsteady : ∀ a (s : Scanner σ), SteadyFrom s ((fileRound a).run (Routine.run env) env s) :=
    fun a s => steady_run env (Routine.steady_run env) (fileRound a) s
  have hpass : ∀ a (u : Scanner σ) b u',
      (fileRound a).run (Routine.run env) env u = .ok (.again b) u' → u.position < u'.position := by
    intro a u b u' hr
    unfold fileRound at hr
    rw [run_bind, run_atEnd, andThen_ok] at hr
    cases hcur : u.current with
    | none => rw [hcur] at hr; cases hr
    | some c =>
      rw [hcur, Option.isNone_some, if_neg Bool.false_ne_true, run_bind] at hr
      cases hb : blockRound.run (Routine.run env) env u with
      | failed e v => rw [hb] at hr; cases hr
      | ok x v =>
        rw [hb] at hr
        cases hr
        exact passed_blockRound hcur hb
  obtain ⟨a, u, hdone⟩ := PassedFrom.exists_done hsteady hpass h
  -- A round is done only where there is no token.
  unfold fileRound at hdone
  rw [run_bind, run_atEnd, andThen_ok] at hdone
  split at hdone
  · next hend => cases hdone; exact Option.isNone_iff_eq_none.mp hend
  · rw [run_bind] at hdone
    cases hb : blockRound.run (Routine.run env) env u with
    | ok _ _ => rw [hb] at hdone; cases hdone
    | failed _ _ => rw [hb] at hdone; cases hdone

end Reader

end HeaderAtlas
