import HeaderAtlas.Proofs.Reader.Execution
import HeaderAtlas.Proofs.Scanner.Slot

/-!
# Every loop gets on

A round of a loop that goes on passes a token, also where errors are switched off and the
grammar has been left: either a token is used up in the course of the round, or nothing was
passed before, and then the token that the round began with is still there to be used up
(`PassesOn.after_token`).

So every reader of the grammar is regular. The readers are gone through one by one, along
the calls between them; what calls no routine is regular whatever `P` is.
-/

namespace HeaderAtlas

open Ending

variable {σ : Type} [Feed σ] [LawfulFeed σ] {α β : Type}

/-- Is there another round? -/
def Round.GoesOn : Round α → Prop
  | again _ => True
  | done _ => False

namespace Reader

/-- A token is passed on the way to a result that satisfies `Q`. -/
def PassesOn (Q : α → Prop) (env : ScanEnv) (m : Reader α) (s : Scanner σ) : Prop :=
  ∀ a s', m.run (Routine.run env) env s = .ok a s' → Q a → s.position < s'.position

theorem run_bind_of_ok {inner : (r : Routine) → Scanner σ → Ending σ r.Result} {env : ScanEnv}
    {m : Reader α} {f : α → Reader β} {s s' : Scanner σ} {a : α} {r : Ending σ β}
    (h : m.run inner env s = .ok a s') (h' : (f a).run inner env s' = r) :
    (m >>= f).run inner env s = r := by
  rw [run_bind, h, andThen_ok]
  exact h'

theorem run_bind_eq_ok {inner : (r : Routine) → Scanner σ → Ending σ r.Result} {env : ScanEnv}
    {m : Reader α} {f : α → Reader β} {s s'' : Scanner σ} {b : β}
    (h : (m >>= f).run inner env s = .ok b s'') :
    ∃ a s', m.run inner env s = .ok a s' ∧ (f a).run inner env s' = .ok b s'' := by
  rw [run_bind] at h
  cases hr : m.run inner env s with
  | failed e s' => rw [hr] at h; cases h
  | ok a s' => rw [hr] at h; exact ⟨a, s', rfl, h⟩

namespace PassesOn

variable {env : ScanEnv} {Q : β → Prop} {m : Reader α} {f : α → Reader β} {s : Scanner σ}
  {t : Token}

theorem pure {b : β} (h : ¬ Q b) : PassesOn Q env (pure b) s := by
  intro a s' hrun hQ
  cases hrun
  exact absurd hQ h

theorem look {a : α} (hrun : m.run (Routine.run env) env s = .ok a s)
    (h : PassesOn Q env (f a) s) : PassesOn Q env (m >>= f) s := by
  intro b s' hb hQ
  rw [run_bind, hrun] at hb
  exact h b s' hb hQ

theorem advance (hcur : s.current = some t) (f : Unit → Reader β) :
    PassesOn Q env (Reader.advance >>= f) s :=
  fun _ _ hrun _ => (passed_advance (Routine.steady_run env) hcur f).of_eq hrun

theorem left (h : PassesOn (fun _ => True) env m s) : PassesOn Q env (m >>= f) s := by
  intro b s'' hrun _
  obtain ⟨a, s', hm, hf⟩ := run_bind_eq_ok hrun
  have hrest := (steady_run env (Routine.steady_run env) (f a) s').of_eq hf
  exact Nat.lt_of_lt_of_le (h a s' hm trivial) hrest.position

theorem after (h : ∀ a (s' : Scanner σ), PassesOn Q env (f a) s') : PassesOn Q env (m >>= f) s := by
  intro b s'' hrun hQ
  obtain ⟨a, s', hm, hf⟩ := run_bind_eq_ok hrun
  have hfirst := (steady_run env (Routine.steady_run env) m s).of_eq hm
  exact Nat.lt_of_le_of_lt hfirst.position (h a s' b s'' hf hQ)

/-- Whatever comes first either passes the token or leaves it. -/
theorem after_token (hcur : s.current = some t)
    (h : ∀ a (s' : Scanner σ), s'.current = some t → PassesOn Q env (f a) s') :
    PassesOn Q env (m >>= f) s := by
  intro b s'' hrun hQ
  obtain ⟨a, s', hm, hf⟩ := run_bind_eq_ok hrun
  have hfirst := (steady_run env (Routine.steady_run env) m s).of_eq hm
  have hrest := (steady_run env (Routine.steady_run env) (f a) s').of_eq hf
  have h₁ := hfirst.position
  have h₂ := hrest.position
  by_cases heq : s'.position = s.position
  · have := h a s' (hfirst.current heq t hcur) b s'' hf hQ
    omega
  · omega

end PassesOn

theorem progresses {round : α → Reader (Round α)}
    (h : ∀ {σ : Type} [Feed σ] [LawfulFeed σ] (env : ScanEnv) (a : α) (s : Scanner σ),
      PassesOn Round.GoesOn env (round a) s) : Progresses round :=
  fun _ _ _ env a _ s s' hrun => h env a s _ s' hrun trivial

/-! ## Small readers -/

section Small

variable {P : Routine → Prop}

@[simp] theorem regular_at? (p : Token → Bool) : (at? p).Regular P := by simp [at?]

@[simp] theorem regular_atSep (sep : String) : (atSep sep).Regular P := regular_at? _

@[simp] theorem regular_atOp (op : String) : (atOp op).Regular P := regular_at? _

@[simp] theorem regular_atWord (word : String) : (atWord word).Regular P := regular_at? _

@[simp] theorem regular_atName : atName.Regular P := regular_at? _

@[simp] theorem regular_atClass (cls : TokenClass) : (atClass cls).Regular P := regular_at? _

@[simp] theorem regular_atEnd : atEnd.Regular P := by simp [atEnd]

@[simp] theorem regular_currentName : currentName.Regular P := by simp [currentName]

@[simp] theorem regular_take : take.Regular P := by simp [take]

@[simp] theorem regular_place : place.Regular P := by simp [place]

@[simp] theorem regular_isLocal : isLocal.Regular P := by simp [isLocal]

@[simp] theorem regular_raise (failure : Failure) : (raise failure).Regular P := by
  simp [raise]

@[simp] theorem regular_malformed (message : String) : (malformed message).Regular P := by
  simp [malformed]

@[simp] theorem regular_unexpected (message : String) : (unexpected message).Regular P := by
  simp [unexpected, describe]

@[simp] theorem regular_record (name : String) (category : Category) (detail : Option Detail)
    (extra : Option String) (isStatic : Bool) :
    (record name category detail extra isStatic).Regular P := trivial

@[simp] theorem regular_dropComment : dropComment.Regular P := trivial

@[simp] theorem regular_takeComment : takeComment.Regular P := by simp [takeComment]

theorem progresses_takeRound (p : Token → Bool) (f : α → Token → α) :
    Progresses (takeRound p f) := by
  refine progresses fun env a s => ?_
  unfold takeRound
  refine .look (run_look ..) ?_
  split
  · next t ht =>
    obtain ⟨hcur, -⟩ := Option.filter_eq_some_iff.mp ht
    exact .advance hcur _
  · exact .pure id

@[simp] theorem regular_takeWhile (p : Token → Bool) (f : α → Token → α) (a : α) :
    (takeWhile p f a).Regular P := by
  refine ⟨progresses_takeRound p f, fun b => ?_⟩
  simp only [takeRound, regular_bind, regular_look, true_and]
  intro v
  split <;> simp

end Small

/-! ## Blocks and enumerations -/

section Blocks

variable {P : Routine → Prop}

@[simp] theorem regular_skipBraces : skipBraces.Regular P := by
  refine ⟨⟨?_, fun depth => ?_⟩, fun _ => trivial⟩
  · refine progresses fun env depth s => ?_
    refine .look (run_atEnd ..) ?_
    cases hcur : s.current with
    | none => exact .pure id
    | some t =>
      refine .look (run_atSep ..) ?_
      split
      · exact .advance hcur _
      refine .look (run_atSep ..) ?_
      split
      · exact .advance hcur _
      · exact .advance hcur _
  · simp

@[simp] theorem regular_noteUse (t : Token) : (noteUse t).Regular P := by
  simp only [noteUse, regular_ite, regular_pure, regular_bind, regular_env, true_and]
  split
  · trivial
  intro e
  split
  · simp only [regular_bind, regular_place, true_and]
    intro here
    split <;> simp
  · trivial

theorem progresses_bodyRound : Progresses bodyRound := by
  refine progresses fun env depth s => ?_
  unfold bodyRound
  refine .look (run_atEnd ..) ?_
  cases hcur : s.current with
  | none => exact .pure id
  | some t =>
    refine .look (run_atSep ..) ?_
    split
    · exact .advance hcur _
    refine .look (run_atSep ..) ?_
    split
    · refine .after_token hcur fun _ s' hcur' => ?_
      split
      · exact .pure id
      · exact .advance hcur' _
    refine .look (run_env ..) ?_
    split
    · exact fun _ _ hrun _ => (passed_take (Routine.steady_run env) hcur _).of_eq hrun
    · exact .advance hcur _

@[simp] theorem regular_readBody : readBody.Regular P := by
  refine ⟨⟨progresses_bodyRound, fun depth => ?_⟩, fun _ => trivial⟩
  simp only [bodyRound, regular_bind, regular_ite, regular_atEnd, regular_atSep, regular_env,
    regular_advance, regular_dropComment, regular_take, regular_pure, true_and, ite_self,
    implies_true, if_true_left]
  intro _ _ _ _ _ _ e
  split
  · intro t
    cases t <;> simp
  · trivial

@[simp] theorem regular_settle (p : EnumProgress) : (settle p).Regular P := by
  unfold settle
  split <;> simp

@[simp] theorem regular_readValue (value : String) : (readValue value).Regular P := by
  refine ⟨?_, fun value => ?_⟩
  · refine progresses fun env value s => ?_
    refine .look (run_look ..) ?_
    cases hcur : s.current with
    | none =>
      simp only [Scanner.view, hcur]
      exact .pure id
    | some t =>
      simp only [Scanner.view, hcur]
      split
      · exact .pure id
      · exact .advance hcur _
  · simp only [regular_bind, regular_look, true_and]
    intro v
    split <;> simp

@[simp] theorem regular_readEnumValue (name : String) (previous : Option Int) :
    (readEnumValue name previous).Regular P := by
  simp only [readEnumValue, regular_bind, regular_look, true_and]
  intro v
  split
  · simp
  · split <;> simp

/-- Every round over the enumerators passes the token that it begins with. -/
theorem passesOn_enumRound {Q : Round EnumProgress → Prop} {env : ScanEnv} {s : Scanner σ}
    {t : Token} (commentsLead : Bool) (p : EnumProgress) (hcur : s.current = some t) :
    PassesOn Q env (enumRound commentsLead p) s := by
  unfold enumRound
  refine .look (run_look ..) ?_
  simp only [Scanner.view, hcur]
  split
  · exact .advance hcur _
  split
  · exact .after_token hcur fun _ s' hcur' => .advance hcur' _
  split
  · exact .advance hcur _
  · exact .after_token hcur fun _ s' hcur' => .look (run_line ..) (.advance hcur' _)

theorem progresses_enumRound (commentsLead : Bool) : Progresses (enumRound commentsLead) := by
  refine progresses fun env p s => ?_
  cases hcur : s.current with
  | some t => exact passesOn_enumRound commentsLead p hcur
  | none =>
    refine .look (run_look ..) ?_
    simp only [Scanner.view, hcur]
    exact .pure id

theorem regular_enumRound (commentsLead : Bool) (p : EnumProgress) :
    (enumRound commentsLead p).Regular P := by
  simp only [enumRound, regular_bind, regular_look, true_and]
  intro w
  split <;> simp

@[simp] theorem regular_readEnumerators : readEnumerators.Regular P :=
  ⟨trivial, fun _ => ⟨⟨progresses_enumRound _, regular_enumRound _⟩, fun _ => trivial⟩⟩

@[simp] theorem regular_recordEnumerators (es : List Enumerator) (enumType : Option String) :
    (recordEnumerators es enumType).Regular P := by
  simp [recordEnumerators]

end Blocks

/-! ## Types -/

section Types

variable {P : Routine → Prop}

@[simp] theorem regular_takeWords (p : Token → Bool) (ty : TypeSpec) :
    (takeWords p ty).Regular P := regular_takeWhile ..

@[simp] theorem regular_optionalWord (w : String) (ty : TypeSpec) :
    (optionalWord w ty).Regular P := by
  simp [optionalWord]

/-- The end of a round over the parameters: a comma, a parenthesis or what is out of
place. -/
def endParam (params : List Param) : Reader (Round (List Param)) := do
  if ← atSep "," then
    advance
    return .again params
  else if ← atSep ")" then
    advance
    return .done params
  else
    unexpected "parsing signature: expecting ',' or ')'"
    advance
    return .again params

theorem paramRound_eq (params : List Param) :
    paramRound params = (do
      if ← atEnd then return .done params
      let ty ← readType
      match ← currentName with
      | some name =>
        advance
        endParam (← pure (params ++ [⟨ty.text, some name, none⟩]))
      | none =>
        if (← atSep ",") || (← atSep ")") then endParam (← pure (params ++ bareParam ty.text))
        else endParam (← pure params)) := rfl

/-- Every round over the parameters passes a token, whatever became of the type. -/
theorem passesOn_paramRound {Q : Round (List Param) → Prop} {env : ScanEnv} {s : Scanner σ}
    {t : Token} (params : List Param) (hcur : s.current = some t) :
    PassesOn Q env (paramRound params) s := by
  have hend : ∀ (params : List Param) (u : Scanner σ), u.current = some t →
      PassesOn Q env (endParam params) u := by
    intro params u hu
    refine .look (run_atSep ..) ?_
    split
    · exact .advance hu _
    refine .look (run_atSep ..) ?_
    split
    · exact .advance hu _
    · exact .after_token hu fun _ v hv => .advance hv _
  rw [paramRound_eq]
  refine .look (run_atEnd ..) ?_
  rw [hcur, Option.isNone_some, if_neg Bool.false_ne_true]
  refine .after_token hcur fun ty s₁ h₁ => .look (run_currentName ..) ?_
  split
  · exact .advance h₁ _
  · refine .look (run_atSep ..) (.look (run_atSep ..) ?_)
    split
    · exact hend _ s₁ h₁
    · exact hend _ s₁ h₁

theorem progresses_paramRound : Progresses paramRound := by
  refine progresses fun env params s => ?_
  cases hcur : s.current with
  | some t => exact passesOn_paramRound params hcur
  | none =>
    unfold paramRound
    refine .look (run_atEnd ..) ?_
    rw [hcur]
    exact .pure id

theorem regular_readType (h : P .type) : readType.Regular P := h

theorem regular_paramRound (h : P .type) (params : List Param) :
    (paramRound params).Regular P := by
  simp only [paramRound, regular_bind, regular_ite, regular_atEnd, regular_currentName,
    regular_readType h, regular_pure, true_and, if_true_left]
  intro _ _ ty name
  cases name <;> simp

theorem regular_readParams (h : P .type) : readParams.Regular P := by
  have hloop : (loop paramRound []).Regular P := ⟨progresses_paramRound, regular_paramRound h⟩
  simp [readParams, hloop]

@[simp] theorem regular_fieldType (ty : TypeSpec) : (fieldType ty).Regular P := by
  unfold fieldType
  split <;> simp

/-- Every round over the fields passes a token. -/
theorem passesOn_fieldRound {Q : Round (List Field) → Prop} {env : ScanEnv} {s : Scanner σ}
    {t : Token} (a : Aggregate) (fields : List Field) (hcur : s.current = some t) :
    PassesOn Q env (fieldRound a fields) s := by
  unfold fieldRound
  refine .look (run_atEnd ..) ?_
  rw [hcur, Option.isNone_some, if_neg Bool.false_ne_true]
  refine .look (run_atSep ..) ?_
  split
  · exact .advance hcur _
  refine .look (run_atSep ..) ?_
  split
  · exact .advance hcur _
  refine .after_token hcur fun ty s₁ h₁ => .after_token h₁ fun type s₂ h₂ => ?_
  refine .look (run_currentName ..) ?_
  split
  · exact .advance h₂ _
  · refine .look (run_atSep ..) ?_
    split
    · exact .advance h₂ _
    · exact .after_token h₂ fun _ s₃ h₃ => .advance h₃ _

theorem progresses_fieldRound (a : Aggregate) : Progresses (fieldRound a) := by
  refine progresses fun env fields s => ?_
  cases hcur : s.current with
  | some t => exact passesOn_fieldRound a fields hcur
  | none =>
    unfold fieldRound
    refine .look (run_atEnd ..) ?_
    rw [hcur]
    exact .pure id

theorem regular_fieldRound (h : P .type) (a : Aggregate) (fields : List Field) :
    (fieldRound a fields).Regular P := by
  simp only [fieldRound, regular_bind, regular_ite, regular_atEnd, regular_atSep,
    regular_readType h, regular_currentName, regular_advance, regular_skipBraces,
    regular_fieldType, regular_pure, true_and, implies_true, if_true_left]
  intro _ _ _ _ _ _ ty type name
  cases name <;> simp

theorem regular_readFields (h : P .type) (a : Aggregate) : (readFields a).Regular P :=
  ⟨progresses_fieldRound a, regular_fieldRound h a⟩

end Types

/-! ## Names put back -/

/-- Every result that is spelt out at the end of the reader satisfies `Q`. -/
def Gives : {α : Type} → (α → Prop) → Reader α → Prop
  | _, Q, give a => Q a
  | _, Q, andThen _ f => ∀ a, (f a).Gives Q
  | _, _, fail _ => True
  | _, Q, _ => ∀ a, Q a

section Gives

variable {Q : β → Prop}

@[simp] theorem gives_pure {b : β} : (pure b : Reader β).Gives Q ↔ Q b := Iff.rfl

@[simp] theorem gives_bind {m : Reader α} {f : α → Reader β} :
    (m >>= f).Gives Q ↔ ∀ a, (f a).Gives Q := Iff.rfl

@[simp] theorem gives_ite {c : Prop} [Decidable c] {m n : Reader β} :
    (if c then m else n).Gives Q ↔ if c then m.Gives Q else n.Gives Q := by
  split <;> rfl

theorem Gives.of_run {inner : (r : Routine) → Scanner σ → Ending σ r.Result} {env : ScanEnv}
    {β : Type} {Q : β → Prop} {m : Reader β} (h : m.Gives Q) {s s' : Scanner σ} {b : β}
    (hrun : m.run inner env s = .ok b s') : Q b := by
  induction m generalizing s with
  | give a => cases hrun; exact h
  | andThen m f _ ih =>
    obtain ⟨a, u, -, hf⟩ := run_bind_eq_ok hrun
    exact ih a (h a) hf
  | fail failure => cases hrun
  | env => exact h b
  | look => exact h b
  | line => exact h b
  | edit ed => exact h b
  | dropLine failure => exact h b
  | advance => exact h b
  | past m => exact h b
  | loop round a => exact h b
  | call r => exact h b

end Gives

@[simp] theorem Round.goesOn_again (a : α) : (Round.again a).GoesOn := trivial

section Past

variable {P : Routine → Prop} {env : ScanEnv} {s s' : Scanner σ}

/-- Nothing is put back that is not used yet, or the tokens are at an end. -/
def Settled (s : Scanner σ) : Prop := s.stream.held = none ∨ s.current = none

theorem settled_advance (s : Scanner σ) : Settled (s.advance env) :=
  .inl (Scanner.held_advance env s)

/-- What holds after the round that is done holds after the loop. Each round may rely on
what the ones before it keep. -/
theorem of_run_loop {round : α → Reader (Round α)} {I : Scanner σ → Prop}
    {Q : α → Scanner σ → Prop} (hpass : Progresses round)
    (hagain : ∀ a b (s s' : Scanner σ), I s →
      (round a).run (Routine.run env) env s = .ok (.again b) s' → I s')
    (hdone : ∀ a b (s s' : Scanner σ), I s →
      (round a).run (Routine.run env) env s = .ok (.done b) s' → Q b s')
    {a b : α} (hs : I s) (h : (loop round a).run (Routine.run env) env s = .ok b s') : Q b s' := by
  rw [run] at h
  fun_induction Scanner.iterate (fun a s => (round a).run (Routine.run env) env s) a s with
  | case1 a s c u hr => cases h; exact hdone a _ s _ hs hr
  | case2 a s c u hr _ _ ih => exact ih (hagain a c s u hs hr) h
  | case3 a s c u hr hp =>
    have hsteady := (steady_run env (Routine.steady_run env) (round a) s).of_eq hr
    exact absurd (hsteady.passed_iff.mpr (hpass σ env a c s u hr)) hp
  | case4 a s e u hr => cases h

theorem settled_readFields (a : Aggregate) {fields : List Field}
    (h : (readFields a).run (Routine.run env) env s = .ok fields s') : Settled s' := by
  refine of_run_loop (I := fun _ => True) (Q := fun _ => Settled) (progresses_fieldRound a)
    (fun _ _ _ _ _ _ => trivial) (fun fs b s s' _ hround => ?_) trivial h
  unfold fieldRound at hround
  rw [run_bind, run_atEnd, andThen_ok] at hround
  split at hround
  · next hend =>
    cases hround
    exact .inr (Option.isNone_iff_eq_none.mp hend)
  rw [run_bind, run_atSep, andThen_ok] at hround
  split at hround
  · cases hround
    exact settled_advance s
  -- What is left of the round reads a field or passes over a block, and goes on.
  refine absurd (Gives.of_run (Q := Round.GoesOn) ?_ hround) id
  simp only [gives_bind, gives_ite, gives_pure, Round.goesOn_again, implies_true, if_true_left]
  intro _ _ ty type name
  cases name <;> simp

theorem settled_endParam {params b : List Param}
    (h : (endParam params).run (Routine.run env) env s = .ok (.done b) s') : Settled s' := by
  unfold endParam at h
  rw [run_bind, run_atSep, andThen_ok] at h
  split at h
  · cases h
  rw [run_bind, run_atSep, andThen_ok] at h
  split at h
  · cases h
    exact settled_advance s
  · obtain ⟨_, _, -, h⟩ := run_bind_eq_ok h
    cases h

theorem settled_readParams {params : List Param}
    (h : readParams.run (Routine.run env) env s = .ok params s') : Settled s' := by
  unfold readParams at h
  rw [run_bind, run_atSep, andThen_ok] at h
  split at h
  · cases h
    exact settled_advance s
  refine of_run_loop (I := fun _ => True) (Q := fun _ => Settled) progresses_paramRound
    (fun _ _ _ _ _ _ => trivial) (fun ps b s s' _ hround => ?_) trivial h
  rw [paramRound_eq, run_bind, run_atEnd, andThen_ok] at hround
  split at hround
  · next hend =>
    cases hround
    exact .inr (Option.isNone_iff_eq_none.mp hend)
  obtain ⟨ty, s₁, -, hround⟩ := run_bind_eq_ok hround
  rw [run_bind, run_currentName, andThen_ok] at hround
  split at hround
  · exact settled_endParam hround
  · rw [run_bind, run_atSep, andThen_ok, run_bind, run_atSep, andThen_ok] at hround
    split at hround
    · exact settled_endParam hround
    · exact settled_endParam hround

/-- One dimension of an array. -/
def dimensionRound (p : TypeSpec × Bool) : Reader (Round (TypeSpec × Bool)) := do
  let (ty, _) := p
  if !(← atSep "[") then return .done (ty, true)
  advance
  let ty ← takeWhile (·.cls != .separator) (fun ty t => ty.append t.text) (ty.append "[")
  if ← atSep "]" then
    advance
    return .again (ty.append "]", true)
  else
    unexpected "parsing array type, ']' expected"
    return .done (ty, false)

theorem readDimensions_eq (ty : TypeSpec) : readDimensions ty = loop dimensionRound (ty, true) :=
  rfl

theorem progresses_dimensionRound : Progresses dimensionRound := by
  refine progresses fun env p s => ?_
  refine .look (run_atSep ..) ?_
  split
  · exact .pure id
  next hsep =>
    obtain ⟨t, hcur, -⟩ := (Option.any_eq_true ..).mp (by simpa using hsep)
    exact .advance hcur _

@[simp] theorem regular_readDimensions (ty : TypeSpec) : (readDimensions ty).Regular P := by
  rw [readDimensions_eq]
  refine ⟨progresses_dimensionRound, fun p => ?_⟩
  simp [dimensionRound]

/-- A round leaves the slot empty, if it was, unless it ends inside a dimension. -/
theorem held_dimensionRound {p : TypeSpec × Bool} {r : Round (TypeSpec × Bool)}
    (hs : s.stream.held = none)
    (h : (dimensionRound p).run (Routine.run env) env s = .ok r s') :
    s'.stream.held = none ∨ ∃ ty, r = .done (ty, false) := by
  unfold dimensionRound at h
  rw [run_bind, run_atSep, andThen_ok] at h
  split at h
  · cases h
    exact .inl hs
  obtain ⟨_, _, -, h⟩ := run_bind_eq_ok h
  obtain ⟨_, v, -, h⟩ := run_bind_eq_ok h
  rw [run_bind, run_atSep, andThen_ok] at h
  split at h
  · cases h
    exact .inl (Scanner.held_advance env v)
  · obtain ⟨_, _, -, h⟩ := run_bind_eq_ok h
    cases h
    exact .inr ⟨_, rfl⟩

/-- The dimensions of an array leave the slot empty, if it was and they are all closed. -/
theorem held_readDimensions {ty ty' : TypeSpec} (hs : s.stream.held = none)
    (h : (readDimensions ty).run (Routine.run env) env s = .ok (ty', true) s') :
    s'.stream.held = none := by
  rw [readDimensions_eq] at h
  refine of_run_loop (I := fun u => u.stream.held = none)
    (Q := fun p u => p.2 = true → u.stream.held = none) progresses_dimensionRound
    (fun p q u u' hu hround => ?again) (fun p q u u' hu hround hclosed => ?done) hs h rfl
  case again =>
    rcases held_dimensionRound hu hround with hheld | ⟨_, hopen⟩
    · exact hheld
    · cases hopen
  case done =>
    rcases held_dimensionRound hu hround with hheld | ⟨_, hopen⟩
    · exact hheld
    · cases hopen
      cases hclosed

@[simp] theorem regular_readSuffix (ty : TypeSpec) : (readSuffix ty).Regular P := by
  refine ⟨?_, fun name => by simp⟩
  intro σ _ _ env name a s s' hs h
  left
  rw [run_bind, run_atSep, andThen_ok] at h
  split at h
  · exact held_readDimensions hs h
  rw [run_bind, run_atSep, andThen_ok] at h
  split at h
  · cases h
    exact Scanner.held_advance env _
  · cases h
    exact hs

theorem regular_readAggregate (h : P .type) (a : Aggregate) (ty : TypeSpec) :
    (readAggregate a ty).Regular P := by
  refine ⟨trivial, fun _ => ⟨?_, fun tag => ?_⟩⟩
  · intro σ _ _ env name b s s' _ hrun
    rw [run_bind, run_atSep, andThen_ok] at hrun
    split at hrun
    · obtain ⟨_, _, -, hrun⟩ := run_bind_eq_ok hrun
      obtain ⟨fields, u, hfields, hrun⟩ := run_bind_eq_ok hrun
      cases hrun
      exact settled_readFields a hfields
    · cases hrun
  · simp only [regular_bind, regular_ite, regular_atSep, regular_advance,
      regular_readFields h a, regular_pure, true_and, implies_true, if_true_left]
    intro _ _
    cases tag <;> simp

theorem regular_readFunctionPointer (h : P .type) (ty : TypeSpec) :
    (readFunctionPointer ty).Regular P := by
  refine ⟨trivial, fun _ => ⟨regular_takeWhile .., fun ty => ⟨?_, fun name => ?_⟩⟩⟩
  · intro σ _ _ env name b s s' _ hrun
    dsimp only at hrun
    rw [run_bind, run_atSep, andThen_ok] at hrun
    split at hrun
    · obtain ⟨_, _, -, hrun⟩ := run_bind_eq_ok hrun
      cases hrun
    obtain ⟨_, _, -, hrun⟩ := run_bind_eq_ok hrun
    rw [run_bind, run_atSep, andThen_ok] at hrun
    split at hrun
    · obtain ⟨_, _, -, hrun⟩ := run_bind_eq_ok hrun
      cases hrun
    obtain ⟨_, _, -, hrun⟩ := run_bind_eq_ok hrun
    obtain ⟨params, u, hparams, hrun⟩ := run_bind_eq_ok hrun
    cases hrun
    exact settled_readParams hparams
  · cases name with
    | none => simp
    | some name => simp [regular_readParams h]

end Past

/-! ## Whole types and declarations -/

section Whole

variable {P : Routine → Prop}

@[simp] theorem regular_longRest (ty : TypeSpec) : (longRest ty).Regular P := by simp [longRest]

@[simp] theorem regular_shortRest (ty : TypeSpec) : (shortRest ty).Regular P := by
  simp [shortRest]

@[simp] theorem regular_readEnum (ty : TypeSpec) : (readEnum ty).Regular P := by
  simp only [readEnum, regular_bind, regular_ite, regular_advance, regular_currentName,
    regular_atSep, regular_dropComment, regular_readEnumerators, regular_recordEnumerators,
    regular_pure, true_and, implies_true, if_true_left]
  intro _ tag
  cases tag <;> simp

theorem regular_readBase (h : P .type) (ty : TypeSpec) : (readBase ty).Regular P := by
  simp only [readBase, regular_bind, regular_ite, regular_atWord, regular_atName,
    regular_longRest, regular_shortRest, regular_readAggregate h, regular_readEnum, regular_take,
    regular_unexpected, regular_pure, true_and, implies_true, ite_self, if_true_left,
    if_true_right]
  intro _ _ _ _ _ _ _ _ _ _ _ _ t
  cases t <;> simp

theorem regular_readRest (h : P .type) (ty : TypeSpec) : (readRest ty).Regular P := by
  simp [readRest, regular_readFunctionPointer h]

theorem regular_wholeType (h : P .type) : wholeType.Regular P := by
  simp [wholeType, regular_readBase h, regular_readRest h]

@[simp] theorem regular_enforce (violation : Option WidthPolicy.Violation) :
    (enforce violation).Regular P := by
  unfold enforce
  split <;> simp

@[simp] theorem regular_recordAggregate (a : Aggregate) (name : String) (fields : List Field) :
    (recordAggregate a name fields).Regular P := by
  simp [recordAggregate]

@[simp] theorem regular_recordTypedef (tag : Option String) (name : String)
    (p : TypedefProgress) : (recordTypedef tag name p).Regular P := by
  simp only [recordTypedef, regular_bind, regular_look, regular_isLocal, true_and]
  intro _ _
  split <;> simp

@[simp] theorem regular_readPointers (type : String) : (readPointers type).Regular P :=
  regular_takeWhile ..

/-- Every round over the names of a typedef that begins with one passes it. -/
theorem passesOn_typedefRound {Q : Round TypedefProgress → Prop} {env : ScanEnv}
    {s : Scanner σ} {t : Token} (tag : Option String) (p : TypedefProgress)
    (hcur : s.current = some t) (hname : t.isName = true) :
    PassesOn Q env (typedefRound tag p) s := by
  unfold typedefRound
  refine .look (run_currentName ..) ?_
  simp only [hcur, Option.filter_some, hname, if_true, Option.map_some]
  exact .after_token hcur fun _ s' hcur' => .advance hcur' _

theorem progresses_typedefRound (tag : Option String) : Progresses (typedefRound tag) := by
  refine progresses fun env p s => ?_
  cases hname : s.current.filter Token.isName with
  | some t =>
    obtain ⟨hcur, hname⟩ := Option.filter_eq_some_iff.mp hname
    exact passesOn_typedefRound tag p hcur hname
  | none =>
    unfold typedefRound
    refine .look (run_currentName ..) ?_
    rw [hname]
    exact .after fun _ _ => .pure id

theorem regular_typedefRound (tag : Option String) (p : TypedefProgress) :
    (typedefRound tag p).Regular P := by
  simp only [typedefRound, regular_bind, regular_currentName, true_and]
  intro name
  cases name <;> simp

theorem regular_readTypedef (h : P .type) : readTypedef.Regular P := by
  have hloop : ∀ tag p, (loop (typedefRound tag) p).Regular P :=
    fun tag p => ⟨progresses_typedefRound tag, regular_typedefRound tag⟩
  simp [readTypedef, regular_readType h, hloop]

@[simp] theorem regular_expect (form what : String) (p : Token → Bool) :
    (expect form what p).Regular P := by
  simp [expect]

@[simp] theorem regular_readEnumImpl (form : String) : (readEnumImpl form).Regular P := by
  refine ⟨regular_expect .., fun _ => ⟨regular_expect .., fun _ => ⟨regular_expect .., fun _ => ?_⟩⟩⟩
  refine ⟨progresses fun env _ s => ?_, fun _ => by simp [expectSep, expectString]⟩
  refine .look (run_atSep ..) ?_
  split
  · exact .pure id
  next hsep =>
    obtain ⟨t, hcur, -⟩ := (Option.any_eq_true ..).mp (by simpa using hsep)
    exact .advance hcur _

@[simp] theorem regular_skipToSemicolon : skipToSemicolon.Regular P := by
  refine ⟨progresses fun env _ s => ?_, fun _ => by simp⟩
  refine .look (run_atEnd ..) (.look (run_atSep ..) ?_)
  cases hcur : s.current with
  | none => exact .pure id
  | some t =>
    split
    · exact .pure id
    · exact .advance hcur _

@[simp] theorem regular_readSpecialForm (form : SpecialForm) :
    (readSpecialForm form).Regular P := by
  cases form <;> simp [readSpecialForm, expectName, expectString, expectSep]

@[simp] theorem regular_recordVariable (name type : String) (isStatic : Bool) :
    (recordVariable name type isStatic).Regular P := by
  simp [recordVariable]

@[simp] theorem regular_recordDeclarator (ty : TypeSpec) (d : Declarator) (isStatic : Bool) :
    (recordDeclarator ty d isStatic).Regular P := by
  unfold recordDeclarator
  split <;> simp

@[simp] theorem regular_skipInitializer : skipInitializer.Regular P := by
  simp [skipInitializer]

@[simp] theorem regular_readToSemicolon (type : String) : (readToSemicolon type).Regular P :=
  regular_takeWhile ..

@[simp] theorem regular_readMarks (type : String) : (readMarks type).Regular P :=
  regular_takeWhile ..

@[simp] theorem regular_close (c : Closing) : (close c).Regular P := by
  simp only [close, regular_bind, regular_advance, true_and]
  intro _
  split <;> simp

@[simp] theorem regular_recordFunction (name returnType : String) (params : List Param)
    (isStatic isDefinition : Bool) :
    (recordFunction name returnType params isStatic isDefinition).Regular P := by
  simp [recordFunction]

@[simp] theorem regular_readFunction (name returnType : String) (params : List Param)
    (isStatic : Bool) : (readFunction name returnType params isStatic).Regular P := by
  simp [readFunction]

theorem regular_endDeclarator (h : P .type) (ty : TypeSpec) (isStatic : Bool) (d : Declarator) :
    (endDeclarator ty isStatic d).Regular P := by
  simp only [endDeclarator, regular_bind, regular_ite, regular_atSep, regular_dropComment,
    regular_advance, regular_readParams h, regular_readFunction, regular_recordVariable,
    regular_readMarks, regular_currentName, regular_pure, true_and, implies_true, if_true_left,
    if_true_right]
  intro _ _ _ _ _ _ _ _ _ type name
  cases name <;> simp

/-- A declarator that is followed by another one is followed by a comma. -/
theorem progresses_declaratorRound (ty : TypeSpec) (isStatic : Bool) :
    Progresses (declaratorRound ty isStatic) := by
  have hend : ∀ {σ : Type} [Feed σ] [LawfulFeed σ] (env : ScanEnv) (d : Declarator)
      (s : Scanner σ), PassesOn Round.GoesOn env (endDeclarator ty isStatic d) s := by
    intro σ _ _ env d s
    refine .look (run_atSep ..) ?_
    split
    · exact .after fun _ _ => .pure id
    refine .look (run_atSep ..) ?_
    split
    · exact .after fun _ _ => .after fun _ _ => .after fun _ _ => .pure id
    refine .look (run_atSep ..) ?_
    split
    · next hsep =>
      obtain ⟨t, hcur, -⟩ := (Option.any_eq_true ..).mp hsep
      refine .after_token hcur fun _ s₁ h₁ => .after_token h₁ fun _ s₂ h₂ => ?_
      exact .advance h₂ _
    · exact .pure id
  refine progresses fun env p s => ?_
  refine .look (run_atClass ..) (.look (run_atClass ..) ?_)
  split
  · exact .pure id
  refine .look (run_atSep ..) ?_
  dsimp only
  split
  · refine .after fun _ _ => .after fun d s₁ => .look (run_atOp ..) ?_
    split
    · exact .after fun _ s₂ => hend env d s₂
    · exact hend env d s₁
  · refine .after fun d s₁ => .look (run_atOp ..) ?_
    split
    · exact .after fun _ s₂ => hend env d s₂
    · exact hend env d s₁

theorem regular_readDeclarators (h : P .type) (isStatic : Bool) :
    (readDeclarators isStatic).Regular P := by
  have hloop : ∀ ty p, (loop (declaratorRound ty isStatic) p).Regular P := by
    refine fun ty p => ⟨progresses_declaratorRound ty isStatic, fun p => ?_⟩
    simp [declaratorRound, regular_endDeclarator h]
  simp only [readDeclarators, regular_bind, regular_ite, regular_readType h, regular_atSep,
    regular_currentName, regular_pure, true_and, if_true_left]
  intro ty _ _ name
  cases name <;> simp [hloop]

theorem regular_readUnqualified (h : P .type) (isStatic : Bool) :
    (readUnqualified isStatic).Regular P := by
  simp only [readUnqualified, regular_bind, regular_look, true_and]
  intro v
  split
  · trivial
  simp only [regular_ite, regular_bind, regular_advance, regular_readTypedef h, regular_env,
    regular_pure, true_and, implies_true, if_true_left]
  intro _ e
  split
  · simp
  · exact regular_readDeclarators h isStatic

theorem regular_blockRound (h : P .declaration) : blockRound.Regular P := by
  have hread : readDeclaration.Regular P := h
  simp only [blockRound, readItem, strayToken, regular_bind, regular_ite, regular_atName, hread,
    describe, regular_look, regular_malformed, regular_pure, true_and, implies_true, ite_self]
  intro c
  cases c <;> simp

/-- Every round over a block of declarations that has one more passes a token. -/
theorem passesOn_linkageRound {Q : Round Unit → Prop} {env : ScanEnv} {s : Scanner σ} {t : Token}
    (hcur : s.current = some t) (hopen : t.isSep "\x7d" = false) :
    PassesOn Q env (linkageRound ()) s := by
  refine .look (run_atEnd ..) (.look (run_atSep ..) ?_)
  simp only [hcur, Option.isNone_some, Option.any_some, hopen, Bool.or_self, Bool.false_eq_true,
    if_false]
  exact .left fun _ _ hrun _ => passed_blockRound hcur hrun

theorem progresses_linkageRound : Progresses linkageRound := by
  refine progresses fun env _ s => ?_
  cases hcur : s.current with
  | none =>
    refine .look (run_atEnd ..) (.look (run_atSep ..) ?_)
    rw [hcur]
    exact .pure id
  | some t =>
    cases hclose : t.isSep "\x7d" with
    | false => exact passesOn_linkageRound hcur hclose
    | true =>
      refine .look (run_atEnd ..) (.look (run_atSep ..) ?_)
      rw [hcur, Option.any_some, hclose]
      exact .pure id

theorem regular_linkageRound (h : P .declaration) : (linkageRound ()).Regular P := by
  simp [linkageRound, regular_blockRound h]

theorem regular_readLinkageBlock (h : P .declaration) : readLinkageBlock.Regular P :=
  ⟨trivial, fun _ => ⟨⟨progresses_linkageRound, fun _ => regular_linkageRound h⟩,
    fun _ => trivial⟩⟩

theorem regular_wholeDeclaration (h : P .type) (h' : P .declaration) :
    wholeDeclaration.Regular P := by
  simp [wholeDeclaration, regular_readLinkageBlock h', regular_readUnqualified h]

theorem regular_readFile (h : P .declaration) : readFile.Regular P := by
  refine ⟨trivial, fun _ => ⟨progresses fun env _ s => ?_, fun _ => ?_⟩⟩
  · refine .look (run_atEnd ..) ?_
    cases hcur : s.current with
    | none => exact .pure id
    | some t => exact .left fun _ _ hrun _ => passed_blockRound hcur hrun
  · simp [fileRound, regular_blockRound h]

/-- The routines are regular, whichever routines may be called. -/
theorem regular_body (r : Routine) : r.body.Regular fun _ => True := by
  cases r with
  | type => exact regular_wholeType trivial
  | declaration => exact regular_wholeDeclaration trivial trivial

end Whole

end Reader

end HeaderAtlas
