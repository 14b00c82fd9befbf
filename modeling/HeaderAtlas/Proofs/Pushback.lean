import HeaderAtlas.Proofs.Reader.Recursion

/-!
# One token of pushback is enough

A name is put back with the token after it, which goes into the slot of the stream. From
then on the current token is that name, and the next step empties the slot. So the slot is
occupied only under a name (`Slot`). Where another name is put back, the reader has either
just gone on to a token, or has found none, and in both cases the slot is empty
(`Reader.Clears`).
-/

namespace HeaderAtlas

variable {σ : Type} [Feed σ] [LawfulFeed σ] {α : Type} {env : ScanEnv}

/-- The slot is occupied only if the current token is a name. -/
def Scanner.Slot (s : Scanner σ) : Prop :=
  s.stream.held.isSome = true → s.current.any Token.isName = true

/-- What happens leaves at most one token put back. -/
def Event.Tidy : Event σ → Prop
  | reach s => s.Slot
  | putBack s => s.stream.held = none

namespace Scanner

omit [Feed σ] [LawfulFeed σ] in
theorem Slot.of_held {s : Scanner σ} (h : s.stream.held = none) : s.Slot := by
  intro hsome
  rw [h] at hsome
  cases hsome

theorem slot_advance (s : Scanner σ) : (s.advance env).Slot := .of_held (held_advance env s)

omit [LawfulFeed σ] in
theorem Slot.edited {s : Scanner σ} (h : s.Slot) (env : ScanEnv) (e : Edit) :
    (s.edit env e).Slot := by
  intro hsome
  rw [stream_edit] at hsome
  rw [current_edit]
  exact h hsome

omit [Feed σ] [LawfulFeed σ] in
theorem slot_unread {t : Token} (h : t.isName = true) (s : Scanner σ) : (s.unread t).Slot :=
  fun _ => h

omit [Feed σ] [LawfulFeed σ] in
/-- Where a reader may put a name back, the slot is empty. -/
theorem Slot.held_of_settled {s : Scanner σ} (h : s.Slot) (hs : Reader.Settled s) :
    s.stream.held = none := by
  rcases hs with hheld | hcur
  · exact hheld
  · cases hheld : s.stream.held with
    | none => rfl
    | some t =>
      have hname := h (by rw [hheld]; rfl)
      rw [hcur] at hname
      cases hname

end Scanner

open Scanner

/-- One run of a reader, whatever it comes to. -/
theorem Reader.Does.tidy {m : Reader α} {s : Scanner σ} {log : List (Event σ)} {r : Ending σ α}
    (h : Does env m s log r) (hm : m.Regular fun _ => True) (hs : s.Slot) :
    (∀ e ∈ log, e.Tidy) ∧ r.state.Slot := by
  have hone : ∀ {u : Scanner σ}, u.Slot → ∀ e ∈ [Event.reach u], e.Tidy := by
    intro u hu e he
    rw [List.mem_singleton.mp he]
    exact hu
  induction h with
  | give a s => exact ⟨List.forall_mem_nil _, hs⟩
  | andThen first rest ih ih' =>
    obtain ⟨hlog, hs'⟩ := ih hm.1 hs
    obtain ⟨hlog', hend⟩ := ih' (hm.2 _) hs'
    exact ⟨List.forall_mem_append.mpr ⟨hlog, hlog'⟩, hend⟩
  | andThen_failed first ih => exact ih hm.1 hs
  | env s => exact ⟨List.forall_mem_nil _, hs⟩
  | look s => exact ⟨List.forall_mem_nil _, hs⟩
  | line s => exact ⟨List.forall_mem_nil _, hs⟩
  | edit ed s =>
    have hedit : (s.edit env ed).Slot := hs.edited env ed
    exact ⟨hone hedit, hedit⟩
  | dropLine failure s => exact ⟨hone hs, hs⟩
  | advance s => exact ⟨hone (slot_advance s), slot_advance s⟩
  | @past_back _ m s s' _ t a current name inside ih =>
    obtain ⟨hlog, hs'⟩ := ih (hm.2 _) (slot_advance s)
    -- Regularity speaks of `run`, and `inside` is such a run.
    have hclear := hm.1 σ env t.text a _ s' (held_advance env s) (inside.eq_run (hm.2 _))
    have hback : (Event.putBack s').Tidy := hs'.held_of_settled hclear
    have hunread : (s'.unread t).Slot := slot_unread name s'
    refine ⟨?_, hunread⟩
    simp only [List.forall_mem_cons, List.forall_mem_append, List.not_mem_nil, false_implies,
      implies_true, and_true]
    exact ⟨slot_advance s, hlog, hback, hunread⟩
  | past_on current name inside ih =>
    obtain ⟨hlog, hs'⟩ := ih (hm.2 _) (slot_advance _)
    exact ⟨List.forall_mem_cons.mpr ⟨slot_advance _, hlog⟩, hs'⟩
  | past_failed current name inside ih =>
    obtain ⟨hlog, hs'⟩ := ih (hm.2 _) (slot_advance _)
    exact ⟨List.forall_mem_cons.mpr ⟨slot_advance _, hlog⟩, hs'⟩
  | past_none current inside ih => exact ih (hm.2 _) hs
  | past_none_failed current inside ih => exact ih (hm.2 _) hs
  | loop_again first rest ih ih' =>
    obtain ⟨hlog, hs'⟩ := ih (hm.2 _) hs
    obtain ⟨hlog', hend⟩ := ih' hm hs'
    exact ⟨List.forall_mem_append.mpr ⟨hlog, hlog'⟩, hend⟩
  | loop_done first ih => exact ih (hm.2 _) hs
  | loop_failed first ih => exact ih (hm.2 _) hs
  -- A routine is as regular as what calls it, so nothing has to be known of the call.
  | @call q s _ _ body ih => exact ih (Reader.regular_body q) hs
  | fail failure s => exact ⟨List.forall_mem_nil _, hs⟩

/-- In every state that a scan goes through, the slot is occupied only under a name, and
where a token is put back, the slot is empty. -/
theorem pushback_suffices (env : ScanEnv) (feed : σ) :
    (∃ log, Reader.Does env Reader.readFile (Scanner.start env feed) log
      (Scanner.run env feed)) ∧
    ∀ log r, Reader.Does env Reader.readFile (Scanner.start env feed) log r →
      (∀ s, .reach s ∈ log → s.stream.held.isSome = true →
        s.current.any Token.isName = true) ∧
      (∀ s, .putBack s ∈ log → s.stream.held = none) := by
  have hfile : Reader.readFile.Regular fun _ => True := Reader.regular_readFile trivial
  refine ⟨hfile.exists_does env _, fun log r h => ?_⟩
  obtain ⟨hlog, -⟩ := h.tidy hfile (Slot.of_held rfl)
  exact ⟨fun s hs => hlog _ hs, fun s hs => hlog _ hs⟩

/-- A function pointer inside a struct that is not closed: a name is put back while the
outer one is still to be. -/
def nestedNames : List Token :=
  [⟨.name, "struct"⟩, ⟨.name, "S"⟩, ⟨.separator, "\x7b"⟩, ⟨.name, "int"⟩, ⟨.separator, "("⟩,
    ⟨.operator, "*"⟩, ⟨.name, "f"⟩, ⟨.separator, ")"⟩, ⟨.separator, "("⟩, ⟨.name, "int"⟩,
    ⟨.name, "x"⟩, ⟨.separator, ")"⟩, ⟨.separator, ";"⟩]

theorem pushback_of_nestedNames :
    ∃ log, Reader.Does (ScanOptions.env {} "a.h") Reader.readFile
        (Scanner.start (ScanOptions.env {} "a.h") nestedNames) log
        (Scanner.run (ScanOptions.env {} "a.h") nestedNames)
      ∧ ∀ s, .putBack s ∈ log → s.stream.held = none := by
  obtain ⟨⟨log, hlog⟩, htidy⟩ := pushback_suffices (ScanOptions.env {} "a.h") nestedNames
  exact ⟨log, hlog, (htidy log _ hlog).2⟩

end HeaderAtlas
