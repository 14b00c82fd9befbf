import HeaderAtlas.Proofs.Reader.Departures

/-!
# The comments that a scan takes in

An `Intake` is a comment at the moment it is taken in, with the pending comment and the
error switch from then on. A scan takes in one comment after another, some of them on the
way to the same token, and each is told by the one before it (`Intake.Follows`): what is
still pending of the comments so far is all of it or nothing, and the switch has not been
touched in between (`Scanner.successive_intakes`).
-/

namespace HeaderAtlas

open Text

/-- A comment that is taken in. -/
structure Intake where
  text : String
  /-- The pending comment from then on. -/
  pending : String
  /-- Are errors switched off from then on? -/
  errorsOff : Bool
deriving DecidableEq

/-! ## Taking in -/

namespace Scanner

variable {σ : Type} [Feed σ]

/-- The comment `text` as it is taken in. -/
def intake (env : ScanEnv) (text : String) (s : Scanner σ) : Intake :=
  let s' := s.absorb env text
  ⟨text, s'.comment.getD "", s'.errorsOff⟩

variable [LawfulFeed σ]

/-- The comments taken in on the way to the next token of the grammar, given the next token
of the stream. -/
def seekIntakes (env : ScanEnv) (next : Option Token) (s : Scanner σ) : List Intake :=
  match next with
  | none => []
  | some t =>
    match t.cls with
    | .comment =>
      have := s.stream.size_next
      intake env t.text s ::
        seekIntakes env s.stream.next.1 (absorb env t.text { s with stream := s.stream.next.2 })
    | .directive =>
      have := s.stream.size_directiveArgs
      seekIntakes env s.stream.directiveArgs.2.1
        ({ s with stream := s.stream.directiveArgs.2.2 }.obey env t.text s.stream.directiveArgs.1)
    | .name =>
      if t.text = "__const" then []
      else if t.text = "__attribute" || t.text = "__attribute__" then []
      else match env.settings.grammar.ignoredWords.get? t.text with
        | some count =>
          have := s.stream.size_skip count
          have := (s.stream.skip count).size_next
          seekIntakes env (s.stream.skip count).next.1
            { s with stream := (s.stream.skip count).next.2 }
        | none => []
    | _ => []
termination_by s.stream.size + next.toList.length
decreasing_by
  all_goals
    simp_all only [stream_obey, absorb, Option.toList, List.length_cons, List.length_nil]
    omega

theorem seekIntakes_comment {env : ScanEnv} {t : Token} {s : Scanner σ} (h : t.cls = .comment) :
    seekIntakes env (some t) s = intake env t.text s :: seekIntakes env s.stream.next.1
      (absorb env t.text { s with stream := s.stream.next.2 }) := by
  rw [seekIntakes, h]

/-- The comments taken in on the way to the next token. -/
def intakes (env : ScanEnv) (s : Scanner σ) : List Intake :=
  seekIntakes env s.stream.next.1 { s with stream := s.stream.next.2 }

/-- The comments that the scan of a feed takes in. -/
def allIntakes (env : ScanEnv) (feed : σ) : List Intake :=
  (departures env feed).flatMap (·.intakes env)

end Scanner

/-! ## One after another -/

namespace Intake

/-- The comment was taken in after `prev`, with nothing taken in between. -/
structure Follows (g : GrammarSettings) (prev : Option Intake) (y : Intake) : Prop where
  /-- The pending comment has been kept, or it has been used or replaced. -/
  pending : y.pending = y.text ∨ ∃ p, prev = some p ∧ y.pending = p.pending ++ y.text
  errorsOff : y.errorsOff = ((prev.any errorsOff || containsText g.errorsOffMarker y.pending)
    && !containsText g.errorsOnMarker y.pending)

/-- Each comment was taken in after the one before it. -/
def Successive (g : GrammarSettings) (ys : List Intake) : Prop :=
  ∀ before y after, ys = before ++ y :: after → y.Follows g before.getLast?

namespace Successive

variable {g : GrammarSettings} {ys : List Intake} {y : Intake}

theorem nil : Successive g [] := by
  intro before y after h
  simp at h

theorem init {zs : List Intake} (h : Successive g (ys ++ zs)) : Successive g ys := by
  intro before y after hys
  exact h before y (after ++ zs) (by simp [hys])

theorem last (h : Successive g (ys ++ [y])) : y.Follows g ys.getLast? := h ys y [] rfl

theorem concat (h : Successive g ys) (hy : y.Follows g ys.getLast?) :
    Successive g (ys ++ [y]) := by
  intro before x after heq
  rcases List.eq_nil_or_concat after with rfl | ⟨mid, z, rfl⟩
  · obtain ⟨rfl, hx⟩ := List.append_inj' heq rfl
    cases hx
    exact hy
  · -- The comment is not the last one, so it is one of those before.
    have hsplit : ys ++ [y] = (before ++ x :: mid) ++ [z] := by simpa using heq
    exact h before x mid (List.append_inj' hsplit rfl).1

end Successive

end Intake

namespace Scanner

open Intake

variable {σ : Type} [Feed σ] {env : ScanEnv} {s : Scanner σ} {ys : List Intake}

/-- The comments `ys` have been taken in, and they account for the pending comment and for
the error switch. -/
structure Recounts (env : ScanEnv) (ys : List Intake) (s : Scanner σ) : Prop where
  successive : Successive env.settings.grammar ys
  comment : s.comment = none ∨ ∃ y, ys.getLast? = some y ∧ s.comment = some y.pending
  errorsOff : s.errorsOff = ys.getLast?.any Intake.errorsOff

omit [Feed σ] in
/-- The comment may be forgotten, and the rest of the state may change. -/
theorem Recounts.of_comment {τ : Type} {t : Scanner τ} (h : s.Recounts env ys)
    (hc : t.comment = none ∨ t.comment = s.comment) (he : t.errorsOff = s.errorsOff) :
    t.Recounts env ys where
  successive := h.successive
  comment := by
    rcases hc with hc | hc
    · exact .inl hc
    · rw [hc]; exact h.comment
  errorsOff := he.trans h.errorsOff

omit [Feed σ] in
theorem Recounts.absorbed (h : s.Recounts env ys) (text : String) :
    (s.absorb env text).Recounts env (ys ++ [s.intake env text]) where
  successive := by
    refine h.successive.concat ⟨?_, ?_⟩
    · show (s.absorb env text).comment.getD "" = text ∨ _
      rcases h.comment with hnone | ⟨y, hy, hsome⟩
      · exact .inl (by simp [absorb, hnone])
      · by_cases hstar : startsWith ['*'] text.toList = true
        · exact .inl (by simp [absorb, hsome, hstar])
        · exact .inr ⟨y, hy, by simp [intake, absorb, hsome, hstar]⟩
    · simp only [intake, absorb, h.errorsOff, Option.getD_some]
  comment := .inr ⟨_, List.getLast?_concat, rfl⟩
  errorsOff := by rw [List.getLast?_concat]; rfl

theorem comment_define (args : List String) (s : Scanner σ) :
    (s.define env args).comment = none ∨ (s.define env args).comment = s.comment := by
  unfold define
  split
  · exact .inr rfl
  · dsimp only
    split
    · exact .inr rfl
    · exact .inl rfl

theorem comment_obey (word : String) (args : List String) (s : Scanner σ) :
    (s.obey env word args).comment = none ∨ (s.obey env word args).comment = s.comment := by
  unfold obey
  dsimp only
  split
  · split <;> exact .inr rfl
  · exact comment_define args s
  all_goals exact .inr rfl

/-- Directives leave the error switch alone. -/
@[simp] theorem errorsOff_obey (word : String) (args : List String) (s : Scanner σ) :
    (s.obey env word args).errorsOff = s.errorsOff := by
  unfold obey
  dsimp only
  split
  · split <;> rfl
  · unfold define
    split
    · rfl
    · dsimp only
      split <;> rfl
  all_goals rfl

variable [LawfulFeed σ]

/-- Looking for a token of the grammar. -/
theorem Recounts.seek (next : Option Token) {s : Scanner σ} {ys : List Intake}
    (h : s.Recounts env ys) :
    (seek env next s).2.Recounts env (ys ++ seekIntakes env next s) := by
  fun_induction seekIntakes env next s generalizing ys with
  | case1 s => simpa [seek_none] using h
  | case2 s t ht _ ih =>
    rw [seek_comment ht]
    simpa using ih ((h.absorbed t.text).of_comment (.inr rfl) rfl)
  | case3 s t ht _ ih =>
    rw [seek_directive ht]
    exact ih (h.of_comment (comment_obey ..) (errorsOff_obey ..))
  | case4 s t ht htext => simpa [seek_const ht htext] using h
  | case5 s t ht htext hattr =>
    rw [seek_attribute ht htext hattr, List.append_nil]
    exact h.of_comment (.inr rfl) rfl
  | case6 s t ht htext hattr count hcount _ _ ih =>
    rw [seek_ignored ht htext hattr hcount]
    exact ih (h.of_comment (.inr rfl) rfl)
  | case7 s t ht htext hattr hnone => simpa [seek_name ht htext hattr hnone] using h
  | case8 s t hc hd hn => simpa [seek_other hc hd hn] using h

/-- The error switch stays as it is, as long as no comment moves it. -/
theorem errorsOff_seek {off : Bool} (next : Option Token) (s : Scanner σ) (hs : s.errorsOff = off)
    (h : ∀ y ∈ seekIntakes env next s, y.errorsOff = off) :
    (seek env next s).2.errorsOff = off := by
  fun_induction seekIntakes env next s with
  | case1 s => rw [seek_none]; exact hs
  | case2 s t ht _ ih =>
    obtain ⟨hfirst, hrest⟩ := List.forall_mem_cons.mp h
    rw [seek_comment ht]
    exact ih hfirst hrest
  | case3 s t ht _ ih =>
    rw [seek_directive ht]
    exact ih ((errorsOff_obey ..).trans hs) h
  | case4 s t ht htext => rw [seek_const ht htext]; exact hs
  | case5 s t ht htext hattr => rw [seek_attribute ht htext hattr]; exact hs
  | case6 s t ht htext hattr count hcount _ _ ih =>
    rw [seek_ignored ht htext hattr hcount]
    exact ih hs h
  | case7 s t ht htext hattr hnone => rw [seek_name ht htext hattr hnone]; exact hs
  | case8 s t hc hd hn => rw [seek_other hc hd hn]; exact hs

/-- The comments taken in so far account for the state of a scan. -/
theorem recounts_traced :
    Traced env fun (h : List (Scanner σ)) s => s.Recounts env (h.flatMap (·.intakes env)) where
  edit h e := by
    cases e with
    | forget => exact h.of_comment (.inl rfl) rfl
    | swallow failure => exact h.of_comment (.inr rfl) rfl
    | warn topic messages => exact h.of_comment (.inr rfl) rfl
    | find fs => exact h.of_comment (.inr rfl) rfl
    | record name category detail extra isStatic => exact h.of_comment (.inr rfl) rfl
  dropLine h _ := h.of_comment (.inr rfl) rfl
  advance {hs s} h := by
    have hstart : ({ s with stream := s.stream.next.2 } : Scanner σ).Recounts env
        (hs.flatMap (·.intakes env)) := h.of_comment (.inr rfl) rfl
    rw [List.flatMap_append, List.flatMap_singleton]
    exact (hstart.seek s.stream.next.1).of_comment (.inr rfl) rfl
  unread _ _ _ h := h.of_comment (.inr rfl) rfl

/-- The comments of a scan are taken in one after another. -/
theorem successive_intakes (env : ScanEnv) (feed : σ) :
    Successive env.settings.grammar (allIntakes env feed) :=
  (recounts_traced.scan feed ⟨.nil, .inl rfl, rfl⟩).successive

end Scanner

end HeaderAtlas
