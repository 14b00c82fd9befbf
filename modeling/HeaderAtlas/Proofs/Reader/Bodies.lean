import HeaderAtlas.Proofs.Reader.Types

/-!
# Bodies as they are written

The body of a function is any sequence of tokens in which braces match. Comments may
stand anywhere in it, and directives that record nothing. It is passed over: nothing is
recorded but uses. The directives in it are obeyed, and the comments are forgotten at its
closing brace.
-/

namespace HeaderAtlas

open Ending Reader

/-- Do the tokens end with the brace that closes the outermost of `depth` blocks? -/
def closesBlocks : Nat → List Token → Bool
  | _, [] => false
  | depth, t :: ts =>
    if t.isSep "\x7b" then closesBlocks (depth + 1) ts
    else if t.isSep "\x7d" then if depth = 1 then ts.isEmpty else closesBlocks (depth - 1) ts
    else closesBlocks depth ts

theorem closesBlocks_of_open {depth : Nat} {t : Token} {ts : List Token} (ht : t.isSep "\x7b" = true) :
    closesBlocks depth (t :: ts) = closesBlocks (depth + 1) ts := by
  rw [closesBlocks, if_pos ht]

theorem closesBlocks_of_other {depth : Nat} {t : Token} {ts : List Token} (ht : t.isSep "\x7b" = false)
    (ht' : t.isSep "\x7d" = false) : closesBlocks depth (t :: ts) = closesBlocks depth ts := by
  rw [closesBlocks, if_neg (by simp [ht]), if_neg (by simp [ht'])]

/-- What is left of a body starts with a token. -/
theorem exists_of_closesBlocks {depth i : Nat} {body : List Token}
    (h : closesBlocks depth (body.drop i) = true) :
    ∃ t, body[i]? = some t ∧ body.drop i = t :: body.drop (i + 1) := by
  cases hdrop : body.drop i with
  | nil =>
    rw [hdrop] at h
    cases h
  | cons t ts =>
    have hhead : body[i]? = some t := by rw [← List.head?_drop, hdrop]; rfl
    exact ⟨t, hhead, by rw [← List.tail_drop, hdrop]; rfl⟩

variable {σ : Type} [Feed σ] [LawfulFeed σ] {env : ScanEnv} {P : TokenStream σ → Prop}
  {depth : Nat} {t : Token} {c : Cell} {cs : List Cell} {due : Guards} {s : Scanner σ}

namespace Scanner

/-- In the middle of a body: `t` is the current token, the cells `cs` are to come, and the
last of them closes `depth` blocks. The guards will then be `due`. -/
structure InBody (env : ScanEnv) (P : TokenStream σ → Prop) (depth : Nat) (t : Token)
    (cs : List Cell) (due : Guards) (s : Scanner σ) : Prop where
  current : s.current = some t
  stream : s.stream.Hands env P cs
  close : closesBlocks depth (t :: cs.map Cell.token) = true
  guards : (Cell.directives cs).foldl Guards.obey s.guards = due

namespace InBody

/-- Going on to the next token of a body. -/
theorem advance (stream : s.stream.Hands env P (c :: cs))
    (close : closesBlocks depth (c.token :: cs.map Cell.token) = true)
    (guards : (Cell.directives (c :: cs)).foldl Guards.obey s.guards = due) :
    (s.advance env).InBody env P depth c.token cs due ∧ (s.advance env).gists = s.gists := by
  obtain ⟨s', hfetch, -, hcontext, hgists, -, hrest⟩ := stream s rfl
  rw [advance_of_fetch hfetch]
  have hguards : s'.guards = (c.asides.filterMap Aside.directive?).foldl Guards.obey s.guards :=
    (congrArg Context.guards hcontext).trans (Aside.guards_afterAll s.context c.asides)
  refine ⟨⟨rfl, hrest, close, ?_⟩, hgists⟩
  rw [← guards, Cell.directives_cons, List.foldl_append, ← hguards]

/-- A use is found in the middle of a body. -/
theorem find (h : s.InBody env P depth t cs due) (name : String) (role : Role) (place : Place) :
    (s.find [.use name role place]).InBody env P depth t cs due
      ∧ (s.find [.use name role place]).gists = s.gists := by
  refine ⟨⟨h.current, h.stream, h.close, h.guards⟩, ?_⟩
  rw [Scanner.gists_find]
  exact List.append_nil _

/-- Going on from a token that is not a brace. -/
theorem advance_other (h : s.InBody env P depth t cs due) (ht : t.isSep "\x7b" = false)
    (ht' : t.isSep "\x7d" = false) :
    ∃ c cs', cs = c :: cs' ∧ (s.advance env).InBody env P depth c.token cs' due
      ∧ (s.advance env).gists = s.gists := by
  have hclose := h.close
  rw [closesBlocks_of_other ht ht'] at hclose
  cases cs with
  | nil => cases hclose
  | cons c cs => exact ⟨c, cs, rfl, InBody.advance h.stream hclose h.guards⟩

end InBody

end Scanner

/-! ## What the readers of a body do -/

/-- What the usage rules ask of a token. The first rule that fits a name counts. -/
def GrammarSettings.usageMode? (g : GrammarSettings) (t : Token) : Option UsageMode :=
  if t.isName then (g.usageRules.find? fun r => Text.startsWithText r.stem t.text).map (·.mode)
  else none

/-- Does the token end a declarator or start its value? -/
def Token.endsDeclarator (t : Token) : Bool := t.isSep ";" || t.isSep "," || t.isOp "="

namespace Scanner

/-- Finds a use of a token at the place being read. -/
def findUse (env : ScanEnv) (t : Token) (role : Role) (s : Scanner σ) : Scanner σ :=
  s.find [.use t.text role (s.place env)]

/-- The state after the token that was passed last has been noted. -/
def note (env : ScanEnv) (t : Token) (s : Scanner σ) : Scanner σ :=
  match env.settings.grammar.usageMode? t with
  | none => s
  | some .anyUse => s.findUse env t .typeUse
  | some .callsAndTypes =>
    if s.current.any (Token.isSep "(") then (s.findUse env t .call).advance env
    else if s.current.any Token.isName then
      if (s.advance env).current.any Token.endsDeclarator then
        (s.advance env).find [.use t.text .typeUse (s.place env)]
      else s.advance env
    else s

end Scanner

namespace Reader

theorem run_noteUse (inner : (r : Routine) → Scanner σ → Ending σ r.Result) (env : ScanEnv)
    (t : Token) (s : Scanner σ) : (noteUse t).run inner env s = .ok () (s.note env t) := by
  have hends : ∀ u : Scanner σ, u.current.any Token.endsDeclarator
      = (u.current.any (Token.isSep ";") || u.current.any (Token.isSep ",")
        || u.current.any (Token.isOp "=")) := by
    intro u
    cases u.current <;> rfl
  rw [Scanner.note, GrammarSettings.usageMode?, noteUse]
  cases t.isName with
  | false => rfl
  | true =>
    rw [if_pos rfl, if_neg (by decide), run_bind, run_env, andThen_ok]
    dsimp only
    cases env.settings.grammar.usageRules.find? fun r => Text.startsWithText r.stem t.text with
    | none => rfl
    | some rule =>
      simp only [Reader.place, run_bind, run_env, run_line, run_pure, andThen_ok, Option.map_some]
      cases rule.mode with
      | anyUse => rfl
      | callsAndTypes =>
        dsimp only
        rw [run_bind, run_atSep, andThen_ok]
        split
        · rfl
        · rw [run_bind, run_atName, andThen_ok]
          split
          · simp only [run_bind, run_advance, run_atSep, run_atOp, andThen_ok, hends]
            split <;> rfl
          · rfl

/-- A round over a body with `t` as the current token. -/
theorem run_bodyRound_eq (inner : (r : Routine) → Scanner σ → Ending σ r.Result) (env : ScanEnv)
    (depth : Nat) {s : Scanner σ} (hcur : s.current = some t) :
    (bodyRound depth).run inner env s
      = if t.isSep "\x7b" then .ok (.again (depth + 1)) (s.advance env)
        else if t.isSep "\x7d" then
          if depth = 1 then .ok (.done 0) s.forget
          else .ok (.again (depth - 1)) (s.forget.advance env)
        else if env.collectUsages then .ok (.again depth) ((s.advance env).note env t)
        else .ok (.again depth) (s.advance env) := by
  rw [bodyRound, run_bind, run_atEnd, andThen_ok, hcur, Option.isNone_some,
    if_neg Bool.false_ne_true, run_bind, run_atSep, andThen_ok, hcur, Option.any_some]
  split
  · rfl
  · rw [run_bind, run_atSep, andThen_ok, hcur, Option.any_some]
    split
    · split <;> rfl
    · rw [run_bind, run_env, andThen_ok]
      split
      · rw [run_bind, run_take, andThen_ok, hcur]
        dsimp only
        rw [run_bind, run_noteUse]
        rfl
      · rfl

end Reader

/-! ## Passing over a body -/

namespace Reader

/-- A use takes one more token at most, which is not a brace. -/
theorem note_inBody (t : Token) {u : Token} (h : s.InBody env P depth u cs due) :
    ∃ u' cs', (s.note env t).InBody env P depth u' cs' due ∧ cs'.length ≤ cs.length
      ∧ (s.note env t).gists = s.gists := by
  rw [Scanner.note]
  split
  · exact ⟨u, cs, h, Nat.le_refl _, rfl⟩
  · obtain ⟨hs, hgists⟩ := h.find t.text .typeUse (s.place env)
    exact ⟨u, cs, hs, Nat.le_refl _, hgists⟩
  · rw [h.current, Option.any_some, Option.any_some]
    split
    · next hopen =>
      obtain ⟨hs, hgists⟩ := h.find t.text .call (s.place env)
      simp only [Token.isSep, Bool.and_eq_true, beq_iff_eq] at hopen
      -- The token that is passed is a parenthesis, so the braces are as they were.
      obtain ⟨c, cs', rfl, hs', hgists'⟩ := hs.advance_other
        (by simp [Token.isSep, hopen.2]) (by simp [Token.isSep, hopen.2])
      exact ⟨c.token, cs', hs', Nat.le_succ _, hgists'.trans hgists⟩
    · split
      · next hname =>
        rw [Token.isName, beq_iff_eq] at hname
        obtain ⟨c, cs', rfl, hs', hgists'⟩ := h.advance_other
          (by simp [Token.isSep, hname]) (by simp [Token.isSep, hname])
        split
        · obtain ⟨hs, hgists⟩ := hs'.find t.text .typeUse (s.place env)
          exact ⟨c.token, cs', hs, Nat.le_succ _, hgists.trans hgists'⟩
        · exact ⟨c.token, cs', hs', Nat.le_succ _, hgists'⟩
      · exact ⟨u, cs, h, Nat.le_refl _, rfl⟩

/-- The closing brace of a body has been reached. -/
structure EndsBody (P : TokenStream σ → Prop) (due : Guards) (s u : Scanner σ) : Prop where
  current : u.current = some (.sep "\x7d")
  stream : P u.stream
  context : u.context = ⟨none, due⟩
  gists : u.gists = s.gists

/-- One round over a body: it is over, or it has become shorter. -/
theorem run_bodyRound (h : s.InBody env P depth t cs due) :
    (∃ u, (bodyRound depth).run (Routine.run env) env s = .ok (.done 0) u ∧ EndsBody P due s u)
      ∨ ∃ d t' cs' s', (bodyRound depth).run (Routine.run env) env s = .ok (.again d) s'
        ∧ s'.InBody env P d t' cs' due ∧ cs'.length < cs.length ∧ s'.gists = s.gists := by
  have hclose := h.close
  rw [run_bodyRound_eq _ _ _ h.current]
  cases hopen : t.isSep "\x7b" with
  | true =>
    rw [closesBlocks_of_open hopen] at hclose
    cases cs with
    | nil => cases hclose
    | cons c cs =>
      obtain ⟨hs', hgists⟩ := Scanner.InBody.advance h.stream hclose h.guards
      exact .inr ⟨_, _, _, _, rfl, hs', Nat.lt_succ_self _, hgists⟩
  | false =>
    rw [if_neg Bool.false_ne_true]
    cases hshut : t.isSep "\x7d" with
    | true =>
      rw [closesBlocks, hopen, if_neg Bool.false_ne_true, if_pos hshut] at hclose
      rw [if_pos rfl]
      by_cases hone : depth = 1
      · -- The outermost brace is not passed, but the comment is forgotten on it.
        rw [if_pos hone, List.isEmpty_iff, List.map_eq_nil_iff] at hclose
        subst hclose hone
        refine .inl ⟨s.forget, rfl, ?_, h.stream, ?_, rfl⟩
        · rw [← Token.isSep_iff.mp hshut]
          exact h.current
        · exact congrArg (Context.mk none) h.guards
      · rw [if_neg hone] at hclose ⊢
        cases cs with
        | nil => cases hclose
        | cons c cs =>
          have hforget : (s.forget).stream.Hands env P (c :: cs) := h.stream
          obtain ⟨hs', hgists⟩ := Scanner.InBody.advance hforget hclose h.guards
          exact .inr ⟨_, _, _, _, rfl, hs', Nat.lt_succ_self _, hgists⟩
    | false =>
      obtain ⟨c, cs', rfl, hs', hgists⟩ := h.advance_other hopen hshut
      rw [if_neg Bool.false_ne_true]
      split
      · obtain ⟨u', cs'', hs'', hlen, hgists'⟩ := note_inBody t hs'
        exact .inr ⟨_, u', cs'', _, rfl, hs'', Nat.lt_succ_of_le hlen, hgists'.trans hgists⟩
      · exact .inr ⟨_, _, _, _, rfl, hs', Nat.lt_succ_self _, hgists⟩

/-- A body is read up to the brace that closes it. -/
theorem run_loop_bodyRound (h : s.InBody env P depth t cs due) :
    ∃ u, (loop bodyRound depth).run (Routine.run env) env s = .ok 0 u ∧ EndsBody P due s u := by
  induction hn : cs.length using Nat.strongRecOn generalizing depth t cs s with
  | ind n ih =>
    rcases run_bodyRound h with ⟨u, hrun, hu⟩ | ⟨d, t', cs', s', hrun, hs', hlt, hgists⟩
    · exact ⟨u, Scanner.iterate_done hrun, hu⟩
    · obtain ⟨u, hloop, hu⟩ := ih cs'.length (hn ▸ hlt) hs' rfl
      refine ⟨u, (progresses_bodyRound.run_loop hrun).trans hloop, ?_⟩
      exact ⟨hu.current, hu.stream, hu.context, hu.gists.trans hgists⟩

theorem run_readBody (h : s.InBody env P 1 t cs due) :
    ∃ u, readBody.run (Routine.run env) env s = .ok () u ∧ EndsBody P due s u := by
  obtain ⟨u, hloop, hu⟩ := run_loop_bodyRound h
  refine ⟨u, ?_, hu⟩
  rw [readBody, run_bind, hloop]
  rfl

end Reader

end HeaderAtlas
