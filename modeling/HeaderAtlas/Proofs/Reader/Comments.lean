import HeaderAtlas.Proofs.Reader.Openings

/-!
# Reading tokens with comments between them

Where a comment is used up in the middle of a declaration, it matters after which token it
stands. So here the tokens to come are told with the comments between them (`Scanner.Faces`).
`Reads` says what a reader does with them, as `Takes` does for tokens that have
comments between them that no one asks for.
-/

namespace HeaderAtlas

open Ending Reader

/-- A comment, if there is one. -/
def Token.comments (comment : Option String) : List Token :=
  comment.toList.map fun text => ⟨.comment, text⟩

namespace Cell

/-- A token with at most one comment before it. -/
def commented (comment : Option String) (t : Token) : Cell :=
  ⟨comment.toList.map .comment, .plain t⟩

theorem allTokens_commented (comment : Option String) (t : Token) :
    Aside.allTokens (commented comment t).asides = Token.comments comment := by
  cases comment <;> rfl

theorem isLegal_commented {g : GrammarSettings} (comment : Option String) (t : Token) :
    (commented comment t).isLegal g = g.passes t := by
  rw [← isLegal_bare]
  cases comment <;> rfl

theorem isQuiet_commented (comment : Option String) (t : Token) :
    (commented comment t).isQuiet = true := by
  cases comment <;> rfl

end Cell

variable {σ : Type} [Feed σ] [LawfulFeed σ] {env : ScanEnv} {room room' room'' : Room}
  {t u v : Token} {ts ts' ts'' rest : List Token}

/-- These tokens are to come, the first one being the current one. There may be comments among
them. -/
structure Scanner.Faces (env : ScanEnv) (room : Room) (ts : List Token) (s : Scanner σ) : Prop where
  current : s.current = ts.head?
  stream : s.stream.Supplies ts.tail
  room : room.Fits env.settings.grammar s.stream.held

namespace Scanner

variable {s : Scanner σ}

/-- Only the tokens up to the last one that is read have to be known to the filter. -/
theorem Faces.at (h : s.Faces env room (t :: (ts ++ rest)))
    (hpasses : (t :: ts).all env.settings.grammar.passes = true) :
    s.At env (·.Supplies rest) room (t :: ts) s.context :=
  at_of_supplies h.current h.stream h.room hpasses

theorem At.faces {last : Context} (h : s.At env (·.Supplies rest) room [t] last) :
    s.Faces env room (t :: rest) :=
  ⟨h.current, h.context_eq.2, h.room⟩

end Scanner

namespace Reader

variable {α β : Type}

/-- The reader turns the tokens `ts` to come into `ts'`, with the comments among them, gives `a`
and records nothing. -/
def Reads (σ : Type) [Feed σ] [LawfulFeed σ] (env : ScanEnv) (room room' : Room) (m : Reader α)
    (ts ts' : List Token) (a : α) : Prop :=
  ∀ s : Scanner σ, s.Faces env room ts → ∃ s', m.run (Routine.run env) env s = .ok a s'
    ∧ s'.Faces env room' ts' ∧ s'.findings = s.findings

namespace Reads

variable {m : Reader α} {a : α} {b : β}

theorem pure (a : α) : Reads σ env room room (pure a) ts ts a := fun s h => ⟨s, rfl, h, rfl⟩

theorem bind {f : α → Reader β} (h : Reads σ env room room' m ts ts' a)
    (h' : Reads σ env room' room'' (f a) ts' ts'' b) :
    Reads σ env room room'' (m >>= f) ts ts'' b := by
  intro s hs
  obtain ⟨s', hrun, hs', hfindings⟩ := h s hs
  obtain ⟨s'', hrun', hs'', hfindings'⟩ := h' s' hs'
  exact ⟨s'', run_bind_of_ok hrun hrun', hs'', hfindings'.trans hfindings⟩

/-- Nothing needs to be known of the slot afterwards. -/
theorem toAny (h : Reads σ env room room' m ts ts' a) : Reads σ env room .any m ts ts' a := by
  intro s hs
  obtain ⟨s', hrun, hs', hfindings⟩ := h s hs
  exact ⟨s', hrun, ⟨hs'.current, hs'.stream, trivial⟩, hfindings⟩

theorem ofAny (h : Reads σ env .any room' m ts ts' a) : Reads σ env room room' m ts ts' a :=
  fun s hs => h s ⟨hs.current, hs.stream, trivial⟩

/-- The first token is looked at. -/
theorem look (h : Takes env (fun st : TokenStream σ => st.Supplies rest) room room' m [t] [t] a)
    (ht : env.settings.grammar.passes t = true) :
    Reads σ env room room' m (t :: rest) (t :: rest) a := by
  intro s hs
  have hat : s.At env (fun st : TokenStream σ => st.Supplies rest) room [t] s.context :=
    Scanner.Faces.at hs (by rw [List.all_cons, ht]; rfl)
  obtain ⟨s', hrun, hs', hfindings⟩ := h _ s hat
  exact ⟨s', hrun, hs'.faces, hfindings⟩

/-- First comes a look at the first token. -/
theorem peek {f : α → Reader β}
    (h : Takes env (fun st : TokenStream σ => st.Supplies rest) room room' m [t] [t] a)
    (ht : env.settings.grammar.passes t = true)
    (h' : Reads σ env room' room'' (f a) (t :: rest) ts' b) :
    Reads σ env room room'' (m >>= f) (t :: rest) ts' b := (look h ht).bind h'

theorem advance (hu : env.settings.grammar.passes u = true) :
    Reads σ env room .empty Reader.advance (t :: u :: ts) (u :: ts) () := by
  intro s hs
  obtain ⟨hcurrent, hstream, hheld, -, hfindings⟩ :=
    Scanner.advance_cell (s := s) ((Cell.isLegal_bare _ u).trans hu) rfl hs.stream
  exact ⟨s.advance env, rfl, ⟨hcurrent, hstream, hheld⟩, hfindings⟩

/-- What it comes down to. -/
theorem lead {k : Reader α}
    (h : LeadsTo env (fun st : TokenStream σ => st.Supplies rest) room' m (t :: ts) k [u])
    (hpasses : (t :: ts).all env.settings.grammar.passes = true)
    (h' : Reads σ env room' room'' k (u :: rest) ts' a) :
    Reads σ env room room'' m (t :: (ts ++ rest)) ts' a := by
  intro s hs
  obtain ⟨s', hrun, hs', hfindings⟩ := h _ s (hs.at hpasses).toAny
  obtain ⟨s'', hrun', hs'', hfindings'⟩ := h' s' hs'.faces
  exact ⟨s'', hrun.trans hrun', hs'', hfindings'.trans hfindings⟩

theorem dropComment : Reads σ env room room Reader.dropComment ts ts () :=
  fun s hs => ⟨s.forget, rfl, ⟨hs.current, hs.stream, hs.room⟩, rfl⟩

theorem call {r : Routine} {a : r.Result} (h : Reads σ env room room' r.body ts ts' a) :
    Reads σ env room room' (.call r) ts ts' a := by
  intro s hs
  obtain ⟨s', hrun, hs'⟩ := h s hs
  exact ⟨s', (r.run_eq env s).trans hrun, hs'⟩

theorem loop_done {round : α → Reader (Round α)} {b : α}
    (h : Reads σ env room room' (round a) ts ts' (.done b)) :
    Reads σ env room room' (.loop round a) ts ts' b := by
  intro s hs
  obtain ⟨s', hrun, hs'⟩ := h s hs
  exact ⟨s', Scanner.iterate_done hrun, hs'⟩

theorem loop_again {round : α → Reader (Round α)} (hround : Progresses round) {b c : α}
    (h : Reads σ env room room' (round a) ts ts' (.again b))
    (h' : Reads σ env room' room'' (.loop round b) ts' ts'' c) :
    Reads σ env room room'' (.loop round a) ts ts'' c := by
  intro s hs
  obtain ⟨s', hrun, hs', hfindings⟩ := h s hs
  obtain ⟨s'', hrun', hs'', hfindings'⟩ := h' s' hs'
  exact ⟨s'', (hround.run_loop hrun).trans hrun', hs'', hfindings'.trans hfindings⟩

/-- There is no name to read past. -/
theorem past_none {m : Option String → Reader (α × Bool)} (back : Bool) (ht : t.isName = false)
    (h : Reads σ env room room' (m none) (t :: ts) ts' (a, back)) :
    Reads σ env room room' (.past m) (t :: ts) ts' a := by
  intro s hs
  obtain ⟨s', hrun, hs'⟩ := h s hs
  have hcur : s.current.filter Token.isName = none := by
    rw [hs.current]
    simp [ht]
  refine ⟨s', ?_, hs'⟩
  rw [Reader.run, hcur]
  dsimp only
  rw [hrun]
  rfl

/-- The name that has been read past comes again. -/
theorem past_back {m : Option String → Reader (α × Bool)} (ht : t.isName = true)
    (hpasses : env.settings.grammar.passes u = true)
    (h : Reads σ env .empty .empty (m (some t.text)) (u :: ts) (v :: ts') (a, true)) :
    Reads σ env room .any (.past m) (t :: u :: ts) (t :: v :: ts') a := by
  intro s hs
  have hcur : s.current.filter Token.isName = some t :=
    Option.filter_eq_some_iff.mpr ⟨hs.current, ht⟩
  obtain ⟨w, hadvance, hw, hkept⟩ := advance hpasses s hs
  cases hadvance
  obtain ⟨s', hrun, hs', hfindings⟩ := h (s.advance env) hw
  have hnext : s'.current = some v := hs'.current
  refine ⟨s'.unread t, ?_, ⟨rfl, ?_, trivial⟩, hfindings.trans hkept⟩
  · rw [Reader.run, hcur]
    dsimp only
    rw [hrun]
    rfl
  · rw [Scanner.unread, hnext]
    exact hs'.stream.push hs'.room v

end Reads

end Reader

end HeaderAtlas
