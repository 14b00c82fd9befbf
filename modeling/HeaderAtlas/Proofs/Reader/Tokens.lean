import HeaderAtlas.Proofs.Reader.Asides
import HeaderAtlas.Proofs.Reader.Recursion

/-!
# Reading known tokens

What a reader does with tokens that are known beforehand is found by running it, step
by step. `Takes` says that a reader takes its tokens away, leaves others, gives a result
and records nothing. It is proved for the constructs of the language once, and then by
following the text of a reader.

The tokens belong to one declaration. The token that ends it is the last of them; what
comes after it satisfies `P` and is not looked at. What stands between the tokens is taken
in on the way. When that happens depends on how far the reader looks ahead, but what it
comes to in the end does not: this is the context `last` of a state.
-/

namespace HeaderAtlas

open Ending

variable {σ : Type} [Feed σ] [LawfulFeed σ] {env : ScanEnv} {P : TokenStream σ → Prop}

/-! ## Cells to come -/

namespace TokenStream

/-- The filter hands on the tokens of these cells, and takes in what stands before them.
What is then to come satisfies `P`. -/
def Hands (env : ScanEnv) (P : TokenStream σ → Prop) : TokenStream σ → List Cell → Prop
  | st, [] => P st
  | st, c :: cs => ∀ s : Scanner σ, s.stream = st → ∃ s', s.fetch env = (some c.token, s')
    ∧ s'.stream.held = none ∧ s'.context = Aside.afterAll env s.context c.asides
    ∧ s'.gists = s.gists ∧ (c.isQuiet = true → s'.findings = s.findings)
    ∧ Hands env P s'.stream cs

theorem hands_append {st : TokenStream σ} (cs cs' : List Cell) :
    st.Hands env P (cs ++ cs') = st.Hands env (·.Hands env P cs') cs := by
  induction cs generalizing st with
  | nil => rfl
  | cons c cs ih => simp only [List.cons_append, Hands, ih]

theorem Supplies.hands {cs : List Cell} {rest : List Token} {st : TokenStream σ}
    (legal : cs.all (Cell.isLegal env.settings.grammar) = true)
    (silent : cs.all Cell.isSilent = true) (h : st.Supplies (Cell.tokens cs ++ rest)) :
    st.Hands env (·.Supplies rest) cs := by
  induction cs generalizing st with
  | nil => exact h
  | cons c cs ih =>
    rintro s rfl
    rw [List.all_cons, Bool.and_eq_true] at legal silent
    rw [Cell.tokens_cons, List.append_assoc, List.append_assoc] at h
    obtain ⟨s', hfetch, hheld, hrest, hcontext, hgists, hfindings⟩ :=
      Scanner.fetch_cell legal.1 h
    rw [Aside.gistsOf_silent _ silent.1, List.append_nil] at hgists
    exact ⟨s', hfetch, hheld, hcontext, hgists, hfindings, ih legal.2 silent.2 hrest⟩

end TokenStream

/-! ## The tokens at a state -/

/-- What is known of the slot for a token that was put back. -/
inductive Room where
  | any
  | empty
  | taken

/-- Does the slot look like this? What was put back is handed on again. -/
def Room.Fits (g : GrammarSettings) : Room → Option Token → Prop
  | any, _ => True
  | empty, held => held = none
  | taken, held => ∃ t, held = some t ∧ g.passes t = true

namespace Scanner

/-- The tokens `ts` are read next, the current one being the first. When they have all been
fetched the context is `last`, and what is to come satisfies `P`. -/
structure At (env : ScanEnv) (P : TokenStream σ → Prop) (room : Room) (ts : List Token)
    (last : Context) (s : Scanner σ) : Prop where
  current : s.current = ts.head?
  stream : ∃ cs : List Cell, cs.map Cell.token = ts.tail ∧ s.stream.Hands env P cs
    ∧ cs.all Cell.isQuiet = true ∧ Aside.afterAll env s.context (Cell.allAsides cs) = last
  passes : ∀ t ∈ ts, env.settings.grammar.passes t = true
  room : room.Fits env.settings.grammar s.stream.held

variable {room : Room} {t u : Token} {ts : List Token} {last : Context} {s : Scanner σ}

namespace At

/-- Going on from one token to the next. -/
theorem advance (h : s.At env P room (t :: u :: ts) last) :
    (s.advance env).At env P .empty (u :: ts) last
      ∧ (s.advance env).findings = s.findings := by
  obtain ⟨cs, hcs, hhands, hquiet, hlast⟩ := h.stream
  cases cs with
  | nil => cases hcs
  | cons c cs =>
    obtain ⟨htoken, hrest⟩ := List.cons.inj hcs
    rw [List.all_cons, Bool.and_eq_true] at hquiet
    obtain ⟨s', hfetch, hheld, hcontext, -, hfindings, hhands'⟩ := hhands s rfl
    rw [advance_of_fetch hfetch]
    refine ⟨⟨congrArg some htoken, ⟨cs, hrest, hhands', hquiet.2, ?_⟩,
      fun v hv => h.passes v (List.mem_cons_of_mem _ hv), hheld⟩, hfindings hquiet.1⟩
    rw [← hlast, Cell.allAsides_cons, Aside.afterAll_append, ← hcontext]
    rfl

theorem toAny (h : s.At env P room ts last) : s.At env P .any ts last :=
  ⟨h.current, h.stream, h.passes, trivial⟩

/-- The last token has been fetched. -/
theorem context_eq (h : s.At env P room [t] last) : s.context = last ∧ P s.stream := by
  obtain ⟨cs, hcs, hhands, -, hlast⟩ := h.stream
  cases cs with
  | nil => exact ⟨hlast, hhands⟩
  | cons c cs => cases hcs

/-- The last token has been fetched and put back. -/
theorem context_eq_of_taken (h : s.At env P .taken [t, u] last) : s.context = last := by
  obtain ⟨cs, hcs, hhands, -, hlast⟩ := h.stream
  obtain ⟨v, hheld, hpasses⟩ := h.room
  cases cs with
  | nil => cases hcs
  | cons c cs =>
    obtain rfl : cs = [] := List.map_eq_nil_iff.mp (List.cons.inj hcs).2
    obtain ⟨s', hfetch, -, hcontext, -⟩ := hhands s rfl
    rw [fetch, TokenStream.next_of_held hheld, seek_of_passes _ hpasses] at hfetch
    rw [← hlast, Cell.allAsides_cons, Aside.afterAll_append, ← hcontext]
    cases hfetch
    rfl

/-- Putting a name back in front of the current token. -/
theorem unread (h : s.At env P .empty (u :: ts) last)
    (ht : env.settings.grammar.passes t = true) :
    (s.unread t).At env P .taken (t :: u :: ts) last := by
  have hcur : s.current = some u := h.current
  have hpasses := h.passes u List.mem_cons_self
  obtain ⟨cs, hcs, hhands, hquiet, hlast⟩ := h.stream
  have hstream : (s.unread t).stream = s.stream.push u := by rw [Scanner.unread, hcur]
  refine ⟨rfl, ⟨⟨[], .plain u⟩ :: cs, congrArg (u :: ·) hcs, ?_, hquiet, hlast⟩,
    fun v hv => ?_, ?_⟩
  · -- The token that was the current one is handed out again, with nothing before it.
    intro s' hs'
    refine ⟨{ s' with stream := s.stream }, ?_, h.room, rfl, rfl, fun _ => rfl, hhands⟩
    rw [fetch, hs', hstream, TokenStream.next_push h.room]
    exact seek_of_passes _ hpasses
  · rcases List.mem_cons.mp hv with rfl | hv
    · exact ht
    · exact h.passes v hv
  · exact ⟨u, by rw [hstream]; rfl, hpasses⟩

end At

end Scanner

/-! ## What a reader does with its tokens -/

namespace Reader

variable {α β : Type}

/-- The reader turns the tokens `ts` to come into `ts'` and gives `a`. The slot has to look
as `room` says, and looks as `room'` says afterwards. -/
def Takes (env : ScanEnv) (P : TokenStream σ → Prop) (room room' : Room) (m : Reader α)
    (ts ts' : List Token) (a : α) : Prop :=
  ∀ (last : Context) (s : Scanner σ), s.At env P room ts last →
    ∃ s', m.run (Routine.run env) env s = .ok a s' ∧ s'.At env P room' ts' last
      ∧ s'.findings = s.findings

namespace Takes

variable {room room' room'' : Room} {m : Reader α} {ts ts' ts'' : List Token} {a : α} {b : β}
  {t u : Token}

theorem pure (a : α) : Takes env P room room (pure a) ts ts a :=
  fun _ s hs => ⟨s, rfl, hs, rfl⟩

theorem bind {f : α → Reader β} (h : Takes env P room room' m ts ts' a)
    (h' : Takes env P room' room'' (f a) ts' ts'' b) :
    Takes env P room room'' (m >>= f) ts ts'' b := by
  intro last s hs
  obtain ⟨s', hrun, hs', hfindings⟩ := h last s hs
  obtain ⟨s'', hrun', hs'', hfindings'⟩ := h' last s' hs'
  exact ⟨s'', run_bind_of_ok hrun hrun', hs'', hfindings'.trans hfindings⟩

/-- Nothing has to be known of the slot. -/
theorem ofAny (h : Takes env P .any room' m ts ts' a) : Takes env P room room' m ts ts' a :=
  fun last s hs => h last s hs.toAny

/-- Nothing needs to be known of the slot afterwards. -/
theorem toAny (h : Takes env P room room' m ts ts' a) : Takes env P room .any m ts ts' a := by
  intro last s hs
  obtain ⟨s', hrun, hs', hfindings⟩ := h last s hs
  exact ⟨s', hrun, hs'.toAny, hfindings⟩

/-- What empties the slot leaves it as it was, unless something was put back. -/
theorem keep (hroom : room ≠ .taken) (h : Takes env P room .empty m ts ts' a) :
    Takes env P room room m ts ts' a := by
  cases room with
  | any => exact h.toAny
  | empty => exact h
  | taken => exact absurd rfl hroom

/-! ### Looking at the first token -/

theorem look (p : Option Token → α)
    (hm : ∀ s : Scanner σ, m.run (Routine.run env) env s = .ok (p s.current) s) :
    Takes env P room room m ts ts (p ts.head?) := by
  intro last s hs
  refine ⟨s, ?_, hs, rfl⟩
  rw [hm, hs.current]

/-- What is done about a view that shows the first token. -/
theorem look_view {f : View → Reader β}
    (h : ∀ v : View, v.current = ts.head? → Takes env P room room' (f v) ts ts' b) :
    Takes env P room room' (Reader.look >>= f) ts ts' b := by
  intro last s hs
  obtain ⟨s', hrun, hs'⟩ := h s.view hs.current last s hs
  refine ⟨s', ?_, hs'⟩
  rw [run_bind, run_look, andThen_ok]
  exact hrun

theorem at? {p : Token → Bool} {b : Bool} (h : p u = b) :
    Takes env P room room (Reader.at? p) (u :: ts) (u :: ts) b := by
  subst h
  exact look (·.any p) fun _ => rfl

theorem atSep {sep : String} {b : Bool} (h : u.isSep sep = b) :
    Takes env P room room (Reader.atSep sep) (u :: ts) (u :: ts) b := at? h

theorem atOp {op : String} {b : Bool} (h : u.isOp op = b) :
    Takes env P room room (Reader.atOp op) (u :: ts) (u :: ts) b := at? h

theorem atWord {word : String} {b : Bool} (h : u.isWord word = b) :
    Takes env P room room (Reader.atWord word) (u :: ts) (u :: ts) b := at? h

theorem atName {b : Bool} (h : u.isName = b) :
    Takes env P room room Reader.atName (u :: ts) (u :: ts) b := at? h

theorem atClass {cls : TokenClass} {b : Bool} (h : (u.cls == cls) = b) :
    Takes env P room room (Reader.atClass cls) (u :: ts) (u :: ts) b := at? h

theorem atEnd : Takes env P room room Reader.atEnd (u :: ts) (u :: ts) false :=
  look (·.isNone) fun _ => rfl

theorem atEnd_of_ne (h : ts ≠ []) : Takes env P room room Reader.atEnd ts ts false := by
  cases ts with
  | nil => exact absurd rfl h
  | cons u ts => exact atEnd

theorem currentName {name? : Option String}
    (h : ((some u).filter Token.isName).map Token.text = name?) :
    Takes env P room room Reader.currentName (u :: ts) (u :: ts) name? := by
  subst h
  exact look (fun t => (t.filter Token.isName).map Token.text) fun _ => rfl

theorem askEnv : Takes env P room room Reader.env ts ts env := look (fun _ => env) fun _ => rfl

/-! ### Going on -/

/-- Going on empties the slot. -/
theorem advance_of_ne (h : ts ≠ []) :
    Takes env P room .empty Reader.advance (t :: ts) ts () := by
  cases ts with
  | nil => exact absurd rfl h
  | cons u ts =>
    intro last s hs
    obtain ⟨hat, hfindings⟩ := hs.advance
    exact ⟨_, rfl, hat, hfindings⟩

theorem advance : Takes env P room .empty Reader.advance (t :: u :: ts) (u :: ts) () :=
  advance_of_ne (List.cons_ne_nil u ts)

theorem take : Takes env P room .empty Reader.take (t :: u :: ts) (u :: ts) (some t) := by
  intro last s hs
  obtain ⟨hat, hfindings⟩ := hs.advance
  refine ⟨_, ?_, hat, hfindings⟩
  rw [run_take, hs.current]
  rfl

/-- A round that is done ends a loop. -/
theorem loop_done {round : α → Reader (Round α)} {b : α}
    (h : Takes env P room room' (round a) ts ts' (.done b)) :
    Takes env P room room' (.loop round a) ts ts' b := by
  intro last s hs
  obtain ⟨s', hrun, hs'⟩ := h last s hs
  exact ⟨s', Scanner.iterate_done hrun, hs'⟩

/-- Any other round is followed by the next one. -/
theorem loop_again {round : α → Reader (Round α)} (hround : Progresses round) {b c : α}
    (h : Takes env P room room' (round a) ts ts' (.again b))
    (h' : Takes env P room' room'' (.loop round b) ts' ts'' c) :
    Takes env P room room'' (.loop round a) ts ts'' c := by
  intro last s hs
  obtain ⟨s', hrun, hs', hfindings⟩ := h last s hs
  obtain ⟨s'', hrun', hs'', hfindings'⟩ := h' last s' hs'
  exact ⟨s'', (hround.run_loop hrun).trans hrun', hs'', hfindings'.trans hfindings⟩

/-- Reading past a name that is put back afterwards. -/
theorem past_back {m : Option String → Reader (α × Bool)} (ht : t.isName = true)
    (h : Takes env P .empty .empty (m (some t.text)) (u :: ts) ts' (a, true)) (hne : ts' ≠ []) :
    Takes env P room .taken (.past m) (t :: u :: ts) (t :: ts') a := by
  intro last s hs
  have hcur : s.current.filter Token.isName = some t :=
    Option.filter_eq_some_iff.mpr ⟨hs.current, ht⟩
  obtain ⟨hat, hfindings⟩ := hs.advance
  obtain ⟨s', hrun, hs', hfindings'⟩ := h last _ hat
  cases ts' with
  | nil => exact absurd rfl hne
  | cons v ts' =>
    refine ⟨s'.unread t, ?_, hs'.unread (hs.passes t List.mem_cons_self), hfindings'.trans hfindings⟩
    rw [Reader.run, hcur]
    dsimp only
    rw [hrun]
    rfl

/-- Reading past a name that is not put back. -/
theorem past_gone {m : Option String → Reader (α × Bool)} (ht : t.isName = true)
    (h : Takes env P .empty room' (m (some t.text)) (u :: ts) ts' (a, false)) :
    Takes env P room room' (.past m) (t :: u :: ts) ts' a := by
  intro last s hs
  have hcur : s.current.filter Token.isName = some t :=
    Option.filter_eq_some_iff.mpr ⟨hs.current, ht⟩
  obtain ⟨hat, hfindings⟩ := hs.advance
  obtain ⟨s', hrun, hs', hfindings'⟩ := h last _ hat
  refine ⟨s', ?_, hs', hfindings'.trans hfindings⟩
  rw [Reader.run, hcur]
  dsimp only
  rw [hrun]
  rfl

/-- What a routine takes. -/
theorem call {r : Routine} {a : r.Result} (h : Takes env P room room' r.body ts ts' a) :
    Takes env P room room' (.call r) ts ts' a := by
  intro last s hs
  obtain ⟨s', hrun, hs'⟩ := h last s hs
  exact ⟨s', (r.run_eq env s).trans hrun, hs'⟩

end Takes

/-! ## What reading comes down to -/

/-- Running the reader on the tokens `ts` comes down to running `k` on `ts'`. -/
def LeadsTo (env : ScanEnv) (P : TokenStream σ → Prop) (room : Room) (m : Reader α)
    (ts : List Token) (k : Reader α) (ts' : List Token) : Prop :=
  ∀ (last : Context) (s : Scanner σ), s.At env P .any ts last →
    ∃ s', m.run (Routine.run env) env s = k.run (Routine.run env) env s'
      ∧ s'.At env P room ts' last ∧ s'.findings = s.findings

namespace LeadsTo

variable {room room' : Room} {m k l : Reader α} {ts ts' ts'' : List Token} {a : α} {b : β}

theorem refl (m : Reader α) (ts : List Token) : LeadsTo env P .any m ts m ts :=
  fun _ s hs => ⟨s, rfl, hs, rfl⟩

/-- First comes what takes tokens. -/
theorem step {f : α → Reader β} {k : Reader β} (h : Takes env P .any room' m ts ts' a)
    (h' : LeadsTo env P room (f a) ts' k ts'') : LeadsTo env P room (m >>= f) ts k ts'' := by
  intro last s hs
  obtain ⟨s', hrun, hs', hfindings⟩ := h last s hs
  obtain ⟨s'', hrun', hs'', hfindings'⟩ := h' last s' hs'.toAny
  exact ⟨s'', run_bind_of_ok hrun hrun', hs'', hfindings'.trans hfindings⟩

/-- The last part that takes tokens. -/
theorem last_step {f : α → Reader β} (h : Takes env P .any room m ts ts' a) :
    LeadsTo env P room (m >>= f) ts (f a) ts' := by
  intro last s hs
  obtain ⟨s', hrun, hs'⟩ := h last s hs
  exact ⟨s', run_bind_of_ok hrun rfl, hs'⟩

theorem bind {f : α → Reader β} (h : LeadsTo env P room m ts k ts') :
    LeadsTo env P room (m >>= f) ts (k >>= f) ts' := by
  intro last s hs
  obtain ⟨s', hrun, hs'⟩ := h last s hs
  refine ⟨s', ?_, hs'⟩
  rw [run_bind, run_bind, hrun]

/-- Readers that run alike are the same to what leads to them. -/
theorem congr (h : LeadsTo env P room m ts k ts')
    (hk : ∀ s : Scanner σ, k.run (Routine.run env) env s = l.run (Routine.run env) env s) :
    LeadsTo env P room m ts l ts' := by
  intro last s hs
  obtain ⟨s', hrun, hs'⟩ := h last s hs
  exact ⟨s', hrun.trans (hk s'), hs'⟩

/-- A loop whose first round is the last. -/
theorem loop {round : α → Reader (Round α)} {k : Reader β} {x : β → α}
    (h : LeadsTo env P room (round a) ts (k >>= fun c => pure (.done (x c))) ts') :
    LeadsTo env P room (.loop round a) ts (k >>= fun c => pure (x c)) ts' := by
  intro last s hs
  obtain ⟨s', hrun, hs'⟩ := h last s hs
  refine ⟨s', ?_, hs'⟩
  rw [run_bind] at hrun ⊢
  show s.iterate (fun a s => (round a).run (Routine.run env) env s) a = _
  cases hk : k.run (Routine.run env) env s' with
  | ok c u =>
    rw [hk] at hrun
    exact Scanner.iterate_done hrun
  | failed e u =>
    rw [hk] at hrun
    exact Scanner.iterate_failed hrun

end LeadsTo

end Reader

end HeaderAtlas
