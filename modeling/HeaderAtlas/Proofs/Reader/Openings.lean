import HeaderAtlas.Proofs.Reader.Files

/-!
# The declaration that a file starts with

A file that starts with the tokens of a declaration is read from a state that is known: there
is no comment and no guard, and nothing has been found (`Scanner.exists_opening`). From the token
that ends the declaration, the rest of the scan is `Scanner.finish`. Where no token follows, it
comes to its end, and what has been found until then makes up the catalogue.
-/

namespace HeaderAtlas

open Ending Reader
open Catalog (Finding)

variable {σ : Type} [Feed σ] [LawfulFeed σ] {env : ScanEnv} {t : Token} {ts rest : List Token}
  {s u v : Scanner σ} {room : Room}

/-! ## Tokens with nothing in between -/

namespace Cell

/-- A token with nothing before it. -/
def bare (t : Token) : Cell := ⟨[], .plain t⟩

theorem tokens_bare (ts : List Token) : tokens (ts.map bare) = ts := by
  induction ts with
  | nil => rfl
  | cons t ts ih =>
    rw [List.map_cons, tokens_cons, ih]
    rfl

theorem isLegal_bare (g : GrammarSettings) (t : Token) : (bare t).isLegal g = g.passes t := by
  simp [bare, isLegal, Spelling.isLegal, Spelling.isApt, Spelling.token]

theorem isQuiet_bare (ts : List Token) : (ts.map bare).all isQuiet = true := by
  simp [bare, isQuiet]

theorem allAsides_bare (ts : List Token) : allAsides (ts.map bare) = [] := by
  simp [allAsides, bare]

end Cell

namespace Scanner

/-- Tokens that are handed on as they are. -/
theorem at_of_supplies (hcurrent : s.current = some t) (hstream : s.stream.Supplies (ts ++ rest))
    (hroom : room.Fits env.settings.grammar s.stream.held)
    (hpasses : (t :: ts).all env.settings.grammar.passes = true) :
    s.At env (·.Supplies rest) room (t :: ts) s.context := by
  have htail : ts.all env.settings.grammar.passes = true := by
    rw [List.all_cons, Bool.and_eq_true] at hpasses
    exact hpasses.2
  have hlegal : (ts.map Cell.bare).all (Cell.isLegal env.settings.grammar) = true := by
    rw [List.all_map, ← htail]
    exact congrArg (List.all ts) (funext fun u => Cell.isLegal_bare _ u)
  have hquiet := Cell.isQuiet_bare ts
  refine ⟨hcurrent, ⟨ts.map Cell.bare, ?_, ?_, hquiet, ?_⟩, List.all_eq_true.mp hpasses, hroom⟩
  · simp [Cell.bare, Cell.token, Spelling.token, Function.comp_def]
  · exact TokenStream.Supplies.hands hlegal (Cell.isSilent_of_isQuiet hquiet)
      (by rwa [Cell.tokens_bare])
  · rw [Cell.allAsides_bare]
    rfl

/-- Going on to a token that has no directive before it. -/
theorem advance_cell {c : Cell} (hlegal : c.isLegal env.settings.grammar = true)
    (hquiet : c.isQuiet = true)
    (h : s.stream.Supplies (Aside.allTokens c.asides ++ (c.spelling.tokens ++ rest))) :
    (s.advance env).current = some c.token ∧ (s.advance env).stream.Supplies rest
      ∧ (s.advance env).stream.held = none
      ∧ (s.advance env).context = Aside.afterAll env s.context c.asides
      ∧ (s.advance env).findings = s.findings := by
  obtain ⟨s', hfetch, hheld, hrest, hcontext, -, hfindings⟩ := fetch_cell hlegal h
  rw [advance_of_fetch hfetch]
  exact ⟨rfl, hrest, hheld, hcontext, hfindings hquiet⟩

/-- Going on where there is nothing left. -/
theorem advance_end (env : ScanEnv) (h : s.stream.Supplies []) :
    (s.advance env).current = none ∧ (s.advance env).findings = s.findings
      ∧ (s.advance env).context = s.context := by
  obtain ⟨s', hin, hcontext, hfindings⟩ := exists_takesIn env h
  rw [advance_of_fetch (hin.ends rfl)]
  exact ⟨rfl, hfindings, hcontext⟩

/-! ## From the first token of a file to its last -/

/-- The first declaration of a file. -/
theorem exists_opening (env : ScanEnv) {feed : σ} (ht : t.isName = true)
    (hpasses : (t :: ts).all env.settings.grammar.passes = true)
    (h : TokenStream.Supplies ⟨feed, none⟩ (t :: (ts ++ rest))) :
    ∃ v : Scanner σ, v.At env (·.Supplies rest) .empty (t :: ts) env.standing.context
      ∧ v.findings = []
      ∧ Scanner.run env feed
        = (wholeDeclaration.run (Routine.run env) env v).andThen fun c? w => w.proceed env c? := by
  have hfirst : env.settings.grammar.passes t = true := by
    rw [List.all_cons, Bool.and_eq_true] at hpasses
    exact hpasses.1
  have hlegal := (Cell.isLegal_bare env.settings.grammar t).trans hfirst
  obtain ⟨hcurrent, hstream, hheld, hcontext, hfindings⟩ :=
    advance_cell (s := start env feed) hlegal rfl h
  have hat := at_of_supplies hcurrent hstream (show Room.empty.Fits _ _ from hheld) hpasses
  rw [hcontext] at hat
  refine ⟨_, hat, hfindings, ?_⟩
  rw [← run_loop_of_isName hcurrent ht]
  rfl

/-- The scan is over when what was left to do for the last declaration is done. -/
theorem finish_eq {c : Closing} (hclose : (close c).run (Routine.run env) env u = .ok () v)
    (hcurrent : v.current = none) : u.finish env c = .ok () v := by
  have hround : (fileRound ()).run (Routine.run env) env v = .ok (.done ()) v := by
    rw [fileRound, run_bind, run_atEnd, andThen_ok, hcurrent]
    rfl
  rw [finish, hclose, andThen_ok]
  exact iterate_done hround

/-- There may be nothing left to do. -/
theorem exists_finish (env : ScanEnv) (h : u.stream.Supplies []) {c : Closing}
    (hc : c = .nothing ∨ c = .forget) :
    ∃ s, u.finish env c = .ok () s ∧ s.findings = u.findings := by
  obtain ⟨hcurrent, hfindings, -⟩ := advance_end env h
  rcases hc with rfl | rfl
  · exact ⟨u.advance env, finish_eq rfl hcurrent, hfindings⟩
  · exact ⟨(u.advance env).forget, finish_eq rfl hcurrent, hfindings⟩

/-- Or the last declarator is recorded. -/
theorem exists_finish_declare (env : ScanEnv) (h : u.stream.Supplies []) {ty : TypeSpec}
    {d : Declarator} {name : String} {category : Category} {detail : Option Detail}
    {extra : Option String} {isStatic isStatic' : Bool}
    (hrecord : ∀ w : Scanner σ, (recordDeclarator ty d isStatic).run (Routine.run env) env w
      = .ok () (w.record env name category detail extra isStatic')) :
    ∃ s o, u.finish env (.declare ty d isStatic) = .ok () s
      ∧ s.findings = u.findings ++ [.declaration name category o] ∧ o.detail = detail := by
  obtain ⟨hcurrent, hfindings, -⟩ := advance_end env h
  have hclose : (close (.declare ty d isStatic)).run (Routine.run env) env u
      = .ok () ((u.advance env).record env name category detail extra isStatic') := by
    rw [close, run_bind, run_advance, andThen_ok]
    exact hrecord _
  exact ⟨_, env.observe (u.advance env).guards.active (u.advance env).stream.line detail extra
    isStatic', finish_eq hclose hcurrent, congrArg (· ++ _) hfindings, rfl⟩

end Scanner

/-- Why a file was not catalogued, if it was not. -/
def Outcome.failure? {α : Type} (r : Outcome α) : Option Failure :=
  match r.result with
  | .error failure => some failure
  | .ok _ => none

end HeaderAtlas
