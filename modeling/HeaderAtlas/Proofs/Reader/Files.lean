import HeaderAtlas.Proofs.Catalog.Sightings
import HeaderAtlas.Proofs.Reader.Declarations
import HeaderAtlas.Proofs.Scanner.Findings
import HeaderAtlas.Proofs.Scanner.Items

/-!
# Files as they are written

A file is a list of items: declarations, and between them comments, directives and words
that are dropped. What is recorded of an item depends on the items before it by way of
their `Standing` only: the pending comment, the guards, and whether that comment is about
to be forgotten. The step from one standing to the next (`Item.after`) and what is recorded
in it (`Item.gist?`) are told for each kind of item; a scan does just that, item by item
(`Scanner.gists_of_run`).

The comment of a prototype is forgotten when the token after its `;` is reached. What stands
before that token is taken in by then.
-/

namespace HeaderAtlas

open Ending Reader

/-! ## Items -/

/-- Do the cells spell these tokens, with no directive in between? What stands before the
first of them is told apart. -/
def Cell.spell (g : GrammarSettings) (cs : List Cell) (ts : List Token) : Bool :=
  cs.map Cell.token == ts && cs.all (Cell.isLegal g) && cs.all Cell.isQuiet
    && cs.head?.all (·.asides.isEmpty)

/-- Something that a file is made of. -/
inductive Item where
  | prototype (f : Signature) (cells : List Cell)
  | definition (f : Signature) (cells body : List Cell)
  | typedef (d : WrittenTypedef) (cells : List Cell)
  | vars (v : WrittenVariables) (cells : List Cell)
  | aside (a : Aside)

/-- What an item finds. -/
structure Standing where
  context : Context
  /-- Is the pending comment about to be forgotten? -/
  lost : Bool

/-- The context at the first token of a declaration. -/
def Standing.opening (st : Standing) : Context :=
  if st.lost then ⟨none, st.context.guards⟩ else st.context

/-- The standing at the beginning of a file. -/
def ScanEnv.standing (env : ScanEnv) : Standing :=
  ⟨⟨none, { marker := env.settings.grammar.guardMarker }⟩, false⟩

namespace Item

/-- What a declaration is spelled with, up to the `;` or the brace that opens its body. -/
def cells : Item → List Cell
  | prototype _ cells | definition _ cells _ | typedef _ cells | vars _ cells => cells
  | aside _ => []

/-- The body of a definition. -/
def body : Item → List Cell
  | definition _ _ body => body
  | prototype .. | typedef .. | vars .. | aside _ => []

/-- What is written. -/
def tokens : Item → List Token
  | aside a => a.tokens
  | i => Cell.tokens (i.cells ++ i.body)

/-- Can it be read? -/
def isLegal (env : ScanEnv) : Item → Bool
  | prototype f cells =>
    f.isLegal env && Cell.spell env.settings.grammar cells (f.tokens ++ [.sep ";"])
  | definition f cells body =>
    f.isLegal env && Cell.spell env.settings.grammar cells (f.tokens ++ [.sep "\x7b"])
      && (body.all (Cell.isLegal env.settings.grammar) && body.all Cell.isSilent
        && closesBlocks 1 (body.map Cell.token))
  | typedef d cells => d.declarator.isLegal && Cell.spell env.settings.grammar cells d.tokens
  | vars v cells => v.isLegal env && Cell.spell env.settings.grammar cells v.tokens
  | aside a => a.isLegal env.settings.grammar

/-- The directives in the item. -/
def directives : Item → List Directive
  | aside a => a.directive?.toList
  | i => Cell.directives i.body

/-- The context that the item is recorded in. -/
def recordedIn (env : ScanEnv) (st : Standing) : Item → Context
  | aside _ => st.context
  | i => Aside.afterAll env st.opening (Cell.allAsides i.cells)

/-- What is recorded of the item in a context, if it is a documented one. -/
def gist? (env : ScanEnv) (c : Context) : Item → Option Gist
  | prototype f _ | definition f _ _ => some (f.gist c)
  | typedef d _ => some (d.gist c)
  | vars .. => none
  | aside a => a.gist? env c

/-- What the next item finds. -/
def after (env : ScanEnv) (st : Standing) (i : Item) : Standing :=
  let c := i.recordedIn env st
  match i with
  | prototype .. => ⟨c, true⟩
  | definition _ _ body => ⟨⟨none, (Cell.directives body).foldl Guards.obey c.guards⟩, false⟩
  | typedef .. => ⟨c, false⟩
  | vars .. => ⟨⟨none, c.guards⟩, false⟩
  | aside a => ⟨a.after env c, st.lost⟩

/-- What an item after several others finds. -/
def afterAll (env : ScanEnv) (st : Standing) (items : List Item) : Standing :=
  items.foldl (after env) st

/-- What is recorded of several items. -/
def gistsOf (env : ScanEnv) : Standing → List Item → List Gist
  | _, [] => []
  | st, i :: is => (i.gist? env (i.recordedIn env st)).toList ++ gistsOf env (i.after env st) is

variable {env : ScanEnv}

theorem gistsOf_append (st : Standing) (is js : List Item) :
    gistsOf env st (is ++ js) = gistsOf env st is ++ gistsOf env (afterAll env st is) js := by
  induction is generalizing st with
  | nil => rfl
  | cons i is ih =>
    rw [List.cons_append, gistsOf, gistsOf, ih, List.append_assoc]
    rfl

/-- Asides are taken in as they are without any declarations. -/
theorem gistsOf_asides (st : Standing) (as : List Aside) :
    gistsOf env st (as.map aside) = Aside.gistsOf env st.context as := by
  induction as generalizing st with
  | nil => rfl
  | cons a as ih =>
    rw [List.map_cons, gistsOf, ih]
    rfl

theorem afterAll_asides (st : Standing) (as : List Aside) :
    afterAll env st (as.map aside) = { st with context := Aside.afterAll env st.context as } := by
  induction as generalizing st with
  | nil => rfl
  | cons a as ih => exact ih (after env st (aside a))

end Item

/-! ## From one declaration to the next -/

section Step

variable {σ : Type} [Feed σ] [LawfulFeed σ] {env : ScanEnv} {as : List Aside}
  {cells body : List Cell} {ts beyond : List Token} {c : Closing} {s u : Scanner σ}

/-- What is left of the scan when the token that ends a declaration has been reached. -/
def Scanner.finish (env : ScanEnv) (c : Closing) (u : Scanner σ) : Ending σ Unit :=
  ((close c).run (Routine.run env) env u).andThen fun _ s =>
    (loop fileRound ()).run (Routine.run env) env s

/-- What is left of the scan when a declaration has been read, if its end was reached. -/
def Scanner.proceed (env : ScanEnv) (c? : Option Closing) (u : Scanner σ) : Ending σ Unit :=
  match c? with
  | some c => u.finish env c
  | none => (loop fileRound ()).run (Routine.run env) env u

/-- A declaration that starts with a name is read, and the scan goes on from its end. -/
theorem Scanner.run_loop_of_isName {t : Token} (hcurrent : s.current = some t)
    (ht : t.isName = true) :
    (loop fileRound ()).run (Routine.run env) env s
      = (wholeDeclaration.run (Routine.run env) env s).andThen fun c? w => w.proceed env c? := by
  have hitem : readItem.run (Routine.run env) env s
      = wholeDeclaration.run (Routine.run env) env s := by
    rw [readItem, run_bind, run_atName, andThen_ok, hcurrent, Option.any_some, if_pos ht]
    exact Routine.run_eq env .declaration s
  rw [run_loop_fileRound hcurrent, blockRound, run_bind, hitem]
  cases wholeDeclaration.run (Routine.run env) env s with
  | failed e w => rfl
  | ok c? w => cases c? <;> rfl

/-- The standing at the end of a declaration. -/
def Scanner.standing (c : Closing) (u : Scanner σ) : Standing := ⟨u.context, c == .forget⟩

/-- Is nothing documented recorded when the declaration is over? -/
def Closing.isPlain : Closing → Bool
  | declare ty _ _ => ty.body.isNone
  | nothing | forget => true

/-- Passing the token that ends a declaration. -/
theorem Reader.run_close (hc : c.isPlain = true) :
    ∃ v, (close c).run (Routine.run env) env u = .ok () v
      ∧ v.stream = (u.advance env).stream ∧ v.current = (u.advance env).current
      ∧ v.gists = (u.advance env).gists ∧ v.context = ((u.advance env).standing c).opening := by
  cases c with
  | nothing => exact ⟨_, rfl, rfl, rfl, rfl, rfl⟩
  | forget => exact ⟨_, rfl, rfl, rfl, rfl, rfl⟩
  | declare ty d isStatic =>
    rw [Closing.isPlain, Option.isNone_iff_eq_none] at hc
    have hrun : (close (.declare ty d isStatic)).run (Routine.run env) env u
        = .ok () ((u.advance env).record env d.name .var (some (.type d.type)) none
          (isStatic || env.isLocal)) := by
      rw [close, run_bind, run_advance, andThen_ok]
      simp only [recordDeclarator, hc]
      rfl
    exact ⟨_, hrun, rfl, rfl, (Scanner.gists_find _ _).trans (List.append_nil _), rfl⟩

/-- Going on to the first token of a declaration. What is changed in the context there is
what the declaration finds. -/
theorem Scanner.advance_declaration {t : Token}
    (has : as.all (Aside.isLegal env.settings.grammar) = true)
    (hcells : Cell.spell env.settings.grammar cells (t :: ts) = true)
    (hbody : body.all (Cell.isLegal env.settings.grammar) = true
      ∧ body.all Cell.isSilent = true)
    (h : u.stream.Supplies (Aside.allTokens as ++ (Cell.tokens (cells ++ body) ++ beyond))) :
    (∀ v : Scanner σ, v.stream = (u.advance env).stream → v.current = (u.advance env).current →
        v.At env (·.Hands env (·.Supplies beyond) body) .any (t :: ts)
          (Aside.afterAll env v.context (Cell.allAsides cells)))
      ∧ (u.advance env).context = Aside.afterAll env u.context as
      ∧ (u.advance env).gists = u.gists ++ Aside.gistsOf env u.context as := by
  simp only [Cell.spell, Bool.and_eq_true, beq_iff_eq] at hcells
  obtain ⟨⟨⟨htokens, hlegal⟩, hquiet⟩, hfirst⟩ := hcells
  cases cells with
  | nil => cases htokens
  | cons c cs =>
    obtain ⟨rfl, hrest⟩ := List.cons.inj htokens
    have hnone : c.asides = [] := by simpa using hfirst
    have hsilent := Cell.isSilent_of_isQuiet hquiet
    have hpasses : ∀ v ∈ (c :: cs).map Cell.token, env.settings.grammar.passes v = true := by
      intro v hv
      obtain ⟨d, hd, rfl⟩ := List.mem_map.mp hv
      have hlegal' := List.all_eq_true.mp hlegal d hd
      rw [Cell.isLegal, Bool.and_eq_true, Spelling.isLegal, Bool.and_eq_true] at hlegal'
      exact hlegal'.2.1
    rw [List.all_cons, Bool.and_eq_true] at hlegal hquiet hsilent
    -- The asides are what stands before the first token.
    have hcell : (Cell.mk as c.spelling).isLegal env.settings.grammar = true := by
      have hc := hlegal.1
      rw [Cell.isLegal, Bool.and_eq_true] at hc ⊢
      exact ⟨has, hc.2⟩
    have hempty : Aside.allTokens c.asides = [] := by rw [hnone]; rfl
    rw [List.cons_append, Cell.tokens_cons, hempty, List.nil_append, List.append_assoc] at h
    obtain ⟨s', hfetch, -, hsupplies, hcontext, hgists, -⟩ := fetch_cell hcell h
    have hhands := hsupplies.hands
      (by rw [List.all_append, hlegal.2, hbody.1]; rfl)
      (by rw [List.all_append, hsilent.2, hbody.2]; rfl)
    rw [TokenStream.hands_append] at hhands
    rw [advance_of_fetch hfetch]
    refine ⟨fun v hstream hcurrent => ?_, hcontext, hgists⟩
    refine ⟨hcurrent, ⟨cs, hrest, hstream ▸ hhands, hquiet.2, ?_⟩, hrest ▸ hpasses, trivial⟩
    rw [Cell.allAsides_cons, hnone]
    rfl

/-- A declaration that starts with a name is read, and the scan goes on from its end. -/
theorem Scanner.finish_declaration {t : Token} (hc : c.isPlain = true)
    (has : as.all (Aside.isLegal env.settings.grammar) = true) (ht : t.isName = true)
    (hcells : Cell.spell env.settings.grammar cells (t :: ts) = true)
    (hbody : body.all (Cell.isLegal env.settings.grammar) = true
      ∧ body.all Cell.isSilent = true)
    (h : u.stream.Supplies (Aside.allTokens as ++ (Cell.tokens (cells ++ body) ++ beyond)))
    (hs : u.finish env c = .ok () s) :
    ∃ v c? w, v.At env (·.Hands env (·.Supplies beyond) body) .any (t :: ts)
        (Aside.afterAll env (Item.afterAll env (u.standing c) (as.map .aside)).opening
          (Cell.allAsides cells))
      ∧ v.gists = u.gists ++ Item.gistsOf env (u.standing c) (as.map .aside)
      ∧ wholeDeclaration.run (Routine.run env) env v = .ok c? w
      ∧ w.proceed env c? = .ok () s := by
  -- First the previous declaration is closed, on the token that this one starts with.
  obtain ⟨hat, hcontext, hgists⟩ := u.advance_declaration has hcells hbody h
  obtain ⟨v, hclose, hstream, hcurrent, hgists', hcontext'⟩ : ∃ v,
    (close c).run (Routine.run env) env u = .ok () v ∧ _ := run_close hc
  have hstanding : (u.advance env).standing c
      = Item.afterAll env (u.standing c) (as.map .aside) := by
    rw [Item.afterAll_asides]
    exact congrArg (Standing.mk · _) hcontext
  rw [hstanding] at hcontext'
  have hv := hat v hstream hcurrent
  rw [finish, hclose, andThen_ok, run_loop_of_isName hv.current ht] at hs
  cases hread : wholeDeclaration.run (Routine.run env) env v with
  | failed e w => rw [hread] at hs; cases hs
  | ok c? w =>
    rw [hread] at hs
    refine ⟨v, c?, w, hcontext' ▸ hv, ?_, hread, hs⟩
    rw [hgists', hgists, Item.gistsOf_asides]
    rfl

/-- The first token of a declaration is a name. -/
theorem exists_isName (storage : Storage) {p : WrittenParam}
    (hp : p.tokens.head?.all (Token.startsDeclaration env) = true) (ts : List Token) :
    ∃ t us, storage.tokens ++ (p.tokens ++ ts) = t :: us ∧ t.isName = true := by
  cases storage with
  | none =>
    obtain ⟨t, us, ht, hstart⟩ := WrittenParam.exists_start hp ts
    simp only [Token.startsDeclaration, Bool.and_eq_true] at hstart
    exact ⟨t, us, ht, hstart.1.1⟩
  | static => exact ⟨_, _, rfl, rfl⟩
  | external => exact ⟨_, _, rfl, rfl⟩

theorem Signature.exists_isName {f : Signature} (hf : f.isLegal env = true) (x : Token) :
    ∃ t us, f.tokens ++ [x] = t :: us ∧ t.isName = true := by
  rw [Signature.isLegal, Bool.and_eq_true, Bool.and_eq_true] at hf
  obtain ⟨t, us, ht, hname⟩ := HeaderAtlas.exists_isName f.storage hf.1.1
    (.sep "(" :: WrittenParam.listTokens f.params ++ [x])
  refine ⟨t, us, ?_, hname⟩
  rw [← ht, Signature.tokens, List.append_assoc, List.append_assoc]

/-- One declaration: it is recorded in its context, and the scan goes on from the token that
ends it. -/
theorem Scanner.finish_item {i : Item} (hi : i.isLegal env = true) (hdecl : ∀ a, i ≠ .aside a)
    (hc : c.isPlain = true) (has : as.all (Aside.isLegal env.settings.grammar) = true)
    (h : u.stream.Supplies (Aside.allTokens as ++ (i.tokens ++ beyond)))
    (hs : u.finish env c = .ok () s) :
    ∃ (c' : Closing) (w : Scanner σ), c'.isPlain = true
      ∧ w.standing c' = Item.afterAll env (u.standing c) (as.map .aside ++ [i])
      ∧ w.stream.Supplies beyond ∧ w.finish env c' = .ok () s
      ∧ w.gists = u.gists ++ Item.gistsOf env (u.standing c) (as.map .aside ++ [i]) := by
  rw [Item.afterAll, List.foldl_append, Item.gistsOf_append, ← List.append_assoc]
  change ∃ (c' : Closing) (w : Scanner σ), _
    ∧ w.standing c' = i.after env (Item.afterAll env (u.standing c) (as.map .aside)) ∧ _
  have hempty : ([] : List Cell).all (Cell.isLegal env.settings.grammar) = true
      ∧ ([] : List Cell).all Cell.isSilent = true := ⟨rfl, rfl⟩
  cases i with
  | aside a => exact absurd rfl (hdecl a)
  | prototype f cells =>
    rw [Item.isLegal, Bool.and_eq_true] at hi
    obtain ⟨t, us, ht, hname⟩ := Signature.exists_isName hi.1 (.sep ";")
    obtain ⟨v, c?, w, hat, hgists, hread, hw⟩ :=
      finish_declaration hc has hname (ht ▸ hi.2) hempty h hs
    rw [← ht] at hat
    obtain ⟨rfl, hstream, hcontext, hgists'⟩ := run_prototype hi.1 hat hread
    -- `forget` comes after the next token: the comment that it drops is the next one.
    refine ⟨.forget, w, rfl, congrArg (Standing.mk · true) hcontext, hstream, hw, ?_⟩
    rw [hgists', hgists]
    rfl
  | definition f cells body =>
    simp only [Item.isLegal, Bool.and_eq_true] at hi
    obtain ⟨⟨hf, hcells⟩, ⟨hlegal, hsilent⟩, hclose⟩ := hi
    obtain ⟨t, us, ht, hname⟩ := Signature.exists_isName hf (.sep "\x7b")
    obtain ⟨v, c?, w, hat, hgists, hread, hw⟩ :=
      finish_declaration hc has hname (ht ▸ hcells) ⟨hlegal, hsilent⟩ h hs
    rw [← ht] at hat
    obtain ⟨rfl, hstream, hcontext, hgists'⟩ := run_definition hf hclose hat hread
    refine ⟨.nothing, w, rfl, congrArg (Standing.mk · false) hcontext, hstream, hw, ?_⟩
    rw [hgists', hgists]
    rfl
  | typedef d cells =>
    rw [Item.isLegal, Bool.and_eq_true] at hi
    obtain ⟨v, c?, w, hat, hgists, hread, hw⟩ :=
      finish_declaration hc has rfl hi.2 hempty h hs
    obtain ⟨w', hrun, hstream, hcontext, hgists'⟩ := run_typedef hi.1 hat
    rw [hrun] at hread
    cases hread
    refine ⟨.nothing, w, rfl, congrArg (Standing.mk · false) hcontext, hstream, hw, ?_⟩
    rw [hgists', hgists]
    rfl
  | vars x cells =>
    rw [Item.isLegal, Bool.and_eq_true] at hi
    have hlegal := hi.1
    simp only [WrittenVariables.isLegal, Bool.and_eq_true] at hlegal
    obtain ⟨t, us, ht, hname⟩ : ∃ t us, x.tokens = t :: us ∧ t.isName = true :=
      exists_isName x.storage hlegal.1.1.1.1 _
    obtain ⟨v, c?, w, hat, hgists, hread, hw⟩ :=
      finish_declaration hc has hname (ht ▸ hi.2) hempty h hs
    rw [← ht] at hat
    obtain ⟨d, w', hrun, hstream, hcontext, hgists'⟩ := run_variables hi.1 hat
    rw [hrun] at hread
    cases hread
    refine ⟨.declare x.declarator.spec d x.storage.isStatic, w, ?_,
      congrArg (Standing.mk · false) hcontext, hstream, hw, ?_⟩
    · rw [Closing.isPlain, WrittenParam.spec_eq]
      rfl
    · rw [hgists', hgists]
      exact (List.append_nil _).symm

/-- The end of a file. -/
theorem Scanner.finish_end (hc : c.isPlain = true)
    (has : as.all (Aside.isLegal env.settings.grammar) = true)
    (h : u.stream.Supplies (Aside.allTokens as)) (hs : u.finish env c = .ok () s) :
    s.gists = u.gists ++ Item.gistsOf env (u.standing c) (as.map .aside) := by
  rw [← List.append_nil (Aside.allTokens as)] at h
  obtain ⟨u', hin, -, hgists, -⟩ := takesIn_asides has (fun _ h => by cases h) h
  have hadvance := advance_of_fetch (hin.ends rfl)
  obtain ⟨v, hclose, -, hcurrent, hgists', -⟩ : ∃ v,
    (close c).run (Routine.run env) env u = .ok () v ∧ _ := run_close hc
  have hround : (fileRound ()).run (Routine.run env) env v = .ok (.done ()) v := by
    rw [fileRound, run_bind, run_atEnd, andThen_ok, hcurrent, hadvance]
    rfl
  have hdone : (loop fileRound ()).run (Routine.run env) env v = .ok () v :=
    iterate_done hround
  rw [finish, hclose, andThen_ok, hdone] at hs
  cases hs
  rw [hgists', hadvance, Item.gistsOf_asides]
  exact hgists

/-- All items of a file, one after the other. What stands before the first of them is to be
taken in yet. -/
theorem Scanner.finish_items {items : List Item} (hitems : items.all (Item.isLegal env) = true)
    (hc : c.isPlain = true) (has : as.all (Aside.isLegal env.settings.grammar) = true)
    (h : u.stream.Supplies (Aside.allTokens as ++ items.flatMap Item.tokens))
    (hs : u.finish env c = .ok () s) :
    s.gists = u.gists ++ Item.gistsOf env (u.standing c) (as.map .aside ++ items) := by
  induction items generalizing as c u with
  | nil =>
    rw [List.flatMap_nil, List.append_nil] at h
    rw [List.append_nil]
    exact finish_end hc has h hs
  | cons i items ih =>
    rw [List.all_cons, Bool.and_eq_true] at hitems
    rw [List.flatMap_cons] at h
    by_cases haside : ∃ a, i = .aside a
    · -- The item is one more thing to be taken in before the next declaration.
      obtain ⟨a, rfl⟩ := haside
      have hstream : u.stream.Supplies
          (Aside.allTokens (as ++ [a]) ++ items.flatMap Item.tokens) := by
        rw [Aside.allTokens_append, List.append_assoc]
        simpa [Aside.allTokens, Item.tokens] using h
      have hlegal : (as ++ [a]).all (Aside.isLegal env.settings.grammar) = true := by
        rw [List.all_append, has]
        simpa [Item.isLegal] using hitems.1
      rw [ih hitems.2 hc hlegal hstream hs, List.map_append, List.append_assoc]
      rfl
    · -- A declaration takes in the asides before it; there are none left after it.
      obtain ⟨c', w, hc', hstanding, hstream, hw, hgists⟩ :=
        finish_item hitems.1 (fun a ha => haside ⟨a, ha⟩) hc has h hs
      have hrest := ih hitems.2 hc' (show ([] : List Aside).all _ = true from rfl) hstream hw
      rw [hrest, hgists, hstanding, List.append_assoc, List.map_nil, List.nil_append,
        ← Item.gistsOf_append, List.append_assoc]
      rfl

/-- **What is recorded of a file** that is written as a list of items, if it can be read. -/
theorem Scanner.gists_of_run {feed : σ} {items : List Item}
    (hitems : items.all (Item.isLegal env) = true)
    (h : TokenStream.Supplies ⟨feed, none⟩ (items.flatMap Item.tokens))
    (hs : Scanner.run env feed = .ok () s) : s.gists = Item.gistsOf env env.standing items := by
  rw [ItemEnd.start.run_eq] at hs
  exact finish_items hitems rfl (show ([] : List Aside).all _ = true from rfl) h hs

end Step

/-! ## Entries -/

/-- The table and the name of what is recorded. -/
def Gist.key (g : Gist) : Shelf × String := (g.category.shelf, g.name)

/-- The table and the name of a macro, if it is recorded. -/
def MacroParts.key? (env : ScanEnv) (words : List String) : Option (Shelf × String) :=
  let g := env.settings.grammar
  ((ofWords? words).filter fun m => !(g.hiddenMacros.contains m.name || g.isHeaderGuard m.name)).map
    fun m => (.macros, m.name)

/-- The table and the name of a documented item. -/
def Item.key? (env : ScanEnv) : Item → Option (Shelf × String)
  | prototype f _ | definition f _ _ => some (.functions, f.name)
  | typedef d _ => some (.typedefs, d.name)
  | vars .. => none
  | aside (.directive word args) => if word = "#define" then MacroParts.key? env args else none
  | aside (.comment _) | aside (.ignored ..) => none

section Entries

variable {env : ScanEnv}

theorem MacroParts.key_gist? (c : Context) (words : List String) :
    (gist? env c words).map Gist.key = key? env words := by
  unfold gist? key?
  cases ofWords? words with
  | none => rfl
  | some m =>
    dsimp only
    rw [Option.filter_some]
    cases env.settings.grammar.hiddenMacros.contains m.name
        || env.settings.grammar.isHeaderGuard m.name <;> rfl

/-- What is recorded under does not depend on the context. -/
theorem Item.key_gist? (c : Context) (i : Item) : (i.gist? env c).map Gist.key = i.key? env := by
  cases i with
  | prototype => rfl
  | definition => rfl
  | typedef => rfl
  | vars => rfl
  | aside a =>
    cases a with
    | comment => rfl
    | ignored => rfl
    | directive word args =>
      rw [gist?, Aside.gist?, key?]
      split
      · exact MacroParts.key_gist? c args
      · rfl

theorem Item.map_key_gistsOf (st : Standing) (items : List Item) :
    (gistsOf env st items).map Gist.key = items.filterMap (key? env) := by
  induction items generalizing st with
  | nil => rfl
  | cons i items ih =>
    rw [gistsOf, List.map_append, ih, List.filterMap_cons, ← key_gist? (i.recordedIn env st) i]
    cases i.gist? env (i.recordedIn env st) <;> rfl

/-- Where no two items have the same key, only one thing is recorded under each. -/
theorem Item.filter_gistsOf {before after : List Item} {i : Item} {g : Gist}
    (hnodup : ((before ++ i :: after).filterMap (key? env)).Nodup)
    (hg : i.gist? env (i.recordedIn env (afterAll env env.standing before)) = some g) :
    (gistsOf env env.standing (before ++ i :: after)).filter (·.key = g.key) = [g] := by
  rw [← map_key_gistsOf env.standing] at hnodup
  rw [gistsOf_append, gistsOf, hg, Option.toList_some, List.singleton_append] at hnodup ⊢
  rw [List.map_append, List.map_cons, List.nodup_append, List.nodup_cons] at hnodup
  obtain ⟨-, ⟨hafter, -⟩, hbefore⟩ := hnodup
  have hnot : ∀ gs : List Gist, g.key ∉ gs.map Gist.key →
      gs.filter (·.key = g.key) = [] := by
    intro gs hgs
    refine List.filter_eq_nil_iff.mpr fun x hx hkey => hgs ?_
    rw [← of_decide_eq_true hkey]
    exact List.mem_map_of_mem hx
  rw [List.filter_append, List.filter_cons_of_pos (by simp), hnot _ hafter,
    hnot _ fun hmem => hbefore _ hmem _ List.mem_cons_self rfl]
  rfl

end Entries

namespace Catalog

theorem Finding.isDocumented_of_gist? {f : Finding} {g : Gist} (h : f.gist? = some g) :
    g.category.shelf.isDocumented = true := by
  cases f with
  | use => cases h
  | declaration name category o =>
    rw [gist?] at h
    split at h
    · next hdocumented => cases h; exact hdocumented
    · cases h

/-- In a documented table, every finding has a gist. -/
theorem Finding.isOf_eq {shelf : Shelf} (h : shelf.isDocumented = true) (name : String)
    (f : Finding) : f.isOf shelf name = f.gist?.any (·.key = (shelf, name)) := by
  cases f with
  | use => rfl
  | declaration n category o =>
    rw [isOf, gist?]
    split
    · simp [Gist.key]
    · next hnot =>
      have hne : category.shelf ≠ shelf := by
        rintro rfl
        exact hnot h
      simp [hne]

theorem filterMap_sightings {shelf : Shelf} (h : shelf.isDocumented = true) (name : String)
    (fs : List Finding) :
    (sightings shelf name fs).filterMap Finding.gist?
      = (fs.filterMap Finding.gist?).filter (·.key = (shelf, name)) := by
  induction fs with
  | nil => rfl
  | cons f fs ih =>
    rw [sightings, List.filter_cons, Finding.isOf_eq h]
    change (if _ then f :: sightings shelf name fs else sightings shelf name fs).filterMap _ = _
    rw [List.filterMap_cons]
    cases hf : f.gist? with
    | none => exact ih
    | some g =>
      rw [Option.any_some, List.filter_cons]
      split
      · rw [List.filterMap_cons, hf, ih]
      · exact ih

/-- If one gist is about a name, its entry is made of it. -/
theorem foldl_see_of_gist {fs : List Finding} {g : Gist} (hadmits : admits g.name = true)
    (h : (fs.filterMap Finding.gist?).filter (·.key = g.key) = [g]) :
    ∃ e, (sightings g.category.shelf g.name fs).foldl see none = some e
      ∧ e.category = g.category ∧ e.guards = g.guards ∧ e.detail = g.detail
      ∧ e.extra = g.extra := by
  have hg : g ∈ (fs.filterMap Finding.gist?).filter (·.key = g.key) := by
    rw [h]
    exact List.mem_singleton_self g
  obtain ⟨f₀, -, hf₀⟩ := List.mem_filterMap.mp (List.mem_filter.mp hg).1
  have hdocumented : g.category.shelf.isDocumented = true := Finding.isDocumented_of_gist? hf₀
  -- The sightings of the name are the findings with such a gist, and there is one of them.
  have hsightings := filterMap_sightings hdocumented g.name fs
  rw [show (g.category.shelf, g.name) = g.key from rfl, h] at hsightings
  have hsome : ∀ f ∈ sightings g.category.shelf g.name fs, f.gist? ≠ none := by
    intro f hf hnone
    have hof := (List.mem_filter.mp hf).2
    rw [Finding.isOf_eq hdocumented, hnone] at hof
    cases hof
  obtain ⟨before, f, after, heq, hbefore, hf, hafter⟩ := List.filterMap_eq_cons_iff.mp hsightings
  obtain rfl : before = [] := by
    refine List.eq_nil_iff_forall_not_mem.mpr fun x hx => ?_
    exact hsome x (heq ▸ List.mem_append_left _ hx) (hbefore x hx)
  obtain rfl : after = [] := by
    refine List.eq_nil_iff_forall_not_mem.mpr fun x hx => ?_
    exact hsome x (heq ▸ List.mem_cons_of_mem f hx) (List.filterMap_eq_nil_iff.mp hafter x hx)
  rw [heq]
  cases f with
  | use => cases hf
  | declaration name category o =>
    rw [Finding.gist?] at hf
    split at hf
    · cases hf
      exact ⟨Entry.create name category o, if_pos hadmits, rfl, rfl, rfl, rfl⟩
    · cases hf

/-- **The entry of an item** is made of what is recorded of it, if no other item has the same
name in the same table. -/
theorem exists_entry {σ : Type} [Feed σ] [LawfulFeed σ] {o : ScanOptions} {file : String}
    {feed : σ} {C : Catalog} {before after : List Item} {i : Item} {shelf : Shelf} {name : String}
    (hlegal : (before ++ i :: after).all (Item.isLegal (o.env file)) = true)
    (hnodup : ((before ++ i :: after).filterMap (Item.key? (o.env file))).Nodup)
    (hkey : i.key? (o.env file) = some (shelf, name)) (hadmits : admits name = true)
    (hfeed : TokenStream.Supplies ⟨feed, none⟩ ((before ++ i :: after).flatMap Item.tokens))
    (hC : (Catalog.ofFeed o file feed).result = .ok C) :
    ∃ g e, i.gist? (o.env file) (i.recordedIn (o.env file)
          (Item.afterAll (o.env file) (o.env file).standing before)) = some g
      ∧ (C.table shelf).get? name = some e ∧ e.category = g.category ∧ e.guards = g.guards
      ∧ e.detail = g.detail ∧ e.extra = g.extra := by
  obtain ⟨s, hs, htable⟩ := exists_run hC
  rw [← Item.key_gist? (i.recordedIn (o.env file)
    (Item.afterAll (o.env file) (o.env file).standing before)), Option.map_eq_some_iff] at hkey
  obtain ⟨g, hg, hkey⟩ := hkey
  have hgists : s.gists.filter (·.key = g.key) = [g] := by
    rw [Scanner.gists_of_run hlegal hfeed hs]
    exact Item.filter_gistsOf hnodup hg
  obtain ⟨rfl, rfl⟩ := Prod.mk.inj hkey
  obtain ⟨e, he, hparts⟩ := foldl_see_of_gist hadmits hgists
  exact ⟨g, e, hg, (htable _ _).trans he, hparts⟩

end Catalog

end HeaderAtlas
