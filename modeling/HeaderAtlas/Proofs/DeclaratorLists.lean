import HeaderAtlas.Proofs.Reader.Openings
import HeaderAtlas.Proofs.Reader.TypeTexts

/-!
# Lists of declarators

A declaration may declare several names after one type, each with its own operators and
dimensions. The reader of types takes those of the first name with it, and the names after it
build on what it has read. And where a later variable has dimensions, these are taken together
with all that comes after them. What is recorded is told by `DeclaratorList.recorded`, for
variables and, if no later name has dimensions, for typedefs.

It is what is declared if the first name has neither operators nor dimensions and only the last
one has dimensions (`listed_of_declaratorList`), and otherwise it need not be
(`recorded_of_crowdedList`).
-/

namespace HeaderAtlas

open Ending Reader
open Catalog (Finding)

/-! ## What is written -/

/-- One name of a list, with the operators before it and the dimensions after it. -/
structure ListedName where
  operators : List Token
  name : String
  dims : Dimensions
  operators_legal : operators.all (·.cls == .operator) = true
  dims_legal : dims.areLegal = true

/-- The tokens of the name. -/
def ListedName.tokens (d : ListedName) : List Token :=
  d.operators ++ .word d.name :: d.dims.tokens

/-- A type and the names that it is given to. -/
structure DeclaratorList where
  type : WrittenType
  first : ListedName
  more : List ListedName

/-- The texts of tokens after a text, set apart by blanks. -/
def Token.spacedAfter (text : String) (ts : List Token) : String :=
  " ".intercalate (text :: ts.map Token.text)

namespace DeclaratorList

/-- The tokens of further names. -/
def moreTokens (ds : List ListedName) : List Token := ds.flatMap fun d => .sep "," :: d.tokens

/-- The tokens of the declaration up to its `;`. -/
def tokens (L : DeclaratorList) : List Token :=
  L.type.tokens ++ (L.first.tokens ++ moreTokens L.more)

/-- The names, in order. -/
def names (L : DeclaratorList) : List String := (L.first :: L.more).map ListedName.name

/-- What is declared: each name has the type with its own operators and dimensions. -/
def declared (L : DeclaratorList) : List Declarator :=
  (L.first :: L.more).map fun d =>
    ⟨d.name, Token.spaced (L.type.tokens ++ d.operators) ++ d.dims.text⟩

/-- The type and the first name, as one declarator. -/
def opening (L : DeclaratorList) : WrittenParam :=
  .named (L.type.pointed L.first.operators L.first.operators_legal) L.first.name L.first.dims

/-- The text that further names build on: the type of the first one. -/
def base (L : DeclaratorList) : String :=
  Token.spaced (L.type.tokens ++ L.first.operators) ++ L.first.dims.text

/-- What is recorded of the declarator `d` and the names after it. The dimensions of a further
name take in all that follows. -/
def recordedFrom (base : String) (d : Declarator) : List ListedName → List Declarator
  | [] => [d]
  | e :: es =>
    if e.dims.isEmpty then
      d :: recordedFrom base ⟨e.name, Token.spacedAfter base e.operators⟩ es
    else
      [d, ⟨e.name, Token.spacedAfter base e.operators
        ++ Token.joined (e.dims.tokens ++ moreTokens es)⟩]

/-- What is recorded. -/
def recorded (L : DeclaratorList) : List Declarator :=
  recordedFrom L.base ⟨L.first.name, L.base⟩ L.more

/-- Can the first name be told from its type? -/
def isLegal (env : ScanEnv) (L : DeclaratorList) : Bool :=
  L.opening.tokens.head?.all (Token.startsDeclaration env) && L.opening.isLegal
    && L.type.isWorded

/-- Does no name get in the way of another? -/
def isUncrowded (L : DeclaratorList) : Bool :=
  L.more.isEmpty || (L.first.operators.isEmpty && L.first.dims.isEmpty
    && L.more.dropLast.all (·.dims.isEmpty))

end DeclaratorList

/-! ## What is recorded and what is declared -/

theorem Token.foldl_spaced (ts : List Token) (text : String) :
    ts.foldl (fun text t => text ++ " " ++ t.text) text = spacedAfter text ts := by
  induction ts generalizing text with
  | nil => exact String.intercalate_singleton.symm
  | cons t ts ih =>
    rw [List.foldl_cons, ih, spacedAfter, spacedAfter, String.intercalate_cons_append,
      List.map_cons, String.intercalate_cons_cons]

theorem Token.spacedAfter_spaced {ts us : List Token} (hts : ts ≠ []) :
    spacedAfter (spaced ts) us = spaced (ts ++ us) := by
  cases us with
  | nil => rw [List.append_nil]; exact String.intercalate_singleton
  | cons u us =>
    rw [spaced, spaced, List.map_append,
      String.intercalate_append_of_ne_nil (by simpa using hts) (by simp), spacedAfter,
      List.map_cons, String.intercalate_cons_cons]

theorem Dimensions.joined_tokens (dims : Dimensions) : Token.joined dims.tokens = dims.text := by
  induction dims with
  | nil => rfl
  | cons d dims ih =>
    have htokens : tokens (d :: dims) = .sep "[" :: (d ++ .sep "]" :: tokens dims) := by
      simp [tokens]
    rw [htokens, text, List.map_cons, String.join_cons, ← text, ← ih]
    simp [Token.joined, Token.sep, String.append_assoc]

namespace DeclaratorList

/-- Where only the last name has dimensions, each name has its own. -/
theorem recordedFrom_eq (base : String) (d : Declarator) {ds : List ListedName}
    (h : ds.dropLast.all (·.dims.isEmpty) = true) :
    recordedFrom base d ds = d :: ds.map fun e =>
      ⟨e.name, Token.spacedAfter base e.operators ++ e.dims.text⟩ := by
  induction ds generalizing d with
  | nil => rfl
  | cons e es ih =>
    rw [recordedFrom]
    split
    · next hdims =>
      have hrest : es.dropLast.all (·.dims.isEmpty) = true := by
        cases es with
        | nil => rfl
        | cons e' es =>
          rw [List.dropLast_cons_cons, List.all_cons, Bool.and_eq_true] at h
          exact h.2
      rw [ih _ hrest, List.map_cons, List.isEmpty_iff.mp hdims]
      simp [Dimensions.text]
    · next hdims =>
      -- The dimensions belong to the last name, so there is nothing else for them to take.
      cases es with
      | nil => simp [moreTokens, Dimensions.joined_tokens]
      | cons e' es =>
        rw [List.dropLast_cons_cons, List.all_cons, Bool.and_eq_true] at h
        exact absurd h.1 hdims

/-- Uncrowded names are recorded as they are declared. -/
theorem recorded_eq_declared {L : DeclaratorList} (h : L.isUncrowded = true) :
    L.recorded = L.declared := by
  have hne : L.type.tokens ≠ [] := by
    obtain ⟨t, ts, ht, -⟩ := L.type.exists_head
    simp [ht]
  rw [isUncrowded, Bool.or_eq_true] at h
  rcases h with h | h
  · rw [recorded, declared, List.isEmpty_iff.mp h]
    rfl
  · rw [Bool.and_eq_true, Bool.and_eq_true, List.isEmpty_iff, List.isEmpty_iff] at h
    obtain ⟨⟨hoperators, hdims⟩, hmore⟩ := h
    have hbase : L.base = Token.spaced L.type.tokens := by
      simp [base, hoperators, hdims, Dimensions.text]
    rw [recorded, recordedFrom_eq _ _ hmore, declared, List.map_cons, hbase]
    simp [hoperators, hdims, Dimensions.text, Token.spacedAfter_spaced hne]

/-- The names that are recorded are the first ones of the list. -/
theorem names_recordedFrom (base : String) (d : Declarator) (ds : List ListedName) :
    (recordedFrom base d ds).map Declarator.name <+: d.name :: ds.map ListedName.name := by
  induction ds generalizing d with
  | nil => exact List.prefix_rfl
  | cons e es ih =>
    rw [recordedFrom]
    split
    · rw [List.map_cons, List.cons_prefix_cons]
      exact ⟨rfl, ih _⟩
    · simp

end DeclaratorList

/-! ## Up to the semicolon -/

theorem Dimensions.lacks_semicolon (dims : Dimensions) (h : dims.areLegal = true) :
    dims.tokens.all (!·.isSep ";") = true := by
  rw [tokens, List.all_flatMap]
  refine List.all_eq_true.mpr fun d hd => ?_
  have hinside : d.all (!·.isSep ";") = true := by
    refine List.all_eq_true.mpr fun t ht => ?_
    have hclass := List.all_eq_true.mp (List.all_eq_true.mp h d hd) t ht
    rw [bne_iff_ne] at hclass
    simp [Token.isSep, hclass]
  rw [List.all_append, List.all_cons, hinside]
  rfl

theorem DeclaratorList.lacks_semicolon_moreTokens (ds : List ListedName) :
    (moreTokens ds).all (!·.isSep ";") = true := by
  rw [moreTokens, List.all_flatMap]
  refine List.all_eq_true.mpr fun d _ => ?_
  rw [List.all_cons, ListedName.tokens, List.all_append, List.all_cons,
    d.dims.lacks_semicolon d.dims_legal]
  have hoperators : d.operators.all (!·.isSep ";") = true := by
    refine List.all_eq_true.mpr fun t ht => ?_
    have hclass := List.all_eq_true.mp d.operators_legal t ht
    rw [beq_iff_eq] at hclass
    simp [Token.isSep, hclass]
  rw [hoperators]
  rfl

/-! ## What is found -/

section Scan

variable {σ : Type} [Feed σ] [LawfulFeed σ] {env : ScanEnv} {P : TokenStream σ → Prop}
  {s s' s'' u : Scanner σ} {category : Category} {ds ds' : List Declarator} {last : Context}
  {ops ts : List Token}

/-- From `s` to `s'` it has been found that these names have these types. -/
def Scanner.Finds (category : Category) (ds : List Declarator) (s s' : Scanner σ) : Prop :=
  ∃ os : List (String × Observation),
    s'.findings = s.findings ++ os.map (fun o => .declaration o.1 category o.2)
      ∧ os.map (fun o => (o.1, o.2.detail)) = ds.map fun d => (d.name, some (.type d.type))

namespace Scanner.Finds

omit [Feed σ] [LawfulFeed σ] in
theorem nothing (h : s'.findings = s.findings) : Finds category [] s s' :=
  ⟨[], by simpa using h, rfl⟩

omit [Feed σ] [LawfulFeed σ] in
theorem trans (h : Finds category ds s s') (h' : Finds category ds' s' s'') :
    Finds category (ds ++ ds') s s'' := by
  obtain ⟨os, hfindings, hos⟩ := h
  obtain ⟨os', hfindings', hos'⟩ := h'
  refine ⟨os ++ os', ?_, ?_⟩
  · rw [hfindings', hfindings, List.map_append, List.append_assoc]
  · rw [List.map_append, List.map_append, hos, hos']

omit [LawfulFeed σ] in
theorem record (d : Declarator) (extra : Option String) (isStatic : Bool) (s : Scanner σ) :
    Finds category [d] s (s.record env d.name category (some (.type d.type)) extra isStatic) :=
  ⟨[(d.name, env.observe s.guards.active s.stream.line (some (.type d.type)) extra isStatic)],
    rfl, rfl⟩

end Scanner.Finds

/-- The table of a category tells the types of these names, and no other table tells anything. -/
def Catalog.Lists (C : Catalog) (category : Category) (ds : List Declarator) : Prop :=
  ∀ shelf name, ((C.table shelf).get? name).map (fun e => (e.category, e.detail))
    = if category.shelf = shelf then
        (ds.find? (·.name = name)).map fun d => (category, some (.type d.type))
      else none

/-- What has been found makes up the catalogue. -/
theorem Catalog.exists_lists {o : ScanOptions} {file : String} {feed : σ}
    (hrun : Scanner.run (o.env file) feed = .ok () u) (hs : s.findings = [])
    (h : Scanner.Finds category ds s u) (hnodup : (ds.map Declarator.name).Nodup)
    (hadmits : ∀ d ∈ ds, admits d.name = true) :
    ∃ C, (Catalog.ofFeed o file feed).result = .ok C ∧ C.Lists category ds := by
  obtain ⟨os, hfindings, hos⟩ := h
  obtain ⟨C, hC, hentries⟩ := exists_of_run hrun
  have hnames : os.map Prod.fst = ds.map Declarator.name := by
    have hfst := congrArg (List.map Prod.fst) hos
    simpa [List.map_map, Function.comp_def] using hfst
  have hadmits' : ∀ o ∈ os, admits o.1 = true := by
    intro o ho
    have hname : o.1 ∈ ds.map Declarator.name := hnames ▸ List.mem_map_of_mem ho
    obtain ⟨d, hd, hname⟩ := List.mem_map.mp hname
    exact hname ▸ hadmits d hd
  refine ⟨C, hC, fun shelf name => ?_⟩
  rw [hentries, hfindings, hs, List.nil_append,
    foldl_see_of_nodup (hnames ▸ hnodup) hadmits' shelf name]
  split
  · -- Both look for the name in the same list of names and details.
    have hfind := congrArg (fun l => (l.find? (·.1 = name)).map fun d => (category, d.2)) hos
    simpa [List.find?_map, Function.comp_def, Entry.create] using hfind
  · rfl

/-! ## Reading a list -/

/-- Comments stay where nothing forgets them. -/
theorem Aside.comment_eq_none {as : List Aside} (hquiet : as.all isQuiet = true) {c : Context}
    (h : (afterAll env c as).comment = none) : c.comment = none := by
  induction as generalizing c with
  | nil => exact h
  | cons a as ih =>
    rw [List.all_cons, Bool.and_eq_true] at hquiet
    have hnext : (a.after env c).comment = none := ih hquiet.2 h
    cases a with
    | comment text => cases hnext
    | directive word args => cases hquiet.1
    | ignored word dropped => exact hnext

/-- Where there is no comment, there is none to forget. -/
theorem Scanner.At.forget_eq {room : Room} (h : s.At env P room ts last)
    (hnone : last.comment = none) : s.forget = s := by
  obtain ⟨cs, -, -, hquiet, hlast⟩ := h.stream
  have hasides : (Cell.allAsides cs).all Aside.isQuiet = true := by
    rw [Cell.allAsides, List.all_flatMap]
    exact hquiet
  have hcomment : s.comment = none :=
    Aside.comment_eq_none hasides ((congrArg Context.comment hlast).trans hnone)
  rw [Scanner.forget, ← hcomment]

namespace Reader

variable {α β : Type}

/-- The reader turns the tokens `ts` to come into `ts'`, gives `a` and finds that the names have
their types, if there is no comment. -/
def Declares (env : ScanEnv) (P : TokenStream σ → Prop) (category : Category) (m : Reader α)
    (ts ts' : List Token) (a : α) (ds : List Declarator) : Prop :=
  ∀ (last : Context) (s : Scanner σ), last.comment = none → s.At env P .any ts last →
    ∃ s', m.run (Routine.run env) env s = .ok a s' ∧ s'.At env P .any ts' last
      ∧ s.Finds category ds s'

namespace Declares

open DeclaratorList

variable {room : Room} {m : Reader α} {ts' ts'' : List Token} {a : α} {b : β} {t : Token}
  {d : Declarator} {name : String}

theorem pure (a : α) : Declares env P category (pure a) ts ts a [] :=
  fun _ s _ hs => ⟨s, rfl, hs, .nothing rfl⟩

theorem bind {f : α → Reader β} (h : Declares env P category m ts ts' a ds)
    (h' : Declares env P category (f a) ts' ts'' b ds') :
    Declares env P category (m >>= f) ts ts'' b (ds ++ ds') := by
  intro last s hnone hs
  obtain ⟨s', hrun, hs', hfound⟩ := h last s hnone hs
  obtain ⟨s'', hrun', hs'', hfound'⟩ := h' last s' hnone hs'
  exact ⟨s'', run_bind_of_ok hrun hrun', hs'', hfound.trans hfound'⟩

/-- First comes what takes tokens. -/
theorem step {f : α → Reader β} (h : Takes env P .any room m ts ts' a)
    (h' : Declares env P category (f a) ts' ts'' b ds) :
    Declares env P category (m >>= f) ts ts'' b ds := by
  have htakes : Declares env P category m ts ts' a [] := by
    intro last s _ hs
    obtain ⟨s', hrun, hs', hfindings⟩ := h last s hs
    exact ⟨s', hrun, hs'.toAny, .nothing hfindings⟩
  exact htakes.bind h'

/-- There is no comment to be dropped. -/
theorem dropComment : Declares env P category Reader.dropComment ts ts () [] := by
  intro last s hnone hs
  refine ⟨s, ?_, hs, .nothing rfl⟩
  have hrun : Reader.dropComment.run (Routine.run env) env s = .ok () s.forget := rfl
  rw [hrun, hs.forget_eq hnone]

theorem record (d : Declarator) (extra : Option String) (isStatic : Bool) :
    Declares env P category (Reader.record d.name category (some (.type d.type)) extra isStatic)
      ts ts () [d] :=
  fun _ s _ hs => ⟨_, rfl, ⟨hs.current, hs.stream, hs.passes, hs.room⟩, .record d extra isStatic s⟩

theorem loop_done {round : α → Reader (Round α)} {b : α}
    (h : Declares env P category (round a) ts ts' (.done b) ds) :
    Declares env P category (.loop round a) ts ts' b ds := by
  intro last s hnone hs
  obtain ⟨s', hrun, hs'⟩ := h last s hnone hs
  exact ⟨s', Scanner.iterate_done hrun, hs'⟩

theorem loop_again {round : α → Reader (Round α)} (hround : Progresses round) {b c : α}
    (h : Declares env P category (round a) ts ts' (.again b) ds)
    (h' : Declares env P category (.loop round b) ts' ts'' c ds') :
    Declares env P category (.loop round a) ts ts'' c (ds ++ ds') := by
  intro last s hnone hs
  obtain ⟨s', hrun, hs', hfound⟩ := h last s hnone hs
  obtain ⟨s'', hrun', hs'', hfound'⟩ := h' last s' hnone hs'
  exact ⟨s'', (hround.run_loop hrun).trans hrun', hs'', hfound.trans hfound'⟩

/-! ### Variables -/

/-- The last variable is left to be recorded. -/
theorem endDeclarator_last (ty : TypeSpec) (isStatic : Bool) (d : Declarator) :
    Declares env P category (endDeclarator ty isStatic d) [.sep ";"] [.sep ";"]
      (.done (d, some (.declare ty d isStatic))) [] :=
  step (.atSep rfl) (dropComment.bind (pure _))

/-- A variable with another one after it. -/
theorem endDeclarator_comma (ty : TypeSpec) (isStatic : Bool) (d : Declarator)
    (hops : ops.all (·.cls == .operator) = true) :
    Declares env P .var (endDeclarator ty isStatic d)
      (.sep "," :: (ops ++ .word name :: t :: ts)) (t :: ts)
      (.again (⟨name, Token.spacedAfter ty.text ops⟩, none)) [d] := by
  have hcomma : Takes env P .any .empty Reader.advance
      (.sep "," :: (ops ++ .word name :: t :: ts)) (ops ++ .word name :: t :: ts) () :=
    .advance_of_ne (by simp)
  have hmarks : ops.all (fun t => t.cls == .separator || t.cls == .operator) = true := by
    rw [List.all_eq_true] at hops ⊢
    exact fun t ht => by rw [hops t ht, Bool.or_true]
  have hlocal : Takes env P .any .any Reader.isLocal (.sep "," :: (ops ++ .word name :: t :: ts))
      (.sep "," :: (ops ++ .word name :: t :: ts)) env.isLocal := .bind .askEnv (.pure _)
  have hrecord : Declares env P .var (recordVariable d.name d.type isStatic)
      (.sep "," :: (ops ++ .word name :: t :: ts)) (.sep "," :: (ops ++ .word name :: t :: ts)) ()
      [d] := step hlocal (record d none _)
  rw [← Token.foldl_spaced]
  exact step (.atSep rfl) (step (.atSep rfl) (step (.atSep rfl) (dropComment.bind (hrecord.bind
    (step hcomma (step (.takeWhile (by simp) hmarks rfl rfl _ _) (step (.currentName rfl)
      (step .advance (pure _)))))))))

/-- A variable without dimensions of its own. -/
theorem declaratorRound (ht : t = .sep "," ∨ t = .sep ";") (ty : TypeSpec) (isStatic : Bool)
    {r : Round (Declarator × Option Closing)}
    (h : Declares env P category (endDeclarator ty isStatic d) (t :: ts) ts' r ds) :
    Declares env P category (Reader.declaratorRound ty isStatic (d, none)) (t :: ts) ts' r ds := by
  rcases ht with rfl | rfl
  · exact step (.atClass rfl) (step (.atClass rfl) (step (.atSep rfl) (step (.pure _)
      (step (.atOp rfl) h))))
  · exact step (.atClass rfl) (step (.atClass rfl) (step (.atSep rfl) (step (.pure _)
      (step (.atOp rfl) h))))

/-- A further variable with dimensions: they take in all that follows. -/
theorem declaratorRound_dimensions {us : List Token} (hus : us.all (!·.isSep ";") = true)
    (hstart : us.head? = some (.sep "[")) (ty : TypeSpec) (isStatic : Bool) (d : Declarator) :
    Declares env P category (Reader.declaratorRound ty isStatic (d, none)) (us ++ [.sep ";"])
      [.sep ";"] (.done (⟨d.name, d.type ++ Token.joined us⟩,
        some (.declare ty ⟨d.name, d.type ++ Token.joined us⟩ isStatic))) [] := by
  have htext : ∀ text : String, us.foldl (fun text t => text ++ t.text) text
      = text ++ Token.joined us := by
    clear hus hstart
    induction us with
    | nil => exact fun _ => String.append_empty.symm
    | cons u us ih =>
      intro text
      rw [List.foldl_cons, ih, Token.joined, Token.joined, List.map_cons, String.join_cons,
        String.append_assoc]
  have hread : Takes env P .any .any (readToSemicolon d.type) (us ++ [.sep ";"]) [.sep ";"]
      (d.type ++ Token.joined us) := by
    rw [← htext]
    exact .takeWhile (by simp) hus rfl rfl _ _
  obtain ⟨v, vs, rfl⟩ : ∃ v vs, us = v :: vs := by
    cases us with
    | nil => cases hstart
    | cons v vs => exact ⟨v, vs, rfl⟩
  cases hstart
  exact step (.atClass rfl) (step (.atClass rfl) (step (.atSep rfl) (step hread (step (.pure _)
    (step (.atOp rfl) (endDeclarator_last ty isStatic _))))))

/-- All variables of a list but the last, which is left to be recorded. -/
theorem loop_declaratorRound (env : ScanEnv) (P : TokenStream σ → Prop) (ty : TypeSpec)
    (isStatic : Bool) (es : List ListedName) (d : Declarator) :
    ∃ ds d', recordedFrom ty.text d es = ds ++ [d']
      ∧ Declares env P .var (.loop (Reader.declaratorRound ty isStatic) (d, none))
        (moreTokens es ++ [.sep ";"]) [.sep ";"] (d', some (.declare ty d' isStatic)) ds := by
  induction es generalizing d with
  | nil =>
    exact ⟨[], d, rfl, loop_done (declaratorRound (.inr rfl) ty isStatic
      (endDeclarator_last ty isStatic d))⟩
  | cons e es ih =>
    have htokens : moreTokens (e :: es) ++ [.sep ";"] = .sep "," :: (e.operators ++ .word e.name
        :: (e.dims.tokens ++ moreTokens es ++ [.sep ";"])) := by
      simp [moreTokens, ListedName.tokens]
    obtain ⟨v, vs, hv⟩ : ∃ v vs, e.dims.tokens ++ moreTokens es ++ [.sep ";"] = v :: vs :=
      List.exists_cons_of_ne_nil (by simp)
    have hround : Declares env P .var (Reader.declaratorRound ty isStatic (d, none))
        (.sep "," :: (e.operators ++ .word e.name :: v :: vs)) (v :: vs)
        (.again (⟨e.name, Token.spacedAfter ty.text e.operators⟩, none)) [d] :=
      declaratorRound (.inl rfl) ty isStatic
        (endDeclarator_comma ty isStatic d e.operators_legal)
    rw [← hv] at hround
    rw [recordedFrom, htokens]
    split
    · next hdims =>
      rw [List.isEmpty_iff.mp hdims] at hround ⊢
      obtain ⟨ds, d', hrecorded, hrest⟩ := ih ⟨e.name, Token.spacedAfter ty.text e.operators⟩
      refine ⟨d :: ds, d', by rw [hrecorded, List.cons_append], ?_⟩
      exact loop_again (progresses_declaratorRound ty isStatic) hround hrest
    · next hdims =>
      obtain ⟨x, dims, hx⟩ : ∃ x dims, e.dims = x :: dims :=
        List.exists_cons_of_ne_nil (by simpa using hdims)
      have hstart : (e.dims.tokens ++ moreTokens es).head? = some (.sep "[") := by
        rw [hx]
        simp [Dimensions.tokens]
      refine ⟨[d], _, rfl, loop_again (progresses_declaratorRound ty isStatic) hround
        (loop_done (declaratorRound_dimensions ?_ hstart ty isStatic _))⟩
      rw [List.all_append, e.dims.lacks_semicolon e.dims_legal, lacks_semicolon_moreTokens]
      rfl

/-! ### Typedefs -/

/-- One name of a typedef. -/
theorem recordTypedef (base : String) (d : Declarator) :
    Declares env P .typedef (Reader.recordTypedef none d.name ⟨base, d.type, none, none, false⟩)
      ts ts ⟨base, d.type, none, none, false⟩ [d] :=
  fun _ s _ hs => ⟨s.record env d.name .typedef (some (.type d.type))
    (DocBlock.readTypedef s.comment d.name) env.isLocal, rfl,
    ⟨hs.current, hs.stream, hs.passes, hs.room⟩, .record d _ _ s⟩

/-- All names of a typedef, if no further name has dimensions. -/
theorem loop_typedefRound (env : ScanEnv) (P : TokenStream σ → Prop) (base : String)
    {es : List ListedName} (hes : es.all (·.dims.isEmpty) = true) (d : Declarator) :
    ∃ type, Declares env P .typedef (.loop (typedefRound none) ⟨base, d.type, none, none, false⟩)
      (.word d.name :: (moreTokens es ++ [.sep ";"])) [.sep ";"] ⟨base, type, none, none, true⟩
      (recordedFrom base d es) := by
  induction es generalizing d with
  | nil =>
    exact ⟨d.type, loop_done (step (.currentName rfl) ((recordTypedef base d).bind
      (step .advance (step (.atSep rfl) (step (.atSep rfl) (pure _))))))⟩
  | cons e es ih =>
    rw [List.all_cons, Bool.and_eq_true] at hes
    obtain ⟨type, hrest⟩ := ih hes.2 ⟨e.name, Token.spacedAfter base e.operators⟩
    have htokens : moreTokens (e :: es) ++ [.sep ";"] = .sep "," :: (e.operators ++ .word e.name
        :: (moreTokens es ++ [.sep ";"])) := by
      simp [moreTokens, ListedName.tokens, List.isEmpty_iff.mp hes.1, Dimensions.tokens]
    have hcomma : Takes env P .any .empty Reader.advance
        (.sep "," :: (e.operators ++ .word e.name :: (moreTokens es ++ [.sep ";"])))
        (e.operators ++ .word e.name :: (moreTokens es ++ [.sep ";"])) () :=
      .advance_of_ne (by simp)
    have hpointers : Takes env P .any .any (readPointers base)
        (e.operators ++ .word e.name :: (moreTokens es ++ [.sep ";"]))
        (.word e.name :: (moreTokens es ++ [.sep ";"])) (Token.spacedAfter base e.operators) := by
      rw [← Token.foldl_spaced]
      exact .takeWhile (by simp) e.operators_legal rfl rfl _ base
    have hround : Declares env P .typedef (typedefRound none ⟨base, d.type, none, none, false⟩)
        (.word d.name :: (moreTokens (e :: es) ++ [.sep ";"]))
        (.word e.name :: (moreTokens es ++ [.sep ";"]))
        (.again ⟨base, Token.spacedAfter base e.operators, none, none, false⟩) [d] := by
      rw [htokens]
      exact step (.currentName rfl) ((recordTypedef base d).bind (step .advance
        (step (.atSep rfl) (step hcomma (step hpointers (pure _))))))
    rw [recordedFrom, if_pos hes.1]
    exact ⟨type, loop_again (progresses_typedefRound none) hround hrest⟩

end Declares

end Reader

/-! ## Lists of declarators -/

namespace DeclaratorList

variable {L : DeclaratorList}

/-- Further names build on the text that has been read for the first one. -/
theorem text_opening (h : L.type.isWorded = true) : L.opening.text = L.base := by
  have hworded : (L.type.pointed L.first.operators L.first.operators_legal).isWorded = true := by
    obtain ⟨t, ts, ht, -⟩ := L.type.exists_head
    rw [WrittenType.isWorded, ht] at h
    rw [WrittenType.isWorded, WrittenType.tokens_pointed, ht]
    exact h
  rw [opening, WrittenParam.text, TypeSpec.text_dimensions, WrittenType.text_spec _ hworded,
    WrittenType.text, WrittenType.tokens_pointed, base]

/-- A separator comes after the first name. -/
theorem exists_tail (L : DeclaratorList) :
    ∃ u us, L.tokens ++ [.sep ";"] = L.opening.tokens ++ u :: us
      ∧ moreTokens L.more ++ [.sep ";"] = u :: us ∧ u.isSep "[" = false
      ∧ u.isSep ":" = false := by
  have htokens : L.tokens ++ [.sep ";"]
      = L.opening.tokens ++ (moreTokens L.more ++ [.sep ";"]) := by
    simp [tokens, opening, WrittenParam.tokens, WrittenType.tokens_pointed, ListedName.tokens]
  rw [htokens]
  cases L.more with
  | nil => exact ⟨_, _, rfl, rfl, rfl, rfl⟩
  | cons d ds => exact ⟨_, _, rfl, rfl, rfl, rfl⟩

/-- The variables of a list are found, the last of them when the file is over. -/
theorem exists_run_variables {feed : σ} (hL : L.isLegal env = true)
    (hpasses : L.tokens.all env.settings.grammar.passes = true)
    (h : TokenStream.Supplies ⟨feed, none⟩ (L.tokens ++ [.sep ";"])) :
    ∃ s u : Scanner σ, Scanner.run env feed = .ok () u ∧ s.findings = []
      ∧ Scanner.Finds .var L.recorded s u := by
  simp only [isLegal, Bool.and_eq_true] at hL
  obtain ⟨⟨hstart, hlegal⟩, hworded⟩ := hL
  obtain ⟨u, us, htokens, hmore, hbracket, hcolon⟩ := L.exists_tail
  obtain ⟨t, ts, ht, htstart⟩ := WrittenParam.exists_start hstart (u :: us)
  have hall : (t :: ts).all env.settings.grammar.passes = true := by
    rw [← ht, ← htokens, List.all_append, hpasses]
    rfl
  have hname : t.isName = true := by
    simp only [Token.startsDeclaration, Bool.and_eq_true] at htstart
    exact htstart.1.1
  have hdeclarators : LeadsTo env (fun st : TokenStream σ => st.Supplies []) .any
      (readDeclarators false) (L.opening.tokens ++ u :: us) _ (u :: us) :=
    .readDeclarators hlegal rfl hbracket hcolon false (.refl _ (u :: us))
  rw [ht] at hdeclarators
  rw [htokens, ht, ← List.append_nil ts] at h
  obtain ⟨s, hs, hnothing, hscan⟩ := Scanner.exists_opening env hname hall h
  obtain ⟨s', hrun, hs', hkept⟩ := LeadsTo.wholeDeclaration htstart .none hdeclarators _ s hs.toAny
  obtain ⟨ds, d, hrecorded, hloop⟩ := Declares.loop_declaratorRound env
    (fun st : TokenStream σ => st.Supplies []) L.opening.spec false L.more
    ⟨L.first.name, L.opening.text⟩
  rw [hmore] at hloop
  obtain ⟨s'', hrun', hs'', hfound⟩ := hloop _ s' rfl hs'
  rw [hrun, run_bind, hrun', andThen_ok] at hscan
  rw [L.opening.text_spec, text_opening hworded] at hrecorded
  -- The last variable is left to be recorded.
  have hlast : ∀ w : Scanner σ,
      (recordDeclarator L.opening.spec d false).run (Routine.run env) env w
      = .ok () (w.record env d.name .var (some (.type d.type)) none (false || env.isLocal)) := by
    rw [L.opening.spec_eq]
    exact fun w => rfl
  obtain ⟨v, o, hfinish, hfindings, hdetail⟩ :=
    Scanner.exists_finish_declare env hs''.context_eq.2 hlast
  have hend : Scanner.Finds .var [d] s'' v := ⟨[(d.name, o)], hfindings, by simp [hdetail]⟩
  refine ⟨s', v, hscan.trans hfinish, hkept.trans hnothing, ?_⟩
  rw [recorded, hrecorded]
  exact hfound.trans hend

/-- The typedefs of a list are found, if no further name has dimensions. -/
theorem exists_run_typedefs {feed : σ} (hL : L.isLegal env = true)
    (hpasses : L.tokens.all env.settings.grammar.passes = true)
    (hdims : L.more.all (·.dims.isEmpty) = true)
    (hkeyword : env.settings.grammar.passes (.word "typedef") = true)
    (h : TokenStream.Supplies ⟨feed, none⟩ (.word "typedef" :: (L.tokens ++ [.sep ";"]))) :
    ∃ s u : Scanner σ, Scanner.run env feed = .ok () u ∧ s.findings = []
      ∧ Scanner.Finds .typedef L.recorded s u := by
  simp only [isLegal, Bool.and_eq_true] at hL
  obtain ⟨⟨hstart, hlegal⟩, hworded⟩ := hL
  obtain ⟨u, us, htokens, hmore, hbracket, hcolon⟩ := L.exists_tail
  have hall : (Token.word "typedef" :: (L.tokens ++ [.sep ";"])).all env.settings.grammar.passes
      = true := by
    rw [List.all_cons, List.all_append, hpasses, hkeyword]
    rfl
  rw [← List.append_nil (L.tokens ++ _)] at h
  obtain ⟨s, hs, hnothing, hscan⟩ := Scanner.exists_opening env rfl hall h
  rw [htokens] at hs
  obtain ⟨s', hrun, hs', hkept⟩ := LeadsTo.wholeDeclaration_typedef hlegal rfl
    (WrittenParam.signature_named ..) hbracket hcolon _ s hs.toAny
  obtain ⟨type, hloop⟩ := Declares.loop_typedefRound env (fun st : TokenStream σ => st.Supplies [])
    L.opening.text hdims ⟨L.first.name, L.opening.text⟩
  rw [hmore] at hloop
  obtain ⟨s'', hrun', hs'', hfound⟩ := hloop _ s' rfl hs'.toAny
  rw [hrun, run_bind, hrun', andThen_ok] at hscan
  obtain ⟨v, hfinish, hfindings⟩ := Scanner.exists_finish env hs''.context_eq.2 (.inl rfl)
  have hend : Scanner.Finds .typedef [] s'' v := .nothing hfindings
  refine ⟨s', v, hscan.trans hfinish, hkept.trans hnothing, ?_⟩
  have hnames := hfound.trans hend
  rw [List.append_nil, text_opening hworded] at hnames
  exact hnames

/-- The recorded names are as distinct as those of the list. -/
theorem nodup_recorded (h : L.names.Nodup) : (L.recorded.map Declarator.name).Nodup :=
  (names_recordedFrom ..).sublist.nodup h

theorem mem_names {d : Declarator} (h : d ∈ L.recorded) : d.name ∈ L.names :=
  (names_recordedFrom ..).subset (List.mem_map_of_mem h)

end DeclaratorList

end Scan

/-- **Each name of a list is recorded**, as a variable or as a typedef, with the type that
`DeclaratorList.recorded` tells, and nothing else is. Where no name gets in the way of another, this
is what is declared. -/
theorem listed_of_declaratorList {σ : Type} [Feed σ] [LawfulFeed σ] {o : ScanOptions}
    {file : String} {L : DeclaratorList} (hL : L.isLegal (o.env file) = true)
    (hpasses : L.tokens.all o.settings.grammar.passes = true) (hnames : L.names.Nodup)
    (hadmits : ∀ name ∈ L.names, Catalog.admits name = true) :
    (∀ feed : σ, TokenStream.Supplies ⟨feed, none⟩ (L.tokens ++ [.sep ";"]) →
        ∃ C, (Catalog.ofFeed o file feed).result = .ok C ∧ C.Lists .var L.recorded)
      ∧ (L.more.all (·.dims.isEmpty) = true →
        o.settings.grammar.passes (.word "typedef") = true →
        ∀ feed : σ,
          TokenStream.Supplies ⟨feed, none⟩ (.word "typedef" :: (L.tokens ++ [.sep ";"])) →
          ∃ C, (Catalog.ofFeed o file feed).result = .ok C ∧ C.Lists .typedef L.recorded)
      ∧ (L.isUncrowded = true → L.recorded = L.declared) := by
  have hadmits' : ∀ d ∈ L.recorded, Catalog.admits d.name = true :=
    fun d hd => hadmits d.name (DeclaratorList.mem_names hd)
  refine ⟨fun feed h => ?_, fun hdims hkeyword feed h => ?_, DeclaratorList.recorded_eq_declared⟩
  · obtain ⟨s, u, hrun, hs, hfound⟩ := DeclaratorList.exists_run_variables hL hpasses h
    exact Catalog.exists_lists hrun hs hfound (DeclaratorList.nodup_recorded hnames) hadmits'
  · obtain ⟨s, u, hrun, hs, hfound⟩ :=
      DeclaratorList.exists_run_typedefs hL hpasses hdims hkeyword h
    exact Catalog.exists_lists hrun hs hfound (DeclaratorList.nodup_recorded hnames) hadmits'

/-- A name, a pointer and a pointer to a pointer, the last with or without dimensions. -/
def threeNames (dims : Dimensions) (hdims : dims.areLegal = true) : DeclaratorList where
  type := .int
  first := ⟨[], "a", [], rfl, rfl⟩
  more := [⟨[⟨.operator, "*"⟩], "b", [], rfl, rfl⟩, ⟨[⟨.operator, "**"⟩], "c", dims, rfl, hdims⟩]

/-- What they declare, given the dimensions as they are written. -/
def threeTypes (dims : String) : List Declarator :=
  [⟨"a", "int"⟩, ⟨"b", "int *"⟩, ⟨"c", "int **" ++ dims⟩]

/-- They are recorded as they are declared, as variables and as typedefs. -/
theorem listed_of_threeNames :
    (∃ C, (Catalog.ofFeed {} "a.h"
          ((threeNames [[.word "2"]] (by decide)).tokens ++ [.sep ";"])).result = .ok C
        ∧ C.Lists .var (threeTypes "[2]"))
      ∧ ∃ C, (Catalog.ofFeed {} "a.h"
            (.word "typedef" :: ((threeNames [] (by decide)).tokens ++ [.sep ";"]))).result = .ok C
          ∧ C.Lists .typedef (threeTypes "") := by
  constructor
  · have hlegal : (threeNames [[.word "2"]] (by decide)).isLegal (ScanOptions.env {} "a.h")
        = true := by
      decide +kernel
    obtain ⟨hvariables, -, hdeclared⟩ := listed_of_declaratorList (σ := List Token) hlegal
      (by decide +kernel) (by decide +kernel) (by decide +kernel)
    have hrecorded : (threeNames [[.word "2"]] (by decide)).recorded = threeTypes "[2]" :=
      (hdeclared rfl).trans (by decide +kernel)
    rw [← hrecorded]
    exact hvariables _ (TokenStream.supplies_list _)
  · have hlegal : (threeNames [] (by decide)).isLegal (ScanOptions.env {} "a.h") = true := by
      decide +kernel
    obtain ⟨-, htypedefs, hdeclared⟩ := listed_of_declaratorList (σ := List Token) hlegal
      (by decide +kernel) (by decide +kernel) (by decide +kernel)
    have hrecorded : (threeNames [] (by decide)).recorded = threeTypes "" :=
      (hdeclared rfl).trans (by decide +kernel)
    rw [← hrecorded]
    exact htypedefs rfl (by decide +kernel) _ (TokenStream.supplies_list _)

/-- Three names of which the first has an operator and the second has a dimension. -/
def crowdedNames : DeclaratorList where
  type := .int
  first := ⟨[⟨.operator, "*"⟩], "a", [], rfl, rfl⟩
  more := [⟨[], "b", [[.word "3"]], rfl, rfl⟩, ⟨[], "c", [], rfl, rfl⟩]

/-- The second variable has the operator of the first in its type, and the third is taken in by
the dimension. As a typedef, the list is refused. -/
theorem recorded_of_crowdedList :
    crowdedNames.isLegal (ScanOptions.env {} "a.h") = true ∧ crowdedNames.names.Nodup
      ∧ crowdedNames.names.all Catalog.admits = true
      ∧ crowdedNames.tokens.all Settings.builtin.grammar.passes = true
      ∧ crowdedNames.declared = [⟨"a", "int *"⟩, ⟨"b", "int[3]"⟩, ⟨"c", "int"⟩]
      ∧ (Catalog.ofFeed {} "a.h" (crowdedNames.tokens ++ [.sep ";"])).result.toOption.map
          (fun C => C.vars.values.map fun e => (e.name, e.detail))
        = some [("a", some (.type "int *")), ("b", some (.type "int *[3],c"))]
      ∧ (Catalog.ofFeed {} "a.h" (.word "typedef" :: (crowdedNames.tokens ++ [.sep ";"]))).failure?
        = some (.malformed "parsing typedef: expecting ';', got sep '['" ⟨"a.h", 1⟩) := by
  decide +kernel

end HeaderAtlas
