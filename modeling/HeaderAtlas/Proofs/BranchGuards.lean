import HeaderAtlas.Proofs.DeclarationGuards

/-!
# Guards and the branches that are kept

A conditional has a first branch, any number of `#elif` branches and at most one `#else`
branch. The preprocessor keeps the first of them whose test holds, and the `#else` branch if
no test does. A declaration is kept if it stands in the branch that is kept of every
conditional around it.

The guards of a scan follow these conditionals one to one, but not all of their branches:
`#elif` is passed over, so that its branch goes by the guard of the first one
(`Guards.Mirrors`). When such a branch is kept, that guard does not hold. The guards of all
other branches do (`Branch.holds_guard`), also of an `#else` that comes after an `#elif`.
-/

namespace HeaderAtlas

/-! ## Branches -/

/-- The test of a first branch. -/
inductive Condition where
  /-- `#ifdef` -/
  | defined (name : String)
  /-- `#ifndef` -/
  | undefined (name : String)
  /-- `#if` -/
  | expression (text : String)
deriving DecidableEq, Repr

/-- Which macros are defined, and which expressions hold. -/
structure Assignment where
  defined : String → Bool
  holds : String → Bool

namespace Condition

/-- Is the condition met? -/
def isMet (a : Assignment) : Condition → Bool
  | defined name => a.defined name
  | undefined name => !a.defined name
  | expression text => a.holds text

/-- The condition as an expression. -/
def text : Condition → String
  | defined name => "defined(" ++ name ++ ")"
  | undefined name => "!defined(" ++ name ++ ")"
  | expression text => text

/-- Is it of interest? This goes by what is written after the directive's word. -/
def isMarked (marker : String) : Condition → Bool
  | defined name | undefined name => Text.containsText marker name
  | expression text => Text.containsText marker text

end Condition

/-- The assignment takes the text of the condition at its word, that is `defined(X)` and
`!defined(X)`, and also the text of its opposite, `!(e)`. -/
structure Assignment.Reads (a : Assignment) (c : Condition) : Prop where
  text : a.holds c.text = c.isMet a
  opposite : a.holds ("!(" ++ c.text ++ ")") = !a.holds c.text

/-- The branch of a conditional that something stands in. -/
structure Branch where
  first : Condition
  /-- The expressions after `#elif`, up to this branch. The latest is first. -/
  others : List String := []
  /-- Is it the `#else` branch? -/
  inElse : Bool := false
deriving DecidableEq, Repr

namespace Branch

/-- Is it an `#elif` branch? -/
def inElif (b : Branch) : Bool := !b.inElse && !b.others.isEmpty

/-- The tests up to this branch. The latest is first. -/
def tests (a : Assignment) (b : Branch) : List Bool := b.others.map a.holds ++ [b.first.isMet a]

/-- Does the preprocessor keep the branch? Its own test holds and none before it does. An
`#else` has no test of its own. -/
def isKept (a : Assignment) (b : Branch) : Bool :=
  match b.inElse, b.tests a with
  | true, tests => tests.all (!·)
  | false, own :: earlier => own && earlier.all (!·)
  | false, [] => false

/-- The guard that is recorded for the branch. -/
def guard (b : Branch) : String := if b.inElse then "!(" ++ b.first.text ++ ")" else b.first.text

/-- The branches around the place after a directive, when `bs` are around the place before
it. The innermost is first. An `#elif` or `#else` has to continue a conditional that is open
and has had no `#else`, and an `#endif` has to close one. -/
def step (bs : List Branch) (d : Directive) : Option (List Branch) :=
  match d.word with
  | "#ifdef" => some ({ first := .defined (d.args.headD "") } :: bs)
  | "#ifndef" => some ({ first := .undefined (d.args.headD "") } :: bs)
  | "#if" => some ({ first := .expression (" ".intercalate d.args) } :: bs)
  | "#elif" =>
    match bs with
    | [] => none
    | b :: bs =>
      if b.inElse then none else some ({ b with others := " ".intercalate d.args :: b.others } :: bs)
  | "#else" =>
    match bs with
    | [] => none
    | b :: bs => if b.inElse then none else some ({ b with inElse := true } :: bs)
  | "#endif" =>
    match bs with
    | [] => none
    | _ :: bs => some bs
  | _ => some bs

/-- The branches around the place after several directives. -/
def around (ds : List Directive) : Option (List Branch) := ds.foldlM step []

/-- In a branch that is kept, the recorded guard holds unless it is an `#elif` branch. -/
theorem holds_guard {a : Assignment} {b : Branch} (hreads : a.Reads b.first)
    (hkept : b.isKept a = true) : a.holds b.guard = !b.inElif := by
  obtain ⟨first, others, inElse⟩ := b
  cases inElse with
  | true =>
    have hfirst : first.isMet a = false := by simp_all [isKept, tests]
    simp [guard, inElif, hreads.opposite, hreads.text, hfirst]
  | false =>
    cases others with
    | nil =>
      have hfirst : first.isMet a = true := by simpa [isKept, tests] using hkept
      simp [guard, inElif, hreads.text, hfirst]
    | cons e others =>
      -- The first test is among those before this branch.
      have hfirst : first.isMet a = false := by simp_all [isKept, tests]
      simp [guard, inElif, hreads.text, hfirst]

end Branch

/-! ## The guards of a scan -/

/-- There is a frame for each branch, and a guard for each one that is of interest. -/
structure Guards.Mirrors (g : Guards) (bs : List Branch) : Prop where
  frames : g.frames = bs.map (·.first.isMarked g.marker)
  held : g.held = (bs.filter (·.first.isMarked g.marker)).map Branch.guard

namespace Guards.Mirrors

variable {g : Guards} {bs bs' : List Branch} {b : Branch}

theorem enter (h : g.Mirrors bs) (c : Condition) {guard : String}
    (hmarked : c.isMarked g.marker = Text.containsText g.marker guard) :
    (g.enter guard c.text).Mirrors ({ first := c } :: bs) := by
  unfold Guards.enter
  split
  · next hin =>
    exact ⟨by simp [hmarked, hin, h.frames], by simp [hmarked, hin, h.held, Branch.guard]⟩
  · next hin => exact ⟨by simp [hmarked, hin, h.frames], by simp [hmarked, hin, h.held]⟩

theorem flip (h : g.Mirrors (b :: bs)) (hb : b.inElse = false) :
    g.flip.Mirrors ({ b with inElse := true } :: bs) := by
  cases hin : b.first.isMarked g.marker with
  | true =>
    exact ⟨by simp [Guards.flip, h.frames, h.held, hin],
      by simp [Guards.flip, h.frames, h.held, hin, Branch.guard, hb]⟩
  | false =>
    exact ⟨by simp [Guards.flip, h.frames, hin], by simp [Guards.flip, h.frames, h.held, hin]⟩

theorem leave (h : g.Mirrors (b :: bs)) : g.leave.Mirrors bs := by
  cases hin : b.first.isMarked g.marker with
  | true =>
    exact ⟨by simp [Guards.leave, h.frames, hin], by simp [Guards.leave, h.frames, h.held, hin]⟩
  | false =>
    exact ⟨by simp [Guards.leave, h.frames, hin], by simp [Guards.leave, h.frames, h.held, hin]⟩

/-- An `#elif` branch has the guard of the first one. -/
theorem elif (h : g.Mirrors (b :: bs)) (e : String) :
    g.Mirrors ({ b with others := e :: b.others } :: bs) := by
  refine ⟨h.frames, h.held.trans ?_⟩
  cases hin : b.first.isMarked g.marker <;> simp [hin, Branch.guard]

theorem obey (h : g.Mirrors bs) {d : Directive} (hd : Branch.step bs d = some bs') :
    (g.obey d).Mirrors bs' := by
  obtain ⟨word, args⟩ := d
  unfold Branch.step at hd
  dsimp only at hd
  split at hd
  · cases hd
    exact h.enter (.defined _) rfl
  · cases hd
    exact h.enter (.undefined _) rfl
  · cases hd
    exact h.enter (.expression _) rfl
  · split at hd
    · cases hd
    · split at hd
      · cases hd
      · cases hd
        exact h.elif _
  · split at hd
    · cases hd
    · split at hd
      · cases hd
      · next hb =>
        cases hd
        exact h.flip (by simpa using hb)
  · split at hd
    · cases hd
    · cases hd
      exact h.leave
  · next hifdef hifndef hif helif helse hendif =>
    cases hd
    have hsame : g.obey ⟨word, args⟩ = g := by
      unfold Guards.obey
      split <;> simp_all
    rwa [hsame]

theorem obeyAll (h : g.Mirrors bs) {ds : List Directive}
    (hds : ds.foldlM Branch.step bs = some bs') : (ds.foldl Guards.obey g).Mirrors bs' := by
  induction ds generalizing g bs with
  | nil =>
    cases hds
    exact h
  | cons d ds ih =>
    rw [List.foldlM_cons] at hds
    obtain ⟨bs₁, hd, hds⟩ := Option.bind_eq_some_iff.mp hds
    exact ih (h.obey hd) hds

end Guards.Mirrors

theorem Guards.marker_foldl_obey (g : Guards) (ds : List Directive) :
    (ds.foldl Guards.obey g).marker = g.marker := by
  induction ds generalizing g with
  | nil => rfl
  | cons d ds ih => rw [List.foldl_cons, ih, Guards.marker_obey]

/-- The guards that are active after several directives are those of the branches around
that place, from the outermost to the innermost. -/
theorem Branch.active_obey {marker : String} {ds : List Directive} {bs : List Branch}
    (h : Branch.around ds = some bs) :
    (ds.foldl Guards.obey { marker }).active
      = ((bs.filter (·.first.isMarked marker)).map Branch.guard).reverse := by
  have hstart : Guards.Mirrors { marker } [] := ⟨rfl, rfl⟩
  have hheld := (hstart.obeyAll h).held
  rw [Guards.marker_foldl_obey] at hheld
  exact congrArg List.reverse hheld

/-! ## Declarations that are kept -/

/-- **The guards of a declaration hold when it is kept, outside of `#elif` branches.** Let
an item of a file stand in branches that are all kept under an assignment. Its guards are
those of the branches that are of interest. They all hold if none of these is an `#elif`
branch, and only then. -/
theorem guards_of_keptBranches {σ : Type} [Feed σ] [LawfulFeed σ] {o : ScanOptions}
    {file : String} {feed : σ} {C : Catalog} {before after : List Item} {i : Item}
    {shelf : Shelf} {name : String} {bs : List Branch} {a : Assignment}
    (hlegal : (before ++ i :: after).all (Item.isLegal (o.env file)) = true)
    (hnodup : ((before ++ i :: after).filterMap (Item.key? (o.env file))).Nodup)
    (hkey : i.key? (o.env file) = some (shelf, name)) (hadmits : Catalog.admits name = true)
    (hfeed : TokenStream.Supplies ⟨feed, none⟩ ((before ++ i :: after).flatMap Item.tokens))
    (hC : (Catalog.ofFeed o file feed).result = .ok C)
    (haround : Branch.around (before.flatMap Item.directives) = some bs)
    (hkept : ∀ b ∈ bs, b.isKept a = true) (hreads : ∀ b ∈ bs, a.Reads b.first) :
    ∃ e, (C.table shelf).get? name = some e
      ∧ e.guards = ((bs.filter (·.first.isMarked o.settings.grammar.guardMarker)).map
          Branch.guard).reverse
      ∧ ((∀ g ∈ e.guards, a.holds g = true) ↔
          ∀ b ∈ bs, b.first.isMarked o.settings.grammar.guardMarker = true → b.inElif = false) := by
  obtain ⟨g, e, hg, he, -, hguards, -⟩ :=
    Catalog.exists_entry hlegal hnodup hkey hadmits hfeed hC
  rw [List.all_append, List.all_cons, Bool.and_eq_true, Bool.and_eq_true] at hlegal
  have hactive : e.guards = ((bs.filter (·.first.isMarked o.settings.grammar.guardMarker)).map
      Branch.guard).reverse := by
    rw [hguards, Item.guards_gist? hg, Item.guards_recordedIn hlegal.2.1,
      Item.guards_afterAll hlegal.1]
    exact Branch.active_obey haround
  refine ⟨e, he, hactive, ?_⟩
  rw [hactive]
  constructor
  · intro hall b hb hmarked
    have hholds := hall b.guard (by
      simp only [List.mem_reverse, List.mem_map, List.mem_filter]
      exact ⟨b, ⟨hb, hmarked⟩, rfl⟩)
    rw [Branch.holds_guard (hreads b hb) (hkept b hb)] at hholds
    simpa using hholds
  · intro hall g hg
    simp only [List.mem_reverse, List.mem_map, List.mem_filter] at hg
    obtain ⟨b, ⟨hb, hmarked⟩, rfl⟩ := hg
    rw [Branch.holds_guard (hreads b hb) (hkept b hb), hall b hb hmarked]
    rfl

/-- `int NAME();` -/
def plainPrototype (name : String) : Item :=
  let f : Signature := ⟨.none, .int, name, []⟩
  .prototype f ((f.tokens ++ [Token.sep ";"]).map fun t => ⟨[], .plain t⟩)

/-- A conditional with three branches inside of another one, up to its `#else`. -/
def branchedItems : List Item :=
  [.aside (.directive "#ifdef" ["FOO_ENABLED"]), .aside (.directive "#if" ["A_ENABLED"]),
    plainPrototype "f", .aside (.directive "#elif" ["B_ENABLED"]), plainPrototype "g",
    .aside (.directive "#else" [])]

/-- A prototype in the `#else`, and the ends of both conditionals. -/
def branchedFile : List Item :=
  branchedItems ++ plainPrototype "h" ::
    [.aside (.directive "#endif" []), .aside (.directive "#endif" [])]

/-- Only `FOO_ENABLED` is defined, and neither expression holds. -/
def fooOnly : Assignment where
  defined name := name == "FOO_ENABLED"
  holds text := text == "defined(FOO_ENABLED)" || text == "!(A_ENABLED)"

theorem guards_of_elseBranch :
    ∃ C e, (Catalog.ofFeed {} "a.h" (branchedFile.flatMap Item.tokens)).result = .ok C
      ∧ C.functions.get? "h" = some e ∧ e.guards = ["defined(FOO_ENABLED)", "!(A_ENABLED)"]
      ∧ ∀ g ∈ e.guards, fooOnly.holds g = true := by
  obtain ⟨C, hC⟩ :
      ∃ C, (Catalog.ofFeed {} "a.h" (branchedFile.flatMap Item.tokens)).result = .ok C :=
    Outcome.exists_ok (by decide +kernel)
  have haround : Branch.around (branchedItems.flatMap Item.directives)
      = some [⟨.expression "A_ENABLED", ["B_ENABLED"], true⟩,
          ⟨.defined "FOO_ENABLED", [], false⟩] := by decide +kernel
  have hreads : ∀ b ∈ ([⟨.expression "A_ENABLED", ["B_ENABLED"], true⟩,
      ⟨.defined "FOO_ENABLED", [], false⟩] : List Branch), fooOnly.Reads b.first := by
    simp only [List.forall_mem_cons]
    exact ⟨⟨by decide, by decide⟩, ⟨by decide, by decide⟩, nofun⟩
  obtain ⟨e, he, hguards, hiff⟩ := guards_of_keptBranches (by decide +kernel) (by decide +kernel)
    (show (plainPrototype "h").key? (ScanOptions.env {} "a.h") = some (.functions, "h") by
      decide +kernel)
    (by decide +kernel) (TokenStream.supplies_list _) hC haround (by decide +kernel) hreads
  exact ⟨C, e, hC, he, hguards.trans (by decide +kernel), hiff.mpr (by decide +kernel)⟩

/-- A prototype, and the start of an `#elif` branch after it. -/
def elifItems : List Item :=
  [.aside (.directive "#if" ["A_ENABLED"]), plainPrototype "f",
    .aside (.directive "#elif" ["B_ENABLED"])]

/-- A prototype in the `#elif` branch, and the end of the conditional. -/
def elifFile : List Item :=
  elifItems ++ plainPrototype "g" :: [.aside (.directive "#endif" [])]

/-- The second expression holds, and the first does not. -/
def secondOnly : Assignment where
  defined _ := false
  holds text := text == "B_ENABLED" || text == "!(A_ENABLED)"

/-- The `#elif` branch is kept, but its prototype has a guard that does not hold. -/
theorem guards_of_elifBranch :
    Branch.around (elifFile.flatMap Item.directives) = some []
    ∧ ∃ b C e, Branch.around (elifItems.flatMap Item.directives) = some [b]
      ∧ b.isKept secondOnly = true ∧ secondOnly.Reads b.first
      ∧ (Catalog.ofFeed {} "a.h" (elifFile.flatMap Item.tokens)).result = .ok C
      ∧ C.functions.get? "g" = some e ∧ ∃ g ∈ e.guards, secondOnly.holds g = false := by
  refine ⟨by decide +kernel, ⟨.expression "A_ENABLED", ["B_ENABLED"], false⟩, ?_⟩
  have hany : (Catalog.ofFeed {} "a.h" (elifFile.flatMap Item.tokens)).result.toOption.any
      (fun C => (C.functions.get? "g").any fun e =>
        e.guards.any fun g => !secondOnly.holds g) = true := by decide +kernel
  obtain ⟨C, hC, hentry⟩ := (Option.any_eq_true ..).mp hany
  obtain ⟨e, he, hguard⟩ := (Option.any_eq_true ..).mp hentry
  obtain ⟨g, hg, hfalse⟩ := List.any_eq_true.mp hguard
  exact ⟨C, e, by decide +kernel, by decide +kernel, ⟨by decide, by decide⟩,
    Outcome.eq_ok_of_toOption hC, he, g, hg, by simpa using hfalse⟩

end HeaderAtlas
