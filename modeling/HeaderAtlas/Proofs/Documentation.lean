import HeaderAtlas.Proofs.DeclarationGuards

/-!
# Which comment documents a declaration

A comment is kept until the declaration after it has been read. The comment before the
next declaration is taken in when the token that ends this one is passed. A prototype
forgets its comment after that step, and not before it: so it forgets the comment of the
next declaration instead of its own.

Hence what is recorded of an item with a comment of its own before it is what this comment
says, unless the last declaration before the item is a prototype: then the item is recorded
as if it had no comment. Macros are spared, since they are recorded in the course of that
step.
-/

namespace HeaderAtlas

variable {env : ScanEnv}

/-- Does the comment start like that of a declaration? Such a comment replaces the pending
one. -/
def isDoc (doc : String) : Bool := Text.startsWith ['*'] doc.toList

/-- A comment that starts like that of a declaration is the pending one afterwards. -/
theorem Aside.comment_after_of_doc (env : ScanEnv) {doc : String} (hdoc : isDoc doc = true)
    (c : Context) :
    (Aside.after env c (.comment doc)).comment = some doc := by
  rw [Aside.after]
  cases c.comment with
  | none => rfl
  | some p => exact congrArg some (if_pos hdoc)

/-- Is it an ignored word? -/
def Aside.isIgnored : Aside → Bool
  | ignored .. => true
  | comment _ | directive .. => false

theorem Aside.afterAll_of_ignored {as : List Aside} (h : as.all isIgnored = true) (c : Context) :
    afterAll env c as = c := by
  induction as generalizing c with
  | nil => rfl
  | cons a as ih =>
    rw [List.all_cons, Bool.and_eq_true] at h
    cases a with
    | ignored => exact ih h.2 c
    | comment => cases h.1
    | directive => cases h.1

namespace Item

/-- Does it stand between declarations? -/
def isAside : Item → Bool
  | aside _ => true
  | _ => false

def isPrototype : Item → Bool
  | prototype .. => true
  | _ => false

/-- Is the comment of the next declaration lost after these items? That is so if the last
declaration among them is a prototype. -/
def loses (items : List Item) : Bool := (items.filter (!·.isAside)).getLast?.any isPrototype

theorem lost_after (st : Standing) (i : Item) :
    (i.after env st).lost = if i.isAside then st.lost else i.isPrototype := by
  cases i <;> rfl

theorem lost_afterAll (st : Standing) (items : List Item) :
    (afterAll env st items).lost
      = ((items.filter (!·.isAside)).getLast?.map isPrototype).getD st.lost := by
  induction items generalizing st with
  | nil => rfl
  | cons i items ih =>
    refine (ih (i.after env st)).trans ?_
    rw [lost_after, List.filter_cons]
    cases i.isAside with
    | true => rfl
    | false =>
      rw [Bool.not_false, if_pos rfl, List.getLast?_cons]
      cases (items.filter (!·.isAside)).getLast? <;> rfl

theorem lost_afterAll_standing (items : List Item) :
    (afterAll env env.standing items).lost = loses items := by
  rw [lost_afterAll, loses]
  cases (items.filter (!·.isAside)).getLast? <;> rfl

/-- The comment that an item is recorded with, after its own comment and what comes before
that. -/
def comment? (before : List Item) (doc : String) (i : Item) : Option String :=
  if !i.isAside && loses before then none else some doc

/-- An item with a comment of its own is recorded with it, unless it is lost. -/
theorem recordedIn_of_doc {before : List Item} {doc : String} {i : Item} (hdoc : isDoc doc = true)
    (hbare : (Cell.allAsides i.cells).all Aside.isIgnored = true) :
    (i.recordedIn env (afterAll env env.standing (before ++ [.aside (.comment doc)]))).comment
      = i.comment? before doc := by
  generalize hst : afterAll env env.standing (before ++ [.aside (.comment doc)]) = st
  have hlost : st.lost = loses before := by
    rw [← hst, afterAll, List.foldl_append]
    exact lost_afterAll_standing before
  have hcomment : st.context.comment = some doc := by
    rw [← hst, afterAll, List.foldl_append]
    exact Aside.comment_after_of_doc env hdoc _
  -- A declaration is recorded in the context that it opens with, where a comment may be lost.
  have hdeclaration : (Aside.afterAll env st.opening (Cell.allAsides i.cells)).comment
      = if loses before then none else some doc := by
    rw [Aside.afterAll_of_ignored hbare, Standing.opening, hlost]
    cases loses before with
    | true => rfl
    | false => exact hcomment
  cases i with
  | aside => exact hcomment
  | _ => exact hdeclaration

end Item

/-- **What is recorded of an item with its own comment.** In a file that is written as a list
of items, with no name declared twice in the same table, the entry of a function, a typedef
or a macro is what its own comment says, whatever comes before it. The exception is an item
other than a macro, if the last declaration before it is a prototype: its entry is made
without a comment. -/
theorem entry_of_documented_item {σ : Type} [Feed σ] [LawfulFeed σ] {o : ScanOptions}
    {file : String} {feed : σ} {C : Catalog} {before after : List Item} {doc : String} {i : Item}
    {shelf : Shelf} {name : String}
    (hlegal : (before ++ .aside (.comment doc) :: i :: after).all
      (Item.isLegal (o.env file)) = true)
    (hdoc : isDoc doc = true) (hbare : (Cell.allAsides i.cells).all Aside.isIgnored = true)
    (hnodup : ((before ++ .aside (.comment doc) :: i :: after).filterMap
      (Item.key? (o.env file))).Nodup)
    (hkey : i.key? (o.env file) = some (shelf, name)) (hadmits : Catalog.admits name = true)
    (hfeed : TokenStream.Supplies ⟨feed, none⟩
      ((before ++ .aside (.comment doc) :: i :: after).flatMap Item.tokens))
    (hC : (Catalog.ofFeed o file feed).result = .ok C) :
    ∃ g e, i.gist? (o.env file) ⟨i.comment? before doc,
          (before.flatMap Item.directives).foldl Guards.obey
            { marker := o.settings.grammar.guardMarker }⟩ = some g
      ∧ (C.table shelf).get? name = some e ∧ e.category = g.category ∧ e.guards = g.guards
      ∧ e.detail = g.detail ∧ e.extra = g.extra := by
  rw [List.append_cons] at hlegal hnodup hfeed
  obtain ⟨g, e, hg, hentry⟩ := Catalog.exists_entry hlegal hnodup hkey hadmits hfeed hC
  simp only [List.all_append, List.all_cons, Bool.and_eq_true] at hlegal
  refine ⟨g, e, ?_, hentry⟩
  have hcomment : (i.recordedIn (o.env file) (Item.afterAll (o.env file) (o.env file).standing
      (before ++ [.aside (.comment doc)]))).comment = _ := Item.recordedIn_of_doc hdoc hbare
  have hguards : (i.recordedIn (o.env file) (Item.afterAll (o.env file) (o.env file).standing
        (before ++ [.aside (.comment doc)]))).guards
      = (before.flatMap Item.directives).foldl Guards.obey
        { marker := o.settings.grammar.guardMarker } := by
    rw [Item.guards_recordedIn hlegal.2.1, Item.afterAll, List.foldl_append]
    exact Item.guards_afterAll hlegal.1.1 (o.env file).standing
  rw [← hcomment, ← hguards]
  exact hg

/-- A prototype, a definition and a macro, each with its comment. -/
def documentedItems : List Item :=
  let f : Signature := ⟨.none, .int, "f", []⟩
  let g : Signature := ⟨.static, .int, "g", []⟩
  let cells := List.map fun t => Cell.mk [] (.plain t)
  [.aside (.comment "*\n* f:\n*\n* First.\n"), .prototype f (cells (f.tokens ++ [.sep ";"])),
    .aside (.comment "*\n* g:\n*\n* Second.\n"),
    .definition g (cells (g.tokens ++ [.sep "\x7b"]))
      [⟨[.comment " nothing "], .plain (.sep "\x7d")⟩],
    .aside (.comment "*\n* M:\n*\n* Third.\n"), .aside (.directive "#define" ["M", "1"])]

/-- A typedef after them. -/
def documentedTypedef : Item :=
  .typedef ⟨.int, "T", []⟩
    [⟨[], .plain (.word "typedef")⟩, ⟨[], .plain (.word "int")⟩, ⟨[], .plain (.word "T")⟩,
      ⟨[], .plain (.sep ";")⟩]

theorem entry_of_documentedTypedef :
    ∃ C e, (Catalog.ofFeed {} "a.h" ((documentedItems
          ++ .aside (.comment "*\n* T:\n*\n* Fourth.\n") :: [documentedTypedef]).flatMap
        Item.tokens)).result = .ok C
      ∧ (C.table .typedefs).get? "T" = some e ∧ e.extra = some "Fourth." := by
  obtain ⟨C, hC⟩ : ∃ C, (Catalog.ofFeed {} "a.h" ((documentedItems
        ++ .aside (.comment "*\n* T:\n*\n* Fourth.\n") :: [documentedTypedef]).flatMap
      Item.tokens)).result = .ok C :=
    Outcome.exists_ok (by decide +kernel)
  obtain ⟨g, e, hg, he, -, -, -, hextra⟩ := entry_of_documented_item (by decide +kernel)
    (by decide +kernel) (by decide +kernel) (by decide +kernel)
    (show documentedTypedef.key? (ScanOptions.env {} "a.h") = some (.typedefs, "T") by
      decide +kernel)
    (by decide +kernel) (TokenStream.supplies_list _) hC
  cases hg
  exact ⟨C, e, hC, he, hextra.trans (by decide +kernel)⟩

/-- Two prototypes, each with its comment. -/
def twoPrototypes : String :=
  "/**\n * f:\n *\n * First.\n */\nint f(int x);\n/**\n * g:\n *\n * Second.\n */\nint g(int y);\n"

/-- The comment of the second one is lost. -/
theorem documentation_of_twoPrototypes :
    ((Catalog.ofText {} "a.h" twoPrototypes).result.toOption.bind
        (·.functions.get? "g")).bind Entry.function?
      = some (DocBlock.readFunction none "g" "int" [⟨"int", some "y", none⟩]).value
    ∧ (DocBlock.readFunction none "g" "int" [⟨"int", some "y", none⟩]).value
      ≠ (DocBlock.readFunction (some "*\n* g:\n*\n* Second.\n") "g" "int"
        [⟨"int", some "y", none⟩]).value := by
  exact ⟨by decide +kernel, by decide +kernel⟩

end HeaderAtlas
