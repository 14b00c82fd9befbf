import HeaderAtlas.Proofs.Lexer.Append
import HeaderAtlas.Proofs.Scanner.Items

/-!
# What later text does to earlier entries

The reader is one token ahead of what it records. When the `;` of a variable, a struct or
a union is passed, the directives after it have been carried out already, and the entry
is made under the guards and on the line of the token that comes next. A macro or an
inclusion is recorded when the token after its line has been read.

So text that is added to a file can change an entry of the file, though it does not
declare the name again: the guards and the line of what the last `;` declares, and the
line of what the last directive declares. These are the only ones (`entry_append`).
-/

namespace HeaderAtlas

open Catalog Ending

variable {σ : Type} [Feed σ] [LawfulFeed σ] {env : ScanEnv}

/-! ## What is recorded after the last token -/

namespace Closing

/-- What is recorded when the token that ends a declaration has been passed. -/
def finding? (env : ScanEnv) (guards : List String) (line : Nat) : Closing → Option Finding
  | declare ty d isStatic =>
    let var := .declaration d.name .var
      (env.observe guards line (some (.type d.type)) none (isStatic || env.isLocal))
    match ty.body with
    | some (a, fields) =>
      if ty.tag = some d.name && d.type = ty.text then
        some (.declaration d.name a.category
          (env.observe guards line (some (.fields fields)) none env.isLocal))
      else some var
    | none => some var
  | _ => none

/-- Is `name` recorded in a table when the token that ends the declaration has been
passed? -/
def declares (c : Closing) (shelf : Shelf) (name : String) : Bool :=
  match c with
  | declare ty d _ =>
    let category := match ty.body with
      | some (a, _) => if ty.tag = some d.name && d.type = ty.text then a.category else .var
      | none => .var
    category.shelf = shelf && d.name = name
  | _ => false

theorem finding?_moved (c : Closing) (guards guards' : List String) (line line' : Nat) :
    c.finding? env guards' line'
      = (c.finding? env guards line).map (·.moved line' (some guards')) := by
  cases c with
  | declare ty d isStatic =>
    unfold finding?
    dsimp only
    split
    · split <;> rfl
    · rfl
  | _ => rfl

theorem any_finding? (c : Closing) (guards : List String) (line : Nat) (shelf : Shelf)
    (name : String) :
    (c.finding? env guards line).any (·.isOf shelf name) = c.declares shelf name := by
  cases c with
  | declare ty d isStatic =>
    unfold finding? declares
    dsimp only
    split
    · split <;> rfl
    · rfl
  | _ => rfl

end Closing

namespace Reader

variable {inner : (r : Routine) → Scanner σ → Ending σ r.Result} {u s : Scanner σ}

/-- Recording an aggregate adds what it declares. -/
theorem recordAggregate_eq {a : Aggregate} {name : String} {fields : List Field}
    (h : (recordAggregate a name fields).run inner env u = .ok () s) :
    s.findings = u.findings ++ [.declaration name a.category (env.observe u.guards.active
        u.stream.line (some (.fields fields)) none env.isLocal)]
      ∧ s.current = u.current := by
  unfold recordAggregate at h
  split at h
  · rw [run_bind, run_env, andThen_ok, run_bind] at h
    cases hr : (enforce (WidthPolicy.inStruct? env.settings.width name fields)).run inner env u with
    | failed e v => rw [hr] at h; cases h
    | ok _ v =>
      rw [hr] at h
      cases h
      rcases enforce_eq hr with rfl | ⟨failure, rfl⟩
      · exact ⟨rfl, rfl⟩
      · exact ⟨rfl, rfl⟩
  · cases h
    exact ⟨rfl, rfl⟩

/-- What is left to do for a declaration adds what it declares, as seen from the token
that comes next. -/
theorem close_eq {c : Closing} (h : (close c).run inner env u = .ok () s) :
    s.findings = (u.advance env).findings ++ (c.finding? env (u.advance env).guards.active
        (u.advance env).stream.line).toList
      ∧ s.current = (u.advance env).current := by
  cases c with
  | nothing => cases h; exact ⟨(List.append_nil _).symm, rfl⟩
  | forget => cases h; exact ⟨(List.append_nil _).symm, rfl⟩
  | declare ty d isStatic =>
    rw [close, run_bind, run_advance, andThen_ok] at h
    cases hbody : ty.body with
    | none =>
      simp only [recordDeclarator, Closing.finding?, hbody] at h ⊢
      cases h
      exact ⟨rfl, rfl⟩
    | some p =>
      simp only [recordDeclarator, Closing.finding?, hbody] at h ⊢
      split at h
      · next htag =>
        rw [if_pos htag]
        exact recordAggregate_eq h
      · next htag =>
        rw [if_neg htag]
        cases h
        exact ⟨rfl, rfl⟩

end Reader

/-! ## Whole texts -/

/-- The text is made of whole items. It ends in a line break that belongs to no
continued line, and after the token that ends its last item, which is the current one in
`u`, there are no more tokens. What is left to do for that item is `c`. -/
structure WholeText (env : ScanEnv) (text : String) (c : Closing) (u : Scanner Lexer) :
    Prop where
  lineBreak : ∀ ch, text.toList.getLast? = some ch → ch = '\n'
  closed : (Pages.ofText text).Sealed
  reached : ItemEnd env (Lexer.ofText text) c u
  finished : (u.advance env).current = none

/-- The state after the last token of a whole text when more text follows it. -/
def Scanner.lookahead (env : ScanEnv) (more : String) (u : Scanner Lexer) : Scanner Lexer :=
  (u.withFeed (u.stream.feed.extend (Pages.ofText more).lines)).advance env

/-- Does the last directive after the current token declare `name` in a table? -/
def Scanner.trails (env : ScanEnv) (shelf : Shelf) (name : String) (u : Scanner σ) : Bool :=
  ((u.advance env).findings.drop u.findings.length).getLast?.any fun f =>
    f.ofDirective && f.isOf shelf name

/-- How often a text declares `name` in a table. -/
def timesDeclared (env : ScanEnv) (text : String) (shelf : Shelf) (name : String) : Nat :=
  (sightings shelf name (Scanner.run env (Lexer.ofText text)).state.findings).length

namespace WholeText

variable {a b : String} {c : Closing} {u : Scanner Lexer} {s s' : Scanner Lexer}

/-- The scan of a whole text is over when its last item is. -/
theorem findings_eq (h : WholeText env a c u) (hs : Scanner.run env (Lexer.ofText a) = .ok () s) :
    s.findings = (u.advance env).findings ++ (c.finding? env (u.advance env).guards.active
      (u.advance env).stream.line).toList := by
  rw [h.reached.run_eq] at hs
  cases hclose : (Reader.close c).run (Routine.run env) env u with
  | failed e v => rw [hclose] at hs; cases hs
  | ok _ v =>
    obtain ⟨hf, hcur⟩ := Reader.close_eq hclose
    have hround : (Reader.fileRound ()).run (Routine.run env) env v = .ok (.done ()) v := by
      rw [Reader.fileRound, Reader.run_bind, Reader.run_atEnd, andThen_ok, hcur, h.finished]
      rfl
    have hdone : (Reader.loop Reader.fileRound ()).run (Routine.run env) env v = .ok () v :=
      Scanner.iterate_done hround
    rw [hclose, andThen_ok, hdone] at hs
    cases hs
    exact hf

/-- The scan of the text with more text after it finds what its lookahead and the last
item come to, and keeps it. -/
theorem findings_append (h : WholeText env a c u)
    (hs' : Scanner.run env (Lexer.ofText (a ++ b)) = .ok () s') :
    Leads u.findings (u.advance env).findings (u.lookahead env b).findings
      ∧ (u.lookahead env b).findings ++ (c.finding? env (u.lookahead env b).guards.active
          (u.lookahead env b).stream.line).toList <+: s'.findings := by
  have hfollows := Lexer.follows (Pages.ofText b).lines
  have hfeed : Lexer.ofText (a ++ b) = (Lexer.ofText a).extend (Pages.ofText b).lines :=
    Lexer.ofText_append b h.lineBreak
  obtain ⟨u', hu', hstep⟩ := h.reached.follow hfollows ⟨h.closed, rfl⟩
  have hadvance := hfollows.advance env hstep
  obtain ⟨_, ⟨-, rfl⟩, rfl⟩ := hstep
  rw [hfeed, hu'.run_eq] at hs'
  refine ⟨?_, ?_⟩
  · rcases hadvance with ⟨_, -, heq⟩ | ⟨-, -, -, hleads⟩
    · -- The next token is found in the first text already.
      have hsame : (u.lookahead env b).findings = (u.advance env).findings := by
        rw [Scanner.lookahead, heq]
        rfl
      rw [hsame]
      exact .of_le (u.keeps_advance env).findings List.prefix_rfl
    · exact hleads
  · cases hclose : (Reader.close c).run (Routine.run env) env
        (u.withFeed (u.stream.feed.extend (Pages.ofText b).lines)) with
    | failed e v => rw [hclose] at hs'; cases hs'
    | ok _ v =>
      rw [hclose, andThen_ok] at hs'
      have hkeep := (findings_invariant env v.findings).reader
        (Reader.loop Reader.fileRound ()) v List.prefix_rfl
      rw [hs', (Reader.close_eq hclose).1] at hkeep
      exact hkeep

end WholeText

/-! ## Entries of a longer text -/

/-- The tables that a `;` fills. -/
theorem Closing.shelf_of_declares {c : Closing} {shelf : Shelf} {name : String}
    (h : c.declares shelf name = true) :
    shelf = .vars ∨ shelf = .structs ∨ shelf = .unions := by
  cases c with
  | declare ty d isStatic =>
    simp only [declares, Bool.and_eq_true, decide_eq_true_eq] at h
    obtain ⟨rfl, -⟩ := h
    split
    · next a _ _ => split <;> cases a <;> simp [Category.shelf, Aggregate.category]
    · simp [Category.shelf]
  | _ => cases h

/-- The tables that directives fill. -/
theorem Catalog.Finding.shelf_of_directive {f : Finding} {shelf : Shelf} {name : String}
    (hf : f.ofDirective = true) (h : f.isOf shelf name = true) :
    shelf = .macros ∨ shelf = .inclusions := by
  cases f with
  | use => cases h
  | declaration n category o =>
    simp only [isOf, Bool.and_eq_true, decide_eq_true_eq] at h
    obtain ⟨rfl, -⟩ := h
    simpa [ofDirective] using hf

/-- The findings of a whole text are kept when text is added, up to the places of the last
two. -/
theorem WholeText.foldl_see {a b : String} {c : Closing} {u s s' : Scanner Lexer}
    (h : WholeText env a c u) (hs : Scanner.run env (Lexer.ofText a) = .ok () s)
    (hs' : Scanner.run env (Lexer.ofText (a ++ b)) = .ok () s') {shelf : Shelf} {name : String}
    (honce : (sightings shelf name s'.findings).length = (sightings shelf name s.findings).length)
    {e : Entry} (he : (sightings shelf name s.findings).foldl see none = some e) :
    ∃ line, (sightings shelf name s'.findings).foldl see none
      = some (if c.declares shelf name then
            { e with
              line := (u.lookahead env b).stream.line
              guards := (u.lookahead env b).guards.active }
          else if u.trails env shelf name then { e with line } else e) := by
  obtain ⟨⟨xs, d, line, hd, hfs, hfirst⟩, hkept⟩ := h.findings_append hs'
  have hfindings := h.findings_eq hs
  rw [hfs] at hfindings
  rw [Closing.finding?_moved c (u.advance env).guards.active _ (u.advance env).stream.line]
    at hkept
  have hdeclares : (c.finding? env (u.advance env).guards.active (u.advance env).stream.line).any
      (·.isOf shelf name) = c.declares shelf name := c.any_finding? ..
  generalize c.finding? env (u.advance env).guards.active (u.advance env).stream.line = t at *
  -- What the longer text finds of the name is what it finds in the first part.
  have hsub := ((hfirst.sublist.append_right _).trans hkept.sublist).filter (·.isOf shelf name)
  have hlen : (sightings shelf name (u.findings ++ xs ++ (d.map (·.moved line none)).toList
        ++ (t.map (·.moved (u.lookahead env b).stream.line
          (some (u.lookahead env b).guards.active))).toList)).length
      = (sightings shelf name s.findings).length := by
    simp only [hfindings, sightings_append, List.length_append, length_sightings_moved]
  have hall := hsub.eq_of_length (hlen.trans honce.symm)
  rw [hfindings] at he
  -- A `;` and a directive fill different tables.
  have hone : t.any (·.isOf shelf name) = true → d.any (·.isOf shelf name) = false := by
    intro ht
    rw [hdeclares] at ht
    cases d with
    | none => rfl
    | some f =>
      refine Bool.eq_false_iff.mpr fun hf => ?_
      rcases Finding.shelf_of_directive hd hf with rfl | rfl
      · simpa using Closing.shelf_of_declares ht
      · simpa using Closing.shelf_of_declares ht
  have hmoved := foldl_see_moved_last line (u.lookahead env b).stream.line
    (u.lookahead env b).guards.active hone he
  rw [hdeclares] at hmoved
  have htrails : u.trails env shelf name
      = (xs ++ d.toList).getLast?.any fun f => f.ofDirective && f.isOf shelf name := by
    rw [Scanner.trails, hfs, List.append_assoc, List.drop_left]
  cases d with
  | none =>
    refine ⟨e.line, ?_⟩
    rw [ite_self]
    exact (congrArg (List.foldl see none) hall).symm.trans hmoved
  | some f =>
    refine ⟨line, ?_⟩
    rw [htrails, Option.toList_some, List.getLast?_concat, Option.any_some,
      show f.ofDirective = true from hd, Bool.true_and]
    exact (congrArg (List.foldl see none) hall).symm.trans hmoved

/-- **What later text does to an earlier entry.** A name that is declared in a whole text,
and not again in what is added to it, keeps its entry, with two exceptions. The entry of
what the last `;` declares has the line and the guards that come up to the next token, and
the entry of a directive after the last token may be on another line. Functions, typedefs
and enumerators are never affected. -/
theorem entry_append {o : ScanOptions} {file a b : String} {c : Closing} {u : Scanner Lexer}
    (ha : WholeText (o.env file) a c u) {C C' : Catalog}
    (hC : (Catalog.ofText o file a).result = .ok C)
    (hC' : (Catalog.ofText o file (a ++ b)).result = .ok C') {shelf : Shelf} {name : String}
    (honce : timesDeclared (o.env file) (a ++ b) shelf name
      = timesDeclared (o.env file) a shelf name)
    {e : Entry} (he : (C.table shelf).get? name = some e) :
    (∃ line, (C'.table shelf).get? name
      = some (if c.declares shelf name then
            { e with
              line := (u.lookahead (o.env file) b).stream.line
              guards := (u.lookahead (o.env file) b).guards.active }
          else if u.trails (o.env file) shelf name then { e with line } else e))
      ∧ (shelf = .functions ∨ shelf = .typedefs ∨ shelf = .enumerators →
        (C'.table shelf).get? name = some e) := by
  obtain ⟨s, hs, htable⟩ := Catalog.exists_run (show (Catalog.ofFeed o file _).result = _ from hC)
  obtain ⟨s', hs', htable'⟩ := Catalog.exists_run hC'
  rw [timesDeclared, timesDeclared, hs, hs'] at honce
  rw [htable] at he
  obtain ⟨line, hentry⟩ := ha.foldl_see hs hs' honce he
  rw [htable', hentry]
  refine ⟨⟨line, rfl⟩, fun hshelf => ?_⟩
  have hdeclares : ¬ c.declares shelf name = true := by
    intro h
    rcases Closing.shelf_of_declares h with rfl | rfl | rfl <;> simp at hshelf
  have htrails : ¬ u.trails (o.env file) shelf name = true := by
    intro h
    obtain ⟨f, -, hf⟩ := (Option.any_eq_true ..).mp h
    rw [Bool.and_eq_true] at hf
    rcases Finding.shelf_of_directive hf.1 hf.2 with rfl | rfl <;> simp at hshelf
  rw [if_neg hdeclares, if_neg htrails]

/-- A variable. -/
def plainText : String := "int x;\n"

/-- A variable under a guard. -/
def guardedText : String := "#ifdef FOO_ENABLED\nint y;\n#endif\n"

/-- The variable is recorded after the `#ifdef` that follows it. -/
theorem wholeText_plainText :
    ∃ u, WholeText (ScanOptions.env {} "a.h") plainText
        (.declare { text := "int" } ⟨"x", "int"⟩ false) u
      ∧ (u.lookahead (ScanOptions.env {} "a.h") guardedText).guards.active
        = ["defined(FOO_ENABLED)"] := by
  have hread : (Reader.readItem.run (Routine.run (ScanOptions.env {} "a.h"))
      (ScanOptions.env {} "a.h") ((Scanner.start (ScanOptions.env {} "a.h")
        (Lexer.ofText plainText)).advance (ScanOptions.env {} "a.h"))).value?
      = some (some (.declare { text := "int" } ⟨"x", "int"⟩ false)) := by decide +kernel
  have hvariable := ItemEnd.item .first (t := ⟨.name, "int"⟩) (by decide +kernel)
    (eq_ok_of_value? hread) (by decide +kernel : _ = some ⟨.separator, ";"⟩) rfl
  have hbreak : plainText.toList.getLast? = some '\n' := by decide +kernel
  exact ⟨_, ⟨fun _ h => Option.some.inj (h.symm.trans hbreak), by decide +kernel, hvariable,
    by decide +kernel⟩, by decide +kernel⟩

theorem entry_of_plainText :
    ∃ C C' e line, (Catalog.ofText {} "a.h" plainText).result = .ok C
      ∧ (Catalog.ofText {} "a.h" (plainText ++ guardedText)).result = .ok C'
      ∧ (C.table .vars).get? "x" = some e
      ∧ (C'.table .vars).get? "x"
        = some { e with line, guards := ["defined(FOO_ENABLED)"] } := by
  obtain ⟨u, hu, hguards⟩ := wholeText_plainText
  obtain ⟨C, hC⟩ : ∃ C, (Catalog.ofText {} "a.h" plainText).result = .ok C :=
    Outcome.exists_ok (by decide +kernel)
  obtain ⟨C', hC'⟩ : ∃ C, (Catalog.ofText {} "a.h" (plainText ++ guardedText)).result = .ok C :=
    Outcome.exists_ok (by decide +kernel)
  have hsome : ((Catalog.ofText {} "a.h" plainText).result.toOption.bind
      (·.vars.get? "x")).isSome = true := by decide +kernel
  rw [hC] at hsome
  obtain ⟨e, he⟩ := Option.isSome_iff_exists.mp hsome
  have hx : (C.table .vars).get? "x" = some e := he
  have hentry := (entry_append hu hC hC' (by decide +kernel) hx).1
  rw [hguards] at hentry
  obtain ⟨line, hline⟩ := hentry
  exact ⟨C, C', e, _, hC, hC', he, hline⟩

/-- The variable comes under the guard of another one, which is declared after it. -/
theorem guards_of_plainText :
    ((Catalog.ofText {} "a.h" plainText).result.toOption.bind (·.vars.get? "x")).map (·.guards)
        = some []
      ∧ ((Catalog.ofText {} "a.h" (plainText ++ guardedText)).result.toOption.bind
        (·.vars.get? "x")).map (·.guards) = some ["defined(FOO_ENABLED)"]
      ∧ timesDeclared (ScanOptions.env {} "a.h") (plainText ++ guardedText) .vars "x"
        = timesDeclared (ScanOptions.env {} "a.h") plainText .vars "x"
      ∧ ∃ c u, WholeText (ScanOptions.env {} "a.h") plainText c u := by
  obtain ⟨u, hu, -⟩ := wholeText_plainText
  exact ⟨by decide +kernel, by decide +kernel, by decide +kernel, _, u, hu⟩

end HeaderAtlas
