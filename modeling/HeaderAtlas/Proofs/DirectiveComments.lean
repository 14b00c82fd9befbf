import HeaderAtlas.Proofs.Lexer.DirectiveLines

/-!
# Comments on preprocessor lines

A preprocessor line is split into words, and comments on it are not recognised: the words of a
comment are words of the directive. So a comment is not always as good as a blank. It may go on
over the next line and leave the rest of that as code, or stand between a backslash and the end of
the line; a word in it may start with `#` and be a directive; its words may be among those that
the directive reads, or among those that an attribute or an ignored word before the line takes.

Where it does nothing of this kind, that is, where the line ends at the same place without it and
its directives have the same effects, a blank can stand in place of the comment, and the file comes
to the same but for lines (`Gloss.unlined_ofText_erased`). It does not matter whether the comment
is set apart by blanks or whether the line is continued, nor that errors are passed over elsewhere
in the file. Where such an error drops the rest of a line, what is left of the file has to come to
the same.

What a directive reads of its words is told by `Directive.effect?`. Words that come after what it
reads may be there or not (`Directive.effects_of_overlooks`), and so may a comment that is set
apart by blanks and comes after them (`Gloss.inert_of_overlooks`).
-/

namespace HeaderAtlas

open Text

/-! ## Words after a directive -/

/-- A word of a preprocessor line starts a directive or goes on with one. -/
theorem Token.opensDirective_of_not_continues {t : Token} (h : t.cls = .directive)
    (hc : t.continuesDirective = false) : t.opensDirective = true := by
  simpa [continuesDirective, opensDirective, h] using hc

namespace Directive

variable {D : List Token} {ds : List Directive} {d : Directive}

/-- Words that go on with a directive start none. -/
theorem ofTokens_of_continues (h : ∀ t ∈ D, t.continuesDirective = true) (X : List Token) :
    ofTokens (D ++ X) = ofTokens X := by
  rw [← ofTokens_dropWhile (D ++ X), List.dropWhile_append_of_pos h, ofTokens_dropWhile]

/-- Where there is no directive, all words go on with one. -/
theorem continues_of_ofTokens (hD : ∀ t ∈ D, t.cls = .directive) (h : ofTokens D = []) :
    ∀ t ∈ D, t.continuesDirective = true := by
  induction D with
  | nil => exact nofun
  | cons t D ih =>
    rw [ofTokens] at h
    split at h
    · cases h
    · next ho =>
      intro u hu
      rcases List.mem_cons.mp hu with rfl | hu
      · refine Bool.not_eq_false _ |>.mp fun hc => ho ?_
        exact Token.opensDirective_of_not_continues (hD u List.mem_cons_self) hc
      · exact ih (fun v hv => hD v (List.mem_cons_of_mem t hv)) h u hu

/-- Words that come after the last directive are its arguments, up to the next one. -/
theorem ofTokens_append (hD : ∀ t ∈ D, t.cls = .directive) (h : ofTokens D = ds ++ [d])
    (X : List Token) :
    ofTokens (D ++ X)
      = ds ++ ⟨d.word, d.args ++ (X.takeWhile Token.continuesDirective).map Token.text⟩
        :: ofTokens X := by
  induction D generalizing ds with
  | nil => simp [ofTokens] at h
  | cons t D ih =>
    have hD' : ∀ u ∈ D, u.cls = .directive := fun u hu => hD u (List.mem_cons_of_mem t hu)
    rw [List.cons_append, ofTokens]
    rw [ofTokens] at h
    split at h
    · next ho =>
      rw [if_pos ho]
      cases ds with
      | nil =>
        -- The directive is the last one.
        obtain ⟨rfl, hnil⟩ := List.cons.inj h
        have hall := continues_of_ofTokens hD' hnil
        have hself : D.takeWhile Token.continuesDirective = D := by
          rw [← List.append_nil D, List.takeWhile_append_of_pos hall]
          rfl
        rw [List.takeWhile_append_of_pos hall, hself, ofTokens_of_continues hall, List.map_append,
          List.nil_append]
      | cons e ds =>
        obtain ⟨rfl, htail⟩ := List.cons.inj h
        have hstop : ¬ (D.takeWhile Token.continuesDirective).length = D.length := by
          intro hlen
          have hself := (List.takeWhile_prefix Token.continuesDirective).eq_of_length hlen
          have hall : ∀ u ∈ D, u.continuesDirective = true := by
            rw [← hself]
            exact List.all_eq_true.mp List.all_takeWhile
          have hnil := ofTokens_of_continues hall []
          rw [List.append_nil, htail] at hnil
          simp [ofTokens] at hnil
        rw [List.takeWhile_append, if_neg hstop, ih hD' htail]
        rfl
    · next ho =>
      rw [if_neg ho]
      exact ih hD' h

end Directive

namespace MacroParts

/-- A parameter list that is closed is not gone on with. -/
theorem paramList_append {ws : List (List Char)} (h : ws.any (contains [')']) = true)
    (xs : List (List Char)) :
    paramList (ws ++ xs) = ((paramList ws).1, (paramList ws).2 ++ xs) := by
  induction ws with
  | nil => cases h
  | cons w ws ih =>
    cases hw : cut? [')'] w with
    | some p =>
      cases ws with
      | nil => simp [paramList, hw]
      | cons v vs => simp [paramList, hw]
    | none =>
      have hws : ws.any (contains [')']) = true := by simpa [contains, hw] using h
      cases ws with
      | nil => cases hws
      | cons v vs =>
        have hrest := ih hws
        rw [List.cons_append] at hrest
        rw [List.cons_append, List.cons_append, paramList, hw]
        dsimp only
        rw [hrest, paramList, hw]

/-- The name of the macro is there, and so are its parameters, if it has any. -/
def isComplete : List String → Bool
  | [] => false
  | first :: more =>
    match cut? ['('] first.toList with
    | none => true
    | some (_, list) => (list :: more.map String.toList).any (contains [')'])

/-- What comes after the name and the parameters belongs to the body. -/
theorem ofWords?_append {ws : List String} (h : isComplete ws = true) :
    ∃ name params body, ∀ xs, ofWords? (ws ++ xs) = some ⟨name, params, body ++ xs⟩ := by
  cases ws with
  | nil => cases h
  | cons first more =>
    rw [isComplete] at h
    cases hcut : cut? ['('] first.toList with
    | none =>
      refine ⟨first, [], more, fun xs => ?_⟩
      rw [List.cons_append, ofWords?, hcut]
    | some p =>
      obtain ⟨name, list⟩ := p
      rw [hcut] at h
      refine ⟨String.ofList name, splitParams (paramList (list :: more.map String.toList)).1,
        (paramList (list :: more.map String.toList)).2.map String.ofList, fun xs => ?_⟩
      rw [List.cons_append, ofWords?, hcut]
      dsimp only
      rw [List.map_append, ← List.cons_append, paramList_append h]
      simp

/-- A body of several words, or of one that is not quoted, has no value. -/
theorem stringValue?_of_word {name : String} {params body rest : List String} {w : String}
    (h : stringWord? w = none) : stringValue? ⟨name, params, body ++ w :: rest⟩ = none := by
  unfold stringValue?
  split
  · next v hv =>
    cases body with
    | nil =>
      cases hv
      exact h
    | cons b body => simp at hv
  · rfl

end MacroParts

/-! ## Words that are not read -/

/-- The directive does not read the words of a comment between its arguments and those in
`after`. -/
def Directive.overlooks (g : GrammarSettings) (d : Directive) (comment after : List String) :
    Bool :=
  match d.word with
  | "#include" | "#ifdef" | "#ifndef" => !d.args.isEmpty
  | "#if" =>
    !containsText g.guardMarker (" ".intercalate (d.args ++ (comment ++ after)))
      && !containsText g.guardMarker (" ".intercalate (d.args ++ after))
  | "#define" =>
    -- With the comment the value is not one quoted word, so it must not be one without it.
    MacroParts.isComplete d.args
      && ((MacroParts.ofWords? (d.args ++ after)).bind MacroParts.stringValue?).isNone
  | _ => true

theorem Directive.effect?_of_overlooks {g : GrammarSettings} {d : Directive} {w : String}
    {ws after : List String} (hw : MacroParts.stringWord? w = none)
    (h : d.overlooks g (w :: ws) after = true) :
    effect? g ⟨d.word, d.args ++ (w :: ws ++ after)⟩ = effect? g ⟨d.word, d.args ++ after⟩ := by
  obtain ⟨word, args⟩ := d
  have hfirst : args.isEmpty = false →
      (args ++ (w :: ws ++ after)).headD "" = (args ++ after).headD "" := by
    intro hne
    cases args with
    | nil => cases hne
    | cons a args => rfl
  unfold overlooks at h
  dsimp only at h
  split at h
  · simp only [effect?, hfirst (by simpa using h)]
  · simp only [effect?, hfirst (by simpa using h)]
  · simp only [effect?, hfirst (by simpa using h)]
  · obtain ⟨hwith, hwithout⟩ := Bool.and_eq_true_iff.mp h
    rw [Bool.not_eq_true'] at hwith hwithout
    simp only [effect?, hwith, hwithout]
    rfl
  · obtain ⟨hcomplete, hvalue⟩ := Bool.and_eq_true_iff.mp h
    obtain ⟨name, params, body, hparts⟩ := MacroParts.ofWords?_append hcomplete
    rw [hparts, Option.bind_some, Option.isNone_iff_eq_none] at hvalue
    simp only [effect?, hparts, Option.bind_some]
    rw [show (w :: ws ++ after) = w :: (ws ++ after) from rfl, MacroParts.stringValue?_of_word hw,
      hvalue]
  · unfold effect?
    split <;> simp_all

/-- **Words that a directive does not read make no difference** after its arguments, if none of
them starts a directive and the first is not quoted, as the first word of a comment is not. -/
theorem Directive.effects_of_overlooks {g : GrammarSettings} {D X : List Token} {t : Token}
    {C : List Token} {ds : List Directive} {d : Directive} (hD : ∀ u ∈ D, u.cls = .directive)
    (hd : ofTokens D = ds ++ [d]) (hC : ∀ u ∈ t :: C, u.continuesDirective = true)
    (ht : MacroParts.stringWord? t.text = none)
    (h : d.overlooks g ((t :: C).map Token.text)
      ((X.takeWhile Token.continuesDirective).map Token.text) = true) :
    effects g (D ++ (t :: C ++ X)) = effects g (D ++ X) := by
  rw [effects, effects, ofTokens_append hD hd, ofTokens_append hD hd,
    List.takeWhile_append_of_pos hC, List.map_append, ofTokens_of_continues hC,
    List.filterMap_append, List.filterMap_append, List.filterMap_cons, List.filterMap_cons,
    List.map_cons, effect?_of_overlooks ht h]

/-! ## Comments on preprocessor lines -/

/-- A block comment in a text, on a line of its own or with something around it. -/
structure Gloss where
  /-- The text up to the line of the comment. -/
  before : String
  /-- The line up to the comment. -/
  head : String
  /-- What stands inside of the comment. -/
  inside : String
  /-- The rest of the text. -/
  rest : String

namespace Gloss

variable (n : Gloss)

/-- The comment. -/
def comment : String := "/*" ++ n.inside ++ "*/"

/-- The text with `mid` in place of the comment. -/
def withMid (mid : String) : String := n.before ++ (n.head ++ mid ++ n.rest)

/-- The text with the comment. -/
def written : String := n.withMid n.comment

/-- The text with a blank in place of the comment. -/
def erased : String := n.withMid " "

/-- The lines up to that of the comment. -/
def linesBefore : List (List Char) := (Pages.ofText n.before).lines

/-- The words of the line with `mid` in place of the comment, and the lines after it. The line
goes on over the next one if it ends in a backslash. -/
def line? (mid : String) : Option (List Token × List (List Char)) :=
  Lexer.directiveLine? (Pages.ofText (n.head ++ mid ++ n.rest)).lines

/-- The words of the line. -/
def words (mid : String) : List Token := ((n.line? mid).map Prod.fst).getD []

/-- The comment starts on a preprocessor line, and the line in no string or comment. -/
structure OnDirective : Prop where
  lineStart : n.before.toList.getLastD '\n' = '\n'
  sealed : (Pages.ofText n.before).Sealed
  closed : (Lexer.ofText n.before).endsOpen = false
  hash : (n.line? " ").isSome = true
  /-- What stands before the comment is no more than the line. -/
  sameLine : (Lexer.directiveLine? (Pages.ofText (n.head ++ "/")).lines).map Prod.snd = some []

/-- The comment makes no difference to its line. -/
structure Inert (g : GrammarSettings) (lost : Nat → Prop) : Prop where
  /-- The line ends where it ends without the comment. -/
  sameEnd : (n.line? n.comment).map Prod.snd = (n.line? " ").map Prod.snd
  /-- Its directives have the same effects, and as many tokens are still to be dropped after it,
  from the start of the file as well as from the end of any line in `lost`. -/
  sameEffects : ∀ l ≤ n.linesBefore.length, l = 0 ∨ lost l →
    Lexer.Rests g (n.words " ") (n.words n.comment) (.tokens 0) (Lexer.fromLine n.linesBefore l)

instance : Decidable n.OnDirective :=
  decidable_of_iff _ ⟨fun ⟨h₁, h₂, h₃, h₄, h₅⟩ => ⟨h₁, h₂, h₃, h₄, h₅⟩,
    fun ⟨h₁, h₂, h₃, h₄, h₅⟩ => (⟨h₁, h₂, h₃, h₄, h₅⟩ : _ ∧ _ ∧ _ ∧ _ ∧ _)⟩

variable {n}

theorem cls_of_mem_words {mid : String} {t : Token} (h : t ∈ n.words mid) :
    t.cls = .directive := by
  unfold words line? Lexer.directiveLine? at h
  split at h
  · split at h
    · exact Lexer.directive_cls h
    · cases h
  · cases h

/-- A comment set apart by blanks makes no difference to its line if its words come after those
that the directive before it reads, the first one is not quoted and none starts a directive, and
nothing is still to be dropped where the line begins. -/
theorem inert_of_overlooks {g : GrammarSettings} {lost : Nat → Prop} {D C X : List Token}
    {t : Token} {ds : List Directive} {d : Directive}
    (hend : (n.line? n.comment).map Prod.snd = (n.line? " ").map Prod.snd)
    (hbare : n.words " " = D ++ X) (hwith : n.words n.comment = D ++ (t :: C ++ X))
    (hd : Directive.ofTokens D = ds ++ [d]) (hC : ∀ u ∈ t :: C, u.continuesDirective = true)
    (ht : MacroParts.stringWord? t.text = none)
    (hover : d.overlooks g ((t :: C).map Token.text)
      ((X.takeWhile Token.continuesDirective).map Token.text) = true)
    (hrests : ∀ l ≤ n.linesBefore.length, l = 0 ∨ lost l →
      (Lexer.fromLine n.linesBefore l).endsOpen = false
        ∧ (Feed.tokens (Lexer.fromLine n.linesBefore l)).foldl g.owe (.tokens 0) = .tokens 0) :
    n.Inert g lost where
  sameEnd := hend
  sameEffects l hl hlost := by
    obtain ⟨hclosed, howe⟩ := hrests l hl hlost
    have hD : ∀ u ∈ D, u.cls = .directive := fun u hu =>
      cls_of_mem_words (hbare ▸ List.mem_append_left X hu)
    have heffects := Directive.effects_of_overlooks hD hd hC ht hover
    refine ⟨hclosed, ?_⟩
    rw [howe, hbare, hwith]
    simp only [GrammarSettings.hears, Debt.pay, Nat.zero_sub, List.drop_zero, heffects]

/-- **A comment that makes no difference to its line makes none to the file**, but for lines: the
catalogue or the failure is the same, and so are the notices. -/
theorem unlined_ofText_erased {o : ScanOptions} {file : String} (hn : n.OnDirective)
    (hi : n.Inert o.settings.grammar (Catalog.ofText o file n.written).journal.Drops)
    (hown : o.settings.grammar.KeepsOwn) :
    (Catalog.ofText o file n.erased).unlined.result
        = (Catalog.ofText o file n.written).unlined.result
      ∧ (Catalog.ofText o file n.erased).journal.map Notice.lineless
        = (Catalog.ofText o file n.written).journal.map Notice.lineless := by
  obtain ⟨⟨W', ends⟩, hbare⟩ := Option.isSome_iff_exists.mp hn.hash
  have hend := hi.sameEnd
  rw [hbare, Option.map_some, Option.map_eq_some_iff] at hend
  obtain ⟨⟨W, _⟩, hline, rfl⟩ := hend
  have hrests := hi.sameEffects
  rw [words, words, hbare, hline, Option.map_some, Option.getD_some, Option.map_some,
    Option.getD_some] at hrests
  have hsplit : ∀ mid, Lexer.ofText (n.withMid mid) = (Lexer.ofText n.before).extend
      (Pages.ofText (n.head ++ mid ++ n.rest)).lines := fun mid =>
    Lexer.ofText_append _ fun c hc => by simpa [List.getLastD_eq_getLast?, hc] using hn.lineStart
  have hstart : Lexer.Approach o.settings.grammar n.linesBefore
      (Pages.ofText (n.head ++ " " ++ n.rest)).lines
      (Pages.ofText (n.head ++ n.comment ++ n.rest)).lines W' W (.tokens 0)
      (Lexer.ofText n.erased) (Lexer.ofText n.written) := by
    rw [erased, written, hsplit, hsplit]
    exact .intro hn.sealed (.refl _) (hrests 0 (Nat.zero_le _) (.inl rfl))
  exact Catalog.unlined_ofFeed_of_fork hown
    (Lexer.fork_of_lines hbare hline fun l hl hlost => hrests l hl (.inr hlost)) hstart

instance (g : GrammarSettings) (W W' : List Token) (q : Debt) (lx : Lexer) :
    Decidable (Lexer.Rests g W W' q lx) :=
  decidable_of_iff _ ⟨fun ⟨h₁, h₂⟩ => ⟨h₁, h₂⟩, fun ⟨h₁, h₂⟩ => (⟨h₁, h₂⟩ : _ ∧ _)⟩

/-- A definition that goes on over the next line and, in the comment, over one more. A word of
the comment starts with `#`, and a line before it is dropped. -/
def continuedMacro : Gloss where
  before := "/* DOC_DISABLE */\n\x7d int lost;\n/* DOC_ENABLE */\n"
  head := "#define BAR \\\n 1"
  inside := " see #12 \\\n and below "
  rest := "\nint x;\n"

/-- The variable is on the seventh line with the comment, and on the sixth without it. -/
theorem unlined_of_continuedMacro :
    (Catalog.ofText {} "a.h" continuedMacro.written).result.toOption.map
        (·.entries.map fun e => (e.name, e.line)) = some [("x", 7), ("BAR", 6)]
      ∧ (Catalog.ofText {} "a.h" continuedMacro.erased).result.toOption.map
        (·.entries.map fun e => (e.name, e.line)) = some [("x", 6), ("BAR", 6)]
      ∧ (Catalog.ofText {} "a.h" continuedMacro.erased).unlined.result
        = (Catalog.ofText {} "a.h" continuedMacro.written).unlined.result
      ∧ (Catalog.ofText {} "a.h" continuedMacro.erased).journal.map Notice.lineless
        = (Catalog.ofText {} "a.h" continuedMacro.written).journal.map Notice.lineless := by
  refine ⟨by decide +kernel, by decide +kernel,
    unlined_ofText_erased (by decide +kernel) ⟨by decide +kernel, ?_⟩ (by decide +kernel)⟩
  have hall : ∀ l ≤ continuedMacro.linesBefore.length,
      Lexer.Rests ({} : ScanOptions).settings.grammar (continuedMacro.words " ")
        (continuedMacro.words continuedMacro.comment) (.tokens 0)
        (Lexer.fromLine continuedMacro.linesBefore l) := by decide +kernel
  exact fun l hl _ => hall l hl

/-! ## Comments that make a difference -/

/-- A definition whose value is one quoted word, with a comment after it. -/
def quotedMacro : Gloss where
  before := ""
  head := "#define FOO \"bar\" "
  inside := " c "
  rest := "\n"

/-- A comment with the word of a directive in it. -/
def hashComment : Gloss where
  before := "#ifdef FOO_ENABLED\n"
  head := "#define BAR 1 "
  inside := " no #endif yet "
  rest := "\nint f(int x);\nint g(int y);\n#endif\n"

/-- A comment that goes on over the next line. -/
def longComment : Gloss where
  before := ""
  head := "#define BAR 1 "
  inside := " before:\nint hidden; //"
  rest := "\n"

/-- A comment between a backslash and the end of the line. -/
def hiddenBackslash : Gloss where
  before := ""
  head := "#define A \\ "
  inside := " c "
  rest := "\nint x;\n"

/-- A comment with a `;` in it, after an attribute. -/
def semicolonComment : Gloss where
  before := "int f(int x) __attribute__((a))\n"
  head := "#define A 1 "
  inside := " b ; "
  rest := "\n;\nint z;\n"

/-- A comment whose words are dropped together with an ignored word. -/
def droppedComment : Gloss where
  before := "__declspec\n"
  head := "#define A "
  inside := " c "
  rest := "\nint y;\n"

/-- A comment that ends a string, where the line before the string is dropped and with it the
opening of a comment that the string stands in. -/
def uncoveredString : Gloss where
  before := "/* DOC_DISABLE */\n\x7d /*\n\" */\n"
  head := "#define A 1 "
  inside := " \" "
  rest := "\nint x;\n"

/-- A comment after a qualifier that the filter hands on as an ignored word. -/
def qualifierComment : Gloss where
  before := "int x __const\n"
  head := "#undef A "
  inside := " c "
  rest := "\n; int y;\n"

/-- Settings in which three tokens are dropped together with `const`. -/
def constDropping : ScanOptions where
  settings := { Settings.builtin with
    grammar := { GrammarSettings.builtin with ignoredWords := .ofList [("const", 3)] } }

/-- The names that are recorded, with their guards and with the values of macros. -/
def gists (o : ScanOptions) (text : String) :
    Option (List (String × List String × Option String)) :=
  (Catalog.ofText o "a.h" text).result.toOption.map fun C => C.entries.map fun e =>
    (e.name, e.guards, match e.detail with
      | some (.macroDef d) => d.stringValue
      | _ => none)

/-- The comment starts on a preprocessor line, and the file tells one thing with it and another
without it, or cannot be read. -/
structure Tells (n : Gloss) (o : ScanOptions)
    (withComment without : Option (List (String × List String × Option String))) : Prop where
  onDirective : n.OnDirective
  written : gists o n.written = withComment
  erased : gists o n.erased = without

instance (n : Gloss) (o : ScanOptions)
    (withComment without : Option (List (String × List String × Option String))) :
    Decidable (n.Tells o withComment without) :=
  decidable_of_iff _ ⟨fun ⟨h₁, h₂, h₃⟩ => ⟨h₁, h₂, h₃⟩,
    fun ⟨h₁, h₂, h₃⟩ => (⟨h₁, h₂, h₃⟩ : _ ∧ _ ∧ _)⟩

/-- With the comment, the value of a macro is lost, a guard ends early, a name is found that is
not declared or one that is, or the file is read otherwise to its end. -/
theorem glosses_matter :
    quotedMacro.Tells {} (some [("FOO", [], none)]) (some [("FOO", [], some "bar")])
      ∧ hashComment.Tells {} (some [("f", [], none), ("g", [], none),
          ("BAR", ["defined(FOO_ENABLED)"], none)])
        (some [("f", ["defined(FOO_ENABLED)"], none), ("g", ["defined(FOO_ENABLED)"], none),
          ("BAR", ["defined(FOO_ENABLED)"], none)])
      ∧ longComment.Tells {} (some [("hidden", [], none), ("BAR", [], none)])
        (some [("BAR", [], none)])
      ∧ hiddenBackslash.Tells {} (some [("x", [], none), ("A", [], none)])
        (some [("A", [], none)])
      ∧ semicolonComment.Tells {} none (some [("f", [], none), ("z", [], none)])
      ∧ droppedComment.Tells {} (some [("y", [], none)]) none
      ∧ uncoveredString.Tells {} (some [("x", [], none)]) (some [])
      ∧ qualifierComment.Tells constDropping (some [("x", [], none), ("y", [], none)])
        (some [("y", [], none)]) := by
  refine ⟨?_, ?_, ?_, ?_, ?_, ?_, ?_, ?_⟩ <;> decide +kernel

end Gloss

end HeaderAtlas
