import HeaderAtlas.Proofs.Lexer.DirectiveLines
import HeaderAtlas.Proofs.Scanner.Definitions
import HeaderAtlas.Proofs.Text.Fields

/-!
# The values of macros

A macro without parameters has a value if its body is one word that is quoted at both ends. That
is not to say that the body is a string literal. A literal with a blank inside is several words,
a quote inside of a word that is not escaped goes unnoticed, and a word that starts with `#` ends
the body.

Where no word starts with `#`, these are the only ways in which the value and the literal differ:
they agree if and only if what is between the quotes has either no blanks and every quote escaped,
or both a blank and a quote that is not (`ObjectMacro.stringValue_of_line`).
-/

namespace HeaderAtlas

open Text

/-! ## String literals -/

namespace Lexeme

/-- Is every quote of the text escaped, and its last backslash no escape? -/
def escapesQuotes : List Char → Bool
  | [] => true
  | ['\\'] => false
  | '\\' :: _ :: cs => escapesQuotes cs
  | c :: cs => c != '"' && escapesQuotes cs

/-- What is between the quotes of a text that is one string literal. -/
def literal? (cs : List Char) : Option (List Char) :=
  ((dropStem? ['"'] cs).bind (dropTail? ['"'])).filter escapesQuotes

theorem unquote_eq_some_iff {cs inside : List Char} :
    (dropStem? ['"'] cs).bind (dropTail? ['"']) = some inside ↔ cs = '"' :: inside ++ ['"'] := by
  rw [Option.bind_eq_some_iff]
  refine ⟨fun ⟨rest, hrest, hinside⟩ => ?_, fun h => ⟨inside ++ ['"'], ?_, ?_⟩⟩
  · rw [dropStem?_eq_some_iff.mp hrest, dropTail?_eq_some_iff.mp hinside]
    rfl
  · exact dropStem?_eq_some_iff.mpr h
  · exact dropTail?_eq_some_iff.mpr rfl

theorem literal?_eq_some_iff {cs inside : List Char} :
    literal? cs = some inside ↔ cs = '"' :: inside ++ ['"'] ∧ escapesQuotes inside = true := by
  rw [literal?, Option.filter_eq_some_iff, unquote_eq_some_iff]

/-- The first quote that is not escaped is the closing one. -/
theorem closeQuote?_append_iff {cs after : List Char} :
    closeQuote? '"' (cs ++ '"' :: after) = some (cs, after) ↔ escapesQuotes cs = true := by
  fun_induction escapesQuotes cs with
  | case1 => simp [closeQuote?]
  | case2 =>
    -- The quote is taken along by the backslash.
    simp [closeQuote?]
  | case3 c cs ih =>
    rw [List.cons_append, List.cons_append, closeQuote?, ← ih, Option.map_eq_some_iff]
    simp
  | case4 c cs hlast hescape ih =>
    have hc := ne_backslash hlast hescape
    rw [List.cons_append, closeQuote?, Bool.and_eq_true, bne_iff_ne, ← ih]
    · split
      · next hquote => simp [hquote]
      · next hquote => simp [hquote]
    · exact fun h _ => hc h
    · exact fun _ _ h _ => hc h

/-- Where code goes on with a quote, the literals are the texts that a lexer reads to their end as
one string. -/
theorem literal?_eq_some_iff_next {cs inside : List Char} {p : Pages} :
    literal? ('"' :: cs) = some inside
      ↔ Lexer.next { pages := p, rest := '"' :: cs }
        = (some (.ofChars .string inside), { pages := p }) := by
  rw [Lexer.next_of_string rfl rfl rfl, literal?_eq_some_iff, List.cons_append, List.cons.injEq]
  constructor
  · rintro ⟨⟨-, rfl⟩, hescapes⟩
    rw [Lexer.readString_of_close (closeQuote?_append_iff.mpr hescapes)]
    rfl
  · intro h
    cases hclose : closeQuote? '"' cs with
    | some found =>
      obtain ⟨before, rest⟩ := found
      rw [Lexer.readString_of_close hclose] at h
      obtain ⟨htoken, hlexer⟩ := Prod.mk.inj h
      obtain rfl : rest = [] := congrArg Lexer.rest hlexer
      obtain rfl : before = inside :=
        String.ofList_injective (congrArg Token.text (Option.some.inj htoken))
      obtain rfl := eq_of_closeQuote? hclose
      exact ⟨⟨rfl, rfl⟩, closeQuote?_append_iff.mp hclose⟩
    | none =>
      -- The string goes on over another line at least, so not all lines are left.
      cases hlogical : p.logical with
      | mk line q =>
        cases line with
        | none =>
          rw [Lexer.readString_of_end hclose hlogical] at h
          cases h
        | some line =>
          rw [Lexer.readString_of_line hclose hlogical] at h
          have hsize := Lexer.size_readString '"' ([] ++ cs) line q
          have hcost := Pages.cost_logical_some hlogical
          rw [h] at hsize
          simp only [Lexer.size, Lexer.backlog, List.length_nil] at hsize
          omega

end Lexeme

namespace MacroParts

theorem stringWord?_eq_some_iff {word inside : List Char} :
    stringWord? (String.ofList word) = some (String.ofList inside)
      ↔ word = '"' :: inside ++ ['"'] := by
  have hword : stringWord? (String.ofList word)
      = ((dropStem? ['"'] word).bind (dropTail? ['"'])).map String.ofList := by
    rw [stringWord?, String.toList_ofList]
    cases dropStem? ['"'] word <;> rfl
  rw [hword, ← Lexeme.unquote_eq_some_iff]
  exact (Option.map_injective fun _ _ => String.ofList_injective).eq_iff' rfl

/-- The value is what is between the quotes of the only word of the body. -/
theorem stringValue?_eq_some_iff {name : String} {params : List String}
    {body : List (List Char)} {inside : List Char} :
    stringValue? ⟨name, params, body.map String.ofList⟩ = some (String.ofList inside)
      ↔ body = ['"' :: inside ++ ['"']] := by
  match body with
  | [] => exact ⟨nofun, nofun⟩
  | [w] =>
    rw [List.singleton_inj]
    exact stringWord?_eq_some_iff
  | v :: w :: ws => exact ⟨nofun, nofun⟩

end MacroParts

/-! ## The definitions of a text, line by line -/

theorem Text.takeWhile_append_of_head {α : Type} {p : α → Bool} {xs ys : List α}
    (h : ∀ y, ys.head? = some y → p y = false) : (xs ++ ys).takeWhile p = xs.takeWhile p := by
  rw [List.takeWhile_append]
  split
  · next hall =>
    have hself := (List.takeWhile_prefix p).eq_of_length hall
    cases ys with
    | nil => rw [hself, List.takeWhile_nil, List.append_nil]
    | cons y ys =>
      rw [hself, List.takeWhile_cons_of_neg (by simp [h y rfl]), List.append_nil]
  · rfl

/-- A word goes on with a directive unless it starts with `#`. -/
theorem Token.continues_ofChars (w : List Char) :
    (ofChars .directive w).continuesDirective = !startsWith ['#'] w := by
  simp [continuesDirective, ofChars]

namespace Lexeme

/-- Words that come after the one of a directive are left as they are. -/
theorem directiveWords_append {xs line : List Char} {ws : List (List Char)}
    (h : words line = words xs ++ ws) (hne : words xs ≠ []) (hash : words xs ≠ [['#']]) :
    directiveWords line = directiveWords xs ++ ws := by
  unfold directiveWords
  rw [h]
  generalize words xs = vs at hne hash
  match vs with
  | [] => exact absurd rfl hne
  | [w] =>
    split
    · next heq =>
      obtain ⟨rfl, -⟩ := List.cons.inj heq
      exact absurd rfl hash
    · split
      · next heq => cases heq
      · rfl
  | w :: v :: vs =>
    by_cases hw : w = ['#']
    · subst hw
      rfl
    · split
      · next heq => exact absurd (List.cons.inj heq).1 hw
      · split
        · next heq => exact absurd (List.cons.inj heq).1 hw
        · rfl

end Lexeme

namespace Lexer

/-- The lexer gives these tokens and comes to the other one. -/
inductive Gives : Lexer → List Token → Lexer → Prop
  | nil {lx} : Gives lx [] lx
  | cons {lx lx' lx'' t ts} (h : lx.next = (some t, lx')) (hts : Gives lx' ts lx'') :
    Gives lx (t :: ts) lx''

variable {lx lx' : Lexer} {p : Pages} {ts : List Token} {line : List Char}

theorem tokens_of_next_eq (h : lx.next = lx'.next) : Feed.tokens lx = Feed.tokens lx' := by
  rw [← Feed.map_fst_report, ← Feed.map_fst_report, (Feed.report_congr h).1]

theorem tokens_of_gives (h : lx.Gives ts lx') : Feed.tokens lx = ts ++ Feed.tokens lx' := by
  induction h with
  | nil => rfl
  | @cons lx lx₁ _ t ts hnext _ ih =>
    have hnext : Feed.next lx = (some t, lx₁) := hnext
    rw [Feed.tokens_of_some (congrArg Prod.fst hnext), hnext, ih]
    rfl

theorem gives_pending (p : Pages) (ts : List Token) :
    Gives { pages := p, pending := ts } ts { pages := p } := by
  induction ts with
  | nil => exact .nil
  | cons t ts ih => exact .cons (next_pending p t ts) ih

/-- The words of a preprocessor line come first. -/
theorem tokens_of_directive (hpending : lx.pending = []) (hline : lx.takeLine = (some line, p))
    (ho : opening line = .directive) :
    Feed.tokens lx = Lexeme.directive line ++ Feed.tokens ({ pages := p } : Lexer) := by
  rw [tokens_of_next_eq (next_of_directive hpending hline ho)]
  exact tokens_of_gives (gives_pending p _)

/-- The first token of a line does not go on with a directive. -/
theorem continues_of_head_tokens {t : Token}
    (h : (Feed.tokens ({ pages := p } : Lexer)).head? = some t) : t.continuesDirective = false := by
  cases hnext : (Feed.next ({ pages := p } : Lexer)).1 with
  | none =>
    rw [Feed.tokens_of_none hnext] at h
    cases h
  | some u =>
    rw [Feed.tokens_of_some hnext] at h
    cases h
    exact next_fresh { pages := p } (Prod.ext hnext rfl) nofun

end Lexer

/-- The directives of some tokens are not gone on with by what does not go on with one. -/
theorem Directive.ofTokens_append_of_head {ts us : List Token}
    (h : ∀ u, us.head? = some u → u.continuesDirective = false) :
    ofTokens (ts ++ us) = ofTokens ts ++ ofTokens us := by
  induction ts with
  | nil => rfl
  | cons t ts ih =>
    rw [List.cons_append, ofTokens, ofTokens, ih, takeWhile_append_of_head h]
    split <;> rfl

namespace GrammarSettings

variable {g : GrammarSettings} {t : Token} {ts us : List Token}

/-- A token that takes none that comes after a list takes the same whatever comes after it. -/
theorem muted_append (h : g.muted t (ts ++ [⟨.directive, "#"⟩]) ≤ ts.length) (us : List Token) :
    g.muted t (ts ++ us) = g.muted t ts ∧ g.muted t ts ≤ ts.length := by
  by_cases ht : t.cls = .name
  · by_cases hconst : t.text = "__const"
    · rw [muted_of_const ht hconst, muted_of_const ht hconst]
      exact ⟨rfl, Nat.zero_le _⟩
    by_cases hattr : (t.text = "__attribute" || t.text = "__attribute__") = true
    · rw [muted_of_attribute ht hconst hattr] at h
      rw [muted_of_attribute ht hconst hattr, muted_of_attribute ht hconst hattr,
        List.takeWhile_append]
      rw [List.takeWhile_append] at h
      split at h
      · rw [List.length_append] at h
        exact absurd h (by simp)
      · next hstop =>
        rw [if_neg hstop]
        exact ⟨rfl, (List.takeWhile_prefix _).length_le⟩
    · rw [muted_of_word ht hconst hattr] at h
      rw [muted_of_word ht hconst hattr, muted_of_word ht hconst hattr]
      exact ⟨rfl, h⟩
  · rw [muted_of_cls ht, muted_of_cls ht]
    exact ⟨rfl, Nat.zero_le _⟩

/-- None of these tokens, as the filter looks at them, takes a token that comes after
them all. -/
def selfContained (g : GrammarSettings) : List Token → Bool
  | [] => true
  | t :: ts =>
    -- `#` stands for whatever token comes after the list.
    g.muted t (ts ++ [⟨.directive, "#"⟩]) ≤ ts.length && g.selfContained (ts.drop (g.muted t ts))
termination_by ts => ts.length
decreasing_by simp only [List.length_drop, List.length_cons]; omega

theorem selfContained_cons (h : g.selfContained (t :: ts) = true) :
    g.muted t (ts ++ [⟨.directive, "#"⟩]) ≤ ts.length
      ∧ g.selfContained (ts.drop (g.muted t ts)) = true := by
  rw [selfContained, Bool.and_eq_true, decide_eq_true_eq] at h
  exact h

/-- What is heard of tokens that do not reach further, and of those after them. -/
theorem audible_append (h : g.selfContained ts = true) (us : List Token) :
    g.audible (ts ++ us) = g.audible ts ++ g.audible us := by
  fun_induction g.audible ts with
  | case1 => rfl
  | case2 t ts ih =>
    obtain ⟨hle, hrest⟩ := selfContained_cons h
    obtain ⟨hsame, hlength⟩ := muted_append hle us
    rw [List.cons_append, audible, hsame, List.drop_append_of_le_length hlength, ih hrest,
      List.cons_append]

theorem definitions_append (h : g.selfContained ts = true)
    (hus : ∀ u, us.head? = some u → u.continuesDirective = false) :
    g.definitions (ts ++ us) = g.definitions ts ++ g.definitions us := by
  rw [definitions, audible_append h, Directive.ofTokens_append_of_head, List.filterMap_append]
  · rfl
  · intro u hu
    refine hus u ?_
    cases us with
    | nil => simp [audible] at hu
    | cons v us => rwa [audible] at hu

theorem definitions_dropWhile (ts : List Token) :
    g.definitions (ts.dropWhile Token.continuesDirective) = g.definitions ts := by
  rw [definitions, ← (g.span_audible ts).2, Directive.ofTokens_dropWhile]
  rfl

end GrammarSettings

/-! ## Definitions without parameters -/

/-- The definition of a macro without parameters, as it stands on a line. -/
structure ObjectMacro where
  /-- What stands before the name. -/
  front : List Char
  name : List Char
  /-- What stands after the name. -/
  body : List Char
  hash : front.head? = some '#'
  word : Lexeme.directiveWords front = ["#define".toList]
  apart : ∃ c, front.getLast? = some c ∧ isBlank c = true
  name_ne_nil : name ≠ []
  name_solid : ∀ c ∈ name, isBlank c = false
  name_plain : startsWith ['#'] name = false
  paren_not_mem : '(' ∉ name
  body_apart : ∀ c, body.head? = some c → isBlank c = true

namespace ObjectMacro

variable (m : ObjectMacro)

/-- The line. -/
def line : List Char := m.front ++ (m.name ++ m.body)

/-- The words of the body, up to one that is a directive of its own. -/
def bodyWords : List (List Char) := (words m.body).takeWhile (!startsWith ['#'] ·)

/-- What is recorded of the macro. -/
def definition : Definition where
  name := String.ofList m.name
  params := []
  value? := MacroParts.stringValue? ⟨String.ofList m.name, [], m.bodyWords.map String.ofList⟩

/-- The line stands in a text, after the tokens `ts` and before the lines `p`. -/
def StandsIn (text : String) (ts : List Token) (p : Pages) : Prop :=
  ∃ lx, (Lexer.ofText text).Gives ts lx ∧ lx.pending = [] ∧ lx.takeLine = (some m.line, p)

variable {m}

theorem opening_line : Lexer.opening m.line = .directive := by
  obtain ⟨cs, hcs⟩ := List.head?_eq_some_iff.mp m.hash
  rw [line, hcs]
  rfl

theorem directiveWords_line :
    Lexeme.directiveWords m.line = "#define".toList :: m.name :: words m.body := by
  have hname : words m.name = [m.name] := words_of_solid m.name_ne_nil m.name_solid
  have hfront : words m.front ≠ [] ∧ words m.front ≠ [['#']] := by
    have hword := m.word
    rw [Lexeme.directiveWords] at hword
    constructor <;> intro h <;> rw [h] at hword <;> cases hword
  have hwords : words m.line = words m.front ++ (m.name :: words m.body) := by
    obtain ⟨c, hlast, hc⟩ := m.apart
    rw [line, words_append fun a b ha _ => .inl ?_,
      words_append fun a b _ hb => .inr (m.body_apart b hb), hname]
    · rfl
    · rw [hlast] at ha
      exact Option.some.inj ha ▸ hc
  rw [Lexeme.directiveWords_append hwords hfront.1 hfront.2, m.word]
  rfl

/-- The definition that the words of the line make. -/
theorem definition?_eq {g : GrammarSettings}
    (hhidden : g.hiddenMacros.contains (String.ofList m.name) = false)
    (hguard : g.isHeaderGuard (String.ofList m.name) = false) :
    Directive.definition? g ⟨"#define", (m.name :: m.bodyWords).map String.ofList⟩
      = some m.definition := by
  have hcut : cut? ['('] (String.ofList m.name).toList = none := by
    rw [String.toList_ofList]
    exact cut?_eq_none_iff.mpr m.paren_not_mem
  rw [Directive.definition?, if_pos rfl, List.map_cons, MacroParts.ofWords?, hcut]
  simp [hhidden, hguard, definition]

/-- The definitions of a text, with the one of the line among them. -/
theorem definitions_of_standsIn {g : GrammarSettings} {text : String} {ts : List Token} {p : Pages}
    (hts : g.selfContained ts = true) (hline : m.StandsIn text ts p)
    (hhidden : g.hiddenMacros.contains (String.ofList m.name) = false)
    (hguard : g.isHeaderGuard (String.ofList m.name) = false) :
    g.definitions (Feed.tokens (Lexer.ofText text))
      = g.definitions ts ++ m.definition :: g.definitions
          ((Lexeme.directive m.line).tail ++ Feed.tokens ({ pages := p } : Lexer)) := by
  obtain ⟨lx, hgives, hpending, htake⟩ := hline
  have hlater := @Lexer.continues_of_head_tokens p
  have htokens : Lexeme.directive m.line = .ofChars .directive "#define".toList
      :: (m.name :: words m.body).map (Token.ofChars .directive) := by
    rw [Lexeme.directive, directiveWords_line]
    rfl
  have hargs : (((m.name :: words m.body).map (Token.ofChars .directive)
      ++ Feed.tokens ({ pages := p } : Lexer)).takeWhile Token.continuesDirective).map Token.text
        = (m.name :: m.bodyWords).map String.ofList := by
    have hp : Token.continuesDirective ∘ Token.ofChars .directive = fun w => !startsWith ['#'] w :=
      funext Token.continues_ofChars
    rw [takeWhile_append_of_head fun u => hlater, List.takeWhile_map, hp,
      List.takeWhile_cons_of_pos (by simp [m.name_plain]), List.map_map]
    rfl
  rw [Lexer.tokens_of_gives hgives, Lexer.tokens_of_directive hpending htake opening_line,
    GrammarSettings.definitions_append hts, htokens, List.cons_append,
    GrammarSettings.definitions_of_directive rfl, hargs, GrammarSettings.definitions_dropWhile]
  · rw [show (Token.ofChars TokenClass.directive "#define".toList).text = "#define" from rfl,
      definition?_eq hhidden hguard]
    rfl
  · rw [htokens]
    intro u hu
    cases hu
    rfl

/-! ## Values and literals -/

theorem bodyWords_of_plain (h : ∀ w ∈ words m.body, startsWith ['#'] w = false) :
    m.bodyWords = words m.body := by
  rw [bodyWords, ← List.append_nil (words m.body), List.takeWhile_append_of_pos (by simpa using h)]
  rfl

/-- A value is recorded of a body between quotes that has no blanks. -/
theorem value?_of_plain (h : ∀ w ∈ words m.body, startsWith ['#'] w = false) {inside : List Char} :
    m.definition.value? = some (String.ofList inside)
      ↔ trim m.body = '"' :: inside ++ ['"'] ∧ ∀ c ∈ inside, isBlank c = false := by
  rw [definition, MacroParts.stringValue?_eq_some_iff, bodyWords_of_plain h,
    words_eq_singleton_iff]
  refine and_congr_right fun _ => ⟨fun ⟨_, hsolid⟩ c hc => hsolid c ?_, fun hsolid => ⟨?_, ?_⟩⟩
  · exact List.mem_append_left _ (List.mem_cons_of_mem _ hc)
  · exact List.cons_ne_nil _ _
  · intro c hc
    rcases List.mem_append.mp hc with hc | hc
    · rcases List.mem_cons.mp hc with rfl | hc
      · rfl
      · exact hsolid c hc
    · rw [List.mem_singleton.mp hc]
      rfl

/-- The value is that of the literal if and only if they agree on whatever is between quotes. -/
theorem value?_eq_literal?_iff (h : ∀ w ∈ words m.body, startsWith ['#'] w = false) :
    m.definition.value? = (Lexeme.literal? (trim m.body)).map String.ofList
      ↔ ∀ inside, trim m.body = '"' :: inside ++ ['"'] →
        ((∀ c ∈ inside, isBlank c = false) ↔ Lexeme.escapesQuotes inside = true) := by
  have hliteral : ∀ inside, (Lexeme.literal? (trim m.body)).map String.ofList
        = some (String.ofList inside)
      ↔ trim m.body = '"' :: inside ++ ['"'] ∧ Lexeme.escapesQuotes inside = true := by
    intro inside
    rw [← Lexeme.literal?_eq_some_iff, ← Option.map_some]
    exact (Option.map_injective fun _ _ => String.ofList_injective).eq_iff
  constructor
  · intro heq inside htrim
    have hsame := (value?_of_plain h).symm.trans (heq ▸ hliteral inside)
    simpa [htrim] using hsame
  · intro hagree
    refine Option.ext fun s => ?_
    rw [← s.ofList_toList, value?_of_plain h, hliteral]
    exact and_congr_right fun htrim => hagree _ htrim

/-- **The values of macros.** A macro that is defined on a line, and not again after it, is recorded
without parameters, and with a value if and only if its body is one quoted word. Where no word
of the body starts with `#`, that is the literal of the body if and only if what is between the
quotes is without blanks just when its quotes are escaped. -/
theorem stringValue_of_line {o : ScanOptions} {file text : String} {C : Catalog}
    {ts : List Token} {p : Pages} (hown : o.settings.grammar.KeepsOwn)
    (h : (Catalog.ofText o file text).result = .ok C)
    (herred : ∀ n ∈ (Catalog.ofText o file text).journal, n.topic ≠ .swallowedError)
    (hts : o.settings.grammar.selfContained ts = true) (hline : m.StandsIn text ts p)
    (hhidden : o.settings.grammar.hiddenMacros.contains (String.ofList m.name) = false)
    (hguard : o.settings.grammar.isHeaderGuard (String.ofList m.name) = false)
    (hadmits : Catalog.admits (String.ofList m.name) = true)
    (hlast : ∀ D ∈ o.settings.grammar.definitions
      ((Lexeme.directive m.line).tail ++ Feed.tokens ({ pages := p } : Lexer)),
        D.name ≠ String.ofList m.name) :
    ∃ e d, C.macros.get? (String.ofList m.name) = some e ∧ e.detail = some (.macroDef d)
      ∧ d.params = []
      ∧ (∀ inside, d.stringValue = some (String.ofList inside)
        ↔ m.bodyWords = ['"' :: inside ++ ['"']])
      ∧ ((∀ w ∈ words m.body, startsWith ['#'] w = false) →
        (d.stringValue = (Lexeme.literal? (trim m.body)).map String.ofList
          ↔ ∀ inside, trim m.body = '"' :: inside ++ ['"'] →
            ((∀ c ∈ inside, isBlank c = false) ↔ Lexeme.escapesQuotes inside = true))) := by
  have hdefs := definitions_of_standsIn hts hline hhidden hguard
  obtain ⟨e, d, hget, hdetail, hparams, hvalue⟩ :=
    Catalog.exists_macro hown h herred hdefs hlast hadmits
  refine ⟨e, d, hget, hdetail, hparams, fun inside => ?_, fun hplain => ?_⟩
  · rw [hvalue]
    exact MacroParts.stringValue?_eq_some_iff
  · rw [hvalue]
    exact value?_eq_literal?_iff hplain

/-- A definition that is written with single blanks. -/
def spaced (name body : List Char) (hne : name ≠ []) (hsolid : name.all (!isBlank ·) = true)
    (hplain : startsWith ['#'] name = false) (hparen : '(' ∉ name) : ObjectMacro where
  front := "#define ".toList
  name := name
  body := ' ' :: body
  hash := by decide
  word := by decide
  apart := ⟨' ', by decide, by decide⟩
  name_ne_nil := hne
  name_solid := solid_of_all hsolid
  name_plain := hplain
  paren_not_mem := hparen
  body_apart := fun c h => by cases h; rfl

def unit : ObjectMacro :=
  spaced "UNIT".toList "\"ms\"".toList (by decide) (by decide) (by decide) (by decide)

/-- A declaration and a definition. -/
def unitText : String := "int x;\n#define UNIT \"ms\"\n"

theorem standsIn_unit :
    unit.StandsIn unitText [⟨.name, "int"⟩, ⟨.name, "x"⟩, ⟨.separator, ";"⟩]
      { lines := [], turned := 2 } := by
  refine ⟨_, .cons (Prod.ext (by decide +kernel) rfl) (.cons (Prod.ext (by decide +kernel) rfl)
    (.cons (Prod.ext (by decide +kernel) rfl) .nil)), ?_, Prod.ext ?_ (Pages.eq_of_lines ?_ ?_)⟩
  · decide +kernel
  · decide +kernel
  · decide +kernel
  · decide +kernel

theorem stringValue_of_unit :
    ∃ C e d, (Catalog.ofText {} "a.h" unitText).result = .ok C ∧ C.macros.get? "UNIT" = some e
      ∧ e.detail = some (.macroDef d) ∧ d.params = [] ∧ d.stringValue = some "ms" := by
  obtain ⟨C, hC⟩ : ∃ C, (Catalog.ofText {} "a.h" unitText).result = .ok C :=
    Outcome.exists_ok (by decide +kernel)
  obtain ⟨e, d, hget, hdetail, hparams, hvalue, -⟩ :=
    stringValue_of_line (o := {}) (by decide +kernel) hC (by decide +kernel) (by decide +kernel)
      standsIn_unit (by decide +kernel) (by decide +kernel) (by decide +kernel) (by decide +kernel)
  exact ⟨C, e, d, hC, hget, hdetail, hparams, (hvalue "ms".toList).mpr (by decide +kernel)⟩

def greeting : ObjectMacro :=
  spaced "GREETING".toList "\"hello world\"".toList (by decide) (by decide) (by decide) (by decide)

def pair : ObjectMacro :=
  spaced "PAIR".toList "\"a\"\"b\"".toList (by decide) (by decide) (by decide) (by decide)

/-- A literal with a blank in it, and two literals side by side. -/
def literalsText : String := "#define GREETING \"hello world\"\n#define PAIR \"a\"\"b\"\n"

/-- The literal is no value, and the two literals are one. -/
theorem stringValue_of_literals :
    (∃ p, greeting.StandsIn literalsText [] p)
      ∧ Lexeme.literal? (trim greeting.body) = some "hello world".toList
      ∧ ((Catalog.ofText {} "a.h" literalsText).result.toOption.bind
          (·.macros.get? "GREETING")).bind (·.detail) = some (.macroDef {})
      ∧ (∃ p, pair.StandsIn literalsText [⟨.directive, "#define"⟩, ⟨.directive, "GREETING"⟩,
          ⟨.directive, "\"hello"⟩, ⟨.directive, "world\""⟩] p)
      ∧ Lexeme.literal? (trim pair.body) = none
      ∧ ((Catalog.ofText {} "a.h" literalsText).result.toOption.bind
          (·.macros.get? "PAIR")).bind (·.detail)
        = some (.macroDef { stringValue := some "a\"\"b" }) := by
  refine ⟨⟨_, _, .nil, rfl, Prod.ext ?_ rfl⟩, ?_, ?_, ⟨_, _, .cons (Prod.ext ?_ rfl)
    (.cons (Prod.ext ?_ rfl) (.cons (Prod.ext ?_ rfl) (.cons (Prod.ext ?_ rfl) .nil))), ?_,
      Prod.ext ?_ rfl⟩, ?_, ?_⟩
  all_goals decide +kernel

end ObjectMacro

end HeaderAtlas
