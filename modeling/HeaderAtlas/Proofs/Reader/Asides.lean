import HeaderAtlas.Proofs.Directives
import HeaderAtlas.Proofs.Scanner.Slot

/-!
# What stands between tokens

Between two tokens of the grammar there may be comments, directives and words that are
dropped. They are taken in by the step from the one token to the other. What they leave
behind is told here: the pending comment and the guards, which make up the `Context` of
what comes next, and the gist of what was recorded.

A token may itself be written in several ways: an attribute before a `;` belongs to it.
A `Cell` is a token of the grammar as it is written, with what stands before it.
-/

namespace HeaderAtlas

variable {σ : Type} [Feed σ] {env : ScanEnv}

namespace Token

/-- A name. -/
def word (text : String) : Token := ⟨.name, text⟩

/-- A separator. -/
def sep (text : String) : Token := ⟨.separator, text⟩

theorem isSep_iff {t : Token} {text : String} : t.isSep text = true ↔ t = sep text := by
  obtain ⟨cls, x⟩ := t
  simp [isSep, sep]

theorem isName_of_isSep {t : Token} {text : String} (h : t.isSep text = true) :
    t.isName = false := by
  rw [isSep_iff.mp h]
  rfl

end Token

/-! ## Tokens to come -/

namespace TokenStream

/-- The stream gives these tokens, and then no more. -/
def Supplies (st : TokenStream σ) : List Token → Prop
  | [] => st.next.1 = none
  | t :: ts => st.next.1 = some t ∧ Supplies st.next.2 ts

instance decidableSupplies : (st : TokenStream σ) → (ts : List Token) → Decidable (st.Supplies ts)
  | st, [] => inferInstanceAs (Decidable (st.next.1 = none))
  | st, t :: ts =>
    have := decidableSupplies st.next.2 ts
    inferInstanceAs (Decidable (st.next.1 = some t ∧ st.next.2.Supplies ts))

theorem supplies_list (ts : List Token) :
    Supplies (⟨ts, none⟩ : TokenStream (List Token)) ts := by
  induction ts with
  | nil => rfl
  | cons t ts ih => exact ⟨rfl, ih⟩

theorem next_push {st : TokenStream σ} (hheld : st.held = none) (t : Token) :
    (st.push t).next = (some t, st) := by
  rw [next_of_held (show (st.push t).held = some t from rfl), ← hheld]
  rfl

/-- A token that was put back comes first. -/
theorem Supplies.push {st : TokenStream σ} {ts : List Token} (h : st.Supplies ts)
    (hheld : st.held = none) (t : Token) : (st.push t).Supplies (t :: ts) := by
  rw [Supplies, next_push hheld]
  exact ⟨rfl, h⟩

/-- Skipping tokens leaves those after them. -/
theorem Supplies.skip {st : TokenStream σ} {ts ts' : List Token}
    (h : st.Supplies (ts ++ ts')) : (st.skip ts.length).Supplies ts' := by
  induction ts generalizing st with
  | nil => exact h
  | cons t ts ih => exact ih h.2

theorem skip_succ (st : TokenStream σ) (n : Nat) : st.skip (n + 1) = (st.skip n).next.2 := by
  induction n generalizing st with
  | zero => rfl
  | succ n ih => exact ih st.next.2

theorem Supplies.next_skip {st : TokenStream σ} {ts : List Token} {i : Nat} {t : Token}
    (h : st.Supplies ts) (ht : ts[i]? = some t) : (st.skip i).next.1 = some t := by
  induction ts generalizing st i with
  | nil => cases ht
  | cons u us ih =>
    cases i with
    | zero => exact h.1.trans ht
    | succ i =>
      have hrest : (st.next.2.skip i).next.1 = some t := ih h.2 ht
      exact hrest

end TokenStream

/-- Is the token handed on by the filter as it is? -/
def GrammarSettings.passes (g : GrammarSettings) (t : Token) : Bool :=
  match t.cls with
  | .comment | .directive => false
  | .name =>
    t.text != "__const" && t.text != "__attribute" && t.text != "__attribute__"
      && !g.ignoredWords.contains t.text
  | _ => true

theorem Scanner.seek_of_passes [LawfulFeed σ] {t : Token} (s : Scanner σ)
    (h : env.settings.grammar.passes t = true) : seek env (some t) s = (some t, s) := by
  unfold GrammarSettings.passes at h
  cases ht : t.cls with
  | comment => rw [ht] at h; cases h
  | directive => rw [ht] at h; cases h
  | name =>
    rw [ht] at h
    simp only [Bool.and_eq_true, bne_iff_ne, ne_eq, Bool.not_eq_true'] at h
    obtain ⟨⟨⟨hconst, ha⟩, ha'⟩, hignored⟩ := h
    refine seek_name ht hconst (by simp [ha, ha']) ?_
    simpa [NameMap.contains] using hignored
  | operator => exact seek_other (by rw [ht]; nofun) (by rw [ht]; nofun) (by rw [ht]; nofun)
  | separator => exact seek_other (by rw [ht]; nofun) (by rw [ht]; nofun) (by rw [ht]; nofun)
  | string => exact seek_other (by rw [ht]; nofun) (by rw [ht]; nofun) (by rw [ht]; nofun)

/-- The next token of the grammar. -/
def Scanner.fetch [LawfulFeed σ] (env : ScanEnv) (s : Scanner σ) : Option Token × Scanner σ :=
  seek env s.stream.next.1 { s with stream := s.stream.next.2 }

theorem Scanner.advance_of_fetch [LawfulFeed σ] {s s' : Scanner σ} {t? : Option Token}
    (h : s.fetch env = (t?, s')) :
    s.advance env
      = { s' with current := t?, position := s.position + s.current.toList.length } := by
  rw [advance, show seek env s.stream.next.1 { s with stream := s.stream.next.2 } = _ from h]

/-! ## What was recorded, without its place -/

/-- What a declaration finds when it is recorded. -/
structure Context where
  /-- The pending comment. -/
  comment : Option String
  guards : Guards

/-- The context of a state. -/
def Scanner.context (s : Scanner σ) : Context := ⟨s.comment, s.guards⟩

/-- Do comments document what is in this table? -/
def Shelf.isDocumented : Shelf → Bool
  | functions | typedefs | macros => true
  | _ => false

/-- What a record says of a documented name, apart from where it was made. -/
structure Gist where
  name : String
  category : Category
  guards : List String
  detail : Option Detail
  extra : Option String
deriving DecidableEq

/-- The gist of a finding, if it is about a documented declaration. -/
def Catalog.Finding.gist? : Finding → Option Gist
  | declaration name category o =>
    if category.shelf.isDocumented then some ⟨name, category, o.guards.getD [], o.detail, o.extra⟩
    else none
  | use .. => none

/-- The gists of what a scan has found. -/
def Scanner.gists (s : Scanner σ) : List Gist := s.findings.filterMap Catalog.Finding.gist?

/-- The gist of a macro with the given words. Hidden macros and header guards have none. -/
def MacroParts.gist? (env : ScanEnv) (c : Context) (words : List String) : Option Gist :=
  match ofWords? words with
  | none => none
  | some m =>
    let g := env.settings.grammar
    if g.hiddenMacros.contains m.name || g.isHeaderGuard m.name then none
    else
      let doc := (DocBlock.readMacro c.comment m.name).value
      some ⟨m.name, .macroDef, c.guards.active, some (.macroDef
        { params := m.params
          args := doc.args
          description := doc.description
          stringValue := m.stringValue? }), none⟩

/-! ## Asides -/

/-- What is taken in between two tokens. -/
inductive Aside where
  | comment (text : String)
  | directive (word : String) (args : List String)
  /-- An ignored word and the tokens that are dropped with it. -/
  | ignored (word : String) (dropped : List Token)

namespace Aside

/-- The tokens that are taken in. -/
def tokens : Aside → List Token
  | comment text => [⟨.comment, text⟩]
  | directive word args => ⟨.directive, word⟩ :: args.map fun w => ⟨.directive, w⟩
  | ignored word dropped => .word word :: dropped

/-- Is it taken in as a whole? The word of a directive starts with `#`, and no other word
does. As many tokens are dropped as an ignored word asks for. -/
def isLegal (g : GrammarSettings) : Aside → Bool
  | comment _ => true
  | directive word args =>
    Text.startsWith ['#'] word.toList && args.all fun w => !Text.startsWith ['#'] w.toList
  | ignored word dropped =>
    !(["__const", "__attribute", "__attribute__"].contains word)
      && g.ignoredWords.get? word == some dropped.length

/-- Does it record nothing? -/
def isSilent : Aside → Bool
  | directive word _ => word != "#define"
  | comment _ | ignored .. => true

/-- Is it anything but a directive? -/
def isQuiet : Aside → Bool
  | directive .. => false
  | comment _ | ignored .. => true

/-- The directive, if it is one. -/
def directive? : Aside → Option Directive
  | directive word args => some ⟨word, args⟩
  | comment _ | ignored .. => none

/-- The context afterwards. -/
def after (env : ScanEnv) (c : Context) : Aside → Context
  | comment text =>
    { c with
      comment := some (match c.comment with
        | some p => if Text.startsWith ['*'] text.toList then text else p ++ text
        | none => text) }
  | directive word args =>
    { comment :=
        if word = "#define" && (MacroParts.gist? env c args).isSome then none else c.comment
      guards := c.guards.obey ⟨word, args⟩ }
  | ignored .. => c

/-- What is recorded on the way. -/
def gist? (env : ScanEnv) (c : Context) : Aside → Option Gist
  | directive word args => if word = "#define" then MacroParts.gist? env c args else none
  | comment _ | ignored .. => none

/-- The tokens of several asides. -/
def allTokens (as : List Aside) : List Token := as.flatMap tokens

/-- The context after several asides. -/
def afterAll (env : ScanEnv) (c : Context) (as : List Aside) : Context := as.foldl (after env) c

/-- What several asides record. -/
def gistsOf (env : ScanEnv) : Context → List Aside → List Gist
  | _, [] => []
  | c, a :: as => (a.gist? env c).toList ++ gistsOf env (a.after env c) as

theorem allTokens_append (as bs : List Aside) :
    allTokens (as ++ bs) = allTokens as ++ allTokens bs := List.flatMap_append

theorem afterAll_append (c : Context) (as bs : List Aside) :
    afterAll env c (as ++ bs) = afterAll env (afterAll env c as) bs := List.foldl_append

theorem gistsOf_silent (c : Context) {as : List Aside} (h : as.all isSilent = true) :
    gistsOf env c as = [] := by
  induction as generalizing c with
  | nil => rfl
  | cons a as ih =>
    rw [List.all_cons, Bool.and_eq_true] at h
    rw [gistsOf, ih _ h.2, List.append_nil]
    cases a with
    | directive word args =>
      simp only [isSilent, bne_iff_ne, ne_eq] at h
      simp [gist?, h.1]
    | comment text => rfl
    | ignored word dropped => rfl

/-- The guards are moved by the directives, whatever the comment is. -/
theorem guards_afterAll (c : Context) (as : List Aside) :
    (afterAll env c as).guards = (as.filterMap directive?).foldl Guards.obey c.guards := by
  induction as generalizing c with
  | nil => rfl
  | cons a as ih =>
    refine (ih (a.after env c)).trans ?_
    cases a <;> rfl

theorem isSilent_of_isQuiet {a : Aside} (h : a.isQuiet = true) : a.isSilent = true := by
  cases a with
  | directive word args => cases h
  | comment text => rfl
  | ignored word dropped => rfl

end Aside

/-! ## The words of a directive -/

/-- The words are all taken, and one token more. -/
theorem TokenStream.Supplies.directiveArgs [LawfulFeed σ] {st : TokenStream σ} {args : List String}
    {rest : List Token} (hargs : (args.all fun w => !Text.startsWith ['#'] w.toList) = true)
    (hrest : ∀ t, rest.head? = some t → t.continuesDirective = false)
    (h : st.Supplies (args.map (fun w => ⟨.directive, w⟩) ++ rest)) :
    ∃ st', st.directiveArgs = (args, rest.head?, st') ∧ (rest ≠ [] → st'.Supplies rest.tail) := by
  induction args generalizing st with
  | nil =>
    rw [List.map_nil, List.nil_append] at h
    cases rest with
    | nil => exact ⟨st.next.2, directiveArgs_of_none (Prod.ext h rfl), nofun⟩
    | cons t ts =>
      exact ⟨st.next.2, directiveArgs_of_other (Prod.ext h.1 rfl) (hrest t rfl), fun _ => h.2⟩
  | cons w args ih =>
    rw [List.all_cons, Bool.and_eq_true] at hargs
    obtain ⟨hnext, hsupplies⟩ := h
    obtain ⟨st', hst', hrest'⟩ := ih hargs.2 hsupplies
    refine ⟨st', ?_, hrest'⟩
    have hw : Token.continuesDirective ⟨.directive, w⟩ = true := by
      simpa [Token.continuesDirective] using hargs.1
    rw [directiveArgs_of_continues (Prod.ext hnext rfl) hw, hst']

namespace Scanner

/-! ## The effect of a directive -/

omit [Feed σ] in
theorem gists_find (s : Scanner σ) (f : Catalog.Finding) :
    (s.find [f]).gists = s.gists ++ f.gist?.toList := by
  simp only [gists, find, List.filterMap_append]
  cases h : f.gist? <;> simp [h]

theorem define_effect (s : Scanner σ) (args : List String) :
    (s.define env args).comment
        = (if (MacroParts.gist? env s.context args).isSome then none else s.comment)
      ∧ (s.define env args).gists = s.gists ++ (MacroParts.gist? env s.context args).toList := by
  cases hparts : MacroParts.ofWords? args with
  | none =>
    simp only [define, MacroParts.gist?, hparts]
    exact ⟨rfl, (List.append_nil _).symm⟩
  | some m =>
    cases h : (env.settings.grammar.hiddenMacros.contains m.name
        || env.settings.grammar.isHeaderGuard m.name) with
    | true =>
      simp only [define, MacroParts.gist?, hparts, h, if_true]
      exact ⟨rfl, (List.append_nil _).symm⟩
    | false =>
      simp only [define, MacroParts.gist?, hparts, h, Bool.false_eq_true, if_false]
      exact ⟨rfl, gists_find (s.warn env _ _) _⟩

theorem obey_effect (s : Scanner σ) (word : String) (args : List String) :
    (s.obey env word args).context = (Aside.directive word args).after env s.context
      ∧ (s.obey env word args).gists
        = s.gists ++ ((Aside.directive word args).gist? env s.context).toList := by
  have hguards := guards_obey env s word args
  have hcontext : ∀ {c : Option String}, (s.obey env word args).comment = c →
      (s.obey env word args).context = ⟨c, s.guards.obey ⟨word, args⟩⟩ := by
    rintro c rfl
    rw [← hguards]
    rfl
  by_cases hdefine : word = "#define"
  · subst hdefine
    obtain ⟨hcomment, hgists⟩ := define_effect s args
    refine ⟨(hcontext hcomment).trans ?_, hgists⟩
    simp only [Aside.after, decide_true, Bool.true_and]
    rfl
  have hcomment : (s.obey env word args).comment = s.comment
      ∧ (s.obey env word args).gists = s.gists := by
    unfold obey
    dsimp only
    split
    · split
      · exact ⟨rfl, rfl⟩
      · exact ⟨rfl, (gists_find s _).trans (List.append_nil _)⟩
    · exact absurd rfl hdefine
    all_goals exact ⟨rfl, rfl⟩
  refine ⟨(hcontext hcomment.1).trans ?_, ?_⟩
  · simp [Aside.after, context, hdefine]
  · rw [hcomment.2, Aside.gist?, if_neg hdefine]
    exact (List.append_nil _).symm

/-! ## Taking asides in -/

variable [LawfulFeed σ]

theorem fetch_comment {s : Scanner σ} {text : String}
    (h : s.stream.next.1 = some ⟨.comment, text⟩) :
    s.fetch env = (absorb env text { s with stream := s.stream.next.2 }).fetch env := by
  rw [fetch, h, seek_comment rfl]
  rfl

/-- A directive is carried out when the token after it has been read; that token is then
as good as put back. -/
theorem fetch_directive {s : Scanner σ} {word : String} {args : List String} {t : Token}
    {st : TokenStream σ} (h : s.stream.next.1 = some ⟨.directive, word⟩)
    (hargs : s.stream.next.2.directiveArgs = (args, some t, st)) :
    s.fetch env
      = { { s with stream := st }.obey env word args with stream := st.push t }.fetch env := by
  have hheld : st.held = none := by simpa [hargs] using s.stream.next.2.held_directiveArgs
  rw [fetch, h, seek_directive rfl, fetch]
  dsimp only
  rw [hargs, TokenStream.next_push hheld]
  dsimp only
  have hstream : ∀ u : Scanner σ, u.stream = st → { u with stream := st } = u := by
    rintro u rfl
    rfl
  exact congrArg (seek env (some t))
    (hstream ({ s with stream := st }.obey env word args) (stream_obey ..)).symm

/-- An ignored word and what is dropped with it. -/
theorem fetch_ignored {s : Scanner σ} {word : String} {dropped : List Token}
    (hlegal : (Aside.ignored word dropped).isLegal env.settings.grammar = true)
    (h : s.stream.next.1 = some (.word word)) :
    s.fetch env = { s with stream := s.stream.next.2.skip dropped.length }.fetch env := by
  simp only [Aside.isLegal, List.contains_cons, List.contains_nil, Bool.or_false,
    Bool.and_eq_true, Bool.not_eq_true', Bool.or_eq_false_iff, beq_eq_false_iff_ne, ne_eq,
    beq_iff_eq] at hlegal
  obtain ⟨⟨hconst, ha, ha'⟩, hget⟩ := hlegal
  rw [fetch, h, seek_ignored (t := .word word) rfl hconst (by simp [Token.word, ha, ha']) hget]
  rfl

/-- No aside goes on with a directive. -/
theorem not_continues_asides {as : List Aside} {rest : List Token}
    (hlegal : as.all (Aside.isLegal env.settings.grammar) = true)
    (hrest : ∀ t, rest.head? = some t → t.continuesDirective = false) (t : Token)
    (ht : (Aside.allTokens as ++ rest).head? = some t) : t.continuesDirective = false := by
  cases as with
  | nil => exact hrest t ht
  | cons a as =>
    rw [List.all_cons, Bool.and_eq_true] at hlegal
    cases a with
    | comment text => cases ht; rfl
    | directive word args =>
      cases ht
      rw [Aside.isLegal, Bool.and_eq_true] at hlegal
      simp [Token.continuesDirective, hlegal.1.1]
    | ignored word dropped => cases ht; rfl

/-- What comes before the tokens `rest` is taken in, with the state `s'`. What is left to
fetch is the first of them; if there is none, that is found out at once. -/
structure TakesIn (env : ScanEnv) (s : Scanner σ) (rest : List Token) (s' : Scanner σ) : Prop where
  ends : rest = [] → s.fetch env = (none, s')
  goesOn : rest ≠ [] → s.fetch env = s'.fetch env ∧ s'.stream.Supplies rest

theorem TakesIn.of_fetch {s u s' : Scanner σ} {rest : List Token}
    (hfetch : s.fetch env = u.fetch env) (h : TakesIn env u rest s') : TakesIn env s rest s' :=
  ⟨fun hrest => hfetch.trans (h.ends hrest),
    fun hrest => ⟨hfetch.trans (h.goesOn hrest).1, (h.goesOn hrest).2⟩⟩

theorem exists_takesIn (env : ScanEnv) {s : Scanner σ} {rest : List Token}
    (h : s.stream.Supplies rest) :
    ∃ s', TakesIn env s rest s' ∧ s'.context = s.context ∧ s'.findings = s.findings := by
  cases rest with
  | nil =>
    refine ⟨{ s with stream := s.stream.next.2 }, ⟨fun _ => ?_, fun hne => absurd rfl hne⟩,
      rfl, rfl⟩
    rw [fetch, show s.stream.next.1 = none from h, seek_none]
  | cons t ts => exact ⟨s, ⟨fun heq => (by cases heq), fun _ => ⟨rfl, h⟩⟩, rfl, rfl⟩

omit [Feed σ] [LawfulFeed σ] in
theorem gists_eq {s s' : Scanner σ} (h : s'.findings = s.findings) : s'.gists = s.gists :=
  congrArg (List.filterMap _) h

/-- An aside is taken in. Nothing is found unless it is a directive. -/
theorem takesIn_aside {a : Aside} {rest : List Token} {s : Scanner σ}
    (hlegal : a.isLegal env.settings.grammar = true)
    (hrest : ∀ t, rest.head? = some t → t.continuesDirective = false)
    (h : s.stream.Supplies (a.tokens ++ rest)) :
    ∃ s', TakesIn env s rest s' ∧ s'.context = a.after env s.context
      ∧ s'.gists = s.gists ++ (a.gist? env s.context).toList
      ∧ (a.isQuiet = true → s'.findings = s.findings) := by
  cases a with
  | comment text =>
    obtain ⟨s', hin, hcontext, hfindings⟩ := exists_takesIn env
      (s := absorb env text { s with stream := s.stream.next.2 }) h.2
    exact ⟨s', hin.of_fetch (fetch_comment h.1), hcontext,
      (gists_eq hfindings).trans (List.append_nil _).symm, fun _ => hfindings⟩
  | ignored word dropped =>
    obtain ⟨s', hin, hcontext, hfindings⟩ := exists_takesIn env
      (s := { s with stream := s.stream.next.2.skip dropped.length }) h.2.skip
    exact ⟨s', hin.of_fetch (fetch_ignored hlegal h.1), hcontext,
      (gists_eq hfindings).trans (List.append_nil _).symm, fun _ => hfindings⟩
  | directive word args =>
    rw [Aside.isLegal, Bool.and_eq_true] at hlegal
    obtain ⟨st, hst, hsupplies⟩ := h.2.directiveArgs hlegal.2 hrest
    have heffect : ({ s with stream := st }.obey env word args).context = _ ∧ _ :=
      obey_effect { s with stream := st } word args
    obtain ⟨hcontext, hgists⟩ := heffect
    cases rest with
    | nil =>
      refine ⟨{ s with stream := st }.obey env word args,
        ⟨fun _ => ?_, fun hne => absurd rfl hne⟩, hcontext, hgists, nofun⟩
      rw [fetch, h.1, seek_directive rfl]
      dsimp only
      rw [hst]
      exact seek_none
    | cons x xs =>
      have hheld : st.held = none := by
        simpa [hst] using s.stream.next.2.held_directiveArgs
      exact ⟨{ { s with stream := st }.obey env word args with stream := st.push x },
        ⟨fun heq => (by cases heq),
          fun _ => ⟨fetch_directive h.1 hst, (hsupplies (by simp)).push hheld x⟩⟩,
        hcontext, hgists, nofun⟩

/-- Asides are taken in one after the other. -/
theorem takesIn_asides {as : List Aside} {rest : List Token} {s : Scanner σ}
    (hlegal : as.all (Aside.isLegal env.settings.grammar) = true)
    (hrest : ∀ t, rest.head? = some t → t.continuesDirective = false)
    (h : s.stream.Supplies (Aside.allTokens as ++ rest)) :
    ∃ s', TakesIn env s rest s' ∧ s'.context = Aside.afterAll env s.context as
      ∧ s'.gists = s.gists ++ Aside.gistsOf env s.context as
      ∧ (as.all Aside.isQuiet = true → s'.findings = s.findings) := by
  induction as generalizing s with
  | nil =>
    obtain ⟨s', hin, hcontext, hfindings⟩ := exists_takesIn env h
    exact ⟨s', hin, hcontext, (gists_eq hfindings).trans (List.append_nil _).symm,
      fun _ => hfindings⟩
  | cons a as ih =>
    rw [List.all_cons, Bool.and_eq_true] at hlegal
    rw [Aside.allTokens, List.flatMap_cons, List.append_assoc] at h
    obtain ⟨u, hin, hcontext, hgists, hfindings⟩ :=
      takesIn_aside hlegal.1 (not_continues_asides hlegal.2 hrest) h
    cases hnext : Aside.allTokens as ++ rest with
    | nil =>
      -- The aside is the last of all.
      obtain ⟨has, hnil⟩ := List.append_eq_nil_iff.mp hnext
      have hempty : as = [] := by
        cases as with
        | nil => rfl
        | cons a as => cases a <;> cases has
      subst hempty hnil
      refine ⟨u, hin, hcontext, ?_, fun hquiet => hfindings (by simpa using hquiet)⟩
      rw [hgists, Aside.gistsOf, Aside.gistsOf, List.append_nil]
    | cons x xs =>
      obtain ⟨hfetch, hsupplies⟩ := hin.goesOn (by rw [hnext]; simp)
      obtain ⟨s', hin', hcontext', hgists', hfindings'⟩ := ih hlegal.2 hsupplies
      refine ⟨s', hin'.of_fetch hfetch, ?_, ?_, fun hquiet => ?_⟩
      · rw [hcontext', hcontext]
        rfl
      · rw [hgists', hcontext, hgists, List.append_assoc]
        rfl
      · rw [List.all_cons, Bool.and_eq_true] at hquiet
        rw [hfindings' hquiet.2, hfindings hquiet.1]

end Scanner

/-! ## Cells -/

/-- How a token of the grammar is written. -/
inductive Spelling where
  /-- As it is. -/
  | plain (token : Token)
  /-- `__const` for `const`. -/
  | const
  /-- With an attribute before it. -/
  | attributed (word : String) (skipped : List Token) (token : Token)

namespace Spelling

/-- What is written. -/
def tokens : Spelling → List Token
  | plain t => [t]
  | const => [.word "__const"]
  | attributed word skipped t => .word word :: (skipped ++ [t])

/-- What is handed on. -/
def token : Spelling → Token
  | plain t => t
  | const => .word "const"
  | attributed _ _ t => t

/-- Does it fit what is written? An attribute goes up to the first `;`. -/
def isApt : Spelling → Bool
  | attributed word skipped t =>
    ["__attribute", "__attribute__"].contains word && skipped.all (·.text != ";")
      && t.text == ";"
  | plain _ | const => true

/-- Is it handed on? -/
def isLegal (g : GrammarSettings) (sp : Spelling) : Bool := g.passes sp.token && sp.isApt

theorem tokens_ne_nil (sp : Spelling) : sp.tokens ≠ [] := by
  cases sp <;> simp [tokens]

/-- What a token is written as does not go on with a directive. -/
theorem not_continues {g : GrammarSettings} {sp : Spelling} (hlegal : sp.isLegal g = true)
    (rest : List Token) (t : Token) (ht : (sp.tokens ++ rest).head? = some t) :
    t.continuesDirective = false := by
  rw [isLegal, Bool.and_eq_true] at hlegal
  cases sp with
  | plain u =>
    cases ht
    have hpasses := hlegal.1
    cases hcls : t.cls with
    | directive => rw [token, GrammarSettings.passes, hcls] at hpasses; cases hpasses
    | _ => simp [Token.continuesDirective, hcls]
  | const => cases ht; rfl
  | attributed word skipped u => cases ht; rfl

end Spelling

/-- A token of the grammar as it is written, and what stands before it. -/
structure Cell where
  asides : List Aside
  spelling : Spelling

namespace Cell

/-- The token. -/
def token (c : Cell) : Token := c.spelling.token

/-- What is written. -/
def tokens (cs : List Cell) : List Token :=
  cs.flatMap fun c => Aside.allTokens c.asides ++ c.spelling.tokens

/-- What stands before the tokens. -/
def allAsides (cs : List Cell) : List Aside := cs.flatMap asides

/-- Is the token handed on, after what stands before it? -/
def isLegal (g : GrammarSettings) (c : Cell) : Bool :=
  c.asides.all (Aside.isLegal g) && c.spelling.isLegal g

/-- Is nothing recorded before the token? -/
def isSilent (c : Cell) : Bool := c.asides.all Aside.isSilent

/-- Is there no directive before the token? -/
def isQuiet (c : Cell) : Bool := c.asides.all Aside.isQuiet

theorem isSilent_of_isQuiet {cs : List Cell} (h : cs.all isQuiet = true) :
    cs.all isSilent = true := by
  rw [List.all_eq_true] at h ⊢
  intro c hc
  have hquiet := h c hc
  rw [isQuiet, List.all_eq_true] at hquiet
  exact List.all_eq_true.mpr fun a ha => Aside.isSilent_of_isQuiet (hquiet a ha)

theorem tokens_cons (c : Cell) (cs : List Cell) :
    tokens (c :: cs) = Aside.allTokens c.asides ++ (c.spelling.tokens ++ tokens cs) := by
  simp [tokens]

theorem allAsides_cons (c : Cell) (cs : List Cell) :
    allAsides (c :: cs) = c.asides ++ allAsides cs := List.flatMap_cons

theorem allAsides_append (cs cs' : List Cell) :
    allAsides (cs ++ cs') = allAsides cs ++ allAsides cs' := List.flatMap_append

/-- The directives between the tokens. -/
def directives (cs : List Cell) : List Directive := (allAsides cs).filterMap Aside.directive?

theorem directives_cons (c : Cell) (cs : List Cell) :
    directives (c :: cs) = c.asides.filterMap Aside.directive? ++ directives cs := by
  rw [directives, allAsides_cons, List.filterMap_append]
  rfl

end Cell

variable [LawfulFeed σ]

/-- An attribute is skipped up to the first `;`. -/
theorem TokenStream.Supplies.skipAttribute {st : TokenStream σ} {skipped rest : List Token}
    {t : Token} (hskipped : skipped.all (·.text != ";") = true) (ht : t.text = ";")
    (h : st.Supplies (skipped ++ t :: rest)) :
    ∃ st', st.skipAttribute = (some t, st') ∧ st'.Supplies rest := by
  induction skipped generalizing st with
  | nil => exact ⟨st.next.2, skipAttribute_of_semicolon (Prod.ext h.1 rfl) ht, h.2⟩
  | cons u skipped ih =>
    rw [List.all_cons, Bool.and_eq_true, bne_iff_ne] at hskipped
    obtain ⟨st', hst', hrest⟩ := ih hskipped.2 h.2
    exact ⟨st', (skipAttribute_of_other (Prod.ext h.1 rfl) hskipped.1).trans hst', hrest⟩

namespace Scanner

/-- A token is handed on, however it is written. -/
theorem fetch_spelling {s : Scanner σ} {sp : Spelling} {rest : List Token}
    (hlegal : sp.isLegal env.settings.grammar = true)
    (h : s.stream.Supplies (sp.tokens ++ rest)) :
    ∃ st, s.fetch env = (some sp.token, { s with stream := st }) ∧ st.Supplies rest := by
  rw [Spelling.isLegal, Bool.and_eq_true] at hlegal
  cases sp with
  | plain t =>
    refine ⟨s.stream.next.2, ?_, h.2⟩
    rw [fetch, show s.stream.next.1 = some t from h.1]
    exact seek_of_passes _ hlegal.1
  | const =>
    refine ⟨s.stream.next.2, ?_, h.2⟩
    rw [fetch, show s.stream.next.1 = some (.word "__const") from h.1]
    exact seek_const rfl rfl
  | attributed word skipped t =>
    simp only [Spelling.isApt, List.contains_cons, List.contains_nil, Bool.or_false,
      Bool.and_eq_true, Bool.or_eq_true, beq_iff_eq] at hlegal
    obtain ⟨-, ⟨hword, hskipped⟩, ht⟩ := hlegal
    have hstream : s.stream.Supplies (.word word :: (skipped ++ t :: rest)) := by
      simpa [Spelling.tokens] using h
    obtain ⟨st, hst, hsupplies⟩ := hstream.2.skipAttribute hskipped ht
    refine ⟨st, ?_, hsupplies⟩
    have hattr : ((Token.word word).text = "__attribute"
        || (Token.word word).text = "__attribute__") = true := by
      rcases hword with rfl | rfl <;> rfl
    have hconst : (Token.word word).text ≠ "__const" := by
      rcases hword with rfl | rfl <;> decide
    rw [fetch, hstream.1, seek_attribute rfl hconst hattr]
    dsimp only
    rw [hst]
    rfl

theorem held_fetch (s : Scanner σ) : (s.fetch env).2.stream.held = none :=
  held_seek env _ _ s.stream.held_next

/-- What stands before a token is taken in, and the token is handed on. -/
theorem fetch_cell {s : Scanner σ} {c : Cell} {rest : List Token}
    (hlegal : c.isLegal env.settings.grammar = true)
    (h : s.stream.Supplies (Aside.allTokens c.asides ++ (c.spelling.tokens ++ rest))) :
    ∃ s', s.fetch env = (some c.token, s') ∧ s'.stream.held = none ∧ s'.stream.Supplies rest
      ∧ s'.context = Aside.afterAll env s.context c.asides
      ∧ s'.gists = s.gists ++ Aside.gistsOf env s.context c.asides
      ∧ (c.isQuiet = true → s'.findings = s.findings) := by
  rw [Cell.isLegal, Bool.and_eq_true] at hlegal
  obtain ⟨u, hin, hcontext, hgists, hfindings⟩ :=
    takesIn_asides hlegal.1 (Spelling.not_continues hlegal.2 rest) h
  obtain ⟨hfetch, hsupplies⟩ := hin.goesOn (by simp [c.spelling.tokens_ne_nil])
  obtain ⟨st, hspelling, hst⟩ := fetch_spelling hlegal.2 hsupplies
  rw [hspelling] at hfetch
  have hheld : (s.fetch env).2.stream.held = none := held_fetch s
  rw [hfetch] at hheld
  exact ⟨_, hfetch, hheld, hst, hcontext, hgists, hfindings⟩

end Scanner

end HeaderAtlas
