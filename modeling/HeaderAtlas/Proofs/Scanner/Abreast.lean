import HeaderAtlas.Proofs.Reader.Impartial
import HeaderAtlas.Proofs.Scanner.Findings
import HeaderAtlas.Proofs.Scanner.Heard
import HeaderAtlas.Proofs.Scanner.Kindred
import HeaderAtlas.Proofs.Scanner.Slot

/-!
# Two feeds that part and meet again

Two feeds give the same tokens up to a preprocessor line that is not the same in both, and from
the end of that line on they are the same but for lines (`Fork`). If the directives of the two
lines have the same effects, the scans stay kindred: they come to the same tokens and write down
the same, but for lines.

Not all words of the line are taken as directives. An attribute before it takes everything up to
the next `;`, and an ignored word the tokens that are dropped together with it. What is still to
be dropped where the line begins is a debt, which its words pay first. So the two lines have to
leave the same debt to what comes after them, and to have the same effects with what is left
(`GrammarSettings.hears`).

A scan may come to a halt between the words of the line, since the `;` that ends an attribute may
be one of them. Then the scans are at different words, with the same effects still to come
(`Landed`).
-/

namespace HeaderAtlas

/-! ## What is still to be dropped -/

/-- Tokens that are still to be dropped because of one before them. -/
inductive Debt where
  /-- So many tokens, because of an ignored word. -/
  | tokens (n : Nat)
  /-- Everything up to the next `;`, because of an attribute. -/
  | toSemicolon
deriving DecidableEq

/-- The debt that is left after the words of a preprocessor line, and the words that are left. -/
def Debt.pay : Debt → List Token → Debt × List Token
  | tokens n, ts => (tokens (n - ts.length), ts.drop n)
  | toSemicolon, ts =>
    match ts.dropWhile (·.text ≠ ";") with
    | [] => (toSemicolon, [])
    | _ :: ts => (tokens 0, ts)

/-- The effects of the directives among some tokens. -/
def Directive.effects (g : GrammarSettings) (ts : List Token) : List Effect :=
  (ofTokens ts).filterMap (effect? g)

namespace GrammarSettings

/-- The debt after a token that the filter looks at. -/
def due (g : GrammarSettings) (t : Token) : Debt :=
  if t.cls = .name then
    if t.text = "__const" then .tokens 0
    else if t.text = "__attribute" || t.text = "__attribute__" then .toSemicolon
    else .tokens (g.toll t.text)
  else .tokens 0

/-- The debt after one more token. -/
def owe (g : GrammarSettings) : Debt → Token → Debt
  | .tokens 0, t => g.due t
  | .tokens (n + 1), _ => .tokens n
  | .toSemicolon, t => if t.text = ";" then .tokens 0 else .toSemicolon

/-- What the words of a preprocessor line come to: the debt that is left after them, and the
effects of the directives among the words that are left. -/
def hears (g : GrammarSettings) (q : Debt) (ts : List Token) : Debt × List Directive.Effect :=
  ((q.pay ts).1, Directive.effects g (q.pay ts).2)

variable {g : GrammarSettings} {t : Token}

theorem due_of_cls (h : t.cls ≠ .name) : g.due t = .tokens 0 := if_neg h

section Words

variable (ht : t.cls = .name)

include ht

theorem due_of_const (h : t.text = "__const") : g.due t = .tokens 0 := by
  rw [due, if_pos ht, if_pos h]

theorem due_of_attribute (hconst : t.text ≠ "__const")
    (hattr : (t.text = "__attribute" || t.text = "__attribute__") = true) :
    g.due t = .toSemicolon := by
  rw [due, if_pos ht, if_neg hconst, if_pos hattr]

theorem due_of_word (hconst : t.text ≠ "__const")
    (hattr : ¬ (t.text = "__attribute" || t.text = "__attribute__") = true) :
    g.due t = .tokens (g.toll t.text) := by
  rw [due, if_pos ht, if_neg hconst, if_neg hattr]

end Words

/-- A settled token owes nothing. -/
theorem due_of_settled (h : Settled g t) : g.due t = .tokens 0 := by
  by_cases ht : t.cls = .name
  · by_cases hconst : t.text = "__const"
    · exact due_of_const ht hconst
    by_cases hattr : (t.text = "__attribute" || t.text = "__attribute__") = true
    · -- An attribute takes whatever comes next.
      have hmuted := h.muted [⟨.directive, "#"⟩]
      rw [muted_of_attribute ht hconst hattr] at hmuted
      exact absurd hmuted (by decide)
    · have hmuted := h.muted []
      rw [muted_of_word ht hconst hattr] at hmuted
      rw [due_of_word ht hconst hattr, hmuted]
  · exact due_of_cls ht

end GrammarSettings

theorem Token.cls_of_opensDirective {t : Token} (h : t.opensDirective = true) :
    t.cls = .directive := by
  simp only [opensDirective, Bool.and_eq_true, beq_iff_eq] at h
  exact h.1

theorem Token.not_continues_of_opens {t : Token} (h : t.opensDirective = true) :
    t.continuesDirective = false := by
  simp only [opensDirective, Bool.and_eq_true] at h
  simp [continuesDirective, h.2]

/-- The first directive comes first. -/
theorem Directive.effects_cons (g : GrammarSettings) {t : Token} (ht : t.cls = .directive)
    (ts : List Token) :
    effects g (t :: ts)
      = (effect? g ⟨t.text, (ts.takeWhile Token.continuesDirective).map Token.text⟩).toList
        ++ effects g (ts.dropWhile Token.continuesDirective) := by
  rw [effects, effects, ofTokens_dropWhile]
  cases ho : t.opensDirective with
  | true =>
    rw [ofTokens, ho, if_pos rfl, List.filterMap_cons]
    split
    · next hnone => rw [hnone]; rfl
    · next e hsome => rw [hsome]; rfl
  | false =>
    have hword : Text.startsWith ['#'] t.text.toList = false := by
      simpa [Token.opensDirective, ht] using ho
    rw [ofTokens_cons_of_not_opens ho, effect?_of_not_opens g _ hword]
    rfl

/-- A word that is no directive makes no difference before others. -/
theorem Directive.effects_of_not_opens (g : GrammarSettings) {t : Token}
    (h : t.opensDirective = false) (ts : List Token) : effects g (t :: ts) = effects g ts := by
  rw [effects, ofTokens_cons_of_not_opens h, effects]

variable {σ : Type} [Feed σ]

theorem Scanner.kindred_obey {ν : Type} {note : Notice → ν} {env : ScanEnv} (s : Scanner σ)
    (hnote : Notice.Blind note) (hmarker : s.guards.marker = env.settings.grammar.guardMarker)
    (st : TokenStream σ) (word : String) (args : List String) :
    (({ s with stream := st } : Scanner σ).obey env word args).Kindred note
      ((Directive.effect? env.settings.grammar ⟨word, args⟩).toList.foldl (act env) s) := by
  rw [obey_eq_act env { s with stream := st } hmarker]
  cases Directive.effect? env.settings.grammar ⟨word, args⟩ with
  | none => exact (Kindred.refl s).withStream st s.stream
  | some e => exact ((Kindred.refl s).withStream st s.stream).act hnote e

/-! ## The words of a line -/

/-- The feed gives these words of a preprocessor line and comes to `c`, as it does if what is left
of the line is dropped before. -/
inductive Words : List Token → σ → σ → Prop
  | nil {c} (hdrop : Feed.discardLine c = c)
      (hfresh : ∀ t, (Feed.next c).1 = some t → t.continuesDirective = false) : Words [] c c
  | cons {t T a a' c} (hdrop : Feed.discardLine a = c) (hcls : t.cls = .directive)
      (hnext : Feed.next a = (some t, a')) (h : Words T a' c) : Words (t :: T) a c

theorem TokenStream.next_of_feed {a a' : σ} {t : Option Token} (h : Feed.next a = (t, a')) :
    next ⟨a, none⟩ = (t, ⟨a', none⟩) := by
  simp [next, h]

/-- A token that does not go on with a directive ends its words. -/
theorem TokenStream.directiveArgs_of_fresh [LawfulFeed σ] {st : TokenStream σ}
    (h : ∀ t, st.next.1 = some t → t.continuesDirective = false) :
    st.directiveArgs = ([], st.next) := by
  cases hnext : st.next with
  | mk next rest =>
    rw [hnext] at h
    cases next with
    | none => exact directiveArgs_of_none hnext
    | some t => exact directiveArgs_of_other hnext (h t rfl)

namespace Words

variable {T : List Token} {a c : σ} {t : Token}

theorem drop (h : Words T a c) : Feed.discardLine a = c := by
  cases h with
  | nil hdrop _ => exact hdrop
  | cons hdrop _ _ _ => exact hdrop

theorem skip (n : Nat) (h : Words T a c) :
    ∃ a', TokenStream.skip n ⟨a, none⟩ = TokenStream.skip (n - T.length) ⟨a', none⟩
      ∧ Words (T.drop n) a' c := by
  induction n generalizing T a with
  | zero => exact ⟨a, by rw [Nat.zero_sub], h⟩
  | succ n ih =>
    cases h with
    | nil hdrop hfresh => exact ⟨_, rfl, .nil hdrop hfresh⟩
    | @cons t T a a' _ hdrop hcls hnext h =>
      obtain ⟨a₂, hskip, hwords⟩ := ih h
      refine ⟨a₂, ?_, hwords⟩
      rw [TokenStream.skip, TokenStream.next_of_feed hnext, List.length_cons,
        Nat.add_sub_add_right, hskip]

variable [LawfulFeed σ]

/-- An attribute ends at a `;` among the words, or it goes on after them. -/
theorem skipAttribute (h : Words T a c) :
    (Debt.toSemicolon.pay T = (.toSemicolon, [])
        ∧ TokenStream.skipAttribute ⟨a, none⟩ = TokenStream.skipAttribute ⟨c, none⟩)
      ∨ ∃ U a', Debt.toSemicolon.pay T = (.tokens 0, U)
        ∧ TokenStream.skipAttribute ⟨a, none⟩ = (some ⟨.directive, ";"⟩, ⟨a', none⟩)
        ∧ Words U a' c := by
  induction h with
  | nil => exact .inl ⟨rfl, rfl⟩
  | @cons t T a a' c _ hcls hnext h ih =>
    have hnext := TokenStream.next_of_feed hnext
    by_cases ht : t.text = ";"
    · have hsemicolon : t = ⟨.directive, ";"⟩ := by rw [← ht, ← hcls]
      refine .inr ⟨T, a', ?_, ?_, h⟩
      · rw [Debt.pay, List.dropWhile_cons_of_neg (by simp [ht])]
      · rw [TokenStream.skipAttribute_of_semicolon hnext ht, hsemicolon]
    · rw [Debt.pay, List.dropWhile_cons_of_pos (by simp [ht]), ← Debt.pay,
        TokenStream.skipAttribute_of_other hnext ht]
      exact ih

theorem directiveArgs (h : Words T a c) :
    ∃ a', TokenStream.directiveArgs ⟨a, none⟩
        = ((T.takeWhile Token.continuesDirective).map Token.text, TokenStream.next ⟨a', none⟩)
      ∧ Words (T.dropWhile Token.continuesDirective) a' c := by
  induction h with
  | nil hdrop hfresh => exact ⟨_, TokenStream.directiveArgs_of_fresh hfresh, .nil hdrop hfresh⟩
  | @cons t T a a' c hdrop hcls hnext h ih =>
    have hnext' := TokenStream.next_of_feed hnext
    cases hc : t.continuesDirective with
    | true =>
      obtain ⟨a₂, hargs, hwords⟩ := ih
      rw [TokenStream.directiveArgs_of_continues hnext' hc, hargs, List.takeWhile_cons_of_pos hc,
        List.dropWhile_cons_of_pos hc]
      exact ⟨a₂, rfl, hwords⟩
    | false =>
      rw [List.takeWhile_cons_of_neg (by simp [hc]), List.dropWhile_cons_of_neg (by simp [hc]),
        TokenStream.directiveArgs_of_other hnext' hc]
      exact ⟨a, by rw [hnext']; rfl, .cons hdrop hcls hnext h⟩

variable {ν : Type} {note : Notice → ν} {env : ScanEnv}

/-- The search goes over the words of a line and has the effects of their directives. -/
theorem seek_word (hnote : Notice.Blind note) (ht : t.cls = .directive) (h : Words T a c)
    (s : Scanner σ) (hs : s.stream = ⟨a, none⟩)
    (hmarker : s.guards.marker = env.settings.grammar.guardMarker) :
    ∃ s' : Scanner σ, s'.stream = (TokenStream.next ⟨c, none⟩).2
      ∧ s'.Kindred note
        ((Directive.effects env.settings.grammar (t :: T)).foldl (Scanner.act env) s)
      ∧ Scanner.seek env (some t) s = Scanner.seek env (TokenStream.next ⟨c, none⟩).1 s' := by
  induction hn : T.length using Nat.strongRecOn generalizing t T a s with
  | ind n ih =>
    obtain ⟨a', hargs, hrest⟩ := h.directiveArgs
    rw [Scanner.seek_directive ht, hs, hargs, Directive.effects_cons _ ht]
    dsimp only
    rw [List.foldl_append]
    generalize hu : ({ s with stream := (TokenStream.next ⟨a', none⟩).2 } : Scanner σ).obey env
      t.text ((T.takeWhile Token.continuesDirective).map Token.text) = u
    have hobey : u.Kindred note ((Directive.effect? env.settings.grammar
        ⟨t.text, (T.takeWhile Token.continuesDirective).map Token.text⟩).toList.foldl
          (Scanner.act env) s) := hu ▸ s.kindred_obey hnote hmarker _ t.text _
    have hstream : u.stream = (TokenStream.next ⟨a', none⟩).2 := by
      rw [← hu, Scanner.stream_obey]
    have hmarker' : u.guards.marker = env.settings.grammar.guardMarker := by
      rw [← hu, Scanner.guards_obey, Guards.marker_obey]
      exact hmarker
    generalize hd : T.dropWhile Token.continuesDirective = U at hrest
    cases hrest with
    | nil _ _ => exact ⟨u, hstream, hobey, rfl⟩
    | @cons v V _ a₂ _ _ hcls hnext hwords =>
      have hlt : V.length < T.length := by
        have hle := (List.dropWhile_sublist (p := Token.continuesDirective) (l := T)).length_le
        rw [hd] at hle
        exact hle
      rw [TokenStream.next_of_feed hnext] at hstream ⊢
      obtain ⟨s', hs', hkindred, hseek⟩ :=
        ih V.length (hn ▸ hlt) hcls hwords u hstream hmarker' rfl
      exact ⟨s', hs', hkindred.trans (hobey.acts hnote _), hseek⟩

/-- It does so from the middle of the line as well. -/
theorem seek_next (hnote : Notice.Blind note) (h : Words T a c) (s : Scanner σ)
    (hs : s.stream = (TokenStream.next ⟨a, none⟩).2)
    (hmarker : s.guards.marker = env.settings.grammar.guardMarker) :
    ∃ s' : Scanner σ, s'.stream = (TokenStream.next ⟨c, none⟩).2
      ∧ s'.Kindred note ((Directive.effects env.settings.grammar T).foldl (Scanner.act env) s)
      ∧ Scanner.seek env (TokenStream.next ⟨a, none⟩).1 s
        = Scanner.seek env (TokenStream.next ⟨c, none⟩).1 s' := by
  cases h with
  | nil _ _ => exact ⟨s, hs, .refl s, rfl⟩
  | cons _ hcls hnext h =>
    rw [TokenStream.next_of_feed hnext] at hs ⊢
    exact h.seek_word hnote hcls s hs hmarker

end Words

/-! ## Feeds that part -/

/-- The feeds are at the beginning of lines that come to the same, if `q` is owed, and related by
`m` after them. -/
inductive Meets (g : GrammarSettings) (m : σ → σ → Prop) (q : Debt) (a b : σ) : Prop
  | intro {t u : Token} {T U : List Token} {a' b' c d : σ} (ht : t.opensDirective = true)
      (hu : u.opensDirective = true) (ha : Feed.next a = (some t, a')) (hT : Words T a' c)
      (hb : Feed.next b = (some u, b')) (hU : Words U b' d)
      (hears : g.hears q (t :: T) = g.hears q (u :: U)) (hm : m c d)

/-- The feeds are among the words of their lines, with the same effects to come, or after them. -/
inductive Landed (g : GrammarSettings) (m : σ → σ → Prop) (a b : σ) : Prop
  | words {T U : List Token} {c d : σ} (hT : Words T a c) (hU : Words U b d)
      (heffects : Directive.effects g T = Directive.effects g U) (hm : m c d)
  | after (h : m a b)

/-- Feeds related by `ρ`, with a debt, give the same token and stay so, or they are at the
beginning of lines that come to the same. Those related by `m` give the same tokens for ever. Of
the lines in `lost` the rest may be dropped. -/
structure Fork (g : GrammarSettings) (lost : Nat → Prop) (ρ : Debt → σ → σ → Prop)
    (m : σ → σ → Prop) : Prop where
  next : ∀ {q a b}, ρ q a b →
    (∃ t a' b', Feed.next a = (some t, a') ∧ Feed.next b = (some t, b') ∧ ρ (g.owe q t) a' b')
      ∨ Meets g m q a b
  drop : ∀ {q a b}, ρ q a b → lost (Feed.line b) →
    ρ (.tokens 0) (Feed.discardLine a) (Feed.discardLine b)
  next_after : ∀ {a b}, m a b →
    (Feed.next a).1 = (Feed.next b).1 ∧ m (Feed.next a).2 (Feed.next b).2
  drop_after : ∀ {a b}, m a b → m (Feed.discardLine a) (Feed.discardLine b)

/-- The feeds are related where nothing is owed, before their lines, in them or after them. -/
def Abreast (g : GrammarSettings) (ρ : Debt → σ → σ → Prop) (m : σ → σ → Prop) (a b : σ) : Prop :=
  ρ (.tokens 0) a b ∨ Landed g m a b

/-- The same token, kindred scans and related feeds. -/
structure Alongside {ν : Type} (note : Notice → ν) (P : σ → σ → Prop)
    (r r' : Option Token × Scanner σ) : Prop where
  token : r.1 = r'.1
  kindred : r.2.Kindred note r'.2
  feeds : P r.2.stream.feed r'.2.stream.feed

namespace Fork

variable {ν : Type} {note : Notice → ν} {env : ScanEnv} {lost : Nat → Prop}
  {ρ : Debt → σ → σ → Prop} {m : σ → σ → Prop} {a b : σ} {s t : Scanner σ} {g : GrammarSettings}

/-- After their lines, the feeds give the same tokens for ever. -/
theorem bisim (h : Fork g lost ρ m) : TokenStream.Bisim fun st st' : TokenStream σ =>
    ∃ a b, st = ⟨a, none⟩ ∧ st' = ⟨b, none⟩ ∧ m a b := by
  rintro _ _ ⟨a, b, rfl, rfl, hab⟩
  obtain ⟨hnext, hrest⟩ := h.next_after hab
  exact ⟨hnext, _, _, rfl, rfl, hrest⟩

/-! ### Tokens that are dropped -/

/-- The words of the lines pay, and what they leave is paid after them. -/
theorem skip_meets (h : Fork g lost ρ m) (n : Nat) (hab : Meets g m (.tokens (n + 1)) a b) :
    ∃ a' b', TokenStream.skip (n + 1) ⟨a, none⟩ = ⟨a', none⟩
      ∧ TokenStream.skip (n + 1) ⟨b, none⟩ = ⟨b', none⟩ ∧ Landed g m a' b' := by
  obtain ⟨ht, hu, ha, hT, hb, hU, hears, hm⟩ := hab
  obtain ⟨a', hskip, hT'⟩ := hT.skip n
  obtain ⟨b', hskip', hU'⟩ := hU.skip n
  obtain ⟨hdebt, heffects⟩ := Prod.mk.inj hears
  rw [TokenStream.skip, TokenStream.skip, TokenStream.next_of_feed ha, TokenStream.next_of_feed hb,
    hskip, hskip']
  simp only [Debt.pay, List.length_cons, List.drop_succ_cons, Nat.add_sub_add_right,
    Debt.tokens.injEq] at hdebt heffects
  rw [← hdebt]
  cases hleft : n - List.length _ with
  | zero => exact ⟨a', b', rfl, rfl, .words hT' hU' heffects hm⟩
  | succ k =>
    -- All words are dropped.
    rw [List.drop_eq_nil_of_le (by omega)] at hT' hU'
    cases hT'
    cases hU'
    obtain ⟨c, d, hc, hd, hcd⟩ := TokenStream.Bisim.skip h.bisim (k + 1) ⟨_, _, rfl, rfl, hm⟩
    exact ⟨c, d, hc, hd, .after hcd⟩

theorem skip (h : Fork g lost ρ m) (n : Nat) (hab : ρ (.tokens n) a b) :
    ∃ a' b', TokenStream.skip n ⟨a, none⟩ = ⟨a', none⟩
      ∧ TokenStream.skip n ⟨b, none⟩ = ⟨b', none⟩ ∧ Abreast g ρ m a' b' := by
  induction n generalizing a b with
  | zero => exact ⟨a, b, rfl, rfl, .inl hab⟩
  | succ n ih =>
    rcases h.next hab with ⟨t, a', b', ha, hb, hab'⟩ | hmeets
    · rw [TokenStream.skip, TokenStream.skip, TokenStream.next_of_feed ha,
        TokenStream.next_of_feed hb]
      exact ih hab'
    · obtain ⟨a', b', ha, hb, hlanded⟩ := h.skip_meets n hmeets
      exact ⟨a', b', ha, hb, .inr hlanded⟩

variable [LawfulFeed σ]

/-- An attribute ends in both lines, or in neither. -/
theorem skipAttribute_meets (h : Fork g lost ρ m) (hab : Meets g m .toSemicolon a b) :
    ∃ t a' b', TokenStream.skipAttribute ⟨a, none⟩ = (t, ⟨a', none⟩)
      ∧ TokenStream.skipAttribute ⟨b, none⟩ = (t, ⟨b', none⟩) ∧ Landed g m a' b' := by
  obtain ⟨ht, hu, ha, hT, hb, hU, hears, hm⟩ := hab
  have hne : ∀ {t : Token}, t.opensDirective = true → t.text ≠ ";" := by
    intro t ht htext
    rw [Token.opensDirective, htext, Bool.and_eq_true] at ht
    exact absurd ht.2 (by decide)
  have hpay : ∀ {t : Token} {T : List Token}, t.opensDirective = true →
      Debt.toSemicolon.pay (t :: T) = Debt.toSemicolon.pay T := by
    intro t T ht
    rw [Debt.pay, List.dropWhile_cons_of_pos (by simp [hne ht]), ← Debt.pay]
  rw [GrammarSettings.hears, GrammarSettings.hears, hpay ht, hpay hu] at hears
  obtain ⟨hdebt, heffects⟩ := Prod.mk.inj hears
  rw [TokenStream.skipAttribute_of_other (TokenStream.next_of_feed ha) (hne ht),
    TokenStream.skipAttribute_of_other (TokenStream.next_of_feed hb) (hne hu)]
  rcases hT.skipAttribute with ⟨hpaid, hskip⟩ | ⟨T', a', hpaid, hskip, hT'⟩
  · rcases hU.skipAttribute with ⟨-, hskip'⟩ | ⟨U', b', hpaid', -, -⟩
    · obtain ⟨hnext, c, d, hc, hd, hcd⟩ :=
        TokenStream.Bisim.skipAttribute h.bisim ⟨_, _, rfl, rfl, hm⟩
      rw [hskip, hskip']
      exact ⟨_, c, d, Prod.ext rfl hc, Prod.ext hnext.symm hd, .after hcd⟩
    · rw [hpaid, hpaid'] at hdebt
      cases hdebt
  · rcases hU.skipAttribute with ⟨hpaid', -⟩ | ⟨U', b', hpaid', hskip', hU'⟩
    · rw [hpaid, hpaid'] at hdebt
      cases hdebt
    · rw [hpaid, hpaid'] at heffects
      exact ⟨_, a', b', hskip, hskip', .words hT' hU' heffects hm⟩

theorem skipAttribute (h : Fork g lost ρ m) (hab : ρ .toSemicolon a b) :
    ∃ t a' b', TokenStream.skipAttribute ⟨a, none⟩ = (t, ⟨a', none⟩)
      ∧ TokenStream.skipAttribute ⟨b, none⟩ = (t, ⟨b', none⟩) ∧ Abreast g ρ m a' b' := by
  induction hn : Feed.size a using Nat.strongRecOn generalizing a b with
  | ind n ih =>
    rcases h.next hab with ⟨t, a', b', ha, hb, hab'⟩ | hmeets
    · have ha' := TokenStream.next_of_feed ha
      have hb' := TokenStream.next_of_feed hb
      rw [GrammarSettings.owe] at hab'
      by_cases ht : t.text = ";"
      · rw [if_pos ht] at hab'
        exact ⟨some t, a', b', TokenStream.skipAttribute_of_semicolon ha' ht,
          TokenStream.skipAttribute_of_semicolon hb' ht, .inl hab'⟩
      · rw [if_neg ht] at hab'
        rw [TokenStream.skipAttribute_of_other ha' ht, TokenStream.skipAttribute_of_other hb' ht]
        exact ih _ (hn ▸ LawfulFeed.size_next_some ha) hab' rfl
    · obtain ⟨t, a', b', ha, hb, hlanded⟩ := h.skipAttribute_meets hmeets
      exact ⟨t, a', b', ha, hb, .inr hlanded⟩

/-! ### Directives -/

/-- The words after a directive are the same, for lines start with a directive of their own. -/
theorem directiveArgs (h : Fork g lost ρ m) (hab : ρ (.tokens 0) a b) :
    ∃ args a' b', TokenStream.directiveArgs ⟨a, none⟩ = (args, TokenStream.next ⟨a', none⟩)
      ∧ TokenStream.directiveArgs ⟨b, none⟩ = (args, TokenStream.next ⟨b', none⟩)
      ∧ ρ (.tokens 0) a' b' := by
  induction hn : Feed.size a using Nat.strongRecOn generalizing a b with
  | ind n ih =>
    rcases h.next hab with ⟨t, a', b', ha, hb, hab'⟩ | hmeets
    · have ha' := TokenStream.next_of_feed ha
      have hb' := TokenStream.next_of_feed hb
      cases hc : t.continuesDirective with
      | true =>
        have hcls : t.cls ≠ .name := by
          intro hn
          simp [Token.continuesDirective, hn] at hc
        rw [GrammarSettings.owe, GrammarSettings.due_of_cls hcls] at hab'
        obtain ⟨args, a₂, b₂, ha₂, hb₂, hab₂⟩ := ih _ (hn ▸ LawfulFeed.size_next_some ha) hab' rfl
        rw [TokenStream.directiveArgs_of_continues ha' hc,
          TokenStream.directiveArgs_of_continues hb' hc, ha₂, hb₂]
        exact ⟨_, a₂, b₂, rfl, rfl, hab₂⟩
      | false =>
        rw [TokenStream.directiveArgs_of_other ha' hc, TokenStream.directiveArgs_of_other hb' hc]
        exact ⟨[], a, b, by rw [ha'], by rw [hb'], hab⟩
    · have hfresh : ∀ {a a' : σ} {t : Token}, Feed.next a = (some t, a') → t.opensDirective = true →
          TokenStream.directiveArgs ⟨a, none⟩ = ([], TokenStream.next ⟨a, none⟩) := by
        intro a a' t ha ht
        refine TokenStream.directiveArgs_of_fresh fun u hu => ?_
        rw [TokenStream.next_of_feed ha] at hu
        cases hu
        exact Token.not_continues_of_opens ht
      obtain ⟨ht, hu, ha, -, hb, -, -, -⟩ := hmeets
      exact ⟨[], a, b, hfresh ha ht, hfresh hb hu, hab⟩

/-! ### The search for a token -/

/-- After their lines, the scans of the feeds find the same token. -/
theorem seek_after (h : Fork g lost ρ m) (hnote : Notice.Blind note) {c d : σ} (hm : m c d)
    (hkindred : s.Kindred note t) (next : Option Token) (hs : s.stream = ⟨c, none⟩)
    (ht : t.stream = ⟨d, none⟩) :
    Alongside note (Abreast g ρ m) (Scanner.seek env next s) (Scanner.seek env next t) := by
  obtain ⟨htoken, hkindred', a, b, ha, hb, hab⟩ :=
    Scanner.Kindred.seek hnote h.bisim next s t hkindred ⟨c, d, hs, ht, hm⟩
  refine ⟨htoken, hkindred', .inr (.after ?_)⟩
  rw [ha, hb]
  exact hab

theorem seek_next_after (h : Fork g lost ρ m) (hnote : Notice.Blind note) {c d : σ} (hm : m c d)
    (hkindred : s.Kindred note t) (hs : s.stream = (TokenStream.next ⟨c, none⟩).2)
    (ht : t.stream = (TokenStream.next ⟨d, none⟩).2) :
    Alongside note (Abreast g ρ m) (Scanner.seek env (TokenStream.next ⟨c, none⟩).1 s)
      (Scanner.seek env (TokenStream.next ⟨d, none⟩).1 t) := by
  obtain ⟨hnext, hrest⟩ := h.next_after hm
  have hsame : (TokenStream.next ⟨c, none⟩).1 = (TokenStream.next ⟨d, none⟩).1 := hnext
  rw [hsame]
  exact h.seek_after hnote hrest hkindred _ hs ht

/-- Words with the same effects are passed over with the same outcome. -/
theorem seek_word (h : Fork env.settings.grammar lost ρ m) (hnote : Notice.Blind note)
    {u v : Token} {T U : List Token} {c d : σ} (hu : u.cls = .directive) (hT : Words T a c)
    (hv : v.cls = .directive) (hU : Words U b d)
    (heffects : Directive.effects env.settings.grammar (u :: T)
      = Directive.effects env.settings.grammar (v :: U)) (hm : m c d)
    (hkindred : s.Kindred note t) (hs : s.stream = ⟨a, none⟩) (ht : t.stream = ⟨b, none⟩)
    (hmarker : t.guards.marker = env.settings.grammar.guardMarker) :
    Alongside note (Abreast env.settings.grammar ρ m) (Scanner.seek env (some u) s)
      (Scanner.seek env (some v) t) := by
  obtain ⟨s', hs', hks, hseek⟩ := hT.seek_word hnote hu s hs (hkindred.guards ▸ hmarker)
  obtain ⟨t', ht', hkt, hseek'⟩ := hU.seek_word hnote hv t ht hmarker
  rw [hseek, hseek']
  rw [heffects] at hks
  exact h.seek_next_after hnote hm ((hks.trans (hkindred.acts hnote _)).trans hkt.symm) hs' ht'

theorem seek_next_landed (h : Fork env.settings.grammar lost ρ m) (hnote : Notice.Blind note)
    (hab : Landed env.settings.grammar m a b) (hkindred : s.Kindred note t)
    (hs : s.stream = (TokenStream.next ⟨a, none⟩).2)
    (ht : t.stream = (TokenStream.next ⟨b, none⟩).2)
    (hmarker : t.guards.marker = env.settings.grammar.guardMarker) :
    Alongside note (Abreast env.settings.grammar ρ m)
      (Scanner.seek env (TokenStream.next ⟨a, none⟩).1 s)
      (Scanner.seek env (TokenStream.next ⟨b, none⟩).1 t) := by
  cases hab with
  | after hm => exact h.seek_next_after hnote hm hkindred hs ht
  | words hT hU heffects hm =>
    obtain ⟨s', hs', hks, hseek⟩ := hT.seek_next hnote s hs (hkindred.guards ▸ hmarker)
    obtain ⟨t', ht', hkt, hseek'⟩ := hU.seek_next hnote t ht hmarker
    rw [hseek, hseek']
    rw [heffects] at hks
    exact h.seek_next_after hnote hm ((hks.trans (hkindred.acts hnote _)).trans hkt.symm) hs' ht'

/-- A settled token that was put back among the words of the lines is looked at once more. -/
theorem seek_landed (h : Fork env.settings.grammar lost ρ m) (hnote : Notice.Blind note)
    (hab : Landed env.settings.grammar m a b) (hkindred : s.Kindred note t) {u : Token}
    (hu : Settled env.settings.grammar u) (hs : s.stream = ⟨a, none⟩) (ht : t.stream = ⟨b, none⟩)
    (hmarker : t.guards.marker = env.settings.grammar.guardMarker) :
    Alongside note (Abreast env.settings.grammar ρ m) (Scanner.seek env (some u) s)
      (Scanner.seek env (some u) t) := by
  have hstay : Abreast env.settings.grammar ρ m s.stream.feed t.stream.feed := by
    rw [hs, ht]
    exact .inr hab
  cases hcls : u.cls with
  | comment =>
    rw [Scanner.seek_comment hcls, Scanner.seek_comment hcls, hs, ht]
    exact h.seek_next_landed hnote hab ((hkindred.withStream _ _).absorb u.text) rfl rfl hmarker
  | directive =>
    cases hab with
    | after hm => exact h.seek_after hnote hm hkindred _ hs ht
    | words hT hU heffects hm =>
      refine h.seek_word hnote hcls hT hcls hU ?_ hm hkindred hs ht hmarker
      rw [Directive.effects_of_not_opens _ hu.opens, Directive.effects_of_not_opens _ hu.opens,
        heffects]
  | name =>
    have hdue := GrammarSettings.due_of_settled hu
    by_cases hconst : u.text = "__const"
    · rw [Scanner.seek_const hcls hconst, Scanner.seek_const hcls hconst]
      exact ⟨rfl, hkindred, hstay⟩
    by_cases hattr : (u.text = "__attribute" || u.text = "__attribute__") = true
    · rw [GrammarSettings.due_of_attribute hcls hconst hattr] at hdue
      cases hdue
    rw [GrammarSettings.due_of_word hcls hconst hattr] at hdue
    cases hignored : env.settings.grammar.ignoredWords.get? u.text with
    | none =>
      rw [Scanner.seek_name hcls hconst hattr hignored,
        Scanner.seek_name hcls hconst hattr hignored]
      exact ⟨rfl, hkindred, hstay⟩
    | some count =>
      rw [GrammarSettings.toll, hignored, Option.getD_some, Debt.tokens.injEq] at hdue
      subst hdue
      rw [Scanner.seek_ignored hcls hconst hattr hignored,
        Scanner.seek_ignored hcls hconst hattr hignored, hs, ht]
      exact h.seek_next_landed hnote hab (hkindred.withStream _ _) rfl rfl hmarker
  | operator | separator | string =>
    rw [Scanner.seek_other (by simp [hcls]) (by simp [hcls]) (by simp [hcls]),
      Scanner.seek_other (by simp [hcls]) (by simp [hcls]) (by simp [hcls])]
    exact ⟨rfl, hkindred, hstay⟩

/-- The search goes on where nothing is owed. It is enough to follow it from a token that both
feeds give: where the lines begin, they are passed over together. -/
theorem seek_next (h : Fork env.settings.grammar lost ρ m) (hnote : Notice.Blind note)
    (hab : Abreast env.settings.grammar ρ m a b) (hkindred : s.Kindred note t)
    (hs : s.stream = (TokenStream.next ⟨a, none⟩).2)
    (ht : t.stream = (TokenStream.next ⟨b, none⟩).2)
    (hmarker : t.guards.marker = env.settings.grammar.guardMarker)
    (hgo : ∀ u a' b', (TokenStream.next ⟨a, none⟩).1 = some u → s.stream = ⟨a', none⟩ →
      t.stream = ⟨b', none⟩ → ρ (env.settings.grammar.due u) a' b' →
      Alongside note (Abreast env.settings.grammar ρ m)
        (Scanner.seek env (TokenStream.next ⟨a, none⟩).1 s)
        (Scanner.seek env (TokenStream.next ⟨a, none⟩).1 t)) :
    Alongside note (Abreast env.settings.grammar ρ m)
      (Scanner.seek env (TokenStream.next ⟨a, none⟩).1 s)
      (Scanner.seek env (TokenStream.next ⟨b, none⟩).1 t) := by
  rcases hab with hab | hlanded
  · rcases h.next hab with ⟨u, a', b', ha, hb, hab'⟩ | ⟨hu, hv, ha, hT, hb, hU, hears, hm⟩
    · rw [TokenStream.next_of_feed ha] at hs hgo ⊢
      rw [TokenStream.next_of_feed hb] at ht ⊢
      exact hgo u a' b' rfl hs ht hab'
    · rw [TokenStream.next_of_feed ha] at hs ⊢
      rw [TokenStream.next_of_feed hb] at ht ⊢
      exact h.seek_word hnote (Token.cls_of_opensDirective hu) hT (Token.cls_of_opensDirective hv)
        hU (Prod.mk.inj hears).2 hm hkindred hs ht hmarker
  · exact h.seek_next_landed hnote hlanded hkindred hs ht hmarker

omit [LawfulFeed σ] in
/-- A token that is handed on leaves the feeds where they are. -/
theorem stay (hab : ρ (.tokens 0) a b) (hkindred : s.Kindred note t) (hs : s.stream = ⟨a, none⟩)
    (ht : t.stream = ⟨b, none⟩) (u : Option Token) :
    Alongside note (Abreast g ρ m) (u, s) (u, t) := by
  refine ⟨rfl, hkindred, .inl ?_⟩
  rw [hs, ht]
  exact hab

/-- The search for a token comes to the same. -/
theorem seek (h : Fork env.settings.grammar lost ρ m) (hnote : Notice.Blind note)
    (next : Option Token) (s t : Scanner σ) {u : Token} (hnext : next = some u)
    (hs : s.stream = ⟨a, none⟩) (ht : t.stream = ⟨b, none⟩)
    (hab : ρ (env.settings.grammar.due u) a b) (hkindred : s.Kindred note t)
    (hmarker : t.guards.marker = env.settings.grammar.guardMarker) :
    Alongside note (Abreast env.settings.grammar ρ m) (Scanner.seek env next s)
      (Scanner.seek env next t) := by
  fun_induction Scanner.seek env next s generalizing t u a b with
  | case1 => cases hnext
  | case2 s v hv _ ih =>
    cases hnext
    rw [GrammarSettings.due_of_cls (by simp [hv])] at hab
    have habsorbed : (Scanner.absorb env v.text
        { s with stream := (TokenStream.next ⟨a, none⟩).2 }).Kindred note
          (Scanner.absorb env v.text { t with stream := (TokenStream.next ⟨b, none⟩).2 }) :=
      (hkindred.withStream _ _).absorb v.text
    rw [Scanner.seek_comment hv, ht]
    rw [hs] at ih ⊢
    exact h.seek_next hnote (.inl hab) habsorbed rfl rfl hmarker
      fun w a' b' hw ha hb hab' => ih _ hw ha hb hab' habsorbed hmarker
  | case3 s v hv _ s' =>
    rename_i ih
    cases hnext
    rw [GrammarSettings.due_of_cls (by simp [hv])] at hab
    obtain ⟨args, a', b', ha, hb, hab'⟩ := h.directiveArgs hab
    have hobeyed :
        (({ s with stream := (TokenStream.next ⟨a', none⟩).2 } : Scanner σ).obey env
          v.text args).Kindred note
        (({ t with stream := (TokenStream.next ⟨b', none⟩).2 } : Scanner σ).obey env
          v.text args) :=
      (hkindred.withStream _ _).obey hnote v.text args
    rw [Scanner.seek_directive hv, ht, hb]
    subst s'
    rw [hs, ha] at ih ⊢
    have hmarker' : (({ t with stream := (TokenStream.next ⟨b', none⟩).2 } : Scanner σ).obey env
        v.text args).guards.marker = env.settings.grammar.guardMarker := by
      rw [Scanner.guards_obey, Guards.marker_obey]
      exact hmarker
    exact h.seek_next hnote (.inl hab') hobeyed (Scanner.stream_obey ..) (Scanner.stream_obey ..)
      hmarker' fun w a₂ b₂ hw ha hb hab₂ => ih _ hw ha hb hab₂ hobeyed hmarker'
  | case4 s v hv htext =>
    cases hnext
    rw [GrammarSettings.due_of_const hv htext] at hab
    rw [Scanner.seek_const hv htext]
    exact stay hab hkindred hs ht _
  | case5 s v hv htext hattr =>
    cases hnext
    rw [GrammarSettings.due_of_attribute hv htext hattr] at hab
    obtain ⟨w, a', b', ha, hb, hab'⟩ := h.skipAttribute hab
    rw [Scanner.seek_attribute hv htext hattr, hs, ht, ha, hb]
    exact ⟨rfl, hkindred.withStream _ _, hab'⟩
  | case6 s v hv htext hattr count hcount _ _ ih =>
    cases hnext
    rw [GrammarSettings.due_of_word hv htext hattr, GrammarSettings.toll, hcount,
      Option.getD_some] at hab
    obtain ⟨a', b', ha, hb, hab'⟩ := h.skip count hab
    rw [Scanner.seek_ignored hv htext hattr hcount, ht, hb]
    rw [hs, ha] at ih ⊢
    exact h.seek_next hnote hab' (hkindred.withStream _ _) rfl rfl hmarker
      fun w a₂ b₂ hw ha hb hab₂ => ih _ hw ha hb hab₂ (hkindred.withStream _ _) hmarker
  | case7 s v hv htext hattr hnone =>
    cases hnext
    rw [GrammarSettings.due_of_word hv htext hattr, GrammarSettings.toll, hnone,
      Option.getD_none] at hab
    rw [Scanner.seek_name hv htext hattr hnone]
    exact stay hab hkindred hs ht _
  | case8 s v hc hd hn =>
    cases hnext
    rw [GrammarSettings.due_of_cls hn] at hab
    rw [Scanner.seek_other hc hd hn]
    exact stay hab hkindred hs ht _

/-- Going on to the next token comes to the same. -/
theorem advance (h : Fork env.settings.grammar lost ρ m) (hnote : Notice.Blind note)
    (hab : Abreast env.settings.grammar ρ m s.stream.feed t.stream.feed)
    (hheld : s.stream.held = t.stream.held)
    (hsettled : ∀ u, t.stream.held = some u → Settled env.settings.grammar u)
    (hkindred : s.Kindred note t)
    (hmarker : t.guards.marker = env.settings.grammar.guardMarker) :
    (s.advance env).Kindred note (t.advance env)
      ∧ Abreast env.settings.grammar ρ m (s.advance env).stream.feed
        (t.advance env).stream.feed := by
  have halong : Alongside note (Abreast env.settings.grammar ρ m)
      (Scanner.seek env s.stream.next.1 { s with stream := s.stream.next.2 })
      (Scanner.seek env t.stream.next.1 { t with stream := t.stream.next.2 }) := by
    have hstreams := hkindred.withStream s.stream.next.2 t.stream.next.2
    cases hc : t.stream.held with
    | some u =>
      rw [TokenStream.next_of_held (hheld.trans hc)] at hstreams ⊢
      rw [TokenStream.next_of_held hc] at hstreams ⊢
      rcases hab with hab | hlanded
      · rw [← GrammarSettings.due_of_settled (hsettled u hc)] at hab
        exact h.seek hnote (some u) _ _ rfl rfl rfl hab hstreams hmarker
      · exact h.seek_landed hnote hlanded hstreams (hsettled u hc) rfl rfl hmarker
    | none =>
      rw [TokenStream.eq_of_held (hheld.trans hc), TokenStream.eq_of_held hc] at hstreams ⊢
      exact h.seek_next hnote hab hstreams rfl rfl hmarker fun u a b hu ha hb hab' =>
        h.seek hnote _ _ _ hu ha hb hab' hstreams hmarker
  exact ⟨hkindred.advance_of_seek halong.token halong.kindred, halong.feeds⟩

end Fork

/-! ## The whole scan -/

/-- The notice without its line. The message about an error that was passed over has the line in
it, so it is left out. -/
def Notice.lineless (n : Notice) : Notice :=
  if n.topic = .swallowedError then { n.unlined with message := "" } else n.unlined

theorem Notice.blind_lineless : Notice.Blind Notice.lineless := by
  rintro ⟨topic, message, place, quiet⟩
  cases place <;> rfl

theorem Notice.lineless_swallow {K : Kinship} {e e' : Failure} (h : e.Alike K e') :
    Notice.lineless ⟨.swallowedError, e.message, e.place?, true⟩
      = Notice.lineless ⟨.swallowedError, e'.message, e'.place?, true⟩ := by
  cases h with
  | malformed message h => simp [lineless, Notice.unlined, Failure.place?, h.unlined]
  | width message h => simp [lineless, Notice.unlined, Failure.place?, h.unlined]

/-- A malformed declaration has been passed over on the line, and the rest of the line has been
dropped. -/
def Journal.Drops (j : Journal) (l : Nat) : Prop :=
  ∃ message place, (⟨.swallowedError, Failure.message (.malformed message place), some place, true⟩
    : Notice) ∈ j ∧ place.line = l

theorem Journal.Drops.mono {j k : Journal} (h : ∀ n ∈ j, n ∈ k) {l : Nat} (hl : j.Drops l) :
    k.Drops l := by
  obtain ⟨message, place, hmem, hline⟩ := hl
  exact ⟨message, place, h _ hmem, hline⟩

/-- Two scans on lines that have nothing to do with each other. -/
def Kinship.lineless (env : ScanEnv) : Kinship where
  env := env
  collects := env.collectUsages
  Switch _ := True
  Line _ _ := True
  Whole _ := False

open Scanner

/-- The scans are kindred and have the same settled tokens at hand. If the second one drops no
lines but those in `lost`, the feeds are abreast. -/
structure Joint (env : ScanEnv) (lost : Nat → Prop) (ρ : Debt → σ → σ → Prop) (m : σ → σ → Prop)
    (s t : Scanner σ) : Prop where
  kindred : s.Kindred Notice.lineless t
  held : s.stream.held = t.stream.held
  settledHeld : ∀ u, t.stream.held = some u → Settled env.settings.grammar u
  settledCurrent : ∀ u, t.current = some u → Settled env.settings.grammar u
  marker : t.guards.marker = env.settings.grammar.guardMarker
  feeds : (∀ l, t.journal.Drops l → lost l) →
    Abreast env.settings.grammar ρ m s.stream.feed t.stream.feed

section Joint

variable [LawfulFeed σ] {env : ScanEnv} {lost : Nat → Prop} {ρ : Debt → σ → σ → Prop}
  {m : σ → σ → Prop}

omit [LawfulFeed σ] in
theorem Abreast.discardLine {g : GrammarSettings} {a b : σ} (h : Fork g lost ρ m)
    (hab : Abreast g ρ m a b) (hlost : lost (Feed.line b)) :
    Abreast g ρ m (Feed.discardLine a) (Feed.discardLine b) := by
  rcases hab with hab | ⟨hT, hU, -, hm⟩ | hm
  · exact .inl (h.drop hab hlost)
  · rw [hT.drop, hU.drop]
    exact .inr (.after hm)
  · exact .inr (.after (h.drop_after hm))

theorem marker_advance (env : ScanEnv) (s : Scanner σ) :
    (s.advance env).guards.marker = s.guards.marker := by
  have hseek : ∀ (next : Option Token) (s : Scanner σ),
      (seek env next s).2.guards.marker = s.guards.marker := by
    intro next s
    fun_induction seek env next s with
    | case2 s t ht _ ih => exact ih
    | case3 s t ht _ s' ih =>
      rw [ih, guards_obey]
      exact Guards.marker_obey ..
    | case6 s t ht _ _ count hcount _ _ ih => exact ih
    | _ => rfl
  exact hseek ..

theorem Joint.parallel (hown : env.settings.grammar.KeepsOwn)
    (h : Fork env.settings.grammar lost ρ m) :
    Parallel (.lineless env) (fun t : Scanner σ => ∀ l, t.journal.Drops l → lost l)
      (Joint env lost ρ m) where
  view h := h.kindred.view
  switch _ := trivial
  line _ := trivial
  position h := h.kindred.position
  edit {s t e e'} hst he := by
    have hkindred : (s.edit env e).Kindred Notice.lineless (t.edit env e') :=
      hst.kindred.edit Notice.blind_lineless (fun _ _ _ => Notice.lineless_swallow) he
    have hjournal : ∀ n ∈ t.journal, n ∈ (t.edit env e').journal :=
      fun n hn => (t.keeps_edit env e').journal.subset hn
    refine ⟨hkindred, ?_, ?_, ?_, ?_, fun hdrops => ?_⟩
    · rw [stream_edit, stream_edit]
      exact hst.held
    · rw [stream_edit]
      exact hst.settledHeld
    · rw [current_edit]
      exact hst.settledCurrent
    · rw [guards_edit]
      exact hst.marker
    · rw [stream_edit, stream_edit]
      exact hst.feeds fun l hl => hdrops l (hl.mono hjournal)
  dropLine {s t} message hst _ := by
    refine ⟨?_, hst.held, hst.settledHeld, hst.settledCurrent, hst.marker, fun hdrops => ?_⟩
    · have he : Edit.Alike (.lineless env) (.swallow (.malformed message (s.place env)))
          (.swallow (.malformed message (t.place env))) :=
        .swallow trivial (.malformed message ⟨rfl, trivial⟩)
      have hkindred : (s.edit env (.swallow (.malformed message (s.place env)))).Kindred
          Notice.lineless (t.edit env (.swallow (.malformed message (t.place env)))) :=
        hst.kindred.edit Notice.blind_lineless (fun _ _ _ => Notice.lineless_swallow) he
      exact hkindred.withStream _ _
    · refine .discardLine h (hst.feeds fun l hl => hdrops l (hl.mono fun n hn => ?_)) ?_
      · exact List.mem_append_left _ hn
      · exact hdrops _
          ⟨message, t.place env, List.mem_append_right _ (List.mem_singleton_self _), rfl⟩
  advance {s t} hst hgood := by
    obtain ⟨hkindred, hfeeds⟩ := h.advance Notice.blind_lineless (hst.feeds hgood) hst.held
      hst.settledHeld hst.kindred hst.marker
    refine ⟨hkindred, ?_, ?_, fun u hu => settled_seek hown _ _ hu, ?_, fun _ => hfeeds⟩
    · exact (held_advance env s).trans (held_advance env t).symm
    · exact fun u hu => by cases (held_advance env t).symm.trans hu
    · exact (marker_advance env t).trans hst.marker
  unread {s₀ t₀ s t c} h₀ hc _ hst := by
    refine ⟨hst.kindred.unread c, ?_, settled_unread c hst.settledHeld hst.settledCurrent,
      fun u hu => ?_, hst.marker, fun hdrops => ?_⟩
    · rw [held_unread, held_unread, hst.kindred.current, hst.held]
    · cases hu
      exact h₀.settledCurrent c (h₀.kindred.current ▸ hc)
    · rw [feed_unread, feed_unread]
      exact hst.feeds hdrops
  whole h := h.elim

/-- What is noted where the scan goes on to a token is still there at its end. -/
theorem Scanner.journal_departures (env : ScanEnv) (feed : σ) {u : Scanner σ}
    (hu : u ∈ departures env feed) {n : Notice} (hn : n ∈ u.journal) :
    n ∈ (Scanner.run env feed).state.journal := by
  have htraced : Traced env
      fun (h : List (Scanner σ)) s => ∀ u ∈ h, n ∈ u.journal → n ∈ s.journal := by
    refine ⟨fun hs e u hu hn => ?_, fun hs failure u hu hn => ?_, fun {h s} hs u hu hn => ?_,
      fun _ _ _ hs => hs⟩
    · exact (keeps_edit _ _ e).journal.subset (hs u hu hn)
    · exact List.mem_append_left _ (hs u hu hn)
    · refine (s.keeps_advance env).journal.subset ?_
      rcases List.mem_append.mp hu with hu | hu
      · exact hs u hu hn
      · rw [List.mem_singleton.mp hu] at hn
        exact hn
  exact htraced.scan feed (List.forall_mem_nil _) u hu hn

end Joint

/-- **Feeds that part and meet again come to the same**, but for lines: the same catalogue or the
same failure, and the same notices. -/
theorem Catalog.unlined_ofFeed_of_fork [LawfulFeed σ] {o : ScanOptions} {file : String} {a b : σ}
    {ρ : Debt → σ → σ → Prop} {m : σ → σ → Prop} (hown : o.settings.grammar.KeepsOwn)
    (h : Fork o.settings.grammar (Catalog.ofFeed o file b).journal.Drops ρ m)
    (hab : ρ (.tokens 0) a b) :
    (Catalog.ofFeed o file a).unlined.result = (Catalog.ofFeed o file b).unlined.result
      ∧ (Catalog.ofFeed o file a).journal.map Notice.lineless
        = (Catalog.ofFeed o file b).journal.map Notice.lineless := by
  have hbody : Reader.Impartial (.lineless (o.env file)) Reader.readBody :=
    Reader.impartial_readBody rfl
  have hfile : Reader.Twin (.lineless (o.env file)) Eq Reader.readFile Reader.readFile :=
    Reader.Impartial.twin
  have hstart : Joint (o.env file) (Catalog.ofFeed o file b).journal.Drops ρ m
      (start (o.env file) a) (start (o.env file) b) :=
    ⟨.start .., rfl, fun u hu => (by cases hu), fun u hu => (by cases hu), rfl, fun _ => .inl hab⟩
  have htally : Tally (.lineless (o.env file))
      (Joint (o.env file) (Catalog.ofFeed o file b).journal.Drops ρ m) Eq
      (Scanner.run (o.env file) a) (Scanner.run (o.env file) b) :=
    (Joint.parallel hown h).reader (fun r => Reader.Impartial.twin) hfile hstart
      fun u hu l hl => hl.mono fun n hn => by
        rw [journal_ofFeed]
        exact journal_departures (o.env file) b hu hn
  unfold Catalog.ofFeed
  generalize Scanner.run (o.env file) a = r at htally ⊢
  generalize Scanner.run (o.env file) b = r' at htally ⊢
  cases htally with
  | ok _ hR =>
    simp only [Outcome.unlined, Except.map, Except.mapError, hR.kindred.catalog, hR.kindred.journal,
      and_self]
  | failed _ he hR =>
    simp only [Outcome.unlined, Except.map, Except.mapError, he.unlined, hR.kindred.journal,
      and_self]

end HeaderAtlas
