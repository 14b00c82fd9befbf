import HeaderAtlas.Proofs.Reader.Lockstep
import HeaderAtlas.Proofs.Scanner.Findings

/-!
# A feed that goes on where another one ends

Suppose one feed gives all the tokens of another one first, and then some more. The
scans of the two are in step as long as the first feed gives tokens: whatever is done
with a token is done in both. Once the first feed has run dry, its scan has no current
token, or one that was put back, which is a name.
-/

namespace HeaderAtlas

variable {σ τ : Type} [Feed σ] [Feed τ]

/-- The second feed gives the tokens of the first one and then some more. Where the
first one ends, the second does not go on in the middle of a directive. -/
structure Follows (r : σ → τ → Prop) (dry : σ → Prop) : Prop where
  next : ∀ {a b}, r a b →
    (∃ t a' b', Feed.next a = (some t, a') ∧ Feed.next b = (some t, b') ∧ r a' b')
      ∨ ∃ a', Feed.next a = (none, a') ∧ dry a'
        ∧ ∀ t b', Feed.next b = (some t, b') → t.continuesDirective = false
  line : ∀ {a b}, r a b → Feed.line a = Feed.line b
  discardLine : ∀ {a b}, r a b → r (Feed.discardLine a) (Feed.discardLine b)
  dry_next : ∀ {a}, dry a → ∃ a', Feed.next a = (none, a') ∧ dry a'
  dry_discardLine : ∀ {a}, dry a → dry (Feed.discardLine a)

namespace Follows

variable {r : σ → τ → Prop} {dry : σ → Prop} {a : σ} {b : τ}

/-! ## Streams -/

theorem stream_next (h : Follows r dry) (hr : r a b) :
    (∃ t a' b', TokenStream.next ⟨a, none⟩ = (some t, ⟨a', none⟩)
        ∧ TokenStream.next ⟨b, none⟩ = (some t, ⟨b', none⟩) ∧ r a' b')
      ∨ ∃ a', TokenStream.next ⟨a, none⟩ = (none, ⟨a', none⟩) ∧ dry a'
        ∧ ∀ t st, TokenStream.next ⟨b, none⟩ = (some t, st) → t.continuesDirective = false := by
  rcases h.next hr with ⟨t, a', b', ha, hb, hr'⟩ | ⟨a', ha, hdry, hfresh⟩
  · exact .inl ⟨t, a', b', by simp [TokenStream.next, ha], by simp [TokenStream.next, hb], hr'⟩
  · refine .inr ⟨a', by simp [TokenStream.next, ha], hdry, fun t st ht => ?_⟩
    have hfst : (Feed.next b).1 = some t := by
      simpa [TokenStream.next] using congrArg Prod.fst ht
    exact hfresh t (Feed.next b).2 (Prod.ext hfst rfl)

theorem stream_next_dry (h : Follows r dry) (ha : dry a) :
    ∃ a', TokenStream.next ⟨a, none⟩ = (none, ⟨a', none⟩) ∧ dry a' := by
  obtain ⟨a', hn, ha'⟩ := h.dry_next ha
  exact ⟨a', by simp [TokenStream.next, hn], ha'⟩

theorem skip_dry (h : Follows r dry) (n : Nat) (ha : dry a) :
    ∃ a', TokenStream.skip n ⟨a, none⟩ = ⟨a', none⟩ ∧ dry a' := by
  induction n generalizing a with
  | zero => exact ⟨a, rfl, ha⟩
  | succ n ih =>
    obtain ⟨a', hn, ha'⟩ := h.stream_next_dry ha
    rw [TokenStream.skip, hn]
    exact ih ha'

theorem skip (h : Follows r dry) (n : Nat) (hr : r a b) :
    (∃ a' b', TokenStream.skip n ⟨a, none⟩ = ⟨a', none⟩
        ∧ TokenStream.skip n ⟨b, none⟩ = ⟨b', none⟩ ∧ r a' b')
      ∨ ∃ a', TokenStream.skip n ⟨a, none⟩ = ⟨a', none⟩ ∧ dry a' := by
  induction n generalizing a b with
  | zero => exact .inl ⟨a, b, rfl, rfl, hr⟩
  | succ n ih =>
    rw [TokenStream.skip, TokenStream.skip]
    rcases h.stream_next hr with ⟨t, a', b', ha, hb, hr'⟩ | ⟨a', ha, hdry, -⟩
    · rw [ha, hb]
      exact ih hr'
    · rw [ha]
      exact .inr (h.skip_dry n hdry)

variable [LawfulFeed σ]

theorem skipAttribute_dry (h : Follows r dry) (ha : dry a) :
    ∃ a', TokenStream.skipAttribute ⟨a, none⟩ = (none, ⟨a', none⟩) ∧ dry a' := by
  obtain ⟨a', hn, ha'⟩ := h.stream_next_dry ha
  exact ⟨a', TokenStream.skipAttribute_of_none hn, ha'⟩

variable [LawfulFeed τ]

theorem skipAttribute (h : Follows r dry) (hr : r a b) :
    (∃ t a' b', TokenStream.skipAttribute ⟨a, none⟩ = (some t, ⟨a', none⟩)
        ∧ TokenStream.skipAttribute ⟨b, none⟩ = (some t, ⟨b', none⟩) ∧ r a' b')
      ∨ ∃ a', TokenStream.skipAttribute ⟨a, none⟩ = (none, ⟨a', none⟩) ∧ dry a' := by
  generalize hst : (⟨a, none⟩ : TokenStream σ) = st
  fun_induction TokenStream.skipAttribute st generalizing a b with
  | case1 st rest hn =>
    subst hst
    rcases h.stream_next hr with ⟨t, a', b', ha, -, -⟩ | ⟨a', ha, hdry, -⟩
    · rw [ha] at hn; cases hn
    · rw [ha] at hn; cases hn; exact .inr ⟨a', rfl, hdry⟩
  | case2 st t rest hn _ ht =>
    subst hst
    rcases h.stream_next hr with ⟨u, a', b', ha, hb, hr'⟩ | ⟨a', ha, -, -⟩
    · rw [ha] at hn
      cases hn
      exact .inl ⟨t, a', b', rfl, TokenStream.skipAttribute_of_semicolon hb ht, hr'⟩
    · rw [ha] at hn; cases hn
  | case3 st t rest hn _ ht ih =>
    subst hst
    rcases h.stream_next hr with ⟨u, a', b', ha, hb, hr'⟩ | ⟨a', ha, -, -⟩
    · rw [ha] at hn
      cases hn
      rw [TokenStream.skipAttribute_of_other hb ht]
      exact ih hr' rfl
    · rw [ha] at hn; cases hn

/-- The words of a directive are the same, even if the first feed ends after them. -/
theorem directiveArgs (h : Follows r dry) (hr : r a b) :
    (∃ args t a' b', TokenStream.directiveArgs ⟨a, none⟩ = (args, some t, ⟨a', none⟩)
        ∧ TokenStream.directiveArgs ⟨b, none⟩ = (args, some t, ⟨b', none⟩) ∧ r a' b')
      ∨ ∃ args a' p, TokenStream.directiveArgs ⟨a, none⟩ = (args, none, ⟨a', none⟩) ∧ dry a'
        ∧ TokenStream.directiveArgs ⟨b, none⟩ = (args, p) := by
  generalize hst : (⟨a, none⟩ : TokenStream σ) = st
  fun_induction TokenStream.directiveArgs st generalizing a b with
  | case1 st rest hn =>
    subst hst
    rcases h.stream_next hr with ⟨t, a', b', ha, -, -⟩ | ⟨a', ha, hdry, hfresh⟩
    · rw [ha] at hn; cases hn
    · rw [ha] at hn
      cases hn
      -- What the second feed goes on with does not belong to the directive.
      cases hb : TokenStream.next (⟨b, none⟩ : TokenStream τ) with
      | mk t st =>
        cases t with
        | none => exact .inr ⟨[], a', _, rfl, hdry, TokenStream.directiveArgs_of_none hb⟩
        | some t =>
          exact .inr ⟨[], a', _, rfl, hdry,
            TokenStream.directiveArgs_of_other hb (hfresh t st hb)⟩
  | case2 st t rest hn _ ht args next after hargs ih =>
    subst hst
    rcases h.stream_next hr with ⟨u, a', b', ha, hb, hr'⟩ | ⟨a', ha, -, -⟩
    · rw [ha] at hn
      cases hn
      rw [TokenStream.directiveArgs_of_continues hb ht]
      rw [hargs] at ih
      rcases ih hr' rfl with ⟨args', u', a'', b'', ha', hb', hr''⟩ | ⟨args', a'', p, ha', hdry, hb'⟩
      · cases ha'
        exact .inl ⟨_, u', a'', b'', rfl, by rw [hb'], hr''⟩
      · cases ha'
        exact .inr ⟨_, a'', p, rfl, hdry, by rw [hb']⟩
    · rw [ha] at hn; cases hn
  | case3 st t rest hn _ ht =>
    subst hst
    rcases h.stream_next hr with ⟨u, a', b', ha, hb, hr'⟩ | ⟨a', ha, -, -⟩
    · rw [ha] at hn
      cases hn
      exact .inl ⟨[], t, a', b', rfl,
        TokenStream.directiveArgs_of_other hb (Bool.eq_false_iff.mpr ht), hr'⟩
    · rw [ha] at hn; cases hn

end Follows

/-! ## Scans over different feeds -/

omit [Feed σ] in
theorem TokenStream.eq_of_held {st : TokenStream σ} (h : st.held = none) :
    st = ⟨st.feed, none⟩ := by
  rw [← h]

namespace Scanner

/-- The same state of a scan over another feed. -/
def withFeed (s : Scanner σ) (b : τ) : Scanner τ :=
  { s with stream := ⟨b, s.stream.held⟩ }

omit [Feed σ] [Feed τ] in
theorem stream_withFeed {s : Scanner σ} (h : s.stream.held = none) (b : τ) :
    (s.withFeed b).stream = ⟨b, none⟩ := by
  rw [← h]
  rfl

omit [Feed σ] [Feed τ] in
theorem unread_withFeed (b : τ) (s : Scanner σ) (t : Token) :
    (s.withFeed b).unread t = (s.unread t).withFeed b := by
  unfold unread withFeed
  cases s.current <;> rfl

variable (env : ScanEnv) {s : Scanner σ} {b : τ}

theorem record_withFeed (hline : Feed.line s.stream.feed = Feed.line b) (name : String)
    (category : Category) (detail : Option Detail) (extra : Option String) (isStatic : Bool) :
    (s.withFeed b).record env name category detail extra isStatic
      = (s.record env name category detail extra isStatic).withFeed b := by
  simp [record, withFeed, find, TokenStream.line, hline]

theorem warn_withFeed (hline : Feed.line s.stream.feed = Feed.line b) (topic : Topic)
    (messages : List String) :
    (s.withFeed b).warn env topic messages = (s.warn env topic messages).withFeed b := by
  simp [warn, place, withFeed, TokenStream.line, hline]

theorem edit_withFeed (hline : Feed.line s.stream.feed = Feed.line b) (e : Edit) :
    (s.withFeed b).edit env e = (s.edit env e).withFeed b := by
  cases e with
  | swallow failure => rfl
  | warn topic messages => exact warn_withFeed env hline topic messages
  | find fs => rfl
  | record name category detail extra isStatic =>
    exact record_withFeed env hline name category detail extra isStatic
  | forget => rfl

theorem define_withFeed (hline : Feed.line s.stream.feed = Feed.line b) (args : List String) :
    (s.withFeed b).define env args = (s.define env args).withFeed b := by
  unfold define
  split
  · rfl
  · dsimp only
    split
    · rfl
    · rw [warn_withFeed env hline]
      exact congrArg forget (record_withFeed (s := s.warn env _ _) env hline ..)

theorem obey_withFeed (hline : Feed.line s.stream.feed = Feed.line b) (word : String)
    (args : List String) :
    (s.withFeed b).obey env word args = (s.obey env word args).withFeed b := by
  unfold obey
  dsimp only
  split
  · split
    · rfl
    · exact record_withFeed env hline ..
  · exact define_withFeed env hline args
  all_goals rfl

/-- A directive that ends on the same line in both feeds. -/
theorem obey_onto {a' : σ} {b' : τ} (hline : Feed.line a' = Feed.line b') (word : String)
    (args : List String) :
    ({ s.withFeed b with stream := ⟨b', none⟩ } : Scanner τ).obey env word args
      = (({ s with stream := ⟨a', none⟩ } : Scanner σ).obey env word args).withFeed b' :=
  obey_withFeed (s := { s with stream := ⟨a', none⟩ }) env hline word args

/-- The finding of a directive, if there is one, is the same on every line. -/
theorem findings_obey_alike {t : Scanner τ} (hf : t.findings = s.findings)
    (hg : t.guards = s.guards) (hc : t.comment = s.comment) (word : String)
    (args : List String) :
    ∃ d : Option Catalog.Finding, d.all Catalog.Finding.ofDirective = true
      ∧ (s.obey env word args).findings = s.findings ++ d.toList
      ∧ (t.obey env word args).findings
        = s.findings ++ (d.map (·.moved t.stream.line none)).toList := by
  have hnone : ∃ d : Option Catalog.Finding, d.all Catalog.Finding.ofDirective = true
      ∧ s.findings = s.findings ++ d.toList
      ∧ t.findings = s.findings ++ (d.map (·.moved t.stream.line none)).toList :=
    ⟨none, rfl, (List.append_nil _).symm, hf.trans (List.append_nil _).symm⟩
  unfold obey define
  split
  · dsimp only
    split
    · exact hnone
    · exact ⟨some _, rfl, rfl, by rw [← hf, record, hg]; rfl⟩
  · split
    · exact hnone
    · dsimp only
      split
      · exact hnone
      · refine ⟨some _, rfl, rfl, ?_⟩
        rw [← hf, record, hc]
        show t.findings ++ [.declaration _ _ (env.observe t.guards.active _ _ _ _)] = _
        rw [hg]
        rfl
  all_goals exact hnone

end Scanner

namespace Follows

variable {r : σ → τ → Prop} {dry : σ → Prop} [LawfulFeed σ] [LawfulFeed τ]

/-- The search for a token of the grammar is the same, unless the first feed runs dry on
the way: then it finds none. -/
theorem seek (h : Follows r dry) (env : ScanEnv) (next : Option Token) (s : Scanner σ) (b : τ)
    (hheld : s.stream.held = none) (hr : r s.stream.feed b) :
    (∃ b', Scanner.seek env next (s.withFeed b)
          = ((Scanner.seek env next s).1, (Scanner.seek env next s).2.withFeed b')
        ∧ (Scanner.seek env next s).2.stream.held = none
        ∧ r (Scanner.seek env next s).2.stream.feed b')
      ∨ ((Scanner.seek env next s).1 = none ∧ (Scanner.seek env next s).2.stream.held = none
        ∧ dry (Scanner.seek env next s).2.stream.feed
        ∧ Catalog.Leads s.findings (Scanner.seek env next s).2.findings
          (Scanner.seek env next (s.withFeed b)).2.findings) := by
  have hgrow : ∀ {next} {u : Scanner τ} {fs}, u.findings = fs →
      fs <+: (Scanner.seek env next u).2.findings := by
    rintro next u _ rfl
    exact (Scanner.keeps_seek env next u).findings
  fun_induction Scanner.seek env next s generalizing b with
  | case1 s => exact .inl ⟨b, Scanner.seek_none, hheld, hr⟩
  | case2 s t ht _ ih =>
    rw [Scanner.seek_comment ht, Scanner.stream_withFeed hheld]
    rw [TokenStream.eq_of_held hheld] at ih ⊢
    rcases h.stream_next hr with ⟨u, a', b', ha, hb, hr'⟩ | ⟨a', ha, hdry, -⟩
    · rw [ha] at ih ⊢
      rw [hb]
      exact ih b' rfl hr'
    · rw [ha, Scanner.seek_none]
      exact .inr ⟨rfl, rfl, hdry, .of_le List.prefix_rfl (hgrow rfl)⟩
  | case3 s t ht _ s' ih =>
    rw [Scanner.seek_directive ht, Scanner.stream_withFeed hheld]
    subst s'
    rw [TokenStream.eq_of_held hheld] at ih ⊢
    rcases h.directiveArgs hr with ⟨args, u, a', b', ha, hb, hr'⟩ | ⟨args, a', p, ha, hdry, hb⟩
    · rw [ha] at ih ⊢
      rw [hb]
      rw [Scanner.obey_onto env (h.line hr')]
      rw [Scanner.stream_obey] at ih
      rcases ih b' rfl hr' with hin | ⟨hnone, hheld', hdry, hleads⟩
      · exact .inl hin
      · exact .inr ⟨hnone, hheld', hdry,
          hleads.trans_prefix
            (Scanner.keeps_obey env t.text args { s with stream := ⟨a', none⟩ }).findings⟩
    · rw [ha, hb, Scanner.seek_none]
      obtain ⟨d, hd, hfs, hfs'⟩ := Scanner.findings_obey_alike env
        (s := { s with stream := ⟨a', none⟩ }) (t := { s.withFeed b with stream := p.2 })
        rfl rfl rfl t.text args
      refine .inr ⟨rfl, ?_, ?_, .of_directive hd hfs (hgrow hfs')⟩
      · rw [Scanner.stream_obey]
      · rw [Scanner.stream_obey]
        exact hdry
  | case4 s t ht htext => exact .inl ⟨b, Scanner.seek_const ht htext, hheld, hr⟩
  | case5 s t ht htext hattr =>
    rw [Scanner.seek_attribute ht htext hattr, Scanner.stream_withFeed hheld,
      TokenStream.eq_of_held hheld]
    rcases h.skipAttribute hr with ⟨u, a', b', ha, hb, hr'⟩ | ⟨a', ha, hdry⟩
    · rw [ha, hb]
      exact .inl ⟨b', rfl, rfl, hr'⟩
    · rw [ha]
      exact .inr ⟨rfl, rfl, hdry, .of_le List.prefix_rfl List.prefix_rfl⟩
  | case6 s t ht htext hattr count hcount _ _ ih =>
    rw [Scanner.seek_ignored ht htext hattr hcount, Scanner.stream_withFeed hheld]
    rw [TokenStream.eq_of_held hheld] at ih ⊢
    rcases h.skip count hr with ⟨a₁, b₁, ha₁, hb₁, hr₁⟩ | ⟨a₁, ha₁, hdry⟩
    · rw [ha₁] at ih ⊢
      rw [hb₁]
      rcases h.stream_next hr₁ with ⟨u, a', b', ha, hb, hr'⟩ | ⟨a', ha, hdry, -⟩
      · rw [ha] at ih ⊢
        rw [hb]
        exact ih b' rfl hr'
      · rw [ha, Scanner.seek_none]
        exact .inr ⟨rfl, rfl, hdry, .of_le List.prefix_rfl (hgrow rfl)⟩
    · obtain ⟨a', ha, hdry'⟩ := h.stream_next_dry hdry
      rw [ha₁, ha, Scanner.seek_none]
      exact .inr ⟨rfl, rfl, hdry', .of_le List.prefix_rfl (hgrow rfl)⟩
  | case7 s t ht htext hattr hnone =>
    exact .inl ⟨b, Scanner.seek_name ht htext hattr hnone, hheld, hr⟩
  | case8 s t hc hd hn => exact .inl ⟨b, Scanner.seek_other hc hd hn, hheld, hr⟩

end Follows

/-! ## In step until the first feed is dry -/

/-- The two states differ in their feeds only, and the second feed follows the first. -/
def InStep (r : σ → τ → Prop) (s : Scanner σ) (t : Scanner τ) : Prop :=
  ∃ b, r s.stream.feed b ∧ t = s.withFeed b

/-- The feed is dry, and there are no tokens but names that were put back. -/
structure Spent (dry : σ → Prop) (s : Scanner σ) : Prop where
  feed : dry s.stream.feed
  held : ∀ t, s.stream.held = some t → t.isName = true
  current : ∀ t, s.current = some t → t.isName = true

/-- A scan whose current token is not a name is not spent. -/
theorem Spent.not_of_current {σ : Type} {dry : σ → Prop} {s : Scanner σ} {t : Token}
    (h : s.current = some t) (ht : t.isName = false) : ¬ Spent dry s := by
  intro hs
  rw [hs.current t h] at ht
  cases ht

/-- A name put back in front of a dry feed. -/
theorem Spent.unread {σ : Type} {dry : σ → Prop} {s : Scanner σ} {c : Token}
    (hc : c.isName = true) (hs : Spent dry s) : Spent dry (s.unread c) := by
  refine ⟨?_, fun t ht => ?_, fun t ht => ?_⟩
  · rw [Scanner.feed_unread]
    exact hs.feed
  · rw [Scanner.held_unread, Option.or_eq_some_iff] at ht
    rcases ht with ht | ⟨-, ht⟩
    · exact hs.current t ht
    · exact hs.held t ht
  · cases ht; exact hc

namespace Follows

variable {r : σ → τ → Prop} {dry : σ → Prop} [LawfulFeed σ]

/-- A name in front of a dry feed leads to a name or to nothing. -/
theorem seek_dry (h : Follows r dry) (env : ScanEnv) (next : Option Token) (s : Scanner σ)
    (hheld : s.stream.held = none) (hdry : dry s.stream.feed)
    (hnext : ∀ t, next = some t → t.isName = true) :
    (∀ t, (Scanner.seek env next s).1 = some t → t.isName = true)
      ∧ (Scanner.seek env next s).2.stream.held = none
      ∧ dry (Scanner.seek env next s).2.stream.feed := by
  cases next with
  | none => rw [Scanner.seek_none]; exact ⟨nofun, hheld, hdry⟩
  | some t =>
    have ht : t.cls = .name := by simpa [Token.isName] using hnext t rfl
    by_cases hconst : t.text = "__const"
    · rw [Scanner.seek_const ht hconst]
      exact ⟨fun u hu => by cases hu; rfl, hheld, hdry⟩
    by_cases hattr : (t.text = "__attribute" || t.text = "__attribute__") = true
    · obtain ⟨a', ha, hdry'⟩ := h.skipAttribute_dry hdry
      rw [Scanner.seek_attribute ht hconst hattr, TokenStream.eq_of_held hheld, ha]
      exact ⟨nofun, rfl, hdry'⟩
    cases hi : env.settings.grammar.ignoredWords.get? t.text with
    | none =>
      rw [Scanner.seek_name ht hconst hattr hi]
      exact ⟨fun u hu => by cases hu; exact hnext t rfl, hheld, hdry⟩
    | some count =>
      obtain ⟨a₁, ha₁, hdry₁⟩ := h.skip_dry count hdry
      obtain ⟨a', ha, hdry'⟩ := h.stream_next_dry hdry₁
      rw [Scanner.seek_ignored ht hconst hattr hi, TokenStream.eq_of_held hheld, ha₁, ha,
        Scanner.seek_none]
      exact ⟨nofun, rfl, hdry'⟩

theorem spent_advance (h : Follows r dry) (env : ScanEnv) {s : Scanner σ} (hs : Spent dry s) :
    Spent dry (s.advance env) := by
  cases hheld : s.stream.held with
  | none =>
    obtain ⟨a', ha, hdry⟩ := h.stream_next_dry hs.feed
    rw [← TokenStream.eq_of_held hheld] at ha
    unfold Scanner.advance
    rw [ha, Scanner.seek_none]
    exact ⟨hdry, nofun, nofun⟩
  | some c =>
    have hseek := h.seek_dry env (some c) { s with stream := ⟨s.stream.feed, none⟩ } rfl
      hs.feed fun t ht => hs.held t (hheld.trans ht)
    unfold Scanner.advance
    rw [TokenStream.next_of_held hheld]
    exact ⟨hseek.2.2, fun t ht => absurd (hseek.2.1.symm.trans ht) nofun, hseek.1⟩

theorem spent_invariant (h : Follows r dry) (env : ScanEnv) : Invariant env (Spent dry) where
  edit s e hs := by
    refine ⟨?_, ?_, ?_⟩
    · rw [Scanner.stream_edit]; exact hs.feed
    · rw [Scanner.stream_edit]; exact hs.held
    · rw [Scanner.current_edit]; exact hs.current
  dropLine s failure hs := ⟨h.dry_discardLine hs.feed, hs.held, hs.current⟩
  advance s hs := h.spent_advance env hs
  unread _ _ _ _ _ ht hs := hs.unread ht

variable [LawfulFeed τ]

/-- Going on to the next token keeps scans in step, or the first feed is dry and no token
is left. -/
theorem advance (h : Follows r dry) (env : ScanEnv) {s : Scanner σ} {t : Scanner τ}
    (hst : InStep r s t) :
    InStep r (s.advance env) (t.advance env)
      ∨ ((s.advance env).current = none ∧ (s.advance env).stream.held = none
        ∧ dry (s.advance env).stream.feed
        ∧ Catalog.Leads s.findings (s.advance env).findings (t.advance env).findings) := by
  obtain ⟨b, hr, rfl⟩ := hst
  -- What the search comes to, from the token that it starts with.
  have key : ∀ next a' b', s.stream.next = (next, ⟨a', none⟩) →
      (s.withFeed b).stream.next = (next, ⟨b', none⟩) → r a' b' →
      InStep r (s.advance env) ((s.withFeed b).advance env)
        ∨ ((s.advance env).current = none ∧ (s.advance env).stream.held = none
          ∧ dry (s.advance env).stream.feed
          ∧ Catalog.Leads s.findings (s.advance env).findings
            ((s.withFeed b).advance env).findings) := by
    intro next a' b' ha hb hr'
    have hseek := h.seek env next { s with stream := ⟨a', none⟩ } b' rfl hr'
    unfold Scanner.advance
    rw [ha, hb]
    rcases hseek with ⟨b'', heq, -, hr''⟩ | hdry
    · refine .inl ⟨b'', hr'', ?_⟩
      have heq' : Scanner.seek env next { s.withFeed b with stream := ⟨b', none⟩ } = _ := heq
      rw [heq']
      rfl
    · exact .inr hdry
  cases hheld : s.stream.held with
  | some c =>
    exact key (some c) s.stream.feed b (TokenStream.next_of_held hheld)
      (TokenStream.next_of_held (s := (s.withFeed b).stream) hheld) hr
  | none =>
    rcases h.stream_next hr with ⟨u, a', b', ha, hb, hr'⟩ | ⟨a', ha, hdry, -⟩
    · rw [← TokenStream.eq_of_held hheld] at ha
      rw [← Scanner.stream_withFeed hheld] at hb
      exact key (some u) a' b' ha hb hr'
    · rw [← TokenStream.eq_of_held hheld] at ha
      have hadvance : s.advance env = { s with
          stream := ⟨a', none⟩
          current := none
          position := s.position + s.current.toList.length } := by
        rw [Scanner.advance, ha, Scanner.seek_none]
      rw [hadvance]
      exact .inr ⟨rfl, rfl, hdry,
        .of_le List.prefix_rfl ((s.withFeed b).keeps_advance env).findings⟩

/-- Scans over feeds that follow each other are in step until the first is spent. -/
theorem lockstep (h : Follows r dry) (env : ScanEnv) : Lockstep env (InStep r) (Spent dry) where
  view := by rintro s _ ⟨b, -, rfl⟩; rfl
  line := by rintro s _ ⟨b, hr, rfl⟩; exact h.line hr
  position := by rintro s _ ⟨b, -, rfl⟩; rfl
  edit := by
    rintro s _ ⟨b, hr, rfl⟩ e
    refine ⟨b, ?_, Scanner.edit_withFeed env (h.line hr) e⟩
    rw [Scanner.stream_edit]
    exact hr
  dropLine := by
    rintro s _ ⟨b, hr, rfl⟩ failure
    exact .inl ⟨Feed.discardLine b, h.discardLine hr, rfl⟩
  advance := by
    intro s t hst
    rcases h.advance env hst with hst' | ⟨hcur, hheld, hdry, -⟩
    · exact .inl hst'
    · exact .inr ⟨hdry, by simp [hheld], by simp [hcur]⟩
  unread := by
    rintro _ _ s _ c - - - ⟨b, hr, rfl⟩
    refine ⟨b, ?_, Scanner.unread_withFeed b s c⟩
    rw [Scanner.feed_unread]
    exact hr
  off := h.spent_invariant env
  off_unread hc hs := hs.unread hc

end Follows

end HeaderAtlas
