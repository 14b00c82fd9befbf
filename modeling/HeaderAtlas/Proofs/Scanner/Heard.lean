import HeaderAtlas.Proofs.Directives
import HeaderAtlas.Proofs.Lexer.Listing

/-!
# The directives that a scan obeys

A scan obeys the directives among the tokens that the filter looks at
(`GrammarSettings.heard`). The tokens after an attribute, up to the next `;`, and those dropped
together with an ignored word are passed over as they are, and a directive among them is lost.
`GrammarSettings.audible` are the tokens that are left.

What directives alone change, such as the guards or the macros (`Scanner.MovedBy`), is at any
time on the way to what all directives make of it: the directives still to come lead there
from where it is (`Scanner.seek_heard`). A token that was put back is read again, which must
not make a difference: it is `Settled`.
-/

namespace HeaderAtlas

open Text

/-! ## The directives of a list of tokens -/

namespace Directive

/-- The directives of a list of tokens, in order. -/
def ofTokens : List Token → List Directive
  | [] => []
  | t :: ts =>
    if t.opensDirective then ⟨t.text, (ts.takeWhile Token.continuesDirective).map Token.text⟩ :: ofTokens ts
    else ofTokens ts

end Directive

namespace GrammarSettings

/-- How many tokens are dropped together with the word. -/
def toll (g : GrammarSettings) (word : String) : Nat := (g.ignoredWords.get? word).getD 0

/-- How many of the tokens after `t` are passed over without a look. -/
def muted (g : GrammarSettings) (t : Token) (ts : List Token) : Nat :=
  if t.cls = .name then
    if t.text = "__const" then 0
    else if t.text = "__attribute" || t.text = "__attribute__" then
      (ts.takeWhile (·.text ≠ ";")).length
    else g.toll t.text
  else 0

/-- The tokens that the filter looks at. -/
def audible (g : GrammarSettings) : List Token → List Token
  | [] => []
  | t :: ts => t :: g.audible (ts.drop (g.muted t ts))
termination_by ts => ts.length
decreasing_by simp only [List.length_drop, List.length_cons]; omega

/-- The words that the filter hands on in place of others, `const` for `__const` and the
`;` at the end of an attribute, are not dropped together with tokens after them. -/
def KeepsOwn (g : GrammarSettings) : Prop := g.toll "const" = 0 ∧ g.toll ";" = 0

instance (g : GrammarSettings) : Decidable g.KeepsOwn := inferInstanceAs (Decidable (_ ∧ _))

end GrammarSettings

namespace Directive

variable {t : Token} {ts : List Token}

theorem ofTokens_cons_of_not_opens (h : t.opensDirective = false) : ofTokens (t :: ts) = ofTokens ts := by
  rw [ofTokens, h]
  rfl

/-- Words without a directive before them do nothing. -/
theorem ofTokens_dropWhile (ts : List Token) :
    ofTokens (ts.dropWhile Token.continuesDirective) = ofTokens ts := by
  induction ts with
  | nil => rfl
  | cons t ts ih =>
    rw [List.dropWhile_cons]
    split
    · next h =>
      rw [ih, ofTokens_cons_of_not_opens]
      simp only [Token.continuesDirective, Token.opensDirective, Bool.and_eq_true, Bool.not_eq_true'] at h ⊢
      simp [h.2]
    · rfl

end Directive

/-! ## Settled tokens -/

variable {g : GrammarSettings}

/-- The token has no effect when the filter sees it once more. -/
structure Settled (g : GrammarSettings) (t : Token) : Prop where
  opens : t.opensDirective = false
  muted : ∀ ts, g.muted t ts = 0

namespace GrammarSettings

theorem audible_cons_of_muted {t : Token} {ts : List Token} (h : g.muted t ts = 0) :
    g.audible (t :: ts) = t :: g.audible ts := by
  rw [audible, h, List.drop_zero]

theorem muted_of_cls {t : Token} (h : t.cls ≠ .name) (ts : List Token) : g.muted t ts = 0 :=
  if_neg h

section Words

variable {t : Token} (ht : t.cls = .name)

include ht

theorem muted_of_const (h : t.text = "__const") (ts : List Token) : g.muted t ts = 0 := by
  rw [muted, if_pos ht, if_pos h]

theorem muted_of_attribute (hconst : t.text ≠ "__const")
    (hattr : (t.text = "__attribute" || t.text = "__attribute__") = true) (ts : List Token) :
    g.muted t ts = (ts.takeWhile (·.text ≠ ";")).length := by
  rw [muted, if_pos ht, if_neg hconst, if_pos hattr]

/-- Any other word mutes as many tokens wherever it stands. -/
theorem muted_of_word (hconst : t.text ≠ "__const")
    (hattr : ¬ (t.text = "__attribute" || t.text = "__attribute__") = true) (ts : List Token) :
    g.muted t ts = g.toll t.text := by
  rw [muted, if_pos ht, if_neg hconst, if_neg hattr]

end Words

/-- An attribute mutes what stands before the next `;`. -/
theorem drop_muted_of_attribute (g : GrammarSettings) {t : Token} (ht : t.cls = .name)
    (hconst : t.text ≠ "__const")
    (hattr : (t.text = "__attribute" || t.text = "__attribute__") = true) (ts : List Token) :
    ts.drop (g.muted t ts) = ts.dropWhile (·.text ≠ ";") := by
  rw [muted_of_attribute ht hconst hattr]
  have h : (ts.takeWhile (·.text ≠ ";") ++ ts.dropWhile (·.text ≠ ";")).drop
      (ts.takeWhile (·.text ≠ ";")).length = ts.dropWhile (·.text ≠ ";") := List.drop_left
  rwa [List.takeWhile_append_dropWhile] at h

/-- The filter looks at all words of a directive, and at what stands after them. -/
theorem span_audible (g : GrammarSettings) (ts : List Token) :
    (g.audible ts).takeWhile Token.continuesDirective = ts.takeWhile Token.continuesDirective
      ∧ (g.audible ts).dropWhile Token.continuesDirective
          = g.audible (ts.dropWhile Token.continuesDirective) := by
  induction ts with
  | nil => simp [audible]
  | cons t ts ih =>
    cases h : t.continuesDirective with
    | false =>
      rw [List.takeWhile_cons_of_neg (by simp [h]), List.dropWhile_cons_of_neg (by simp [h]),
        audible, List.takeWhile_cons_of_neg (by simp [h]),
        List.dropWhile_cons_of_neg (by simp [h])]
      exact ⟨rfl, rfl⟩
    | true =>
      have hcls : t.cls ≠ .name := by
        intro hn
        simp [Token.continuesDirective, hn] at h
      rw [audible_cons_of_muted (muted_of_cls hcls ts), List.takeWhile_cons_of_pos h,
        List.takeWhile_cons_of_pos h, List.dropWhile_cons_of_pos h,
        List.dropWhile_cons_of_pos h, ih.1, ih.2]
      exact ⟨rfl, rfl⟩

end GrammarSettings

theorem Settled.of_cls {t : Token} (hn : t.cls ≠ .name) (hd : t.cls ≠ .directive) :
    Settled g t :=
  ⟨by simp [Token.opensDirective, hd], fun ts => GrammarSettings.muted_of_cls hn ts⟩

theorem Settled.of_toll {t : Token} (hn : t.cls = .name)
    (hattr : ¬ (t.text = "__attribute" || t.text = "__attribute__") = true)
    (htoll : g.toll t.text = 0) : Settled g t := by
  refine ⟨by simp [Token.opensDirective, hn], fun ts => ?_⟩
  rw [GrammarSettings.muted, if_pos hn, if_neg hattr, htoll, ite_self]

/-- The `;` at the end of an attribute, of whatever class it is. -/
theorem Settled.of_semicolon {t : Token} (htoll : g.toll ";" = 0) (ht : t.text = ";") :
    Settled g t := by
  cases hn : t.cls with
  | name => exact .of_toll hn (by rw [ht]; decide) (by rw [ht, htoll])
  | directive =>
    exact ⟨by rw [Token.opensDirective, ht, Bool.and_eq_false_iff]; exact .inr (by decide),
      fun ts => GrammarSettings.muted_of_cls (by simp [hn]) ts⟩
  | operator => exact .of_cls (by simp [hn]) (by simp [hn])
  | separator => exact .of_cls (by simp [hn]) (by simp [hn])
  | string => exact .of_cls (by simp [hn]) (by simp [hn])
  | comment => exact .of_cls (by simp [hn]) (by simp [hn])

namespace GrammarSettings

/-- The directives that the filter looks at. -/
def heard (g : GrammarSettings) (ts : List Token) : List Directive :=
  Directive.ofTokens (g.audible ts)

variable {t : Token}

theorem heard_of_settled (h : Settled g t) (ts : List Token) : g.heard (t :: ts) = g.heard ts := by
  unfold heard
  rw [audible_cons_of_muted (h.muted ts), Directive.ofTokens_cons_of_not_opens h.opens]

/-- A token that is put back, or lost because another is, changes nothing. -/
theorem heard_of_held {held : Option Token} (h : ∀ t, held = some t → Settled g t)
    (ts : List Token) : g.heard (held.toList ++ ts) = g.heard ts := by
  cases held with
  | none => rfl
  | some t => exact heard_of_settled (h t rfl) ts

/-- What stands after a word that mutes tokens is all that is heard. -/
theorem heard_of_name (ht : t.cls = .name) (ts : List Token) :
    g.heard (t :: ts) = g.heard (ts.drop (g.muted t ts)) := by
  unfold heard
  rw [audible, Directive.ofTokens_cons_of_not_opens]
  simp [Token.opensDirective, ht]

/-- The first directive comes first. -/
theorem heard_of_directive (ht : t.cls = .directive) (ts : List Token) :
    g.heard (t :: ts)
      = (if t.opensDirective then
          [⟨t.text, (ts.takeWhile Token.continuesDirective).map Token.text⟩] else [])
        ++ g.heard (ts.dropWhile Token.continuesDirective) := by
  obtain ⟨htake, hdrop⟩ := g.span_audible ts
  unfold heard
  rw [audible_cons_of_muted (muted_of_cls (by simp [ht]) ts), ← hdrop,
    Directive.ofTokens_dropWhile, Directive.ofTokens, htake]
  split <;> rfl

end GrammarSettings

/-! ## Streams over lists -/

namespace TokenStream

theorem next_list (ts : List Token) :
    (⟨ts, none⟩ : TokenStream (List Token)).next = (ts.head?, ⟨ts.tail, none⟩) := by
  cases ts <;> rfl

/-- The token taken and those left are the ones there were. -/
theorem next_list_held (st : TokenStream (List Token)) :
    ∃ ts, st.next.2 = ⟨ts, none⟩ ∧ st.next.1.toList ++ ts = st.held.toList ++ st.feed
      ∧ (st.next.1 = none → ts = []) := by
  obtain ⟨feed, held⟩ := st
  cases held with
  | some t => exact ⟨feed, rfl, rfl, nofun⟩
  | none =>
    cases feed with
    | nil => exact ⟨[], rfl, rfl, fun _ => rfl⟩
    | cons t ts => exact ⟨ts, rfl, rfl, nofun⟩

theorem skip_list (n : Nat) (ts : List Token) :
    skip n (⟨ts, none⟩ : TokenStream (List Token)) = ⟨ts.drop n, none⟩ := by
  induction n generalizing ts with
  | zero => rfl
  | succ n ih => rw [skip, next_list, ih, List.drop_tail]

theorem directiveArgs_list (ts : List Token) :
    (⟨ts, none⟩ : TokenStream (List Token)).directiveArgs =
      ((ts.takeWhile Token.continuesDirective).map Token.text,
        (ts.dropWhile Token.continuesDirective).head?,
        ⟨(ts.dropWhile Token.continuesDirective).tail, none⟩) := by
  induction ts with
  | nil => exact directiveArgs_of_none rfl
  | cons t ts ih =>
    cases hc : t.continuesDirective with
    | true =>
      rw [directiveArgs_of_continues rfl hc, ih, List.takeWhile_cons_of_pos hc,
        List.dropWhile_cons_of_pos hc, List.map_cons]
    | false =>
      rw [directiveArgs_of_other rfl hc, List.takeWhile_cons_of_neg (by simp [hc]),
        List.dropWhile_cons_of_neg (by simp [hc])]
      rfl

theorem skipAttribute_list (ts : List Token) :
    (⟨ts, none⟩ : TokenStream (List Token)).skipAttribute =
      ((ts.dropWhile (·.text ≠ ";")).head?, ⟨(ts.dropWhile (·.text ≠ ";")).tail, none⟩) := by
  induction ts with
  | nil => exact skipAttribute_of_none rfl
  | cons t ts ih =>
    by_cases ht : t.text = ";"
    · rw [skipAttribute_of_semicolon rfl ht, List.dropWhile_cons_of_neg (by simp [ht])]
      rfl
    · rw [skipAttribute_of_other rfl ht, ih, List.dropWhile_cons_of_pos (by simp [ht])]

theorem text_skipAttribute {σ : Type} [Feed σ] [LawfulFeed σ] (st : TokenStream σ) {t : Token}
    (h : st.skipAttribute.1 = some t) : t.text = ";" := by
  fun_induction skipAttribute st with
  | case1 => cases h
  | case2 st u rest hn _ hu => cases h; exact hu
  | case3 st u rest hn _ hu ih => exact ih h

theorem listed_list (st : TokenStream (List Token)) : st.listed = st := by
  rw [listed, Feed.tokens_list]

section Listed

variable {σ : Type} [Feed σ] [LawfulFeed σ] [FusedFeed σ] {st : TokenStream σ} {ts : List Token}

theorem next_of_listed (h : st.listed = ⟨ts, none⟩) :
    st.next.1 = ts.head? ∧ st.next.2.listed = ⟨ts.tail, none⟩ := by
  have hnext := st.next_listed
  rw [h, next_list, Prod.mk.injEq] at hnext
  exact ⟨hnext.1.symm, hnext.2.symm⟩

theorem directiveArgs_of_listed (h : st.listed = ⟨ts, none⟩) :
    st.directiveArgs.1 = (ts.takeWhile Token.continuesDirective).map Token.text
      ∧ st.directiveArgs.2.1 = (ts.dropWhile Token.continuesDirective).head?
      ∧ st.directiveArgs.2.2.listed = ⟨(ts.dropWhile Token.continuesDirective).tail, none⟩ := by
  have hargs := st.directiveArgs_listed
  rw [h, directiveArgs_list, Prod.mk.injEq, Prod.mk.injEq] at hargs
  exact ⟨hargs.1.symm, hargs.2.1.symm, hargs.2.2.symm⟩

theorem skipAttribute_of_listed (h : st.listed = ⟨ts, none⟩) :
    st.skipAttribute.1 = (ts.dropWhile (·.text ≠ ";")).head?
      ∧ st.skipAttribute.2.listed = ⟨(ts.dropWhile (·.text ≠ ";")).tail, none⟩ := by
  have hskip := st.skipAttribute_listed
  rw [h, skipAttribute_list, Prod.mk.injEq] at hskip
  exact ⟨hskip.1.symm, hskip.2.symm⟩

theorem skip_of_listed (n : Nat) (h : st.listed = ⟨ts, none⟩) :
    (st.skip n).listed = ⟨ts.drop n, none⟩ := by
  rw [← skip_listed, h, skip_list]

/-- The token taken and those left are the ones there were. -/
theorem next_listed_held (st : TokenStream σ) :
    ∃ ts, st.next.2.listed = ⟨ts, none⟩
      ∧ st.next.1.toList ++ ts = st.held.toList ++ Feed.tokens st.feed
      ∧ (st.next.1 = none → ts = []) := by
  obtain ⟨ts, hnext, hall, hend⟩ := st.listed.next_list_held
  rw [next_listed] at hnext hall hend
  exact ⟨ts, hnext, hall, hend⟩

end Listed

end TokenStream

/-! ## One step of the scan -/

namespace Scanner

variable {env : ScanEnv}

theorem head?_append_tail (ts : List Token) : ts.head?.toList ++ ts.tail = ts := by
  cases ts <;> rfl

theorem tail_of_head?_none {ts : List Token} (h : ts.head? = none) : ts.tail = [] := by
  rw [List.head?_eq_none_iff.mp h, List.tail_nil]

section Seek

variable {σ : Type} [Feed σ] [LawfulFeed σ]

/-- The filter hands on settled tokens. -/
theorem settled_seek (hown : env.settings.grammar.KeepsOwn) (next : Option Token)
    (s : Scanner σ) {t : Token} (h : (seek env next s).1 = some t) :
    Settled env.settings.grammar t := by
  fun_induction seek env next s with
  | case1 => cases h
  | case2 s u hu _ ih => exact ih h
  | case3 s u hu _ s' ih => exact ih h
  | case4 s u hu htext => cases h; exact .of_toll rfl (by decide) hown.1
  | case5 s u hu htext hattr =>
    exact .of_semicolon hown.2 (TokenStream.text_skipAttribute s.stream h)
  | case6 s u hu htext hattr count hcount _ _ ih => exact ih h
  | case7 s u hu htext hattr hnone =>
    cases h
    exact .of_toll hu hattr (by rw [GrammarSettings.toll, hnone, Option.getD_none])
  | case8 s u hc hd hn => cases h; exact .of_cls hn hd

omit [Feed σ] [LawfulFeed σ] in
/-- A token that is put back is as settled as it was. -/
theorem settled_unread {g : GrammarSettings} {s : Scanner σ} (t : Token)
    (hheld : ∀ u, s.stream.held = some u → Settled g u)
    (hcurrent : ∀ u, s.current = some u → Settled g u) :
    ∀ u, (s.unread t).stream.held = some u → Settled g u := by
  intro u hu
  rw [held_unread, Option.or_eq_some_iff] at hu
  rcases hu with hu | ⟨-, hu⟩
  · exact hcurrent u hu
  · exact hheld u hu

/-- What `f` tells of a scan is moved by its directives, and by nothing else on the way to the
next token. -/
structure MovedBy {β : Type} (env : ScanEnv) (f : Scanner σ → β) (move : β → Directive → β) :
    Prop where
  obey : ∀ s word args, f (s.obey env word args) = move (f s) ⟨word, args⟩
  absorb : ∀ s text, f (absorb env text s) = f s
  stream : ∀ s stream, f { s with stream } = f s
  /-- A word that is none of a directive moves nothing. -/
  idle : ∀ b {word : String} args, startsWith ['#'] word.toList = false → move b ⟨word, args⟩ = b

/-- Looking for a token of the grammar obeys the directives on the way. Those still to come after
it lead to the same as all that there were, and if there is no token, there are none left. -/
theorem seek_heard [FusedFeed σ] {β : Type} {f : Scanner σ → β} {move : β → Directive → β}
    (hf : MovedBy env f move) (hown : env.settings.grammar.KeepsOwn) (next : Option Token)
    (s : Scanner σ) (ts : List Token) (hs : s.stream.listed = ⟨ts, none⟩)
    (hend : next = none → ts = []) :
    ∃ ts', (seek env next s).2.stream.listed = ⟨ts', none⟩
      ∧ ((seek env next s).1 = none → ts' = [])
      ∧ (env.settings.grammar.heard ts').foldl move (f (seek env next s).2)
        = (env.settings.grammar.heard (next.toList ++ ts)).foldl move (f s) := by
  fun_induction seek env next s generalizing ts with
  | case1 s => exact ⟨ts, hs, fun _ => hend rfl, rfl⟩
  | case2 s t ht _ ih =>
    obtain ⟨hhead, htail⟩ := TokenStream.next_of_listed hs
    rw [hhead] at ih ⊢
    obtain ⟨ts', hstream, hnone, hmoved⟩ := ih ts.tail htail tail_of_head?_none
    refine ⟨ts', hstream, hnone, hmoved.trans ?_⟩
    have hsettled : Settled env.settings.grammar t := .of_cls (by simp [ht]) (by simp [ht])
    rw [head?_append_tail, Option.toList_some, List.singleton_append,
      GrammarSettings.heard_of_settled hsettled, hf.absorb, hf.stream]
  | case3 s t ht _ s' ih =>
    obtain ⟨hargs, hhead, htail⟩ := TokenStream.directiveArgs_of_listed hs
    rw [hhead] at ih ⊢
    obtain ⟨ts', hstream, hnone, hmoved⟩ :=
      ih (ts.dropWhile Token.continuesDirective).tail
        ((congrArg TokenStream.listed (stream_obey ..)).trans htail) tail_of_head?_none
    refine ⟨ts', hstream, hnone, hmoved.trans ?_⟩
    rw [head?_append_tail, Option.toList_some, List.singleton_append, hf.obey, hf.stream, hargs,
      GrammarSettings.heard_of_directive ht, List.foldl_append]
    cases hopens : t.opensDirective with
    | true => rfl
    | false =>
      rw [hf.idle _ _ (by simpa [Token.opensDirective, ht] using hopens)]
      rfl
  | case4 s t ht htext =>
    refine ⟨ts, hs, fun h => (by cases h), ?_⟩
    rw [Option.toList_some, List.singleton_append, GrammarSettings.heard_of_name ht,
      GrammarSettings.muted_of_const ht htext, List.drop_zero]
  | case5 s t ht htext hattr =>
    obtain ⟨hhead, htail⟩ := TokenStream.skipAttribute_of_listed hs
    rw [hhead]
    refine ⟨_, htail, tail_of_head?_none, ?_⟩
    rw [Option.toList_some, List.singleton_append, GrammarSettings.heard_of_name ht,
      GrammarSettings.drop_muted_of_attribute _ ht htext hattr, hf.stream]
    -- The `;` is handed on, and it moves nothing.
    cases hd : ts.dropWhile (·.text ≠ ";") with
    | nil => rfl
    | cons u us =>
      have hu : u.text = ";" := by
        have h := List.head?_dropWhile_not (fun t : Token => decide (t.text ≠ ";")) ts
        rw [hd] at h
        simpa using h
      rw [GrammarSettings.heard_of_settled (.of_semicolon hown.2 hu)]
      rfl
  | case6 s t ht htext hattr count hcount _ _ ih =>
    obtain ⟨hhead, htail⟩ := TokenStream.next_of_listed (TokenStream.skip_of_listed count hs)
    rw [hhead] at ih ⊢
    obtain ⟨ts', hstream, hnone, hmoved⟩ := ih (ts.drop count).tail htail tail_of_head?_none
    refine ⟨ts', hstream, hnone, hmoved.trans ?_⟩
    have hmuted : env.settings.grammar.muted t ts = count := by
      rw [GrammarSettings.muted_of_word ht htext hattr, GrammarSettings.toll, hcount,
        Option.getD_some]
    rw [head?_append_tail, Option.toList_some, List.singleton_append,
      GrammarSettings.heard_of_name ht, hmuted, hf.stream]
  | case7 s t ht htext hattr hnone =>
    have hsettled : Settled env.settings.grammar t :=
      .of_toll ht hattr (by rw [GrammarSettings.toll, hnone, Option.getD_none])
    refine ⟨ts, hs, fun h => (by cases h), ?_⟩
    rw [Option.toList_some, List.singleton_append, GrammarSettings.heard_of_settled hsettled]
  | case8 s t hc hd hn =>
    refine ⟨ts, hs, fun h => (by cases h), ?_⟩
    rw [Option.toList_some, List.singleton_append,
      GrammarSettings.heard_of_settled (.of_cls hn hd)]

end Seek

end Scanner

end HeaderAtlas
