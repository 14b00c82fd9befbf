import HeaderAtlas.Proofs.Scanner.Follow
import HeaderAtlas.Proofs.Scanner.Heard
import HeaderAtlas.Proofs.Scanner.Slot

/-!
# Ignored words make no difference

An ignored word with which no further tokens are dropped can stand anywhere in a list of
tokens. The scans with and without it differ in their feeds only, until the search for a token
comes to the word; it is dropped there, or passed over as a part of an attribute, and from
then on the two scans are one and the same. This is the step lemma `Parting.seek`, and
`Beside` is the relation that all instructions keep (`Beside.lockstep`).

Two things would tell the lists apart. Tokens that are dropped together with an earlier word
are counted, and the word would be one of them. And the words of a directive go on up to the
first token that is none, so the word must not keep a directive from words after it.
-/

namespace HeaderAtlas

/-- No tokens are dropped together with this one. -/
def GrammarSettings.DropsNone (g : GrammarSettings) (t : Token) : Prop :=
  t.cls = .name → t.text ≠ "__const" →
    ¬ (t.text = "__attribute" || t.text = "__attribute__") = true → g.toll t.text = 0

theorem Settled.dropsNone {g : GrammarSettings} {t : Token} (h : Settled g t) : g.DropsNone t := by
  intro hname hconst hattr
  have hmuted := h.muted []
  rwa [GrammarSettings.muted_of_word hname hconst hattr] at hmuted

/-- The tokens `ts` may be followed by `after` or by a word and then `after`: none of them drops
tokens after it, and the last one is no part of a directive that goes on in `after`. -/
structure Seam (g : GrammarSettings) (ts after : List Token) : Prop where
  free : ∀ t ∈ ts, g.DropsNone t
  apart : ∀ t u, ts.getLast? = some t → after.head? = some u → t.cls = .directive →
    u.continuesDirective = false

/-- The word is dropped alone, and is none that the filter looks at before. -/
structure DroppedAlone (g : GrammarSettings) (word : String) : Prop where
  ignored : g.ignoredWords.get? word = some 0
  ne_const : word ≠ "__const"
  not_attribute : ¬ (word = "__attribute" || word = "__attribute__") = true
  ne_semicolon : word ≠ ";"

namespace Seam

variable {g : GrammarSettings} {t u : Token} {ts us after : List Token}

theorem of_suffix (h : Seam g ts after) (hsuffix : us <:+ ts) : Seam g us after := by
  refine ⟨fun t ht => h.free t (hsuffix.subset ht), fun t u ht => h.apart t u ?_⟩
  obtain ⟨front, rfl⟩ := hsuffix
  rw [List.getLast?_append, ht, Option.some_or]

theorem tail (h : Seam g (t :: ts) after) : Seam g ts after := h.of_suffix (List.suffix_cons t ts)

/-- A name that drops nothing may come first. -/
theorem cons (h : Seam g ts after) (ht : t.cls = .name) (hdrops : g.DropsNone t) :
    Seam g (t :: ts) after := by
  refine ⟨List.forall_mem_cons.mpr ⟨hdrops, h.free⟩, fun v u hv hu hc => ?_⟩
  cases ts with
  | nil =>
    rw [List.getLast?_singleton] at hv
    cases hv
    rw [ht] at hc
    cases hc
  | cons w ws => exact h.apart v u (by rwa [List.getLast?_cons_cons] at hv) hu hc

/-- The words of a directive end before `after`, whether or not something else is put there. -/
theorem span (h : Seam g (t :: ts) after) (ht : t.cls = .directive) (rest : List Token)
    (hrest : ∀ u, rest.head? = some u → u.continuesDirective = true → after.head? = some u) :
    (ts ++ rest).takeWhile Token.continuesDirective = ts.takeWhile Token.continuesDirective
      ∧ (ts ++ rest).dropWhile Token.continuesDirective
        = ts.dropWhile Token.continuesDirective ++ rest := by
  induction ts generalizing t with
  | nil =>
    cases rest with
    | nil => exact ⟨rfl, rfl⟩
    | cons u us =>
      have hu : u.continuesDirective = false := by
        rw [← Bool.not_eq_true]
        intro hu
        rw [h.apart t u rfl (hrest u rfl hu) ht] at hu
        cases hu
      exact ⟨List.takeWhile_cons_of_neg (by simp [hu]),
        List.dropWhile_cons_of_neg (by simp [hu])⟩
  | cons v vs ih =>
    cases hv : v.continuesDirective with
    | true =>
      have hcls : v.cls = .directive := by
        rw [Token.continuesDirective, Bool.and_eq_true] at hv
        exact eq_of_beq hv.1
      obtain ⟨htake, hdrop⟩ := ih h.tail hcls
      rw [List.cons_append, List.takeWhile_cons_of_pos hv, List.takeWhile_cons_of_pos hv,
        List.dropWhile_cons_of_pos hv, List.dropWhile_cons_of_pos hv, htake, hdrop]
      exact ⟨rfl, rfl⟩
    | false =>
      rw [List.cons_append, List.takeWhile_cons_of_neg (by simp [hv]),
        List.takeWhile_cons_of_neg (by simp [hv]), List.dropWhile_cons_of_neg (by simp [hv]),
        List.dropWhile_cons_of_neg (by simp [hv])]
      exact ⟨rfl, rfl⟩

end Seam

/-! ## One search -/

/-- What the searches with and without the word come to: the same token, and states that differ
in that the word is still to come in the first; or the same altogether. -/
inductive Parting (g : GrammarSettings) (word : String) (after : List Token) :
    Option Token × Scanner (List Token) → Option Token × Scanner (List Token) → Prop
  | ahead {u : Token} {ts : List Token} {s : Scanner (List Token)}
      (hs : s.stream = ⟨ts ++ ⟨.name, word⟩ :: after, none⟩) (hseam : Seam g (u :: ts) after) :
      Parting g word after (some u, s) (some u, s.withFeed (ts ++ after))
  | passed (r : Option Token × Scanner (List Token)) : Parting g word after r r

namespace Parting

variable {env : ScanEnv} {word : String} {t : Token} {ts after : List Token}
  {s : Scanner (List Token)}

/-- The search goes on with the next token. It is enough to follow it from a token before the
word, since the word itself is dropped. -/
theorem next (hword : DroppedAlone env.settings.grammar word)
    (hs : s.stream = ⟨(ts ++ ⟨.name, word⟩ :: after).tail, none⟩)
    (hgo : ∀ u us, ts = u :: us → Parting env.settings.grammar word after
      (Scanner.seek env (some u) s) (Scanner.seek env (some u) (s.withFeed (us ++ after)))) :
    Parting env.settings.grammar word after
      (Scanner.seek env (ts ++ ⟨.name, word⟩ :: after).head? s)
      (Scanner.seek env (ts ++ after).head? (s.withFeed (ts ++ after).tail)) := by
  cases ts with
  | cons u us => exact hgo u us rfl
  | nil =>
    rw [List.nil_append, List.tail_cons] at hs
    rw [List.nil_append, List.nil_append, List.head?_cons,
      Scanner.seek_ignored rfl hword.ne_const hword.not_attribute hword.ignored, hs,
      TokenStream.skip_list, List.drop_zero, TokenStream.next_list, Scanner.withFeed, hs]
    exact .passed _

/-- The search for a token of the grammar comes to the same with and without the word, or is
still before it. By induction on the search; every step of it takes tokens before the word, or
reaches the word and drops it. -/
theorem seek (hconst : env.settings.grammar.toll "const" = 0)
    (hword : DroppedAlone env.settings.grammar word) (next : Option Token)
    (s : Scanner (List Token)) (hnext : next = some t)
    (hs : s.stream = ⟨ts ++ ⟨.name, word⟩ :: after, none⟩)
    (hseam : Seam env.settings.grammar (t :: ts) after) :
    Parting env.settings.grammar word after (Scanner.seek env next s)
      (Scanner.seek env next (s.withFeed (ts ++ after))) := by
  have hheld : ∀ {s : Scanner (List Token)} {ts : List Token},
      s.stream = ⟨ts ++ ⟨.name, word⟩ :: after, none⟩ → s.stream.held = none := fun hs => by rw [hs]
  fun_induction Scanner.seek env next s generalizing t ts with
  | case1 => cases hnext
  | case2 s u hu _ ih =>
    cases hnext
    rw [Scanner.seek_comment hu, Scanner.stream_withFeed (hheld hs), TokenStream.next_list]
    rw [hs, TokenStream.next_list] at ih ⊢
    refine next (s := Scanner.absorb env u.text { s with stream := _ }) hword rfl ?_
    rintro v vs rfl
    exact ih rfl rfl hseam.tail
  | case3 s u hu _ s' =>
    rename_i ih
    cases hnext
    obtain ⟨htake, hdrop⟩ := hseam.span hu after fun _ h _ => h
    obtain ⟨htake', hdrop'⟩ := hseam.span hu (⟨.name, word⟩ :: after) fun v hv hc => by
      cases hv
      cases hc
    rw [Scanner.seek_directive hu, Scanner.stream_withFeed (hheld hs),
      TokenStream.directiveArgs_list, htake, hdrop]
    subst s'
    rw [hs, TokenStream.directiveArgs_list, htake', hdrop'] at ih ⊢
    have hrest := hseam.tail.of_suffix (List.dropWhile_suffix Token.continuesDirective)
    have hline : Feed.line (ts.dropWhile Token.continuesDirective ++ ⟨.name, word⟩ :: after).tail
        = Feed.line (ts.dropWhile Token.continuesDirective ++ after).tail := rfl
    dsimp only at ih ⊢
    rw [Scanner.obey_onto env hline]
    refine next hword (Scanner.stream_obey ..) fun v vs hv => ?_
    rw [hv] at ih hrest ⊢
    exact ih rfl (Scanner.stream_obey ..) hrest
  | case4 s u hu htext =>
    cases hnext
    rw [Scanner.seek_const hu htext]
    exact .ahead hs (hseam.tail.cons rfl fun _ _ _ => hconst)
  | case5 s u hu htext hattr =>
    cases hnext
    rw [Scanner.seek_attribute hu htext hattr, Scanner.stream_withFeed (hheld hs), hs,
      TokenStream.skipAttribute_list, TokenStream.skipAttribute_list, List.dropWhile_append,
      List.dropWhile_append]
    cases hd : ts.dropWhile (·.text ≠ ";") with
    | nil =>
      -- The attribute takes the word too, and more.
      have hmore : (⟨.name, word⟩ :: after : List Token).dropWhile (·.text ≠ ";")
          = after.dropWhile (·.text ≠ ";") :=
        List.dropWhile_cons_of_pos (by simpa using hword.ne_semicolon)
      rw [List.isEmpty_nil, if_pos rfl, if_pos rfl, hmore]
      exact .passed _
    | cons v vs =>
      rw [List.isEmpty_cons, if_neg Bool.false_ne_true, if_neg Bool.false_ne_true]
      exact .ahead rfl (hseam.tail.of_suffix (hd ▸ List.dropWhile_suffix _))
  | case6 s u hu htext hattr count hcount _ _ ih =>
    cases hnext
    have hzero : count = 0 := by
      have htoll := hseam.free u List.mem_cons_self hu htext hattr
      rwa [GrammarSettings.toll, hcount, Option.getD_some] at htoll
    subst hzero
    rw [Scanner.seek_ignored hu htext hattr hcount, Scanner.stream_withFeed (hheld hs),
      TokenStream.skip_list, List.drop_zero, TokenStream.next_list]
    rw [hs, TokenStream.skip_list, List.drop_zero, TokenStream.next_list] at ih ⊢
    refine next (s := { s with stream := _ }) hword rfl ?_
    rintro v vs rfl
    exact ih rfl rfl hseam.tail
  | case7 s u hu htext hattr hnone =>
    cases hnext
    rw [Scanner.seek_name hu htext hattr hnone]
    exact .ahead hs hseam
  | case8 s u hc hd hn =>
    cases hnext
    rw [Scanner.seek_other hc hd hn]
    exact .ahead hs hseam

/-- The token after the current one. -/
theorem advance (hconst : env.settings.grammar.toll "const" = 0)
    (hword : DroppedAlone env.settings.grammar word)
    (hfeed : s.stream.feed = ts ++ ⟨.name, word⟩ :: after)
    (hseam : Seam env.settings.grammar (s.stream.held.toList ++ ts) after) :
    Parting env.settings.grammar word after
      (Scanner.seek env s.stream.next.1 { s with stream := s.stream.next.2 })
      (Scanner.seek env (s.withFeed (ts ++ after)).stream.next.1
        { s.withFeed (ts ++ after) with stream := (s.withFeed (ts ++ after)).stream.next.2 }) := by
  cases hheld : s.stream.held with
  | some c =>
    rw [hheld] at hseam
    rw [TokenStream.next_of_held hheld,
      TokenStream.next_of_held (s := (s.withFeed (ts ++ after)).stream) hheld, hfeed]
    exact seek hconst hword (some c) { s with stream := ⟨ts ++ ⟨.name, word⟩ :: after, none⟩ } rfl
      rfl hseam
  | none =>
    rw [hheld] at hseam
    rw [Scanner.stream_withFeed hheld, TokenStream.eq_of_held hheld, hfeed,
      TokenStream.next_list, TokenStream.next_list]
    refine next (s := { s with stream := ⟨(ts ++ ⟨.name, word⟩ :: after).tail, none⟩ }) hword rfl ?_
    rintro u us rfl
    exact seek hconst hword (some u) { s with stream := ⟨us ++ ⟨.name, word⟩ :: after, none⟩ } rfl
      rfl hseam

end Parting

/-! ## The whole scan -/

/-- The scan with the word and the scan without it: they are the same, or differ in that the word
is still to come in the first. -/
structure Beside (g : GrammarSettings) (word : String) (after : List Token)
    (s t : Scanner (List Token)) : Prop where
  current : ∀ u, s.current = some u → Settled g u
  feeds : t = s ∨ ∃ ts, s.stream.feed = ts ++ ⟨.name, word⟩ :: after
    ∧ t = s.withFeed (ts ++ after) ∧ Seam g (s.stream.held.toList ++ ts) after
    ∧ Seam g (s.current.toList ++ ts) after

namespace Beside

variable {env : ScanEnv} {word : String} {after : List Token} {s t : Scanner (List Token)}

theorem advance (hown : env.settings.grammar.KeepsOwn)
    (hword : DroppedAlone env.settings.grammar word)
    (h : Beside env.settings.grammar word after s t) :
    Beside env.settings.grammar word after (s.advance env) (t.advance env) := by
  refine ⟨fun u hu => Scanner.settled_seek hown _ _ hu, ?_⟩
  rcases h.feeds with rfl | ⟨ts, hfeed, rfl, hheld, -⟩
  · exact .inl rfl
  have hparting := Parting.advance hown.1 hword hfeed hheld
  unfold Scanner.advance
  dsimp only
  generalize Scanner.seek env s.stream.next.1 { s with stream := s.stream.next.2 } = r at hparting ⊢
  generalize Scanner.seek env (s.withFeed (ts ++ after)).stream.next.1
    { s.withFeed (ts ++ after) with stream := (s.withFeed (ts ++ after)).stream.next.2 } = r'
    at hparting ⊢
  cases hparting with
  | @ahead u us s' hs hseam =>
    refine .inr ⟨us, by rw [hs], rfl, ?_, hseam⟩
    rw [hs]
    exact hseam.tail
  | passed => exact .inl rfl

theorem lockstep (hown : env.settings.grammar.KeepsOwn)
    (hword : DroppedAlone env.settings.grammar word) :
    Lockstep env (Beside env.settings.grammar word after) fun _ => False where
  view := by
    rintro s t ⟨-, rfl | ⟨ts, -, rfl, -, -⟩⟩
    · rfl
    · rfl
  line := by
    rintro s t ⟨-, rfl | ⟨ts, -, rfl, -, -⟩⟩
    · rfl
    · rfl
  position := by
    rintro s t ⟨-, rfl | ⟨ts, -, rfl, -, -⟩⟩
    · rfl
    · rfl
  edit := by
    intro s t h e
    refine ⟨?_, ?_⟩
    · rw [Scanner.current_edit]
      exact h.current
    rcases h.feeds with rfl | ⟨ts, hfeed, rfl, hheld, hcurrent⟩
    · exact .inl rfl
    · have hline : Feed.line s.stream.feed = Feed.line (ts ++ after) := rfl
      refine .inr ⟨ts, ?_, Scanner.edit_withFeed env hline e, ?_, ?_⟩
      · rw [Scanner.stream_edit]
        exact hfeed
      · rw [Scanner.stream_edit]
        exact hheld
      · rw [Scanner.current_edit]
        exact hcurrent
  dropLine := by
    intro s t h failure
    refine .inl ⟨h.current, ?_⟩
    rcases h.feeds with rfl | ⟨ts, hfeed, rfl, hheld, hcurrent⟩
    · exact .inl rfl
    · exact .inr ⟨ts, hfeed, rfl, hheld, hcurrent⟩
  advance h := .inl (h.advance hown hword)
  unread := by
    intro s₀ t₀ s t c h₀ hc hname h
    have hsettled := h₀.current c hc
    refine ⟨fun u hu => ?_, ?_⟩
    · cases hu
      exact hsettled
    rcases h.feeds with rfl | ⟨ts, hfeed, rfl, hheld, hcurrent⟩
    · exact .inl rfl
    · have hts : Seam env.settings.grammar ts after :=
        hcurrent.of_suffix (List.suffix_append _ ts)
      refine .inr ⟨ts, ?_, Scanner.unread_withFeed _ s c, ?_,
        hts.cons (eq_of_beq hname) hsettled.dropsNone⟩
      · rw [Scanner.feed_unread]
        exact hfeed
      · rw [Scanner.held_unread]
        cases hcur : s.current with
        | none => exact hheld
        | some u => rwa [hcur] at hcurrent
  off := ⟨fun _ _ => id, fun _ _ => id, fun _ => id, fun _ _ _ _ _ _ => id⟩
  off_unread _ := id

end Beside

namespace Catalog

/-- A word that is dropped alone can be left out, also where an attribute is not yet closed. -/
theorem ofFeed_of_droppedAlone {o : ScanOptions} (file : String) {word : String}
    {before after : List Token} (hown : o.settings.grammar.KeepsOwn)
    (hword : DroppedAlone o.settings.grammar word)
    (hseam : Seam o.settings.grammar before after) :
    Catalog.ofFeed o file (before ++ ⟨.name, word⟩ :: after)
      = Catalog.ofFeed o file (before ++ after) := by
  have hstart : Beside o.settings.grammar word after
      (Scanner.start (o.env file) (before ++ ⟨.name, word⟩ :: after))
      (Scanner.start (o.env file) (before ++ after)) :=
    ⟨nofun, .inr ⟨before, rfl, rfl, hseam, hseam⟩⟩
  have hlock : Lockstep (o.env file) (Beside o.settings.grammar word after) fun _ => False :=
    Beside.lockstep hown hword
  have hrun := hlock.reader Reader.readFile hstart
  have hsame : ∀ {s t : Scanner (List Token)}, Beside o.settings.grammar word after s t →
      t.catalog (o.env file) = s.catalog (o.env file) ∧ t.journal = s.journal := by
    rintro s t ⟨-, rfl | ⟨ts, -, rfl, -, -⟩⟩
    · exact ⟨rfl, rfl⟩
    · exact ⟨rfl, rfl⟩
  unfold ofFeed Scanner.run
  generalize Reader.readFile.run (Routine.run (o.env file)) (o.env file)
    (Scanner.start (o.env file) (before ++ ⟨.name, word⟩ :: after)) = r at hrun ⊢
  generalize Reader.readFile.run (Routine.run (o.env file)) (o.env file)
    (Scanner.start (o.env file) (before ++ after)) = r' at hrun ⊢
  cases hrun with
  | ok _ hst =>
    obtain ⟨hcatalog, hjournal⟩ := hsame hst
    dsimp only
    rw [hcatalog, hjournal]
  | failed e hst =>
    dsimp only
    rw [(hsame hst).2]
  | off hoff => exact hoff.elim

end Catalog

/-! ## The built-in words -/

namespace GrammarSettings

variable {word : String}

theorem droppedAlone_builtin (h : builtin.ignoredWords.get? word = some 0) :
    DroppedAlone builtin word := by
  have hall : ∀ p ∈ builtin.ignoredWords.entries, p.1 ≠ "__const"
      ∧ ¬ (p.1 = "__attribute" || p.1 = "__attribute__") = true ∧ p.1 ≠ ";" := by
    decide +kernel
  obtain ⟨hconst, hattr, hsemicolon⟩ := hall _ (NameMap.get?_eq_some_iff.mp h)
  exact ⟨h, hconst, hattr, hsemicolon⟩

theorem toll_builtin (h : word ≠ "__declspec") : builtin.toll word = 0 := by
  have hall : ∀ p ∈ builtin.ignoredWords.entries, p.1 ≠ "__declspec" → p.2 = 0 := by
    decide +kernel
  rw [toll]
  cases hget : builtin.ignoredWords.get? word with
  | none => rfl
  | some count => exact hall _ (NameMap.get?_eq_some_iff.mp hget) h

end GrammarSettings

namespace Catalog

/-- **Ignored words make no difference.** With the built-in settings, an ignored word that is
dropped alone can be left out of a list of tokens anywhere, unless `__declspec` comes before it
or it stands between words of a directive: the outcome of the scan is the same. -/
theorem ofFeed_of_ignored {o : ScanOptions} (hsettings : o.settings = .builtin) (file : String)
    {word : String} {before after : List Token}
    (hword : GrammarSettings.builtin.ignoredWords.get? word = some 0)
    (hdeclspec : ⟨.name, "__declspec"⟩ ∉ before)
    (hseam : ∀ t u, before.getLast? = some t → after.head? = some u →
      ¬ (t.cls = .directive ∧ u.cls = .directive)) :
    Catalog.ofFeed o file (before ++ ⟨.name, word⟩ :: after)
      = Catalog.ofFeed o file (before ++ after) := by
  have hgrammar : o.settings.grammar = .builtin := congrArg Settings.grammar hsettings
  refine ofFeed_of_droppedAlone file (hgrammar ▸ by decide +kernel)
    (hgrammar ▸ GrammarSettings.droppedAlone_builtin hword) ⟨fun t ht hname _ _ => ?_, ?_⟩
  · rw [hgrammar]
    refine GrammarSettings.toll_builtin ?_
    rintro htext
    obtain ⟨cls, text⟩ := t
    cases hname
    cases htext
    exact hdeclspec ht
  · intro t u ht hu hdirective
    rw [Token.continuesDirective, Bool.and_eq_false_iff]
    left
    exact beq_eq_false_iff_ne.mpr fun h => hseam t u ht hu ⟨hdirective, h⟩

/-- A prototype up to the name of its parameter, and the rest of it. -/
def prototypeParts : List Token × List Token :=
  ([⟨.name, "int"⟩, ⟨.name, "f"⟩, ⟨.separator, "("⟩, ⟨.name, "int"⟩, ⟨.name, "x"⟩],
    [⟨.separator, ")"⟩, ⟨.separator, ";"⟩])

theorem ofFeed_of_unused :
    GrammarSettings.builtin.ignoredWords.get? "G_GNUC_UNUSED" = some 0
      ∧ Catalog.ofFeed {} "a.h" (prototypeParts.1 ++ ⟨.name, "G_GNUC_UNUSED"⟩ :: prototypeParts.2)
        = Catalog.ofFeed {} "a.h" (prototypeParts.1 ++ prototypeParts.2)
      ∧ ((Catalog.ofFeed {} "a.h" (prototypeParts.1 ++ prototypeParts.2)).result.toOption.bind
          (·.functions.get? "f")).isSome = true :=
  ⟨by decide +kernel,
    ofFeed_of_ignored rfl "a.h" (by decide +kernel) (by decide)
      (fun t u _ hu h => by cases hu; cases h.2), by decide +kernel⟩

end Catalog

end HeaderAtlas
