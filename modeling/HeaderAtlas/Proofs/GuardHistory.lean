import HeaderAtlas.Proofs.Reader.Invariant
import HeaderAtlas.Proofs.Reader.Passing
import HeaderAtlas.Proofs.Scanner.Heard

/-!
# The guards at the end of a scan

The guards of a scan are moved by its directives and by nothing else, so at the end
they should be the fold of all directives of the file. They are, as far as the filter
sees the directives, which are those in `GrammarSettings.audible`.

The invariant is that folding the directives still to come over the present guards
gives the guards at the end.
-/

namespace HeaderAtlas

open Text

/-- What all directives of a list of tokens do to the guards. -/
def Guards.obeyAll (g : Guards) (ts : List Token) : Guards :=
  (Directive.ofTokens ts).foldl Guards.obey g

variable {g : GrammarSettings}

/-! ## One step of the scan -/

namespace Scanner

theorem movedBy_guards {σ : Type} [Feed σ] (env : ScanEnv) :
    MovedBy env (fun s : Scanner σ => s.guards) Guards.obey where
  obey s word args := guards_obey env s word args
  absorb _ _ := rfl
  stream _ _ := rfl
  idle gs _ args h := gs.obey_of_not_opens args h

variable {env : ScanEnv}

/-- Looking for a token of the grammar keeps the guards that the rest leads to, and if there is
none, there are no tokens left. -/
theorem seek_history (hown : env.settings.grammar.KeepsOwn) (next : Option Token)
    (s : Scanner (List Token)) (ts : List Token) (hs : s.stream = ⟨ts, none⟩)
    (hend : next = none → ts = []) :
    ∃ ts', (seek env next s).2.stream = ⟨ts', none⟩
      ∧ ((seek env next s).1 = none → ts' = [])
      ∧ (seek env next s).2.guards.obeyAll (env.settings.grammar.audible ts')
          = s.guards.obeyAll (env.settings.grammar.audible (next.toList ++ ts)) := by
  obtain ⟨ts', hstream, hnone, hmoved⟩ := seek_heard (movedBy_guards env) hown next s ts
    ((TokenStream.listed_list _).trans hs) hend
  exact ⟨ts', (TokenStream.listed_list _).symm.trans hstream, hnone, hmoved⟩

/-- The directives still to come lead to the guards `last`. -/
structure Due (env : ScanEnv) (last : Guards) (s : Scanner (List Token)) : Prop where
  held : ∀ t, s.stream.held = some t → Settled env.settings.grammar t
  guards : s.guards.obeyAll
    (env.settings.grammar.audible (s.stream.held.toList ++ s.stream.feed)) = last

/-- In the middle of a scan the current token is settled as well, and where there is
none, there are no tokens left. -/
structure Underway (env : ScanEnv) (last : Guards) (s : Scanner (List Token)) : Prop
    extends Due env last s where
  current : ∀ t, s.current = some t → Settled env.settings.grammar t
  exhausted : s.current = none → s.stream = ⟨[], none⟩

/-- Going on to the next token gets a scan under way. -/
theorem Due.advance (hown : env.settings.grammar.KeepsOwn) {last : Guards}
    {s : Scanner (List Token)} (h : Due env last s) : Underway env last (s.advance env) := by
  obtain ⟨ts, hnext, hall, hend⟩ := s.stream.next_list_held
  obtain ⟨ts', hseek, hnone, hguards⟩ :=
    seek_history hown s.stream.next.1 { s with stream := s.stream.next.2 } ts hnext hend
  have hstream : (s.advance env).stream = ⟨ts', none⟩ := hseek
  rw [hall] at hguards
  refine ⟨⟨?_, ?_⟩, fun t ht => settled_seek hown _ _ ht, fun hcur => ?_⟩
  · rw [hstream]
    exact nofun
  · rw [hstream]
    exact hguards.trans h.guards
  · rw [hstream, hnone hcur]

/-- Nothing that an instruction does changes what the guards lead to. -/
theorem underway_invariant (hown : env.settings.grammar.KeepsOwn) (last : Guards) :
    Invariant env (Underway env last) where
  edit s e h := by
    refine ⟨⟨?_, ?_⟩, ?_, ?_⟩
    · rw [stream_edit]; exact h.held
    · rw [stream_edit, guards_edit]; exact h.guards
    · rw [current_edit]; exact h.current
    · rw [current_edit, stream_edit]; exact h.exhausted
  dropLine s failure h := ⟨⟨h.held, h.guards⟩, h.current, h.exhausted⟩
  advance s h := h.toDue.advance hown
  unread s₀ s t h₀ hcur _ h := by
    have hheld := settled_unread t h.held h.current
    have hmoves : ∀ {held : Option Token},
        (∀ u, held = some u → Settled env.settings.grammar u) →
        s.guards.obeyAll (env.settings.grammar.audible (held.toList ++ s.stream.feed))
          = s.guards.obeyAll (env.settings.grammar.audible s.stream.feed) :=
      fun hsettled => congrArg (List.foldl Guards.obey s.guards)
        (GrammarSettings.heard_of_held hsettled _)
    refine ⟨⟨hheld, ?_⟩, fun u hu => ?_, nofun⟩
    · rw [feed_unread]
      exact (hmoves hheld).trans ((hmoves h.held).symm.trans h.guards)
    · cases hu
      exact h₀.current t hcur

end Scanner

/-! ## The whole scan -/

/-- A scan that ends well has obeyed all directives that the filter looks at. -/
theorem guards_eq_obeyAll_audible {env : ScanEnv} {ts : List Token} {s : Scanner (List Token)}
    (hown : env.settings.grammar.KeepsOwn) (h : Scanner.run env ts = .ok () s) :
    s.guards = Guards.obeyAll { marker := env.settings.grammar.guardMarker }
      (env.settings.grammar.audible ts) := by
  generalize hlast : Guards.obeyAll { marker := env.settings.grammar.guardMarker }
    (env.settings.grammar.audible ts) = last
  have hstart : Scanner.Due env last (Scanner.start env ts) := ⟨nofun, hlast⟩
  have hend : Scanner.Underway env last s := by
    have hloop := (Scanner.underway_invariant hown last).reader (.loop Reader.fileRound ()) _
      (hstart.advance hown)
    have hs : (Scanner.run env ts).state = s := by rw [h]; rfl
    exact hs ▸ hloop
  have hg := hend.guards
  rw [hend.exhausted (Reader.current_of_readFile h)] at hg
  simpa [GrammarSettings.audible, Guards.obeyAll, Directive.ofTokens] using hg

/-! ## No directive is lost -/

/-- The words of the directives in a list of tokens. -/
def Directive.words (ts : List Token) : List Token := ts.filter (·.cls == .directive)

namespace GrammarSettings

theorem audible_sublist (g : GrammarSettings) (ts : List Token) : (g.audible ts).Sublist ts := by
  fun_induction audible g ts with
  | case1 => exact .slnil
  | case2 t ts ih => exact (ih.trans (List.drop_sublist _ _)).cons_cons t

end GrammarSettings

/-- Tokens without a word of a directive can be left out. -/
theorem Directive.ofTokens_drop {ts : List Token} (n : Nat)
    (h : Directive.words (ts.take n) = []) :
    Directive.ofTokens (ts.drop n) = Directive.ofTokens ts := by
  induction ts generalizing n with
  | nil => rw [List.drop_nil]
  | cons t ts ih =>
    cases n with
    | zero => rfl
    | succ n =>
      rw [List.take_succ_cons, words, List.filter_cons] at h
      split at h
      · cases h
      · next ht =>
        rw [List.drop_succ_cons, ih n h, ofTokens_cons_of_not_opens]
        simp [Token.opensDirective, ht]

/-- Where the filter looks at every word of a directive, it finds all directives. -/
theorem Directive.ofTokens_audible {ts : List Token}
    (h : Directive.words (g.audible ts) = Directive.words ts) :
    Directive.ofTokens (g.audible ts) = Directive.ofTokens ts := by
  fun_induction GrammarSettings.audible g ts with
  | case1 => rfl
  | case2 t ts ih =>
    have hcut : words (g.audible (ts.drop (g.muted t ts))) = words ts := by
      rw [words, words, List.filter_cons, List.filter_cons] at h
      split at h
      · exact (List.cons.inj h).2
      · exact h
    -- What is heard of the rest is no more than the rest, so nothing is missing before it.
    have hsub : (words (g.audible (ts.drop (g.muted t ts)))).Sublist
        (words (ts.drop (g.muted t ts))) :=
      (g.audible_sublist _).filter _
    have hsplit : words ts = words (ts.take (g.muted t ts)) ++ words (ts.drop (g.muted t ts)) := by
      rw [words, words, words, ← List.filter_append, List.take_append_drop]
    have hlen := congrArg List.length (hcut.trans hsplit)
    rw [List.length_append] at hlen
    have hle := hsub.length_le
    have hnone : words (ts.take (g.muted t ts)) = [] := List.length_eq_zero_iff.mp (by omega)
    have hrest := ih (hsub.eq_of_length (by omega))
    have htail : ofTokens (g.audible (ts.drop (g.muted t ts))) = ofTokens ts :=
      hrest.trans (ofTokens_drop _ hnone)
    rw [ofTokens, ofTokens, htail]
    split
    · next hopens =>
      have hcls : t.cls ≠ .name := by
        intro hn
        simp [Token.opensDirective, hn] at hopens
      rw [GrammarSettings.muted_of_cls hcls, List.drop_zero, (g.span_audible ts).1]
    · rfl

/-- **The guards at the end of a scan are the fold of its directives**, of those that the
filter looks at. These are all directives of the file, unless a word of one stands
between an attribute and the next `;` or is dropped together with an ignored word. -/
theorem guards_eq_obeyAll {env : ScanEnv} {ts : List Token} {s : Scanner (List Token)}
    (hown : env.settings.grammar.KeepsOwn) (h : Scanner.run env ts = .ok () s) :
    s.guards = Guards.obeyAll { marker := env.settings.grammar.guardMarker }
        (env.settings.grammar.audible ts)
      ∧ (Directive.words (env.settings.grammar.audible ts) = Directive.words ts →
        s.guards = Guards.obeyAll { marker := env.settings.grammar.guardMarker } ts) := by
  have hguards := guards_eq_obeyAll_audible hown h
  refine ⟨hguards, fun hwords => ?_⟩
  rw [hguards, Guards.obeyAll, Guards.obeyAll, Directive.ofTokens_audible hwords]

/-- Conditionals around a prototype with an attribute and inside an enumeration. -/
def guardedTokens : List Token :=
  [⟨.directive, "#ifdef"⟩, ⟨.directive, "FOO_ENABLED"⟩, ⟨.name, "int"⟩, ⟨.name, "f"⟩,
    ⟨.separator, "("⟩, ⟨.separator, ")"⟩, ⟨.name, "__attribute__"⟩, ⟨.name, "pure"⟩,
    ⟨.separator, ";"⟩, ⟨.directive, "#else"⟩, ⟨.name, "enum"⟩, ⟨.separator, "\x7b"⟩, ⟨.name, "A"⟩,
    ⟨.directive, "#if"⟩, ⟨.directive, "BAR_ENABLED"⟩, ⟨.directive, "&&"⟩, ⟨.directive, "BAZ"⟩,
    ⟨.separator, ","⟩, ⟨.name, "B"⟩, ⟨.separator, "\x7d"⟩, ⟨.separator, ";"⟩]

theorem guards_of_guardedTokens :
    ∃ s, Scanner.run (ScanOptions.env {} "a.h") guardedTokens = .ok () s
      ∧ s.guards.active = ["!(defined(FOO_ENABLED))", "BAR_ENABLED && BAZ"] := by
  have hok := Ending.eq_ok_of_value?
    (show (Scanner.run (ScanOptions.env {} "a.h") guardedTokens).value? = some () by decide +kernel)
  refine ⟨_, hok, ?_⟩
  rw [(guards_eq_obeyAll (by decide +kernel) hok).2 (by decide +kernel)]
  decide +kernel

/-- An `#endif` between an attribute and the `;` after it. -/
def mutedEndif : List Token :=
  [⟨.directive, "#ifdef"⟩, ⟨.directive, "FOO_ENABLED"⟩, ⟨.name, "int"⟩, ⟨.name, "f"⟩,
    ⟨.separator, "("⟩, ⟨.separator, ")"⟩, ⟨.name, "__attribute__"⟩, ⟨.directive, "#endif"⟩,
    ⟨.separator, ";"⟩]

/-- The `#endif` is lost, and the guard stays in force to the end of the file. -/
theorem guards_of_mutedEndif :
    ∃ s, Scanner.run (ScanOptions.env {} "a.h") mutedEndif = .ok () s
      ∧ s.guards.active = ["defined(FOO_ENABLED)"]
      ∧ (Guards.obeyAll { marker := "ENABLED" } mutedEndif).active = [] := by
  have hok := Ending.eq_ok_of_value?
    (show (Scanner.run (ScanOptions.env {} "a.h") mutedEndif).value? = some () by decide +kernel)
  exact ⟨_, hok, by decide +kernel, by decide +kernel⟩

end HeaderAtlas
