import HeaderAtlas.Proofs.ErrorSwitch
import HeaderAtlas.Proofs.GuardHistory
import HeaderAtlas.Proofs.Reader.Impartial

/-!
# Where errors are off, nothing fails

Every failure goes through the error switch: where errors are off, it is noted quietly and the
scan goes on from wherever it has got to. So a scan that begins with a disabling comment, and
takes in no enabling marker, comes to an end whatever its tokens are, and nothing that it notes
is shown (`quiet_of_disabled`).

The comments have to be those that the scan takes in. A comment inside an attribute or among
the tokens dropped with an ignored word is not one of them, and without it the comments
around it may join to an enabling marker (`result_of_skippedComment`).
-/

namespace HeaderAtlas

open Text Reader

/-! ## Quiet scans -/

namespace Scanner

variable {σ : Type} [Feed σ] {env : ScanEnv} {s : Scanner σ}

/-- Errors are off, and nothing has been noted that would be shown. -/
structure Muffled (s : Scanner σ) : Prop where
  errorsOff : s.errorsOff = true
  quiet : ∀ n ∈ s.journal, n.quiet = true

omit [Feed σ] in
theorem Muffled.swallow (h : s.Muffled) (failure : Failure) : (s.swallow failure).Muffled :=
  ⟨h.errorsOff, List.forall_mem_append.mpr ⟨h.quiet, by simp⟩⟩

theorem Muffled.warn (h : s.Muffled) (topic : Topic) (messages : List String) :
    (s.warn env topic messages).Muffled :=
  ⟨h.errorsOff, List.forall_mem_append.mpr ⟨h.quiet, by simp [h.errorsOff]⟩⟩

theorem Muffled.edit (h : s.Muffled) (e : Edit) : (s.edit env e).Muffled := by
  cases e with
  | swallow failure => exact h.swallow failure
  | warn topic messages => exact h.warn topic messages
  | find fs => exact ⟨h.errorsOff, h.quiet⟩
  | record name category detail extra isStatic => exact ⟨h.errorsOff, h.quiet⟩
  | forget => exact ⟨h.errorsOff, h.quiet⟩

theorem Muffled.obey (h : s.Muffled) (word : String) (args : List String) :
    (s.obey env word args).Muffled := by
  unfold Scanner.obey
  dsimp only
  split
  · split
    · exact h
    · exact ⟨h.errorsOff, h.quiet⟩
  · unfold define
    split
    · exact h
    · dsimp only
      split
      · exact h
      · exact ⟨h.errorsOff, (h.warn _ _).quiet⟩
  all_goals exact ⟨h.errorsOff, h.quiet⟩

variable [LawfulFeed σ]

/-- Looking for a token of the grammar, as long as no comment switches errors on. -/
theorem Muffled.seek (next : Option Token) {s : Scanner σ} (h : s.Muffled)
    (hoff : ∀ y ∈ seekIntakes env next s, y.errorsOff = true) :
    (Scanner.seek env next s).2.Muffled := by
  fun_induction seekIntakes env next s with
  | case1 s => simpa [seek_none] using h
  | case2 s t ht _ ih =>
    rw [seek_comment ht]
    refine ih ⟨hoff _ List.mem_cons_self, h.quiet⟩ fun y hy => hoff y (List.mem_cons_of_mem _ hy)
  | case3 s t ht _ ih =>
    rw [seek_directive ht]
    have hs' : ({ s with stream := s.stream.directiveArgs.2.2 } : Scanner σ).Muffled :=
      ⟨h.errorsOff, h.quiet⟩
    exact ih (hs'.obey ..) hoff
  | case4 s t ht htext => simpa [seek_const ht htext] using h
  | case5 s t ht htext hattr =>
    rw [seek_attribute ht htext hattr]
    exact ⟨h.errorsOff, h.quiet⟩
  | case6 s t ht htext hattr count hcount _ _ ih =>
    rw [seek_ignored ht htext hattr hcount]
    exact ih ⟨h.errorsOff, h.quiet⟩ hoff
  | case7 s t ht htext hattr hnone => simpa [seek_name ht htext hattr hnone] using h
  | case8 s t hc hd hn => simpa [seek_other hc hd hn] using h

theorem Muffled.advance (h : s.Muffled) (hoff : ∀ y ∈ s.intakes env, y.errorsOff = true) :
    (s.advance env).Muffled := by
  have hs' : ({ s with stream := s.stream.next.2 } : Scanner σ).Muffled := ⟨h.errorsOff, h.quiet⟩
  have hseek := hs'.seek s.stream.next.1 hoff
  exact ⟨hseek.errorsOff, hseek.quiet⟩

end Scanner

open Scanner

/-- A scan in which errors are always off, beside itself. -/
def Kinship.disabled (env : ScanEnv) : Kinship where
  env := env
  collects := env.collectUsages
  Switch := (· = true)
  Line := Eq
  Whole _ := False

/-- A scan stays quiet as long as no comment switches errors on. -/
theorem parallel_disabled {σ : Type} [Feed σ] [LawfulFeed σ] (env : ScanEnv) :
    Parallel (.disabled env) (fun s : Scanner σ => ∀ y ∈ s.intakes env, y.errorsOff = true)
      (fun s t => s = t ∧ t.Muffled) where
  view h := by rw [h.1]
  switch h := h.2.errorsOff
  line h := by rw [h.1]; rfl
  position h := by rw [h.1]
  edit h he := ⟨by rw [h.1, he.eq fun _ _ => id]; rfl, h.2.edit _⟩
  dropLine _ h _ := ⟨by rw [h.1]; rfl, ⟨h.2.errorsOff, (h.2.swallow _).quiet⟩⟩
  advance h hoff := ⟨by rw [h.1]; rfl, h.2.advance hoff⟩
  unread _ _ _ h := ⟨by rw [h.1], ⟨h.2.errorsOff, h.2.quiet⟩⟩
  whole h := h.elim

/-- What is not in the comments joined in order is never in the pending comment, which is made
of successive ones. -/
theorem Intake.Successive.pending_unmarked {g : GrammarSettings} {ys : List Intake} {y : Intake}
    {marker : String} (h : Successive g ys) (hy : y ∈ ys)
    (hmarker : containsText marker (String.join (ys.map text)) = false) :
    containsText marker y.pending = false := by
  obtain ⟨before, after, rfl⟩ := List.append_of_mem hy
  have hlast : Successive g (before ++ [y]) := by
    rw [List.append_cons] at h
    exact h.init
  obtain ⟨run, ⟨early, rfl⟩, htogether⟩ := hlast.exists_together
  rw [htogether run y [] rfl]
  rw [Bool.eq_false_iff] at hmarker ⊢
  exact fun hrun => hmarker
    (containsText_join_mono ⟨early.map text, after.map text, by simp⟩ hrun)

/-- If the first comment disables errors and the enabling marker is nowhere in the comments
joined together, errors stay off. -/
theorem Intake.Successive.all_errorsOff {g : GrammarSettings} {ys : List Intake}
    (h : Successive g ys)
    (hoff : ∀ y, ys.head? = some y → containsText g.errorsOffMarker y.text = true)
    (hon : containsText g.errorsOnMarker (String.join (ys.map text)) = false) :
    ∀ y ∈ ys, y.errorsOff = true := by
  induction ys using List.reverseRecOn with
  | nil => exact List.forall_mem_nil _
  | append_singleton ys x ih =>
    have hinit : containsText g.errorsOnMarker (String.join (ys.map text)) = false := by
      rw [Bool.eq_false_iff] at hon ⊢
      exact fun hys => hon (containsText_join_mono ⟨[], [x.text], by simp⟩ hys)
    have hys := ih h.init (fun y hy => hoff y (by simp [hy])) hinit
    refine List.forall_mem_append.mpr ⟨hys, List.forall_mem_singleton.mpr ?_⟩
    rw [h.last.errorsOff, h.pending_unmarked (by simp) hon]
    cases hlast : ys.getLast? with
    | none =>
      rw [List.getLast?_eq_none_iff] at hlast
      subst hlast
      obtain ⟨run, -, htogether⟩ := h.exists_together
      rw [htogether.pending_of_text (by simp) (hoff x rfl)]
      rfl
    | some z =>
      rw [Option.any_some, hys z (List.mem_of_getLast? hlast)]
      rfl

/-- A scan that is quiet from its first token on comes to an end and stays quiet. -/
theorem Scanner.Muffled.run {σ : Type} [Feed σ] [LawfulFeed σ] {env : ScanEnv} {feed : σ}
    (h : ((start env feed).advance env).Muffled)
    (hoff : ∀ y ∈ allIntakes env feed, y.errorsOff = true) :
    ∃ s, Scanner.run env feed = .ok () s ∧ s.Muffled := by
  have hbody : Impartial (.disabled env) readBody := impartial_readBody rfl
  have hloop : Twin (.disabled env) Eq (loop fileRound ()) (loop fileRound ()) := Impartial.twin
  have htally : Tally (.disabled env) (fun s t => s = t ∧ t.Muffled) Eq (Scanner.run env feed)
      (Scanner.run env feed) :=
    (parallel_disabled env).reader (fun r => Impartial.twin) hloop ⟨rfl, h⟩
      fun u hu y hy => hoff y (List.mem_flatMap.mpr ⟨u, List.mem_cons_of_mem _ hu, hy⟩)
  cases hr : Scanner.run env feed with
  | ok a s =>
    rw [hr] at htally
    cases htally with
    | ok _ hs => exact ⟨s, rfl, hs.2⟩
  | failed e s =>
    rw [hr] at htally
    cases htally with
    | failed hon => cases hon

/-! ## Comments that are not passed over -/

/-- The texts of the comments in a list of tokens. -/
def commentTexts (ts : List Token) : List String :=
  (ts.filter (·.cls == .comment)).map Token.text

theorem commentTexts_cons_of_comment {t : Token} (h : t.cls = .comment) (ts : List Token) :
    commentTexts (t :: ts) = t.text :: commentTexts ts := by
  simp [commentTexts, h]

theorem commentTexts_cons_of_other {t : Token} (h : t.cls ≠ .comment) (ts : List Token) :
    commentTexts (t :: ts) = commentTexts ts := by
  simp [commentTexts, h]

theorem commentTexts_append (ts us : List Token) :
    commentTexts (ts ++ us) = commentTexts ts ++ commentTexts us := by
  simp [commentTexts]

/-- The words of a directive are no comments. -/
theorem commentTexts_dropWhile (ts : List Token) :
    commentTexts (ts.dropWhile Token.continuesDirective) = commentTexts ts := by
  induction ts with
  | nil => rfl
  | cons t ts ih =>
    rw [List.dropWhile_cons]
    split
    · next h =>
      have hcls : t.cls ≠ .comment := by
        intro hc
        simp [Token.continuesDirective, hc] at h
      rw [ih, commentTexts_cons_of_other hcls]
    · rfl

/-- Is the token an attribute or an ignored word? -/
def GrammarSettings.drops (g : GrammarSettings) (t : Token) : Bool :=
  t.isName && (t.text = "__attribute" || t.text = "__attribute__"
    || (g.ignoredWords.get? t.text).isSome)

namespace Scanner

variable {env : ScanEnv}

/-- The tokens `ts` are handed over as they are, and so is `const`, which stands for
`__const`. -/
def Undropped (env : ScanEnv) (ts : List Token) : Prop :=
  ∀ u ∈ ⟨.name, "const"⟩ :: ts, env.settings.grammar.drops u = false

instance (ts : List Token) : Decidable (Undropped env ts) :=
  inferInstanceAs (Decidable (∀ _ ∈ _, _))

theorem Undropped.subset {ts us : List Token} (h : Undropped env ts) (hus : us ⊆ ts) :
    Undropped env us :=
  fun u hu => h u (List.cons_subset_cons _ hus hu)

/-- Looking for a token of the grammar takes in every comment before it, where nothing is
dropped. -/
theorem texts_seekIntakes (next : Option Token) (s : Scanner (List Token)) (ts : List Token)
    (hs : s.stream = ⟨ts, none⟩) (hdrop : Undropped env (next.toList ++ ts)) :
    ∃ ts', (seek env next s).2.stream = ⟨ts', none⟩
      ∧ Undropped env ((seek env next s).1.toList ++ ts')
      ∧ (∀ u, (seek env next s).1 = some u → u.cls ≠ .comment)
      ∧ (seekIntakes env next s).map Intake.text ++ commentTexts ts'
          = commentTexts (next.toList ++ ts) := by
  fun_induction seekIntakes env next s generalizing ts with
  | case1 s =>
    rw [seek_none]
    exact ⟨ts, hs, hdrop, fun u hu => (by cases hu), rfl⟩
  | case2 s t ht _ ih =>
    rw [seek_comment ht]
    rw [hs, TokenStream.next_list] at ih ⊢
    obtain ⟨ts', h1, h2, h3, h4⟩ := ih ts.tail rfl
      (by rw [head?_append_tail]; exact hdrop.subset (List.subset_append_right ..))
    refine ⟨ts', h1, h2, h3, ?_⟩
    rw [Option.toList_some, List.singleton_append, commentTexts_cons_of_comment ht, List.map_cons,
      List.cons_append, h4, head?_append_tail]
    rfl
  | case3 s t ht _ ih =>
    rw [seek_directive ht]
    rw [hs, TokenStream.directiveArgs_list] at ih ⊢
    obtain ⟨ts', h1, h2, h3, h4⟩ := ih (ts.dropWhile Token.continuesDirective).tail
      (stream_obey ..) (by
        rw [head?_append_tail]
        exact hdrop.subset fun u hu =>
          List.mem_append_right _ ((List.dropWhile_sublist _).subset hu))
    refine ⟨ts', h1, h2, h3, h4.trans ?_⟩
    rw [head?_append_tail, commentTexts_dropWhile, Option.toList_some, List.singleton_append,
      commentTexts_cons_of_other (by simp [ht])]
  | case4 s t ht htext =>
    rw [seek_const ht htext]
    refine ⟨ts, hs, fun u hu => hdrop u ?_, fun u hu => ?_, ?_⟩
    · simp only [Option.toList_some, List.singleton_append, List.mem_cons] at hu ⊢
      tauto
    · cases hu
      simp
    · rw [Option.toList_some, List.singleton_append, commentTexts_cons_of_other (by simp [ht])]
      rfl
  | case5 s t ht htext hattr =>
    have hdropped := hdrop t (by simp)
    simp_all [GrammarSettings.drops, Token.isName]
  | case6 s t ht htext hattr count hcount _ _ ih =>
    have hdropped := hdrop t (by simp)
    simp_all [GrammarSettings.drops, Token.isName]
  | case7 s t ht htext hattr hnone =>
    rw [seek_name ht htext hattr hnone]
    refine ⟨ts, hs, hdrop, fun u hu => ?_, ?_⟩
    · cases hu
      simp [ht]
    · rw [Option.toList_some, List.singleton_append, commentTexts_cons_of_other (by simp [ht])]
      rfl
  | case8 s t hc hd hn =>
    rw [seek_other hc hd hn]
    refine ⟨ts, hs, hdrop, fun u hu => ?_, ?_⟩
    · cases hu
      exact hc
    · rw [Option.toList_some, List.singleton_append, commentTexts_cons_of_other hc]
      rfl

/-- The comments of `all` have been taken in or are still to come, and nothing is dropped. -/
structure Hears (env : ScanEnv) (all taken : List String) (s : Scanner (List Token)) : Prop where
  texts : taken ++ commentTexts s.stream.feed = all
  undropped : Undropped env (s.current.toList ++ s.stream.held.toList ++ s.stream.feed)
  grammar : ∀ u ∈ s.current.toList ++ s.stream.held.toList, u.cls ≠ .comment

theorem hears_traced (all : List String) :
    Traced env fun h s => Hears env all ((h.flatMap (·.intakes env)).map Intake.text) s where
  edit {hs s} h e := by
    have hfeed : (s.edit env e).stream = s.stream := stream_edit env s e
    have hcur : (s.edit env e).current = s.current := current_edit env s e
    exact ⟨by rw [hfeed]; exact h.texts, by rw [hfeed, hcur]; exact h.undropped,
      by rw [hfeed, hcur]; exact h.grammar⟩
  dropLine h _ := ⟨h.texts, h.undropped, h.grammar⟩
  advance {hs s} h := by
    obtain ⟨ts, hnext, hall, -⟩ := s.stream.next_list_held
    obtain ⟨ts', h1, h2, h3, h4⟩ := texts_seekIntakes s.stream.next.1
      { s with stream := s.stream.next.2 } ts hnext (by
        rw [hall]
        exact h.undropped.subset (by simp))
    have hstream : (s.advance env).stream = ⟨ts', none⟩ := h1
    have hcur : (s.advance env).current = (seek env s.stream.next.1
      { s with stream := s.stream.next.2 }).1 := rfl
    -- A token put back is no comment.
    have hheld : commentTexts s.stream.held.toList = [] := by
      rw [commentTexts, List.map_eq_nil_iff, List.filter_eq_nil_iff]
      exact fun u hu => by simp [h.grammar u (List.mem_append_right _ hu)]
    refine ⟨?_, ?_, ?_⟩
    · rw [hstream, List.flatMap_append, List.map_append, List.flatMap_singleton, List.append_assoc]
      rw [hall, commentTexts_append, hheld, List.nil_append] at h4
      exact (congrArg _ h4).trans h.texts
    · rw [hstream, hcur, Option.toList_none, List.append_nil]
      exact h2
    · rw [hstream, hcur, Option.toList_none, List.append_nil]
      exact fun u hu => h3 u (Option.mem_toList.mp hu)
  unread {h₀ s₀ hs s t} hs₀ hcur _ h := by
    have hheld : (s.unread t).stream.held.toList ⊆ s.current.toList ++ s.stream.held.toList := by
      rw [held_unread]
      cases s.current <;> simp
    have hfeed := feed_unread t s
    have hcurrent : (s.unread t).current = some t := rfl
    refine ⟨by rw [hfeed]; exact h.texts, fun u hu => ?_, fun u hu => ?_⟩
    · rw [hfeed, hcurrent] at hu
      simp only [Option.toList_some, List.cons_append, List.nil_append, List.mem_cons,
        List.mem_append] at hu
      rcases hu with rfl | rfl | hu | hu
      · exact h.undropped _ List.mem_cons_self
      · exact hs₀.undropped _ (by simp [hcur])
      · exact h.undropped u (List.mem_cons_of_mem _ (List.mem_append_left _ (hheld hu)))
      · exact h.undropped u (List.mem_cons_of_mem _ (List.mem_append_right _ hu))
    · rw [hcurrent, Option.toList_some, List.singleton_append, List.mem_cons] at hu
      rcases hu with rfl | hu
      · exact hs₀.grammar _ (by simp [hcur])
      · exact h.grammar u (hheld hu)

/-- Where nothing is dropped, the comments that a scan takes in are those of its tokens, from
the first one on. -/
theorem texts_allIntakes {ts : List Token} (h : Undropped env ts) :
    (allIntakes env ts).map Intake.text <+: commentTexts ts := by
  have hstart : Hears env (commentTexts ts) [] (start env ts) := ⟨rfl, h, nofun⟩
  exact ⟨_, ((hears_traced (commentTexts ts)).scan ts hstart).texts⟩

end Scanner

/-! ## The whole scan -/

/-- A scan that begins with a disabling comment stays quiet. The switch is set by that comment,
before anything can be noted. -/
theorem exists_muffled_run (env : ScanEnv) {t : Token} {ts : List Token} (ht : t.cls = .comment)
    (hoff : containsText env.settings.grammar.errorsOffMarker t.text = true)
    (hon : containsText env.settings.grammar.errorsOnMarker
      (String.join ((allIntakes env (t :: ts)).map Intake.text)) = false) :
    ∃ s, Scanner.run env (t :: ts) = .ok () s ∧ s.Muffled := by
  have hfirst : (start env (t :: ts)).intakes env = _ := seekIntakes_comment ht
  have hall : ∀ y ∈ allIntakes env (t :: ts), y.errorsOff = true := by
    refine (successive_intakes env (t :: ts)).all_errorsOff (fun y hy => ?_) hon
    have hhead : (allIntakes env (t :: ts)).head?
        = ((start env (t :: ts)).intakes env).head?.or _ := List.head?_append
    rw [hhead, hfirst] at hy
    cases hy
    exact hoff
  have hintakes : ∀ y ∈ (start env (t :: ts)).intakes env, y.errorsOff = true :=
    fun y hy => hall y (List.mem_flatMap.mpr ⟨_, List.mem_cons_self, hy⟩)
  rw [hfirst] at hintakes
  have hseek : (seek env (some t) { start env (t :: ts) with stream := ⟨ts, none⟩ }).2.Muffled := by
    rw [seek_comment ht]
    exact Muffled.seek _ ⟨hintakes _ List.mem_cons_self, List.forall_mem_nil _⟩
      fun y hy => hintakes y (List.mem_cons_of_mem _ hy)
  have hstart : ((start env (t :: ts)).advance env).Muffled := ⟨hseek.errorsOff, hseek.quiet⟩
  exact hstart.run hall

/-- The file has been catalogued, and nothing that was noted is shown. -/
def Outcome.Quiet (r : Outcome Catalog) : Prop :=
  (∃ C, r.result = .ok C) ∧ (∀ n ∈ r.journal, n.quiet = true) ∧ r.journal.visible = []

/-- **A scan that begins with a disabling comment does not fail**, and nothing that it notes is
shown, if the comments that it takes in do not contain the enabling marker, joined in order.
Where nothing is dropped, it is enough that the comments of the list do not. -/
theorem quiet_of_disabled {o : ScanOptions} {file : String} {t : Token} {ts : List Token}
    (ht : t.cls = .comment)
    (hoff : containsText o.settings.grammar.errorsOffMarker t.text = true) :
    (containsText o.settings.grammar.errorsOnMarker
        (String.join ((allIntakes (o.env file) (t :: ts)).map Intake.text)) = false →
      (Catalog.ofFeed o file (t :: ts)).Quiet)
    ∧ (Undropped (o.env file) (t :: ts) →
      containsText o.settings.grammar.errorsOnMarker (String.join (commentTexts (t :: ts))) = false →
      (Catalog.ofFeed o file (t :: ts)).Quiet) := by
  have hquiet : containsText o.settings.grammar.errorsOnMarker
        (String.join ((allIntakes (o.env file) (t :: ts)).map Intake.text)) = false →
      (Catalog.ofFeed o file (t :: ts)).Quiet := by
    intro hon
    obtain ⟨s, hrun, hs⟩ := exists_muffled_run (o.env file) ht hoff hon
    unfold Catalog.ofFeed
    rw [hrun]
    refine ⟨⟨_, rfl⟩, hs.quiet, ?_⟩
    exact List.filter_eq_nil_iff.mpr fun n hn => by simp [hs.quiet n hn]
  refine ⟨hquiet, fun hdrop hon => hquiet ?_⟩
  rw [Bool.eq_false_iff] at hon ⊢
  exact fun htaken => hon (containsText_join_mono (texts_allIntakes hdrop).isInfix htaken)

/-- A struct and a typedef that are broken off, after a disabling comment. -/
def brokenRegion : List Token :=
  [⟨.comment, " DOC_DISABLE "⟩, ⟨.separator, "\x7d"⟩, ⟨.name, "struct"⟩, ⟨.separator, "\x7b"⟩,
    ⟨.separator, ","⟩, ⟨.name, "typedef"⟩, ⟨.comment, " not yet "⟩, ⟨.separator, "]"⟩]

theorem quiet_of_brokenRegion : (Catalog.ofFeed {} "a.h" brokenRegion).Quiet :=
  (quiet_of_disabled rfl (by decide +kernel)).2 (by decide +kernel) (by decide +kernel)

/-- A comment is skipped inside an attribute. Those before and after it join to the enabling
marker. -/
def skippedComment : List Token :=
  [⟨.comment, "DOC_DISABLE DOC_EN"⟩, ⟨.name, "int"⟩, ⟨.name, "f"⟩, ⟨.separator, "("⟩,
    ⟨.separator, ")"⟩, ⟨.name, "__attribute__"⟩, ⟨.comment, "x"⟩, ⟨.separator, ";"⟩,
    ⟨.comment, "ABLE"⟩, ⟨.separator, "\x7d"⟩]

/-- The comments of the list do not contain the marker, joined in order. But the scan fails. -/
theorem result_of_skippedComment :
    containsText "DOC_DISABLE" "DOC_DISABLE DOC_EN" = true
      ∧ containsText "DOC_ENABLE" (String.join (commentTexts skippedComment)) = false
      ∧ (Catalog.ofFeed {} "a.h" skippedComment).result.toOption = none := by
  decide +kernel

end HeaderAtlas
