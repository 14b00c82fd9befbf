import HeaderAtlas.Proofs.ErrorRegions
import HeaderAtlas.Proofs.Lexer.Listing
import HeaderAtlas.Proofs.Scanner.Kindred

/-!
# Scanning a text and scanning its tokens

A lexer and the list of its tokens differ in two ways: the list has no lines, and it does not
drop what is left of one. Lines are only written down, and a line is dropped only where errors
are off. So a scan of a text in which errors are never switched off and a scan of the list of
its tokens come to the same, but for lines (`unlined_ofFeed_tokens`). What is known of the
grammar from lists of tokens holds of texts.

The comments that switch errors off have to be those that the scan takes in. A comment inside
an attribute is not one of them, and without it the comments around it may join to a marker
that the text does not have: then the two scans part (`unlined_of_mendedMarker`).
-/

namespace HeaderAtlas

open Text Reader
open Catalog (Finding)

variable {σ τ : Type} [Feed σ] [LawfulFeed σ] [Feed τ] [LawfulFeed τ]

/-! ## Errors on -/

/-- If no pending comment contains the disabling marker, errors stay on. -/
theorem Intake.Successive.all_errorsOn {g : GrammarSettings} {ys : List Intake}
    (h : Successive g ys)
    (hoff : ∀ y ∈ ys, containsText g.errorsOffMarker y.pending = false) :
    ∀ y ∈ ys, y.errorsOff = false := by
  induction ys using List.reverseRecOn with
  | nil => exact List.forall_mem_nil _
  | append_singleton ys x ih =>
    obtain ⟨hinit, hx⟩ := List.forall_mem_append.mp hoff
    have hys := ih h.init hinit
    refine List.forall_mem_append.mpr ⟨hys, List.forall_mem_singleton.mpr ?_⟩
    have hbefore : ys.getLast?.any Intake.errorsOff = false := by
      rw [Option.any_eq_false]
      exact fun y hy => by simp [hys y (List.mem_of_getLast? hy)]
    rw [h.last.errorsOff, hbefore, List.forall_mem_singleton.mp hx]
    rfl

/-- Two scans in which errors are never off, on lines that have nothing to do with each
other. -/
def Kinship.sources (env : ScanEnv) : Kinship where
  env := env
  collects := env.collectUsages
  Switch := (· = false)
  Line _ _ := True
  Whole _ := False

open Scanner

theorem Notice.blind_unlined : Notice.Blind Notice.unlined := by
  rintro ⟨topic, message, place, quiet⟩
  cases place <;> rfl

/-- Streams that list the same tokens give the same tokens. -/
theorem TokenStream.bisim_listed [FusedFeed σ] [FusedFeed τ] :
    Bisim fun (a : TokenStream σ) (b : TokenStream τ) => a.listed = b.listed :=
  next_eq

/-- The scans have the same tokens before them, and have written down the same but for lines.
Errors are on. -/
structure SameTokens (s : Scanner σ) (t : Scanner τ) : Prop where
  kindred : s.Kindred Notice.unlined t
  stream : s.stream.listed = t.stream.listed
  errorsOn : t.errorsOff = false

/-- Scans that are the same but for lines stay so, as long as no comment switches errors off:
nothing fails in one of them only, and no line is dropped. -/
theorem parallel_sources [FusedFeed σ] [FusedFeed τ] (env : ScanEnv) :
    Parallel (.sources env) (fun t : Scanner τ => ∀ y ∈ t.intakes env, y.errorsOff = false)
      (SameTokens (σ := σ)) where
  view {s t} h := h.kindred.view
  switch h := h.errorsOn
  line _ := trivial
  position h := h.kindred.position
  edit {s t e e'} h he := by
    refine ⟨h.kindred.edit Notice.blind_unlined (fun _ _ hoff => by cases hoff) he, ?_, ?_⟩
    · rw [stream_edit, stream_edit]
      exact h.stream
    · rw [errorsOff_edit]
      exact h.errorsOn
  dropLine _ h hoff := by
    rw [h.errorsOn] at hoff
    cases hoff
  advance h hon := by
    obtain ⟨hkindred, hstream⟩ :=
      h.kindred.advance Notice.blind_unlined TokenStream.bisim_listed h.stream
    exact ⟨hkindred, hstream, errorsOff_seek _ _ h.errorsOn hon⟩
  unread {s₀ t₀ s t c} _ _ _ h := by
    refine ⟨h.kindred.unread c, ?_, h.errorsOn⟩
    rw [TokenStream.listed, TokenStream.listed, feed_unread, feed_unread, held_unread, held_unread,
      h.kindred.current]
    exact congrArg (fun st : TokenStream (List Token) =>
      (⟨st.feed, t.current.or st.held⟩ : TokenStream (List Token))) h.stream
  whole h := h.elim

/-! ## The whole scan -/

/-- A feed and the list of its tokens come to the same, but for lines, as long as no comment
switches errors off. -/
theorem unlined_ofFeed_of_errorsOn [FusedFeed σ] (o : ScanOptions) (file : String) (feed : σ)
    (hon : ∀ y ∈ allIntakes (o.env file) (Feed.tokens feed), y.errorsOff = false) :
    (Catalog.ofFeed o file feed).unlined
      = (Catalog.ofFeed o file (Feed.tokens feed)).unlined := by
  have hbody : Impartial (.sources (o.env file)) readBody := impartial_readBody rfl
  have hfile : Twin (.sources (o.env file)) Eq readFile readFile := Impartial.twin
  have hstart : SameTokens (start (o.env file) feed) (start (o.env file) (Feed.tokens feed)) :=
    ⟨.start .., congrArg (TokenStream.mk · none) (Feed.tokens_list _).symm, rfl⟩
  have htally : Tally (.sources (o.env file)) SameTokens Eq (Scanner.run (o.env file) feed)
      (Scanner.run (o.env file) (Feed.tokens feed)) :=
    (parallel_sources (o.env file)).reader (fun r => Impartial.twin) hfile hstart
      fun u hu y hy => hon y (List.mem_flatMap.mpr ⟨u, hu, hy⟩)
  unfold Catalog.ofFeed
  generalize Scanner.run (o.env file) feed = r at htally ⊢
  generalize Scanner.run (o.env file) (Feed.tokens feed) = r' at htally ⊢
  cases htally with
  | ok _ hR =>
    simp only [Outcome.unlined, Except.map, Except.mapError, hR.kindred.catalog,
      hR.kindred.journal]
  | failed _ he hR =>
    simp only [Outcome.unlined, Except.map, Except.mapError, he.unlined, hR.kindred.journal]

/-- **A text and the list of its tokens come to the same, but for lines**: the same catalogue
or the same failure, and the same notices. This holds as long as no pending comment contains
the disabling marker. Where nothing is dropped, it is enough that the marker is not in the
comments of the text, joined in order. -/
theorem unlined_ofFeed_tokens (o : ScanOptions) (file : String) (lx : Lexer) :
    ((∀ y ∈ allIntakes (o.env file) (Feed.tokens lx),
        containsText o.settings.grammar.errorsOffMarker y.pending = false) →
      (Catalog.ofFeed o file lx).unlined = (Catalog.ofFeed o file (Feed.tokens lx)).unlined)
    ∧ (Undropped (o.env file) (Feed.tokens lx) →
      containsText o.settings.grammar.errorsOffMarker
        (String.join (commentTexts (Feed.tokens lx))) = false →
      (Catalog.ofFeed o file lx).unlined = (Catalog.ofFeed o file (Feed.tokens lx)).unlined) := by
  have hsuccessive := successive_intakes (o.env file) (Feed.tokens lx)
  have hpending : (∀ y ∈ allIntakes (o.env file) (Feed.tokens lx),
        containsText o.settings.grammar.errorsOffMarker y.pending = false) →
      (Catalog.ofFeed o file lx).unlined = (Catalog.ofFeed o file (Feed.tokens lx)).unlined :=
    fun hoff => unlined_ofFeed_of_errorsOn o file lx (hsuccessive.all_errorsOn hoff)
  refine ⟨hpending, fun hdrop hoff => hpending fun y hy => hsuccessive.pending_unmarked hy ?_⟩
  rw [Bool.eq_false_iff] at hoff ⊢
  exact fun htaken => hoff (containsText_join_mono (texts_allIntakes hdrop).isInfix htaken)

/-- A function, a macro and a variable, on lines of their own, with comments. -/
def commentedText : String := "/* twice */\nint f(int n); // n\n#define A 1\n\nint x;\n"

theorem unlined_of_commentedText :
    containsText "DOC_DISABLE"
        (String.join (commentTexts (Feed.tokens (Lexer.ofText commentedText)))) = false
      ∧ (Catalog.ofText {} "a.h" commentedText).result.toOption.map
        (·.entries.map fun e => (e.name, e.line)) = some [("f", 2), ("x", 5), ("A", 5)]
      ∧ (Catalog.ofText {} "a.h" commentedText).unlined
        = (Catalog.ofFeed {} "a.h" (Feed.tokens (Lexer.ofText commentedText))).unlined :=
  ⟨by decide +kernel, by decide +kernel,
    (unlined_ofFeed_tokens {} "a.h" (Lexer.ofText commentedText)).2 (by decide +kernel)
      (by decide +kernel)⟩

/-- A comment is skipped inside an attribute. Those before and after it join to the disabling
marker, ahead of a line that is malformed. -/
def mendedMarker : String :=
  "/*DOC_DIS*/\nint f() __attribute__((a)) /*x*/;\n/*ABLE*/\n\x7d int a; int b;\nint c;\n"

/-- The marker is not in the comments of the text, joined in order. But a scan of the text drops
the rest of the malformed line, and a scan of its tokens goes on with it. -/
theorem unlined_of_mendedMarker :
    commentTexts (Feed.tokens (Lexer.ofText mendedMarker)) = ["DOC_DIS", "x", "ABLE"]
      ∧ containsText "DOC_DISABLE"
        (String.join (commentTexts (Feed.tokens (Lexer.ofText mendedMarker)))) = false
      ∧ (Catalog.ofText {} "a.h" mendedMarker).unlined.result.toOption.map
        (·.entries.map (·.name)) = some ["f", "c"]
      ∧ (Catalog.ofFeed {} "a.h"
          (Feed.tokens (Lexer.ofText mendedMarker))).unlined.result.toOption.map
        (·.entries.map (·.name)) = some ["f", "a", "b", "c"] := by
  decide +kernel

end HeaderAtlas
