import Mathlib.Data.List.Infix
import HeaderAtlas.Proofs.Scanner.Intakes

/-!
# Where errors are switched off

A comment with the disabling marker should switch errors off, and one with the enabling
marker should switch them on again, so that the last comment with a marker tells how things
stand. But the markers are looked for in the pending comment as a whole. A disabling comment
that is added to a pending comment with the enabling marker has no effect
(`errorsOff_of_reopenedRegion`), and with this exception the last marker does tell
(`errorsOff_eq_lastMarked`), whatever has been declared in between.

What makes this work is that the pending comment is a run of the comments taken in last
(`Intake.Together`). A marker in it is a marker in one of them, provided that none comes
about by joining comments, and the last marker overall is then one of the same run.
-/

namespace HeaderAtlas

open Text

/-! ## Looking for a marker -/

/-- What a run of texts has when they are joined, they all have. -/
theorem Text.containsText_join_mono {needle : String} {run texts : List String}
    (h : run <:+: texts) (hrun : containsText needle (String.join run) = true) :
    containsText needle (String.join texts) = true := by
  obtain ⟨before, after, rfl⟩ := h
  rw [containsText_iff] at hrun ⊢
  refine hrun.trans ⟨(String.join before).toList, (String.join after).toList, ?_⟩
  simp [String.toList_append]

theorem Text.containsText_join {needle : String} {texts : List String} {t : String} (h : t ∈ texts)
    (ht : containsText needle t = true) : containsText needle (String.join texts) = true := by
  obtain ⟨before, after, rfl⟩ := List.append_of_mem h
  have hjoin : containsText needle (String.join [t]) = true := by simpa using ht
  exact containsText_join_mono ⟨before, after, by simp⟩ hjoin

/-- A marker that a run of texts has when they are joined is a marker of one of them. -/
def Unspliced (marker : String) (texts : List String) : Prop :=
  ∀ run, run <:+: texts → run ≠ [] → containsText marker (String.join run) = true →
    ∃ t ∈ run, containsText marker t = true

theorem Unspliced.init {marker : String} {xs ys : List String} (h : Unspliced marker (xs ++ ys)) :
    Unspliced marker xs :=
  fun run hrun => h run (hrun.trans (List.prefix_append xs ys).isInfix)

instance (marker : String) (texts : List String) : Decidable (Unspliced marker texts) :=
  decidable_of_iff (∀ tail ∈ texts.tails, ∀ run ∈ tail.inits, run ≠ [] →
      containsText marker (String.join run) = true → ∃ t ∈ run, containsText marker t = true) <| by
    simp only [List.mem_tails, List.mem_inits, Unspliced]
    constructor
    · rintro h run ⟨before, after, hrun⟩
      exact h (run ++ after) ⟨before, by simp [← hrun]⟩ run (List.prefix_append run after)
    · intro h tail htail run hrun
      exact h run (hrun.isInfix.trans htail.isInfix)

namespace Intake

/-! ## The comments that are pending together -/

/-- Each of the comments was taken in with those before it pending. -/
def Together (run : List Intake) : Prop :=
  ∀ before y after, run = before ++ y :: after →
    y.pending = String.join ((before ++ [y]).map text)

variable {g : GrammarSettings} {ys : List Intake} {y : Intake}

theorem together_singleton (h : y.pending = y.text) : Together [y] := by
  intro before x after heq
  obtain ⟨rfl, hx⟩ := List.append_eq_singleton_iff.mp heq.symm |>.resolve_right (by simp)
  obtain ⟨rfl, -⟩ := List.cons.inj hx
  simpa using h

theorem Together.concat {run : List Intake} {x : Intake} (h : Together (run ++ [x]))
    (hy : y.pending = x.pending ++ y.text) : Together (run ++ [x] ++ [y]) := by
  intro before z after heq
  rcases List.eq_nil_or_concat after with rfl | ⟨mid, w, rfl⟩
  · obtain ⟨rfl, hz⟩ := List.append_inj' heq rfl
    cases hz
    have hx := h run x [] rfl
    rw [hy, hx]
    simp [String.append_assoc]
  · have hsplit : run ++ [x] ++ [y] = (before ++ z :: mid) ++ [w] := by simpa using heq
    exact h before z mid (List.append_inj' hsplit rfl).1

/-- The last comment is pending with a run of those before it. -/
theorem Successive.exists_together (h : Successive g (ys ++ [y])) :
    ∃ run, run <:+ ys ∧ Together (run ++ [y]) := by
  induction ys using List.reverseRecOn generalizing y with
  | nil =>
    refine ⟨[], List.nil_suffix, together_singleton ?_⟩
    rcases h.last.pending with hy | ⟨p, hp, -⟩
    · exact hy
    · cases hp
  | append_singleton ys x ih =>
    rcases h.last.pending with hy | ⟨p, hp, hy⟩
    · exact ⟨[], List.nil_suffix, together_singleton hy⟩
    · rw [List.getLast?_concat, Option.some.injEq] at hp
      subst hp
      obtain ⟨run, ⟨early, hrun⟩, htogether⟩ := ih h.init
      exact ⟨run ++ [x], ⟨early, by simp [← hrun]⟩, htogether.concat hy⟩

/-! ## The last marker -/

/-- Does the comment contain a marker? -/
def marked (g : GrammarSettings) (y : Intake) : Bool :=
  containsText g.errorsOffMarker y.text || containsText g.errorsOnMarker y.text

/-- The last comment with a marker. -/
def lastMarked (g : GrammarSettings) (ys : List Intake) : Option Intake :=
  ys.reverse.find? (marked g)

/-- Does the comment disable errors? It must not have been added to an enabling one. -/
def disables (g : GrammarSettings) (y : Intake) : Bool :=
  containsText g.errorsOffMarker y.text && !containsText g.errorsOnMarker y.pending

theorem lastMarked_concat (g : GrammarSettings) (ys : List Intake) (y : Intake) :
    lastMarked g (ys ++ [y]) = if marked g y then some y else lastMarked g ys := by
  simp only [lastMarked, List.reverse_append, List.reverse_singleton, List.singleton_append,
    List.find?_cons]
  cases marked g y <;> rfl

/-- If a run at the end has a marker, the last one is in it, and no marker comes after. -/
theorem exists_lastMarked {run : List Intake} {x : Intake} (hrun : run <:+ ys) (hx : x ∈ run)
    (hmarked : marked g x = true) :
    ∃ before y after, run = before ++ y :: after ∧ lastMarked g ys = some y
      ∧ ∀ z ∈ after, marked g z = false := by
  obtain ⟨early, rfl⟩ := hrun
  have hsome : (run.reverse.find? (marked g)).isSome = true :=
    List.find?_isSome.mpr ⟨x, List.mem_reverse.mpr hx, hmarked⟩
  obtain ⟨y, hy⟩ := Option.isSome_iff_exists.mp hsome
  obtain ⟨-, late, rest, hsplit, hlate⟩ := List.find?_eq_some_iff_append.mp hy
  refine ⟨rest.reverse, y, late.reverse, ?_, ?_, fun z hz => ?_⟩
  · simpa using congrArg List.reverse hsplit
  · rw [lastMarked, List.reverse_append, List.find?_append, hy]
    rfl
  · simpa using hlate z (List.mem_reverse.mp hz)

namespace Together

variable {run : List Intake} {marker : String}

/-- What is in the text of a comment is pending with it. -/
theorem pending_of_text (h : Together run) (hy : y ∈ run)
    (hmarker : containsText marker y.text = true) : containsText marker y.pending = true := by
  obtain ⟨before, after, rfl⟩ := List.append_of_mem hy
  rw [h before y after rfl]
  exact containsText_join (by simp) hmarker

/-- What was pending with an earlier comment is still pending. -/
theorem pending_mono {x : Intake} (h : Together (run ++ [x])) (hy : y ∈ run)
    (hmarker : containsText marker y.pending = true) : containsText marker x.pending = true := by
  obtain ⟨before, after, rfl⟩ := List.append_of_mem hy
  rw [h before y (after ++ [x]) (by simp)] at hmarker
  rw [h (before ++ y :: after) x [] rfl]
  exact containsText_join_mono ⟨[], (after ++ [x]).map text, by simp⟩ hmarker

/-- A marker that is pending is a marker of one of the comments. -/
theorem exists_text (h : Together (run ++ [y])) (hrun : run <:+ ys)
    (hu : Unspliced marker ((ys ++ [y]).map text)) (hy : containsText marker y.pending = true) :
    ∃ x ∈ run ++ [y], containsText marker x.text = true := by
  obtain ⟨early, rfl⟩ := hrun
  rw [h run y [] rfl] at hy
  obtain ⟨t, ht, hmarker⟩ := hu _ ⟨early.map text, [], by simp⟩ (by simp) hy
  obtain ⟨x, hx, rfl⟩ := List.mem_map.mp ht
  exact ⟨x, hx, hmarker⟩

/-- A marker that is pending with a comment without one was pending with the last comment
that has one. -/
theorem exists_lastMarked {x : Intake} (h : Together (run ++ [x])) (hrun : run <:+ ys)
    (hu : Unspliced marker ((ys ++ [x]).map text))
    (hmarks : ∀ z : Intake, containsText marker z.text = true → marked g z = true)
    (hx : ¬ marked g x = true) (hmarker : containsText marker x.pending = true) :
    ∃ y ∈ run, lastMarked g ys = some y ∧ containsText marker y.pending = true := by
  obtain ⟨z, hz, hztext⟩ := h.exists_text hrun hu hmarker
  have hzrun : z ∈ run := by
    rcases List.mem_append.mp hz with hz | hz
    · exact hz
    · rw [List.mem_singleton.mp hz] at hztext
      exact absurd (hmarks x hztext) hx
  obtain ⟨before, y, after, rfl, hlast, hafter⟩ :=
    Intake.exists_lastMarked hrun hzrun (hmarks z hztext)
  -- That comment is not one of those after the last marker.
  have hzy : z ∈ before ++ [y] := by
    rcases List.mem_append.mp hzrun with hz | hz
    · exact List.mem_append_left _ hz
    · rcases List.mem_cons.mp hz with rfl | hz
      · simp
      · exact absurd (hmarks z hztext) (by simp [hafter z hz])
  refine ⟨y, by simp, hlast, ?_⟩
  rw [h before y (after ++ [x]) (by simp)]
  exact containsText_join (List.mem_map_of_mem hzy) hztext

end Together

/-- **The last comment with a marker tells whether errors are off.** -/
theorem Successive.errorsOff_eq (h : Successive g ys)
    (hoff : Unspliced g.errorsOffMarker (ys.map text))
    (hon : Unspliced g.errorsOnMarker (ys.map text)) :
    ys.getLast?.any errorsOff = (lastMarked g ys).any (disables g) := by
  induction ys using List.reverseRecOn with
  | nil => rfl
  | append_singleton ys x ih =>
    have hprev := ih h.init (by rw [List.map_append] at hoff; exact hoff.init)
      (by rw [List.map_append] at hon; exact hon.init)
    obtain ⟨run, hrun, htogether⟩ := h.exists_together
    rw [List.getLast?_concat, Option.any_some, h.last.errorsOff, hprev, lastMarked_concat]
    by_cases hx : marked g x = true
    · -- A comment with a marker settles the matter by itself.
      rw [if_pos hx, Option.any_some, disables]
      rcases (Bool.or_eq_true ..).mp hx with hmarker | hmarker
      · rw [htogether.pending_of_text (by simp) hmarker, hmarker, Bool.or_true]
      · rw [htogether.pending_of_text (by simp) hmarker, Bool.not_true, Bool.and_false,
          Bool.and_false]
    · rw [if_neg hx]
      cases hpon : containsText g.errorsOnMarker x.pending with
      | true =>
        obtain ⟨y, -, hlast, hy⟩ := htogether.exists_lastMarked hrun hon
          (fun z hz => by rw [marked, hz, Bool.or_true]) hx hpon
        simp [hlast, disables, hy]
      | false =>
        cases hpoff : containsText g.errorsOffMarker x.pending with
        | false => simp
        | true =>
          obtain ⟨y, hyrun, hlast, -⟩ := htogether.exists_lastMarked hrun hoff
            (fun z hz => by rw [marked, hz, Bool.true_or]) hx hpoff
          -- Had the enabling marker been pending with `y`, it would be pending now.
          have hyon : containsText g.errorsOnMarker y.pending = false :=
            Bool.eq_false_iff.mpr fun hy => by simp [htogether.pending_mono hyrun hy] at hpon
          have hymarked : marked g y = true := List.find?_some hlast
          have hyoff : containsText g.errorsOffMarker y.text = true := by
            rcases (Bool.or_eq_true ..).mp hymarked with hmarker | hmarker
            · exact hmarker
            · have hy := htogether.pending_of_text (List.mem_append_left _ hyrun) hmarker
              rw [hyon] at hy
              cases hy
          simp [hlast, disables, hyon, hyoff]

end Intake

/-! ## The whole scan -/

open Intake Scanner

/-- **Errors are off if and only if the last comment with a marker disables them.** This is
so after each comment that a scan takes in, whatever it has read in between, if no marker
comes about by joining comments. A disabling comment that was added to a pending comment with
the enabling marker does not count as one; where there is none such, the last marker decides. -/
theorem errorsOff_eq_lastMarked {σ : Type} [Feed σ] [LawfulFeed σ] (env : ScanEnv) (feed : σ)
    (hoff : Unspliced env.settings.grammar.errorsOffMarker ((allIntakes env feed).map text))
    (hon : Unspliced env.settings.grammar.errorsOnMarker ((allIntakes env feed).map text))
    {before after : List Intake} {x : Intake} (h : allIntakes env feed = before ++ x :: after) :
    x.errorsOff = (lastMarked env.settings.grammar (before ++ [x])).any
        (disables env.settings.grammar)
      ∧ ((∀ y ∈ before ++ [x], containsText env.settings.grammar.errorsOffMarker y.text = true →
          containsText env.settings.grammar.errorsOnMarker y.pending = false) →
        x.errorsOff = (lastMarked env.settings.grammar (before ++ [x])).any
          fun y => containsText env.settings.grammar.errorsOffMarker y.text) := by
  have hsplit : allIntakes env feed = (before ++ [x]) ++ after := by simp [h]
  rw [hsplit, List.map_append] at hoff hon
  have hsuccessive := successive_intakes env feed
  rw [hsplit] at hsuccessive
  have hlast := hsuccessive.init.errorsOff_eq hoff.init hon.init
  rw [List.getLast?_concat, Option.any_some] at hlast
  refine ⟨hlast, fun hclear => hlast.trans ?_⟩
  cases hm : lastMarked env.settings.grammar (before ++ [x]) with
  | none => rfl
  | some y =>
    have hy : y ∈ before ++ [x] := List.mem_reverse.mp (List.mem_of_find?_eq_some hm)
    rw [Option.any_some, Option.any_some, disables]
    cases hyoff : containsText env.settings.grammar.errorsOffMarker y.text with
    | false => rfl
    | true => rw [hclear y hy hyoff]; rfl

/-- Two regions without errors, with declarations inside and between them. -/
def twoRegions : List Token :=
  [⟨.comment, " DOC_DISABLE "⟩, ⟨.separator, "\x7d"⟩, ⟨.name, "int"⟩, ⟨.name, "x"⟩,
    ⟨.separator, ";"⟩, ⟨.comment, " DOC_ENABLE "⟩, ⟨.name, "int"⟩, ⟨.name, "y"⟩, ⟨.separator, ";"⟩,
    ⟨.comment, " DOC_DISABLE "⟩, ⟨.separator, "\x7d"⟩, ⟨.comment, " again "⟩]

/-- After the last of its comments, the one before it decides. -/
theorem errorsOff_of_twoRegions :
    (allIntakes (ScanOptions.env {} "a.h") twoRegions).map Intake.errorsOff
        = [true, false, true, true]
      ∧ (lastMarked (ScanOptions.env {} "a.h").settings.grammar
          (allIntakes (ScanOptions.env {} "a.h") twoRegions)).any
          fun y => containsText "DOC_DISABLE" y.text := by
  have hall : allIntakes (ScanOptions.env {} "a.h") twoRegions =
      [⟨" DOC_DISABLE ", " DOC_DISABLE ", true⟩, ⟨" DOC_ENABLE ", " DOC_ENABLE ", false⟩,
        ⟨" DOC_DISABLE ", " DOC_DISABLE ", true⟩]
      ++ ⟨" again ", " DOC_DISABLE  again ", true⟩ :: [] := by decide +kernel
  have hlast := errorsOff_eq_lastMarked (ScanOptions.env {} "a.h") twoRegions
    (by rw [hall]; decide +kernel) (by rw [hall]; decide +kernel) hall
  refine ⟨by rw [hall]; rfl, ?_⟩
  rw [hall]
  exact (hlast.2 (by decide +kernel)).symm

/-- Errors are switched on and off again, with nothing declared in between. -/
def reopenedRegion : List Token :=
  [⟨.comment, " DOC_ENABLE "⟩, ⟨.comment, " DOC_DISABLE "⟩, ⟨.separator, "\x7d"⟩]

/-- No comment has two markers, and none comes about by joining comments. But the last marker
is the disabling one, and errors are on. -/
theorem errorsOff_of_reopenedRegion :
    (allIntakes (ScanOptions.env {} "a.h") reopenedRegion).map text
        = [" DOC_ENABLE ", " DOC_DISABLE "]
      ∧ Unspliced "DOC_DISABLE" [" DOC_ENABLE ", " DOC_DISABLE "]
      ∧ Unspliced "DOC_ENABLE" [" DOC_ENABLE ", " DOC_DISABLE "]
      ∧ (allIntakes (ScanOptions.env {} "a.h") reopenedRegion).map Intake.errorsOff = [false, false]
      ∧ (lastMarked (ScanOptions.env {} "a.h").settings.grammar
          (allIntakes (ScanOptions.env {} "a.h") reopenedRegion)).map text = some " DOC_DISABLE "
      ∧ (Scanner.run (ScanOptions.env {} "a.h") reopenedRegion).value? = none := by
  decide +kernel

end HeaderAtlas
