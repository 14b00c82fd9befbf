import HeaderAtlas.Proofs.Reader.Comments
import HeaderAtlas.Proofs.Reader.Enumerations

/-!
# The comments on enumerators

The comment on an enumerator stands after its comma or, if there is one before the first name,
before its name. In the first case the reader has gone on to the next name by the time it knows of
it, so the enumerator is kept open until then. `describes` tells what is carried from one
enumerator to the next, and `described_of_enumeration` that none of them gets the comment
of its neighbour.
-/

namespace HeaderAtlas

open Ending Reader

namespace Cell

theorem map_token_bare (ts : List Token) : (ts.map bare).map token = ts := by
  rw [List.map_map]
  exact List.map_id ts

theorem allAsides_bare_append (ts : List Token) (d : Cell) :
    allAsides (ts.map bare ++ [d]) = d.asides := by
  rw [allAsides_append, allAsides_bare]
  exact List.append_nil _

end Cell

/-! ## What is written -/

/-- An enumerator that may have a comment. -/
structure NotedEnumerator where
  written : WrittenEnumerator
  comment : Option String
deriving DecidableEq

/-- The name and the description of an enumerator. -/
def Enumerator.note (e : Enumerator) : String × String := (e.name, e.description)

namespace NotedEnumerator

/-- What is left of the comment. -/
def description (m : NotedEnumerator) : String := (m.comment.map DocBlock.cleaned).getD ""

/-- The name, and the description that is told by the comment. -/
def note (m : NotedEnumerator) : String × String := (m.written.name, m.description)

/-- Can it be read? Its value must not end early. -/
def isLegal (g : GrammarSettings) (m : NotedEnumerator) : Bool :=
  m.written.isWhole && m.written.tokens.all g.passes

/-- The comma after an enumerator, given the ones after it. There may be a last one. -/
def comma (trailing : Bool) (ms : List NotedEnumerator) : List Token :=
  if ms.isEmpty && !trailing then [] else [.sep ","]

/-- The tokens of several enumerators, with the comments before their names or after their
commas. -/
def listed (leads trailing : Bool) : List NotedEnumerator → List Token
  | [] => []
  | m :: ms =>
    (if leads then Token.comments m.comment else []) ++ (m.written.tokens ++ (comma trailing ms
      ++ ((if leads then [] else Token.comments m.comment) ++ listed leads trailing ms)))

/-- The comment before the next token. One that is carried belongs to the enumerator before. -/
def firstComment (leads : Bool) (carried : Option String) : List NotedEnumerator → Option String
  | [] => carried
  | m :: _ => if leads then m.comment else carried

/-- The cells of several enumerators and of the closing brace. -/
def cells (leads trailing : Bool) : Option String → List NotedEnumerator → List Cell
  | carried, [] => [.commented carried (.sep "\x7d")]
  | carried, m :: ms =>
    .commented (if leads then m.comment else carried) (.word m.written.name)
      :: ((m.written.rest ++ comma trailing ms).map Cell.bare
        ++ cells leads trailing (if leads then none else m.comment) ms)

theorem exists_cells (leads trailing : Bool) (carried : Option String)
    (ms : List NotedEnumerator) :
    ∃ t fs, cells leads trailing carried ms
      = .commented (firstComment leads carried ms) t :: fs := by
  cases ms <;> exact ⟨_, _, rfl⟩

theorem isQuiet_cells (leads trailing : Bool) (carried : Option String)
    (ms : List NotedEnumerator) : (cells leads trailing carried ms).all Cell.isQuiet = true := by
  induction ms generalizing carried with
  | nil =>
    rw [cells, List.all_cons, Cell.isQuiet_commented]
    rfl
  | cons m ms ih =>
    rw [cells, List.all_cons, Cell.isQuiet_commented, List.all_append, Cell.isQuiet_bare, ih]
    rfl

end NotedEnumerator

/-! ## Reading a body -/

open NotedEnumerator

variable {σ : Type} {s s' : Scanner σ} {p : EnumProgress} {m : NotedEnumerator}
  {ms : List NotedEnumerator} {leads : Bool} {carried : Option String}

theorem Enumerator.note_describe (m : NotedEnumerator) (previous : Option Int) (line : Nat) :
    (((m.written.counted previous).enumerator line).describe m.comment).note = m.note := by
  have hname : ((m.written.counted previous).enumerator line).name = m.written.name :=
    WrittenEnumerator.name_counted previous m.written
  rw [note, describe, NotedEnumerator.note, NotedEnumerator.description, hname]
  refine congrArg (m.written.name, ·) ?_
  cases m.comment with
  | none => rfl
  | some text =>
    rw [Option.map_some, Option.filter_some, Option.getD_some]
    split
    · rfl
    · next h => exact (by simpa using h : DocBlock.cleaned text = "").symm

/-- The one that is open is described by its comment. -/
theorem EnumProgress.note_described (settled : List Enumerator) (m : NotedEnumerator)
    (previous next : Option Int) (line : Nat) :
    (described m.comment
        ⟨settled, some ((m.written.counted previous).enumerator line), next⟩).map Enumerator.note
      = settled.map Enumerator.note ++ [m.note] := by
  rw [described, List.map_append, Option.map_some, Option.toList_some, List.map_singleton,
    Enumerator.note_describe]

/-- What the reader has on its way to an enumerator. A comment is carried for the one before it,
unless comments lead. -/
structure EnumProgress.Carries (leads : Bool) (carried : Option String) (p : EnumProgress) :
    Prop where
  /-- The number before it has 64 bits. -/
  fits : Fits p.previous
  /-- Where comments lead, an enumerator is settled at its comma. -/
  lead : leads = true → p.open? = none
  /-- A comment is only carried for one that is open. -/
  carry : p.open? = none → carried = none

namespace EnumProgress.Carries

/-- The comment before a name does not describe the enumerator before it if comments lead. -/
theorem described (h : p.Carries leads carried) :
    p.described (if leads then m.comment else carried) = p.described carried := by
  cases leads with
  | false => rfl
  | true => rw [EnumProgress.described, EnumProgress.described, h.lead rfl]; rfl

/-- When it has been used up, the comment that is left belongs to the next enumerator. -/
theorem comment_settled (h : p.Carries leads carried)
    (hs : s.comment = if leads then m.comment else carried) :
    (s.settled p).comment = if leads then m.comment else none := by
  unfold Scanner.settled
  cases hopen : p.open? with
  | some e =>
    cases leads with
    | false => rfl
    | true => rw [h.lead rfl] at hopen; cases hopen
  | none =>
    rw [h.carry hopen] at hs
    exact hs

end EnumProgress.Carries

variable [Feed σ] [LawfulFeed σ] {env : ScanEnv} {P : TokenStream σ → Prop} {t : Token} {y : Cell}
  {cs ys : List Cell}

/-- Where no comment was pending, the one before the token is. -/
theorem Scanner.Passes.comment_of_commented {messages : List String} {comment : Option String}
    (h : Passes env P s (Cell.commented comment t).asides messages t cs s')
    (hs : s.comment = none) : s'.comment = comment := by
  have hcomment := congrArg Context.comment h.context
  cases comment with
  | none => exact hcomment.trans hs
  | some text =>
    refine hcomment.trans ?_
    simp only [Aside.afterAll, Cell.commented, Option.toList_some, List.map_singleton,
      List.foldl_cons, List.foldl_nil, Aside.after, Scanner.context, hs]

namespace Reader

/-- From here on the enumerators are read, each with its description, and then the reader is after
the closing brace. The comment that is carried describes the one that is open. -/
def Describes (env : ScanEnv) (P : TokenStream σ → Prop) (leads : Bool) (p : EnumProgress)
    (carried : Option String) (ms : List NotedEnumerator) (y : Cell) (ys : List Cell)
    (s : Scanner σ) : Prop :=
  ∃ q s', (loop (enumRound leads) p).run (Routine.run env) env s = .ok q s'
    ∧ q.settled.map Enumerator.note
      = (p.described carried).map Enumerator.note ++ ms.map NotedEnumerator.note
    ∧ s'.Before env P y.token ys ∧ s'.findings = s.findings
    ∧ s'.lost = s.lost ++ CountedEnumerator.messages
        (WrittenEnumerator.countAll p.previous (ms.map written))

/-- The closing brace settles the last enumerator. -/
theorem Describes.close (h : s.Before env P (.sep "\x7d") (y :: ys)) (hs : s.comment = carried) :
    Describes env P leads p carried [] y ys s := by
  have hend := (h.settled p).advance
  refine ⟨_, _, Scanner.iterate_done (run_enumRound_close h.current leads p), ?_, hend.before,
    hend.findings.trans (s.findings_settled p), ?_⟩
  · rw [hs]
    exact (List.append_nil _).symm
  · rw [Scanner.lost_advance, Scanner.lost_settled]
    exact (List.append_nil _).symm

/-- One enumerator is read, and then the others. -/
theorem Describes.again {q : EnumProgress} {carried' : Option String}
    (hround : (enumRound leads p).run (Routine.run env) env s = .ok (.again q) s')
    (hnotes : (q.described carried').map Enumerator.note
      = (p.described carried).map Enumerator.note ++ [m.note])
    (hprevious : q.previous = (m.written.counted p.previous).numeric)
    (hfindings : s'.findings = s.findings)
    (hlost : s'.lost = s.lost ++ CountedEnumerator.messages [m.written.counted p.previous])
    (h : Describes env P leads q carried' ms y ys s') :
    Describes env P leads p carried (m :: ms) y ys s := by
  obtain ⟨q', s'', hrun, hq', hs'', hfindings', hlost'⟩ := h
  refine ⟨q', s'', ((progresses_enumRound leads).run_loop hround).trans hrun, ?_, hs'',
    hfindings'.trans hfindings, ?_⟩
  · rw [hq', hnotes, List.append_assoc]
    rfl
  · rw [hlost', hlost, hprevious, List.map_cons, WrittenEnumerator.countAll,
      CountedEnumerator.messages_cons _ (WrittenEnumerator.countAll ..), List.append_assoc]

/-- A last enumerator without a comma after it. -/
theorem Describes.last (hm : m.written.isWhole = true) (hp : p.Carries leads carried)
    (h : s.Before env P (.word m.written.name) (m.written.rest.map Cell.bare
      ++ .commented (if leads then none else m.comment) (.sep "\x7d") :: y :: ys))
    (hs : s.comment = if leads then m.comment else carried) :
    Describes env P leads p carried [m] y ys s := by
  obtain ⟨u, hrun, hu⟩ := exists_enumRound leads hm (Cell.map_token_bare _)
    (WrittenEnumerator.endsAt_of_endsValue rfl) hp.fits h
  rw [Cell.allAsides_bare_append] at hu
  have hcomment : u.comment = m.comment := by
    have hsettled := hp.comment_settled hs
    cases leads with
    | false => exact hu.comment_of_commented hsettled
    | true => exact (congrArg Context.comment hu.context).trans hsettled
  refine .again (hrun.trans (run_endEnumerator_other hu.before.current rfl ..)) ?_ rfl
    (hu.findings.trans (s.findings_settled p)) ?_ (.close hu.before hcomment)
  · rw [EnumProgress.note_described, hs, hp.described]
  · rw [hu.lost, Scanner.lost_settled]

/-- An enumerator with a comma after it. -/
theorem Describes.comma {k : Option String} {ds : List Cell} (hm : m.written.isWhole = true)
    (hp : p.Carries leads carried)
    (h : s.Before env P (.word m.written.name) (m.written.rest.map Cell.bare
      ++ .bare (.sep ",") :: .commented k t :: ds))
    (hs : s.comment = if leads then m.comment else carried)
    (hrest : ∀ (q : EnumProgress) (u : Scanner σ),
      q.Carries leads (if leads then none else m.comment) → u.Before env P t ds → u.comment = k →
      Describes env P leads q (if leads then none else m.comment) ms y ys u) :
    Describes env P leads p carried (m :: ms) y ys s := by
  obtain ⟨u, hrun, hu⟩ := exists_enumRound leads hm (Cell.map_token_bare _)
    (WrittenEnumerator.endsAt_of_endsValue rfl) hp.fits h
  rw [Cell.allAsides_bare_append] at hu
  have hcomment : u.comment = if leads then m.comment else none :=
    (congrArg Context.comment hu.context).trans (hp.comment_settled hs)
  have hfindings : u.findings = s.findings := hu.findings.trans (s.findings_settled p)
  have hlost : u.lost = s.lost ++ CountedEnumerator.messages [m.written.counted p.previous] := by
    rw [hu.lost, Scanner.lost_settled]
  have hfits := hp.fits.counted m.written
  have hend := hrun.trans (run_endEnumerator_comma hu.before.current rfl leads _)
  have hdescribed : p.described s.comment = p.described carried := by rw [hs, hp.described]
  -- If comments lead, the enumerator is settled at the comma, and otherwise it is left open.
  cases leads with
  | true =>
    have hnext := hu.before.forget.advance
    refine .again hend ?_ rfl (hnext.findings.trans hfindings)
      ((Scanner.lost_advance _).trans hlost)
      (hrest _ _ ⟨hfits, fun _ => rfl, fun _ => rfl⟩ hnext.before
        (hnext.comment_of_commented rfl))
    have hown : u.comment = m.comment := hcomment
    rw [hown, hdescribed, ← Enumerator.note_describe m p.previous s.stream.line,
      EnumProgress.described]
    simp
  | false =>
    have hnext := hu.before.advance
    refine .again hend ?_ rfl (hnext.findings.trans hfindings)
      ((Scanner.lost_advance _).trans hlost)
      (hrest _ _ ⟨hfits, fun h => absurd h Bool.false_ne_true,
        fun h => absurd h (Option.some_ne_none _)⟩ hnext.before
        (hnext.comment_of_commented hcomment))
    exact (EnumProgress.note_described _ m ..).trans (by rw [hdescribed])

/-- All enumerators of a body are read, each with its own comment. -/
theorem describes (trailing : Bool) {c : Cell} (hms : ms.all (·.written.isWhole) = true)
    (hp : p.Carries leads carried) (hcells : cells leads trailing carried ms = c :: cs)
    (h : s.Before env P c.token (cs ++ y :: ys)) (hs : s.comment = firstComment leads carried ms) :
    Describes env P leads p carried ms y ys s := by
  induction ms generalizing p carried c cs s with
  | nil =>
    obtain ⟨rfl, rfl⟩ := List.cons.inj hcells
    exact .close h hs
  | cons m ms ih =>
    obtain ⟨rfl, rfl⟩ := List.cons.inj hcells
    rw [List.all_cons, Bool.and_eq_true] at hms
    rw [List.map_append, List.append_assoc, List.append_assoc] at h
    -- Only the last enumerator has no comma, and then its comment may stand before the brace.
    by_cases hlast : (ms.isEmpty && !trailing) = true
    · rw [NotedEnumerator.comma, if_pos hlast] at h
      rw [Bool.and_eq_true, List.isEmpty_iff] at hlast
      obtain rfl := hlast.1
      exact .last hms.1 hp h hs
    · rw [NotedEnumerator.comma, if_neg hlast] at h
      obtain ⟨t, fs, hfs⟩ := exists_cells leads trailing (if leads then none else m.comment) ms
      rw [hfs] at h
      exact .comma hms.1 hp h hs fun q u hq hu hcomment => ih hms.2 hq hfs hu hcomment

end Reader

/-! ## What is recorded -/

end HeaderAtlas
