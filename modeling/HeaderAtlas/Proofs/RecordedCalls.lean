import HeaderAtlas.Proofs.Catalog.Upkeep
import HeaderAtlas.Proofs.Reader.Comments
import HeaderAtlas.Proofs.Reader.Inside

/-!
# Which calls in a body are recorded

A name with a known stem counts as a call if a parenthesis comes after it, and as the use of a
type if a declarator does. To tell the two apart a scan looks at what comes after the name, and
what it has looked at it does not look at again: the parenthesis of a call, and a second name,
whether it declares anything or not. Passing over a parenthesis loses nothing. A second name may
be one that is called, and then the call is lost. It is not looked at itself either, so in a row
of such names the first, the third, the fifth and so on are noted and the others are not
(`GrammarSettings.callablesBefore`).

What is found in a body is therefore told by position (`findingsFrom`), and the proof goes
through the body from one position to a later one. What carries it is that no round starts at
a name that is used up (`GrammarSettings.IsFree`).
-/

namespace HeaderAtlas

open Catalog (Finding)
open Ending Reader

/-! ## What the tokens of a body are noted as -/

namespace GrammarSettings

variable (g : GrammarSettings) (body : List Token) (i : Nat)

/-- Is the token a name that the rules look for in calls? -/
def isCallable (t : Token) : Bool := g.usageMode? t == some .callsAndTypes

/-- How many names of this kind stand in a row right before the token at `i`. -/
def callablesBefore : Nat := ((body.take i).reverse.takeWhile g.isCallable).length

/-- The role of a token that has these two after it. -/
def roleOf? (t : Token) (next afterNext : Option Token) : Option Role :=
  match g.usageMode? t with
  | none => none
  | some .anyUse => some .typeUse
  | some .callsAndTypes =>
    if next.any (Token.isSep "(") then some .call
    else if next.any Token.isName && afterNext.any Token.endsDeclarator then some .typeUse
    else none

/-- The role in which the token at `i` is noted. A name that may be called uses up a name after
it, so in a row of them every second one is lost. -/
def roleAt? : Option Role :=
  if g.callablesBefore body i % 2 = 1 then none
  else body[i]?.bind fun t => g.roleOf? t body[i + 1]? body[i + 2]?

/-- The places in the body at which a use of the name is noted. -/
def usesOf (name : String) : List Nat :=
  (List.range body.length).filter fun i =>
    body[i]?.any (·.text == name) && (g.roleAt? body i).isSome

/-- No name before it uses up the token at `i`. -/
def IsFree : Prop := body[i]?.any Token.isName = true → g.callablesBefore body i % 2 = 0

variable {g body i} {t : Token}

theorem callablesBefore_succ (ht : body[i]? = some t) :
    g.callablesBefore body (i + 1)
      = if g.isCallable t then g.callablesBefore body i + 1 else 0 := by
  obtain ⟨hi, rfl⟩ := List.getElem?_eq_some_iff.mp ht
  rw [callablesBefore, List.take_succ_eq_append_getElem hi, List.reverse_append,
    List.reverse_singleton, List.singleton_append, List.takeWhile_cons]
  split <;> rfl

/-- Rules are for names. -/
theorem isName_of_usageMode? {mode : UsageMode} (h : g.usageMode? t = some mode) :
    t.isName = true := by
  rw [usageMode?] at h
  split at h
  · assumption
  · cases h

theorem usageMode?_of_not_isName (h : t.isName = false) : g.usageMode? t = none := by
  rw [usageMode?, h]
  rfl

theorem roleAt?_of_odd (hodd : g.callablesBefore body i % 2 = 1) : g.roleAt? body i = none :=
  if_pos hodd

theorem roleAt?_of_even (heven : g.callablesBefore body i % 2 = 0) (ht : body[i]? = some t) :
    g.roleAt? body i = g.roleOf? t body[i + 1]? body[i + 2]? := by
  rw [roleAt?, if_neg (by omega), ht, Option.bind_some]

theorem roleAt?_of_usageMode?_none (ht : body[i]? = some t) (hmode : g.usageMode? t = none) :
    g.roleAt? body i = none := by
  rw [roleAt?, ht, Option.bind_some, roleOf?, hmode]
  exact ite_self _

/-- A call is noted, unless the name is used up. -/
theorem mem_usesOf_of_call {name : String} (ht : body[i]? = some t) (htext : t.text = name)
    (hmode : g.usageMode? t = some .callsAndTypes) (hparen : body[i + 1]? = some (.sep "(")) :
    i ∈ g.usesOf body name ↔ g.callablesBefore body i % 2 = 0 := by
  have hi := (List.getElem?_eq_some_iff.mp ht).1
  have hname : (body[i]?.any fun t => t.text == name) = true := by
    rw [ht, Option.any_some, htext, beq_self_eq_true]
  rw [usesOf, List.mem_filter, hname, Bool.true_and, List.mem_range,
    and_iff_right_of_imp fun _ => hi]
  rcases Nat.mod_two_eq_zero_or_one (g.callablesBefore body i) with heven | hodd
  · rw [roleAt?_of_even heven ht, roleOf?, hmode, hparen]
    exact iff_of_true rfl heven
  · rw [roleAt?_of_odd hodd, hodd]
    decide

namespace IsFree

theorem even (h : g.IsFree body i) (ht : body[i]? = some t) {mode : UsageMode}
    (hmode : g.usageMode? t = some mode) : g.callablesBefore body i % 2 = 0 :=
  h (by rw [ht, Option.any_some, isName_of_usageMode? hmode])

/-- Other tokens use up nothing. -/
theorem succ_of_ne (ht : body[i]? = some t) (h : g.usageMode? t ≠ some .callsAndTypes) :
    g.IsFree body (i + 1) := by
  intro _
  rw [callablesBefore_succ ht, isCallable, if_neg (by simpa using h)]

/-- A name that is used up uses up nothing itself. -/
theorem succ_of_odd (ht : body[i]? = some t) (hodd : g.callablesBefore body i % 2 = 1) :
    g.IsFree body (i + 1) := by
  intro _
  rw [callablesBefore_succ ht]
  split <;> omega

theorem of_not_isName (ht : body[i]? = some t) (hname : t.isName = false) : g.IsFree body i := by
  intro hany
  rw [ht, Option.any_some, hname] at hany
  cases hany

end IsFree

end GrammarSettings

/-! ## What is found in a body -/

section Findings

variable {σ : Type} [Feed σ]

/-- What is found at the token at `i` of the body that comes from `start`. A use is found where
the token after it has been read. -/
def findingsAt (env : ScanEnv) (start : TokenStream σ) (body : List Token) (i : Nat) :
    List Finding :=
  match body[i]?, env.settings.grammar.roleAt? body i with
  | some t, some role => [.use t.text role ⟨env.file, (start.skip (i + 2)).line⟩]
  | _, _ => []

/-- What is found at the tokens from `i` up to `j`. -/
def findingsFrom (env : ScanEnv) (start : TokenStream σ) (body : List Token) (i j : Nat) :
    List Finding :=
  (List.range' i (j - i)).flatMap (findingsAt env start body)

variable {env : ScanEnv} {start : TokenStream σ} {body : List Token} {i j k : Nat} {t : Token}

theorem findingsAt_of_role {role : Role} (ht : body[i]? = some t)
    (hrole : env.settings.grammar.roleAt? body i = some role) :
    findingsAt env start body i
      = [.use t.text role ⟨env.file, (start.skip (i + 2)).line⟩] := by
  rw [findingsAt, ht, hrole]

theorem findingsAt_of_none (hrole : env.settings.grammar.roleAt? body i = none) :
    findingsAt env start body i = [] := by
  rw [findingsAt, hrole]
  split
  · next heq => cases heq
  · rfl

theorem findingsFrom_succ : findingsFrom env start body i (i + 1) = findingsAt env start body i := by
  simp [findingsFrom]

theorem findingsFrom_append (hij : i ≤ j) (hjk : j ≤ k) :
    findingsFrom env start body i j ++ findingsFrom env start body j k
      = findingsFrom env start body i k := by
  have hrange : List.range' i (j - i) ++ List.range' j (k - j) = List.range' i (k - i) := by
    have happend := List.range'_append_1 (s := i) (m := j - i) (n := k - j)
    rwa [Nat.add_sub_cancel' hij, show j - i + (k - j) = k - i by omega] at happend
  rw [findingsFrom, findingsFrom, ← List.flatMap_append, hrange]
  rfl

/-- The token after the one at `i` is used up with it. -/
theorem findingsFrom_succ_succ (hrole : env.settings.grammar.roleAt? body (i + 1) = none) :
    findingsFrom env start body i (i + 2) = findingsAt env start body i := by
  rw [← findingsFrom_append (Nat.le_succ i) (Nat.le_succ (i + 1)), findingsFrom_succ,
    findingsFrom_succ, findingsAt_of_none hrole, List.append_nil]

end Findings

/-! ## Going through a body -/

variable {σ : Type} [Feed σ]

namespace Scanner

/-- In a body that comes from `start`, its token at `i` is the current one, and what is left of
it closes `depth` blocks. -/
structure AtIndex (start : TokenStream σ) (body : List Token) (depth i : Nat) (s : Scanner σ) :
    Prop where
  current : s.current = body[i]?
  stream : s.stream = start.skip (i + 1)
  close : closesBlocks depth (body.drop i) = true

/-- The token at `i` of the body and some of those after it have been passed and noted. Before
that, `fs` had been found. -/
structure PastIndex (env : ScanEnv) (start : TokenStream σ) (body : List Token) (depth i : Nat)
    (fs : List Finding) (s : Scanner σ) (j : Nat) : Prop where
  later : i < j
  now : s.AtIndex start body depth j
  free : env.settings.grammar.IsFree body j
  findings : s.findings = fs ++ findingsFrom env start body i j

variable {env : ScanEnv} {start : TokenStream σ} {body : List Token} {depth d i : Nat}
  {s : Scanner σ} {fs : List Finding} {t u : Token}

namespace AtIndex

theorem find (h : s.AtIndex start body depth i) (fs : List Finding) :
    (s.find fs).AtIndex start body depth i :=
  ⟨h.current, h.stream, h.close⟩

theorem place_eq (h : s.AtIndex start body depth (i + 1)) :
    s.place env = ⟨env.file, (start.skip (i + 2)).line⟩ := by
  rw [place, h.stream]

/-- Only the token at `i` has been noted. -/
theorem past (h : s.AtIndex start body depth (i + 1))
    (hfree : env.settings.grammar.IsFree body (i + 1))
    (hfindings : s.findings = fs ++ findingsAt env start body i) :
    PastIndex env start body depth i fs s (i + 1) :=
  ⟨Nat.lt_succ_self i, h, hfree, by rw [hfindings, findingsFrom_succ]⟩

/-- The token after it was used up. -/
theorem past_used (h : s.AtIndex start body depth (i + 2))
    (hfree : env.settings.grammar.IsFree body (i + 2))
    (hrole : env.settings.grammar.roleAt? body (i + 1) = none)
    (hfindings : s.findings = fs ++ findingsAt env start body i) :
    PastIndex env start body depth i fs s (i + 2) :=
  ⟨by omega, h, hfree, by rw [hfindings, findingsFrom_succ_succ hrole]⟩

end AtIndex

section Body

variable [LawfulFeed σ] {rest : List Token} (hbody : start.Supplies (body ++ rest))
  (hpasses : ∀ t ∈ body, env.settings.grammar.passes t = true)

include hbody hpasses

namespace AtIndex

/-- Going on to the token at `i`. -/
theorem advance (h : s.stream = start.skip i) (hclose : closesBlocks d (body.drop i) = true) :
    (s.advance env).AtIndex start body d i ∧ (s.advance env).findings = s.findings := by
  obtain ⟨u, hu, -⟩ := exists_of_closesBlocks hclose
  have hnext : s.stream.next.1 = some u := by
    rw [h]
    refine hbody.next_skip ?_
    rw [List.getElem?_append_left (List.getElem?_eq_some_iff.mp hu).1, hu]
  have hfetch : s.fetch env = (some u, { s with stream := s.stream.next.2 }) := by
    rw [fetch, hnext]
    exact seek_of_passes _ (hpasses u (List.mem_of_getElem? hu))
  rw [advance_of_fetch hfetch]
  refine ⟨⟨hu.symm, ?_, hclose⟩, rfl⟩
  rw [TokenStream.skip_succ, ← h]

/-- Going on from a token that is no brace. -/
theorem advance_other (h : s.AtIndex start body depth i) (hu : body[i]? = some u)
    (hopen : u.isSep "\x7b" = false) (hshut : u.isSep "\x7d" = false) :
    (s.advance env).AtIndex start body depth (i + 1)
      ∧ (s.advance env).findings = s.findings := by
  obtain ⟨v, hv, hdrop⟩ := exists_of_closesBlocks h.close
  cases hv.symm.trans hu
  have hclose := h.close
  rw [hdrop, closesBlocks_of_other hopen hshut] at hclose
  exact advance hbody hpasses h.stream hclose

variable (h : s.AtIndex start body depth (i + 1)) (ht : body[i]? = some t)
  (hmode : env.settings.grammar.usageMode? t = some .callsAndTypes)
  (heven : env.settings.grammar.callablesBefore body i % 2 = 0) (hu : body[i + 1]? = some u)

include h ht hmode heven hu

/-- A call is found, and its parenthesis is used up. -/
theorem note_call (hopen : u.isSep "(" = true) :
    PastIndex env start body depth i s.findings ((s.findUse env t .call).advance env) (i + 2) := by
  have hu' := Token.isSep_iff.mp hopen
  obtain ⟨hat, hfindings⟩ := advance_other hbody hpasses (h.find [.use t.text .call (s.place env)])
    hu (by rw [hu']; decide) (by rw [hu']; decide)
  have hrole : env.settings.grammar.roleAt? body i = some .call := by
    rw [GrammarSettings.roleAt?_of_even heven ht, GrammarSettings.roleOf?, hmode, hu]
    exact if_pos hopen
  have hnone : env.settings.grammar.usageMode? u = none :=
    GrammarSettings.usageMode?_of_not_isName (Token.isName_of_isSep hopen)
  refine hat.past_used (.succ_of_ne hu (by rw [hnone]; decide))
    (GrammarSettings.roleAt?_of_usageMode?_none hu hnone) ?_
  rw [findingsAt_of_role ht hrole, ← h.place_eq]
  exact hfindings

/-- A second name is used up, whatever comes after it. -/
theorem note_pair (hname : u.isName = true) :
    PastIndex env start body depth i s.findings
      (if (s.advance env).current.any Token.endsDeclarator then
        (s.advance env).find [.use t.text .typeUse (s.place env)]
      else s.advance env) (i + 2) := by
  have hsep : ∀ sep, u.isSep sep = false := fun sep =>
    Bool.eq_false_iff.mpr fun hsep => by
      rw [Token.isName_of_isSep hsep] at hname
      cases hname
  obtain ⟨hat, hfindings⟩ := advance_other hbody hpasses h hu (hsep _) (hsep _)
  have hodd : env.settings.grammar.callablesBefore body (i + 1) % 2 = 1 := by
    rw [GrammarSettings.callablesBefore_succ ht, GrammarSettings.isCallable, hmode,
      if_pos (by decide)]
    omega
  have hrole : env.settings.grammar.roleAt? body i
      = if (s.advance env).current.any Token.endsDeclarator then some .typeUse else none := by
    rw [GrammarSettings.roleAt?_of_even heven ht, GrammarSettings.roleOf?, hmode, hu, hat.current]
    simp [hsep, hname]
  have hlost := GrammarSettings.roleAt?_of_odd hodd
  have hfree := GrammarSettings.IsFree.succ_of_odd hu hodd
  split
  · next hends =>
    rw [if_pos hends] at hrole
    refine (hat.find _).past_used hfree hlost ?_
    rw [findingsAt_of_role ht hrole, ← h.place_eq, ← hfindings]
    rfl
  · next hends =>
    rw [if_neg hends] at hrole
    refine hat.past_used hfree hlost ?_
    rw [findingsAt_of_none hrole, hfindings, List.append_nil]

end AtIndex

/-- A token of a body that is not used up is noted in its role. -/
theorem AtIndex.note (h : s.AtIndex start body depth (i + 1)) (ht : body[i]? = some t)
    (hfree : env.settings.grammar.IsFree body i) :
    ∃ j, PastIndex env start body depth i s.findings (s.note env t) j := by
  obtain ⟨u, hu, -⟩ := exists_of_closesBlocks h.close
  have hcur : s.current = some u := h.current.trans hu
  rw [Scanner.note]
  split
  · next hmode =>
    have hrole := GrammarSettings.roleAt?_of_usageMode?_none ht hmode
    refine ⟨_, h.past (.succ_of_ne ht (by rw [hmode]; decide)) ?_⟩
    rw [findingsAt_of_none hrole, List.append_nil]
  · next hmode =>
    have hrole : env.settings.grammar.roleAt? body i = some .typeUse := by
      rw [GrammarSettings.roleAt?_of_even (hfree.even ht hmode) ht, GrammarSettings.roleOf?, hmode]
    refine ⟨_, (h.find _).past (.succ_of_ne ht (by rw [hmode]; decide)) ?_⟩
    rw [findingsAt_of_role ht hrole, ← h.place_eq]
    rfl
  · next hmode =>
    have heven := hfree.even ht hmode
    rw [hcur, Option.any_some, Option.any_some]
    cases hopen : u.isSep "(" with
    | true => exact ⟨_, h.note_call hbody hpasses ht hmode heven hu hopen⟩
    | false =>
      cases hname : u.isName with
      | true => exact ⟨_, h.note_pair hbody hpasses ht hmode heven hu hname⟩
      | false =>
        have hrole : env.settings.grammar.roleAt? body i = none := by
          rw [GrammarSettings.roleAt?_of_even heven ht, GrammarSettings.roleOf?, hmode, hu]
          simp [hopen, hname]
        refine ⟨_, h.past (.of_not_isName hu hname) ?_⟩
        rw [findingsAt_of_none hrole, List.append_nil]

/-- One round over a body: it is over, or some tokens have been noted. -/
theorem run_bodyRound (hcollect : env.collectUsages = true) (h : s.AtIndex start body depth i)
    (hfree : env.settings.grammar.IsFree body i) :
    (∃ u, (bodyRound depth).run (Routine.run env) env s = .ok (.done 0) u
        ∧ i + 1 = body.length ∧ u.current = some (.sep "\x7d")
        ∧ u.findings = s.findings ++ findingsFrom env start body i (i + 1))
      ∨ ∃ d s' j, (bodyRound depth).run (Routine.run env) env s = .ok (.again d) s'
        ∧ PastIndex env start body d i s.findings s' j := by
  obtain ⟨t, ht, hdrop⟩ := exists_of_closesBlocks h.close
  have hcur : s.current = some t := h.current.trans ht
  have hclose := h.close
  rw [hdrop] at hclose
  have hbrace : ∀ sep, t.isSep sep = true → env.settings.grammar.IsFree body (i + 1)
      ∧ findingsAt env start body i = [] := by
    intro sep hsep
    have hnone : env.settings.grammar.usageMode? t = none :=
      GrammarSettings.usageMode?_of_not_isName (Token.isName_of_isSep hsep)
    exact ⟨.succ_of_ne ht (by rw [hnone]; decide),
      findingsAt_of_none (GrammarSettings.roleAt?_of_usageMode?_none ht hnone)⟩
  cases hopen : t.isSep "\x7b" with
  | true =>
    rw [closesBlocks_of_open hopen] at hclose
    obtain ⟨hat, hfindings⟩ := AtIndex.advance hbody hpasses h.stream hclose
    obtain ⟨hfree', hnil⟩ := hbrace _ hopen
    refine .inr ⟨depth + 1, s.advance env, i + 1, ?_, hat.past hfree' ?_⟩
    · simp [run_bodyRound_eq _ _ _ hcur, hopen]
    · rw [hnil, hfindings, List.append_nil]
  | false =>
    cases hshut : t.isSep "\x7d" with
    | true =>
      obtain ⟨hfree', hnil⟩ := hbrace _ hshut
      rw [closesBlocks, hopen, if_neg Bool.false_ne_true, if_pos hshut] at hclose
      by_cases hone : depth = 1
      · rw [if_pos hone, List.isEmpty_iff, List.drop_eq_nil_iff] at hclose
        have hi := (List.getElem?_eq_some_iff.mp ht).1
        refine .inl ⟨s.forget, ?_, by omega, ?_, ?_⟩
        · simp [run_bodyRound_eq _ _ _ hcur, hopen, hshut, hone]
        · rw [← Token.isSep_iff.mp hshut]
          exact hcur
        · rw [findingsFrom_succ, hnil, List.append_nil]
          rfl
      · rw [if_neg hone] at hclose
        have hforget : s.forget.stream = start.skip (i + 1) := h.stream
        obtain ⟨hat, hfindings⟩ := AtIndex.advance hbody hpasses hforget hclose
        refine .inr ⟨depth - 1, s.forget.advance env, i + 1, ?_, hat.past hfree' ?_⟩
        · simp [run_bodyRound_eq _ _ _ hcur, hopen, hshut, hone]
        · rw [hnil, hfindings, List.append_nil]
          rfl
    | false =>
      obtain ⟨hat, hfindings⟩ := h.advance_other hbody hpasses ht hopen hshut
      obtain ⟨j, hpast⟩ := hat.note hbody hpasses ht hfree
      refine .inr ⟨depth, _, j, ?_, hfindings ▸ hpast⟩
      simp [run_bodyRound_eq _ _ _ hcur, hopen, hshut, hcollect]

/-- A body is read to its end, with what its tokens are noted as. -/
theorem run_loop_bodyRound (hcollect : env.collectUsages = true)
    (h : s.AtIndex start body depth i) (hfree : env.settings.grammar.IsFree body i) :
    ∃ u, (loop bodyRound depth).run (Routine.run env) env s = .ok 0 u
      ∧ u.current = some (.sep "\x7d")
      ∧ u.findings = s.findings ++ findingsFrom env start body i body.length := by
  induction hn : body.length - i using Nat.strongRecOn generalizing depth i s with
  | ind n ih =>
    rcases run_bodyRound hbody hpasses hcollect h hfree with
      ⟨u, hrun, hlast, hcur, hfindings⟩ | ⟨d, s', j, hrun, hpast⟩
    · exact ⟨u, Scanner.iterate_done hrun, hcur, hlast ▸ hfindings⟩
    · obtain ⟨v, hv, -⟩ := exists_of_closesBlocks hpast.now.close
      have hj := (List.getElem?_eq_some_iff.mp hv).1
      have hlater := hpast.later
      obtain ⟨u, hloop, hcur, hfindings⟩ :=
        ih (body.length - j) (by omega) hpast.now hpast.free rfl
      refine ⟨u, (progresses_bodyRound.run_loop hrun).trans hloop, hcur, ?_⟩
      rw [hfindings, hpast.findings, List.append_assoc,
        findingsFrom_append (Nat.le_of_lt hlater) (Nat.le_of_lt hj)]

end Body

end Scanner

/-! ## The uses in a catalogue -/

namespace Catalog

/-- The line of a finding, if it is a use of the name. -/
def Finding.lineOf? (name : String) : Finding → Option Nat
  | declaration .. => none
  | use other _ place => if other = name then some place.line else none

/-- The lines on which a name is used. -/
def linesOf (c : Catalog) (name : String) : List Nat :=
  ((c.usages.get? name).map (·.lines)).getD []

variable {name : String}

/-- A use adds its line to those of its name. -/
theorem linesOf_add (hname : isReserved name = false) (c : Catalog) (f : Finding) :
    (c.add f).linesOf name = c.linesOf name ++ (f.lineOf? name).toList := by
  cases f with
  | declaration other category o =>
    rw [add, linesOf, usages_record]
    exact (List.append_nil _).symm
  | use other role place =>
    rw [add, linesOf, linesOf, recordUse, Finding.lineOf?]
    by_cases hother : other = name
    · subst hother
      rw [hname, if_neg Bool.false_ne_true, if_pos rfl, NameMap.get?_insert_self]
      cases c.usages.get? other <;> rfl
    · rw [if_neg hother]
      split
      · exact (List.append_nil _).symm
      · rw [NameMap.get?_insert, if_neg hother]
        exact (List.append_nil _).symm

theorem linesOf_foldl_add (hname : isReserved name = false) (fs : List Finding) (c : Catalog) :
    (fs.foldl add c).linesOf name = c.linesOf name ++ fs.filterMap (·.lineOf? name) := by
  induction fs generalizing c with
  | nil => exact (List.append_nil _).symm
  | cons f fs ih =>
    rw [List.foldl_cons, ih, linesOf_add hname, List.append_assoc, List.filterMap_cons]
    cases f.lineOf? name <;> rfl

end Catalog

omit [Feed σ] in
/-- The lines of a name are those of its uses, in order. -/
theorem Scanner.linesOf_catalog {name : String} (hname : isReserved name = false) (env : ScanEnv)
    (s : Scanner σ) :
    (s.catalog env).linesOf name = s.findings.filterMap (·.lineOf? name) :=
  Catalog.linesOf_foldl_add hname s.findings { name := env.file }

/-- Each place at which a use of the name is noted gives it a line. -/
theorem filterMap_findingsFrom {env : ScanEnv} {start : TokenStream σ} {body : List Token}
    (name : String) :
    (findingsFrom env start body 0 body.length).filterMap (·.lineOf? name)
      = (env.settings.grammar.usesOf body name).map fun i => (start.skip (i + 2)).line := by
  rw [findingsFrom, Nat.sub_zero, ← List.range_eq_range', GrammarSettings.usesOf]
  induction List.range body.length with
  | nil => rfl
  | cons i is ih =>
    rw [List.flatMap_cons, List.filterMap_append, ih, List.filter_cons]
    cases ht : body[i]? with
    | none => simp [findingsAt, ht]
    | some t =>
      cases hrole : env.settings.grammar.roleAt? body i with
      | none => simp [findingsAt, ht, hrole]
      | some role =>
        rw [findingsAt_of_role ht hrole]
        by_cases hname : t.text = name
        · simp [Catalog.Finding.lineOf?, hname]
        · simp [Catalog.Finding.lineOf?, hname]

/-! ## Calls in the body of a function -/

section Functions

variable [LawfulFeed σ]

namespace Reader

variable {env : ScanEnv} {s u : Scanner σ} {name returnType : String} {params : List Param}
  {isStatic : Bool} {c : Option Closing} {body rest : List Token}

/-- A function is found before its body is read. -/
theorem findings_readFunction (hcollect : env.collectUsages = true)
    (hopen : s.current = some (.sep "\x7b")) (hbody : s.stream.Supplies (body ++ rest))
    (hclose : closesBlocks 1 body = true)
    (hpasses : ∀ t ∈ body, env.settings.grammar.passes t = true)
    (h : (readFunction name returnType params isStatic).run (Routine.run env) env s = .ok c u) :
    c = some .nothing ∧ ∃ o, u.findings = s.findings ++ .declaration name .function o
      :: findingsFrom env s.stream body 0 body.length := by
  rw [readFunction, run_bind, run_atSep, andThen_ok, hopen, Option.any_some,
    if_pos (by decide)] at h
  obtain ⟨_, v, hrecord, h⟩ := run_bind_eq_ok h
  obtain ⟨hstream, -, -, hfindings⟩ := findings_recordFunction hrecord
  obtain ⟨hat, hfindings'⟩ := Scanner.AtIndex.advance (i := 0) (d := 1) hbody hpasses hstream hclose
  obtain ⟨w, hloop, hcur, hfound⟩ := Scanner.run_loop_bodyRound hbody hpasses hcollect hat
    fun _ => rfl
  have hread : readBody.run (Routine.run env) env (v.advance env) = .ok () w := by
    rw [readBody, run_bind, hloop]
    rfl
  rw [run_bind, run_advance, andThen_ok, run_bind, hread, andThen_ok, run_bind, run_atSep,
    andThen_ok, hcur] at h
  cases h
  rw [hfindings', hfindings, List.append_assoc] at hfound
  exact ⟨if_pos (by decide), _, hfound⟩

end Reader

/-- **Every call in a body is recorded, unless the name before it uses it up.** Wherever in a file
a function with a body stands, the body is read to its end, and it adds to the lines of a name
one for each place at which a use is noted. These stay in the catalogue, and a call is noted if
and only if an even number of names that may be called stands in a row right before it. -/
theorem lines_of_calls {o : ScanOptions} {file : String} {feed : σ} {C : Catalog}
    (hC : (Catalog.ofFeed o file feed).result = .ok C)
    (hcollect : (o.env file).collectUsages = true)
    {name returnType : String} {params : List Param} {isStatic : Bool} {s : Scanner σ}
    (hinside : Inside (o.env file) (readFunction name returnType params isStatic) s readFile
      (.start (o.env file) feed))
    (hopen : s.current = some (.sep "\x7b")) {body rest : List Token}
    (hbody : s.stream.Supplies (body ++ rest)) (hclose : closesBlocks 1 body = true)
    (hpasses : ∀ t ∈ body, o.settings.grammar.passes t = true) :
    ∃ u, (readFunction name returnType params isStatic).run (Routine.run (o.env file))
        (o.env file) s = .ok (some .nothing) u
      ∧ ∀ callee, isReserved callee = false →
        (u.catalog (o.env file)).linesOf callee
          = (s.catalog (o.env file)).linesOf callee
            ++ (o.settings.grammar.usesOf body callee).map (fun i => (s.stream.skip (i + 2)).line)
        ∧ (u.catalog (o.env file)).linesOf callee <+: C.linesOf callee
        ∧ ∀ i t, body[i]? = some t → t.text = callee →
          o.settings.grammar.usageMode? t = some .callsAndTypes →
          body[i + 1]? = some (.sep "(") →
          (i ∈ o.settings.grammar.usesOf body callee
            ↔ o.settings.grammar.callablesBefore body i % 2 = 0) := by
  obtain ⟨v, hv, rfl⟩ := Catalog.exists_catalog_eq hC
  obtain ⟨c, u, hrun, hkept⟩ := hinside.exists_ok hv
  obtain ⟨rfl, obs, hfindings⟩ := findings_readFunction hcollect hopen hbody hclose hpasses hrun
  refine ⟨u, hrun, fun callee hreserved => ⟨?_, ?_, fun i t ht htext hmode hparen => ?_⟩⟩
  · rw [Scanner.linesOf_catalog hreserved, Scanner.linesOf_catalog hreserved, hfindings,
      List.filterMap_append, List.filterMap_cons, filterMap_findingsFrom]
    rfl
  · rw [Scanner.linesOf_catalog hreserved, Scanner.linesOf_catalog hreserved]
    exact hkept.filterMap _
  · exact GrammarSettings.mem_usesOf_of_call ht htext hmode hparen

end Functions

/-- A function with the body `virFoo virBar(x); virFree(virLast(x));`. -/
def adjacentNames : List Token :=
  [.word "virFoo", .word "virBar", .sep "(", .word "x", .sep ")", .sep ";",
    .word "virFree", .sep "(", .word "virLast", .sep "(", .word "x", .sep ")", .sep ")", .sep ";",
    .sep "\x7d"]

/-- A file that defines it. -/
def adjacentNamesFile : List Token :=
  [.word "int", .word "f", .sep "(", .word "int", .word "x", .sep ")", .sep "\x7b"]
    ++ adjacentNames

/-- The call of `virBar` is missing, since `virFoo` has used up the name. -/
theorem usages_of_adjacentNames :
    closesBlocks 1 adjacentNames = true
      ∧ (∀ t ∈ adjacentNames, GrammarSettings.builtin.passes t = true)
      ∧ adjacentNames[1]? = some (.word "virBar") ∧ adjacentNames[2]? = some (.sep "(")
      ∧ GrammarSettings.builtin.usageMode? (.word "virBar") = some .callsAndTypes
      ∧ isReserved "virBar" = false
      ∧ (Catalog.ofFeed { collectUsages := some true } "a.c" adjacentNamesFile).result.toOption.map
        (·.usages.names) = some ["virFree", "virLast"] := by
  refine ⟨?_, ?_, ?_, ?_, ?_, ?_, ?_⟩ <;> decide +kernel

/-- The built-in settings, but no words are ignored or special. Uses are collected. -/
def plainOptions : ScanOptions where
  settings := { Settings.builtin with
    grammar := { GrammarSettings.builtin with ignoredWords := ∅, specialForms := ∅ } }
  collectUsages := some true

def plainEnv : ScanEnv := plainOptions.env "a.c"

/-- The scan of the file comes to the opening brace of the function. -/
theorem inside_adjacentNames : ∃ s : Scanner (List Token),
    Inside plainEnv (readFunction "f" "int" [⟨"int", some "x", none⟩] false) s readFile
      (.start plainEnv adjacentNamesFile)
    ∧ s.current = some (.sep "\x7b") ∧ s.stream.Supplies (adjacentNames ++ []) := by
  have hspecial : plainEnv.settings.grammar.specialForms.get? (Token.word "int").text
      = none := by decide +kernel
  refine ⟨?state, ?inside, ?current, ?stream⟩
  case inside =>
    -- The first item of the file is a declaration.
    refine .next () (by decide +kernel) (.round ?_)
    refine .next false (by decide +kernel) (.first (.first ?_))
    refine .next true (by decide +kernel) (.call ?_)
    -- It is neither `extern` nor `static`, and no typedef.
    refine .next false (by decide +kernel) (.next false (by decide +kernel) ?_)
    refine .of_look (some (.word "int")) (by decide +kernel) fun view hview => ?_
    rw [hview]
    dsimp only
    rw [if_neg (by decide)]
    refine .rest rfl ?_
    rw [hspecial]
    dsimp only
    -- It has a type and a name, and a parameter list after them.
    refine .next { text := "int" } (by decide +kernel) (.next false (by decide +kernel) ?_)
    refine .next (some "f") (by decide +kernel) (.next () (by decide +kernel) ?_)
    refine .first (.round (.next true (by decide +kernel) (.next false (by decide +kernel) ?_)))
    refine .next false (by decide +kernel) (.rest rfl (.next false (by decide +kernel) ?_))
    refine .next false (by decide +kernel) (.next true (by decide +kernel) ?_)
    refine .next () (by decide +kernel) (.next [⟨"int", some "x", none⟩] (by decide +kernel) ?_)
    refine .first ?_
    exact Inside.here (σ := List Token)
  case current => decide +kernel
  case stream => decide +kernel

theorem lines_of_adjacentNames : ∃ (C : Catalog) (s u : Scanner (List Token)),
    (Catalog.ofFeed plainOptions "a.c" adjacentNamesFile).result = .ok C
      ∧ ∀ callee lines, (callee, lines) ∈ [("virBar", []), ("virFree", [1]), ("virLast", [1])] →
        (u.catalog plainEnv).linesOf callee = (s.catalog plainEnv).linesOf callee ++ lines
          ∧ (u.catalog plainEnv).linesOf callee <+: C.linesOf callee := by
  obtain ⟨s, hinside, hopen, hstream⟩ := inside_adjacentNames
  obtain ⟨C, hC⟩ : ∃ C, (Catalog.ofFeed plainOptions "a.c" adjacentNamesFile).result = .ok C :=
    Outcome.exists_ok (by decide +kernel)
  obtain ⟨u, -, hlines⟩ :=
    lines_of_calls hC rfl hinside hopen hstream (by decide) (by decide +kernel)
  have huses : ∀ p ∈ [("virBar", []), ("virFree", [1]), ("virLast", [1])], isReserved p.1 = false
      ∧ (plainEnv.settings.grammar.usesOf adjacentNames p.1).map (fun _ => 1) = p.2 := by
    decide +kernel
  refine ⟨C, s, u, hC, fun callee lines hmem => ?_⟩
  obtain ⟨hreserved, hplaces : _ = lines⟩ := huses _ hmem
  obtain ⟨hbody, hkept, -⟩ := hlines callee hreserved
  refine ⟨?_, hkept⟩
  rw [← hplaces]
  exact hbody

end HeaderAtlas
