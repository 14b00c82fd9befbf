import HeaderAtlas.Proofs.Expressions.Arithmetic
import HeaderAtlas.Proofs.Reader.Openings

/-!
# Reading one enumerator

An enumerator is written as a name, after which there may be an operator that starts with `=` and
then the tokens of a value. What it counts for depends on what the one before it counted for
(`WrittenEnumerator.counted`). The reader settles the enumerator before it, reads its value and
passes the comma after it, if there is one (`exists_enumRound`).

The tokens to come are told as cells, because it matters to the descriptions which token a comment
stands before. Warnings are counted by their topic: no comment and no directive on the way to a
token warns about an enumerator.
-/

namespace HeaderAtlas

open Ending Reader

/-! ## What is written -/

/-- An explicit value. -/
structure AssignedValue where
  /-- What is left of the operator that starts with `=`. -/
  fused : String
  /-- The tokens after it. -/
  tokens : List Token
deriving DecidableEq

/-- An enumerator. -/
structure WrittenEnumerator where
  name : String
  value : Option AssignedValue
deriving DecidableEq

/-- Does the token end an explicit value? -/
def Token.endsValue (t : Token) : Bool := t.isSep "," || t.isSep "\x7d"

/-- The text that is recorded of an explicit value. -/
def AssignedValue.text (v : AssignedValue) : String :=
  v.fused ++ String.join (v.tokens.map fun t => ConstExpr.stripUnsigned t.text)

/-- What an enumerator counts for. -/
structure CountedEnumerator where
  name : String
  value : String
  numeric : Option Int
  /-- Is there no number to count on from? -/
  isLost : Bool
deriving DecidableEq

namespace WrittenEnumerator

/-- The tokens after the name. -/
def rest (e : WrittenEnumerator) : List Token :=
  match e.value with
  | some v => ⟨.operator, "=" ++ v.fused⟩ :: v.tokens
  | none => []

/-- The tokens of the enumerator. -/
def tokens (e : WrittenEnumerator) : List Token := .word e.name :: e.rest

/-- Is its value read to the end? -/
def isWhole (e : WrittenEnumerator) : Bool := e.value.all fun v => v.tokens.all (!·.endsValue)

/-- Does the reader take this token for the first one after the enumerator? -/
def endsAt (e : WrittenEnumerator) (u : Token) : Bool :=
  match e.value with
  | some _ => u.endsValue
  | none => (assigned? u).isNone

/-- The number after another one. Counting ends at the greatest number of 64 bits. -/
def successor? (previous : Option Int) : Option Int :=
  (previous.filter (· < 9223372036854775807)).map (· + 1)

/-- What the enumerator counts for, given the number before it. -/
def counted (previous : Option Int) (e : WrittenEnumerator) : CountedEnumerator :=
  match e.value with
  | some v => ⟨e.name, v.text, ConstExpr.evaluate v.text, false⟩
  | none =>
    match successor? previous with
    | some n => ⟨e.name, toString n, some n, false⟩
    | none => ⟨e.name, "", none, true⟩

/-- What several enumerators count for, one after the other. -/
def countAll (previous : Option Int) : List WrittenEnumerator → List CountedEnumerator
  | [] => []
  | e :: es => e.counted previous :: countAll (e.counted previous).numeric es

/-- The end of an explicit value is the end of any enumerator. -/
theorem endsAt_of_endsValue {e : WrittenEnumerator} {u : Token} (h : u.endsValue = true) :
    e.endsAt u = true := by
  have hcls : u.cls = .separator := by
    simp only [Token.endsValue, Token.isSep, Bool.or_eq_true, Bool.and_eq_true, beq_iff_eq] at h
    exact h.elim And.left And.left
  unfold endsAt assigned?
  cases e.value with
  | some v => exact h
  | none => simp [hcls]

@[simp] theorem name_counted (previous : Option Int) (e : WrittenEnumerator) :
    (e.counted previous).name = e.name := by
  unfold counted
  split
  · rfl
  · split <;> rfl

theorem map_name_countAll (previous : Option Int) (es : List WrittenEnumerator) :
    (countAll previous es).map CountedEnumerator.name = es.map name := by
  induction es generalizing previous with
  | nil => rfl
  | cons e es ih => rw [countAll, List.map_cons, List.map_cons, ih, name_counted]

end WrittenEnumerator

/-- The message about an enumerator that cannot be counted. -/
def CountedEnumerator.message (c : CountedEnumerator) : String :=
  "Failed to compute value of enum " ++ c.name

/-- The messages about those of several enumerators that cannot be counted. -/
def CountedEnumerator.messages (cs : List CountedEnumerator) : List String :=
  (cs.filter isLost).map message

theorem CountedEnumerator.messages_cons (c : CountedEnumerator) (cs : List CountedEnumerator) :
    messages (c :: cs) = messages [c] ++ messages cs := by
  rw [messages, messages, messages, ← List.map_append, ← List.filter_append, List.singleton_append]

/-! ## Numbers of 64 bits -/

/-- A number to count on from has 64 bits. -/
def Fits (previous : Option Int) : Prop := ∀ n, previous = some n → ConstExpr.fit? n = some n

namespace Fits

variable {previous : Option Int}

/-- The number before the first enumerator. -/
theorem start : Fits (some (-1)) := by
  intro n hn
  cases hn
  rfl

/-- It is counted on as long as there is a next number of 64 bits. -/
theorem bind_fit? (h : Fits previous) :
    (previous.bind fun n => ConstExpr.fit? (n + 1)) = WrittenEnumerator.successor? previous := by
  cases previous with
  | none => rfl
  | some n =>
    have hn := h n rfl
    rw [ConstExpr.fit?] at hn
    split at hn
    · next hrange =>
      rw [Option.bind_some, ConstExpr.fit?, WrittenEnumerator.successor?, Option.filter_some]
      by_cases hmax : n < 9223372036854775807
      · rw [if_pos (by omega), if_pos (by simpa using hmax), Option.map_some]
      · rw [if_neg (by omega), if_neg (by simpa using hmax), Option.map_none]
    · cases hn

theorem successor? (h : Fits previous) : Fits (WrittenEnumerator.successor? previous) := by
  intro n hn
  rw [← h.bind_fit?, Option.bind_eq_some_iff] at hn
  obtain ⟨k, -, hk⟩ := hn
  unfold ConstExpr.fit? at hk ⊢
  split at hk
  · next hrange =>
    obtain rfl := Option.some.inj hk
    exact if_pos hrange
  · cases hk

theorem counted (h : Fits previous) (e : WrittenEnumerator) :
    Fits (e.counted previous).numeric := by
  intro n hn
  unfold WrittenEnumerator.counted at hn
  split at hn
  · exact ConstExpr.fit?_of_evaluate hn
  · split at hn
    · next hnext =>
      obtain rfl := Option.some.inj hn
      exact h.successor? _ hnext
    · cases hn

end Fits

/-! ## Warnings about enumerators -/

/-- The messages on one topic, in order. -/
def Journal.messages (j : Journal) (topic : Topic) : List String :=
  (j.filter (·.topic = topic)).map Notice.message

theorem Journal.messages_append (j j' : Journal) (topic : Topic) :
    messages (j ++ j') topic = messages j topic ++ messages j' topic := by
  rw [messages, List.filter_append, List.map_append]
  rfl

variable {σ : Type}

namespace Scanner

/-- The warnings about enumerators so far. -/
def lost (s : Scanner σ) : List String := s.journal.messages .enumValue

/-- The state after settling, which forgets the comment if it describes something. -/
def settled (p : EnumProgress) (s : Scanner σ) : Scanner σ :=
  if p.open?.isSome then s.forget else s

@[simp] theorem findings_settled (p : EnumProgress) (s : Scanner σ) :
    (s.settled p).findings = s.findings := by
  unfold settled
  split <;> rfl

@[simp] theorem lost_settled (p : EnumProgress) (s : Scanner σ) : (s.settled p).lost = s.lost := by
  unfold settled
  split <;> rfl

variable [Feed σ] {env : ScanEnv} {P : TokenStream σ → Prop}

@[simp] theorem line_settled (p : EnumProgress) (s : Scanner σ) :
    (s.settled p).stream.line = s.stream.line := by
  unfold settled
  split <;> rfl

theorem lost_warn (s : Scanner σ) (topic : Topic) (messages : List String) :
    (s.warn env topic messages).lost
      = s.lost ++ if topic = .enumValue then messages else [] := by
  rw [lost, warn, Journal.messages_append, lost, Journal.messages, Journal.messages]
  split
  · next h => simp [h, List.filter_map, Function.comp_def]
  · next h => simp [h]

theorem lost_obey (word : String) (args : List String) (s : Scanner σ) :
    (s.obey env word args).lost = s.lost := by
  unfold obey
  dsimp only
  split
  · split <;> rfl
  · unfold define
    split
    · rfl
    · dsimp only
      split
      · rfl
      · exact (lost_warn s .documentation _).trans (List.append_nil _)
  all_goals rfl

variable [LawfulFeed σ]

theorem lost_seek (next : Option Token) (s : Scanner σ) : (seek env next s).2.lost = s.lost := by
  fun_induction seek env next s with
  | case2 s t ht _ ih => exact ih
  | case3 s t ht _ s' ih => exact ih.trans (lost_obey ..)
  | case6 s t ht _ _ count hcount _ _ ih => exact ih
  | _ => rfl

/-- Going on to the next token does not warn about enumerators, whatever stands before it. -/
@[simp] theorem lost_advance (s : Scanner σ) : (s.advance env).lost = s.lost :=
  lost_seek s.stream.next.1 { s with stream := s.stream.next.2 }

/-! ## In the middle of an enumeration -/

/-- The token `t` is the current one and the cells `cs` are to come, with no directive before
any of them. -/
structure Before (env : ScanEnv) (P : TokenStream σ → Prop) (t : Token) (cs : List Cell)
    (s : Scanner σ) : Prop where
  current : s.current = some t
  stream : s.stream.Hands env P cs
  quiet : cs.all Cell.isQuiet = true

/-- From `s` to `s'` only what stands before tokens has been taken in, and this has been warned
about. The token `t` has become the current one, and the cells `cs` are left. -/
structure Passes (env : ScanEnv) (P : TokenStream σ → Prop) (s : Scanner σ) (as : List Aside)
    (messages : List String) (t : Token) (cs : List Cell) (s' : Scanner σ) : Prop where
  before : s'.Before env P t cs
  context : s'.context = Aside.afterAll env s.context as
  findings : s'.findings = s.findings
  lost : s'.lost = s.lost ++ messages

variable {s s' s'' : Scanner σ} {t t' : Token} {c d : Cell} {cs cs' ws : List Cell}
  {as as' : List Aside} {messages messages' : List String}

theorem Passes.trans (h : Passes env P s as messages t cs s')
    (h' : Passes env P s' as' messages' t' cs' s'') :
    Passes env P s (as ++ as') (messages ++ messages') t' cs' s'' where
  before := h'.before
  context := by rw [h'.context, h.context, Aside.afterAll_append]
  findings := h'.findings.trans h.findings
  lost := by rw [h'.lost, h.lost, List.append_assoc]

/-- What stands before the next token is taken in. -/
theorem passes_advance (hstream : s.stream.Hands env P (c :: cs))
    (hquiet : (c :: cs).all Cell.isQuiet = true) :
    Passes env P s c.asides [] c.token cs (s.advance env) := by
  rw [List.all_cons, Bool.and_eq_true] at hquiet
  obtain ⟨s', hfetch, -, hcontext, -, hfindings, hrest⟩ := hstream s rfl
  have hadvance := advance_of_fetch hfetch
  refine ⟨⟨?_, ?_, hquiet.2⟩, ?_, ?_, ?_⟩
  · rw [hadvance]
  · rw [hadvance]; exact hrest
  · rw [hadvance]; exact hcontext
  · rw [hadvance]; exact hfindings hquiet.1
  · rw [lost_advance, List.append_nil]

theorem Before.advance (h : s.Before env P t (c :: cs)) :
    Passes env P s c.asides [] c.token cs (s.advance env) := passes_advance h.stream h.quiet

theorem Before.warn (h : s.Before env P t cs) (messages : List String) :
    Passes env P s [] messages t cs (s.warn env .enumValue messages) :=
  ⟨⟨h.current, h.stream, h.quiet⟩, rfl, rfl, lost_warn s .enumValue messages⟩

theorem Before.forget (h : s.Before env P t cs) : s.forget.Before env P t cs :=
  ⟨h.current, h.stream, h.quiet⟩

theorem Before.settled (p : EnumProgress) (h : s.Before env P t cs) :
    (s.settled p).Before env P t cs := by
  unfold Scanner.settled
  split
  · exact h.forget
  · exact h

end Scanner

/-! ## Values -/

variable [Feed σ] [LawfulFeed σ] {env : ScanEnv} {P : TokenStream σ → Prop} {s : Scanner σ}
  {t : Token} {d : Cell} {ws ds : List Cell}

namespace Reader

/-- One token of a value. -/
def valueRound (value : String) : Reader (Round String) := do
  match (← look).current with
  | none => return .done value
  | some t =>
    if t.isSep "," || t.isSep "\x7d" then return .done value
    else
      advance
      return .again (value ++ ConstExpr.stripUnsigned t.text)

theorem progresses_valueRound : Progresses valueRound :=
  (regular_readValue (P := fun _ => True) "").1

/-- A value is read up to the token that ends it. -/
theorem exists_readValue (hws : ws.all (!·.token.endsValue) = true)
    (hd : d.token.endsValue = true) (h : s.Before env P t (ws ++ d :: ds)) (value : String) :
    ∃ s', (readValue value).run (Routine.run env) env (s.advance env)
        = .ok (value ++ String.join (ws.map fun w => ConstExpr.stripUnsigned w.token.text)) s'
      ∧ Scanner.Passes env P s (Cell.allAsides (ws ++ [d])) [] d.token ds s' := by
  induction ws generalizing s t value with
  | nil =>
    have hs := h.advance
    refine ⟨s.advance env, ?_, ?_⟩
    · have hround : (valueRound value).run (Routine.run env) env (s.advance env)
          = .ok (.done value) (s.advance env) := by
        rw [valueRound, run_bind, run_look, andThen_ok]
        simp only [Scanner.view, hs.before.current]
        rw [if_pos (by simpa [Token.endsValue] using hd)]
        rfl
      rw [List.map_nil, String.join_nil, String.append_empty]
      exact Scanner.iterate_done hround
    · simpa [Cell.allAsides] using hs
  | cons w ws ih =>
    rw [List.all_cons, Bool.and_eq_true, Bool.not_eq_true'] at hws
    have hs := h.advance
    obtain ⟨s', hrun, hs'⟩ := ih hws.2 hs.before (value ++ ConstExpr.stripUnsigned w.token.text)
    have hround : (valueRound value).run (Routine.run env) env (s.advance env)
        = .ok (.again (value ++ ConstExpr.stripUnsigned w.token.text))
          ((s.advance env).advance env) := by
      rw [valueRound, run_bind, run_look, andThen_ok]
      simp only [Scanner.view, hs.before.current]
      rw [if_neg (by simpa [Token.endsValue] using hws.1)]
      rfl
    refine ⟨s', ?_, ?_⟩
    · rw [List.map_cons, String.join_cons, ← String.append_assoc]
      exact (progresses_valueRound.run_loop hround).trans hrun
    · rw [List.cons_append, Cell.allAsides_cons]
      exact hs.trans hs'

/-- What follows the name of an enumerator is read, and the enumerator is counted. -/
theorem exists_readEnumValue {e : WrittenEnumerator} {previous : Option Int}
    (he : e.isWhole = true) (hws : ws.map Cell.token = e.rest) (hd : e.endsAt d.token = true)
    (hprevious : Fits previous) (h : s.Before env P t (ws ++ d :: ds)) :
    ∃ s', (readEnumValue e.name previous).run (Routine.run env) env (s.advance env)
        = .ok ((e.counted previous).value, (e.counted previous).numeric) s'
      ∧ Scanner.Passes env P s (Cell.allAsides (ws ++ [d]))
        (CountedEnumerator.messages [e.counted previous]) d.token ds s' := by
  unfold WrittenEnumerator.rest at hws
  unfold WrittenEnumerator.isWhole at he
  unfold WrittenEnumerator.endsAt at hd
  unfold WrittenEnumerator.counted
  cases hvalue : e.value with
  | some v =>
    rw [hvalue] at hws he hd
    obtain ⟨w, vs, rfl, hw, hvs⟩ := List.map_eq_cons_iff.mp hws
    have hs := h.advance
    have hassigned : ((s.advance env).current.bind assigned?) = some v.fused := by
      rw [hs.before.current, hw, Option.bind_some, assigned?]
      simp
    have hvalue : vs.all (!·.token.endsValue) = true := by
      simpa [← hvs, List.all_map] using he
    obtain ⟨s', hrun, hs'⟩ := exists_readValue hvalue hd hs.before v.fused
    refine ⟨s', ?_, ?_⟩
    · have htext : v.fused ++ String.join (vs.map fun w => ConstExpr.stripUnsigned w.token.text)
          = v.text := by
        rw [AssignedValue.text, ← hvs, List.map_map]
        rfl
      rw [readEnumValue, run_bind, run_look, andThen_ok]
      simp only [Scanner.view, hassigned]
      rw [run_bind, run_advance, andThen_ok, run_bind, hrun, htext]
      rfl
    · rw [List.cons_append, Cell.allAsides_cons]
      exact hs.trans hs'
  | none =>
    rw [hvalue] at hws hd
    obtain rfl := List.map_eq_nil_iff.mp hws
    have hs := h.advance
    have hassigned : ((s.advance env).current.bind assigned?) = none := by
      rw [hs.before.current, Option.bind_some]
      exact Option.isNone_iff_eq_none.mp hd
    rw [readEnumValue, run_bind, run_look, andThen_ok]
    simp only [Scanner.view, hassigned, hprevious.bind_fit?]
    have hasides : Cell.allAsides ([] ++ [d]) = d.asides := by simp [Cell.allAsides]
    rw [hasides]
    cases WrittenEnumerator.successor? previous with
    | some n => exact ⟨s.advance env, rfl, hs⟩
    | none =>
      have hwarn := hs.trans (hs.before.warn ["Failed to compute value of enum " ++ e.name])
      rw [List.append_nil] at hwarn
      exact ⟨_, rfl, hwarn⟩

end Reader

/-! ## Rounds -/

/-- The enumerator with the description that the comment amounts to, if anything is left of it. -/
def Enumerator.describe (comment : Option String) (e : Enumerator) : Enumerator :=
  { e with
    description := ((comment.map DocBlock.cleaned).filter (!·.isEmpty)).getD e.description }

/-- The enumerators so far. The comment describes the one that is open. -/
def EnumProgress.described (comment : Option String) (p : EnumProgress) : List Enumerator :=
  p.settled ++ (p.open?.map (Enumerator.describe comment)).toList

/-- The enumerator that is made of a counted one. -/
def CountedEnumerator.enumerator (c : CountedEnumerator) (line : Nat) : Enumerator where
  name := c.name
  value := c.value
  numeric := c.numeric
  line := line

namespace Reader

theorem run_takeComment (s : Scanner σ) :
    takeComment.run (Routine.run env) env s
      = .ok ((s.comment.map DocBlock.cleaned).filter (!·.isEmpty)) s.forget := rfl

theorem run_settle (p : EnumProgress) (s : Scanner σ) :
    (settle p).run (Routine.run env) env s
      = .ok { p with settled := p.described s.comment, open? := none } (s.settled p) := by
  obtain ⟨settled, open?, previous⟩ := p
  cases open? with
  | none =>
    rw [EnumProgress.described, Option.map_none, Option.toList_none, List.append_nil]
    rfl
  | some e =>
    rw [settle, run_bind, run_takeComment, andThen_ok]
    dsimp only [EnumProgress.described, Option.map_some, Option.toList_some, Enumerator.describe]
    cases (s.comment.map DocBlock.cleaned).filter (!·.isEmpty) <;> rfl

/-- What is done about an enumerator when its value has been read. -/
def endEnumerator (commentsLead : Bool) (p : EnumProgress) (e : Enumerator) :
    Reader (Round EnumProgress) := do
  if ← atSep "," then
    let p ←
      if commentsLead then do
        let description := (← takeComment).getD ""
        pure { p with settled := p.settled ++ [{ e with description }] }
      else pure { p with open? := some e }
    advance
    return .again p
  else return .again { p with open? := some e }

/-- An enumerator is read up to the token after it. -/
theorem exists_enumRound {e : WrittenEnumerator} {p : EnumProgress} (commentsLead : Bool)
    (he : e.isWhole = true) (hws : ws.map Cell.token = e.rest) (hd : e.endsAt d.token = true)
    (hp : Fits p.previous) (h : s.Before env P (.word e.name) (ws ++ d :: ds)) :
    ∃ s', (enumRound commentsLead p).run (Routine.run env) env s
        = (endEnumerator commentsLead
            ⟨p.described s.comment, none, (e.counted p.previous).numeric⟩
            ((e.counted p.previous).enumerator s.stream.line)).run (Routine.run env) env s'
      ∧ Scanner.Passes env P (s.settled p) (Cell.allAsides (ws ++ [d]))
        (CountedEnumerator.messages [e.counted p.previous]) d.token ds s' := by
  obtain ⟨s', hrun, hs'⟩ := exists_readEnumValue he hws hd hp (h.settled p)
  refine ⟨s', ?_, hs'⟩
  have hsep : ∀ sep, Token.isSep sep (.word e.name) = false := fun sep => rfl
  have hname : Token.isName (.word e.name) = true := rfl
  rw [enumRound, run_bind, run_look, andThen_ok]
  simp only [Scanner.view, h.current, hsep, hname, Bool.not_true, Bool.false_eq_true, if_false]
  rw [run_bind, run_settle, andThen_ok, run_bind, run_line, andThen_ok, run_bind, run_advance,
    andThen_ok, run_bind]
  dsimp only [Token.word]
  rw [hrun, andThen_ok, Scanner.line_settled, CountedEnumerator.enumerator,
    WrittenEnumerator.name_counted]
  rfl

variable {p : EnumProgress} {e : Enumerator}

/-- A comma is passed. If comments lead, the comment before the enumerator describes it. -/
theorem run_endEnumerator_comma (hs : s.current = some (.sep ",")) (he : e.description = "")
    (commentsLead : Bool) (p : EnumProgress) :
    (endEnumerator commentsLead p e).run (Routine.run env) env s
      = if commentsLead then
          .ok (.again { p with settled := p.settled ++ [e.describe s.comment] })
            (s.forget.advance env)
        else .ok (.again { p with open? := some e }) (s.advance env) := by
  have hcomma : s.current.any (Token.isSep ",") = true := by rw [hs]; rfl
  rw [endEnumerator, run_bind, run_atSep, andThen_ok, hcomma, if_pos rfl, Enumerator.describe, he]
  cases commentsLead <;> rfl

/-- Without a comma the enumerator may still be given a description. -/
theorem run_endEnumerator_other {u : Token} (hs : s.current = some u) (hu : u.isSep "," = false)
    (commentsLead : Bool) (p : EnumProgress) (e : Enumerator) :
    (endEnumerator commentsLead p e).run (Routine.run env) env s
      = .ok (.again { p with open? := some e }) s := by
  have hcomma : s.current.any (Token.isSep ",") = false := by rw [hs]; exact hu
  rw [endEnumerator, run_bind, run_atSep, andThen_ok, hcomma]
  rfl

/-- Other tokens than names and braces are passed over. -/
theorem run_enumRound_other {u : Token} (hs : s.current = some u) (hopen : u.isSep "\x7b" = false)
    (hclose : u.isSep "\x7d" = false) (hname : u.isName = false) (commentsLead : Bool)
    (p : EnumProgress) :
    (enumRound commentsLead p).run (Routine.run env) env s = .ok (.again p) (s.advance env) := by
  rw [enumRound, run_bind, run_look, andThen_ok]
  simp only [Scanner.view, hs, hopen, hclose, hname, Bool.false_eq_true, if_false, Bool.not_false,
    if_true]
  rfl

/-- The closing brace settles the last enumerator. -/
theorem run_enumRound_close (hs : s.current = some (.sep "\x7d")) (commentsLead : Bool)
    (p : EnumProgress) :
    (enumRound commentsLead p).run (Routine.run env) env s
      = .ok (.done { p with settled := p.described s.comment, open? := none })
        ((s.settled p).advance env) := by
  have hopen : Token.isSep "\x7b" (.sep "\x7d") = false := by decide
  have hclose : Token.isSep "\x7d" (.sep "\x7d") = true := by decide
  rw [enumRound, run_bind, run_look, andThen_ok]
  simp only [Scanner.view, hs, hopen, hclose, Bool.false_eq_true, if_false, if_true]
  rw [run_bind, run_settle, andThen_ok]
  rfl

/-- All rounds are made. -/
theorem run_readEnumerators {q : EnumProgress} {s' : Scanner σ}
    (h : (loop (enumRound s.comment.isSome) {}).run (Routine.run env) env s = .ok q s') :
    readEnumerators.run (Routine.run env) env s = .ok q.settled s' := by
  rw [readEnumerators, run_bind, run_look, andThen_ok, run_bind]
  exact congrArg (fun r => r.andThen fun q s' => .ok q.settled s') h

end Reader

end HeaderAtlas
