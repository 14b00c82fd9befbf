import HeaderAtlas.Proofs.Lexer.Exhaustion
import HeaderAtlas.Proofs.Lexer.Offsets

/-!
# A lexer that slices its lines

This lexer keeps offsets into its lines and slices them where its scans stop, and it fails as soon
as one slice does. It takes a round at a time (`Lexer.roundByOffset?`), which either has the
answer or leaves a line to go on with.

It never fails, and its answers are those of the lexer that walks its lines character by
character (`Lexer.answersByOffset?_eq`).
-/

namespace HeaderAtlas

open Text

namespace Lexer

variable {lx : Lexer} {line text segment : List Char} {p : Pages}

/-- The string literal at the front of a line. `line` is all that was read since, and the closing
quote is looked for from the offset `start` on. -/
def readStringByOffset? (quote : UInt8) (line : List Char) (start : Nat) (p : Pages) :
    Option (Option Token × Lexer) :=
  match Lexeme.closingQuote? quote start ((encode line).drop start) with
  | some stop => do
    let inside ← slice? line 1 stop
    let after ← slice? line (stop + 1) (encode line).length
    return (some (.ofChars .string inside), { pages := p, rest := after })
  | none =>
    match h : p.logical with
    | (none, q) => some (none, { pages := q })
    | (some more, q) =>
      have := Pages.cost_logical_some h
      readStringByOffset? quote (line ++ more) (encode line).length q
termination_by p.cost

/-- The block comment that a line starts with, from after its opening. -/
def readCommentByOffset? (text segment : List Char) (p : Pages) :
    Option (Option Token × Lexer) :=
  let text := if text.isEmpty then [] else text ++ ['\n']
  match Lexeme.commentEnd.find? isAny (encode segment) with
  | some stop => do
    let inside ← slice? segment 0 stop
    let after ← slice? segment (stop + 2) (encode segment).length
    return (some (.ofChars .comment (text ++ inside)), { pages := p, rest := after })
  | none =>
    match h : p.logical with
    | (none, q) => some (none, { pages := q })
    | (some line, q) =>
      have := Pages.cost_logical_some h
      readCommentByOffset? (text ++ segment) line q
termination_by p.cost

theorem readStringByOffset?_eq {quote : Char} (hquote : quote.toNat < 128)
    (text segment : List Char) (p : Pages) :
    readStringByOffset? (UInt8.ofNat quote.toNat) (quote :: text ++ segment)
      (encode (quote :: text)).length p = some (readString quote text segment p) := by
  fun_induction readString quote text segment p with
  | case1 text segment p inside after h =>
    obtain rfl := Lexeme.eq_of_closeQuote? h
    obtain ⟨hinside, hafter⟩ := Lexeme.slice?_string hquote text inside after
    rw [readStringByOffset?, Lexeme.closingQuote?_drop hquote, h]
    dsimp only [Option.map_some]
    rw [hinside, hafter]
    rfl
  | case2 text segment p h q hp =>
    rw [readStringByOffset?, Lexeme.closingQuote?_drop hquote, h]
    dsimp only [Option.map_none]
    split <;> simp_all
  | case3 text segment p h line q hp _ ih =>
    rw [readStringByOffset?, Lexeme.closingQuote?_drop hquote, h]
    dsimp only [Option.map_none]
    split
    · simp_all
    · next hq =>
      rw [hp] at hq
      cases hq
      exact ih

theorem readCommentByOffset?_eq (text segment : List Char) (p : Pages) :
    readCommentByOffset? text segment p = some (readComment text segment p) := by
  fun_induction readComment text segment p with
  | case1 _ segment p _ inside after h =>
    rw [readCommentByOffset?, Lexeme.find?_commentEnd, h]
    dsimp only [Option.map_some]
    obtain rfl := eq_of_cut? h
    obtain ⟨hinside, hafter⟩ := Lexeme.slice?_comment inside after
    rw [hinside, hafter]
    rfl
  | case2 _ segment p h q hp =>
    rw [readCommentByOffset?, Lexeme.find?_commentEnd, h]
    dsimp only [Option.map_none]
    split <;> simp_all
  | case3 _ segment p _ h line q hp _ ih =>
    rw [readCommentByOffset?, Lexeme.find?_commentEnd, h]
    dsimp only [Option.map_none]
    split
    · simp_all
    · next hq =>
      rw [hp] at hq
      cases hq
      exact ih

/-- The byte that a string starts with is its quote. -/
theorem eq_of_opening_string {quote : Char} (h : opening line = .string quote segment) :
    line = quote :: segment ∧ quote.toNat < 128 := by
  unfold opening at h
  split at h <;> cases h <;> exact ⟨rfl, by decide⟩

/-- One round of the lexer, with the line taken apart by offsets. It either has the answer or a
lexer to go on with. There is neither if one of the slices fails. -/
def roundByOffset? (lx : Lexer) : Option (Lexer ⊕ Option Token × Lexer) :=
  match lx.pending with
  | t :: ts => some (.inr (some t, { lx with pending := ts }))
  | [] =>
    match lx.takeLine with
    | (none, p) => some (.inr (none, { pages := p }))
    | (some line, p) =>
      match opening line with
      | .directive => some (.inl { pages := p, pending := Lexeme.directive line })
      | .string _ _ => do
        let quote ← (encode line).head?
        let answer ← readStringByOffset? quote line 1 p
        return .inr answer
      | .block segment => do
        let answer ← readCommentByOffset? [] segment p
        return .inr answer
      | .remark text => some (.inr (some (.ofChars .comment text), { pages := p }))
      | .code => do
        let cut := Lexeme.codeEnd.reach isAny (encode line)
        let rest ← slice? line cut (encode line).length
        let code ← slice? line 0 cut
        let pending ← Lexeme.codeFrom? code 0
        return .inl { pages := p, pending, rest }

/-- A round has the next token, or leaves less to split before it. -/
theorem roundByOffset?_cases (lx : Lexer) :
    lx.roundByOffset? = some (.inr lx.next)
      ∨ ∃ lx', lx.roundByOffset? = some (.inl lx') ∧ lx'.backlog < lx.backlog
        ∧ lx.next = lx'.next := by
  unfold roundByOffset?
  cases hpending : lx.pending with
  | cons t ts =>
    rw [next_of_pending hpending]
    exact .inl rfl
  | nil =>
    rcases hline : lx.takeLine with ⟨_ | line, p⟩
    · rw [next_of_end hpending hline]
      exact .inl rfl
    dsimp only
    cases hopening : opening line with
    | directive =>
      refine .inr ⟨_, rfl, ?_, next_of_directive hpending hline hopening⟩
      exact backlog_directive hline hopening
    | string quote segment =>
      obtain ⟨rfl, hquote⟩ := eq_of_opening_string hopening
      have hbyte := encodeChar_of_ascii hquote
      have hread := readStringByOffset?_eq hquote [] segment p
      rw [List.singleton_append, show (encode [quote]).length = 1 by simp [hbyte]] at hread
      refine .inl ?_
      dsimp only
      rw [next_of_string hpending hline hopening, encode_cons, hbyte, List.singleton_append]
      dsimp only [List.head?_cons, Option.bind_eq_bind, Option.bind_some]
      rw [hread]
      rfl
    | block segment =>
      refine .inl ?_
      dsimp only
      rw [next_of_block hpending hline hopening, readCommentByOffset?_eq]
      rfl
    | remark text =>
      rw [next_of_remark hpending hline hopening]
      exact .inl rfl
    | code =>
      obtain ⟨hcode, hrest⟩ := Lexeme.slice?_splitCode line
      have htokens := Lexeme.codeFrom?_eq [] (Lexeme.splitCode line).1
      rw [List.nil_append, encode_nil, List.length_nil] at htokens
      refine .inr ⟨_, ?_, ?_, next_of_code hpending hline hopening⟩
      · dsimp only
        rw [hrest, hcode]
        dsimp only [Option.bind_eq_bind, Option.bind_some]
        rw [htokens]
        rfl
      · exact backlog_code hline hopening

theorem backlog_of_round {lx' : Lexer} (h : lx.roundByOffset? = some (.inl lx')) :
    lx'.backlog < lx.backlog ∧ lx.next = lx'.next := by
  obtain hround | ⟨_, hround, hspec⟩ := roundByOffset?_cases lx <;> cases h.symm.trans hround
  exact hspec

/-- The next token, with all lines taken apart by offsets. -/
def nextByOffset? (lx : Lexer) : Option (Option Token × Lexer) :=
  match h : lx.roundByOffset? with
  | none => none
  | some (.inr answer) => some answer
  | some (.inl lx') =>
    have := (backlog_of_round h).1
    nextByOffset? lx'
termination_by lx.backlog

theorem nextByOffset?_eq (lx : Lexer) : lx.nextByOffset? = some lx.next := by
  fun_induction nextByOffset? lx with
  | case1 lx h =>
    obtain hround | ⟨_, hround, -⟩ := roundByOffset?_cases lx <;> cases h.symm.trans hround
  | case2 lx answer h =>
    obtain hround | ⟨_, hround, -⟩ := roundByOffset?_cases lx <;> cases h.symm.trans hround
    rfl
  | case3 lx lx' h _ ih =>
    rw [ih, (backlog_of_round h).2]

/-- The answers to the calls, with all lines taken apart by offsets. -/
def answersByOffset? (lx : Lexer) : List Call → Option (List (Option Token))
  | [] => some []
  | .next :: calls => do
    let (answer, lx) ← lx.nextByOffset?
    let answers ← lx.answersByOffset? calls
    return answer :: answers
  | .discard :: calls => lx.discardLine.answersByOffset? calls

theorem answersByOffset?_eq (lx : Lexer) (calls : List Call) :
    lx.answersByOffset? calls = some (lx.answers calls) := by
  induction calls generalizing lx with
  | nil => rfl
  | cons call calls ih =>
    cases call with
    | next =>
      rw [answersByOffset?, nextByOffset?_eq]
      dsimp only [Option.bind_eq_bind, Option.bind_some]
      rw [ih]
      rfl
    | discard => exact ih lx.discardLine

/-- **No slice fails.** Whatever the bytes of a file are and whatever is asked of its lexer, there
are answers. So each slice that was taken for them is between two offsets that are in order, within
the text and not inside a character, since there is none between any others. -/
theorem slices_at_boundaries (bytes : List UInt8) (calls : List Call) :
    (ofBytes bytes).answersByOffset? calls = some ((ofBytes bytes).answers calls)
      ∧ ∀ text i j, (slice? text i j).isSome = true
        ↔ i ≤ j ∧ IsBoundary text i ∧ IsBoundary text j :=
  ⟨answersByOffset?_eq _ calls, fun _ _ _ => isSome_slice?_iff⟩

end Lexer

end HeaderAtlas
