import HeaderAtlas.Token.Feed
import HeaderAtlas.Token.Pages

/-!
# The lexer

The lexer takes one logical line at a time. A line that starts with `#` is split
into words. Otherwise what stands before the first quote or comment is split into
tokens, and the rest of the line is taken up once these are used; a string or a
block comment may go on over several lines. One that never ends, ends the stream.

The lexer is lazy on purpose: a reader may drop the rest of the current line, and
what is dropped then can no longer open a comment or a string.
-/

namespace HeaderAtlas

open Text

namespace Lexeme

/-! ## Characters -/

/-- Separators are single characters. -/
def isSeparator (c : Char) : Bool := ['(', ')', '\x7b', '\x7d', ':', ';', ',', '[', ']'].contains c

/-- Characters that may follow an operator character to make an operator of
two. -/
def isOperatorTail (c : Char) : Bool :=
  ['+', '-', '*', '>', '<', '=', '/', '%', '&', '!', '|'].contains c

/-- Characters that start an operator. -/
def isOperator (c : Char) : Bool := isOperatorTail c || c == '.'

/-- Characters that end a name. A dot does not. -/
def endsName (c : Char) : Bool := isGap c || isSeparator c || isOperatorTail c

/-- Quotes of strings and characters. -/
def isQuote (c : Char) : Bool := c == '"' || c == '\''

/-! ## Pieces of a line -/

/-- The words of a preprocessor line. A `#` that stands alone joins the word
after it. -/
def directiveWords (line : List Char) : List (List Char) :=
  match words line with
  | ['#'] :: w :: ws => ('#' :: w) :: ws
  | ws => ws

/-- The tokens of a preprocessor line. -/
def directive (line : List Char) : List Token :=
  (directiveWords line).map (Token.ofChars .directive)

/-- The code at the front of a line, up to the first quote or comment, and the
rest. -/
def splitCode : List Char → List Char × List Char
  | [] => ([], [])
  | c :: cs =>
    let opensComment := c == '/' && (cs.head? == some '/' || cs.head? == some '*')
    if isQuote c || opensComment then ([], c :: cs)
    else
      let (code, rest) := splitCode cs
      (c :: code, rest)

/-- The first token of some code, and the code after it. `none` for a blank. -/
def codeToken (c : Char) (cs : List Char) : Option Token × List Char :=
  if isGap c then (none, cs)
  else if isSeparator c then (some (.ofChars .separator [c]), cs)
  else if isOperator c then
    match c, cs with
    | '.', '.' :: '.' :: rest => (some (.ofChars .name ['.', '.', '.']), rest)
    | c, d :: rest =>
      if isOperatorTail d then (some (.ofChars .operator [c, d]), rest)
      else (some (.ofChars .operator [c]), d :: rest)
    | c, [] => (some (.ofChars .operator [c]), [])
  else
    (some (.ofChars .name (c :: cs.takeWhile (!endsName ·))), cs.dropWhile (!endsName ·))

theorem length_codeToken (c : Char) (cs : List Char) : (codeToken c cs).2.length ≤ cs.length := by
  unfold codeToken
  split
  · simp
  · split
    · simp
    · split
      · split
        · simp only [List.length_cons]; omega
        · split <;> simp
        · simp
      · exact (List.dropWhile_sublist _).length_le

/-- The tokens of some code. -/
def code : List Char → List Token
  | [] => []
  | c :: cs =>
    have := length_codeToken c cs
    (codeToken c cs).1.toList ++ code (codeToken c cs).2
termination_by cs => cs.length

/-- What stands before and after the closing quote. A backslash takes the
character after it along. -/
def closeQuote? (quote : Char) : List Char → Option (List Char × List Char)
  | [] => none
  | ['\\'] => none
  | '\\' :: c :: cs => (closeQuote? quote cs).map fun (s, rest) => ('\\' :: c :: s, rest)
  | c :: cs =>
    if c = quote then some ([], cs)
    else (closeQuote? quote cs).map fun (s, rest) => (c :: s, rest)

/-! ## Sizes -/

theorem length_words_le (cs : List Char) (h : ∃ c ∈ cs.head?, isBlank c = false) :
    (words cs).length ≤ cs.length := by
  obtain ⟨c, hc, hb⟩ := h
  cases cs with
  | nil => simp at hc
  | cons d ds =>
    simp only [List.head?_cons, Option.mem_def, Option.some.injEq] at hc
    subst hc
    have hle := length_pieces_le isBlank ds
    unfold words
    refine Nat.le_trans (List.length_filter_le _ _) ?_
    rw [pieces_cons_of_neg ds hb]
    split
    · simp
    · next heq => rw [heq] at hle; simpa using hle

/-- A preprocessor line has no more tokens than characters. -/
theorem length_directive_le (cs : List Char) : (directive ('#' :: cs)).length ≤ cs.length + 1 := by
  have h := length_words_le ('#' :: cs) ⟨'#', by simp, by decide⟩
  simp only [directive, List.length_map, directiveWords]
  split
  · next heq => rw [heq] at h; simp only [List.length_cons] at h ⊢; omega
  · simpa using h

/-- Code has no more tokens than characters. -/
theorem length_code_le (cs : List Char) : (code cs).length ≤ cs.length := by
  fun_induction code cs with
  | case1 => simp
  | case2 c cs h ih =>
    have : (codeToken c cs).1.toList.length ≤ 1 := by cases (codeToken c cs).1 <;> simp
    simp only [List.length_append, List.length_cons] at *
    omega

/-- Splitting loses nothing. -/
theorem splitCode_append (cs : List Char) : (splitCode cs).1 ++ (splitCode cs).2 = cs := by
  induction cs with
  | nil => rfl
  | cons c cs ih =>
    rw [splitCode]
    dsimp only
    split
    · rfl
    · simpa using ih

/-- What is neither a backslash at the end nor one before something is none. -/
theorem ne_backslash {c : Char} {cs : List Char} (hlast : c = '\\' → cs = [] → False)
    (hescape : ∀ d ds, c = '\\' → cs = d :: ds → False) : c ≠ '\\' := by
  rintro rfl
  cases cs with
  | nil => exact hlast rfl rfl
  | cons d ds => exact hescape d ds rfl rfl

/-- What stands before the closing quote, the quote and what stands after it make up the text. -/
theorem eq_of_closeQuote? {quote : Char} {cs before after : List Char}
    (h : closeQuote? quote cs = some (before, after)) : cs = before ++ quote :: after := by
  fun_induction closeQuote? quote cs generalizing before with
  | case1 => simp at h
  | case2 => simp at h
  | case3 c cs ih =>
    obtain ⟨⟨b, a⟩, hb, he⟩ := Option.map_eq_some_iff.mp h
    simp only [Prod.mk.injEq] at he
    obtain ⟨rfl, rfl⟩ := he
    rw [ih hb]
    rfl
  | case4 cs =>
    simp only [Option.some.injEq, Prod.mk.injEq] at h
    obtain ⟨rfl, rfl⟩ := h
    rfl
  | case5 c cs _ _ _ ih =>
    obtain ⟨⟨b, a⟩, hb, he⟩ := Option.map_eq_some_iff.mp h
    simp only [Prod.mk.injEq] at he
    obtain ⟨rfl, rfl⟩ := he
    rw [ih hb]
    rfl

theorem length_closeQuote? {quote : Char} {cs before after : List Char}
    (h : closeQuote? quote cs = some (before, after)) : after.length < cs.length := by
  rw [eq_of_closeQuote? h, List.length_append, List.length_cons]
  omega

end Lexeme

/-! ## The state of a lexer -/

/-- A lexer in the middle of a file. -/
structure Lexer where
  /-- The lines not read yet. -/
  pages : Pages
  /-- Tokens split off the current line and not used yet. -/
  pending : List Token := []
  /-- The part of the current line that is not split yet. -/
  rest : List Char := []

namespace Lexer

/-- A lexer at the start of a file of bytes. -/
def ofBytes (bytes : List UInt8) : Lexer := { pages := .ofBytes bytes }

/-- A lexer at the start of a text. -/
def ofText (text : String) : Lexer := { pages := .ofText text }

/-- What is left to split. -/
def backlog (lx : Lexer) : Nat := lx.pages.cost + lx.rest.length

/-- A string literal, from after its opening quote. `text` is what was found of
it on earlier lines; each further line is searched from its own start. -/
def readString (quote : Char) (text segment : List Char) (p : Pages) : Option Token × Lexer :=
  match Lexeme.closeQuote? quote segment with
  | some (inside, after) =>
    (some (.ofChars .string (text ++ inside)), { pages := p, rest := after })
  | none =>
    match h : p.logical with
    | (none, q) => (none, { pages := q })
    | (some line, q) =>
      have := Pages.cost_logical_some h
      readString quote (text ++ segment) line q
termination_by p.cost

/-- A block comment, from after its opening. `text` is what was found of it on
earlier lines. Lines are set apart by line feeds, but none leads the text. -/
def readComment (text segment : List Char) (p : Pages) : Option Token × Lexer :=
  let text := if text.isEmpty then [] else text ++ ['\n']
  match cut? ['*', '/'] segment with
  | some (inside, after) =>
    (some (.ofChars .comment (text ++ inside)), { pages := p, rest := after })
  | none =>
    match h : p.logical with
    | (none, q) => (none, { pages := q })
    | (some line, q) =>
      have := Pages.cost_logical_some h
      readComment (text ++ segment) line q
termination_by p.cost

/-- The rest of the current line, or else the next logical line. -/
def takeLine (lx : Lexer) : Option (List Char) × Pages :=
  if lx.rest.isEmpty then lx.pages.logical else (some lx.rest, lx.pages)

/-- What the start of a line makes of it. -/
inductive Opening where
  /-- Preprocessor words. -/
  | directive
  /-- A string literal. -/
  | string (quote : Char) (segment : List Char)
  /-- A block comment. -/
  | block (segment : List Char)
  /-- A comment to the end of the line. -/
  | remark (text : List Char)
  /-- Code. -/
  | code
deriving DecidableEq, Repr

/-- How a line starts. -/
def opening : List Char → Opening
  | '#' :: _ => .directive
  | '"' :: cs => .string '"' cs
  | '\'' :: cs => .string '\'' cs
  | '/' :: '*' :: cs => .block cs
  | '/' :: '/' :: cs => .remark cs
  | _ => .code

/-- Code that starts a line is not empty, unless the line is. -/
theorem length_splitCode_lt {line : List Char} (h : opening line = .code) (hne : line ≠ []) :
    (Lexeme.splitCode line).2.length < line.length := by
  cases line with
  | nil => exact absurd rfl hne
  | cons c cs =>
    have hl := congrArg List.length (Lexeme.splitCode_append (c :: cs))
    rw [List.length_append] at hl
    suffices 0 < (Lexeme.splitCode (c :: cs)).1.length by omega
    rw [Lexeme.splitCode]
    dsimp only
    split
    · next hc =>
      exfalso
      simp only [Lexeme.isQuote, Bool.or_eq_true, Bool.and_eq_true, beq_iff_eq] at hc
      rcases hc with (rfl | rfl) | ⟨rfl, hcs⟩
      · simp [opening] at h
      · simp [opening] at h
      · cases cs with
        | nil => simp at hcs
        | cons d ds =>
          simp only [List.head?_cons, Option.some.injEq] at hcs
          rcases hcs with rfl | rfl <;> simp [opening] at h
    · simp

theorem takeLine_some {lx : Lexer} {line : List Char} {p : Pages}
    (h : lx.takeLine = (some line, p)) :
    p.cost + line.length ≤ lx.backlog ∧ (line = [] → p.cost < lx.backlog) := by
  unfold takeLine at h
  split at h
  · have := Pages.cost_logical_some h
    simp only [backlog]
    exact ⟨by omega, fun _ => by omega⟩
  · next hr =>
    simp only [Prod.mk.injEq, Option.some.injEq] at h
    obtain ⟨rfl, rfl⟩ := h
    refine ⟨Nat.le_refl _, fun he => ?_⟩
    simp [he] at hr

/-- A line of code leaves less to split. -/
theorem backlog_code {lx : Lexer} {line : List Char} {p : Pages}
    (h : lx.takeLine = (some line, p)) (ho : opening line = .code) :
    p.cost + (Lexeme.splitCode line).2.length < lx.backlog := by
  obtain ⟨hle, hlt⟩ := takeLine_some h
  by_cases hne : line = []
  · have := hlt hne
    subst hne
    simpa [Lexeme.splitCode] using this
  · have := length_splitCode_lt ho hne
    omega

/-- A preprocessor line leaves less to split. -/
theorem backlog_directive {lx : Lexer} {line : List Char} {p : Pages}
    (h : lx.takeLine = (some line, p)) (ho : opening line = .directive) :
    p.cost < lx.backlog := by
  obtain ⟨hle, hlt⟩ := takeLine_some h
  cases line with
  | nil => exact hlt rfl
  | cons c cs => simp only [List.length_cons] at hle; omega

/-- The next token. -/
def next (lx : Lexer) : Option Token × Lexer :=
  match lx.pending with
  | t :: ts => (some t, { lx with pending := ts })
  | [] =>
    match h : lx.takeLine with
    | (none, p) => (none, { pages := p })
    | (some line, p) =>
      match ho : opening line with
      | .directive =>
        have := backlog_directive h ho
        next { pages := p, pending := Lexeme.directive line }
      | .string quote segment => readString quote [] segment p
      | .block segment => readComment [] segment p
      | .remark text => (some (.ofChars .comment text), { pages := p })
      | .code =>
        have := backlog_code h ho
        next { pages := p, pending := Lexeme.code (Lexeme.splitCode line).1,
               rest := (Lexeme.splitCode line).2 }
termination_by lx.backlog

section Equations

variable {lx : Lexer} {p q : Pages} {t : Token} {ts : List Token} {quote : Char}
  {text segment inside after line : List Char}

theorem readString_of_close (h : Lexeme.closeQuote? quote segment = some (inside, after)) :
    readString quote text segment p
      = (some (.ofChars .string (text ++ inside)), { pages := p, rest := after }) := by
  rw [readString, h]

theorem readString_of_end (h : Lexeme.closeQuote? quote segment = none)
    (hp : p.logical = (none, q)) : readString quote text segment p = (none, { pages := q }) := by
  rw [readString, h]
  dsimp only
  split <;> simp_all

theorem readString_of_line (h : Lexeme.closeQuote? quote segment = none)
    (hp : p.logical = (some line, q)) :
    readString quote text segment p = readString quote (text ++ segment) line q := by
  rw [readString, h]
  dsimp only
  split <;> simp_all

theorem readComment_of_close (h : cut? ['*', '/'] segment = some (inside, after)) :
    readComment text segment p
      = (some (.ofChars .comment ((if text.isEmpty then [] else text ++ ['\n']) ++ inside)),
        { pages := p, rest := after }) := by
  rw [readComment, h]

theorem readComment_of_end (h : cut? ['*', '/'] segment = none) (hp : p.logical = (none, q)) :
    readComment text segment p = (none, { pages := q }) := by
  rw [readComment, h]
  dsimp only
  split <;> simp_all

theorem readComment_of_line (h : cut? ['*', '/'] segment = none)
    (hp : p.logical = (some line, q)) :
    readComment text segment p
      = readComment ((if text.isEmpty then [] else text ++ ['\n']) ++ segment) line q := by
  rw [readComment, h]
  dsimp only
  split <;> simp_all

theorem next_of_pending (h : lx.pending = t :: ts) :
    lx.next = (some t, { lx with pending := ts }) := by
  rw [next, h]

theorem next_of_end (h : lx.pending = []) (hl : lx.takeLine = (none, p)) :
    lx.next = (none, { pages := p }) := by
  rw [next, h]
  dsimp only
  split <;> simp_all

theorem next_of_directive (h : lx.pending = []) (hl : lx.takeLine = (some line, p))
    (ho : opening line = .directive) :
    lx.next = next { pages := p, pending := Lexeme.directive line } := by
  rw [next, h]
  dsimp only
  split
  · simp_all
  · next hl' => rw [hl] at hl'; cases hl'; split <;> simp_all

theorem next_of_string (h : lx.pending = []) (hl : lx.takeLine = (some line, p))
    (ho : opening line = .string quote segment) : lx.next = readString quote [] segment p := by
  rw [next, h]
  dsimp only
  split
  · simp_all
  · next hl' => rw [hl] at hl'; cases hl'; split <;> simp_all

theorem next_of_block (h : lx.pending = []) (hl : lx.takeLine = (some line, p))
    (ho : opening line = .block segment) : lx.next = readComment [] segment p := by
  rw [next, h]
  dsimp only
  split
  · simp_all
  · next hl' => rw [hl] at hl'; cases hl'; split <;> simp_all

theorem next_of_remark (h : lx.pending = []) (hl : lx.takeLine = (some line, p))
    (ho : opening line = .remark text) :
    lx.next = (some (.ofChars .comment text), { pages := p }) := by
  rw [next, h]
  dsimp only
  split
  · simp_all
  · next hl' => rw [hl] at hl'; cases hl'; split <;> simp_all

theorem next_of_code (h : lx.pending = []) (hl : lx.takeLine = (some line, p))
    (ho : opening line = .code) :
    lx.next = next { pages := p, pending := Lexeme.code (Lexeme.splitCode line).1,
                     rest := (Lexeme.splitCode line).2 } := by
  rw [next, h]
  dsimp only
  split
  · simp_all
  · next hl' => rw [hl] at hl'; cases hl'; split <;> simp_all

end Equations

/-- Drops what is left of the current line. -/
def discardLine (lx : Lexer) : Lexer := { lx with pending := [], rest := [] }

/-- A bound on the number of tokens to come. -/
def size (lx : Lexer) : Nat := lx.pending.length + lx.backlog

instance : Feed Lexer where
  next := next
  line lx := lx.pages.turned
  discardLine := discardLine
  size := size

/-! ## The stream ends -/

theorem size_readString (quote : Char) (text segment : List Char) (p : Pages) :
    (readString quote text segment p).2.size ≤ p.cost + segment.length := by
  fun_induction readString quote text segment p with
  | case1 text segment p inside after h =>
    have := Lexeme.length_closeQuote? h
    simp only [size, backlog, List.length_nil]
    omega
  | case2 text segment p _ q h =>
    have := Pages.cost_logical_none h
    simp only [size, backlog, List.length_nil]
    omega
  | case3 text segment p _ line q h _ ih => omega

theorem size_readComment (text segment : List Char) (p : Pages) :
    (readComment text segment p).2.size ≤ p.cost + segment.length := by
  fun_induction readComment text segment p with
  | case1 _ segment p _ inside after h =>
    have := congrArg List.length (eq_of_cut? h)
    simp only [List.length_append, List.length_cons, List.length_nil] at this
    simp only [size, backlog, List.length_nil]
    omega
  | case2 _ segment p _ q h =>
    have := Pages.cost_logical_none h
    simp only [size, backlog, List.length_nil]
    omega
  | case3 _ segment p _ line q h _ ih => omega

theorem opening_string {line segment : List Char} {quote : Char}
    (h : opening line = .string quote segment) : segment.length < line.length := by
  unfold opening at h
  split at h <;> cases h <;> exact Nat.lt_succ_self _

theorem opening_block {line segment : List Char} (h : opening line = .block segment) :
    segment.length < line.length := by
  unfold opening at h
  split at h <;> cases h
  exact Nat.lt_add_of_pos_right (Nat.succ_pos 1)

theorem opening_directive {line : List Char} (h : opening line = .directive) :
    ∃ cs, line = '#' :: cs := by
  unfold opening at h
  split at h <;> cases h
  exact ⟨_, rfl⟩

/-- A token taken makes the lexer smaller; a vain look does not make it larger. -/
theorem size_next (lx : Lexer) :
    lx.next.2.size + lx.next.1.toList.length ≤ lx.size := by
  fun_induction next lx with
  | case1 lx t ts h => simp only [size, backlog, h, Option.toList, List.length_cons,
      List.length_nil]; omega
  | case2 lx hp p h =>
    unfold takeLine at h
    split at h
    · have := Pages.cost_logical_none h
      simp only [size, backlog, Option.toList, List.length_nil]
      omega
    · simp at h
  | case3 lx hp line p h ho hlt ih =>
    obtain ⟨hle, -⟩ := takeLine_some h
    obtain ⟨cs, rfl⟩ := opening_directive ho
    have := Lexeme.length_directive_le cs
    simp only [size, backlog, List.length_nil, List.length_cons] at *
    omega
  | case4 lx hp line p h quote segment ho =>
    obtain ⟨hle, -⟩ := takeLine_some h
    have := size_readString quote [] segment p
    have := opening_string ho
    have : (readString quote [] segment p).1.toList.length ≤ 1 := by
      cases (readString quote [] segment p).1 <;> simp
    simp only [size, backlog] at *
    omega
  | case5 lx hp line p h segment ho =>
    obtain ⟨hle, -⟩ := takeLine_some h
    have := size_readComment [] segment p
    have := opening_block ho
    have : (readComment [] segment p).1.toList.length ≤ 1 := by
      cases (readComment [] segment p).1 <;> simp
    simp only [size, backlog] at *
    omega
  | case6 lx hp line p h text ho =>
    obtain ⟨hle, hlt⟩ := takeLine_some h
    have : p.cost < lx.backlog := by
      cases line with
      | nil => exact hlt rfl
      | cons c cs => simp only [List.length_cons] at hle; omega
    simp only [size, backlog, Option.toList, List.length_cons, List.length_nil] at *
    omega
  | case7 lx hp line p h ho hlt ih =>
    obtain ⟨hle, -⟩ := takeLine_some h
    have hs := congrArg List.length (Lexeme.splitCode_append line)
    have := Lexeme.length_code_le (Lexeme.splitCode line).1
    simp only [size, backlog, List.length_append] at *
    omega

instance : LawfulFeed Lexer where
  size_next_some {s s' t} h := by
    have hs := size_next s
    rw [show s.next = (some t, s') from h] at hs
    exact hs
  size_next_none {s s'} h := by
    have hs := size_next s
    rw [show s.next = (none, s') from h] at hs
    exact hs
  size_discardLine s := by
    show 0 + (s.pages.cost + 0) ≤ s.pending.length + (s.pages.cost + s.rest.length)
    omega

end Lexer

end HeaderAtlas
