import HeaderAtlas.Proofs.Text.Blanks
import HeaderAtlas.Token.Lexer

/-!
# The shapes of tokens

Three classes of characters overlap in deciding how code is split: what separates, what makes up
operators, and what ends a name. The dot is where they differ, since it starts an operator and
does not end a name. Every character of a code falls to some rule, so each token has the shape of
its class (`Lexeme.shaped_of_mem_code`), and nothing is lost but the blanks between tokens
(`Lexeme.chars_code`).

A lexer hands out what it has split before, so the shapes are an invariant of its pending
tokens, also when lines are dropped in between (`Lexer.Reached`).
-/

namespace HeaderAtlas

open Text

/-! ## Shapes -/

namespace Token

/-- Separators. -/
def separators : List Char := "()\x7b\x7d:;,[]".toList

/-- What operators start with. -/
def operators : List Char := "+-*><=/%&!|.".toList

/-- What the second character of an operator may be. -/
def operatorTails : List Char := "+-*><=/%&!|".toList

/-- What does not stand in a name. -/
def nameStops : List Char := " \t()\x7b\x7d:;,+-*/%&!|[]=><".toList

/-- The token has the shape of its class. Strings and comments may have any text. -/
def Shaped (t : Token) : Prop :=
  match t.cls with
  | .separator => ∃ c ∈ separators, t.text = String.ofList [c]
  | .operator =>
    ∃ c ∈ operators, t.text = String.ofList [c]
      ∨ ∃ d ∈ operatorTails, t.text = String.ofList [c, d]
  | .name =>
    t.text ≠ "" ∧ (t.text = "..." ∨ ∀ c ∈ t.text.toList, c ≠ '"' ∧ c ≠ '\'' ∧ c ∉ nameStops)
  | .directive => t.text ≠ "" ∧ ∀ c ∈ t.text.toList, isBlank c = false
  | .string | .comment => True

end Token

namespace Lexeme

theorem isSeparator_iff {c : Char} : isSeparator c = true ↔ c ∈ Token.separators := by
  have hlist : Token.separators
      = ['(', ')', '\x7b', '\x7d', ':', ';', ',', '[', ']'] := by decide
  rw [hlist, isSeparator, List.contains_iff_mem]

theorem isOperatorTail_iff {c : Char} : isOperatorTail c = true ↔ c ∈ Token.operatorTails := by
  have hlist : Token.operatorTails
      = ['+', '-', '*', '>', '<', '=', '/', '%', '&', '!', '|'] := by decide
  rw [hlist, isOperatorTail, List.contains_iff_mem]

/-- A dot starts an operator, and does nothing else that operator characters do. -/
theorem isOperator_iff {c : Char} : isOperator c = true ↔ c ∈ Token.operators := by
  have hlist : Token.operators = Token.operatorTails ++ ['.'] := by decide
  rw [hlist, List.mem_append, List.mem_singleton, ← isOperatorTail_iff, isOperator,
    Bool.or_eq_true, beq_iff_eq]

/-- What ends a name is a blank between tokens, a separator, or what may be second in an
operator. -/
theorem endsName_iff {c : Char} : endsName c = true ↔ c ∈ Token.nameStops := by
  have hstops : Token.nameStops.Perm ([' ', '\t'] ++ Token.separators ++ Token.operatorTails) := by
    decide
  rw [hstops.mem_iff, List.mem_append, List.mem_append, ← isSeparator_iff, ← isOperatorTail_iff,
    endsName, Bool.or_eq_true, Bool.or_eq_true]
  simp [isGap]

/-! ## Code -/

section Code

variable {c : Char} {cs rest : List Char} {t : Token}

/-- Before the first quote there is none. -/
theorem isQuote_of_mem_splitCode (h : c ∈ (splitCode cs).1) : isQuote c = false := by
  induction cs with
  | nil => cases h
  | cons d ds ih =>
    rw [splitCode] at h
    dsimp only at h
    split at h
    · cases h
    · next hd =>
      rcases List.mem_cons.mp h with rfl | h
      · simp only [Bool.or_eq_true, not_or, Bool.not_eq_true] at hd
        exact hd.1
      · exact ih h

/-- A name is not empty: the character that it starts with does not end it. -/
theorem shaped_name (hc : endsName c = false) (hquote : ∀ d ∈ c :: cs, isQuote d = false) :
    (Token.ofChars .name (c :: cs.takeWhile (!endsName ·))).Shaped := by
  refine ⟨fun hempty => ?_, .inr fun d hd => ?_⟩
  · have := congrArg String.toList hempty
    simp [Token.ofChars] at this
  · have hmem : d = c ∨ d ∈ cs.takeWhile (!endsName ·) := by
      simpa [Token.ofChars] using hd
    have hends : endsName d = false := by
      rcases hmem with rfl | hd
      · exact hc
      · simpa using List.all_eq_true.mp List.all_takeWhile d hd
    have hin : d ∈ c :: cs := by
      rcases hmem with rfl | hd
      · exact List.mem_cons_self
      · exact List.mem_cons_of_mem c ((List.takeWhile_sublist _).mem hd)
    have hd := hquote d hin
    simp only [isQuote, Bool.or_eq_false_iff, beq_eq_false_iff_ne] at hd
    exact ⟨hd.1, hd.2, fun hstop => by simp [endsName_iff.mpr hstop] at hends⟩

/-- The first token of some code, if it does not start with a blank. -/
theorem shaped_codeToken (hquote : ∀ d ∈ c :: cs, isQuote d = false)
    (h : (codeToken c cs).1 = some t) : t.Shaped := by
  unfold codeToken at h
  split at h
  · cases h
  · next hgap =>
    split at h
    · next hsep =>
      cases h
      exact ⟨c, isSeparator_iff.mp hsep, rfl⟩
    · next hsep =>
      split at h
      · next hop =>
        have hop := isOperator_iff.mp hop
        split at h
        · cases h
          exact ⟨by decide, .inl rfl⟩
        · split at h
          · next htail =>
            cases h
            exact ⟨_, hop, .inr ⟨_, isOperatorTail_iff.mp htail, rfl⟩⟩
          · cases h
            exact ⟨_, hop, .inl rfl⟩
        · cases h
          exact ⟨_, hop, .inl rfl⟩
      · next hop =>
        -- What is left does not end a name, since only operators may be second in one.
        cases h
        simp only [isOperator, Bool.or_eq_true, not_or, Bool.not_eq_true] at hop
        refine shaped_name ?_ hquote
        simp [endsName, hgap, hsep, hop.1]

/-- The rest of the code stands at its end. -/
theorem suffix_codeToken (c : Char) (cs : List Char) : (codeToken c cs).2 <:+ cs := by
  unfold codeToken
  split
  · exact List.suffix_rfl
  · split
    · exact List.suffix_rfl
    · split
      · split
        · exact ⟨['.', '.'], rfl⟩
        · split
          · exact List.suffix_cons _ _
          · exact List.suffix_rfl
        · exact List.suffix_rfl
      · exact List.dropWhile_suffix _

/-- Each token of some code without quotes has the shape of its class. -/
theorem shaped_of_mem_code (hquote : ∀ d ∈ cs, isQuote d = false) (h : t ∈ code cs) :
    t.Shaped := by
  fun_induction code cs with
  | case1 => cases h
  | case2 c cs _ ih =>
    rcases List.mem_append.mp h with h | h
    · exact shaped_codeToken hquote (Option.mem_toList.mp h)
    · refine ih (fun d hd => hquote d (List.mem_cons_of_mem c ?_)) h
      exact (suffix_codeToken c cs).mem hd

theorem isGap_of_not_endsName (h : endsName c = false) : isGap c = false := by
  simp only [endsName, Bool.or_eq_false_iff] at h
  exact h.1.1

theorem isGap_of_isOperatorTail (h : isOperatorTail c = true) : isGap c = false := by
  cases hgap : isGap c with
  | false => rfl
  | true =>
    simp only [isGap, Bool.or_eq_true, beq_iff_eq] at hgap
    rcases hgap with rfl | rfl <;> cases h

/-- What the first token takes, and what is left after it. -/
theorem chars_codeToken (c : Char) (cs : List Char) :
    (codeToken c cs).1.toList.flatMap (·.text.toList) ++ (codeToken c cs).2.filter (!isGap ·)
      = (c :: cs).filter (!isGap ·) := by
  unfold codeToken
  split
  · next hgap => simp [hgap]
  · next hgap =>
    split
    · simp [Token.ofChars, hgap]
    · split
      · split
        · simp [Token.ofChars, isGap]
        · split
          · next htail => simp [Token.ofChars, hgap, isGap_of_isOperatorTail htail]
          · simp [Token.ofChars, hgap]
        · simp [Token.ofChars, hgap]
      · have hname : (cs.takeWhile (!endsName ·)).filter (!isGap ·)
            = cs.takeWhile (!endsName ·) := by
          refine List.filter_eq_self.mpr fun d hd => ?_
          have hends := List.all_eq_true.mp List.all_takeWhile d hd
          rw [isGap_of_not_endsName (by simpa using hends)]
          rfl
        calc _ = c :: (cs.takeWhile (!endsName ·)
              ++ (cs.dropWhile (!endsName ·)).filter (!isGap ·)) := by simp [Token.ofChars]
          _ = c :: cs.filter (!isGap ·) := by
            rw [← hname, ← List.filter_append, List.takeWhile_append_dropWhile]
          _ = (c :: cs).filter (!isGap ·) := by simp [hgap]

/-- The tokens of some code are the code, but for the blanks between them. -/
theorem chars_code (cs : List Char) :
    (code cs).flatMap (·.text.toList) = cs.filter (!isGap ·) := by
  fun_induction code cs with
  | case1 => rfl
  | case2 c cs _ ih => rw [List.flatMap_append, ih, chars_codeToken]

end Code

/-! ## Preprocessor lines -/

/-- A `#` that joins the word after it makes no blank and no empty word. -/
theorem solid_of_mem_directiveWords {line w : List Char} (h : w ∈ directiveWords line) :
    w ≠ [] ∧ ∀ c ∈ w, isBlank c = false := by
  rw [directiveWords] at h
  split at h
  · next v vs hwords =>
    have hsolid : ∀ u ∈ words line, u ≠ [] ∧ ∀ c ∈ u, isBlank c = false :=
      fun u => solid_of_mem_words
    rw [hwords] at hsolid
    rcases List.mem_cons.mp h with rfl | h
    · refine ⟨List.cons_ne_nil _ _, List.forall_mem_cons.mpr ⟨by decide, ?_⟩⟩
      exact (hsolid v (by simp)).2
    · exact hsolid w (by simp [h])
  · exact solid_of_mem_words h

theorem shaped_of_mem_directive {line : List Char} {t : Token} (h : t ∈ directive line) :
    t.Shaped := by
  obtain ⟨w, hw, rfl⟩ := List.mem_map.mp h
  obtain ⟨hne, hsolid⟩ := solid_of_mem_directiveWords hw
  refine ⟨fun hempty => hne ?_, ?_⟩
  · simpa [Token.ofChars] using congrArg String.toList hempty
  · simpa [Token.ofChars] using hsolid

end Lexeme

/-! ## Lexers -/

namespace Lexer

/-- The lexer has come this far in a file: some tokens were taken from it, and some lines
dropped. -/
inductive Reached (bytes : List UInt8) : Lexer → Prop
  | start : Reached bytes (ofBytes bytes)
  | next {lx : Lexer} (before : Reached bytes lx) : Reached bytes lx.next.2
  | discard {lx : Lexer} (before : Reached bytes lx) : Reached bytes lx.discardLine

theorem shaped_readString {quote : Char} {text segment : List Char} {p : Pages} :
    (∀ t, (readString quote text segment p).1 = some t → t.Shaped)
      ∧ (readString quote text segment p).2.pending = [] := by
  fun_induction readString quote text segment p with
  | case1 =>
    refine ⟨fun t ht => ?_, rfl⟩
    cases ht
    trivial
  | case2 =>
    refine ⟨fun t ht => ?_, rfl⟩
    cases ht
  | case3 text segment p _ line q _ _ ih => exact ih

theorem shaped_readComment {text segment : List Char} {p : Pages} :
    (∀ t, (readComment text segment p).1 = some t → t.Shaped)
      ∧ (readComment text segment p).2.pending = [] := by
  fun_induction readComment text segment p with
  | case1 =>
    refine ⟨fun t ht => ?_, rfl⟩
    cases ht
    trivial
  | case2 =>
    refine ⟨fun t ht => ?_, rfl⟩
    cases ht
  | case3 text segment p _ _ line q _ _ ih => exact ih

/-- A token that is handed out has its shape, and those at hand keep theirs. -/
theorem shaped_next {lx : Lexer} (h : ∀ t ∈ lx.pending, t.Shaped) :
    (∀ t, lx.next.1 = some t → t.Shaped) ∧ ∀ t ∈ lx.next.2.pending, t.Shaped := by
  fun_induction next lx with
  | case1 lx t ts hp =>
    rw [hp, List.forall_mem_cons] at h
    refine ⟨fun u hu => ?_, h.2⟩
    cases hu
    exact h.1
  | case2 =>
    refine ⟨fun t ht => ?_, List.forall_mem_nil _⟩
    cases ht
  | case3 lx _ line p hl ho _ ih => exact ih fun t => Lexeme.shaped_of_mem_directive
  | case4 lx _ line p hl quote segment ho =>
    obtain ⟨htoken, hpending⟩ := @shaped_readString quote [] segment p
    exact ⟨htoken, hpending ▸ List.forall_mem_nil _⟩
  | case5 lx _ line p hl segment ho =>
    obtain ⟨htoken, hpending⟩ := @shaped_readComment [] segment p
    exact ⟨htoken, hpending ▸ List.forall_mem_nil _⟩
  | case6 =>
    refine ⟨fun t ht => ?_, List.forall_mem_nil _⟩
    cases ht
    trivial
  | case7 lx _ line p hl ho _ ih =>
    exact ih fun t => Lexeme.shaped_of_mem_code fun c => Lexeme.isQuote_of_mem_splitCode

theorem Reached.shaped {bytes : List UInt8} {lx : Lexer} (h : Reached bytes lx) :
    ∀ t ∈ lx.pending, t.Shaped := by
  induction h with
  | start => exact List.forall_mem_nil _
  | next before ih => exact (shaped_next ih).2
  | discard before ih => exact List.forall_mem_nil _

/-- **Tokens are well shaped, and no code is lost.** Each token that a lexer hands out over a
file of bytes has the shape of its class. And the tokens of any code, put together again, are
that code without its blanks and tabs. -/
theorem shaped_and_whole (bytes : List UInt8) :
    (∀ lx, Reached bytes lx → ∀ t, lx.next.1 = some t → t.Shaped)
      ∧ ∀ cs, (Lexeme.code cs).flatMap (·.text.toList) = cs.filter fun c => c ≠ ' ' ∧ c ≠ '\t' := by
  refine ⟨fun lx h => (shaped_next h.shaped).1, fun cs => ?_⟩
  rw [Lexeme.chars_code]
  refine List.filter_congr fun c _ => ?_
  simp [isGap, Bool.beq_eq_decide_eq]

/-- A directive, and a call with a dotted name, an arrow and an ellipsis. -/
def dottedCall : List UInt8 := "# if X\na.b->f(...);".toUTF8.toList

/-- After the directive is dropped, the second token is an arrow. -/
theorem shaped_of_dottedCall :
    Reached dottedCall (ofBytes dottedCall).next.2.discardLine.next.2
      ∧ (ofBytes dottedCall).next.2.discardLine.next.2.next.1 = some ⟨.operator, "->"⟩
      ∧ (∃ c ∈ Token.operators, "->" = String.ofList [c]
        ∨ ∃ d ∈ Token.operatorTails, "->" = String.ofList [c, d])
      ∧ (Lexeme.code "a.b ->f(\t...);".toList).flatMap (·.text.toList) = "a.b->f(...);".toList := by
  have hreached : Reached dottedCall (ofBytes dottedCall).next.2.discardLine.next.2 :=
    .next (.discard (.next .start))
  have htoken : (ofBytes dottedCall).next.2.discardLine.next.2.next.1
      = some ⟨.operator, "->"⟩ := by decide +kernel
  obtain ⟨hshaped, hwhole⟩ := shaped_and_whole dottedCall
  exact ⟨hreached, htoken, hshaped _ hreached _ htoken, (hwhole _).trans (by decide +kernel)⟩

end Lexer

end HeaderAtlas
