import HeaderAtlas.Proofs.Scanner.Follow
import HeaderAtlas.Token.Lexer

/-!
# Lexing with more lines to come

A lexer over some lines and a lexer over these and more give the same tokens until the
first one has no lines left. There is one way in which later lines reach back, a
backslash at the very end: the last of the lines must not have one (`Pages.Sealed`).

A string or comment that is still open at the end gives no token to the first lexer.
-/

namespace HeaderAtlas

open Text

/-! ## Backslashes at the end -/

theorem Text.dropTail?_backslash {cs : List Char} :
    dropTail? ['\\'] cs = none ↔ cs.getLast? ≠ some '\\' := by
  rw [dropTail?, Option.map_eq_none_iff, ← List.head?_reverse]
  cases cs.reverse with
  | nil => simp [dropStem?]
  | cons c r =>
    by_cases h : '\\' = c
    · subst h; simp [dropStem?]
    · simp [dropStem?, h, Ne.symm h]

namespace Pages

/-! ## Lines added at the end -/

theorem eq_of_lines {p q : Pages} (hl : p.lines = q.lines) (ht : p.turned = q.turned) : p = q := by
  obtain ⟨l, n, c, hc⟩ := p
  obtain ⟨l', n', c', hc'⟩ := q
  subst hl ht hc hc'
  rfl

/-- The pages with more lines after them. -/
def extend (p : Pages) (more : List (List Char)) : Pages where
  lines := p.lines ++ more
  turned := p.turned

/-- The last line, if there is one, is not continued. -/
def Sealed (p : Pages) : Prop := ∀ l, p.lines.getLast? = some l → dropTail? ['\\'] l = none

instance (p : Pages) : Decidable p.Sealed :=
  inferInstanceAs (Decidable (∀ l ∈ p.lines.getLast?, dropTail? ['\\'] l = none))

variable {p q : Pages} {l line : List Char} {more : List (List Char)}

theorem turn?_eq_none (h : p.turn? = none) : p.lines = [] := by
  obtain ⟨ls, n, c, hc⟩ := p
  cases ls with
  | nil => rfl
  | cons l ls => simp [turn?] at h

theorem turn?_of_nil (h : p.lines = []) : p.turn? = none := by
  obtain ⟨ls, n, c, hc⟩ := p
  subst h
  rfl

theorem turn?_eq_some (h : p.turn? = some (l, q)) :
    p.lines = l :: q.lines ∧ q.turned = p.turned + 1 := by
  obtain ⟨ls, n, c, hc⟩ := p
  cases ls with
  | nil => simp [turn?] at h
  | cons l ls =>
    simp only [turn?, Option.some.injEq, Prod.mk.injEq] at h
    obtain ⟨rfl, rfl⟩ := h
    exact ⟨rfl, rfl⟩

theorem turn?_of_cons {ls : List (List Char)} (h : p.lines = l :: ls) :
    p.turn? = some (l, { lines := ls, turned := p.turned + 1 }) := by
  obtain ⟨ls', n, c, hc⟩ := p
  subst h
  simp only [turn?, Option.some.injEq, Prod.mk.injEq, true_and]
  exact eq_of_lines rfl rfl

theorem turn?_extend (h : p.turn? = some (l, q)) (more : List (List Char)) :
    (p.extend more).turn? = some (l, q.extend more) := by
  obtain ⟨hl, ht⟩ := turn?_eq_some h
  have hcons : (p.extend more).lines = l :: (q.lines ++ more) := congrArg (· ++ more) hl
  rw [turn?_of_cons hcons]
  exact congrArg (fun q => some (l, q)) (eq_of_lines rfl ht.symm)

/-- The lines after the first are sealed too, and if there are none, the first is. -/
theorem Sealed.turn (hp : p.Sealed) (h : p.turn? = some (l, q)) :
    q.Sealed ∧ (q.lines = [] → dropTail? ['\\'] l = none) := by
  obtain ⟨hl, -⟩ := turn?_eq_some h
  refine ⟨fun m hm => hp m ?_, fun hq => hp l ?_⟩
  · rw [hl, List.getLast?_cons, hm]
    rfl
  · rw [hl, hq]
    rfl

/-- A logical line is made of the same lines, if the last one is not continued. -/
theorem join_extend (line : List Char) (p : Pages) (more : List (List Char)) (hp : p.Sealed)
    (hline : p.lines = [] → dropTail? ['\\'] line = none) :
    join line (p.extend more) = ((join line p).1, (join line p).2.extend more)
      ∧ (join line p).2.Sealed := by
  fun_induction join line p with
  | case1 line p h => exact ⟨join_of_whole h, hp⟩
  | case2 line p body hb ht =>
    rw [hline (turn?_eq_none ht)] at hb
    cases hb
  | case3 line p body hb q ht =>
    exact ⟨join_of_blank hb (turn?_extend ht more), (hp.turn ht).1⟩
  | case4 line p body hb c cs q ht _ ih =>
    -- A joined line ends as the line that was joined to it.
    obtain ⟨hq, hlast⟩ := hp.turn ht
    rw [join_of_line hb (turn?_extend ht more)]
    refine ih hq fun hnil => ?_
    rw [Text.dropTail?_backslash, List.getLast?_append, List.getLast?_cons, Option.some_or]
    have := Text.dropTail?_backslash.mp (hlast hnil)
    rwa [List.getLast?_cons] at this

theorem logical_extend_some (more : List (List Char)) (hp : p.Sealed)
    (h : p.logical = (some line, q)) :
    (p.extend more).logical = (some line, q.extend more) ∧ q.Sealed := by
  fun_induction logical p with
  | case1 p ht => cases h
  | case2 p r ht _ ih =>
    rw [logical_of_blank (turn?_extend ht more)]
    exact ih (hp.turn ht).1 h
  | case3 p c cs r ht l s hs =>
    cases h
    obtain ⟨hr, hlast⟩ := hp.turn ht
    obtain ⟨heq, hsealed⟩ := join_extend (c :: cs) r more hr hlast
    rw [logical_of_line (turn?_extend ht more), heq]
    rw [hs] at hsealed ⊢
    exact ⟨rfl, hsealed⟩

/-- Where there is no logical line, there is no line. -/
theorem logical_none (h : p.logical = (none, q)) : q.lines = [] := by
  fun_induction logical p with
  | case1 p ht => cases h; exact turn?_eq_none ht
  | case2 p r ht _ ih => exact ih h
  | case3 p c cs r ht l s hs => cases h

theorem logical_of_nil (h : p.lines = []) : p.logical = (none, p) :=
  logical_of_end (turn?_of_nil h)

end Pages

namespace Lexer

/-! ## Tokens -/

/-- The lexer with more lines after its own. -/
def extend (lx : Lexer) (more : List (List Char)) : Lexer :=
  { lx with pages := lx.pages.extend more }

/-- There is nothing left. -/
structure Dry (lx : Lexer) : Prop where
  lines : lx.pages.lines = []
  pending : lx.pending = []
  rest : lx.rest = []

variable {lx lx' : Lexer} {p : Pages} {t : Token}

theorem Dry.next (h : lx.Dry) : lx.next = (none, { pages := lx.pages }) := by
  refine next_of_end h.pending ?_
  rw [takeLine, h.rest]
  exact Pages.logical_of_nil h.lines

/-- A reader over the lines left gives the same token with more lines after them, or
else it has used them up. -/
def Extends (more : List (List Char)) (r r' : Option Token × Lexer) : Prop :=
  (∃ t lx, r = (some t, lx) ∧ r' = (some t, lx.extend more) ∧ lx.pages.Sealed)
    ∨ ∃ lx, r = (none, lx) ∧ lx.Dry

theorem readString_extend (more : List (List Char)) (quote : Char) (text segment : List Char)
    (p : Pages) (hp : p.Sealed) :
    Extends more (readString quote text segment p)
      (readString quote text segment (p.extend more)) := by
  fun_induction readString quote text segment p with
  | case1 text segment p inside after h =>
    exact .inl ⟨_, _, rfl, readString_of_close h, hp⟩
  | case2 text segment p h q hq => exact .inr ⟨_, rfl, Pages.logical_none hq, rfl, rfl⟩
  | case3 text segment p h line q hq _ ih =>
    obtain ⟨hq', hsealed⟩ := Pages.logical_extend_some more hp hq
    rw [readString_of_line h hq']
    exact ih hsealed

theorem readComment_extend (more : List (List Char)) (text segment : List Char)
    (p : Pages) (hp : p.Sealed) :
    Extends more (readComment text segment p) (readComment text segment (p.extend more)) := by
  fun_induction readComment text segment p with
  | case1 text segment p text' inside after h =>
    exact .inl ⟨_, _, rfl, readComment_of_close h, hp⟩
  | case2 text segment p h q hq => exact .inr ⟨_, rfl, Pages.logical_none hq, rfl, rfl⟩
  | case3 text segment p text' h line q hq _ ih =>
    obtain ⟨hq', hsealed⟩ := Pages.logical_extend_some more hp hq
    rw [readComment_of_line h hq']
    exact ih hsealed

theorem takeLine_extend {line : List Char} (more : List (List Char)) (hp : lx.pages.Sealed)
    (h : lx.takeLine = (some line, p)) :
    (lx.extend more).takeLine = (some line, p.extend more) ∧ p.Sealed := by
  unfold takeLine at h ⊢
  split at h
  · next hr =>
    rw [if_pos (show (lx.extend more).rest.isEmpty = true from hr)]
    exact Pages.logical_extend_some more hp h
  · next hr =>
    cases h
    exact ⟨if_neg hr, hp⟩

theorem takeLine_none (h : lx.takeLine = (none, p)) : p.lines = [] := by
  unfold takeLine at h
  split at h
  · exact Pages.logical_none h
  · cases h

/-- The next token is the same with more lines after those of the lexer. -/
theorem next_extend (more : List (List Char)) (lx : Lexer) (hp : lx.pages.Sealed) :
    Extends more lx.next (lx.extend more).next := by
  have hpending : ∀ {lx : Lexer}, lx.pending = [] → (lx.extend more).pending = [] := id
  fun_induction next lx with
  | case1 lx t ts h =>
    exact .inl ⟨t, _, rfl, next_of_pending (show (lx.extend more).pending = t :: ts from h), hp⟩
  | case2 lx h p hl => exact .inr ⟨_, rfl, takeLine_none hl, rfl, rfl⟩
  | case3 lx h line p hl ho _ ih =>
    obtain ⟨hl', hp'⟩ := takeLine_extend more hp hl
    rw [next_of_directive (hpending h) hl' ho]
    exact ih hp'
  | case4 lx h line p hl quote segment ho =>
    obtain ⟨hl', hp'⟩ := takeLine_extend more hp hl
    rw [next_of_string (hpending h) hl' ho]
    exact readString_extend more quote [] segment p hp'
  | case5 lx h line p hl segment ho =>
    obtain ⟨hl', hp'⟩ := takeLine_extend more hp hl
    rw [next_of_block (hpending h) hl' ho]
    exact readComment_extend more [] segment p hp'
  | case6 lx h line p hl text ho =>
    obtain ⟨hl', hp'⟩ := takeLine_extend more hp hl
    exact .inl ⟨_, _, rfl, next_of_remark (hpending h) hl' ho, hp'⟩
  | case7 lx h line p hl ho _ ih =>
    obtain ⟨hl', hp'⟩ := takeLine_extend more hp hl
    rw [next_of_code (hpending h) hl' ho]
    exact ih hp'

/-! ## The first token of a line -/

theorem readString_cls {quote : Char} {text segment : List Char}
    (h : readString quote text segment p = (some t, lx')) : t.cls = .string := by
  fun_induction readString quote text segment p with
  | case1 => cases h; rfl
  | case2 => cases h
  | case3 text segment p _ line q _ _ ih => exact ih h

theorem readComment_cls {text segment : List Char}
    (h : readComment text segment p = (some t, lx')) : t.cls = .comment := by
  fun_induction readComment text segment p with
  | case1 => cases h; rfl
  | case2 => cases h
  | case3 text segment p _ _ line q _ _ ih => exact ih h

/-- The first word of a line that starts with no blank starts as the line does. -/
theorem words_cons {c : Char} (hc : isBlank c = false) (cs : List Char) :
    ∃ w ws, Text.words (c :: cs) = (c :: w) :: ws := by
  rw [Text.words, Text.pieces_cons_of_neg cs hc]
  split
  · exact ⟨[], [], rfl⟩
  · next w ws h => exact ⟨w, ws.filter (!·.isEmpty), rfl⟩

/-- A preprocessor line starts with the word of a directive. -/
theorem directive_head {line : List Char} (h : opening line = .directive) :
    ∃ w ts, Lexeme.directive line = .ofChars .directive ('#' :: w) :: ts := by
  obtain ⟨cs, rfl⟩ := opening_directive h
  obtain ⟨w, ws, hw⟩ := words_cons (c := '#') (by decide) cs
  rw [Lexeme.directive, Lexeme.directiveWords]
  split
  · next v vs _ => exact ⟨v, _, rfl⟩
  · rw [hw]
    exact ⟨w, _, rfl⟩

theorem not_continues_hash (w : List Char) :
    (Token.ofChars .directive ('#' :: w)).continuesDirective = false := by
  simp [Token.continuesDirective, Token.ofChars, Text.startsWith, Text.dropStem?]

theorem not_continues_of_cls (h : t.cls ≠ .directive) : t.continuesDirective = false := by
  simp [Token.continuesDirective, h]

theorem codeToken_cls (c : Char) (cs : List Char) (h : (Lexeme.codeToken c cs).1 = some t) :
    t.cls ≠ .directive := by
  unfold Lexeme.codeToken at h
  split at h
  · cases h
  split at h
  · cases h; exact nofun
  split at h
  · split at h
    · cases h; exact nofun
    · split at h <;> cases h <;> exact nofun
    · cases h; exact nofun
  · cases h; exact nofun

theorem code_cls (cs : List Char) (ht : t ∈ Lexeme.code cs) : t.cls ≠ .directive := by
  fun_induction Lexeme.code cs with
  | case1 => cases ht
  | case2 c cs _ ih =>
    rcases List.mem_append.mp ht with h | h
    · exact codeToken_cls c cs (Option.mem_toList.mp h)
    · exact ih h

/-- A token that a lexer did not have at hand does not go on with a directive. -/
theorem next_fresh (lx : Lexer) (h : lx.next = (some t, lx'))
    (hp : ∀ u, lx.pending.head? = some u → u.continuesDirective = false) :
    t.continuesDirective = false := by
  fun_induction next lx with
  | case1 lx u us hu => cases h; exact hp t (by rw [hu]; rfl)
  | case2 => cases h
  | case3 lx _ line p hl ho _ ih =>
    -- The words of the line become pending, the first one starts with `#`.
    refine ih h fun u hu => ?_
    obtain ⟨w, ts, hw⟩ := directive_head ho
    rw [hw] at hu
    cases hu
    exact not_continues_hash w
  | case4 lx _ line p hl quote segment ho =>
    exact not_continues_of_cls (by rw [readString_cls h]; decide)
  | case5 lx _ line p hl segment ho =>
    exact not_continues_of_cls (by rw [readComment_cls h]; decide)
  | case6 => cases h; exact not_continues_of_cls (show TokenClass.comment ≠ .directive by decide)
  | case7 lx _ line p hl ho _ ih =>
    exact ih h fun u hu => not_continues_of_cls (code_cls _ (List.mem_of_mem_head? hu))

/-! ## The lexer of a text and that of a longer one -/

/-- A lexer is followed by the one with more lines. -/
theorem follows (more : List (List Char)) :
    Follows (fun a b : Lexer => a.pages.Sealed ∧ b = a.extend more) Lexer.Dry where
  next := by
    rintro a _ ⟨ha, rfl⟩
    rcases next_extend more a ha with ⟨t, lx, h, h', hs⟩ | ⟨lx, h, hdry⟩
    · exact .inl ⟨t, lx, lx.extend more, h, h', hs, rfl⟩
    · refine .inr ⟨lx, h, hdry, fun t b hb => next_fresh (a.extend more) hb fun u hu => ?_⟩
      -- A lexer with a token at hand would have given it.
      cases hpend : a.pending with
      | nil => rw [show (a.extend more).pending = [] from hpend] at hu; cases hu
      | cons v vs => exact absurd (h.symm.trans (next_of_pending hpend)) nofun
  line := by rintro a _ ⟨-, rfl⟩; rfl
  discardLine := by rintro a _ ⟨ha, rfl⟩; exact ⟨ha, rfl⟩
  dry_next h := ⟨_, h.next, h.lines, rfl, rfl⟩
  dry_discardLine h := ⟨h.lines, rfl, rfl⟩

/-- An empty line at the very end is left out of what stands after other lines too. -/
theorem dropEmpty_append {α : Type} [DecidableEq α] (xs : List (List α)) {ys : List (List α)}
    (hys : ys ≠ []) :
    (if (xs ++ ys).getLast? = some [] then (xs ++ ys).dropLast else xs ++ ys)
      = xs ++ if ys.getLast? = some [] then ys.dropLast else ys := by
  rw [List.getLast?_append, List.getLast?_eq_some_getLast hys, Option.some_or]
  split
  · exact List.dropLast_append_of_ne_nil hys
  · rfl

/-- After a line break, or at its very start, a text goes on with the lines of what is
added to it. -/
theorem ofText_append {text : String} (more : String)
    (h : ∀ c, text.toList.getLast? = some c → c = '\n') :
    ofText (text ++ more) = (ofText text).extend (Pages.ofText more).lines := by
  have hpages : Pages.ofText (text ++ more)
      = (Pages.ofText text).extend (Pages.ofText more).lines := by
    refine Pages.eq_of_lines ?_ rfl
    show _ = (Pages.ofText text).lines ++ (Pages.ofText more).lines
    simp only [Pages.ofText, String.toList_append, ← List.map_append]
    refine congrArg (List.map trim) ?_
    rcases List.eq_nil_or_concat text.toList with hnil | ⟨cs, c, hcs⟩
    · rw [hnil, List.nil_append, Text.lines, Text.lines, pieces_nil]
      rfl
    · rw [hcs, List.concat_eq_append] at h ⊢
      obtain rfl := h c List.getLast?_concat
      have hne := Text.pieces_ne_nil (· == '\n') more.toList
      rw [List.append_assoc, List.singleton_append, Text.lines, Text.lines,
        Text.pieces_append cs more.toList rfl, Text.pieces_append cs [] rfl,
        dropEmpty_append _ hne, dropEmpty_append _ (Text.pieces_ne_nil _ _), pieces_nil]
      rw [Text.lines, if_pos (show ([[]] : List (List Char)).getLast? = some [] from rfl)]
      simp
  rw [ofText, hpages]
  rfl

end Lexer

end HeaderAtlas
