import HeaderAtlas.Proofs.Lexer.Concatenation
import HeaderAtlas.Proofs.Scanner.Abreast

/-!
# Preprocessor lines that come to the same

The words of a preprocessor line come one after the other, and the filter carries out the
directives among them before it looks at the next line. So it does not matter which of two lines
stands after some others, if they come to the same where these end (`fork_of_lines`). The two may
be logical lines of different length. From the next line on, the lexers are the same but for the
number of lines that they have read.

If what is left of a line is dropped on the way, the lines after it are read from their start, and
a string or a comment that the dropped text opens is not open any more. So the two lines have to
come to the same for each line that may be dropped.
-/

namespace HeaderAtlas

open Text

namespace Lexer

variable {p : Pages} {T : List Token} {g : GrammarSettings}

theorem next_pending (q : Pages) (t : Token) (T : List Token) :
    Feed.next ({ pages := q, pending := t :: T } : Lexer)
      = (some t, ({ pages := q, pending := T } : Lexer)) :=
  next_of_pending rfl

theorem directive_cls {line : List Char} {t : Token} (h : t ∈ Lexeme.directive line) :
    t.cls = .directive := by
  obtain ⟨w, -, rfl⟩ := List.mem_map.mp h
  rfl

/-! ## The words of a line -/

theorem words_pending (p : Pages) (hT : ∀ t ∈ T, t.cls = .directive) :
    Words T ({ pages := p, pending := T } : Lexer) { pages := p } := by
  induction T with
  | nil => exact .nil rfl fun t ht => next_fresh { pages := p } (Prod.ext ht rfl) nofun
  | cons t T ih =>
    exact .cons rfl (hT t List.mem_cons_self) (next_pending p t T)
      (ih fun u hu => hT u (List.mem_cons_of_mem t hu))

/-- The words of the first logical line, if that is a preprocessor line, and the lines after
it. -/
def directiveLine? (lines : List (List Char)) : Option (List Token × List (List Char)) :=
  match Pages.logical { lines } with
  | (some line, p) =>
    if opening line = .directive then some (Lexeme.directive line, p.lines) else none
  | _ => none

theorem next_of_directiveLine {lines rest : List (List Char)} {W : List Token}
    (h : directiveLine? lines = some (W, rest)) (k : Nat) :
    ∃ t T p, W = t :: T ∧ t.opensDirective = true ∧ p.lines = rest
      ∧ next { pages := { lines, turned := k } } = (some t, { pages := p, pending := T })
      ∧ Words T ({ pages := p, pending := T } : Lexer) { pages := p } := by
  unfold directiveLine? at h
  split at h
  · next line p hlogical =>
    split at h
    · next ho =>
      cases h
      obtain ⟨w, T, hW⟩ := directive_head ho
      have htake : takeLine { pages := { lines, turned := k } } = (some line, p.shift k) := by
        have hshift := Pages.logical_shift k { lines }
        rw [hlogical] at hshift
        refine Eq.trans ?_ hshift
        exact congrArg Pages.logical (Pages.eq_of_lines rfl (Nat.zero_add k).symm)
      refine ⟨_, T, p.shift k, hW, ?_, rfl, ?_, words_pending _ fun t ht => ?_⟩
      · simp [Token.opensDirective, Token.ofChars, startsWith, dropStem?]
      · rw [next_of_directive rfl htake ho]
        exact next_of_pending hW
      · exact directive_cls (hW ▸ List.mem_cons_of_mem _ ht)
    · cases h
  · cases h

/-! ## Lexers that have read different lines -/

/-- The lexers are the same but for how many lines they have read. -/
def SameRest (a b : Lexer) : Prop := ∃ (c : Lexer) (j k : Nat), a = c.shift j ∧ b = c.shift k

theorem SameRest.of_lines {p q : Pages} (h : p.lines = q.lines) :
    SameRest { pages := p } { pages := q } := by
  have hshift : ∀ {r : Pages}, r.lines = q.lines →
      ({ pages := r } : Lexer) = shift r.turned { pages := { lines := q.lines } } := by
    intro r hr
    exact congrArg (Lexer.mk · [] []) (Pages.eq_of_lines hr (Nat.zero_add _).symm)
  exact ⟨_, _, _, hshift h, hshift rfl⟩

theorem SameRest.next {a b : Lexer} (h : SameRest a b) :
    a.next.1 = b.next.1 ∧ SameRest a.next.2 b.next.2 := by
  obtain ⟨c, j, k, rfl, rfl⟩ := h
  rw [next_shift, next_shift]
  exact ⟨rfl, _, j, k, rfl, rfl⟩

theorem SameRest.discardLine {a b : Lexer} (h : SameRest a b) :
    SameRest a.discardLine b.discardLine := by
  obtain ⟨c, j, k, rfl, rfl⟩ := h
  exact ⟨c.discardLine, j, k, rfl, rfl⟩

/-! ## Lines in front -/

/-- A lexer at the start of the lines after the first `l` ones. -/
def fromLine (lines : List (List Char)) (l : Nat) : Lexer :=
  { pages := { lines := lines.drop l, turned := l } }

/-- Where the lines end, no string or comment is open, and two lines with the words `W` and `W'`
come to the same. -/
structure Rests (g : GrammarSettings) (W W' : List Token) (q : Debt) (lx : Lexer) : Prop where
  closed : lx.endsOpen = false
  hears : g.hears ((Feed.tokens lx).foldl g.owe q) W = g.hears ((Feed.tokens lx).foldl g.owe q) W'

/-- The lexers are at the same point of `lines`, of which the first has `more` to come after them
and the second `more'`. -/
inductive Approach (g : GrammarSettings) (lines more more' : List (List Char)) (W W' : List Token) :
    Debt → Lexer → Lexer → Prop
  | intro {q : Debt} {lx : Lexer} (hsealed : lx.pages.Sealed)
      (hread : ({ lines } : Pages).LeadsTo lx.pages) (hrests : Rests g W W' q lx) :
      Approach g lines more more' W W' q (lx.extend more) (lx.extend more')

variable {lines more more' rest : List (List Char)} {W W' : List Token} {q : Debt} {a b : Lexer}

theorem Rests.of_next {lx lx' : Lexer} {t : Token} (h : Rests g W W' q lx)
    (hnext : lx.next = (some t, lx')) : Rests g W W' (g.owe q t) lx' := by
  have hsome : (Feed.next lx).1 = some t := congrArg Prod.fst hnext
  have hrest : (Feed.next lx).2 = lx' := congrArg Prod.snd hnext
  obtain ⟨hclosed, hears⟩ := h
  rw [endsOpen, Feed.drained_of_some hsome, hrest] at hclosed
  rw [Feed.tokens_of_some hsome, hrest] at hears
  exact ⟨hclosed, hears⟩

theorem Approach.next (hmore : directiveLine? more = some (W, rest))
    (hmore' : directiveLine? more' = some (W', rest))
    (h : Approach g lines more more' W W' q a b) :
    (∃ t a' b', a.next = (some t, a') ∧ b.next = (some t, b')
        ∧ Approach g lines more more' W W' (g.owe q t) a' b')
      ∨ Meets g SameRest q a b := by
  obtain ⟨hsealed, hread, hrests⟩ := h
  rename_i lx
  have hextend : ∀ {t lx'}, lx.next = (some t, lx') → ∀ more,
      (lx.extend more).next = (some t, lx'.extend more) ∧ lx'.pages.Sealed := by
    intro t lx' hnext more
    rcases next_extend more lx hsealed with ⟨u, lx₂, hu, hu', hs⟩ | ⟨lx₂, hnone, -⟩
    · cases hnext.symm.trans hu
      exact ⟨hu', hs⟩
    · cases hnext.symm.trans hnone
  cases hnext : lx.next with
  | mk t lx' =>
    cases t with
    | some t =>
      obtain ⟨ha, hsealed'⟩ := hextend hnext more
      refine .inl ⟨t, _, _, ha, (hextend hnext more').1, .intro hsealed' ?_ (hrests.of_next hnext)⟩
      have hleads := leadsTo_next lx
      rw [hnext] at hleads
      exact hread.trans hleads
    | none =>
      have hnone : (Feed.next lx).1 = none := congrArg Prod.fst hnext
      obtain ⟨hclosed, hears⟩ := hrests
      rw [endsOpen, Feed.drained_of_none hnone] at hclosed
      rw [Feed.tokens_of_none hnone, List.foldl_nil] at hears
      obtain ⟨t, T, p, rfl, ht, hp, ha, hT⟩ := next_of_directiveLine hmore lx.pages.count
      obtain ⟨u, U, p', rfl, hu, hp', hb, hU⟩ := next_of_directiveLine hmore' lx.pages.count
      exact .inr ⟨ht, hu, (next_extend_of_none more lx hsealed hnone hclosed).trans ha, hT,
        (next_extend_of_none more' lx hsealed hnone hclosed).trans hb, hU, hears,
        .of_lines (hp.trans hp'.symm)⟩

/-- **Lines that come to the same may stand for each other** after others, if they do so after
each line of these that may be dropped. -/
theorem fork_of_lines {lost : Nat → Prop} (hmore : directiveLine? more = some (W, rest))
    (hmore' : directiveLine? more' = some (W', rest))
    (hlost : ∀ l ≤ lines.length, lost l → Rests g W W' (.tokens 0) (fromLine lines l)) :
    Fork g lost (Approach g lines more more' W W') SameRest where
  next h := h.next hmore hmore'
  drop := by
    rintro q a b ⟨hsealed, ⟨read, hlines, hturned⟩, -⟩ hline
    rename_i lx
    have hl : lx.pages.turned = read.length := hturned.trans (Nat.zero_add _)
    have hlines : lines = read ++ lx.pages.lines := hlines
    have hafter : fromLine lines lx.pages.turned = { pages := lx.pages } := by
      refine congrArg (Lexer.mk · [] []) (Pages.eq_of_lines ?_ rfl)
      show lines.drop lx.pages.turned = lx.pages.lines
      rw [hl, hlines, List.drop_left]
    have hle : lx.pages.turned ≤ lines.length := by
      rw [hl, hlines, List.length_append]
      omega
    have hrests := hlost _ hle hline
    rw [hafter] at hrests
    have hsealed' : ({ pages := lx.pages } : Lexer).pages.Sealed := hsealed
    exact .intro hsealed' ⟨read, hlines, hturned⟩ hrests
  next_after h := h.next
  drop_after h := h.discardLine

end Lexer

end HeaderAtlas
