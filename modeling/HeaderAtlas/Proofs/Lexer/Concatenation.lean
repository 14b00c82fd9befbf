import HeaderAtlas.Proofs.Lexer.Listing

/-!
# Lexing one text after another

A lexer carries state from line to line: tokens it has at hand, the rest of a line, a line
that goes on, a string or a comment that is open. At the end of a text all of it is gone,
unless the text breaks off in the middle: its last line has no line feed or ends in a
backslash, or a string or a comment is never closed. A lexer that comes to the end of such a
whole text is then as good as a lexer at the start of what follows, except that it has counted
the lines before.

So the tokens of two texts, one after the other, are those of the first and those of the
second, and the lines of the second are counted on (`Lexer.report_append`).
-/

namespace HeaderAtlas

open Text

/-! ## What a feed reports -/

namespace Feed

variable {σ : Type} [Feed σ] [LawfulFeed σ]

/-- The tokens that a feed gives, each with the line being read right after it. -/
def report (s : σ) : List (Token × Nat) :=
  match h : Feed.next s with
  | (none, _) => []
  | (some t, s') =>
    have := LawfulFeed.size_next_some h
    (t, Feed.line s') :: report s'
termination_by Feed.size s

/-- The feed after its last token. -/
def drained (s : σ) : σ :=
  match h : Feed.next s with
  | (none, _) => s
  | (some _, s') =>
    have := LawfulFeed.size_next_some h
    drained s'
termination_by Feed.size s

/-- The line being read once the feed has been found to have no more tokens. -/
def endLine (s : σ) : Nat := Feed.line (Feed.next (drained s)).2

variable {s : σ} {t : Token}

theorem report_of_none (h : (Feed.next s).1 = none) : report s = [] := by
  rw [report]
  split
  · rfl
  · next h' => rw [h'] at h; cases h

theorem report_of_some (h : (Feed.next s).1 = some t) :
    report s = (t, Feed.line (Feed.next s).2) :: report (Feed.next s).2 := by
  rw [report]
  split
  · next h' => rw [h'] at h; cases h
  · next u s' h' =>
    obtain rfl : u = t := Option.some.inj ((congrArg Prod.fst h').symm.trans h)
    exact congrArg (fun s' => (u, Feed.line s') :: report s') (congrArg Prod.snd h').symm

theorem drained_of_none (h : (Feed.next s).1 = none) : drained s = s := by
  rw [drained]
  split
  · rfl
  · next h' => rw [h'] at h; cases h

theorem drained_of_some (h : (Feed.next s).1 = some t) : drained s = drained (Feed.next s).2 := by
  rw [drained]
  split
  · next h' => rw [h'] at h; cases h
  · next u s' h' => exact congrArg drained (congrArg Prod.snd h').symm

theorem endLine_of_some (h : (Feed.next s).1 = some t) : endLine s = endLine (Feed.next s).2 := by
  rw [endLine, endLine, drained_of_some h]

theorem endLine_of_none (h : (Feed.next s).1 = none) :
    endLine s = Feed.line (Feed.next s).2 := by
  rw [endLine, drained_of_none h]

/-- A report is about the tokens of the feed. -/
theorem map_fst_report (s : σ) : (report s).map Prod.fst = tokens s := by
  fun_induction tokens s with
  | case1 s s' h => rw [report_of_none (by rw [h])]; rfl
  | case2 s t s' h _ ih =>
    rw [report_of_some (t := t) (by rw [h]), h, List.map_cons]
    exact congrArg (t :: ·) ih

/-- Feeds that give the same next report the same. -/
theorem report_congr {s s' : σ} (h : Feed.next s = Feed.next s') :
    report s = report s' ∧ endLine s = endLine s' := by
  cases hs : (Feed.next s).1 with
  | none =>
    have hs' : (Feed.next s').1 = none := by rw [← h]; exact hs
    exact ⟨by rw [report_of_none hs, report_of_none hs'],
      by rw [endLine_of_none hs, endLine_of_none hs', h]⟩
  | some t =>
    have hs' : (Feed.next s').1 = some t := by rw [← h]; exact hs
    exact ⟨by rw [report_of_some hs, report_of_some hs', h],
      by rw [endLine_of_some hs, endLine_of_some hs', h]⟩

end Feed

/-! ## Lines are only counted -/

namespace Pages

/-- The same lines after `k` more have been read. -/
def shift (k : Nat) (p : Pages) : Pages where
  lines := p.lines
  turned := p.turned + k

/-- How many lines there are, those that have been read included. -/
def count (p : Pages) : Nat := p.turned + p.lines.length

variable {p q : Pages} {l line : List Char}

theorem turn?_shift (k : Nat) (h : p.turn? = some (l, q)) :
    (p.shift k).turn? = some (l, q.shift k) := by
  obtain ⟨hl, ht⟩ := turn?_eq_some h
  rw [turn?_of_cons (p := p.shift k) hl]
  refine congrArg (fun q => some (l, q)) (eq_of_lines rfl ?_)
  show p.turned + k + 1 = q.turned + k
  omega

theorem turn?_shift_none (k : Nat) (h : p.turn? = none) : (p.shift k).turn? = none :=
  turn?_of_nil (p := p.shift k) (turn?_eq_none (p := p) h)

theorem join_shift (k : Nat) (line : List Char) (p : Pages) :
    join line (p.shift k) = ((join line p).1, (join line p).2.shift k) := by
  fun_induction join line p with
  | case1 line p h => exact join_of_whole h
  | case2 line p body hb ht => exact join_of_end hb (turn?_shift_none k ht)
  | case3 line p body hb q ht => exact join_of_blank hb (turn?_shift k ht)
  | case4 line p body hb c cs q ht _ ih => rw [join_of_line hb (turn?_shift k ht), ih]

theorem logical_shift (k : Nat) (p : Pages) :
    (p.shift k).logical = (p.logical.1, p.logical.2.shift k) := by
  fun_induction logical p with
  | case1 p ht => exact logical_of_end (turn?_shift_none k ht)
  | case2 p q ht _ ih => rw [logical_of_blank (turn?_shift k ht), ih]
  | case3 p c cs q ht l r hr => rw [logical_of_line (turn?_shift k ht), join_shift, hr]

/-! Lines are read in order, and each of them is counted. -/

/-- Some of the lines have been read, and the others are left. -/
def LeadsTo (p q : Pages) : Prop :=
  ∃ read, p.lines = read ++ q.lines ∧ q.turned = p.turned + read.length

theorem LeadsTo.refl (p : Pages) : p.LeadsTo p := ⟨[], rfl, rfl⟩

theorem LeadsTo.trans {r : Pages} (h : p.LeadsTo q) (h' : q.LeadsTo r) : p.LeadsTo r := by
  obtain ⟨read, hl, ht⟩ := h
  obtain ⟨more, hl', ht'⟩ := h'
  refine ⟨read ++ more, by rw [hl, hl', List.append_assoc], ?_⟩
  rw [ht', ht, List.length_append, Nat.add_assoc]

/-- Every line is read or still to be read. -/
theorem LeadsTo.count_eq (h : p.LeadsTo q) : q.count = p.count := by
  obtain ⟨read, hl, ht⟩ := h
  rw [count, count, hl, ht, List.length_append, Nat.add_assoc]

theorem leadsTo_turn? (h : p.turn? = some (l, q)) : p.LeadsTo q := by
  obtain ⟨hl, ht⟩ := turn?_eq_some h
  exact ⟨[l], hl, ht⟩

theorem leadsTo_join (line : List Char) (p : Pages) : p.LeadsTo (join line p).2 := by
  fun_induction join line p with
  | case1 => exact .refl _
  | case2 => exact .refl _
  | case3 line p body hb q ht => exact leadsTo_turn? ht
  | case4 line p body hb c cs q ht _ ih => exact (leadsTo_turn? ht).trans ih

theorem leadsTo_logical (p : Pages) : p.LeadsTo p.logical.2 := by
  fun_induction logical p with
  | case1 => exact .refl _
  | case2 p q ht _ ih => exact (leadsTo_turn? ht).trans ih
  | case3 p c cs q ht l r hr =>
    have hjoin := leadsTo_join (c :: cs) q
    rw [hr] at hjoin
    exact (leadsTo_turn? ht).trans hjoin

/-- Where the lines have no logical line any more, the next one is that of the lines after
them. -/
theorem logical_extend_none (more : List (List Char)) (h : p.logical.1 = none) :
    (p.extend more).logical = logical { lines := more, turned := p.count } := by
  fun_induction logical p with
  | case1 p ht =>
    have hnil := turn?_eq_none ht
    refine congrArg logical (eq_of_lines ?_ ?_)
    · show p.lines ++ more = more
      rw [hnil, List.nil_append]
    · show p.turned = p.count
      rw [count, hnil, List.length_nil, Nat.add_zero]
  | case2 p q ht _ ih =>
    rw [logical_of_blank (turn?_extend ht more), ih h, (leadsTo_turn? ht).count_eq]
  | case3 p c cs q ht l r hr => cases h

end Pages

namespace Lexer

/-- The lexer after `k` more lines have been read. -/
def shift (k : Nat) (lx : Lexer) : Lexer := { lx with pages := lx.pages.shift k }

variable {lx : Lexer} {p : Pages}

theorem readString_shift (k : Nat) (quote : Char) (text segment : List Char) (p : Pages) :
    readString quote text segment (p.shift k)
      = ((readString quote text segment p).1, (readString quote text segment p).2.shift k) := by
  fun_induction readString quote text segment p with
  | case1 text segment p inside after h => exact readString_of_close h
  | case2 text segment p h q hq =>
    exact readString_of_end h (by rw [Pages.logical_shift, hq])
  | case3 text segment p h line q hq _ ih =>
    have hq' : (p.shift k).logical = (some line, q.shift k) := by rw [Pages.logical_shift, hq]
    rw [readString_of_line h hq', ih]

theorem readComment_shift (k : Nat) (text segment : List Char) (p : Pages) :
    readComment text segment (p.shift k)
      = ((readComment text segment p).1, (readComment text segment p).2.shift k) := by
  fun_induction readComment text segment p with
  | case1 text segment p text' inside after h => exact readComment_of_close h
  | case2 text segment p h q hq =>
    exact readComment_of_end h (by rw [Pages.logical_shift, hq])
  | case3 text segment p text' h line q hq _ ih =>
    have hq' : (p.shift k).logical = (some line, q.shift k) := by rw [Pages.logical_shift, hq]
    exact (readComment_of_line h hq').trans ih

theorem takeLine_shift (k : Nat) (lx : Lexer) :
    (lx.shift k).takeLine = (lx.takeLine.1, lx.takeLine.2.shift k) := by
  unfold takeLine
  by_cases hr : lx.rest.isEmpty = true
  · rw [if_pos hr, if_pos (show (lx.shift k).rest.isEmpty = true from hr)]
    exact Pages.logical_shift k lx.pages
  · rw [if_neg hr, if_neg (show ¬ (lx.shift k).rest.isEmpty = true from hr)]
    rfl

/-- The next token does not depend on the lines read before. -/
theorem next_shift (k : Nat) (lx : Lexer) :
    (lx.shift k).next = (lx.next.1, lx.next.2.shift k) := by
  have hline : ∀ {lx : Lexer} {line : Option (List Char)} {p : Pages},
      lx.takeLine = (line, p) → (lx.shift k).takeLine = (line, p.shift k) := by
    intro lx line p h
    rw [takeLine_shift, h]
  have hpending : ∀ {lx : Lexer}, lx.pending = [] → (lx.shift k).pending = [] := id
  fun_induction next lx with
  | case1 lx t ts h => exact next_of_pending (show (lx.shift k).pending = t :: ts from h)
  | case2 lx h p hl => exact next_of_end (hpending h) (hline hl)
  | case3 lx h line p hl ho _ ih =>
    rw [next_of_directive (hpending h) (hline hl) ho]
    exact ih
  | case4 lx h line p hl quote segment ho =>
    rw [next_of_string (hpending h) (hline hl) ho]
    exact readString_shift k quote [] segment p
  | case5 lx h line p hl segment ho =>
    rw [next_of_block (hpending h) (hline hl) ho]
    exact readComment_shift k [] segment p
  | case6 lx h line p hl text ho => exact next_of_remark (hpending h) (hline hl) ho
  | case7 lx h line p hl ho _ ih =>
    rw [next_of_code (hpending h) (hline hl) ho]
    exact ih

/-- Lines read before are added to those reported. -/
theorem report_shift (k : Nat) (lx : Lexer) :
    Feed.report (lx.shift k) = (Feed.report lx).map (fun r => (r.1, r.2 + k))
      ∧ Feed.endLine (lx.shift k) = Feed.endLine lx + k := by
  have hnext : ∀ lx : Lexer, Feed.next (lx.shift k) = ((Feed.next lx).1, (Feed.next lx).2.shift k) :=
    next_shift k
  fun_induction Feed.report lx with
  | case1 lx lx' h =>
    have hnone : (Feed.next lx).1 = none := by rw [h]
    have hnone' : (Feed.next (lx.shift k)).1 = none := by rw [hnext]; exact hnone
    refine ⟨Feed.report_of_none hnone', ?_⟩
    rw [Feed.endLine_of_none hnone', Feed.endLine_of_none hnone, hnext]
    rfl
  | case2 lx t lx' h _ ih =>
    have hsome : (Feed.next lx).1 = some t := by rw [h]
    have hsome' : (Feed.next (lx.shift k)).1 = some t := by rw [hnext]; exact hsome
    have hrest : (Feed.next (lx.shift k)).2 = lx'.shift k := by rw [hnext, h]
    rw [Feed.report_of_some hsome', Feed.endLine_of_some hsome', hrest, Feed.endLine_of_some hsome,
      h, ih.1, ih.2]
    exact ⟨rfl, rfl⟩

/-! ## Lines are read in order -/

theorem leadsTo_readString (quote : Char) (text segment : List Char) (p : Pages) :
    p.LeadsTo (readString quote text segment p).2.pages := by
  fun_induction readString quote text segment p with
  | case1 => exact .refl _
  | case2 text segment p h q hq =>
    have hlogical := p.leadsTo_logical
    rwa [hq] at hlogical
  | case3 text segment p h line q hq _ ih =>
    have hlogical := p.leadsTo_logical
    rw [hq] at hlogical
    exact hlogical.trans ih

theorem leadsTo_readComment (text segment : List Char) (p : Pages) :
    p.LeadsTo (readComment text segment p).2.pages := by
  fun_induction readComment text segment p with
  | case1 => exact .refl _
  | case2 text segment p h q hq =>
    have hlogical := p.leadsTo_logical
    rwa [hq] at hlogical
  | case3 text segment p text' h line q hq _ ih =>
    have hlogical := p.leadsTo_logical
    rw [hq] at hlogical
    exact hlogical.trans ih

theorem leadsTo_takeLine {line : Option (List Char)} (h : lx.takeLine = (line, p)) :
    lx.pages.LeadsTo p := by
  unfold takeLine at h
  split at h
  · have hlogical := lx.pages.leadsTo_logical
    rwa [h] at hlogical
  · cases h
    exact .refl _

theorem leadsTo_next (lx : Lexer) : lx.pages.LeadsTo lx.next.2.pages := by
  fun_induction next lx with
  | case1 => exact .refl _
  | case2 lx h p hl => exact leadsTo_takeLine hl
  | case3 lx h line p hl ho _ ih => exact (leadsTo_takeLine hl).trans ih
  | case4 lx h line p hl quote segment ho =>
    exact (leadsTo_takeLine hl).trans (leadsTo_readString quote [] segment p)
  | case5 lx h line p hl segment ho =>
    exact (leadsTo_takeLine hl).trans (leadsTo_readComment [] segment p)
  | case6 lx h line p hl text ho => exact leadsTo_takeLine hl
  | case7 lx h line p hl ho _ ih => exact (leadsTo_takeLine hl).trans ih

/-! ## The end of a text -/

/-- Does a string or a comment that is never closed stand in the place of the next token? -/
def opensInVain (lx : Lexer) : Bool :=
  match lx.pending with
  | _ :: _ => false
  | [] =>
    match h : lx.takeLine with
    | (none, _) => false
    | (some line, p) =>
      match ho : opening line with
      | .directive => false
      | .string quote segment => (readString quote [] segment p).1.isNone
      | .block segment => (readComment [] segment p).1.isNone
      | .remark _ => false
      | .code =>
        have := backlog_code h ho
        opensInVain { pages := p, pending := Lexeme.code (Lexeme.splitCode line).1,
                      rest := (Lexeme.splitCode line).2 }
termination_by lx.backlog

/-- Do the lines end inside a string or a comment? -/
def endsOpen (lx : Lexer) : Bool := (Feed.drained lx).opensInVain

/-- Only the line that is taken up next counts, where no tokens are at hand. -/
theorem next_congr {a b : Lexer} (ha : a.pending = []) (hb : b.pending = [])
    (h : a.takeLine = b.takeLine) : a.next = b.next := by
  cases hl : b.takeLine with
  | mk line p =>
    rw [hl] at h
    cases line with
    | none => rw [next_of_end ha h, next_of_end hb hl]
    | some line =>
      cases ho : opening line with
      | directive => rw [next_of_directive ha h ho, next_of_directive hb hl ho]
      | string quote segment => rw [next_of_string ha h ho, next_of_string hb hl ho]
      | block segment => rw [next_of_block ha h ho, next_of_block hb hl ho]
      | remark text => rw [next_of_remark ha h ho, next_of_remark hb hl ho]
      | code => rw [next_of_code ha h ho, next_of_code hb hl ho]

/-- A lexer that gives no token, and stands in no string or comment, goes on with more lines as
a lexer at their start does. -/
theorem next_extend_of_none (more : List (List Char)) (lx : Lexer) (hp : lx.pages.Sealed)
    (hnone : lx.next.1 = none) (hclosed : lx.opensInVain = false) :
    (lx.extend more).next
      = Lexer.next { pages := { lines := more, turned := lx.pages.count } } := by
  fun_induction opensInVain lx with
  | case1 lx t ts h => rw [next_of_pending h] at hnone; cases hnone
  | case2 lx h p hl =>
    have hrest : lx.rest.isEmpty = true ∧ lx.pages.logical.1 = none := by
      unfold takeLine at hl
      split at hl
      · next hr => exact ⟨hr, by rw [hl]⟩
      · cases hl
    refine next_congr h rfl ?_
    rw [takeLine, takeLine, if_pos (show (lx.extend more).rest.isEmpty = true from hrest.1)]
    exact Pages.logical_extend_none more hrest.2
  | case3 lx h line p hl ho =>
    -- A preprocessor line has at least one word.
    obtain ⟨w, ts, hw⟩ := directive_head ho
    have hfirst : next { pages := p, pending := Lexeme.directive line }
        = (some (.ofChars .directive ('#' :: w)), { pages := p, pending := ts }) :=
      next_of_pending hw
    rw [next_of_directive h hl ho, hfirst] at hnone
    cases hnone
  | case4 lx h line p hl quote segment ho =>
    rw [next_of_string h hl ho] at hnone
    rw [hnone] at hclosed
    cases hclosed
  | case5 lx h line p hl segment ho =>
    rw [next_of_block h hl ho] at hnone
    rw [hnone] at hclosed
    cases hclosed
  | case6 lx h line p hl text ho => rw [next_of_remark h hl ho] at hnone; cases hnone
  | case7 lx h line p hl ho _ ih =>
    obtain ⟨hl', hp'⟩ := takeLine_extend more hp hl
    rw [next_of_code h hl ho] at hnone
    rw [next_of_code (show (lx.extend more).pending = [] from h) hl' ho,
      ← (leadsTo_takeLine hl).count_eq]
    exact ih hp' hnone hclosed

/-- The report of a lexer with more lines after its own. -/
theorem report_extend (more : List (List Char)) (lx : Lexer) (hp : lx.pages.Sealed)
    (hclosed : lx.endsOpen = false) :
    Feed.report (lx.extend more) = Feed.report lx
        ++ Feed.report (σ := Lexer) { pages := { lines := more, turned := lx.pages.count } }
      ∧ Feed.endLine (lx.extend more)
        = Feed.endLine (σ := Lexer) { pages := { lines := more, turned := lx.pages.count } } := by
  fun_induction Feed.report lx with
  | case1 lx lx' h =>
    have hnone : (Feed.next lx).1 = none := by rw [h]
    rw [endsOpen, Feed.drained_of_none hnone] at hclosed
    exact Feed.report_congr (next_extend_of_none more lx hp hnone hclosed)
  | case2 lx t lx' h _ ih =>
    have hsome : (Feed.next lx).1 = some t := by rw [h]
    rw [endsOpen, Feed.drained_of_some hsome, h] at hclosed
    have hcount : lx'.pages.count = lx.pages.count := by
      have hnext := (leadsTo_next lx).count_eq
      rwa [show lx.next = (some t, lx') from h] at hnext
    -- The longer lexer gives the same token and goes on with the same lines before the others.
    rcases next_extend more lx hp with ⟨u, rest, hu, hu', hrest⟩ | ⟨rest, hu, -⟩
    · obtain ⟨rfl, rfl⟩ : u = t ∧ rest = lx' := by
        have heq := hu.symm.trans h
        cases heq
        exact ⟨rfl, rfl⟩
      have hnext : Feed.next (lx.extend more) = (some u, rest.extend more) := hu'
      obtain ⟨hreport, hend⟩ := ih hrest hclosed
      rw [hcount] at hreport hend
      rw [Feed.report_of_some (s := lx.extend more) (t := u) (by rw [hnext]),
        Feed.endLine_of_some (s := lx.extend more) (t := u) (by rw [hnext]), hnext, hreport, hend]
      exact ⟨rfl, rfl⟩
    · exact absurd (hu.symm.trans h) nofun

end Lexer

/-! ## Bytes -/

namespace Text

theorem length_pieces {α : Type} (p : α → Bool) (xs : List α) :
    (pieces p xs).length = xs.countP p + 1 := by
  induction xs with
  | nil => rfl
  | cons x xs ih =>
    cases hx : p x with
    | true => rw [pieces_cons_of_pos xs hx, List.length_cons, ih, List.countP_cons_of_pos hx]
    | false =>
      rw [pieces_cons_of_neg xs hx, List.countP_cons_of_neg (by simp [hx])]
      split
      · next hnil => exact absurd hnil (pieces_ne_nil p xs)
      · next w ws hws => rw [← ih, hws]; rfl

/-- A line feed ends a line, and the bytes after it are lines of their own. -/
theorem byteLines_of_break (a b : List UInt8) :
    byteLines (a ++ 0x0A :: b) = pieces (· == 0x0A) a ++ byteLines b := by
  unfold byteLines
  rw [pieces_append a b rfl]
  exact Lexer.dropEmpty_append _ (pieces_ne_nil _ b)

end Text

theorem Pages.ofBytes_append {a : List UInt8} (b : List UInt8) (h : a.getLast? = some 0x0A) :
    Pages.ofBytes (a ++ b) = (Pages.ofBytes a).extend (Pages.ofBytes b).lines
      ∧ (Pages.ofBytes a).count = a.count 0x0A := by
  obtain ⟨a, rfl⟩ := List.getLast?_eq_some_iff.mp h
  have hlines : byteLines (a ++ [0x0A]) = pieces (· == 0x0A) a := by
    rw [byteLines_of_break]
    exact List.append_nil _
  constructor
  · refine Pages.eq_of_lines ?_ rfl
    show (byteLines _).map _ = (byteLines _).map _ ++ (byteLines b).map _
    rw [List.append_assoc, List.singleton_append, byteLines_of_break, hlines, List.map_append]
  · show 0 + ((byteLines _).map _).length = _
    rw [hlines, List.length_map, length_pieces, List.count, List.countP_append]
    simp

/-- **Lexing is compositional at line breaks.** If the first of two texts ends in a line feed,
its last line, decoded and trimmed, does not end in a backslash, and it does not end inside a
string or a comment, then the tokens of both, one after the other, are those of the first and
those of the second. The lines reported after a token of the second, and at its end, are those
of the second alone and the lines of the first. -/
theorem Lexer.report_append {a : List UInt8} (b : List UInt8) (hbreak : a.getLast? = some 0x0A)
    (hclosed : (ofBytes a).endsOpen = false)
    (hlast : ∀ l, (byteLines a).getLast? = some l → (trim (decode l)).getLast? ≠ some '\\') :
    Feed.tokens (ofBytes (a ++ b)) = Feed.tokens (ofBytes a) ++ Feed.tokens (ofBytes b)
      ∧ Feed.report (ofBytes (a ++ b)) = Feed.report (ofBytes a)
        ++ (Feed.report (ofBytes b)).map (fun r => (r.1, r.2 + a.count 0x0A))
      ∧ Feed.endLine (ofBytes (a ++ b)) = Feed.endLine (ofBytes b) + a.count 0x0A := by
  obtain ⟨hpages, hcount⟩ := Pages.ofBytes_append b hbreak
  have hsealed : (ofBytes a).pages.Sealed := by
    intro l hl
    obtain ⟨m, hm, rfl⟩ := Option.map_eq_some_iff.mp (List.getLast?_map.symm.trans hl)
    exact dropTail?_backslash.mpr (hlast m hm)
  have hextend : ofBytes (a ++ b) = (ofBytes a).extend (Pages.ofBytes b).lines :=
    congrArg (Lexer.mk · [] []) hpages
  have hrest : ({ pages := { lines := (Pages.ofBytes b).lines, turned := (ofBytes a).pages.count } }
      : Lexer) = (ofBytes b).shift (a.count 0x0A) := by
    refine congrArg (Lexer.mk · [] []) (Pages.eq_of_lines rfl ?_)
    show (Pages.ofBytes a).count = 0 + a.count 0x0A
    rw [hcount, Nat.zero_add]
  obtain ⟨hreport, hend⟩ := report_extend (Pages.ofBytes b).lines (ofBytes a) hsealed hclosed
  obtain ⟨hshift, hshiftEnd⟩ := report_shift (a.count 0x0A) (ofBytes b)
  rw [← hextend, hrest, hshift] at hreport
  rw [← hextend, hrest, hshiftEnd] at hend
  refine ⟨?_, hreport, hend⟩
  rw [← Feed.map_fst_report, hreport, List.map_append, List.map_map, Feed.map_fst_report]
  exact congrArg _ (Feed.map_fst_report (ofBytes b))

/-- The bytes of an ASCII text. -/
def Text.asciiBytes (text : String) : List UInt8 := text.toList.map fun c => c.toNat.toUInt8

/-- Lines that go on, as a directive and as a string, and a line that is joined to a blank one at
the very end. -/
def runOnLines : List UInt8 := asciiBytes "#define A \\\n 1\nf(\"a\nb\") /* c\n*/ x \\\n\n"

theorem report_of_runOnLines :
    Feed.report (Lexer.ofBytes (runOnLines ++ asciiBytes "// d\nint y;"))
        = Feed.report (Lexer.ofBytes runOnLines)
          ++ [(⟨.comment, " d"⟩, 7), (⟨.name, "int"⟩, 8), (⟨.name, "y"⟩, 8), (⟨.separator, ";"⟩, 8)]
      ∧ Feed.endLine (Lexer.ofBytes (runOnLines ++ asciiBytes "// d\nint y;")) = 8 := by
  obtain ⟨-, hreport, hend⟩ := Lexer.report_append (a := runOnLines) (asciiBytes "// d\nint y;")
    (by decide +kernel) (by decide +kernel) (by decide +kernel)
  exact ⟨hreport.trans (congrArg _ (by decide +kernel)), hend.trans (by decide +kernel)⟩

end HeaderAtlas
