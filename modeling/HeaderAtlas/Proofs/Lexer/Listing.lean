import HeaderAtlas.Declaration.Filter
import HeaderAtlas.Proofs.Lexer.Append

/-!
# The tokens of a feed as a list

A feed that has run dry stays dry (`FusedFeed`). Its tokens can then be listed once and for
all, and as long as no line is dropped, a stream over the feed and a stream over the list hand
over the same tokens. They need not be on the same lines.
-/

namespace HeaderAtlas

variable {σ : Type} [Feed σ]

/-- A feed that gives no token once it has given none. -/
class FusedFeed (σ : Type) [Feed σ] : Prop where
  next_next {s : σ} : (Feed.next s).1 = none → (Feed.next (Feed.next s).2).1 = none

instance : FusedFeed (List Token) where
  next_next {ts} h := by
    cases ts with
    | nil => rfl
    | cons t ts => cases h

/-! ## Lexers -/

namespace Lexer

theorem dry_of_readString {quote : Char} {text segment : List Char} {p : Pages}
    (h : (readString quote text segment p).1 = none) :
    (readString quote text segment p).2.Dry := by
  fun_induction readString quote text segment p with
  | case1 text segment p inside after hclose => cases h
  | case2 text segment p hopen q hq => exact ⟨Pages.logical_none hq, rfl, rfl⟩
  | case3 text segment p hopen line q hq _ ih => exact ih h

theorem dry_of_readComment {text segment : List Char} {p : Pages}
    (h : (readComment text segment p).1 = none) : (readComment text segment p).2.Dry := by
  fun_induction readComment text segment p with
  | case1 text segment p text' inside after hclose => cases h
  | case2 text segment p hopen q hq => exact ⟨Pages.logical_none hq, rfl, rfl⟩
  | case3 text segment p text' hopen line q hq _ ih => exact ih h

/-- A lexer gives no token only if nothing is left. A string or comment that never ends has
used up all lines. -/
theorem dry_of_next {lx : Lexer} (h : lx.next.1 = none) : lx.next.2.Dry := by
  fun_induction next lx with
  | case1 lx t ts hp => cases h
  | case2 lx hp p hl => exact ⟨takeLine_none hl, rfl, rfl⟩
  | case3 lx hp line p hl ho _ ih => exact ih h
  | case4 lx hp line p hl quote segment ho => exact dry_of_readString h
  | case5 lx hp line p hl segment ho => exact dry_of_readComment h
  | case6 lx hp line p hl text ho => cases h
  | case7 lx hp line p hl ho _ ih => exact ih h

instance : FusedFeed Lexer where
  next_next h := congrArg Prod.fst (dry_of_next h).next

end Lexer

/-! ## Listing -/

variable [LawfulFeed σ]

namespace Feed

/-- The tokens that a feed gives before it runs dry. -/
def tokens (s : σ) : List Token :=
  match h : Feed.next s with
  | (none, _) => []
  | (some t, s') =>
    have := LawfulFeed.size_next_some h
    t :: tokens s'
termination_by Feed.size s

theorem tokens_of_none {s : σ} (h : (Feed.next s).1 = none) : tokens s = [] := by
  rw [tokens]
  split
  · rfl
  · next h' => rw [h'] at h; cases h

theorem tokens_of_some {s : σ} {t : Token} (h : (Feed.next s).1 = some t) :
    tokens s = t :: tokens (Feed.next s).2 := by
  rw [tokens]
  split
  · next h' => rw [h'] at h; cases h
  · next u s' h' =>
    obtain rfl : u = t := Option.some.inj ((congrArg Prod.fst h').symm.trans h)
    exact congrArg (u :: tokens ·) (congrArg Prod.snd h').symm

/-- The list goes on as the feed does. -/
theorem next_tokens [FusedFeed σ] (s : σ) :
    Feed.next (tokens s) = ((Feed.next s).1, tokens (Feed.next s).2) := by
  cases h : (Feed.next s).1 with
  | none => rw [tokens_of_none h, tokens_of_none (FusedFeed.next_next h)]; rfl
  | some t => rw [tokens_of_some h]; rfl

/-- The tokens of a list are those of the list. -/
@[simp] theorem tokens_list (ts : List Token) : tokens ts = ts := by
  induction ts with
  | nil => exact tokens_of_none rfl
  | cons t ts ih => rw [tokens_of_some (rfl : (Feed.next (t :: ts)).1 = some t)]; exact congrArg _ ih

end Feed

namespace TokenStream

/-- The stream over the list of what the feed gives. -/
def listed (st : TokenStream σ) : TokenStream (List Token) := ⟨Feed.tokens st.feed, st.held⟩

variable [FusedFeed σ]

theorem next_listed (st : TokenStream σ) : st.listed.next = (st.next.1, st.next.2.listed) := by
  obtain ⟨feed, held⟩ := st
  cases held with
  | some t => rfl
  | none => simp only [listed, next, Feed.next_tokens]

/-- Streams that list alike go on alike. -/
theorem next_eq {τ : Type} [Feed τ] [LawfulFeed τ] [FusedFeed τ] {a : TokenStream σ}
    {b : TokenStream τ} (h : a.listed = b.listed) :
    a.next.1 = b.next.1 ∧ a.next.2.listed = b.next.2.listed := by
  have hnext := congrArg next h
  rw [next_listed, next_listed] at hnext
  exact Prod.mk.inj hnext

theorem directiveArgs_listed (st : TokenStream σ) :
    st.listed.directiveArgs
      = (st.directiveArgs.1, st.directiveArgs.2.1, st.directiveArgs.2.2.listed) := by
  fun_induction directiveArgs st with
  | case1 st rest h => exact directiveArgs_of_none (by rw [next_listed, h])
  | case2 st t rest h _ ht args next after hrest ih =>
    have hnext : st.listed.next = (some t, rest.listed) := by rw [next_listed, h]
    rw [directiveArgs_of_continues hnext ht, ih, hrest]
  | case3 st t rest h _ ht =>
    exact directiveArgs_of_other (by rw [next_listed, h]) (Bool.eq_false_iff.mpr ht)

theorem skipAttribute_listed (st : TokenStream σ) :
    st.listed.skipAttribute = (st.skipAttribute.1, st.skipAttribute.2.listed) := by
  fun_induction skipAttribute st with
  | case1 st rest h => exact skipAttribute_of_none (by rw [next_listed, h])
  | case2 st t rest h _ ht => exact skipAttribute_of_semicolon (by rw [next_listed, h]) ht
  | case3 st t rest h _ ht ih =>
    rw [skipAttribute_of_other (by rw [next_listed, h]) ht, ih]

theorem skip_listed (n : Nat) (st : TokenStream σ) : st.listed.skip n = (st.skip n).listed := by
  induction n generalizing st with
  | zero => rfl
  | succ n ih => rw [skip, skip, next_listed, ih]

end TokenStream

end HeaderAtlas
