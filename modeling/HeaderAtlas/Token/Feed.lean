import HeaderAtlas.Token.Basic

/-!
# Where tokens come from

The declaration reader does not care whether its tokens come from a file or from
a list; it asks a `Feed`. A lawful feed runs dry: every token taken makes it
smaller, and nothing makes it larger. That is what the readers' termination
rests on.

`TokenStream` puts one token of pushback in front of a feed.
-/

namespace HeaderAtlas

/-- A source of tokens with state `σ`. It always answers: lists and texts are in memory, and an
error while reading, which a source could report in place of a token, is left out. -/
class Feed (σ : Type) where
  /-- The next token, if any. The state may move even if there is none. -/
  next : σ → Option Token × σ
  /-- The line being read, counted from one. -/
  line : σ → Nat
  /-- Drops what is left of the current line. -/
  discardLine : σ → σ
  /-- A bound on the number of tokens to come. -/
  size : σ → Nat

/-- A feed that runs dry. -/
class LawfulFeed (σ : Type) [Feed σ] : Prop where
  /-- A token taken makes the feed smaller. -/
  size_next_some {s s' : σ} {t : Token} :
    Feed.next s = (some t, s') → Feed.size s' < Feed.size s
  /-- Looking for a token in vain does not make it larger. -/
  size_next_none {s s' : σ} : Feed.next s = (none, s') → Feed.size s' ≤ Feed.size s
  /-- Dropping a line does not make it larger. -/
  size_discardLine (s : σ) : Feed.size (Feed.discardLine s) ≤ Feed.size s

/-! ## Lists -/

/-- Tokens held in memory. They are all taken to stand on line one. -/
instance : Feed (List Token) where
  next
    | [] => (none, [])
    | t :: ts => (some t, ts)
  line _ := 1
  discardLine ts := ts
  size ts := ts.length

instance : LawfulFeed (List Token) where
  size_next_some {s s' t} h := by
    cases s with
    | nil => simp [Feed.next] at h
    | cons u us =>
      simp only [Feed.next, Prod.mk.injEq] at h
      simp [Feed.size, ← h.2]
  size_next_none {s s'} h := by
    cases s with
    | nil => simp only [Feed.next, Prod.mk.injEq, true_and] at h; simp [← h]
    | cons u us => simp [Feed.next] at h
  size_discardLine _ := Nat.le_refl _

/-! ## Pushback -/

/-- A feed with room for one token put back. -/
structure TokenStream (σ : Type) where
  feed : σ
  held : Option Token := none
deriving DecidableEq, Inhabited

namespace TokenStream

variable {σ : Type} [Feed σ]

/-- The next token, the one put back first. -/
def next (s : TokenStream σ) : Option Token × TokenStream σ :=
  match s.held with
  | some t => (some t, { s with held := none })
  | none =>
    let (t, feed) := Feed.next s.feed
    (t, { s with feed })

theorem next_of_held {s : TokenStream σ} {t : Token} (h : s.held = some t) :
    s.next = (some t, ⟨s.feed, none⟩) := by
  simp [next, h]

/-- Puts a token back. There is room for one: a second one takes its place. -/
def push (t : Token) (s : TokenStream σ) : TokenStream σ := { s with held := some t }

/-- The line being read. -/
def line (s : TokenStream σ) : Nat := Feed.line s.feed

/-- Drops what is left of the current line; a token put back stays. -/
def discardLine (s : TokenStream σ) : TokenStream σ :=
  { s with feed := Feed.discardLine s.feed }

/-- A bound on the number of tokens to come. -/
def size (s : TokenStream σ) : Nat := Feed.size s.feed + s.held.toList.length

theorem size_next_some [LawfulFeed σ] {s s' : TokenStream σ} {t : Token}
    (h : s.next = (some t, s')) : s'.size < s.size := by
  unfold next at h
  split at h
  · next u hu =>
    simp only [Prod.mk.injEq, Option.some.injEq] at h
    simp [size, ← h.2, hu]
  · next hn =>
    simp only [Prod.mk.injEq] at h
    obtain ⟨ht, rfl⟩ := h
    have : Feed.next s.feed = (some t, (Feed.next s.feed).2) := by rw [← ht]
    have := LawfulFeed.size_next_some this
    simp only [size]
    omega

theorem size_next_none [LawfulFeed σ] {s s' : TokenStream σ}
    (h : s.next = (none, s')) : s'.size ≤ s.size := by
  unfold next at h
  split at h
  · simp at h
  · next hn =>
    simp only [Prod.mk.injEq] at h
    obtain ⟨ht, rfl⟩ := h
    have : Feed.next s.feed = (none, (Feed.next s.feed).2) := by rw [← ht]
    have := LawfulFeed.size_next_none this
    simp only [size]
    omega

/-- A token taken makes the stream smaller; a vain look does not make it larger. -/
theorem size_next [LawfulFeed σ] (s : TokenStream σ) :
    s.next.2.size + s.next.1.toList.length ≤ s.size := by
  cases h : s.next with
  | mk t s' =>
    cases t with
    | none => simpa using size_next_none h
    | some t => exact size_next_some h

end TokenStream

end HeaderAtlas
