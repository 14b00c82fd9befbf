import HeaderAtlas.Declaration.Directive

/-!
# The tokens of the grammar

Comments and directives never reach the grammar. They are taken in on the way to
the next token: comments are kept for the declaration to come and may switch
errors off and on, directives are carried out. Some words are dropped as well.
-/

namespace HeaderAtlas

namespace TokenStream

variable {σ : Type} [Feed σ]

/-- Skips an attribute, up to the `;` that ends its declaration. -/
def skipAttribute [LawfulFeed σ] (st : TokenStream σ) : Option Token × TokenStream σ :=
  match h : st.next with
  | (none, st) => (none, st)
  | (some t, st) =>
    have := size_next_some h
    if t.text = ";" then (some t, st) else skipAttribute st
termination_by st.size

section SkipAttribute

variable [LawfulFeed σ] {st st' : TokenStream σ} {t : Token}

theorem skipAttribute_of_none (h : st.next = (none, st')) : st.skipAttribute = (none, st') := by
  rw [skipAttribute]
  split
  · next h' => rw [h] at h'; cases h'; rfl
  · next h' => rw [h] at h'; cases h'

theorem skipAttribute_of_semicolon (h : st.next = (some t, st')) (ht : t.text = ";") :
    st.skipAttribute = (some t, st') := by
  rw [skipAttribute]
  split
  · next h' => rw [h] at h'; cases h'
  · next h' => rw [h] at h'; cases h'; exact if_pos ht

theorem skipAttribute_of_other (h : st.next = (some t, st')) (ht : t.text ≠ ";") :
    st.skipAttribute = st'.skipAttribute := by
  rw [skipAttribute]
  split
  · next h' => rw [h] at h'; cases h'
  · next h' => rw [h] at h'; cases h'; exact if_neg ht

end SkipAttribute

theorem size_skipAttribute [LawfulFeed σ] (st : TokenStream σ) :
    st.skipAttribute.2.size + st.skipAttribute.1.toList.length ≤ st.size := by
  fun_induction skipAttribute st with
  | case1 st rest h => simpa using size_next_none h
  | case2 st t rest h _ _ => exact size_next_some h
  | case3 st t rest h _ _ ih =>
    have := size_next_some h
    omega

/-- Skips tokens, whatever they are. -/
def skip : Nat → TokenStream σ → TokenStream σ
  | 0, st => st
  | n + 1, st => skip n st.next.2

theorem size_skip [LawfulFeed σ] (n : Nat) (st : TokenStream σ) : (st.skip n).size ≤ st.size := by
  induction n generalizing st with
  | zero => exact Nat.le_refl _
  | succ n ih =>
    have := size_next st
    have := ih st.next.2
    rw [skip]
    omega

end TokenStream

namespace Scanner

variable {σ : Type} [Feed σ]

/-- Takes in a comment. One that starts with an asterisk replaces the pending
comment, any other is added to it. The markers are looked for in the pending
comment as a whole. -/
def absorb (env : ScanEnv) (text : String) (s : Scanner σ) : Scanner σ :=
  let g := env.settings.grammar
  let pending := match s.comment with
    | some p => if Text.startsWith ['*'] text.toList then text else p ++ text
    | none => text
  -- A comment with both markers leaves errors on.
  let off := s.errorsOff || Text.containsText g.errorsOffMarker pending
  let off := off && !Text.containsText g.errorsOnMarker pending
  { s with
    topComment := if s.topComment.all String.isEmpty then some text else s.topComment
    comment := some pending
    errorsOff := off }

variable [LawfulFeed σ]

/-- The next token of the grammar, given the next token of the stream. -/
def seek (env : ScanEnv) (next : Option Token) (s : Scanner σ) : Option Token × Scanner σ :=
  match next with
  | none => (none, s)
  | some t =>
    match t.cls with
    | .comment =>
      have := s.stream.size_next
      seek env s.stream.next.1 (absorb env t.text { s with stream := s.stream.next.2 })
    | .directive =>
      have := s.stream.size_directiveArgs
      let s' := { s with stream := s.stream.directiveArgs.2.2 }
      seek env s.stream.directiveArgs.2.1 (s'.obey env t.text s.stream.directiveArgs.1)
    | .name =>
      if t.text = "__const" then (some ⟨.name, "const"⟩, s)
      else if t.text = "__attribute" || t.text = "__attribute__" then
        (s.stream.skipAttribute.1, { s with stream := s.stream.skipAttribute.2 })
      else match env.settings.grammar.ignoredWords.get? t.text with
        | some count =>
          -- Comments and directives among the dropped tokens are dropped too.
          have := s.stream.size_skip count
          have := (s.stream.skip count).size_next
          seek env (s.stream.skip count).next.1
            { s with stream := (s.stream.skip count).next.2 }
        | none => (some t, s)
    | _ => (some t, s)
termination_by s.stream.size + next.toList.length
decreasing_by
  all_goals
    simp_all only [stream_obey, absorb, Option.toList, List.length_cons, List.length_nil]
    omega

section Seek

variable {env : ScanEnv} {t : Token} {s : Scanner σ}

theorem seek_none : seek env none s = (none, s) := by rw [seek]

theorem seek_comment (h : t.cls = .comment) :
    seek env (some t) s = seek env s.stream.next.1
      (absorb env t.text { s with stream := s.stream.next.2 }) := by
  rw [seek, h]

theorem seek_directive (h : t.cls = .directive) :
    seek env (some t) s = seek env s.stream.directiveArgs.2.1
      ({ s with stream := s.stream.directiveArgs.2.2 }.obey env t.text
        s.stream.directiveArgs.1) := by
  rw [seek, h]

theorem seek_const (h : t.cls = .name) (hc : t.text = "__const") :
    seek env (some t) s = (some ⟨.name, "const"⟩, s) := by
  rw [seek, h]
  exact if_pos hc

theorem seek_attribute (h : t.cls = .name) (hc : t.text ≠ "__const")
    (ha : (t.text = "__attribute" || t.text = "__attribute__") = true) :
    seek env (some t) s
      = (s.stream.skipAttribute.1, { s with stream := s.stream.skipAttribute.2 }) := by
  rw [seek, h]
  dsimp only
  rw [if_neg hc, if_pos ha]

theorem seek_ignored {count : Nat} (h : t.cls = .name) (hc : t.text ≠ "__const")
    (ha : ¬ (t.text = "__attribute" || t.text = "__attribute__") = true)
    (hi : env.settings.grammar.ignoredWords.get? t.text = some count) :
    seek env (some t) s = seek env (s.stream.skip count).next.1
      { s with stream := (s.stream.skip count).next.2 } := by
  rw [seek, h]
  dsimp only
  rw [if_neg hc, if_neg ha, hi]

theorem seek_name (h : t.cls = .name) (hc : t.text ≠ "__const")
    (ha : ¬ (t.text = "__attribute" || t.text = "__attribute__") = true)
    (hi : env.settings.grammar.ignoredWords.get? t.text = none) :
    seek env (some t) s = (some t, s) := by
  rw [seek, h]
  dsimp only
  rw [if_neg hc, if_neg ha, hi]

theorem seek_other (hc : t.cls ≠ .comment) (hd : t.cls ≠ .directive) (hn : t.cls ≠ .name) :
    seek env (some t) s = (some t, s) := by
  rw [seek]
  split <;> simp_all

end Seek

/-- Goes on to the next token. -/
def advance (env : ScanEnv) (s : Scanner σ) : Scanner σ :=
  let (t, s') := seek env s.stream.next.1 { s with stream := s.stream.next.2 }
  { s' with current := t, position := s.position + s.current.toList.length }

/-- Makes `t` the current token again and puts the present one back. -/
def unread (t : Token) (s : Scanner σ) : Scanner σ :=
  { s with
    stream := match s.current with
      | some c => s.stream.push c
      | none => s.stream
    current := some t
    position := s.position - 1 }

omit [Feed σ] [LawfulFeed σ] in
theorem feed_unread (t : Token) (s : Scanner σ) :
    (s.unread t).stream.feed = s.stream.feed := by
  unfold unread
  cases s.current <;> rfl

omit [Feed σ] [LawfulFeed σ] in
/-- There is room for one token, and the one that is put back takes it. -/
theorem held_unread (t : Token) (s : Scanner σ) :
    (s.unread t).stream.held = s.current.or s.stream.held := by
  unfold unread
  cases s.current <;> rfl

end Scanner

end HeaderAtlas
