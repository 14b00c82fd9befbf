import HeaderAtlas.Proofs.Reader.Progress

/-!
# The pushback slot and the end of the tokens

Going on to the next token empties the slot of the stream, whatever is taken in on the way.
Over a list, a vain look for a token means that the list is used up and the slot is empty.
-/

namespace HeaderAtlas

variable {σ : Type} [Feed σ]

namespace TokenStream

theorem held_next (st : TokenStream σ) : st.next.2.held = none := by
  unfold next
  cases h : st.held with
  | none => rfl
  | some t => rfl

theorem held_of_next {st st' : TokenStream σ} {t : Option Token} (h : st.next = (t, st')) :
    st'.held = none := by
  have := st.held_next
  rwa [h] at this

variable [LawfulFeed σ]

theorem held_directiveArgs (st : TokenStream σ) : st.directiveArgs.2.2.held = none := by
  fun_induction directiveArgs st with
  | case1 st rest h => exact held_of_next h
  | case2 st t rest h _ _ args next after hd ih =>
    rw [hd] at ih
    exact ih
  | case3 st t rest h _ _ => exact held_of_next h

theorem held_skipAttribute (st : TokenStream σ) : st.skipAttribute.2.held = none := by
  fun_induction skipAttribute st with
  | case1 st rest h => exact held_of_next h
  | case2 st t rest h _ _ => exact held_of_next h
  | case3 st t rest h _ _ ih => exact ih

/-! ## Lists that are used up -/

theorem eq_empty_of_next {st st' : TokenStream (List Token)} (h : st.next = (none, st')) :
    st' = ⟨[], none⟩ := by
  obtain ⟨feed, held⟩ := st
  cases held with
  | some t => cases h
  | none =>
    cases feed with
    | nil => cases h; rfl
    | cons t ts => cases h

theorem eq_empty_of_directiveArgs {st : TokenStream (List Token)}
    (h : st.directiveArgs.2.1 = none) : st.directiveArgs.2.2 = ⟨[], none⟩ := by
  fun_induction directiveArgs st with
  | case1 st rest hnext => exact eq_empty_of_next hnext
  | case2 st t rest hnext _ _ args next after hd ih =>
    rw [hd] at ih
    exact ih h
  | case3 st t rest hnext _ _ => cases h

theorem eq_empty_of_skipAttribute {st : TokenStream (List Token)}
    (h : st.skipAttribute.1 = none) : st.skipAttribute.2 = ⟨[], none⟩ := by
  fun_induction skipAttribute st with
  | case1 st rest hnext => exact eq_empty_of_next hnext
  | case2 st t rest hnext _ _ => cases h
  | case3 st t rest hnext _ _ ih => exact ih h

end TokenStream

namespace Scanner

open TokenStream

variable [LawfulFeed σ] (env : ScanEnv)

theorem held_seek (next : Option Token) (s : Scanner σ) (h : s.stream.held = none) :
    (seek env next s).2.stream.held = none := by
  fun_induction seek env next s with
  | case1 s => exact h
  | case2 s t _ _ ih => exact ih s.stream.held_next
  | case3 s t _ _ s' ih =>
    apply ih
    rw [stream_obey]
    exact s.stream.held_directiveArgs
  | case4 s t => exact h
  | case5 s t => exact s.stream.held_skipAttribute
  | case6 s t _ _ _ count _ _ _ ih => exact ih (held_next _)
  | case7 s t => exact h
  | case8 s t => exact h

/-- Going on to the next token empties the slot. -/
theorem held_advance (s : Scanner σ) : (s.advance env).stream.held = none :=
  held_seek env s.stream.next.1 { s with stream := s.stream.next.2 } s.stream.held_next

theorem seek_eq_empty (next : Option Token) (s : Scanner (List Token))
    (hend : next = none → s.stream = ⟨[], none⟩) (h : (seek env next s).1 = none) :
    (seek env next s).2.stream = ⟨[], none⟩ := by
  have hnext : ∀ st : TokenStream (List Token), st.next.1 = none → st.next.2 = ⟨[], none⟩ :=
    fun st hst => eq_empty_of_next (Prod.ext hst rfl)
  fun_induction seek env next s with
  | case1 s => exact hend rfl
  | case2 s t _ _ ih => exact ih (hnext _) h
  | case3 s t _ _ s' ih =>
    refine ih (fun hargs => ?_) h
    rw [stream_obey]
    exact eq_empty_of_directiveArgs hargs
  | case4 s t => cases h
  | case5 s t => exact eq_empty_of_skipAttribute h
  | case6 s t _ _ _ count _ _ _ ih => exact ih (hnext _) h
  | case7 s t => cases h
  | case8 s t => cases h

/-- Over a list, there is no next token only if all tokens are used up. -/
theorem eq_empty_of_advance (s : Scanner (List Token)) (h : (s.advance env).current = none) :
    (s.advance env).stream = ⟨[], none⟩ :=
  seek_eq_empty env s.stream.next.1 { s with stream := s.stream.next.2 }
    (fun hnext => eq_empty_of_next (Prod.ext hnext rfl)) h

end Scanner

end HeaderAtlas
