import HeaderAtlas.Proofs.Expressions.Grammar

/-!
# Expressions without the suffixes of their numbers

The text of a value is put together from tokens, and a decimal number loses its `U` on the way. An
expression is read from the whole text, in which nothing shows where the tokens met, so what is
dropped has to be where a word ends: `1U` before `2` would leave the word `12`.

Two texts that differ only in such suffixes (`Alike`) are the same expression or neither is one
(`Alike.ofCompact?_eq`). Likeness is symmetric, so it is enough that what derives one text derives
the other. As operators and parentheses end a word, texts that are alike can be taken apart at
them (`Alike.append`), and the induction follows the rules of the grammar (`Alike.derives`).
-/

namespace HeaderAtlas

namespace ConstExpr

variable {xs ys zs suffix : List Char} {c : Char} {e : ConstExpr} {level : Level}

/-! ## Where a word ends -/

theorem isAlphanum_of_isDigit (h : c.isDigit = true) : c.isAlphanum = true := by
  rw [Char.isAlphanum, h, Bool.or_true]

theorem not_endsWord_cons (hc : c.isAlphanum = true) : ¬ EndsWord (c :: xs) := by
  intro h
  rw [h c rfl] at hc
  cases hc

theorem endsWord_of_append (h : EndsWord (xs ++ ys)) : EndsWord xs := by
  cases xs with
  | nil => exact nofun
  | cons c xs => exact fun d hd => h d hd

/-- After the whole of a word there is nothing of it. -/
theorem eq_nil_of_endsWord (h : EndsWord xs) (hword : ∀ c ∈ xs, c.isAlphanum = true) :
    xs = [] := by
  cases xs with
  | nil => rfl
  | cons c xs => exact absurd h (not_endsWord_cons (hword c List.mem_cons_self))

/-! ## Texts alike -/

/-- The texts are the same, but for a `U` after a digit here and there where a word ends. -/
inductive Alike : List Char → List Char → Prop where
  | nil : Alike [] []
  | keep (c : Char) {xs ys : List Char} : Alike xs ys → Alike (c :: xs) (c :: ys)
  | shed {d : Char} {xs ys : List Char} :
      d.isDigit = true → EndsWord xs → Alike xs ys → Alike (d :: 'U' :: xs) (d :: ys)
  | grow {d : Char} {xs ys : List Char} :
      d.isDigit = true → EndsWord xs → Alike xs ys → Alike (d :: xs) (d :: 'U' :: ys)

namespace Alike

theorem prepend (front : List Char) (h : Alike xs ys) : Alike (front ++ xs) (front ++ ys) := by
  induction front with
  | nil => exact h
  | cons c front ih => exact .keep c ih

/-- The first character is never dropped. -/
theorem head?_eq (h : Alike xs ys) : xs.head? = ys.head? := by
  cases h <;> rfl

theorem endsWord (h : Alike xs ys) (hxs : EndsWord xs) : EndsWord ys := by
  rwa [EndsWord, ← h.head?_eq]

theorem symm (h : Alike xs ys) : Alike ys xs := by
  induction h with
  | nil => exact .nil
  | keep c _ ih => exact .keep c ih
  | shed hd hend h ih => exact .grow hd (h.endsWord hend) ih
  | grow hd hend h ih => exact .shed hd (h.endsWord hend) ih

theorem eq_nil (h : Alike [] ys) : ys = [] := by
  cases h
  rfl

/-- What is no digit is followed by what is alike. -/
theorem exists_cons (h : Alike (c :: xs) zs) (hc : c.isDigit = false) :
    ∃ ys, zs = c :: ys ∧ Alike xs ys := by
  cases h with
  | keep _ h => exact ⟨_, rfl, h⟩
  | shed hd => rw [hc] at hd; cases hd
  | grow hd => rw [hc] at hd; cases hd

/-- Texts that are alike can be taken apart where a word ends. -/
theorem append (h : Alike (xs ++ ys) zs) (hys : EndsWord ys) :
    ∃ xs' ys', zs = xs' ++ ys' ∧ Alike xs xs' ∧ Alike ys ys' := by
  generalize hwhole : xs ++ ys = ws at h
  induction h generalizing xs with
  | nil =>
    obtain ⟨rfl, rfl⟩ := List.append_eq_nil_iff.mp hwhole
    exact ⟨[], [], rfl, .nil, .nil⟩
  | keep c h ih =>
    cases xs with
    | nil => exact ⟨[], _, rfl, .nil, (show ys = _ from hwhole) ▸ h.keep c⟩
    | cons d xs =>
      obtain ⟨rfl, hrest⟩ := List.cons.inj hwhole
      obtain ⟨xs', ys', rfl, hxs, hys'⟩ := ih hrest
      exact ⟨d :: xs', ys', rfl, hxs.keep d, hys'⟩
  | shed hd hend h ih =>
    rcases xs with _ | ⟨c, _ | ⟨u, xs⟩⟩
    · rw [show ys = _ from hwhole] at hys
      exact absurd hys (not_endsWord_cons (isAlphanum_of_isDigit hd))
    · rw [show ys = _ from (List.cons.inj hwhole).2] at hys
      exact absurd hys (not_endsWord_cons (by decide))
    · obtain ⟨rfl, hrest⟩ := List.cons.inj hwhole
      obtain ⟨rfl, rfl⟩ := List.cons.inj hrest
      obtain ⟨xs', ys', rfl, hxs, hys'⟩ := ih rfl
      exact ⟨c :: xs', ys', rfl, hxs.shed hd (endsWord_of_append hend), hys'⟩
  | grow hd hend h ih =>
    cases xs with
    | nil =>
      rw [show ys = _ from hwhole] at hys
      exact absurd hys (not_endsWord_cons (isAlphanum_of_isDigit hd))
    | cons c xs =>
      obtain ⟨rfl, rfl⟩ := List.cons.inj hwhole
      obtain ⟨xs', ys', rfl, hxs, hys'⟩ := ih rfl
      exact ⟨c :: 'U' :: xs', ys', rfl, hxs.grow hd (endsWord_of_append hend), hys'⟩

/-- They can be taken apart at a sign. -/
theorem append_cons (h : Alike (xs ++ c :: ys) zs) (hc : c.isAlphanum = false) :
    ∃ xs' ys', zs = xs' ++ c :: ys' ∧ Alike xs xs' ∧ Alike ys ys' := by
  have hdigit : c.isDigit = false := (Bool.or_eq_false_iff.mp hc).2
  obtain ⟨xs', zs', rfl, hxs, hzs⟩ := h.append (endsWord_cons hc)
  obtain ⟨ys', rfl, hys⟩ := hzs.exists_cons hdigit
  exact ⟨xs', ys', rfl, hxs, hys⟩

/-! ## Literals -/

/-- Words that are alike differ in their last character at most. -/
theorem word (h : Alike xs ys) (hword : ∀ c ∈ xs, c.isAlphanum = true) :
    ys = xs ∨ xs = ys ++ ['U'] ∨ ys = xs ++ ['U'] := by
  induction h with
  | nil => exact .inl rfl
  | keep c h ih =>
    rcases ih fun d hd => hword d (List.mem_cons_of_mem c hd) with rfl | rfl | rfl
    · exact .inl rfl
    · exact .inr (.inl rfl)
    · exact .inr (.inr rfl)
  | shed hd hend h ih =>
    obtain rfl := eq_nil_of_endsWord hend fun c hc =>
      hword c (List.mem_cons_of_mem _ (List.mem_cons_of_mem _ hc))
    obtain rfl := h.eq_nil
    exact .inr (.inl rfl)
  | grow hd hend h ih =>
    obtain rfl := eq_nil_of_endsWord hend fun c hc => hword c (List.mem_cons_of_mem _ hc)
    obtain rfl := h.eq_nil
    exact .inr (.inr rfl)

/-- So literals that are alike differ in their suffix only. -/
theorem exists_suffix {front : List Char} (hfront : ∀ c ∈ front, isSuffix c = false)
    (hsuffix : ∀ c ∈ suffix, c ∈ ['u', 'U', 'l', 'L'])
    (hword : ∀ c ∈ front ++ suffix, c.isAlphanum = true) (h : Alike (front ++ suffix) ys) :
    ∃ suffix', ys = front ++ suffix' ∧ ∀ c ∈ suffix', c ∈ ['u', 'U', 'l', 'L'] := by
  rcases h.word hword with rfl | hshed | rfl
  · exact ⟨suffix, rfl, hsuffix⟩
  · -- What is left out is the end of the suffix, since the digits do not end in it.
    rcases List.eq_nil_or_concat suffix with rfl | ⟨suffix', u, rfl⟩
    · have hu : isSuffix 'U' = false := by
        refine hfront 'U' ?_
        rw [List.append_nil] at hshed
        rw [hshed]
        exact List.mem_append_right _ (List.mem_singleton_self _)
      cases hu
    · rw [List.concat_eq_append, ← List.append_assoc] at hshed
      obtain ⟨rfl, -⟩ := List.append_inj' hshed rfl
      exact ⟨suffix', rfl, fun c hc => hsuffix c (by simp [hc])⟩
  · refine ⟨suffix ++ ['U'], List.append_assoc .., fun c hc => ?_⟩
    rcases List.mem_append.mp hc with hc | hc
    · exact hsuffix c hc
    · rw [List.mem_singleton.mp hc]
      decide

/-! ## Expressions -/

/-- What derives one of two texts that are alike derives the other. -/
theorem derives (h : Alike xs ys) (hxs : Derives level xs e) : Derives level ys e := by
  induction hxs generalizing ys with
  | decimal hcs hsuffix =>
    obtain ⟨suffix', rfl, hsuffix'⟩ := h.exists_suffix (hcs.not_isSuffix (by omega)) hsuffix
      (hcs.isAlphanum (by omega) hsuffix)
    exact .decimal hcs hsuffix'
  | hexadecimal hx hcs hsuffix =>
    obtain ⟨suffix', rfl, hsuffix'⟩ := exists_suffix (not_isSuffix_hexadecimal hx hcs) hsuffix
      (isAlphanum_hexadecimal hx hcs hsuffix) h
    exact .hexadecimal hx hcs hsuffix'
  | neg _ ih =>
    obtain ⟨cs, rfl, hcs⟩ := h.exists_cons rfl
    exact .neg (ih hcs)
  | group _ ih =>
    obtain ⟨zs, rfl, hzs⟩ := h.exists_cons rfl
    obtain ⟨cs, rest, rfl, hcs, hrest⟩ := hzs.append_cons rfl
    obtain rfl := hrest.eq_nil
    exact .group (ih hcs)
  | unary _ ih => exact .unary (ih h)
  | add _ _ ihl ihr =>
    obtain ⟨ls, rs, rfl, hl, hr⟩ := h.append_cons rfl
    exact .add (ihl hl) (ihr hr)
  | sub _ _ ihl ihr =>
    obtain ⟨ls, rs, rfl, hl, hr⟩ := h.append_cons rfl
    exact .sub (ihl hl) (ihr hr)
  | sum _ ih => exact .sum (ih h)
  | shl _ _ ihl ihr =>
    obtain ⟨ls, zs, rfl, hl, hzs⟩ := h.append_cons rfl
    obtain ⟨rs, rfl, hr⟩ := hzs.exists_cons rfl
    exact .shl (ihl hl) (ihr hr)
  | shr _ _ ihl ihr =>
    obtain ⟨ls, zs, rfl, hl, hzs⟩ := h.append_cons rfl
    obtain ⟨rs, rfl, hr⟩ := hzs.exists_cons rfl
    exact .shr (ihl hl) (ihr hr)
  | shift _ ih => exact .shift (ih h)
  | or _ _ ihl ihr =>
    obtain ⟨ls, rs, rfl, hl, hr⟩ := h.append_cons rfl
    exact .or (ihl hl) (ihr hr)

/-- Texts that are alike are the same expression, or neither is one. -/
theorem ofCompact?_eq (h : Alike xs ys) : ofCompact? xs = ofCompact? ys := by
  refine Option.ext fun e => ?_
  rw [ofCompact?_eq_some_iff, ofCompact?_eq_some_iff]
  exact ⟨h.derives, h.symm.derives⟩

end Alike

/-! ## Tokens -/

/-- A token stays as it is, or it is a decimal number with a `U` after its last digit. -/
theorem stripUnsigned_cases (token : String) :
    stripUnsigned token = token ∨ ∃ front d, d.isDigit = true
      ∧ token.toList = front ++ [d, 'U'] ∧ (stripUnsigned token).toList = front ++ [d] := by
  unfold stripUnsigned
  split
  · next digits hdigits =>
    split
    · next hall =>
      right
      rw [Bool.and_eq_true, Bool.not_eq_true', List.isEmpty_eq_false_iff, List.all_eq_true] at hall
      rw [Text.dropTail?_eq_some_iff] at hdigits
      rcases List.eq_nil_or_concat digits with rfl | ⟨front, d, rfl⟩
      · exact absurd rfl hall.1
      · rw [List.concat_eq_append] at hdigits hall ⊢
        exact ⟨front, d, hall.2 d (by simp), by rw [hdigits, List.append_assoc]; rfl,
          String.toList_ofList⟩
    · exact .inl rfl
  · exact .inl rfl

/-- What is left of a token stands at its start. -/
theorem prefix_stripUnsigned (token : String) : (stripUnsigned token).toList <+: token.toList := by
  rcases stripUnsigned_cases token with heq | ⟨front, d, -, htoken, hstripped⟩
  · exact ⟨[], by rw [heq, List.append_nil]⟩
  · exact ⟨['U'], by rw [htoken, hstripped, List.append_assoc]; rfl⟩

theorem alike_stripUnsigned {token : String} (h : Alike xs ys)
    (hend : stripUnsigned token ≠ token → EndsWord xs) :
    Alike (token.toList ++ xs) ((stripUnsigned token).toList ++ ys) := by
  rcases stripUnsigned_cases token with heq | ⟨front, d, hd, htoken, hstripped⟩
  · rw [heq]
    exact h.prepend _
  · have hne : stripUnsigned token ≠ token := by
      intro heq
      rw [heq, htoken] at hstripped
      simpa using congrArg List.length hstripped
    rw [htoken, hstripped, List.append_assoc, List.append_assoc]
    exact (h.shed hd (hend hne)).prepend front

/-- The tokens put together are like what is left of them put together. -/
theorem alike_join {tokens : List String} (hne : ∀ t ∈ tokens, t ≠ "")
    (hends : tokens.IsChain fun t u => stripUnsigned t ≠ t → EndsWord u.toList) :
    Alike (tokens.flatMap String.toList) ((tokens.map stripUnsigned).flatMap String.toList) := by
  induction tokens with
  | nil => exact .nil
  | cons t ts ih =>
    obtain ⟨-, hts⟩ := List.forall_mem_cons.mp hne
    rw [List.map_cons, List.flatMap_cons, List.flatMap_cons]
    cases ts with
    | nil => exact alike_stripUnsigned .nil fun _ => nofun
    | cons u us =>
      obtain ⟨hend, hchain⟩ := List.isChain_cons_cons.mp hends
      refine alike_stripUnsigned (ih hts hchain) fun hchanged c hc => ?_
      -- The next token is not empty, so what comes next is what it starts with.
      have hnil : u.toList ≠ [] :=
        fun hnil => hts u List.mem_cons_self (String.toList_eq_nil_iff.mp hnil)
      obtain ⟨b, bs, hu⟩ := List.exists_cons_of_ne_nil hnil
      rw [List.flatMap_cons, hu] at hc
      exact hend hchanged c (by rw [hu]; exact hc)

theorem compact_join {tokens : List String}
    (h : ∀ t ∈ tokens, ∀ c ∈ t.toList, Text.isBlank c = false) :
    Text.compact (String.join tokens).toList = tokens.flatMap String.toList := by
  rw [String.toList_join, Text.compact, List.filter_eq_self]
  intro c hc
  obtain ⟨t, ht, hct⟩ := List.mem_flatMap.mp hc
  rw [h t ht c hct]
  rfl

/-- **Dropping suffixes keeps the value.** Of tokens that are neither empty nor have blanks in
them, and of which none that loses its suffix is followed by a letter or a digit, the text has the
same value with the suffixes and without them; or it has none either way. -/
theorem evaluate_join_stripUnsigned (tokens : List String) (hne : ∀ t ∈ tokens, t ≠ "")
    (hsolid : ∀ t ∈ tokens, ∀ c ∈ t.toList, Text.isBlank c = false)
    (hends : tokens.IsChain fun t u => stripUnsigned t ≠ t →
      ∀ c, u.toList.head? = some c → c.isAlphanum = false) :
    evaluate (String.join (tokens.map stripUnsigned)) = evaluate (String.join tokens) := by
  have hsolid' : ∀ t ∈ tokens.map stripUnsigned, ∀ c ∈ t.toList, Text.isBlank c = false := by
    intro t ht c hc
    obtain ⟨u, hu, rfl⟩ := List.mem_map.mp ht
    exact hsolid u hu c ((prefix_stripUnsigned u).mem hc)
  rw [evaluate, evaluate, ofText?, ofText?, compact_join hsolid, compact_join hsolid',
    (alike_join hne hends).ofCompact?_eq]

/-- The value `(1U<<0x3U)|4U-1`, in which only two of the suffixes are dropped. -/
def suffixedTokens : List String := ["(", "1U", "<<", "0x3U", ")", "|", "4U", "-", "1"]

theorem evaluate_of_suffixedTokens :
    suffixedTokens.map stripUnsigned = ["(", "1", "<<", "0x3U", ")", "|", "4", "-", "1"]
      ∧ evaluate (String.join (suffixedTokens.map stripUnsigned)) = some 11 := by
  have hsolid : (suffixedTokens.all fun t => t.toList.all (!Text.isBlank ·)) = true := by
    decide +kernel
  have hends : suffixedTokens.IsChain fun t u => stripUnsigned t ≠ t →
      u.toList.head?.all (!·.isAlphanum) = true := by
    decide +kernel
  have heq := evaluate_join_stripUnsigned suffixedTokens (by decide) (by simpa using hsolid)
    (hends.imp fun t u h hne c hc => by simpa [hc] using h hne)
  exact ⟨by decide +kernel, heq.trans (by decide +kernel)⟩

/-- Before another digit, the suffix is what keeps the numbers apart. -/
example : evaluate (String.join ["1U", "2"]) = none
    ∧ evaluate (String.join (["1U", "2"].map stripUnsigned)) = some 12 := by
  decide +kernel

end ConstExpr

end HeaderAtlas
