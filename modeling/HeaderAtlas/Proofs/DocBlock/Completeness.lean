import HeaderAtlas.Proofs.DocBlock.Sections

/-!
# Complete doc comments

A comment has a flaw for everything that it lacks, and for nothing else: it has none if and
only if it names its function, describes each parameter and no other, and says what the
function does and returns. A comment that names another function, or none, says nothing.
-/

namespace HeaderAtlas

namespace DocBlock

/-- The lines after the one naming the subject. -/
def body (comment : Option String) : List Line := skipSeparators (blockLines comment).tail

/-- The comment of a function says all that it should. -/
structure Complete (comment : Option String) (name returnType : String) (params : List Param) :
    Prop where
  marked : ∃ text, comment = some text ∧ text.toList.head? = some '*'
  headed : (blockLines comment).head? = some (headerLine name)
  /-- What stands in the argument section describes parameters. -/
  arguments : ∀ l ∈ argumentLines true (body comment),
    ∃ arg, Names l arg ∧ some arg ∈ params.map Param.name
  described : ∀ p ∈ params, ∀ arg, p.name = some arg → p.type ≠ "void" →
    p.description.isSome = true ∨ ∃ l ∈ argumentLines true (body comment), Names l arg
  returns : returnType ≠ "void" →
    (readFunction comment name returnType params).value.returnDescription ≠ ""
  summary : (readFunction comment name returnType params).value.description ≠ ""

variable {comment : Option String} {name returnType : String} {params : List Param}

/-- A comment that does not name the function has one flaw, and says nothing. -/
theorem readFunction_of_ne (h : (blockLines comment).head? ≠ some (headerLine name))
    (returnType : String) (params : List Param) :
    ∃ flaw, readFunction comment name returnType params = ⟨{ returnType, params }, [flaw]⟩ := by
  obtain ⟨flaw, hflaw⟩ := afterHeader_of_ne h
  exact ⟨flaw, by rw [readFunction, hflaw]⟩

/-- The flaws of a comment that names the function, section by section. -/
theorem flaws_of_head? (hnodup : (params.filterMap Param.name).Nodup)
    (h : (blockLines comment).head? = some (headerLine name)) :
    (readFunction comment name returnType params).flaws
      = brokenArguments (arguments true (body comment)).1
        ++ (describedArguments (arguments true (body comment)).1).filterMap (stray? params)
        ++ undescribedParams
          (params.map ((describedArguments (arguments true (body comment)).1).foldl describe ·))
        ++ (if (readFunction comment name returnType params).value.returnDescription.isEmpty
            && returnType != "void" then [.undescribedReturn] else [])
        ++ (if (readFunction comment name returnType params).value.description.isEmpty then
            [.undescribed] else []) := by
  simp only [readFunction, afterHeader_of_head? h, describeParams_eq hnodup, body]

/-- No flaw means a complete comment, and the other way round; and a comment that does not
name the function is read like none. -/
theorem flaws_eq_nil_iff (hnodup : (params.filterMap Param.name).Nodup) :
    ((readFunction comment name returnType params).flaws = []
        ↔ Complete comment name returnType params)
      ∧ ((blockLines comment).head? ≠ some (headerLine name) →
        (readFunction comment name returnType params).value
          = (readFunction none name returnType params).value) := by
  by_cases hhead : (blockLines comment).head? = some (headerLine name)
  · refine ⟨?_, fun hne => absurd hhead hne⟩
    have hspec := (arguments_spec true (body comment)).2
    have hreturns : ∀ text : String,
        (if (text.isEmpty && returnType != "void") = true then [Flaw.undescribedReturn] else []) = []
          ↔ (returnType ≠ "void" → text ≠ "") := by
      intro text
      simp [ite_eq_right_iff, imp_not_comm]
    have hsummary : ∀ text : String,
        (if text.isEmpty = true then [Flaw.undescribed] else []) = [] ↔ text ≠ "" := by
      intro text
      simp
    rw [flaws_of_head? hnodup hhead, List.append_eq_nil_iff, List.append_eq_nil_iff,
      List.append_eq_nil_iff, List.append_eq_nil_iff, brokenArguments_eq_nil_iff hspec,
      stray_eq_nil_iff, undescribedParams_eq_nil_iff, hreturns, hsummary]
    simp only [mem_describedNames_iff hspec]
    constructor
    · rintro ⟨⟨⟨⟨hcolons, hknown⟩, hdescribed⟩, hreturn⟩, hsaid⟩
      refine ⟨?_, hhead, fun l hl => ?_, hdescribed, hreturn, hsaid⟩
      · cases comment with
        | none => cases hhead
        | some text => exact ⟨text, rfl, star_of_blockLines rfl hhead⟩
      · obtain ⟨arg, harg⟩ := hcolons l hl
        exact ⟨arg, harg, hknown arg ⟨l, hl, harg⟩⟩
    · intro h
      refine ⟨⟨⟨⟨fun l hl => ?_, fun arg hnamed => ?_⟩, h.described⟩, h.returns⟩, h.summary⟩
      · obtain ⟨arg, harg, -⟩ := h.arguments l hl
        exact ⟨arg, harg⟩
      · obtain ⟨l, hl, harg⟩ := hnamed
        obtain ⟨other, hother, hmem⟩ := h.arguments l hl
        rwa [harg.unique hother]
  · obtain ⟨flaw, hflaw⟩ := readFunction_of_ne hhead returnType params
    rw [hflaw]
    exact ⟨iff_of_false (List.cons_ne_nil _ _) fun hcomplete => hhead hcomplete.headed,
      fun _ => rfl⟩

theorem complete_of_square :
    (([⟨"int", some "x", none⟩] : List Param).filterMap Param.name).Nodup
    ∧ Complete (some "*\n* square:\n* @x: a number\n*\n* Multiplies.\n*\n* Returns the product.\n")
      "square" "int" [⟨"int", some "x", none⟩]
    ∧ (readFunction (some "*\n* cube:\n* @x: a number\n") "square" "int"
          [⟨"int", some "x", none⟩]).value
        = (readFunction none "square" "int" [⟨"int", some "x", none⟩]).value :=
  ⟨by decide, (flaws_eq_nil_iff (by decide)).1.mp (by decide +kernel),
    (flaws_eq_nil_iff (by decide)).2 (by decide +kernel)⟩

end DocBlock

end HeaderAtlas
