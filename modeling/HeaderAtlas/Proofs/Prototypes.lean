import HeaderAtlas.Proofs.Reader.Openings
import HeaderAtlas.Proofs.Reader.TypeTexts

/-!
# Prototypes

A prototype is recorded as it is written: the type of its result and its parameters are the texts
of their tokens, in order, and the scan goes on with the token after its `;`
(`function_of_prototype`). Where a type ends and a name begins is told by one token more, which
is put back; so it has to be shown that no parameter loses a token to the one beside it.

The width policy may have something against the texts, and it looks at them after they have been
put together. So `long` must not stand in any word, nor come about inside a dimension
(`refused_of_splitLong`).
-/

namespace HeaderAtlas

open Ending Reader WidthPolicy

/-! ## What is declared -/

namespace WrittenParam

/-- The words of the type. -/
def type : WrittenParam → WrittenType
  | bare T | named T _ _ | pointer T _ _ _ => T

/-- The parameter that is declared. A `...` is its own name. -/
def param : WrittenParam → Param
  | bare T => if T.text = "..." then ⟨"...", some "...", none⟩ else ⟨T.text, none, none⟩
  | named T name dims => ⟨T.text ++ dims.text, some name, none⟩
  | pointer T stars name _ =>
    ⟨T.text ++ "(" ++ (Token.joined stars ++ name) ++ ")", some name, none⟩

/-- Is there no `long` in the type, and does none come about in it? -/
def lacksLong : WrittenParam → Bool
  | bare T => T.lacksLong
  | named T _ dims => T.lacksLong && dims.lackLong
  | pointer T stars name _ => T.lacksLong && WidthPolicy.lacksLong (Token.joined stars ++ name)

/-- A parameter is read as it is declared. -/
theorem params_eq (p : WrittenParam) (h : p.type.isWorded = true) : p.params = [p.param] := by
  cases p with
  | bare T =>
    have htext : T.spec.text = T.text := T.text_spec h
    have hne : T.text.isEmpty = false := T.isEmpty_text h
    rw [params, param]
    simp only [name?, text, bareParam, htext, hne, Bool.false_eq_true, if_false]
    split <;> rfl
  | named T name dims =>
    have htext : T.spec.text = T.text := T.text_spec h
    rw [params, param]
    simp only [name?, text, TypeSpec.text_dimensions, htext]
  | pointer T stars name ps =>
    have htext : T.spec.text = T.text := T.text_spec h
    rw [params, param]
    simp only [name?, text, TypeSpec.append, TypeSpec.text_texts, htext, String.append_assoc]

theorem lacksLong_param (p : WrittenParam) (h : p.lacksLong = true) :
    WidthPolicy.lacksLong p.param.type = true := by
  cases p with
  | bare T =>
    rw [param]
    split
    · decide
    · exact T.lacksLong_text h
  | named T name dims =>
    rw [lacksLong, Bool.and_eq_true] at h
    exact dims.lacksLong_append h.2 (T.lacksLong_text h.1)
  | pointer T stars name ps =>
    rw [lacksLong, Bool.and_eq_true] at h
    have htext : (pointer T stars name ps).param.type
        = T.text ++ "(" ++ (Token.joined stars ++ name) ++ ")" ++ "" := String.append_empty.symm
    rw [htext]
    exact lacksLong_around (by decide)
      (lacksLong_around (by decide) (T.lacksLong_text h.1) h.2) (by decide)

end WrittenParam

namespace Signature

/-- The function that is declared. -/
def detail (f : Signature) : FunctionDetail where
  returnType := f.type.text
  params := f.params.map WrittenParam.param

/-- Does no type start with an empty word? -/
def isWorded (f : Signature) : Bool := f.type.isWorded && f.params.all (·.type.isWorded)

/-- Is there no `long` in a type, and does none come about in it? -/
def lacksLong (f : Signature) : Bool := f.type.lacksLong && f.params.all WrittenParam.lacksLong

variable {f : Signature}

theorem returnType_eq (h : f.isWorded = true) : f.returnType = f.detail.returnType := by
  rw [isWorded, Bool.and_eq_true] at h
  exact f.type.text_spec h.1

theorem readParams_eq (h : f.isWorded = true) : f.readParams = f.detail.params := by
  rw [isWorded, Bool.and_eq_true, List.all_eq_true] at h
  have hparams : ∀ p ∈ f.params, p.params = [p.param] := fun p hp => p.params_eq (h.2 p hp)
  rw [readParams, List.flatMap_def, List.map_congr_left hparams, ← List.flatMap_def]
  exact List.map_eq_flatMap.symm

/-- The policy has nothing against the function. -/
theorem tolerated (h : f.lacksLong = true) (w : WidthSettings) (name : String) :
    inFunction? w name f.detail.returnType f.detail.params = none := by
  rw [lacksLong, Bool.and_eq_true, List.all_eq_true] at h
  have hreturn : isPlainLong f.detail.returnType = false :=
    isPlainLong_of_lacksLong (f.type.lacksLong_text h.1)
  rw [inFunction?, hreturn, Bool.false_and, if_neg Bool.false_ne_true,
    List.findSome?_eq_none_iff]
  intro p hp
  obtain ⟨q, hq, rfl⟩ := List.mem_map.mp hp
  rw [isPlainLong_of_lacksLong (q.lacksLong_param (h.2 q hq))]
  rfl

end Signature

/-! ## Reading a prototype -/

variable {σ : Type} [Feed σ] [LawfulFeed σ] {env : ScanEnv} {f : Signature} {rest : List Token}

/-- A function that the policy tolerates is recorded. -/
theorem Reader.run_recordFunction {name returnType : String} {params : List Param}
    (h : inFunction? env.settings.width name returnType params = none)
    (isStatic isDefinition : Bool) (s : Scanner σ) :
    ∃ messages, (recordFunction name returnType params isStatic isDefinition).run (Routine.run env)
        env s
      = .ok () ((s.warn env .documentation messages).record env name .function
          (some (.function (DocBlock.readFunction s.comment name returnType params).value)) none
          isStatic) := by
  rw [recordFunction, run_bind, run_env, andThen_ok, run_bind, h]
  exact ⟨_, rfl⟩

/-- A prototype that nothing documents is recorded as it is declared, and is over at its `;`. -/
theorem Reader.run_undocumentedPrototype {P : TokenStream σ → Prop} {s : Scanner σ}
    {last : Context} (hf : f.isLegal env = true) (hworded : f.isWorded = true)
    (hlong : f.lacksLong = true) (hnone : last.comment = none)
    (hs : s.At env P .any (f.tokens ++ [.sep ";"]) last) :
    ∃ v o, wholeDeclaration.run (Routine.run env) env s = .ok (some .forget) v
      ∧ v.current = some (.sep ";") ∧ P v.stream
      ∧ v.findings = s.findings ++ [.declaration f.name .function o]
      ∧ o.detail = some (.function f.detail) := by
  obtain ⟨u, hrun, hat, hfindings⟩ :=
    LeadsTo.wholeDeclaration_function hf (List.cons_ne_nil _ []) last s hs
  obtain ⟨hcontext, hstream⟩ := hat.context_eq
  have hcur : u.current = some (.sep ";") := hat.current
  have hcomment : u.comment = none := (congrArg Context.comment hcontext).trans hnone
  rw [f.returnType_eq hworded, f.readParams_eq hworded, readFunction, run_bind, run_atSep,
    andThen_ok, hcur, Option.any_some, if_neg (by decide), run_bind, run_atSep, andThen_ok, hcur,
    Option.any_some, if_pos (by decide)] at hrun
  obtain ⟨messages, hrecord⟩ :=
    run_recordFunction (f.tolerated hlong env.settings.width f.name) f.storage.isStatic false u
  rw [run_bind, hrecord, hcomment] at hrun
  exact ⟨_, env.observe u.guards.active u.stream.line (some (.function f.detail)) none
    f.storage.isStatic, hrun, hcur, hstream, congrArg (· ++ _) hfindings, rfl⟩

/-- **A prototype is recorded as it is written**, and the scan goes on with what comes after its
`;`, if no type starts with an empty word and the policy finds no `long` in any of them. -/
theorem function_of_prototype {o : ScanOptions} {file : String} {feed : σ}
    (hf : f.isLegal (o.env file) = true) (hname : Catalog.admits f.name = true)
    (hpasses : f.tokens.all o.settings.grammar.passes = true) (hworded : f.isWorded = true)
    (hlong : f.lacksLong = true)
    (h : TokenStream.Supplies ⟨feed, none⟩ (f.tokens ++ .sep ";" :: rest)) :
    (∃ (v : Scanner σ) (obs : Observation),
        Scanner.run (o.env file) feed = v.finish (o.env file) .forget
        ∧ v.current = some (.sep ";") ∧ v.stream.Supplies rest
        ∧ v.findings = [.declaration f.name .function obs]
        ∧ obs.detail = some (.function f.detail))
      ∧ (rest = [] → ∃ C e, (Catalog.ofFeed o file feed).result = .ok C
        ∧ C.functions.get? f.name = some e ∧ e.category = .function
        ∧ e.detail = some (.function f.detail)) := by
  obtain ⟨t, ts, ht, hstart⟩ := Signature.exists_isName hf (.sep ";")
  have hall : (t :: ts).all o.settings.grammar.passes = true := by
    rw [← ht, List.all_append, hpasses]
    rfl
  have htokens : f.tokens ++ .sep ";" :: rest = t :: (ts ++ rest) := by
    rw [← List.cons_append, ← ht]
    simp
  obtain ⟨s, hs, hnothing, hrun⟩ :=
    Scanner.exists_opening (o.env file) hstart hall (htokens ▸ h)
  rw [← ht] at hs
  obtain ⟨v, obs, hread, hcurrent, hstream, hfindings, hdetail⟩ :=
    run_undocumentedPrototype hf hworded hlong rfl hs.toAny
  rw [hread, andThen_ok] at hrun
  rw [hnothing, List.nil_append] at hfindings
  refine ⟨⟨v, obs, hrun, hcurrent, hstream, hfindings, hdetail⟩, ?_⟩
  rintro rfl
  obtain ⟨u, hend, hkept⟩ := Scanner.exists_finish (o.env file) hstream (.inr rfl)
  obtain ⟨C, hC, hentries⟩ := Catalog.exists_of_run (hrun.trans hend)
  refine ⟨C, Entry.create f.name .function obs, hC, ?_, rfl, hdetail⟩
  refine (hentries .functions f.name).trans ?_
  rw [hkept, hfindings]
  simp [Catalog.sightings, Catalog.Finding.isOf, Category.shelf, Catalog.see, hname]

/-- A prototype with an array, a bare type and a `...`. -/
def openEnded : Signature where
  storage := .none
  type := WrittenType.int.const.pointer "*"
  name := "f"
  params := [
    .named ((WrittenType.struct "s").pointer "**") "a"
      [[.word "2"], [.word "n", ⟨.operator, "+"⟩, .word "1"]],
    .bare WrittenType.int.const, .bare .ellipsis]

/-- It is recorded as it is written, where nothing comes after it. Where a variable does, the scan
goes on with that. -/
theorem function_of_openEnded :
    (∃ C e, (Catalog.ofFeed {} "a.h" (openEnded.tokens ++ [.sep ";"])).result = .ok C
        ∧ C.functions.get? "f" = some e ∧ e.category = .function
        ∧ e.detail = some (.function { returnType := "const int *", params := [
            ⟨"struct s **[2][n+1]", some "a", none⟩, ⟨"const int", none, none⟩,
            ⟨"...", some "...", none⟩] }))
      ∧ ∃ v : Scanner (List Token), v.stream.Supplies [.word "int", .word "x", .sep ";"]
        ∧ Scanner.run (ScanOptions.env {} "a.h")
            (openEnded.tokens ++ .sep ";" :: [.word "int", .word "x", .sep ";"])
          = v.finish (ScanOptions.env {} "a.h") .forget := by
  have hlegal : openEnded.isLegal (ScanOptions.env {} "a.h") = true := by decide +kernel
  have hpasses : openEnded.tokens.all Settings.builtin.grammar.passes = true := by decide +kernel
  have hworded : openEnded.isWorded = true := by decide +kernel
  have hlong : openEnded.lacksLong = true := by decide +kernel
  have hdetail : openEnded.detail = { returnType := "const int *", params := [
      ⟨"struct s **[2][n+1]", some "a", none⟩, ⟨"const int", none, none⟩,
      ⟨"...", some "...", none⟩] } := by decide +kernel
  constructor
  · rw [← hdetail]
    exact (function_of_prototype hlegal (by decide +kernel) hpasses hworded hlong
      (TokenStream.supplies_list _)).2 rfl
  · obtain ⟨v, -, hrun, -, hstream, -⟩ := (function_of_prototype (o := {}) hlegal
      (by decide +kernel) hpasses hworded hlong (TokenStream.supplies_list _)).1
    exact ⟨v, hstream, hrun⟩

/-- A prototype with a dimension of two words. -/
def splitLong : Signature :=
  ⟨.none, .int, "f", [.named .int "a" [[.word "lo", .word "ng"]]]⟩

/-- No word has a `long` in it. But the two words of the dimension make up one, and where nothing
is excused from the width policy, the prototype is refused. -/
theorem refused_of_splitLong :
    let o : ScanOptions := { settings := { Settings.builtin with width := ⟨∅, ∅⟩ } }
    splitLong.isLegal (o.env "a.h") = true ∧ Catalog.admits splitLong.name = true
      ∧ splitLong.tokens.all o.settings.grammar.passes = true ∧ splitLong.isWorded = true
      ∧ (splitLong.tokens.all fun t => lacksLong t.text) = true
      ∧ (Catalog.ofFeed o "a.h" (splitLong.tokens ++ [.sep ";"])).failure?
        = some (.width (Violation.param "f" (some "a")).message ⟨"a.h", 1⟩) := by
  decide +kernel

end HeaderAtlas
