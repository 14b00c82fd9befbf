import HeaderAtlas.Proofs.Reader.Enumerators

/-!
# Reading an enumeration

An enumeration stands at the top level, with or without `typedef`, a tag and a name after its
closing brace (`EnumFrame`). Given how what is between the braces is read (`Enumerates`), this is
what is recorded: the enumerators, each with the name after the brace as the name of its type, and
then that name itself, as a typedef or as a variable (`EnumFrame.exists_run`).
-/

namespace HeaderAtlas

open Ending Reader
open Catalog (Finding)

/-! ## What is written -/

/-- What stands around the braces of an enumeration. -/
structure EnumFrame where
  isTypedef : Bool
  tag : Option String
  /-- The name after the closing brace. -/
  name : Option String
deriving DecidableEq

namespace EnumFrame

/-- The tokens up to the opening brace. -/
def opening (F : EnumFrame) : List Token :=
  (if F.isTypedef then [.word "typedef"] else []) ++ .word "enum"
    :: (F.tag.toList.map Token.word ++ [.sep "\x7b"])

/-- The tokens after the closing brace. -/
def ending (F : EnumFrame) : List Token := F.name.toList.map Token.word ++ [.sep ";"]

/-- The tokens of an enumeration with this between its braces. -/
def around (F : EnumFrame) (body : List Token) : List Token :=
  F.opening ++ (body ++ .sep "\x7d" :: F.ending)

/-- Can it be read? A typedef has to have a name. -/
def isLegal (env : ScanEnv) (F : EnumFrame) : Bool :=
  Token.startsDeclaration env (.word "enum") && (!F.isTypedef || F.name.isSome)

end EnumFrame

/-- What is known about the value of an enumerator. -/
def Enumerator.valueIn (enumType : Option String) (e : Enumerator) : EnumValue where
  value := e.value
  numeric := e.numeric
  bitShift := ConstExpr.bitShift? e.value
  description := e.description
  enumType := enumType

/-- What is found of an enumerator. -/
def Enumerator.finding (env : ScanEnv) (guards : List String) (enumType : Option String)
    (e : Enumerator) : Finding :=
  .declaration e.name .enumerator
    (env.observe guards e.line (some (.enumerator (e.valueIn enumType))) none env.isLocal)

variable {σ : Type} [Feed σ] [LawfulFeed σ] {env : ScanEnv} {P : TokenStream σ → Prop}
  {s u : Scanner σ} {t : Token} {c y : Cell} {cs ys : List Cell} {Q : List Enumerator → Prop}
  {messages : List String}

namespace Reader

/-- Whatever comes after them, these cells up to the closing brace are read as enumerators like
this, and these warnings are given. There is no comment before the opening brace. -/
def Enumerates (σ : Type) [Feed σ] [LawfulFeed σ] (env : ScanEnv) (cells : List Cell)
    (Q : List Enumerator → Prop) (messages : List String) : Prop :=
  ∀ (P : TokenStream σ → Prop) (c : Cell) (cs : List Cell) (y : Cell) (ys : List Cell) (g : Guards)
    (s : Scanner σ), cells = c :: cs → s.Before env P c.token (cs ++ y :: ys) →
    s.context = Aside.afterAll env ⟨none, g⟩ c.asides →
    ∃ es s', readEnumerators.run (Routine.run env) env s = .ok es s' ∧ Q es
      ∧ s'.Before env P y.token ys ∧ s'.findings = s.findings ∧ s'.lost = s.lost ++ messages

/-- The name that a token is, if it is one. -/
def nameOf? (t : Token) : Option String := ((some t).filter Token.isName).map Token.text

/-- What is left of an enumeration from its opening brace on. -/
def readBraces : Reader BaseSpec := do
  dropComment
  advance
  let es ← readEnumerators
  recordEnumerators es (← currentName)
  return ⟨{ text := "enum", enumBody := true }, false⟩

/-- The enumerators are recorded with the name after the closing brace. -/
theorem exists_readBraces (hbody : Enumerates σ env (c :: cs) Q messages)
    (h : s.Before env P t (c :: (cs ++ y :: ys))) :
    ∃ es g s', readBraces.run (Routine.run env) env s
        = .ok ⟨{ text := "enum", enumBody := true }, false⟩ s' ∧ Q es
      ∧ s'.Before env P y.token ys
      ∧ s'.findings = s.findings ++ es.map (Enumerator.finding env g (nameOf? y.token))
      ∧ s'.lost = s.lost ++ messages := by
  have hs := h.forget.advance
  obtain ⟨es, u, hrun, hQ, hu, hfindings, hlost⟩ :=
    hbody P c cs y ys s.guards _ rfl hs.before hs.context
  refine ⟨es, u.guards.active, u.find (es.map (Enumerator.finding env u.guards.active
    (nameOf? y.token))), ?_, hQ, ⟨hu.current, hu.stream, hu.quiet⟩, ?_, ?_⟩
  · have hname : (u.current.filter Token.isName).map Token.text = nameOf? y.token := by
      rw [hu.current, nameOf?]
    have hdrop : dropComment.run (Routine.run env) env s = .ok () s.forget := rfl
    rw [readBraces, run_bind, hdrop, andThen_ok, run_bind, run_advance, andThen_ok, run_bind, hrun,
      andThen_ok, run_bind, run_currentName, andThen_ok, hname]
    rfl
  · rw [Scanner.find, hfindings, hs.findings]
    rfl
  · exact hlost.trans (by rw [hs.lost, List.append_nil]; rfl)

/-- The whole of an enumeration that is the base of a type. -/
theorem exists_readEnum {tag : Option String} {ws : List Cell} {o : Cell}
    (hws : ws.map Cell.token = tag.toList.map Token.word) (ho : o.token = .sep "\x7b")
    (hbody : Enumerates σ env (c :: cs) Q messages)
    (h : s.Before env P t (ws ++ o :: c :: (cs ++ y :: ys))) :
    ∃ es g s', (readEnum {}).run (Routine.run env) env s
        = .ok ⟨{ text := "enum", enumBody := true }, false⟩ s' ∧ Q es
      ∧ s'.Before env P y.token ys
      ∧ s'.findings = s.findings ++ es.map (Enumerator.finding env g (nameOf? y.token))
      ∧ s'.lost = s.lost ++ messages := by
  -- The opening brace is reached in one step or, with a tag, in two.
  obtain ⟨u, hrun, hu, hfindings, hlost⟩ : ∃ u : Scanner σ,
      (readEnum {}).run (Routine.run env) env s = readBraces.run (Routine.run env) env u
        ∧ u.Before env P o.token (c :: (cs ++ y :: ys)) ∧ u.findings = s.findings
        ∧ u.lost = s.lost := by
    have hbrace : Token.isSep "\x7b" o.token = true := by rw [ho]; rfl
    cases tag with
    | none =>
      obtain rfl := List.map_eq_nil_iff.mp hws
      have hs := h.advance
      refine ⟨s.advance env, ?_, hs.before, hs.findings, by rw [hs.lost, List.append_nil]⟩
      have hname : (s.advance env).current.filter Token.isName = none := by
        rw [hs.before.current, ho]; rfl
      rw [readEnum, run_bind, run_advance, andThen_ok, run_bind, run_currentName, andThen_ok, hname,
        Option.map_none, Option.isSome_none, if_neg Bool.false_ne_true, run_bind, run_atSep,
        andThen_ok, hs.before.current, Option.any_some, if_pos hbrace]
      rfl
    | some tag =>
      obtain ⟨w, vs, rfl, hw, hvs⟩ := List.map_eq_cons_iff.mp hws
      obtain rfl := List.map_eq_nil_iff.mp hvs
      have hs := h.advance
      have hs' := hs.before.advance
      refine ⟨(s.advance env).advance env, ?_, hs'.before, hs'.findings.trans hs.findings, ?_⟩
      · have hname : (s.advance env).current.filter Token.isName = some (.word tag) := by
          rw [hs.before.current, hw]; rfl
        rw [readEnum, run_bind, run_advance, andThen_ok, run_bind, run_currentName, andThen_ok,
          hname, Option.map_some, Option.isSome_some, if_pos rfl, run_bind, run_advance, andThen_ok,
          run_bind, run_atSep, andThen_ok, hs'.before.current, Option.any_some, if_pos hbrace]
        rfl
      · rw [hs'.lost, hs.lost, List.append_nil, List.append_nil]
  obtain ⟨es, g, s', hbraces, hQ, hs', hfound, hwarned⟩ := exists_readBraces hbody hu
  exact ⟨es, g, s', hrun.trans hbraces, hQ, hs', hfindings ▸ hfound, hlost ▸ hwarned⟩

/-- The type that an enumeration is. -/
theorem exists_readType {tag : Option String} {ws : List Cell} {o : Cell}
    (hws : ws.map Cell.token = tag.toList.map Token.word) (ho : o.token = .sep "\x7b")
    (hbody : Enumerates σ env (c :: cs) Q messages)
    (h : s.Before env P (.word "enum") (ws ++ o :: c :: (cs ++ y :: ys))) :
    ∃ es g s', readType.run (Routine.run env) env s
        = .ok { text := "enum", enumBody := true } s' ∧ Q es
      ∧ s'.Before env P y.token ys
      ∧ s'.findings = s.findings ++ es.map (Enumerator.finding env g (nameOf? y.token))
      ∧ s'.lost = s.lost ++ messages := by
  obtain ⟨es, g, s', hrun, hrest⟩ := exists_readEnum hws ho hbody h
  refine ⟨es, g, s', ?_, hrest⟩
  have hword : ∀ word, ("enum" == word) = false → s.current.any (Token.isWord word) = false := by
    intro word hne
    rw [h.current]
    exact hne
  have henum : s.current.any (Token.isWord "enum") = true := by rw [h.current]; rfl
  have hqualifiers : (takeWords isQualifier {}).run (Routine.run env) env s = .ok {} s := by
    refine Scanner.iterate_done ?_
    rw [takeRound, run_bind, run_look, andThen_ok]
    simp only [Scanner.view, h.current]
    rfl
  have hbase : (readBase {}).run (Routine.run env) env s
      = (readEnum {}).run (Routine.run env) env s := by
    simp only [readBase, run_bind, run_atWord, andThen_ok, hword "long" (by decide),
      hword "short" (by decide), hword "struct" (by decide), hword "union" (by decide), henum,
      Bool.false_eq_true, if_false, if_true]
  have hend : s.current.isNone = false := by rw [h.current]; rfl
  refine (Routine.run_eq env .type s).trans ?_
  show wholeType.run (Routine.run env) env s = _
  rw [wholeType, run_bind, run_atEnd, andThen_ok, hend, if_neg Bool.false_ne_true, run_bind,
    hqualifiers, andThen_ok, run_bind, hbase, hrun]
  rfl

/-! ## The declaration around it -/

/-- A declaration without `typedef` is read as a type and declarators. -/
theorem run_wholeDeclaration (hs : s.current = some t) (ht : t.startsDeclaration env = true) :
    wholeDeclaration.run (Routine.run env) env s
      = (readDeclarators false).run (Routine.run env) env s := by
  simp only [Token.startsDeclaration, Bool.and_eq_true, Bool.not_eq_true', List.contains_cons,
    List.contains_nil, Bool.or_false, Bool.or_eq_false_iff] at ht
  obtain ⟨⟨-, hextern, hstatic, htypedef⟩, hform⟩ := ht
  have hnone : env.settings.grammar.specialForms.get? t.text = none := by
    simpa [NameMap.contains] using hform
  have hword : ∀ word, (t.text == word) = false → t.isWord word = false := by
    intro word hne
    rw [Token.isWord, hne, Bool.and_false]
  simp only [wholeDeclaration, readUnqualified, run_bind, run_atWord, run_look, run_env, andThen_ok,
    Scanner.view, hs, Option.any_some, hword _ hextern, hword _ hstatic, hword _ htypedef, hnone,
    Bool.false_eq_true, if_false]

/-- One with `typedef` is read from after the word. -/
theorem run_wholeDeclaration_typedef (hs : s.current = some (.word "typedef")) :
    wholeDeclaration.run (Routine.run env) env s
      = (readTypedef.run (Routine.run env) env (s.advance env)).andThen fun closed u =>
          .ok (if closed then some .nothing else none) u := by
  have hextern : Token.isWord "extern" (.word "typedef") = false := by decide
  have hstatic : Token.isWord "static" (.word "typedef") = false := by decide
  have htypedef : Token.isWord "typedef" (.word "typedef") = true := by decide
  simp only [wholeDeclaration, readUnqualified, run_bind, run_atWord, run_look, run_advance,
    andThen_ok, Scanner.view, hs, Option.any_some, hextern, hstatic, htypedef, Bool.false_eq_true,
    if_false, if_true]
  rfl

/-- The type of an enumeration. -/
def enumSpec : TypeSpec := { text := "enum", enumBody := true }

/-- There may be nothing declared by it. -/
theorem run_readDeclarators_nothing
    (htype : readType.run (Routine.run env) env s = .ok enumSpec u)
    (hu : u.current = some (.sep ";")) :
    (readDeclarators false).run (Routine.run env) env s = .ok (some .nothing) u := by
  have hsemicolon : u.current.any (Token.isSep ";") = true := by rw [hu]; rfl
  rw [readDeclarators, run_bind, htype, andThen_ok, run_bind, run_atSep, andThen_ok, hsemicolon]
  rfl

/-- The name after it is a variable. -/
theorem run_readDeclarators_variable {name : String}
    (htype : readType.run (Routine.run env) env s = .ok enumSpec u)
    (hu : u.current = some (.word name)) (hnext : (u.advance env).current = some (.sep ";")) :
    (readDeclarators false).run (Routine.run env) env s
      = .ok (some (.declare enumSpec ⟨name, "enum"⟩ false)) (u.advance env).forget := by
  have hsemicolon : u.current.any (Token.isSep ";") = false := by rw [hu]; rfl
  have hname : u.current.filter Token.isName = some (.word name) := by rw [hu]; rfl
  have hround : (declaratorRound enumSpec false (⟨name, "enum"⟩, none)).run (Routine.run env) env
      (u.advance env) = .ok (.done (⟨name, "enum"⟩, some (.declare enumSpec ⟨name, "enum"⟩ false)))
        (u.advance env).forget := by
    have hclass : (u.advance env).current.any (·.cls == .separator) = true := by rw [hnext]; rfl
    have hbracket : (u.advance env).current.any (Token.isSep "[") = false := by rw [hnext]; rfl
    have hassign : (u.advance env).current.any (Token.isOp "=") = false := by rw [hnext]; rfl
    have hend : (u.advance env).current.any (Token.isSep ";") = true := by rw [hnext]; rfl
    simp only [declaratorRound, endDeclarator, run_bind, run_atClass, run_atSep, run_atOp, run_pure,
      andThen_ok, hclass, hbracket, hassign, hend, Bool.true_or, Bool.not_true, Bool.false_eq_true,
      if_false, if_true]
    rfl
  have hloop : (loop (declaratorRound enumSpec false) (⟨name, "enum"⟩, none)).run (Routine.run env)
      env (u.advance env) = .ok (⟨name, "enum"⟩, some (.declare enumSpec ⟨name, "enum"⟩ false))
        (u.advance env).forget := Scanner.iterate_done hround
  rw [readDeclarators, run_bind, htype, andThen_ok, run_bind, run_atSep, andThen_ok, hsemicolon,
    Bool.and_false, if_neg Bool.false_ne_true, run_bind, run_currentName, andThen_ok, hname,
    Option.map_some]
  dsimp only
  rw [run_bind, run_advance, andThen_ok, run_bind]
  exact congrArg (fun r => r.andThen fun p s' => .ok p.2 s') hloop

/-- The state after a typedef of an enumeration has been recorded. -/
def recordEnumName (env : ScanEnv) (name : String) (s : Scanner σ) :
    Scanner σ :=
  s.record env name .typedef (some (.type "enum")) (DocBlock.readTypedef s.comment name) env.isLocal

/-- The name of a typedef is recorded. -/
theorem run_readTypedef {name : String} (hs : s.current = some t)
    (htype : readType.run (Routine.run env) env s = .ok enumSpec u)
    (hu : u.current = some (.word name))
    (hnext : ((recordEnumName env name u).advance env).current = some (.sep ";")) :
    readTypedef.run (Routine.run env) env s
      = .ok true ((recordEnumName env name u).advance env) := by
  have hend : s.current.isNone = false := by rw [hs]; rfl
  have hname : u.current.filter Token.isName = some (.word name) := by rw [hu]; rfl
  have hround : (typedefRound none ⟨"enum", "enum", none, none, false⟩).run (Routine.run env) env u
      = .ok (.done ⟨"enum", "enum", none, none, true⟩)
        ((recordEnumName env name u).advance env) := by
    have hrecord : (recordTypedef none name ⟨"enum", "enum", none, none, false⟩).run
        (Routine.run env) env u
        = .ok ⟨"enum", "enum", none, none, false⟩ (recordEnumName env name u) := rfl
    have hcomma : ((recordEnumName env name u).advance env).current.any (Token.isSep ",")
        = false := by
      rw [hnext]; rfl
    have hsemicolon : ((recordEnumName env name u).advance env).current.any (Token.isSep ";")
        = true := by
      rw [hnext]; rfl
    rw [typedefRound, run_bind, run_currentName, andThen_ok, hname, Option.map_some]
    dsimp only [Token.word]
    rw [run_bind, hrecord, andThen_ok, run_bind, run_advance, andThen_ok, run_bind, run_atSep,
      andThen_ok, hcomma, if_neg Bool.false_ne_true, run_bind, run_atSep, andThen_ok, hsemicolon,
      if_pos rfl]
    rfl
  have hloop : (loop (typedefRound none) ⟨"enum", "enum", none, none, false⟩).run (Routine.run env)
      env u = .ok ⟨"enum", "enum", none, none, true⟩ ((recordEnumName env name u).advance env) :=
    Scanner.iterate_done hround
  rw [readTypedef, run_bind, run_atEnd, andThen_ok, hend, if_neg Bool.false_ne_true, run_bind,
    htype, andThen_ok, run_bind]
  exact congrArg (fun r => r.andThen fun p s' => .ok p.closed s') hloop

end Reader

namespace Scanner

/-- The file is over, and there is nothing left to record. -/
theorem exists_proceed_nothing (env : ScanEnv) (h : u.stream.Supplies []) :
    ∃ v, u.proceed env (some .nothing) = .ok () v ∧ v.findings = u.findings ∧ v.lost = u.lost := by
  obtain ⟨hcurrent, hfindings, -⟩ := advance_end env h
  exact ⟨u.advance env, finish_eq rfl hcurrent, hfindings, lost_advance u⟩

/-- The file is over, and the name after the enumeration is recorded as a variable. -/
theorem exists_proceed_variable (env : ScanEnv) (h : u.stream.Supplies []) (name : String) :
    ∃ v o, u.proceed env (some (.declare enumSpec ⟨name, "enum"⟩ false)) = .ok () v
      ∧ v.findings = u.findings ++ [.declaration name .var o] ∧ v.lost = u.lost := by
  obtain ⟨hcurrent, hfindings, -⟩ := advance_end env h
  have hclose : (close (.declare enumSpec ⟨name, "enum"⟩ false)).run (Routine.run env) env u
      = .ok () ((u.advance env).record env name .var (some (.type "enum")) none
        (false || env.isLocal)) := rfl
  exact ⟨_, _, finish_eq hclose hcurrent, congrArg (· ++ _) hfindings, lost_advance u⟩

end Scanner

namespace EnumFrame

variable {F : EnumFrame} {before inside after : List Cell} {feed : σ}

/-- Without `typedef`, the name after the closing brace is a variable. -/
theorem exists_proceed_plain {name? : Option String}
    (hstart : Token.startsDeclaration env (.word "enum") = true)
    (hs : s.current = some (.word "enum"))
    (htype : readType.run (Routine.run env) env s = .ok enumSpec u)
    (hu : u.Before env (·.Supplies []) y.token ys)
    (hending : (y :: ys).map Cell.token = name?.toList.map Token.word ++ [.sep ";"]) :
    ∃ v extra, (wholeDeclaration.run (Routine.run env) env s).andThen (fun c? w => w.proceed env c?)
        = .ok () v
      ∧ v.findings = u.findings ++ extra
      ∧ (∀ name, Catalog.sightings .enumerators name extra = []) ∧ v.lost = u.lost := by
  rw [run_wholeDeclaration hs hstart]
  cases name? with
  | none =>
    obtain ⟨hy, hys⟩ := List.cons.inj hending
    obtain rfl := List.map_eq_nil_iff.mp hys
    have hcurrent : u.current = some (.sep ";") := hu.current.trans (congrArg some hy)
    obtain ⟨v, hv, hfindings, hlost⟩ := Scanner.exists_proceed_nothing env (u := u) hu.stream
    refine ⟨v, [], ?_, by rw [hfindings, List.append_nil], fun _ => rfl, hlost⟩
    rw [run_readDeclarators_nothing htype hcurrent, andThen_ok, hv]
  | some name =>
    obtain ⟨hy, hys⟩ := List.cons.inj hending
    obtain ⟨z, zs, rfl, hz, hzs⟩ := List.map_eq_cons_iff.mp hys
    obtain rfl := List.map_eq_nil_iff.mp hzs
    have hcurrent : u.current = some (.word name) := hu.current.trans (congrArg some hy)
    have hend := hu.advance
    have hnext : (u.advance env).current = some (.sep ";") :=
      hend.before.current.trans (congrArg some hz)
    obtain ⟨v, o, hv, hfindings, hlost⟩ :=
      Scanner.exists_proceed_variable env (u := (u.advance env).forget) hend.before.stream name
    refine ⟨v, [.declaration name .var o], ?_, ?_, fun _ => rfl, ?_⟩
    · rw [run_readDeclarators_variable htype hcurrent hnext, andThen_ok, hv]
    · rw [hfindings]
      exact congrArg (· ++ _) hend.findings
    · exact hlost.trans (Scanner.lost_advance u)

/-- With `typedef`, it is a typedef. -/
theorem exists_proceed_typedef {name : String} (hs : s.current = some (.word "typedef"))
    (hnext : (s.advance env).current = some t)
    (htype : readType.run (Routine.run env) env (s.advance env) = .ok enumSpec u)
    (hu : u.Before env (·.Supplies []) y.token ys)
    (hending : (y :: ys).map Cell.token = [.word name, .sep ";"]) :
    ∃ v extra, (wholeDeclaration.run (Routine.run env) env s).andThen (fun c? w => w.proceed env c?)
        = .ok () v
      ∧ v.findings = u.findings ++ extra
      ∧ (∀ name, Catalog.sightings .enumerators name extra = []) ∧ v.lost = u.lost := by
  obtain ⟨hy, hys⟩ := List.cons.inj hending
  obtain ⟨z, zs, rfl, hz, hzs⟩ := List.map_eq_cons_iff.mp hys
  obtain rfl := List.map_eq_nil_iff.mp hzs
  have hcurrent : u.current = some (.word name) := hu.current.trans (congrArg some hy)
  have hrecorded : (recordEnumName env name u).Before env (·.Supplies []) y.token [z] :=
    ⟨hu.current, hu.stream, hu.quiet⟩
  have hend := hrecorded.advance
  have hsemicolon : ((recordEnumName env name u).advance env).current = some (.sep ";") :=
    hend.before.current.trans (congrArg some hz)
  obtain ⟨v, hv, hfindings, hlost⟩ := Scanner.exists_proceed_nothing env hend.before.stream
  refine ⟨v, _, ?_, hfindings.trans hend.findings, fun _ => rfl, ?_⟩
  · rw [run_wholeDeclaration_typedef hs, run_readTypedef hnext htype hcurrent hsemicolon,
      andThen_ok, andThen_ok, if_pos rfl, hv]
  · exact hlost.trans (Scanner.lost_advance _)

/-- The cells up to the opening brace. -/
theorem exists_opening (hbefore : before.map Cell.token = F.opening) :
    ∃ pre e ws o, before = pre ++ e :: (ws ++ [o])
      ∧ pre.map Cell.token = (if F.isTypedef then [.word "typedef"] else [])
      ∧ e.token = .word "enum" ∧ ws.map Cell.token = F.tag.toList.map Token.word
      ∧ o.token = .sep "\x7b" := by
  obtain ⟨pre, r, rfl, hpre, hr⟩ := List.map_eq_append_iff.mp hbefore
  obtain ⟨e, r, rfl, he, hr⟩ := List.map_eq_cons_iff.mp hr
  obtain ⟨ws, r, rfl, hws, hr⟩ := List.map_eq_append_iff.mp hr
  obtain ⟨o, r, rfl, ho, hr⟩ := List.map_eq_cons_iff.mp hr
  obtain rfl := List.map_eq_nil_iff.mp hr
  exact ⟨pre, e, ws, o, rfl, hpre, he, hws, ho⟩

/-- The first token after the closing brace tells the name. -/
theorem nameOf?_ending (hafter : (y :: ys).map Cell.token = F.ending) :
    nameOf? y.token = F.name := by
  rw [ending] at hafter
  cases hname : F.name with
  | none =>
    rw [hname] at hafter
    rw [(List.cons.inj hafter).1]
    rfl
  | some name =>
    rw [hname] at hafter
    rw [(List.cons.inj hafter).1]
    rfl

/-- **A file with an enumeration** is read to its end. What is found are the enumerators, and after
them nothing that belongs into their table. -/
theorem exists_run (hF : F.isLegal env = true)
    (hbefore : before.map Cell.token = F.opening) (hafter : after.map Cell.token = F.ending)
    (hne : inside ≠ []) (hinside : Enumerates σ env inside Q messages)
    (hlegal : (before ++ (inside ++ after)).all (Cell.isLegal env.settings.grammar) = true)
    (hquiet : (before ++ (inside ++ after)).all Cell.isQuiet = true)
    (h : TokenStream.Supplies ⟨feed, none⟩ (Cell.tokens (before ++ (inside ++ after)))) :
    ∃ es g u extra, Scanner.run env feed = .ok () u ∧ Q es
      ∧ u.findings = es.map (Enumerator.finding env g F.name) ++ extra
      ∧ (∀ name, Catalog.sightings .enumerators name extra = []) ∧ u.lost = messages := by
  rw [isLegal, Bool.and_eq_true, Bool.or_eq_true, Bool.not_eq_true'] at hF
  obtain ⟨pre, e, ws, o, rfl, hpre, he, hws, ho⟩ := exists_opening hbefore
  obtain ⟨c, cs, rfl⟩ := List.exists_cons_of_ne_nil hne
  obtain ⟨y, ys, rfl⟩ : ∃ y ys, after = y :: ys := by
    refine List.exists_cons_of_ne_nil fun hnil => ?_
    rw [hnil, List.map_nil, ending] at hafter
    simp at hafter
  have hcells : pre ++ e :: (ws ++ [o]) ++ (c :: cs ++ y :: ys)
      = pre ++ e :: (ws ++ o :: c :: (cs ++ y :: ys)) := by simp
  rw [hcells] at hlegal hquiet h
  rw [← List.append_nil (Cell.tokens _)] at h
  have hhands := h.hands hlegal (Cell.isSilent_of_isQuiet hquiet)
  have hname := nameOf?_ending hafter
  cases htypedef : F.isTypedef with
  | false =>
    rw [htypedef, if_neg Bool.false_ne_true] at hpre
    obtain rfl := List.map_eq_nil_iff.mp hpre
    have hs := Scanner.passes_advance (s := Scanner.start env feed) hhands hquiet
    have henum := hs.before
    rw [he] at henum
    obtain ⟨es, g, u, htype, hQ, hu, hfindings, hlost⟩ := exists_readType hws ho hinside henum
    obtain ⟨v, extra, hv, hfound, hextra, hwarned⟩ :=
      exists_proceed_plain hF.1 henum.current htype hu hafter
    refine ⟨es, g, v, extra, ?_, hQ, ?_, hextra, ?_⟩
    · rw [← hv, ← Scanner.run_loop_of_isName henum.current rfl]
      rfl
    · rw [hfound, hfindings, hname, hs.findings]
      rfl
    · rw [hwarned, hlost, hs.lost]
      rfl
  | true =>
    obtain ⟨name, hsome⟩ : ∃ name, F.name = some name :=
      Option.isSome_iff_exists.mp (hF.2.resolve_left (by simp [htypedef]))
    rw [htypedef, if_pos rfl] at hpre
    obtain ⟨w, r, rfl, hw, hr⟩ := List.map_eq_cons_iff.mp hpre
    obtain rfl := List.map_eq_nil_iff.mp hr
    have hs := Scanner.passes_advance (s := Scanner.start env feed) hhands hquiet
    have hword := hs.before
    rw [hw] at hword
    have hs' := hword.advance
    have henum := hs'.before
    rw [he] at henum
    obtain ⟨es, g, u, htype, hQ, hu, hfindings, hlost⟩ := exists_readType hws ho hinside henum
    have hend : (y :: ys).map Cell.token = [.word name, .sep ";"] := by
      rw [hafter, ending, hsome]
      rfl
    obtain ⟨v, extra, hv, hfound, hextra, hwarned⟩ :=
      exists_proceed_typedef hword.current henum.current htype hu hend
    refine ⟨es, g, v, extra, ?_, hQ, ?_, hextra, ?_⟩
    · rw [← hv, ← Scanner.run_loop_of_isName hword.current rfl]
      rfl
    · rw [hfound, hfindings, hname, hs'.findings, hs.findings]
      rfl
    · rw [hwarned, hlost, hs'.lost, hs.lost]
      rfl

/-- The cells of an enumeration are those around its braces and those between them. -/
theorem exists_body {cells : List Cell} {ts : List Token}
    (hcells : cells.map Cell.token = F.around ts) :
    ∃ before body z after, cells = before ++ (body ++ [z] ++ after)
      ∧ before.map Cell.token = F.opening ∧ body.map Cell.token = ts ∧ z.token = .sep "\x7d"
      ∧ after.map Cell.token = F.ending := by
  obtain ⟨before, r, rfl, hbefore, hr⟩ := List.map_eq_append_iff.mp hcells
  obtain ⟨body, r, rfl, hbody, hr⟩ := List.map_eq_append_iff.mp hr
  obtain ⟨z, after, rfl, hz, hafter⟩ := List.map_eq_cons_iff.mp hr
  exact ⟨before, body, z, after, by simp, hbefore, hbody, hz, hafter⟩

/-- The table of enumerators is made of what is found of them. -/
theorem exists_catalog {opts : ScanOptions} {file : String}
    (hF : F.isLegal (opts.env file) = true)
    (hbefore : before.map Cell.token = F.opening) (hafter : after.map Cell.token = F.ending)
    (hne : inside ≠ []) (hinside : Enumerates σ (opts.env file) inside Q messages)
    (hlegal : (before ++ (inside ++ after)).all (Cell.isLegal opts.settings.grammar) = true)
    (hquiet : (before ++ (inside ++ after)).all Cell.isQuiet = true)
    (h : TokenStream.Supplies ⟨feed, none⟩ (Cell.tokens (before ++ (inside ++ after)))) :
    ∃ es g C, Q es ∧ (Catalog.ofFeed opts file feed).result = .ok C
      ∧ (∀ name, C.get? .enumerator name
        = (Catalog.sightings .enumerators name
            (es.map (Enumerator.finding (opts.env file) g F.name))).foldl Catalog.see none)
      ∧ (Catalog.ofFeed opts file feed).journal.messages .enumValue = messages := by
  obtain ⟨es, g, u, extra, hrun, hQ, hfound, hextra, hlost⟩ :=
    exists_run hF hbefore hafter hne hinside hlegal hquiet h
  obtain ⟨C, hC, hentries⟩ := Catalog.exists_of_run hrun
  refine ⟨es, g, C, hQ, hC, fun name => ?_, ?_⟩
  · refine (hentries .enumerators name).trans ?_
    rw [hfound, Catalog.sightings_append, hextra, List.append_nil]
  · rw [Catalog.ofFeed, hrun]
    exact hlost

end EnumFrame

/-- Lists with the same names and values. -/
theorem find?_of_map_eq {α β γ : Type} {f : α → String × γ} {g : β → String × γ} {as : List α}
    {bs : List β} (h : as.map f = bs.map g) (name : String) :
    (as.find? fun a => (f a).1 = name).map (fun a => (f a).2)
      = (bs.find? fun b => (g b).1 = name).map fun b => (g b).2 := by
  have hfind := congrArg (fun l => (l.find? (·.1 = name)).map Prod.snd) h
  rw [List.find?_map, List.find?_map, Option.map_map, Option.map_map] at hfind
  exact hfind

theorem map_fst_of_map_eq {α β γ : Type} {f : α → String × γ} {g : β → String × γ} {as : List α}
    {bs : List β} (h : as.map f = bs.map g) :
    as.map (fun a => (f a).1) = bs.map fun b => (g b).1 := by
  have hnames := congrArg (List.map Prod.fst) h
  rw [List.map_map, List.map_map] at hnames
  exact hnames

/-- Where the names are distinct, each has the value that was found. Here is what is told of it. -/
theorem Catalog.get?_enumerator {C : Catalog} {es : List Enumerator} {g : List String}
    {enumType : Option String} {β γ : Type} {bs : List β} {f : β → String × γ}
    (tell : Detail → Option γ) (told : Enumerator → γ)
    (htell : ∀ e, tell (.enumerator (e.valueIn enumType)) = some (told e))
    (hes : es.map (fun e => (e.name, told e)) = bs.map f)
    (hnodup : (bs.map fun b => (f b).1).Nodup)
    (hadmits : ∀ name ∈ bs.map fun b => (f b).1, Catalog.admits name = true)
    (h : ∀ name, C.get? .enumerator name
      = (sightings .enumerators name (es.map (Enumerator.finding env g enumType))).foldl see none)
    (name : String) :
    (C.get? .enumerator name).map (fun e => e.detail.bind tell)
      = (bs.find? fun b => (f b).1 = name).map fun b => some (f b).2 := by
  have hnames : es.map Enumerator.name = bs.map fun b => (f b).1 := map_fst_of_map_eq hes
  rw [← hnames] at hnodup hadmits
  have hentry := @foldl_see_of_nodup .enumerator
    (es.map fun e => (e.name, env.observe g e.line
      (some (.enumerator (e.valueIn enumType))) none env.isLocal))
    (by simpa [Function.comp_def] using hnodup) (by simpa using hadmits) .enumerators name
  rw [List.map_map, if_pos (show Category.enumerator.shelf = Shelf.enumerators from rfl),
    List.find?_map, Option.map_map] at hentry
  have hfind := congrArg (Option.map some) (find?_of_map_eq hes name)
  rw [Option.map_map, Option.map_map] at hfind
  rw [h]
  refine (congrArg (Option.map fun e => e.detail.bind tell) hentry).trans (Eq.trans ?_ hfind)
  rw [Option.map_map]
  exact congrArg (Option.map · _) (funext htell)

end HeaderAtlas
