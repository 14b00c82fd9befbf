import HeaderAtlas.Declaration.Run

/-!
# What a directive does

Only conditionals move the guards of a scan; every other directive leaves them. And most
directives do not read all of their words: a conditional on a name or an inclusion reads
the first one, a definition the name, the parameters and a value in quotes, and the end of
a conditional reads none. What is read makes up the effect of a directive
(`Directive.effect?`), and to carry out the directive is to have that effect
(`Scanner.obey_eq_act`). A directive that the scan does not know has none.
-/

namespace HeaderAtlas

/-- A directive: its word, and the words after it. -/
structure Directive where
  word : String
  args : List String
deriving DecidableEq, Repr

/-- What a directive does to the guards. -/
def Guards.obey (g : Guards) (d : Directive) : Guards :=
  match d.word with
  | "#ifdef" => g.ifdef (d.args.headD "")
  | "#ifndef" => g.ifndef (d.args.headD "")
  | "#if" => g.ifExpr (" ".intercalate d.args)
  | "#else" => g.flip
  | "#endif" => g.leave
  | _ => g

theorem Guards.marker_obey (g : Guards) (d : Directive) : (g.obey d).marker = g.marker := by
  unfold Guards.obey
  split
  · exact marker_enter ..
  · exact marker_enter ..
  · exact marker_enter ..
  · exact g.marker_flip
  · exact g.marker_leave
  · rfl

/-- A word that does not start with `#` is no directive. -/
theorem Guards.obey_of_not_opens (gs : Guards) {word : String} (args : List String)
    (h : Text.startsWith ['#'] word.toList = false) : gs.obey ⟨word, args⟩ = gs := by
  unfold Guards.obey
  split
  all_goals first
    | rfl
    | next hw => dsimp only at hw; subst hw; exact absurd h (by decide)

namespace Scanner

variable {σ : Type} [Feed σ] (env : ScanEnv) (s : Scanner σ)

theorem guards_define (args : List String) : (s.define env args).guards = s.guards := by
  unfold define
  split
  · rfl
  · dsimp only
    split <;> rfl

theorem guards_obey (word : String) (args : List String) :
    (s.obey env word args).guards = s.guards.obey ⟨word, args⟩ := by
  unfold obey Guards.obey
  dsimp only
  split
  · split <;> rfl
  · exact guards_define env s args
  case h_8 => split <;> simp_all
  all_goals rfl

end Scanner

/-! ## Effects -/

/-- What a directive does to a scan. -/
inductive Directive.Effect where
  /-- An inclusion is recorded. -/
  | inclusion (name : String)
  /-- A macro is recorded, with its value if that is one quoted word. -/
  | definition (name : String) (params : List String) (value : Option String)
  /-- A conditional is opened, with its expression if that is of interest. -/
  | opening (expression : Option String)
  /-- The innermost conditional is negated. -/
  | flip
  /-- The innermost conditional is closed. -/
  | leave
deriving DecidableEq

/-- The effect of a directive, if it has any. Hidden macros and header guards are passed
over, as is everything that the scan does not know. -/
def Directive.effect? (g : GrammarSettings) (d : Directive) : Option Effect :=
  let first := d.args.headD ""
  let condition := " ".intercalate d.args
  let opening (guard expression : String) : Option Effect :=
    some (.opening (if Text.containsText g.guardMarker guard then some expression else none))
  match d.word with
  | "#include" => if first.isEmpty then none else some (.inclusion first)
  | "#define" =>
    (MacroParts.ofWords? d.args).bind fun m =>
      if g.hiddenMacros.contains m.name || g.isHeaderGuard m.name then none
      else some (.definition m.name m.params m.stringValue?)
  | "#ifdef" => opening first ("defined(" ++ first ++ ")")
  | "#ifndef" => opening first ("!defined(" ++ first ++ ")")
  | "#if" => opening condition condition
  | "#else" => some .flip
  | "#endif" => some .leave
  | _ => none

/-- Opens a conditional, of interest if it has an expression. -/
def Guards.push (g : Guards) (expression : Option String) : Guards :=
  { g with frames := expression.isSome :: g.frames, held := expression.toList ++ g.held }

theorem Guards.enter_eq_push (g : Guards) (guard expression : String) :
    g.enter guard expression
      = g.push (if Text.containsText g.marker guard then some expression else none) := by
  unfold enter
  split <;> rfl

/-- A word that does not start with `#` has no effect. -/
theorem Directive.effect?_of_not_opens (g : GrammarSettings) {word : String} (args : List String)
    (h : Text.startsWith ['#'] word.toList = false) : effect? g ⟨word, args⟩ = none := by
  unfold effect?
  dsimp only
  split
  all_goals first
    | rfl
    | exact absurd h (by decide)

namespace Scanner

variable {σ : Type} [Feed σ] (env : ScanEnv) (s : Scanner σ)

/-- Has an effect on the scan. -/
def act : Directive.Effect → Scanner σ
  | .inclusion name => s.record env name .inclusion none none env.isLocal
  | .definition name params value =>
    let quiet := env.isLocal || env.settings.docs.excusesMacro name || isReserved name
    let doc := DocBlock.readMacro s.comment name
    let detail : MacroDetail :=
      { params, args := doc.value.args, description := doc.value.description, stringValue := value }
    s.warn env .documentation (DocBlock.flawMessages .macroDef name doc.flaws quiet)
      |>.record env name .macroDef (some (.macroDef detail)) none env.isLocal
      |>.forget
  | .opening expression => s.guard (·.push expression)
  | .flip => s.guard Guards.flip
  | .leave => s.guard Guards.leave

/-- **To carry out a directive is to have its effect.** -/
theorem obey_eq_act (hmarker : s.guards.marker = env.settings.grammar.guardMarker)
    (word : String) (args : List String) :
    s.obey env word args
      = (Directive.effect? env.settings.grammar ⟨word, args⟩).elim s (s.act env) := by
  have hopening : ∀ guard expression : String, s.guard (·.enter guard expression)
      = s.act env (.opening
        (if Text.containsText env.settings.grammar.guardMarker guard then some expression
          else none)) := by
    intro text expression
    rw [guard, Guards.enter_eq_push, hmarker]
    rfl
  unfold obey Directive.effect?
  dsimp only
  split
  · split <;> rfl
  · unfold define
    cases MacroParts.ofWords? args with
    | none => rfl
    | some m =>
      dsimp only [Option.bind_some]
      split <;> rfl
  case h_8 => simp_all
  · exact hopening _ _
  · exact hopening _ _
  · exact hopening _ _
  all_goals rfl

end Scanner

end HeaderAtlas
