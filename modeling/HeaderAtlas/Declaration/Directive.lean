import HeaderAtlas.Declaration.Scanner
import HeaderAtlas.DocBlock.Basic

/-!
# Preprocessor lines

What a directive does to a scan: conditionals move the guards, `#include` and
`#define` are recorded, everything else is passed over.
-/

namespace HeaderAtlas

open Text

/-! ## Macro definitions -/

/-- A definition split into its parts. -/
structure MacroParts where
  name : String
  params : List String
  /-- The words of the body. -/
  body : List String
deriving DecidableEq, Inhabited, Repr

/-- The words of a parameter list from after its opening parenthesis up to its
closing one, joined by blanks, and the words after that. -/
def MacroParts.paramList : List (List Char) → List Char × List (List Char)
  | [] => ([], [])
  | w :: ws =>
    match cut? [')'] w with
    | some (inside, _) => (inside, ws)
    | none =>
      match ws with
      | [] => (w, [])
      | _ :: _ =>
        let (more, rest) := paramList ws
        (w ++ ' ' :: more, rest)

/-- The parameters in a list. -/
def MacroParts.splitParams (list : List Char) : List String :=
  (((pieces (· == ',') list).map trim).filter (!·.isEmpty)).map String.ofList

/-- Splits the words after `#define`. The parameters follow the name without a
blank; they may be spread over several words. -/
def MacroParts.ofWords? (words : List String) : Option MacroParts :=
  match words with
  | [] => none
  | first :: more =>
    match cut? ['('] first.toList with
    | none => some ⟨first, [], more⟩
    | some (name, list) =>
      let (list, body) := paramList (list :: more.map String.toList)
      some ⟨String.ofList name, splitParams list, body.map String.ofList⟩

/-- The inside of a word that is quoted at both ends. -/
def MacroParts.stringWord? (word : String) : Option String := do
  let inside ← dropStem? ['"'] word.toList
  String.ofList <$> dropTail? ['"'] inside

/-- The body, if it is one quoted word. -/
def MacroParts.stringValue? (m : MacroParts) : Option String :=
  match m.body with
  | [word] => stringWord? word
  | _ => none

/-! ## The words of a directive -/

/-- Does the token start a directive? -/
def Token.opensDirective (t : Token) : Bool :=
  t.cls == .directive && startsWith ['#'] t.text.toList

/-- Is the token a further word of a directive? A word that starts with `#` is a
directive of its own. -/
def Token.continuesDirective (t : Token) : Bool :=
  t.cls == .directive && !startsWith ['#'] t.text.toList

namespace TokenStream

variable {σ : Type} [Feed σ] [LawfulFeed σ]

/-- The words that follow a directive, the token after them and what is left. -/
def directiveArgs (st : TokenStream σ) : List String × Option Token × TokenStream σ :=
  match h : st.next with
  | (none, st) => ([], none, st)
  | (some t, st) =>
    have := size_next_some h
    if t.continuesDirective then
      let (args, next, rest) := directiveArgs st
      (t.text :: args, next, rest)
    else ([], some t, st)
termination_by st.size

variable {st st' : TokenStream σ} {t : Token}

theorem directiveArgs_of_none (h : st.next = (none, st')) :
    st.directiveArgs = ([], none, st') := by
  rw [directiveArgs]
  split
  · next h' => rw [h] at h'; cases h'; rfl
  · next h' => rw [h] at h'; cases h'

theorem directiveArgs_of_continues (h : st.next = (some t, st'))
    (ht : t.continuesDirective = true) :
    st.directiveArgs = (t.text :: st'.directiveArgs.1, st'.directiveArgs.2) := by
  rw [directiveArgs]
  split
  · next h' => rw [h] at h'; cases h'
  · next h' => rw [h] at h'; cases h'; exact if_pos ht

theorem directiveArgs_of_other (h : st.next = (some t, st'))
    (ht : t.continuesDirective = false) : st.directiveArgs = ([], some t, st') := by
  rw [directiveArgs]
  split
  · next h' => rw [h] at h'; cases h'
  · next h' => rw [h] at h'; cases h'; exact if_neg (by simp [ht])

theorem size_directiveArgs (st : TokenStream σ) :
    st.directiveArgs.2.2.size + st.directiveArgs.2.1.toList.length ≤ st.size := by
  fun_induction directiveArgs st with
  | case1 st rest h => simpa using size_next_none h
  | case2 st t rest h hlt _ args next after hd ih =>
    simp only [hd] at ih ⊢
    omega
  | case3 st t rest h hlt _ => exact size_next_some h

end TokenStream

/-! ## What a directive does -/

/-- The messages about the flaws of a doc comment, unless they do not matter. -/
def DocBlock.flawMessages (subject : DocBlock.Subject) (name : String)
    (flaws : List DocBlock.Flaw) (quiet : Bool) : List String :=
  if quiet then [] else flaws.map fun f => f.message subject name

namespace Scanner

variable {σ : Type} [Feed σ]

/-- `#define`. Hidden macros and header guards are not recorded, and the pending
comment then stays. -/
def define (env : ScanEnv) (args : List String) (s : Scanner σ) : Scanner σ :=
  match MacroParts.ofWords? args with
  | none => s
  | some m =>
    let g := env.settings.grammar
    if g.hiddenMacros.contains m.name || g.isHeaderGuard m.name then s
    else
      let quiet := env.isLocal || env.settings.docs.excusesMacro m.name || isReserved m.name
      let doc := DocBlock.readMacro s.comment m.name
      let detail : MacroDetail :=
        { params := m.params
          args := doc.value.args
          description := doc.value.description
          stringValue := m.stringValue? }
      s.warn env .documentation (DocBlock.flawMessages .macroDef m.name doc.flaws quiet)
        |>.record env m.name .macroDef (some (.macroDef detail)) none env.isLocal
        |>.forget

/-- Changes the guards. -/
def guard (f : Guards → Guards) (s : Scanner σ) : Scanner σ := { s with guards := f s.guards }

/-- Carries out the directive `word` with the given arguments. By then the token after
them has been read. -/
def obey (env : ScanEnv) (word : String) (args : List String) (s : Scanner σ) : Scanner σ :=
  let first := args.headD ""
  match word with
  | "#include" => if first.isEmpty then s else s.record env first .inclusion none none env.isLocal
  | "#define" => s.define env args
  | "#ifdef" => s.guard (·.ifdef first)
  | "#ifndef" => s.guard (·.ifndef first)
  | "#if" => s.guard (·.ifExpr (" ".intercalate args))
  | "#else" => s.guard Guards.flip
  | "#endif" => s.guard Guards.leave
  | _ => s

/-! A directive takes nothing from the stream. -/

@[simp] theorem stream_define (env : ScanEnv) (args : List String) (s : Scanner σ) :
    (s.define env args).stream = s.stream := by
  unfold define
  split
  · rfl
  · dsimp only
    split <;> rfl

@[simp] theorem stream_obey (env : ScanEnv) (word : String) (args : List String) (s : Scanner σ) :
    (s.obey env word args).stream = s.stream := by
  unfold obey
  dsimp only
  split
  · split <;> rfl
  · exact stream_define env args s
  all_goals rfl

end Scanner

end HeaderAtlas
