import HeaderAtlas.Declaration.Filter
import HeaderAtlas.Declaration.Shape

/-!
# Readers

The declaration reader is a recursive descent with one token of lookahead. Its
parts are written in a small language, `Reader`: a reader can look at the current
token, go on to the next one, write to the state, repeat itself, and read a type or a
declaration inside what it reads. What a reader does to a scan is said by `run`, once
for every construct of the language, so that what all readers have in common is
proved by induction on readers.

Nothing is left of a token that was passed, but a reader may read `past` a name and
have it put back afterwards. That is the only pushback there is.

A run may fail. The state survives a failure, because the journal kept up to it is
still of interest.
-/

namespace HeaderAtlas

/-! ## The language -/

/-- What one round of a loop comes to. -/
inductive Round (α : Type) where
  /-- Go on with this. -/
  | again (a : α)
  /-- This is the result. -/
  | done (a : α)

/-- What a reader sees of the state. -/
structure View where
  current : Option Token
  /-- The pending comment. -/
  comment : Option String
  errorsOff : Bool
  /-- The guards in force. -/
  guards : List String

/-- What a reader writes to the state. -/
inductive Edit where
  /-- A failure where errors are switched off. -/
  | swallow (failure : Failure)
  | warn (topic : Topic) (messages : List String)
  | find (fs : List Catalog.Finding)
  | record (name : String) (category : Category) (detail : Option Detail)
      (extra : Option String) (isStatic : Bool)
  /-- The pending comment is forgotten. -/
  | forget

/-- The readers that contain each other. -/
inductive Routine where
  | type
  | declaration

namespace Routine

/-- What the routine reads. A declaration may not have been read to its end. -/
def Result : Routine → Type
  | type => TypeSpec
  | declaration => Option Closing

/-- Declarations contain types. -/
def rank : Routine → Nat
  | type => 0
  | declaration => 1

instance : (r : Routine) → Inhabited r.Result
  | type => inferInstanceAs (Inhabited TypeSpec)
  | declaration => inferInstanceAs (Inhabited (Option Closing))

end Routine

/-- A reader with a result in `α`. -/
inductive Reader : Type → Type 1 where
  | give {α : Type} (a : α) : Reader α
  | andThen {α β : Type} (m : Reader α) (f : α → Reader β) : Reader β
  /-- What stays the same during the scan. -/
  | env : Reader ScanEnv
  | look : Reader View
  /-- The line being read. -/
  | line : Reader Nat
  | edit (e : Edit) : Reader Unit
  /-- Swallows a failure, and with it what is left of the current line. -/
  | dropLine (failure : Failure) : Reader Unit
  /-- Goes on to the next token. -/
  | advance : Reader Unit
  /-- Reads past the current token if it is a name, which is handed over. It is put
  back afterwards if the second part of the result says so. -/
  | past {α : Type} (m : Option String → Reader (α × Bool)) : Reader α
  /-- Repeats `round` until it is done. -/
  | loop {α : Type} (round : α → Reader (Round α)) (a : α) : Reader α
  /-- Reads what another routine reads. -/
  | call (r : Routine) : Reader r.Result
  | fail {α : Type} (failure : Failure) : Reader α

instance : Monad Reader where
  pure := .give
  bind := .andThen

/-! ## What readers do -/

/-- What running a reader comes to. -/
inductive Ending (σ α : Type) where
  | ok (a : α) (s : Scanner σ)
  | failed (failure : Failure) (s : Scanner σ)

namespace Ending

variable {σ α β : Type}

/-- Goes on with the result, if there is one. -/
def andThen (r : Ending σ α) (f : α → Scanner σ → Ending σ β) : Ending σ β :=
  match r with
  | ok a s => f a s
  | failed e s => failed e s

/-- The state at the end. -/
def state : Ending σ α → Scanner σ
  | ok _ s => s
  | failed _ s => s

/-- The result, if there is one. -/
def value? : Ending σ α → Option α
  | ok a _ => some a
  | failed _ _ => none

theorem eq_ok_of_value? {r : Ending σ α} {a : α} (h : r.value? = some a) : r = ok a r.state := by
  cases r with
  | ok b s => cases h; rfl
  | failed e s => cases h

@[simp] theorem andThen_ok (a : α) (s : Scanner σ) (f : α → Scanner σ → Ending σ β) :
    (ok a s).andThen f = f a s := rfl

@[simp] theorem andThen_failed (e : Failure) (s : Scanner σ) (f : α → Scanner σ → Ending σ β) :
    (failed e s).andThen f = failed e s := rfl

@[simp] theorem state_ok (a : α) (s : Scanner σ) : (ok a s).state = s := rfl

@[simp] theorem state_failed (e : Failure) (s : Scanner σ) :
    (failed e s : Ending σ α).state = s := rfl

end Ending

namespace Scanner

variable {σ : Type} [Feed σ] {α : Type}

/-- What a reader sees. -/
def view (s : Scanner σ) : View where
  current := s.current
  comment := s.comment
  errorsOff := s.errorsOff
  guards := s.guards.active

/-- Does what an edit says. -/
def edit (env : ScanEnv) (s : Scanner σ) : Edit → Scanner σ
  | .swallow failure => s.swallow failure
  | .warn topic messages => s.warn env topic messages
  | .find fs => s.find fs
  | .record name category detail extra isStatic => s.record env name category detail extra isStatic
  | .forget => s.forget

/-- A token was passed between the two states, and it is gone from what is left. -/
def Passed (s s' : Scanner σ) : Prop := s.position < s'.position ∧ s'.size < s.size

instance (s s' : Scanner σ) : Decidable (s.Passed s') := inferInstanceAs (Decidable (_ ∧ _))

/-- Repeats a round until it is done, or passes nothing: then it never would be. -/
def iterate (round : α → Scanner σ → Ending σ (Round α)) (a : α) (s : Scanner σ) : Ending σ α :=
  match round a s with
  | .ok (.done b) s' => .ok b s'
  | .ok (.again b) s' => if h : s.Passed s' then have := h.2; iterate round b s' else .ok b s'
  | .failed e s' => .failed e s'
termination_by s.size

section Iterate

variable {round : α → Scanner σ → Ending σ (Round α)} {a b : α} {s s' : Scanner σ}

theorem iterate_done (h : round a s = .ok (.done b) s') : s.iterate round a = .ok b s' := by
  rw [iterate, h]

theorem iterate_again (h : round a s = .ok (.again b) s') (hp : s.Passed s') :
    s.iterate round a = s'.iterate round b := by
  rw [iterate, h]
  exact dif_pos hp

theorem iterate_stuck (h : round a s = .ok (.again b) s') (hp : ¬ s.Passed s') :
    s.iterate round a = .ok b s' := by
  rw [iterate, h]
  exact dif_neg hp

theorem iterate_failed {e : Failure} (h : round a s = .failed e s') :
    s.iterate round a = .failed e s' := by
  rw [iterate, h]

end Iterate

end Scanner

namespace Reader

variable {σ : Type} [Feed σ] [LawfulFeed σ]

/-- Runs a reader, given how the routines inside it run. -/
def run (inner : (r : Routine) → Scanner σ → Ending σ r.Result) (e : ScanEnv) :
    {α : Type} → Reader α → Scanner σ → Ending σ α
  | _, give a, s => .ok a s
  | _, andThen m f, s => (m.run inner e s).andThen fun a s' => (f a).run inner e s'
  | _, env, s => .ok e s
  | _, look, s => .ok s.view s
  | _, line, s => .ok s.stream.line s
  | _, edit ed, s => .ok () (s.edit e ed)
  | _, dropLine failure, s => .ok () (s.swallow failure).discardLine
  | _, advance, s => .ok () (s.advance e)
  | _, past m, s =>
    match s.current.filter Token.isName with
    | some t =>
      ((m (some t.text)).run inner e (s.advance e)).andThen fun (a, back) s' =>
        .ok a (if back then s'.unread t else s')
    | none => ((m none).run inner e s).andThen fun (a, _) s' => .ok a s'
  | _, loop round a, s => s.iterate (fun a s => (round a).run inner e s) a
  | _, call r, s => inner r s
  | _, fail failure, s => .failed failure s

section Run

variable (inner : (r : Routine) → Scanner σ → Ending σ r.Result) (e : ScanEnv) (s : Scanner σ)
  {α β : Type}

@[simp] theorem run_pure (a : α) : (pure a : Reader α).run inner e s = .ok a s := rfl

@[simp] theorem run_bind (m : Reader α) (f : α → Reader β) :
    (m >>= f).run inner e s = (m.run inner e s).andThen fun a s' => (f a).run inner e s' := rfl

@[simp] theorem run_env : Reader.env.run inner e s = .ok e s := rfl

@[simp] theorem run_look : look.run inner e s = .ok s.view s := rfl

@[simp] theorem run_line : line.run inner e s = .ok s.stream.line s := rfl

@[simp] theorem run_edit (ed : Edit) : (edit ed).run inner e s = .ok () (s.edit e ed) := rfl

@[simp] theorem run_advance : advance.run inner e s = .ok () (s.advance e) := rfl

@[simp] theorem run_call (r : Routine) : (call r).run inner e s = inner r s := rfl

end Run

/-! ## The current token -/

/-- Does the current token satisfy `p`? There may be none. -/
def at? (p : Token → Bool) : Reader Bool := return (← look).current.any p

/-- Is the current token this separator? -/
def atSep (sep : String) : Reader Bool := at? (Token.isSep sep)

/-- Is the current token this operator? -/
def atOp (op : String) : Reader Bool := at? (Token.isOp op)

/-- Is the current token this word? -/
def atWord (word : String) : Reader Bool := at? (Token.isWord word)

/-- Is the current token a name? -/
def atName : Reader Bool := at? Token.isName

/-- Is the current token of this class? -/
def atClass (cls : TokenClass) : Reader Bool := at? (·.cls == cls)

/-- Is there no current token? -/
def atEnd : Reader Bool := return (← look).current.isNone

/-- The current token, if it is a name. -/
def currentName : Reader (Option String) :=
  return ((← look).current.filter Token.isName).map Token.text

/-- The current token in a message. -/
def describe : Reader String :=
  return match (← look).current with
    | some t => t.describe
    | none => "end of input"

/-- Takes the current token, if it satisfies `p`. -/
def takeRound {α : Type} (p : Token → Bool) (f : α → Token → α) (a : α) : Reader (Round α) := do
  match (← look).current.filter p with
  | some t =>
    advance
    return .again (f a t)
  | none => return .done a

/-- Takes the tokens that satisfy `p`, up to the first one that does not, and folds
them. -/
def takeWhile {α : Type} (p : Token → Bool) (f : α → Token → α) (a : α) : Reader α :=
  loop (takeRound p f) a

/-- The current token, which is then used. -/
def take : Reader (Option Token) := do
  let t := (← look).current
  advance
  return t

section Run

variable (inner : (r : Routine) → Scanner σ → Ending σ r.Result) (e : ScanEnv) (s : Scanner σ)

@[simp] theorem run_at? (p : Token → Bool) :
    (at? p).run inner e s = .ok (s.current.any p) s := rfl

@[simp] theorem run_atSep (sep : String) :
    (atSep sep).run inner e s = .ok (s.current.any (Token.isSep sep)) s := rfl

@[simp] theorem run_atOp (op : String) :
    (atOp op).run inner e s = .ok (s.current.any (Token.isOp op)) s := rfl

@[simp] theorem run_atWord (word : String) :
    (atWord word).run inner e s = .ok (s.current.any (Token.isWord word)) s := rfl

@[simp] theorem run_atName : atName.run inner e s = .ok (s.current.any Token.isName) s := rfl

@[simp] theorem run_atClass (cls : TokenClass) :
    (atClass cls).run inner e s = .ok (s.current.any (·.cls == cls)) s := rfl

@[simp] theorem run_atEnd : atEnd.run inner e s = .ok s.current.isNone s := rfl

@[simp] theorem run_currentName :
    currentName.run inner e s = .ok ((s.current.filter Token.isName).map Token.text) s := rfl

@[simp] theorem run_describe :
    describe.run inner e s = .ok (match s.current with
      | some t => t.describe
      | none => "end of input") s := rfl

@[simp] theorem run_take : take.run inner e s = .ok s.current (s.advance e) := rfl

end Run

/-! ## Notices and failures -/

/-- The place being read. -/
def place : Reader Place := return ⟨(← env).file, ← line⟩

/-- Fails, unless errors are switched off: then the failure is only noted. -/
def raise (failure : Failure) : Reader Unit := do
  if (← look).errorsOff then edit (.swallow failure) else fail failure

/-- The declarations have a shape that the grammar does not know. Where errors
are switched off, the rest of the line is dropped. -/
def malformed (message : String) : Reader Unit := do
  let failure := Failure.malformed message (← place)
  if (← look).errorsOff then dropLine failure else fail failure

theorem run_malformed {σ : Type} [Feed σ] [LawfulFeed σ]
    (inner : (r : Routine) → Scanner σ → Ending σ r.Result) (e : ScanEnv) (message : String)
    (s : Scanner σ) :
    (malformed message).run inner e s
      = if s.errorsOff then
          .ok () (s.swallow (.malformed message (s.place e))).discardLine
        else .failed (.malformed message (s.place e)) s := by
  unfold malformed
  simp only [place, run_bind, run_env, run_line, run_look, run_pure, Ending.andThen_ok]
  show (if s.errorsOff then _ else _ : Reader Unit).run inner e s = _
  split <;> rfl

/-- `malformed`, with the current token at the end of the message. -/
def unexpected (message : String) : Reader Unit := do
  malformed (message ++ ", got " ++ (← describe))

/-! ## Recording -/

/-- Outside headers everything but functions is local to its file. -/
def isLocal : Reader Bool := return (← env).isLocal

/-- Records a declaration seen at the place being read. -/
def record (name : String) (category : Category) (detail : Option Detail)
    (extra : Option String) (isStatic : Bool) : Reader Unit :=
  edit (.record name category detail extra isStatic)

/-! ## The pending comment -/

/-- Forgets the pending comment. -/
def dropComment : Reader Unit := edit .forget

/-- The pending comment, cleaned, if anything is left of it. It is then used. -/
def takeComment : Reader (Option String) := do
  let comment := (← look).comment
  dropComment
  return comment.map DocBlock.cleaned |>.filter (!·.isEmpty)

/-! ## Types and declarations inside -/

/-- A type up to the name it declares. -/
def readType : Reader TypeSpec := call .type

/-- A declaration from its first name up to the token that ends it, if it is
reached. -/
def readDeclaration : Reader (Option Closing) := call .declaration

end Reader

end HeaderAtlas
