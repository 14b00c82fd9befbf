import HeaderAtlas.Text.Search

/-!
# Preprocessor guards

The conditional directives that are open at some point of a file. A guard is of
interest only if its text contains a marker, so two stacks are kept: one frame
per open conditional, saying whether it is of interest, and the expressions of
those that are. Both have the innermost first.
-/

namespace HeaderAtlas

/-- The open conditionals of a file. -/
structure Guards where
  /-- The text that makes a guard interesting. -/
  marker : String
  /-- Is the conditional of interest? Innermost first. -/
  frames : List Bool := []
  /-- The expressions of the interesting conditionals. Innermost first. -/
  held : List String := []
deriving DecidableEq, Inhabited, Repr

namespace Guards

/-- Opens a conditional on the text `guard`, which holds when `expression` does. -/
def enter (g : Guards) (guard expression : String) : Guards :=
  if Text.containsText g.marker guard then
    { g with frames := true :: g.frames, held := expression :: g.held }
  else { g with frames := false :: g.frames }

/-- `#ifdef NAME` -/
def ifdef (g : Guards) (name : String) : Guards := g.enter name ("defined(" ++ name ++ ")")

/-- `#ifndef NAME` -/
def ifndef (g : Guards) (name : String) : Guards := g.enter name ("!defined(" ++ name ++ ")")

/-- `#if EXPRESSION` -/
def ifExpr (g : Guards) (expression : String) : Guards := g.enter expression expression

/-- `#else`: the innermost guard is negated. -/
def flip (g : Guards) : Guards :=
  match g.frames, g.held with
  | true :: _, e :: es => { g with held := ("!(" ++ e ++ ")") :: es }
  | _, _ => g

/-- `#endif`: the innermost conditional is closed. One too many changes
nothing. -/
def leave (g : Guards) : Guards :=
  match g.frames with
  | [] => g
  | true :: fs => { g with frames := fs, held := g.held.tail }
  | false :: fs => { g with frames := fs }

/-- The interesting guards in force, outermost first. -/
def active (g : Guards) : List String := g.held.reverse

/-- The number of open conditionals, of interest or not. -/
def depth (g : Guards) : Nat := g.frames.length

/-! ## The marker stays -/

@[simp] theorem marker_enter (g : Guards) (guard expression : String) :
    (g.enter guard expression).marker = g.marker := by
  unfold enter
  split <;> rfl

@[simp] theorem marker_flip (g : Guards) : g.flip.marker = g.marker := by
  unfold flip
  split <;> rfl

@[simp] theorem marker_leave (g : Guards) : g.leave.marker = g.marker := by
  unfold leave
  split <;> rfl

end Guards

end HeaderAtlas
