import HeaderAtlas.Guards

/-!
# Guards as nested frames

A scan keeps its guards in two stacks that differ in height: one of marks, with a mark for
each open conditional, and one of expressions, for the conditionals of interest only. What
they stand for is a single stack of frames (`GuardFrame`), where each open conditional has its
own expression and a count of its `#else`s. The two stacks are the marks and the texts of
these frames (`Guards.Shows`), and every move keeps it so, an `#else` or `#endif` too many
included.

A block in which every conditional is closed again, and every `#else` is inside one, leaves
the frames as it finds them (`GuardFrame.run_balanced`), and so the guards.
-/

namespace HeaderAtlas

/-! ## Moves -/

/-- A directive that moves the guards. -/
inductive GuardMove where
  /-- `#ifdef` -/
  | ifDefined (name : String)
  /-- `#ifndef` -/
  | ifUndefined (name : String)
  /-- `#if` -/
  | ifExpr (expression : String)
  /-- `#else` -/
  | flip
  /-- `#endif` -/
  | leave
deriving DecidableEq, Repr

/-- What the move does to the guards. -/
def Guards.move (g : Guards) : GuardMove → Guards
  | .ifDefined name => g.ifdef name
  | .ifUndefined name => g.ifndef name
  | .ifExpr expression => g.ifExpr expression
  | .flip => g.flip
  | .leave => g.leave

/-- An open conditional. -/
structure GuardFrame where
  /-- What is written after the directive's word. -/
  guard : String
  expression : String
  /-- How often the conditional was flipped. -/
  flips : Nat := 0
deriving DecidableEq, Repr

namespace GuardFrame

/-- An expression that is negated `n` times. -/
def negated (expression : String) : Nat → String
  | 0 => expression
  | n + 1 => "!(" ++ negated expression n ++ ")"

/-- The expression in force. -/
def text (f : GuardFrame) : String := negated f.expression f.flips

/-- Is the conditional of interest? -/
def isMarked (marker : String) (f : GuardFrame) : Bool := Text.containsText marker f.guard

/-- The frames with the innermost one flipped `n` times more, if there is one. -/
def flipped (n : Nat) : List GuardFrame → List GuardFrame
  | [] => []
  | f :: fs => { f with flips := f.flips + n } :: fs

/-- The frames after a move. The innermost one is first. -/
def step (fs : List GuardFrame) : GuardMove → List GuardFrame
  | .ifDefined name => { guard := name, expression := "defined(" ++ name ++ ")" } :: fs
  | .ifUndefined name => { guard := name, expression := "!defined(" ++ name ++ ")" } :: fs
  | .ifExpr expression => { guard := expression, expression } :: fs
  | .flip => flipped 1 fs
  | .leave => fs.tail

/-- The frames after several moves. -/
def run (fs : List GuardFrame) (ms : List GuardMove) : List GuardFrame := ms.foldl step fs

@[simp] theorem flipped_zero (fs : List GuardFrame) : flipped 0 fs = fs := by
  cases fs <;> rfl

theorem flipped_flipped (m n : Nat) (fs : List GuardFrame) :
    flipped m (flipped n fs) = flipped (n + m) fs := by
  cases fs with
  | nil => rfl
  | cons f fs => simp [flipped, Nat.add_assoc]

theorem run_append (fs : List GuardFrame) (ms ns : List GuardMove) :
    run fs (ms ++ ns) = run (run fs ms) ns := List.foldl_append

end GuardFrame

/-! ## The two stacks -/

/-- There is a mark for each frame, and the text of each one that is of interest. -/
structure Guards.Shows (g : Guards) (fs : List GuardFrame) : Prop where
  frames : g.frames = fs.map (·.isMarked g.marker)
  held : g.held = (fs.filter (·.isMarked g.marker)).map GuardFrame.text

namespace Guards

variable {g : Guards} {fs : List GuardFrame}

theorem marker_move (g : Guards) (m : GuardMove) : (g.move m).marker = g.marker := by
  cases m with
  | ifDefined name => exact marker_enter ..
  | ifUndefined name => exact marker_enter ..
  | ifExpr expression => exact marker_enter ..
  | flip => exact g.marker_flip
  | leave => exact g.marker_leave

theorem marker_moves (g : Guards) (ms : List GuardMove) :
    (ms.foldl move g).marker = g.marker := by
  induction ms generalizing g with
  | nil => rfl
  | cons m ms ih => exact (ih (g.move m)).trans (marker_move g m)

namespace Shows

theorem enter (h : g.Shows fs) (guard expression : String) :
    (g.enter guard expression).Shows ({ guard, expression } :: fs) := by
  cases hin : Text.containsText g.marker guard with
  | true =>
    rw [Guards.enter, if_pos hin]
    exact ⟨by simp [GuardFrame.isMarked, hin, h.frames],
      by simp [GuardFrame.isMarked, hin, h.held, GuardFrame.text, GuardFrame.negated]⟩
  | false =>
    rw [Guards.enter, if_neg (by simp [hin])]
    exact ⟨by simp [GuardFrame.isMarked, hin, h.frames],
      by simp [GuardFrame.isMarked, hin, h.held]⟩

/-- An `#else` changes the text of the innermost frame, if that one is of interest. The text on
top may belong to a frame further out. -/
theorem flip (h : g.Shows fs) : g.flip.Shows (GuardFrame.flipped 1 fs) := by
  cases fs with
  | nil =>
    exact ⟨by simp [Guards.flip, GuardFrame.flipped, h.frames],
      by simp [Guards.flip, GuardFrame.flipped, h.frames, h.held]⟩
  | cons f fs =>
    -- Flipping a frame leaves its mark.
    have hmark : ({ f with flips := f.flips + 1 } : GuardFrame).isMarked g.marker
        = f.isMarked g.marker := rfl
    cases hin : f.isMarked g.marker with
    | true =>
      exact ⟨by simp [Guards.flip, GuardFrame.flipped, h.frames, h.held, hin, hmark],
        by simp [Guards.flip, GuardFrame.flipped, h.frames, h.held, hin, hmark, GuardFrame.text,
          GuardFrame.negated]⟩
    | false =>
      exact ⟨by simp [Guards.flip, GuardFrame.flipped, h.frames, hin, hmark],
        by simp [Guards.flip, GuardFrame.flipped, h.frames, h.held, hin, hmark]⟩

theorem leave (h : g.Shows fs) : g.leave.Shows fs.tail := by
  cases fs with
  | nil => exact ⟨by simp [Guards.leave, h.frames], by simp [Guards.leave, h.frames, h.held]⟩
  | cons f fs =>
    cases hin : f.isMarked g.marker with
    | true =>
      exact ⟨by simp [Guards.leave, h.frames, hin],
        by simp [Guards.leave, h.frames, h.held, hin]⟩
    | false =>
      exact ⟨by simp [Guards.leave, h.frames, hin],
        by simp [Guards.leave, h.frames, h.held, hin]⟩

/-- Each move does to the two stacks what it does to the frames. -/
theorem move (h : g.Shows fs) (m : GuardMove) : (g.move m).Shows (GuardFrame.step fs m) := by
  cases m with
  | ifDefined name => exact h.enter name _
  | ifUndefined name => exact h.enter name _
  | ifExpr expression => exact h.enter expression expression
  | flip => exact h.flip
  | leave => exact h.leave

theorem moves (h : g.Shows fs) (ms : List GuardMove) :
    (ms.foldl Guards.move g).Shows (GuardFrame.run fs ms) := by
  induction ms generalizing g fs with
  | nil => exact h
  | cons m ms ih => exact ih (h.move m)

theorem active_eq (h : g.Shows fs) :
    g.active = ((fs.filter (·.isMarked g.marker)).map GuardFrame.text).reverse :=
  congrArg List.reverse h.held

theorem depth_eq (h : g.Shows fs) : g.depth = fs.length := by
  rw [depth, h.frames, List.length_map]

end Shows

end Guards

/-! ## Balanced blocks -/

/-- Does the move open a conditional? -/
def GuardMove.opens : GuardMove → Bool
  | ifDefined _ | ifUndefined _ | ifExpr _ => true
  | flip | leave => false

/-- Each conditional that is opened by these moves is closed by them, and each `#else` belongs
to one of them, or else to one that they are `inside` of. -/
inductive GuardMove.Balanced : Bool → List GuardMove → Prop
  | nil {inside : Bool} : Balanced inside []
  | flip {ms : List GuardMove} (rest : Balanced true ms) : Balanced true (.flip :: ms)
  | block {inside : Bool} {m : GuardMove} {ms ns : List GuardMove} (opens : m.opens = true)
      (body : Balanced true ms) (rest : Balanced inside ns) :
      Balanced inside (m :: (ms ++ .leave :: ns))

namespace GuardFrame

/-- A move that opens a conditional puts a frame before the others. -/
theorem step_of_opens {m : GuardMove} (h : m.opens = true) :
    ∃ f, ∀ fs, step fs m = f :: fs := by
  cases m with
  | ifDefined name => exact ⟨_, fun _ => rfl⟩
  | ifUndefined name => exact ⟨_, fun _ => rfl⟩
  | ifExpr expression => exact ⟨_, fun _ => rfl⟩
  | flip => cases h
  | leave => cases h

/-- All that is left of balanced moves is the `#else`s outside of their own conditionals. -/
theorem run_balanced {inside : Bool} {ms : List GuardMove} (h : GuardMove.Balanced inside ms) :
    ∃ n, (inside = false → n = 0) ∧ ∀ fs, run fs ms = flipped n fs := by
  induction h with
  | nil => exact ⟨0, fun _ => rfl, fun fs => (flipped_zero fs).symm⟩
  | flip rest ih =>
    obtain ⟨n, -, hrun⟩ := ih
    refine ⟨1 + n, nofun, fun fs => ?_⟩
    rw [← flipped_flipped]
    exact hrun (flipped 1 fs)
  | @block inside m ms ns opens body rest ih ih' =>
    obtain ⟨f, hopen⟩ := step_of_opens opens
    obtain ⟨k, -, hbody⟩ := ih
    obtain ⟨n, hn, hrest⟩ := ih'
    refine ⟨n, hn, fun fs => ?_⟩
    calc run fs (m :: (ms ++ .leave :: ns))
        = run (step fs m) (ms ++ .leave :: ns) := rfl
      _ = run (step (run (f :: fs) ms) .leave) ns := by rw [hopen, run_append]; rfl
      -- The frame of the block has taken in the `#else`s of its body.
      _ = run fs ns := by rw [hbody]; rfl
      _ = flipped n fs := hrest fs

end GuardFrame

/-- **The guards follow the nesting.** After any moves, the guards in force are the texts of
the frames of interest, outermost first, and the depth is the number of frames. A balanced
block after these moves leaves both as they are. -/
theorem Guards.active_of_moves (marker : String) (ms : List GuardMove) :
    (ms.foldl Guards.move { marker }).active
        = (((GuardFrame.run [] ms).filter (·.isMarked marker)).map GuardFrame.text).reverse
      ∧ (ms.foldl Guards.move { marker }).depth = (GuardFrame.run [] ms).length
      ∧ ∀ block, GuardMove.Balanced false block →
        (block.foldl Guards.move (ms.foldl Guards.move { marker })).active
            = (ms.foldl Guards.move { marker }).active
          ∧ (block.foldl Guards.move (ms.foldl Guards.move { marker })).depth
            = (ms.foldl Guards.move { marker }).depth := by
  have hstart : Guards.Shows { marker } [] := ⟨rfl, rfl⟩
  have hshows := hstart.moves ms
  have hactive := hshows.active_eq
  rw [marker_moves] at hactive
  refine ⟨hactive, hshows.depth_eq, fun block hblock => ?_⟩
  obtain ⟨n, hn, hrun⟩ := GuardFrame.run_balanced hblock
  have hafter := hshows.moves block
  rw [hrun, hn rfl, GuardFrame.flipped_zero] at hafter
  constructor
  · rw [hafter.active_eq, hshows.active_eq, marker_moves]
  · rw [hafter.depth_eq, hshows.depth_eq]

/-- An `#else` that belongs to nothing, a guard of interest that is flipped twice, and one that
is not of interest, flipped as well. -/
def crossedMoves : List GuardMove :=
  [.leave, .flip, .ifDefined "A_ENABLED", .flip, .flip, .ifUndefined "B_H", .flip]

/-- A block with two conditionals, one of them inside the other one's `#else`. -/
def nestedBlock : List GuardMove :=
  [.ifExpr "C_ENABLED", .flip, .ifExpr "D", .flip, .leave, .leave]

theorem active_of_crossedMoves :
    (nestedBlock.foldl Guards.move (crossedMoves.foldl Guards.move ⟨"ENABLED", [], []⟩)).active
        = ["!(!(defined(A_ENABLED)))"]
      ∧ (nestedBlock.foldl Guards.move
          (crossedMoves.foldl Guards.move ⟨"ENABLED", [], []⟩)).depth = 2 := by
  have hinner : GuardMove.Balanced true [.flip, .ifExpr "D", .flip, .leave] :=
    .flip (.block rfl (.flip .nil) .nil)
  have hblock : GuardMove.Balanced false nestedBlock := .block rfl hinner .nil
  obtain ⟨hactive, hdepth, hkept⟩ := Guards.active_of_moves "ENABLED" crossedMoves
  obtain ⟨hactive', hdepth'⟩ := hkept nestedBlock hblock
  exact ⟨hactive'.trans (hactive.trans (by decide +kernel)),
    hdepth'.trans (hdepth.trans (by decide +kernel))⟩

end HeaderAtlas
