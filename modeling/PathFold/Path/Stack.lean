import PathFold.Path.View

/-! The path from the root to where a document is being read: a bounded stack of frames. It grows at
the inner end, and a frame in the middle can be invalidated but not removed. -/

namespace PathFold

structure Path where
  frames : List Frame
  limit : Nat
  deriving DecidableEq, Repr

namespace Path

/-- The bound on the limit of any path. -/
def maxDepth : Nat := 16

/-- The path outside any container. A limit above the bound counts as the bound. -/
def empty (limit : Nat) : Path := ⟨[], min limit maxDepth⟩

def depth (path : Path) : Nat := path.frames.length

def isEmpty (path : Path) : Bool := path.frames.isEmpty

def push (path : Path) (frame : Frame) : Except Error Path :=
  if path.limit ≤ path.depth then .error (.stackOverflow path.limit)
  else .ok { path with frames := path.frames ++ [frame] }

/-- The frame of the innermost container, and the path around it. -/
def pop (path : Path) : Except Error (Frame × Path) :=
  match path.frames.getLast? with
  | some frame => .ok (frame, { path with frames := path.frames.dropLast })
  | none => .error .stackUnderflow

def view (path : Path) : View := .ofFrames path.frames

/-- Invalidates the frame at `index` and says whether there is one. -/
def invalidate (path : Path) (index : Nat) : Bool × Path :=
  let (done, view) := path.view.invalidate index
  (done, { path with frames := view.frames })

def invalidateParent (path : Path) : Bool × Path :=
  let (done, view) := path.view.invalidateParent
  (done, { path with frames := view.frames })

/-- Invalidates the frames at all these indices, as far as there are any. -/
def invalidateAll (path : Path) (indices : List Nat) : Path :=
  { path with frames := indices.foldl Frame.invalidateAt path.frames }

/-- Whether the whole path fits a pattern. -/
def fits (path : Path) (pattern : List Frame) : Bool := Frame.allFit path.frames pattern

/-- Invalidating leaves all there is to the frames as it was, but for their being active. -/
theorem map_frames_invalidateAll {β : Type} {view : Frame → β}
    (same : ∀ frame, view frame.invalidate = view frame) (path : Path) (indices : List Nat) :
    (path.invalidateAll indices).frames.map view = path.frames.map view := by
  obtain ⟨frames, limit⟩ := path
  unfold invalidateAll
  dsimp only
  induction indices generalizing frames with
  | nil => rfl
  | cons index indices ih => exact (ih _).trans (Frame.map_invalidateAt same frames index)

@[simp] theorem depth_invalidateAll (path : Path) (indices : List Nat) :
    (path.invalidateAll indices).depth = path.depth := by
  have h := @map_frames_invalidateAll _ Frame.kind (fun _ => rfl) path indices
  simpa [depth] using congrArg List.length h

@[simp] theorem limit_invalidateAll (path : Path) (indices : List Nat) :
    (path.invalidateAll indices).limit = path.limit := rfl

theorem push_of_lt {path : Path} (h : path.depth < path.limit) (frame : Frame) :
    path.push frame = .ok ⟨path.frames ++ [frame], path.limit⟩ :=
  if_neg (Nat.not_le_of_lt h)

theorem push_of_le {path : Path} (h : path.limit ≤ path.depth) (frame : Frame) :
    path.push frame = .error (.stackOverflow path.limit) :=
  if_pos h

/-- What pushing a frame has done. -/
theorem push_eq_ok {path inner : Path} {frame : Frame} (h : path.push frame = .ok inner) :
    path.depth < path.limit ∧ inner = ⟨path.frames ++ [frame], path.limit⟩ := by
  by_cases room : path.depth < path.limit
  · rw [push_of_lt room] at h
    cases h
    exact ⟨room, rfl⟩
  · rw [push_of_le (Nat.le_of_not_lt room)] at h
    cases h

/-- What popping a frame has done. -/
theorem pop_eq_ok {path outer : Path} {frame : Frame} (h : path.pop = .ok (frame, outer)) :
    path.frames = outer.frames ++ [frame] ∧ outer.limit = path.limit := by
  unfold pop at h
  split at h
  · rename_i last
    obtain ⟨front, split⟩ := List.getLast?_eq_some_iff.1 last
    cases h
    refine ⟨?_, rfl⟩
    simp [split]
  · cases h

/-- Only the path outside any container cannot be popped. -/
theorem pop_eq_error_iff {path : Path} {error : Error} :
    path.pop = .error error ↔ path.frames = [] ∧ error = .stackUnderflow := by
  unfold pop
  cases h : path.frames.getLast? with
  | none => simp [List.getLast?_eq_none_iff.1 h, eq_comm]
  | some frame =>
    have : path.frames ≠ [] := by
      intro e
      simp [e] at h
    simp [this]

end Path

end PathFold
