import PathFold.Path.Frame

/-! The open path as a rule's action sees it. An action looks at the frames and asks for some of them
to be invalidated; what it asked for is seen at once, and nothing else about the path can change. -/

namespace PathFold

/-- The frames, root first, and the indices at which invalidation was asked for, oldest first. -/
structure View where
  frames : List Frame
  requests : List Nat
  deriving DecidableEq, Repr

namespace View

def ofFrames (frames : List Frame) : View := ⟨frames, []⟩

def depth (view : View) : Nat := view.frames.length

def get? (view : View) (index : Nat) : Option Frame := view.frames[index]?

/-- The frame of the innermost container. -/
def parent? (view : View) : Option Frame := view.frames.getLast?

/-- Invalidates the frame at `index`, the root being at 0, and says whether there is one. -/
def invalidate (view : View) (index : Nat) : Bool × View :=
  if index < view.depth then
    (true, ⟨Frame.invalidateAt view.frames index, view.requests ++ [index]⟩)
  else (false, view)

/-- Invalidates the frame of the innermost container. -/
def invalidateParent (view : View) : Bool × View :=
  if view.depth = 0 then (false, view) else view.invalidate (view.depth - 1)

def listing (view : View) : String := Text.listing (view.frames.map Frame.listing)

end View

end PathFold
