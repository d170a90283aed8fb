import GeoScript.Heap.Marking

/-!
# Trial deletion

**The graph.** Frames refer to their parents and, through closures bound in them, to the frames
these closures were made in. Frames and closures carry counts of all references to them, from
inside and from outside the graph.

**The idea.** References from inside the graph are subtracted from the counts. What is left over
comes from outside: a frame with something left over is in use, and so is the frame captured by a
closure with something left over, and whatever these lead to. All other frames refer only to each
other and can go.
-/

namespace GeoScript

namespace FrameGraph

/-- A frame: its parent, the closures in its slots, and how many references there are to it. -/
structure Frame where
  parent : Option Nat
  slots : List Nat
  strong : Nat
  deriving Repr, Inhabited

/-- A closure bound in a frame: the scope it was made in, and how many references there are to
it. -/
structure Bound where
  captured : Nat
  strong : Nat
  deriving Repr, Inhabited

end FrameGraph

/-- Frames and closures by number. Parents and captured scopes may lie outside the graph. -/
structure FrameGraph where
  frames : Std.TreeMap Nat FrameGraph.Frame
  closures : Std.TreeMap Nat FrameGraph.Bound
  deriving Inhabited

namespace FrameGraph

variable (g : FrameGraph)

/-- For each closure that some slot holds, how many slots hold it. -/
def slotCounts : Std.TreeMap Nat Nat := tally (g.frames.values.flatMap Frame.slots)

/-- The closures that some slot holds, with the number of those slots. -/
def boundClosures : List (Bound × Nat) :=
  g.slotCounts.toList.filterMap fun (id, count) => g.closures[id]?.map (·, count)

/-- For each frame, how many references to it come from inside the graph. -/
def internal : Std.TreeMap Nat Nat :=
  tally (g.frames.values.filterMap Frame.parent ++ g.boundClosures.map (·.1.captured))

/-- The frames that a frame leads to. -/
def successors (f : Frame) : List Nat :=
  f.parent.toList ++ f.slots.filterMap fun id => g.closures[id]?.map Bound.captured

/-- The frames in use whatever the other frames hold: those with a reference from outside, and
those captured by a closure with a reference from outside. -/
def anchors : List Nat :=
  let internal := g.internal
  (g.frames.toList.filter fun (id, f) => internal.getD id 0 < f.strong).map (·.1) ++
    (g.boundClosures.filter fun (c, count) => count < c.strong).map (·.1.captured)

/-- The frames that only unused frames refer to. -/
def garbage : List Nat := (unreached g.successors g.frames g.anchors).keys

/-- Takes the frames that only unused frames refer to out of a table that is kept under the same
numbers, and tells how many they are. -/
def collect {α : Type} (table : Std.TreeMap Nat α) : Nat × Std.TreeMap Nat α :=
  let unused := g.garbage
  (unused.length, unused.foldl (·.erase ·) table)

end FrameGraph

end GeoScript
