import GeoScript.Heap.Basic
import GeoScript.Heap.FrameGraph

/-!
# Giving frames back

**After an evaluation** the frames of a root that are no longer in use are given back. The graph
of frames is read off the heap: every closure bound in a frame is taken for an object of its own,
and the references to a frame are those from parents, from closures in any scope, and from a host.

**When a host lets go** of a scope, or binds a name anew, whatever nothing refers to any more goes
at once, and with it what it alone kept alive. Scopes that refer to each other in a circle stay
until the frames of their root are collected; a circle through two roots stays for good.
-/

namespace GeoScript.Heap

/-- The scopes of a root other than the root itself. -/
def frames (h : Heap) (root : ScopeId) : List (ScopeId × Scope) :=
  h.scopes.toList.filter fun (_, s) => s.ancestors.getLast? == some root

/-- How many scopes of a root there are beside the root. -/
def liveFrames (h : Heap) (root : ScopeId) : Nat := (h.frames root).length

/-- For each scope, how many references there are to it. -/
def references (h : Heap) : Std.TreeMap ScopeId Nat :=
  tally (h.scopes.values.flatMap Scope.references ++ h.held)

/-- The graph under construction, and the number of its next closure. -/
def addFrame (strong : Std.TreeMap ScopeId Nat) (g : FrameGraph × Nat) (frame : ScopeId × Scope) :
    FrameGraph × Nat :=
  let (graph, next) := g
  let (id, scope) := frame
  let captured := scope.captures
  let slots := List.range' next captured.length
  let closures := (slots.zip captured).foldl
    (fun table (slot, c) => table.insert slot ⟨c, 1⟩) graph.closures
  (⟨graph.frames.insert id ⟨scope.parent?, slots, strong.getD id 0⟩, closures⟩,
    next + captured.length)

/-- The graph of the frames of a root. -/
def frameGraph (h : Heap) (root : ScopeId) : FrameGraph :=
  ((h.frames root).foldl (addFrame h.references) (⟨∅, ∅⟩, 0)).1

/-- Gives back all frames of a root that are not in use. -/
def collect (h : Heap) (root : ScopeId) : Heap :=
  if h.reclaims then
    { h with scopes := ((h.frameGraph root).collect h.scopes).2 }
  else h

/-- Notes that a host holds on to a scope. -/
def hold (h : Heap) (id : ScopeId) : Heap := { h with held := id :: h.held }

/-- Removes the scopes that nothing refers to. Their removal may leave others unused, so this is
done in rounds, as many as given. -/
def sweepRounds : Nat → Heap → Heap
  | 0, h => h
  | n + 1, h =>
    let counts := h.references
    let unused := h.scopes.keys.filter fun id => counts.getD id 0 == 0
    if unused.isEmpty then h
    else sweepRounds n { h with scopes := unused.foldl (·.erase ·) h.scopes }

/-- Removes all scopes that nothing refers to. Every round but the last removes one at least, so
there are no more rounds than scopes. -/
def sweep (h : Heap) : Heap :=
  if h.reclaims then h.sweepRounds h.scopes.size else h

/-- Undoes one `hold`. -/
def letGo (h : Heap) (id : ScopeId) : Heap := sweep { h with held := h.held.erase id }

end GeoScript.Heap
