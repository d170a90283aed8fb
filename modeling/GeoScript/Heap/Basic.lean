import Std.Data.TreeMap
import GeoScript.Value.Basic

/-!
# Scopes

**Chains.** A scope binds names to values and knows the scopes that enclose it, innermost first.
A name is looked up in a scope and then outward; a name is stored in one scope only. Roots are
scopes with nothing around them; all others are the frames of calls, or children a host has made.

**Own closures.** A closure bound in the very scope it was made in is stored without that scope,
which is put back on lookup. So a scope never refers to itself, and a function that is merely
declared keeps nothing alive.

**The heap** holds all scopes by number. Numbers are never used twice. It also knows which scopes
a host holds on to, how many programs have been run, and which random numbers are drawn.
`reclaims` says whether frames are given back; without it every scope is kept as it was made.

**Random numbers** are no business of a program: they are drawn, one after the other, from numbers
that are given with the heap.
-/

namespace GeoScript

/-- What a name is bound to. -/
inductive Slot where
  | value (value : Value)
  /-- A closure made in the scope that holds the slot. -/
  | own (function : Lambda)
  deriving Inhabited

namespace Slot

/-- The value in a slot of the scope `holder`. -/
def load (holder : ScopeId) : Slot → Value
  | value v => v
  | own f => .closure ⟨f, holder⟩

/-- The slot for a value in the scope `holder`. -/
def store (holder : ScopeId) : Value → Slot
  | .closure c => if c.scope = holder then own c.lambda else value (.closure c)
  | v => value v

/-- The scope that a slot keeps alive. -/
def captured? : Slot → Option ScopeId
  | value (.closure c) => some c.scope
  | _ => none

end Slot

structure Scope where
  bindings : Std.TreeMap String Slot
  /-- The enclosing scopes, innermost first. -/
  ancestors : List ScopeId
  deriving Inhabited

namespace Scope

def parent? (s : Scope) : Option ScopeId := s.ancestors.head?

/-- The scope without its bindings. -/
def cleared (s : Scope) : Scope := { s with bindings := ∅ }

/-- The scopes captured by closures bound here, once for each binding. -/
def captures (s : Scope) : List ScopeId := s.bindings.values.filterMap Slot.captured?

/-- Whatever a scope keeps alive: its parent, and the scopes its closures were made in. -/
def references (s : Scope) : List ScopeId := s.parent?.toList ++ s.captures

end Scope

/-- The random numbers of a run. -/
@[ext] structure Draws where
  /-- All of them, in the order in which they are drawn. -/
  numbers : Nat → Float
  /-- How many have been drawn. -/
  drawn : Nat
  deriving Inhabited

/-- A literal stands for the draws that always give its number. -/
instance {n : Nat} : OfNat Draws n := ⟨fun _ => .ofNat n, 0⟩

/-- The next number. -/
def Draws.draw (d : Draws) : Float × Draws := (d.numbers d.drawn, { d with drawn := d.drawn + 1 })

structure Heap where
  scopes : Std.TreeMap ScopeId Scope
  /-- The number of the next scope. -/
  next : ScopeId
  /-- The scopes that a host holds on to, once for each hold. -/
  held : List ScopeId
  /-- How many programs have been run. -/
  programs : Nat
  draws : Draws
  /-- Whether frames are given back. -/
  reclaims : Bool
  deriving Inhabited

namespace Heap

def empty (draws : Draws) : Heap where
  scopes := ∅
  next := 0
  held := []
  programs := 0
  draws := draws
  reclaims := true

/-- Adds a scope with no bindings. -/
def add (h : Heap) (ancestors : List ScopeId) : ScopeId × Heap :=
  (h.next, { h with scopes := h.scopes.insert h.next ⟨∅, ancestors⟩, next := h.next + 1 })

def newRoot (h : Heap) : ScopeId × Heap := h.add []

/-- A scope and those around it, innermost first. -/
def chain (h : Heap) (id : ScopeId) : List ScopeId :=
  id :: (h.scopes[id]?.map Scope.ancestors).getD []

def newChild (h : Heap) (parent : ScopeId) : ScopeId × Heap := h.add (h.chain parent)

/-- Binds a name in a scope, in place of what it was bound to there. -/
def store (h : Heap) (id : ScopeId) (name : String) (v : Value) : Heap :=
  let slot := if h.reclaims then Slot.store id v else .value v
  { h with scopes := h.scopes.modify id fun s => { s with bindings := s.bindings.insert name slot } }

/-- The value that a scope itself binds to a name. -/
def local? (h : Heap) (name : String) (id : ScopeId) : Option Value :=
  (h.scopes[id]?.bind fun s => s.bindings[name]?).map (Slot.load id)

/-- The value of a name seen from a scope: that of the innermost scope that binds it. -/
def resolve (h : Heap) (id : ScopeId) (name : String) : Option Value :=
  (h.chain id).findSome? (h.local? name)

def containsLocal (h : Heap) (id : ScopeId) (name : String) : Bool :=
  (h.scopes[id]?.map fun s => s.bindings.contains name).getD false

/-- The names bound in a scope itself, sorted. -/
def localNames (h : Heap) (id : ScopeId) : List String :=
  (h.scopes[id]?.map fun s => s.bindings.keys).getD []

/-- How many scopes are around a scope. -/
def depth (h : Heap) (id : ScopeId) : Nat := (h.chain id).length - 1

/-- The outermost scope around a scope. -/
def rootOf (h : Heap) (id : ScopeId) : ScopeId := (h.chain id).getLastD id

/-- Ends a frame. Only scopes made after a frame can still refer to it, so the newest scope goes
at once; any other loses its bindings and goes when the frames of its root are collected. -/
def release (h : Heap) (id : ScopeId) : Heap :=
  if h.reclaims then
    if h.scopes.maxKey? == some id then { h with scopes := h.scopes.erase id }
    else { h with scopes := h.scopes.modify id Scope.cleared }
  else h

/-- The next random number. -/
def random (h : Heap) : Float × Heap :=
  let (x, draws) := h.draws.draw
  (x, { h with draws })

end Heap

end GeoScript
