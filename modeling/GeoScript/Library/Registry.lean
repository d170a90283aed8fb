import GeoScript.Library.Math
import GeoScript.Library.Shapes

/-!
# The standard libraries

All libraries by name, the bindings of a fresh root, and calls of library functions.
-/

namespace GeoScript

namespace Library

def standard : List Library := [math, geometry]

def find? (name : String) : Option Library := standard.find? (·.name == name)

/-- Everything the libraries export, with its value. -/
def standardBindings : List (String × Value) := standard.flatMap bindings

def isStandardName (name : String) : Bool := standardBindings.any (·.1 == name)

/-- Calls a library function without a look at the number of arguments. -/
def call? (l : Library) (name : String) (args : List Value) (line : Nat) :
    Option (Effect Heap Value) :=
  (l.builtin? name).map (Builtin.run args line)

end Library

/-- Calls a native: first the number of arguments is checked, then the function is looked up. -/
def Native.call (f : Native) (args : List Value) (line : Nat) : Effect Heap Value :=
  if f.accepts args.length then
    match (Library.find? f.library).bind fun l => l.call? f.name args line with
    | some step => step
    | none => .fail (.unresolved (f.library ++ "." ++ f.name)) line
  else
    .fail (.arity f.name f.arity args.length) line

/-- A root that binds everything the libraries export. -/
def Heap.newGlobal (h : Heap) : ScopeId × Heap :=
  let (root, h) := h.newRoot
  (root, Library.standardBindings.foldl (fun h (name, v) => h.store root name v) h)

end GeoScript
