import GeoScript.Heap.Basic
import GeoScript.Effect
import GeoScript.Value.Coercion

/-!
# Libraries

A library exports constants and functions under fixed names. Functions are called by name with a
list of arguments whose number has been checked; an argument that is missing all the same counts
as unit.
-/

namespace GeoScript

/-- What a library offers under a name. -/
inductive Export.Kind where
  | function (minArgs : Nat) (maxArgs : Option Nat)
  | constant (value : Float)
  deriving Repr, Inhabited

structure Export where
  name : String
  kind : Export.Kind
  deriving Repr, Inhabited

namespace Export

/-- A function with a fixed number of arguments. -/
def function (name : String) (count : Nat) : Export := ⟨name, .function count (some count)⟩

/-- A function with any number of arguments. -/
def variadic (name : String) : Export := ⟨name, .function 0 none⟩

def constant (name : String) (value : Float) : Export := ⟨name, .constant value⟩

end Export

/-- How a library function works: by its arguments alone, or by drawing a random number. -/
inductive Builtin where
  | function (f : List Value → Except EvalFault Value)
  | random

def Builtin.run (args : List Value) (line : Nat) : Builtin → Effect Heap Value
  | function f => .ofExcept line (f args)
  | random => do return .number (← Effect.change Heap.random)

structure Library where
  name : String
  /-- All exports, in the order in which they are listed. -/
  exports : List Export
  /-- The function of a name. -/
  builtin? : String → Option Builtin

namespace Library

def export? (l : Library) (name : String) : Option Export :=
  l.exports.find? (·.name == name)

/-- The value that an export is bound to. -/
def value (l : Library) (e : Export) : Value :=
  match e.kind with
  | .constant x => .number x
  | .function least most => .native ⟨l.name, e.name, least, most⟩

/-- All exports with their values. -/
def bindings (l : Library) : List (String × Value) :=
  l.exports.map fun e => (e.name, l.value e)

/-- The argument at a place. -/
def argument (args : List Value) (i : Nat) : Value := args.getD i .unit

def numberAt (args : List Value) (i : Nat) : Except EvalFault Float := (argument args i).asNumber

end Library

end GeoScript
