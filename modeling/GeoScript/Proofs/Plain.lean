import GeoScript.Eval

/-!
# Plain results

Accessors, arithmetic, concatenation, comparison and the libraries never give a closure. So a
closure can only come from a function literal, from a name, or from a call.
-/

namespace GeoScript

/-- The computation never gives a closure. -/
def Plain (x : Except EvalFault Value) : Prop := ∀ v, x = .ok v → v.isClosure = false

theorem plain_ok {v : Value} (hv : v.isClosure = false) : Plain (.ok v) := by
  intro u hu
  rw [← Except.ok.inj hu]
  exact hv

theorem plain_error (fault : EvalFault) : Plain (.error fault) := by
  intro u hu
  cases hu

theorem plain_bind {α : Type} {x : Except EvalFault α} {f : α → Except EvalFault Value}
    (hf : ∀ a, Plain (f a)) : Plain (x >>= f) := by
  cases x with
  | ok a => exact hf a
  | error fault => exact plain_error fault

theorem plain_map {α : Type} {x : Except EvalFault α} {f : α → Value}
    (hf : ∀ a, (f a).isClosure = false) : Plain (x.map f) := by
  cases x with
  | ok a => exact plain_ok (hf a)
  | error fault => exact plain_error fault

namespace Value

theorem plain_readWith {property : String} {args : List Value} {v : Value}
    (hv : v.isClosure = false) : Plain (readWith property args v) := by
  unfold readWith
  split
  · exact plain_ok hv
  · exact plain_error _

theorem plain_elementWith {α : Type} {property : String} {args : List Value} {xs : List α}
    {wrap : α → Value} (hwrap : ∀ a, (wrap a).isClosure = false) :
    Plain (elementWith property args xs wrap) := by
  unfold elementWith
  split
  · exact plain_map hwrap
  · exact plain_error _

theorem plain_axisWith {property : String} {args : List Value} {x : Float}
    {replace : Float → Coord} : Plain (axisWith property args x replace) := by
  unfold axisWith
  split
  · exact plain_ok rfl
  · exact plain_map fun _ => rfl
  · exact plain_error _

theorem plain_access (target : Value) (property : String) (args : List Value) :
    Plain (target.access property args) := by
  unfold access
  split
  · split
    · exact plain_readWith rfl
    · exact plain_axisWith
    · exact plain_axisWith
    · exact plain_readWith rfl
    · exact plain_elementWith fun _ => rfl
    · exact plain_readWith rfl
    · exact plain_elementWith fun _ => rfl
    · exact plain_error _
  · exact plain_error _

theorem plain_arith (op : ArithOp) (l r : Value) : Plain (arith op l r) := by
  unfold arith arithWith
  split
  · exact plain_ok rfl
  · exact plain_map fun _ => rfl
  · exact plain_map fun _ => rfl
  · exact plain_map fun _ => rfl
  · exact plain_error _

theorem plain_compare (op : CompareOp) (l r : Value) : Plain (compare op l r) := by
  unfold compare
  split
  · exact plain_ok rfl
  · exact plain_error _

theorem plain_concat (l r : Value) : Plain (concat l r) := by
  unfold concat
  split
  · exact plain_ok rfl
  · exact plain_error _

end Value

namespace Library

theorem plain_round (places : Nat) (v : Value) : Plain (Shapes.round places v) := by
  unfold Shapes.round
  split
  · exact plain_ok rfl
  · exact plain_ok rfl
  · exact plain_error _

theorem plain_conversion {make : List Coord → Geometry} {f : List Value → Except EvalFault Value}
    (h : Shapes.conversion make = .function f) (args : List Value) : Plain (f args) := by
  obtain rfl := Builtin.function.inj h
  exact plain_bind fun _ => plain_ok rfl

theorem plain_shapes {name : String} {f : List Value → Except EvalFault Value}
    (h : Shapes.builtin? name = some (.function f)) (args : List Value) : Plain (f args) := by
  unfold Shapes.builtin? at h
  split at h
  · obtain rfl := Builtin.function.inj (Option.some.inj h)
    exact plain_bind fun _ => plain_ok rfl
  · obtain rfl := Builtin.function.inj (Option.some.inj h)
    exact plain_bind fun _ => plain_bind fun _ => plain_bind fun _ => plain_ok rfl
  · obtain rfl := Builtin.function.inj (Option.some.inj h)
    refine plain_bind fun _ => plain_bind fun _ => ?_
    split <;> exact plain_bind fun _ => plain_bind fun _ => plain_ok rfl
  · exact plain_conversion (Option.some.inj h) args
  · exact plain_conversion (Option.some.inj h) args
  · exact plain_conversion (Option.some.inj h) args
  · exact plain_conversion (Option.some.inj h) args
  · obtain rfl := Builtin.function.inj (Option.some.inj h)
    exact plain_bind fun _ => plain_bind fun _ => plain_bind fun _ => plain_ok rfl
  · obtain rfl := Builtin.function.inj (Option.some.inj h)
    exact plain_bind fun _ => plain_round _ _
  · cases h

theorem plain_math {name : String} {f : List Value → Except EvalFault Value}
    (h : Math.builtin? name = some (.function f)) (args : List Value) : Plain (f args) := by
  unfold Math.builtin? at h
  split at h
  · cases h
  · split at h
    · obtain rfl := Builtin.function.inj (Option.some.inj h)
      exact plain_bind fun _ => plain_ok rfl
    · obtain rfl := Builtin.function.inj (Option.some.inj h)
      exact plain_bind fun _ => plain_bind fun _ => plain_ok rfl
    · obtain rfl := Builtin.function.inj (Option.some.inj h)
      exact plain_bind fun _ => plain_ok rfl
    · cases h

theorem plain_builtin {l : Library} {library name : String}
    {f : List Value → Except EvalFault Value} (hl : find? library = some l)
    (h : l.builtin? name = some (.function f)) (args : List Value) : Plain (f args) := by
  have hmem : l ∈ standard := List.mem_of_find?_eq_some hl
  simp only [standard, List.mem_cons, List.not_mem_nil, or_false] at hmem
  rcases hmem with rfl | rfl
  · exact plain_math h args
  · exact plain_shapes h args

end Library

end GeoScript
