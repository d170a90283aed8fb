import GeoScript.Eval

/-!
# What operations see of a closure

**Blank.** Accessors, arithmetic, comparison, concatenation, pipelines and library functions never
look into a closure: they do the same when each closure among their operands is replaced by one and
the same blank closure. Only calls and the equality of values tell closures apart.
-/

namespace GeoScript

namespace Value

/-- The value, with a closure made indistinguishable from all others. -/
def blank : Value → Value
  | closure _ => closure default
  | v => v

variable (v : Value)

@[simp] theorem typeName_blank : v.blank.typeName = v.typeName := by cases v <;> rfl

@[simp] theorem isCallable_blank : v.blank.isCallable = v.isCallable := by cases v <;> rfl

@[simp] theorem asNumber_blank : v.blank.asNumber = v.asNumber := by cases v <;> rfl

@[simp] theorem asBool_blank : v.blank.asBool = v.asBool := by cases v <;> rfl

@[simp] theorem asGeometry_blank : v.blank.asGeometry = v.asGeometry := by cases v <;> rfl

@[simp] theorem asPoint_blank : v.blank.asPoint = v.asPoint := by cases v <;> rfl

@[simp] theorem asListPoint_blank : v.blank.asListPoint = v.asListPoint := by cases v <;> rfl

@[simp] theorem asMember_blank : v.blank.asMember = v.asMember := by cases v <;> rfl

@[simp] theorem asPoints_blank : v.blank.asPoints = v.asPoints := by cases v <;> rfl

@[simp] theorem asInteger_blank (what : Quantity) : v.blank.asInteger what = v.asInteger what := by
  simp [asInteger]

@[simp] theorem asCount_blank (what : Quantity) : v.blank.asCount what = v.asCount what := by
  simp [asCount]

@[simp] theorem elementOf_blank {α : Type} (xs : List α) :
    elementOf xs v.blank = elementOf xs v := by
  simp [elementOf]

@[simp] theorem arith_blank (op : ArithOp) (l r : Value) :
    arith op l.blank r.blank = arith op l r := by
  cases l <;> cases r <;> rfl

@[simp] theorem compare_blank (op : CompareOp) (l r : Value) :
    compare op l.blank r.blank = compare op l r := by
  cases l <;> cases r <;> rfl

@[simp] theorem concat_blank (l r : Value) : concat l.blank r.blank = concat l r := by
  cases l <;> cases r <;> rfl

theorem readWith_blank (property : String) (args : List Value) (v : Value) :
    readWith property (args.map blank) v = readWith property args v := by
  cases args with
  | nil => rfl
  | cons a args => simp [readWith, argumentCount]

theorem elementWith_blank {α : Type} (property : String) (args : List Value) (xs : List α)
    (wrap : α → Value) :
    elementWith property (args.map blank) xs wrap = elementWith property args xs wrap := by
  match args with
  | [] => rfl
  | [a] => simp [elementWith]
  | a :: b :: args => simp [elementWith, argumentCount]

theorem axisWith_blank (property : String) (args : List Value) (x : Float)
    (replace : Float → Coord) :
    axisWith property (args.map blank) x replace = axisWith property args x replace := by
  match args with
  | [] => rfl
  | [a] => simp [axisWith]
  | a :: b :: args => simp [axisWith, argumentCount]

@[simp] theorem access_blank (target : Value) (property : String) (args : List Value) :
    target.blank.access property (args.map blank) = target.access property args := by
  cases target with
  | geometry g =>
    simp only [blank, access, readWith_blank, elementWith_blank, axisWith_blank]
  | _ => rfl

end Value

namespace Library

open Value

@[simp] theorem argument_blank (args : List Value) (i : Nat) :
    argument (args.map blank) i = (argument args i).blank := by
  unfold argument
  rw [List.getD_eq_getElem?_getD, List.getD_eq_getElem?_getD, List.getElem?_map]
  cases args[i]? <;> rfl

@[simp] theorem numberAt_blank (args : List Value) (i : Nat) :
    numberAt (args.map blank) i = numberAt args i := by
  simp [numberAt]

theorem round_blank (places : Nat) (v : Value) :
    Shapes.round places v.blank = Shapes.round places v := by
  cases v <;> rfl

variable {name : String} {f : List Value → Except EvalFault Value}

theorem shapes_blank (h : Shapes.builtin? name = some (.function f)) (args : List Value) :
    f (args.map blank) = f args := by
  unfold Shapes.builtin? at h
  split at h
  case h_10 => cases h
  all_goals
    obtain rfl := Builtin.function.inj (Option.some.inj h)
    simp [round_blank]

theorem math_blank (h : Math.builtin? name = some (.function f)) (args : List Value) :
    f (args.map blank) = f args := by
  unfold Math.builtin? at h
  split at h
  · cases h
  split at h
  case h_4 => cases h
  all_goals
    obtain rfl := Builtin.function.inj (Option.some.inj h)
    simp [List.mapM_map, Function.comp_def]

/-- **Library functions do not look into closures.** -/
theorem builtin_blank {l : Library} {library : String} (hl : find? library = some l)
    (h : l.builtin? name = some (.function f)) (args : List Value) :
    f (args.map blank) = f args := by
  have hmem : l ∈ standard := List.mem_of_find?_eq_some hl
  simp only [standard, List.mem_cons, List.not_mem_nil, or_false] at hmem
  rcases hmem with rfl | rfl
  · exact math_blank h args
  · exact shapes_blank h args

end Library

end GeoScript
