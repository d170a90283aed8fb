import GeoScript.Inspect
import GeoScript.Session

/-!
# Hosts

A host holds on to scopes under names of its own and drives them one request at a time: it makes
and drops scopes, evaluates in them, copies values between them, and asks about them. After each
request that may have changed bindings the scopes that nothing refers to are swept away.
-/

namespace GeoScript

structure Host where
  heap : Heap
  /-- The scopes held, by the name the host gave them. -/
  handles : List (String × ScopeId)
  deriving Inhabited

/-- What a host can ask for. -/
inductive Request where
  | root
  | global
  | child (handle : String)
  | drop
  | eval (source : String)
  | copy (name into target : String)
  | resolve (name : String)
  | same (name other : String)
  | contains (name : String)
  | depth
  | names
  | inspect
  | live
  | unknown
  deriving Inhabited

/-- What a host gets back. -/
inductive Reply where
  | done
  | flag (value : Bool)
  | outcome (result : Except Error Value)
  | found (value : Option Value)
  | count (value : Nat)
  | names (value : List String)
  | text (value : String)
  | noSuchScope
  | noSuchStep
  deriving Inhabited

namespace Host

def empty (draws : Draws) : Host := ⟨.empty draws, []⟩

def scope? (host : Host) (handle : String) : Option ScopeId := host.handles.lookup handle

/-- Lets go of a handle, if there is one of that name. -/
def forget (host : Host) (handle : String) : Host :=
  match host.scope? handle with
  | some id => ⟨host.heap.letGo id, host.handles.filter (·.1 != handle)⟩
  | none => host

/-- Holds on to a new scope; a handle of the same name gives way to it. -/
def bind (host : Host) (handle : String) (made : ScopeId × Heap) : Host :=
  let host := { host with heap := made.2.hold made.1 }.forget handle
  { host with handles := (handle, made.1) :: host.handles }

/-- The names bound in a scope that the standard libraries do not export. -/
def ownNames (heap : Heap) (id : ScopeId) : List String :=
  (heap.localNames id).filter (!Library.isStandardName ·)

/-- Answers a request about a scope that is there. -/
def stepIn (host : Host) (id : ScopeId) : Request → Reply × Host
  | .child handle => (.done, host.bind handle (host.heap.newChild id))
  | .eval source =>
    let (result, heap) := evaluate source id host.heap
    (.outcome result, { host with heap := heap.sweep })
  | .copy name into target =>
    match host.scope? into with
    | none => (.noSuchScope, host)
    | some destination =>
      match host.heap.resolve id name with
      | some v => (.flag true, { host with heap := (host.heap.store destination target v).sweep })
      | none => (.flag false, host)
  | .resolve name => (.found (host.heap.resolve id name), host)
  | .same name other =>
    (.flag (host.heap.resolve id name == host.heap.resolve id other), host)
  | .contains name => (.flag (host.heap.containsLocal id name), host)
  | .depth => (.count (host.heap.depth id), host)
  | .names => (.names (ownNames host.heap id), host)
  | .inspect => (.text (Inspect.scope host.heap id), host)
  | .live =>
    let root := host.heap.rootOf id
    let heap := (host.heap.collect root).sweep
    (.count (heap.liveFrames root), { host with heap })
  | _ => (.noSuchStep, host)

/-- Answers a request about the scope of a handle. -/
def step (host : Host) (handle : String) : Request → Reply × Host
  | .root => (.done, host.bind handle host.heap.newRoot)
  | .global => (.done, host.bind handle host.heap.newGlobal)
  | .drop => (.flag (host.scope? handle).isSome, host.forget handle)
  | request =>
    match host.scope? handle with
    | some id => host.stepIn id request
    | none => (.noSuchScope, host)

end Host

/-! ## Sessions -/

/-- What is seen of one step of a session: its outcome, the names bound in the root, and how many
frames are still there. -/
structure SessionStep where
  result : Except Error Value
  names : List String
  liveFrames : Nat

/-- Evaluates source texts one after the other in one root. -/
def runSession (root : ScopeId) : Heap → List String → List SessionStep
  | _, [] => []
  | h, source :: rest =>
    let (result, h) := evaluate source root h
    ⟨result, Host.ownNames h root, h.liveFrames root⟩ :: runSession root h rest

end GeoScript
