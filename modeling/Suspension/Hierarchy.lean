import Suspension.Codec.Decode
import Suspension.Fault
import Suspension.Log
import Suspension.Repetition

/-!
# What is known about classes

Two questions about classes decide the transformation: **can a call suspend**, and **which class do two
classes have in common**.  Both are answered from the class files a resolver supplies.  Every class is
resolved at most once; what was found is kept, and so is the fact that nothing was found.

A method is suspendable when it declares the suspend signal.  Classes of the core packages are
opaque: their methods are suspendable only if listed.  What is not known is assumed to suspend.

* `Hierarchy` — the facts kept so far, the classes that the resolver was asked for, and the log.
* `Hierarchy.isSuspendable`, `directSuper`, `commonSuper`, `isException` — the questions.
* `Hierarchy.record`, `Hierarchy.invalidate` — facts from elsewhere, and forgetting.
-/

namespace Suspension

/-- A method of a class. -/
structure MethodKey where
  cls : Text
  name : Text
  desc : Text
deriving DecidableEq, Repr

/-- Where classes come from, and what is taken for granted about them.  `height` is the number of classes
that can be resolved, as far as it is known. -/
structure ClassSource where
  resolve? : Option (Text → Except Fault Bytes) := none
  height : Nat := 0
  sink : Sink := {}
  corePrefixes : List Text := ["core/"]
  suspendableCore : List MethodKey := []

/-- The facts about one class: its superclass, and for each method whether it declares the signal. -/
structure ClassFacts where
  super : Text
  methods : List (Text × Bool)
deriving DecidableEq, Repr

/-- The facts of a class. -/
def ClassFacts.ofClass (c : Class) : ClassFacts where
  super := c.super
  methods := c.methods.foldl
    (fun acc m => (m.key, m.declares ClassName.suspendSignal) :: acc.filter (·.1 != m.key)) []

/-- What is kept about a name: its facts, or that it could not be resolved. -/
inductive ClassEntry where
  | missing
  | known (facts : ClassFacts)
deriving DecidableEq, Repr

namespace ClassEntry

/-- The superclass of an entry; a missing class stands under a name that no class has. -/
def super : ClassEntry → Text
  | missing => "<class not found>"
  | known f => f.super

/-- The methods of an entry. -/
def methods : ClassEntry → List (Text × Bool)
  | missing => []
  | known f => f.methods

/-- Whether two entries say the same, whatever the order of their methods. -/
def agrees (a b : ClassEntry) : Bool :=
  a.super == b.super && a.methods.length == b.methods.length
    && a.methods.all fun (k, v) => b.methods.lookup k == some v

end ClassEntry

/-- **What is known so far.**  `supers` holds superclasses that were looked up without keeping the
class; an empty one records a failure.  `consulted` are the names that the resolver was asked for, the
latest first. -/
structure Hierarchy where
  classes : List (Text × ClassEntry) := []
  supers : List (Text × Text) := []
  consulted : List Text := []
  log : Log := #[]
deriving Repr, Inhabited

/-- How often the resolver was asked. -/
def Hierarchy.resolutions (h : Hierarchy) : Nat := h.consulted.length

/-- A question: an answer, and what is known after it. -/
abbrev Query (α : Type) := StateM Hierarchy α

namespace Hierarchy

/-- A message to the log. -/
def send (sink : Sink) (level : LogLevel) (message : Text) (fields : LogFields) : Query Unit :=
  modify fun h => { h with log := sink.send level message fields h.log }

/-- An association list with the value of one key exchanged. -/
def put {β : Type} (key : Text) (v : β) (xs : List (Text × β)) : List (Text × β) :=
  (key, v) :: xs.filter (·.1 != key)

/-- Whether a class belongs to a core package. -/
def isCore (src : ClassSource) (cls : Text) : Bool :=
  src.corePrefixes.any fun p => Text.startsWith cls p

/-- Whether a method of a core class is listed as suspendable. -/
def isListed (src : ClassSource) (cls name desc : Text) : Bool :=
  src.suspendableCore.contains ⟨cls, name, desc⟩

/-- The bytes of a class, read. -/
def readClass (cls : Text) (data : Bytes) : Except Fault Class :=
  match Class.decode data with
  | .ok c => .ok c
  | .error e => .error (.resolution cls (some (.malformed e)))

/-- **Consulting the resolver.** -/
def resolve (src : ClassSource) (cls : Text) : Query (Except Fault Class) := do
  match src.resolve? with
  | none =>
    return .error (.resolution cls (some (.state Phase.resolve "no resolver configured")))
  | some f =>
    modify fun h => { h with consulted := cls :: h.consulted }
    match f cls with
    | .error e => return .error (.resolution cls (some e))
    | .ok data => return readClass cls data

/-- Keeps an entry; the newest one wins, and a different one of before is worth a warning. -/
def keep (src : ClassSource) (cls : Text) (e : ClassEntry) : Query Unit := do
  let old := (← get).classes.lookup cls
  modify fun h => { h with classes := put cls e h.classes }
  match old with
  | none => return ()
  | some o =>
    if o.agrees e then return ()
    else
      send src.sink .warn "duplicate class entries with different data"
        [("class", .text cls), ("kind", .text FaultKind.cacheConflict)]

/-- Keeps the facts of a class that is at hand. -/
def record (src : ClassSource) (c : Class) : Query Unit :=
  keep src c.name (.known (.ofClass c))

/-- The entry of a class, resolved on first use. -/
def entry (src : ClassSource) (cls : Text) : Query ClassEntry := do
  match (← get).classes.lookup cls with
  | some e => return e
  | none =>
    send src.sink .info "reading class" [("class", .text cls)]
    match ← resolve src cls with
    | .error e =>
      send src.sink .warn "class not found - assuming suspendable"
        [("class", .text cls), ("error", .text e.text)]
      keep src cls .missing
      return .missing
    | .ok c =>
      let e := ClassEntry.known (.ofClass c)
      keep src cls e
      return e

/-! ## Walks towards the root -/

section Climbing

variable {α β : Type} (step : β → Query (α ⊕ β))

/-- A step, together with what is known. -/
def climbStep (x : β × Hierarchy) : (α × Hierarchy) ⊕ (β × Hierarchy) :=
  match (step x.1).run x.2 with
  | (.inl r, h) => .inl (r, h)
  | (.inr y, h) => .inr (y, h)

/-- **Repeating a step until it has a result.**  Where it never has one there is none. -/
def climbOn (x : β) (h : Hierarchy) : Option (α × Hierarchy) := result? (climbStep step) (x, h)

/-- The same, with so many steps counted.  The count does not matter to the result; counting is what can
be evaluated without one. -/
def climbFor : Nat → β → Hierarchy → Option (α × Hierarchy)
  | 0, x, h => climbOn step x h
  | count + 1, x, h =>
    match (step x).run h with
    | (.inl r, h) => some (r, h)
    | (.inr y, h) => climbFor count y h

/-- **A walk.**  One that goes round in a cycle of superclasses never ends, and a question that walks there
never returns; `lost` only stands in for the answer that it does not have.  What is proved about answers is
proved where chains of superclasses end. -/
def climb (lost : α) (count : Nat) (x : β) : Query α := fun h =>
  (climbFor step count x h).getD (lost, h)

end Climbing

/-- The number of classes that a chain of superclasses goes through, as a rule: those that can be resolved
and those that are kept. -/
def chainBound (src : ClassSource) : Query Nat := do
  return src.height + (← get).classes.length + 2

/-- One class on the walk from a class towards the root that decides a call; the walk may end without an
answer. -/
def walkStep (src : ClassSource) (name desc : Text) (search : Bool) (cls : Text) :
    Query (Option Bool ⊕ Text) := do
  if cls.isEmpty then return .inl none
  match ← entry src cls with
  | .missing => return .inl (some true)
  | .known f =>
    match f.methods.lookup (name ++ desc) with
    | some declared =>
      return .inl (some (if isCore src cls then isListed src cls name desc else declared))
    | none => return if search then .inr f.super else .inl none

/-- **The walk that decides a call.** -/
def walk (src : ClassSource) (name desc : Text) (search : Bool) : Nat → Text → Query (Option Bool) :=
  climb (walkStep src name desc search) none

/-- **Whether a call may suspend.**  With `search` the method is looked for in the superclasses too, as
virtual and static calls do.  Constructors and initialisers never suspend, and what is not found is
assumed to. -/
def isSuspendable (src : ClassSource) (cls name desc : Text) (search : Bool) : Query Bool := do
  if name.startsWith (Text.ofString "<") then return false
  if isCore src cls then return isListed src cls name desc
  match ← walk src name desc search (← chainBound src) cls with
  | some answer => return answer
  | none =>
    send src.sink .warn "method not found - assuming suspendable"
      [("class", .text cls), ("method", .text (name ++ desc))]
    return true

/-! ## Superclasses -/

/-- Records that a superclass could not be determined; `cause` is why, unless the class has none. -/
def superFailed (src : ClassSource) (cls : Text) (cause : Option Fault) : Query (Option Text) := do
  modify fun h => { h with supers := put cls [] h.supers }
  send src.sink .warn "can't determine super class"
    ([(Text.ofString "class", .text cls)] ++ match cause with
      | some e => [(Text.ofString "error", .text e.text)]
      | none => [])
  return none

/-- A superclass name, unless it is empty. -/
def nonEmpty (t : Text) : Option Text := if t.isEmpty then none else some t

/-- **The superclass of a class.**  The root has none, and a failed look-up is kept too. -/
def directSuper (src : ClassSource) (cls : Text) : Query (Option Text) := do
  let h ← get
  match h.classes.lookup cls, h.supers.lookup cls with
  | some (.known f), _ => return nonEmpty f.super
  | _, some s => return nonEmpty s
  | some .missing, none => superFailed src cls (some (.notFound Phase.resolve "class" cls))
  | none, none =>
    match ← resolve src cls with
    | .error e => superFailed src cls (some e)
    | .ok c =>
      if c.super.isEmpty then superFailed src cls none
      else
        modify fun h => { h with supers := put cls c.super h.supers }
        return some c.super

/-- One class on the chain from a class up to the root; `below` are those passed so far. -/
def chainStep (src : ClassSource) : Text × List Text → Query (Option (List Text) ⊕ Text × List Text)
  | (cls, below) => do
    if cls == ClassName.object then return .inl (some (cls :: below))
    match ← directSuper src cls with
    | none => return .inl none
    | some s => return .inr (s, cls :: below)

/-- **The chain from a class up to the root**, the root first; `none` when it is not available. -/
def chainTo (src : ClassSource) (count : Nat) (cls : Text) : Query (Option (List Text)) :=
  climb (chainStep src) none count (cls, [])

/-- The last element of the longest common beginning of two chains. -/
def lastCommon : List Text → List Text → Option Text
  | a :: as, b :: bs => if a == b then (lastCommon as bs).or (some a) else none
  | _, _ => none

/-- **The most derived class that two classes have in common.**  An array has only the root in common
with anything else. -/
def commonSuper (src : ClassSource) (a b : Text) : Query (Option Text) := do
  if a == b then return some a
  if Descriptor.isArray a || Descriptor.isArray b then return some ClassName.object
  match ← chainTo src (← chainBound src) a with
  | none => return none
  | some as =>
    match ← chainTo src (← chainBound src) b with
    | none => return none
    | some bs => return lastCommon as bs

/-- One class on the walk towards the root that decides whether a class can be thrown. -/
def exceptionStep (src : ClassSource) (cls : Text) : Query (Bool ⊕ Text) := do
  if cls == ClassName.throwable then return .inl true
  if cls == ClassName.object then return .inl false
  match ← directSuper src cls with
  | none => return .inl false
  | some s => return .inr s

/-- **The walk that decides whether a class can be thrown.** -/
def walkException (src : ClassSource) : Nat → Text → Query Bool := climb (exceptionStep src) false

/-- Whether a class extends the class of everything that can be thrown. -/
def isException (src : ClassSource) (cls : Text) : Query Bool := do
  walkException src (← chainBound src) cls

/-- Forgets a class, or with an empty name all of them. -/
def invalidate (cls : Text) : Query Unit := modify fun h =>
  if cls.isEmpty then { h with classes := [], supers := [] }
  else
    { h with classes := h.classes.filter (·.1 != cls), supers := h.supers.filter (·.1 != cls) }

end Hierarchy

end Suspension
