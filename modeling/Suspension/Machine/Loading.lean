import Suspension.Machine.State

/-!
# Loading classes

A class is loaded when it is first named: its bytes are found and read, it is transformed if the
machine does so, its superclass and its interfaces are loaded, and its fields and methods are laid
out.  Loading runs no code of the class.

* `Exec.loadClass` — a loaded class by its name.
* `Exec.isInstance`, `Exec.isArrayOf` — which values a class admits.
-/

namespace Suspension

namespace Exec

/-- The class that the class path has under a name. -/
def readClass (name : Text) : Exec Class := do
  match (← get).path.resolve name with
  | .error e =>
    fail (.caused { phase := Phase.runtime, kind := FaultKind.notFound, cls := name,
                    detail := "class not found" } e)
  | .ok data =>
    match Class.decode data with
    | .error e => fail (.wrap Phase.decode FaultKind.invalidData (some (.malformed e)) name)
    | .ok c =>
      if c.name != name then
        fail (.invalidData Phase.runtime [name]
          (Text.ofString "resolved class is named " ++ c.name))
      else return c

/-- The class as the machine runs it.  No fuel is enough for a transformation that goes on for ever. -/
def transformed (c : Class) : Exec Class := do
  match (← get).instrumenter? with
  | none => return c
  | some i =>
    let r ← modifyGet fun m =>
      let (r, h) := (i.onLoad c).run m.hierarchy
      (r, { m with hierarchy := h })
    match r with
    | .ok c => return c
    | .error e => fail e
    | .endless => throw .exhausted

/-- A class made ready to run, its superclass and interfaces being loaded. -/
def link (m : Machine) (file : Class) (super : Option ClassId) (interfaces : List ClassId) :
    LoadedClass :=
  let id := m.classes.size
  let inherited := ((super.bind (m.classes[·]?)).map (·.fields)).getD []
  let isStatic := fun (f : Field) => Flag.has f.flags Flag.staticBit
  { file, super, interfaces
    fields := inherited ++ file.fields.filter (!isStatic ·)
    statics := (file.fields.filter isStatic).foldl
      (fun acc f => Machine.putName f.name (Value.zero f.desc) acc) []
    methods := file.methods.foldl (fun acc x =>
      (x.key, { owner := id, ownerName := file.name, method := x, body := .ofMethod x }) :: acc) [] }

/-- Loading with fuel for the classes above the one that is named. -/
def loadWithin : Nat → Text → Exec ClassId
  | 0, _ => throw .exhausted
  | fuel + 1, name => do
    match (← get).classNamed? name with
    | some id => return id
    | none =>
      let file ← transformed (← readClass name)
      let super ← if file.super.isEmpty then pure none else some <$> loadWithin fuel file.super
      let interfaces ← file.interfaces.mapM (loadWithin fuel)
      modifyGet fun m =>
        (m.classes.size, { m with classes := m.classes.push (link m file super interfaces) })

/-- **A class by its name**, loaded on first use.  A hierarchy without a cycle is no higher than there
are classes on the class path. -/
def loadClass (name : Text) : Exec ClassId := do loadWithin ((← get).path.height + 2) name

/-- The class of a reference. -/
def classOf (v : Value) : Exec ClassId := do
  match v with
  | .object id => return (← get).classOf id
  | .text _ => loadClass ClassName.string
  | .array _ => loadClass ClassName.object
  | v => fail (.typeMismatch Phase.runtime [] "reference" v.typeName)

/-- Whether arrays of one descriptor are arrays of another: elements that are references may be of a
subclass, others must be of the same type.  Every level of arrays takes one byte of the
descriptor. -/
def arrayFits : Nat → Text → Text → Exec Bool
  | 0, _, _ => return false
  | fuel + 1, desc, want => do
    if desc == want || want == ClassName.object then return true
    if !Descriptor.isArray want then return false
    let elem := Descriptor.element desc
    let wanted := Descriptor.element want
    match Descriptor.kind? elem, Descriptor.kind? wanted with
    | some .ref, some .ref =>
      if Descriptor.isArray elem then arrayFits fuel elem (Descriptor.classOf wanted)
      else
        match ← attempt (loadClass (Descriptor.classOf elem)) with
        | .error _ => return false
        | .ok c => return (← get).isSubclass c (Descriptor.classOf wanted)
    | _, _ => return elem == wanted

/-- **Whether a value that is not null belongs to a class.** -/
def isInstance (v : Value) (cls : Text) : Exec Bool := do
  if cls == ClassName.object then return true
  match v with
  | .array id =>
    let a ← require ((← get).arrays[id]?)
    arrayFits (a.desc.length + 1) a.desc cls
  | v =>
    match ← attempt (classOf v) with
    | .error _ => return false
    | .ok c => return (← get).isSubclass c cls

end Exec

end Suspension
