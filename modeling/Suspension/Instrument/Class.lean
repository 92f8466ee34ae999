import Suspension.Codec.Encode
import Suspension.Instrument.Transform

/-!
# Transforming classes

Every method of a class that declares the suspend signal is transformed, skipped or rejected, each for
itself: a method that cannot be transformed keeps its body, and the report of the class names it.  A
class with a transformed method carries a mark, and marked classes, core classes and the classes of
the coroutine package are left alone.

* `Treatment` — what became of one method.
* `ClassReport` — what became of a class.
* `Instrumenter.onClass` — the work on a class; `Instrumenter.onBytes`, `Instrumenter.onLoad` — the
  same for encoded classes and for classes on their way into a machine.
-/

namespace Suspension

/-- A method that could not be transformed. -/
structure MethodFailure where
  cls : Text
  method : Text
  cause : Fault
deriving Repr, Inhabited

/-- **What became of a class**, methods by name and descriptor. -/
structure ClassReport where
  cls : Text
  instrumented : List Text := []
  skipped : List Text := []
  failures : List MethodFailure := []
deriving Repr, Inhabited

namespace ClassReport

/-- Whether a method was transformed. -/
def isChanged (r : ClassReport) : Bool := !r.instrumented.isEmpty

/-- The failures as one fault. -/
def fault? (r : ClassReport) : Option Fault :=
  if r.failures.isEmpty then none
  else some (.failures (r.failures.map fun f => (f.cls, f.method, some f.cause)))

end ClassReport

/-- The configuration of the transformation. -/
structure Instrumenter where
  source : ClassSource := {}
  policy : Policy := {}

/-- **What became of a method.** -/
inductive Treatment where
  /-- the method does not declare the signal, or never suspends -/
  | untouched
  | skipped
  | failed (cause : Fault)
  | instrumented (m : Method)
  /-- the analysis of the method goes on for ever -/
  | endless
deriving Repr, Inhabited

namespace Instrumenter

/-- A transformed method that does not validate is a failure, where results are checked. -/
def checked (i : Instrumenter) (owner : Text) (m result : Method) : Treatment :=
  if !i.policy.check then .instrumented result
  else
    match result.validate with
    | .ok () => .instrumented result
    | .error e =>
      .failed (Fault.ofReport
        { phase := Phase.validate, kind := FaultKind.invalidData, cls := owner, method := m.key,
          detail := "rewritten method does not validate" } (some (.plain e.message)))

/-- **The treatment of one method.** -/
def treat (i : Instrumenter) (owner : Text) (m : Method) : Query Treatment := do
  if !m.declares ClassName.suspendSignal then return .untouched
  if m.name.startsWith (Text.ofString "<") then
    Hierarchy.send i.source.sink .warn
      "special method declares the suspend signal; not instrumenting"
      [("class", .text owner), ("method", .text m.key)]
    return .skipped
  if !m.hasBody then return .skipped
  if m.isSynchronized && !i.policy.allowMonitors then
    return .failed (.unableToInstrument owner m.name m.desc "synchronized method")
  match ← m.transform i.source i.policy owner with
  | .endless => return .endless
  | .error e => return .failed e
  | .ok none => return .untouched
  | .ok (some result) => return i.checked owner m result

/-- The methods of a class one after another, with the report of what became of them; `none` if the work on
one of them goes on for ever. -/
def treatAll (i : Instrumenter) (owner : Text) :
    List Method → ClassReport → Query (Option (List Method × ClassReport))
  | [], r => return some ([], r)
  | m :: rest, r => do
    match ← i.treat owner m with
    | .endless => return none
    | .untouched =>
      return (← treatAll i owner rest r).map fun (ms, r) => (m :: ms, r)
    | .skipped =>
      return (← treatAll i owner rest { r with skipped := r.skipped ++ [m.key] }).map
        fun (ms, r) => (m :: ms, r)
    | .failed e =>
      Hierarchy.send i.source.sink .error "unable to instrument method"
        [("class", .text owner), ("method", .text m.key), ("error", .text e.text)]
      return (← treatAll i owner rest { r with failures := r.failures ++ [⟨owner, m.key, e⟩] }).map
        fun (ms, r) => (m :: ms, r)
    | .instrumented m' =>
      return (← treatAll i owner rest { r with instrumented := r.instrumented ++ [m.key] }).map
        fun (ms, r) => (m' :: ms, r)

/-- The package of the coroutine classes, which are never transformed. -/
def coroutinePackage : Text := "coro/"

/-- What became of a class: the class to put in its place, `none` when no method was transformed, and the
report. -/
abbrev ClassOutcome := Option Class × ClassReport

/-- **Transforming a class.**  There is no outcome if the work on a method goes on for ever. -/
def onClass (i : Instrumenter) (c : Class) : Query (Option ClassOutcome) := do
  let report : ClassReport := { cls := c.name }
  if c.hasAnnotation ClassName.instrumentedMark then
    Hierarchy.send i.source.sink .debug "class already instrumented" [("class", .text c.name)]
    return some (none, report)
  if Hierarchy.isCore i.source c.name || c.name.startsWith coroutinePackage then
    return some (none, report)
  Hierarchy.record i.source c
  match ← i.treatAll c.name c.methods report with
  | none => return none
  | some (methods, report) =>
    if !report.isChanged then return some (none, report)
    Hierarchy.send i.source.sink .info "class instrumented"
      [("class", .text c.name), ("methods", .number report.instrumented.length)]
    return some (some { c with
      methods, annotations := c.annotations ++ [ClassName.instrumentedMark] }, report)

/-- The outcome for an encoded class: its bytes, or a fault, with the report as far as there is
one. -/
structure BytesOutcome where
  data : Except Fault Bytes
  report? : Option ClassReport := none

/-- **Transforming an encoded class.**  The very bytes come back when nothing was transformed. -/
def onBytes (i : Instrumenter) (data : Bytes) : Query (Option BytesOutcome) := do
  match Class.decode data with
  | .error e => return some { data := .error (.malformed e) }
  | .ok c =>
    match ← i.onClass c with
    | none => return none
    | some (none, report) => return some { data := .ok data, report? := some report }
    | some (some c', report) =>
      match c'.encode with
      | .error e => return some { data := .error (.plain e.message), report? := some report }
      | .ok d => return some { data := .ok d, report? := some report }

/-- **Transforming a class on its way into a machine.**  A class with a failure does not load. -/
def onLoad (i : Instrumenter) (c : Class) : Query (Conclusion Class) := do
  match ← i.onClass c with
  | none => return .endless
  | some (c', report) =>
    match report.fault? with
    | some e => return .error e
    | none => return .ok (c'.getD c)

/-- Whether a call to a method may suspend. -/
def isSuspendable (i : Instrumenter) (cls name desc : Text) : Query Bool :=
  Hierarchy.isSuspendable i.source cls name desc true

end Instrumenter

end Suspension
