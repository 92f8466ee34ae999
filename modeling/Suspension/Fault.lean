import Suspension.Codec.Reader
import Suspension.Text.Quoted

/-!
# Faults

Everything that can go wrong above the level of a single check is a `Fault`: a plain message, a
message around another fault, a **report** with its phase and kind, a batch of method failures, or
an exception object on its way up the call stack.

* `Report` — where a fault arose and of which kind it is.
* `Fault.message` — the wording.  An exception's wording depends on the object, which lives in a
  machine, so it is a parameter.
* `Fault.isOrWraps` — whether a fault, or one it was caused by, is of a given sort.
* `Fault.notFound`, `Fault.analysis`, … — the reports that the library makes.
-/

namespace Suspension

/-- Conditions that are recognised by identity. -/
inductive Condition where
  | suspend
  | finished
  | running
  | notInstrumented
  | canceled
deriving DecidableEq, Repr

/-- The wording of a condition. -/
def Condition.message : Condition → Text
  | suspend => "coroutine suspended"
  | finished => "coroutine is finished"
  | running => "coroutine is already running"
  | notInstrumented => "calling method not instrumented or yield called with the wrong owner"
  | canceled => "context canceled"

/-! ## Phases and kinds

The stages of processing and the categories that the library's own reports name.
-/

namespace Phase

def analyze : Text := "analyze"
def instrument : Text := "instrument"
def resolve : Text := "resolve"
def decode : Text := "decode"
def encode : Text := "encode"
def validate : Text := "validate"
def runtime : Text := "runtime"
def parse : Text := "parse"

end Phase

namespace FaultKind

def unableToInstrument : Text := "unable_to_instrument"
def analysis : Text := "analysis"
def resolution : Text := "resolution"
def cacheConflict : Text := "cache_conflict"
def invalidData : Text := "invalid_data"
def notFound : Text := "not_found"
def unsupported : Text := "unsupported"
def invalidInput : Text := "invalid_input"
def outOfBounds : Text := "out_of_bounds"
def typeMismatch : Text := "type_mismatch"
def state : Text := "state"

end FaultKind

/-- **Where a fault arose.**  A field that is not known is empty. -/
structure Report where
  phase : Text := []
  kind : Text := []
  cls : Text := []
  method : Text := []
  instr : Option Int := none
  path : List Text := []
  detail : Text := []
deriving DecidableEq, Repr, Inhabited

/-- The wording of a report, its cause apart.  The instruction is named only together with its class
or method. -/
def Report.message (r : Report) : Text :=
  let place :=
    if r.cls.isEmpty && r.method.isEmpty then []
    else
      Text.ofString " in " ++ r.cls
        ++ (if r.method.isEmpty then []
            else (if r.cls.isEmpty then [] else Text.ofString ".") ++ r.method)
        ++ (match r.instr with
            | some i => Text.ofString " #" ++ Text.ofInt i
            | none => [])
  Text.ofString "[" ++ r.phase ++ Text.ofString "] " ++ r.kind ++ place
    ++ (if r.path.isEmpty then [] else Text.ofString " at " ++ Text.join (Text.ofString ".") r.path)
    ++ (if r.detail.isEmpty then [] else Text.ofString ": " ++ r.detail)

/-- The identity of an object of a machine. -/
abbrev ObjectId := Nat

/-- **What went wrong.**  `failures` lists class, method and cause of each method of a batch that
failed; `thrown` is an exception object, with the fault it was raised for, if any. -/
inductive Fault where
  | plain (text : Text)
  | condition (c : Condition)
  | context (label : Text) (cause : Fault)
  | malformed (failure : ReadFailure)
  | report (r : Report)
  | caused (r : Report) (cause : Fault)
  | failures (entries : List (Text × Text × Option Fault))
  | thrown (obj : ObjectId)
  | thrownFor (obj : ObjectId) (cause : Fault)
deriving Repr, Inhabited

namespace Fault

/-! ## Wording -/

/-- The classes of a batch, each once, in the order of their first failure. -/
def batchClasses (entries : List (Text × Text × Option Text)) : List Text :=
  (entries.map (·.1)).eraseDups

/-- The lines of one class of a batch. -/
def batchLines (entries : List (Text × Text × Option Text)) (cls : Text) : Text :=
  Text.ofString "\n  " ++ cls ++ Text.ofString ":\n" ++
    (entries.filter (·.1 == cls)).flatMap fun (_, method, cause) =>
      Text.ofString "    - " ++ method
        ++ (match cause with
            | some t => Text.ofString ": " ++ t
            | none => [])
        ++ Text.ofString "\n"

/-- The wording of a batch, grouped by class. -/
def batchMessage (entries : List (Text × Text × Option Text)) : Text :=
  if entries.isEmpty then "[instrument] unable_to_instrument: no failures recorded"
  else
    let body := Text.ofNat entries.length ++ Text.ofString " method(s) could not be instrumented:\n"
      ++ (batchClasses entries).flatMap (batchLines entries)
    if body.getLast? == some 0x0a then body.dropLast else body

mutual

/-- **The wording of a fault**, given the wording of exception objects. -/
def message (describe : ObjectId → Text) : Fault → Text
  | plain t => t
  | condition c => c.message
  | context label cause => label ++ Text.ofString ": " ++ message describe cause
  | malformed f => f.message
  | report r => r.message
  | caused r cause =>
    r.message ++ Text.ofString " (caused by: " ++ message describe cause ++ Text.ofString ")"
  | failures entries => batchMessage (messages describe entries)
  | thrown obj => describe obj
  | thrownFor obj _ => describe obj

/-- The wordings of a batch's causes. -/
def messages (describe : ObjectId → Text) :
    List (Text × Text × Option Fault) → List (Text × Text × Option Text)
  | [] => []
  | (cls, method, none) :: rest => (cls, method, none) :: messages describe rest
  | (cls, method, some cause) :: rest =>
    (cls, method, some (message describe cause)) :: messages describe rest

end

/-- The wording of a fault that involves no exception object. -/
def text (f : Fault) : Text := f.message fun _ => []

/-! ## Chains of causes -/

/-- The single fault that a fault was caused by. -/
def cause? : Fault → Option Fault
  | context _ cause => some cause
  | malformed f => some (.plain f.cause.message)
  | caused _ cause => some cause
  | thrownFor _ cause => some cause
  | _ => none

/-- The report of a fault, if it is one. -/
def report? : Fault → Option Report
  | report r => some r
  | caused r _ => some r
  | _ => none

/-- Whether a fault by itself, causes apart, is of the sort of `target`: reports by phase and kind,
batches always, conditions by identity, and an exception when it is the suspend signal. -/
def isLike (isSignal : ObjectId → Bool) (f target : Fault) : Bool :=
  match f, target with
  | condition a, condition b => a == b
  | failures _, failures _ => true
  | thrown obj, condition .suspend => isSignal obj
  | thrownFor obj _, condition .suspend => isSignal obj
  | _, _ =>
    match f.report?, target.report? with
    | some a, some b => a.phase == b.phase && a.kind == b.kind
    | _, _ => false

mutual

/-- **Whether a fault or one of its causes is of the sort of `target`.** -/
def isOrWraps (isSignal : ObjectId → Bool) (target : Fault) : Fault → Bool
  | plain t => isLike isSignal (plain t) target
  | condition c => isLike isSignal (condition c) target
  | context label cause =>
    isLike isSignal (context label cause) target || isOrWraps isSignal target cause
  | malformed f => isLike isSignal (malformed f) target
  | report r => isLike isSignal (report r) target
  | caused r cause => isLike isSignal (caused r cause) target || isOrWraps isSignal target cause
  | failures entries =>
    isLike isSignal (failures entries) target || anyIsOrWraps isSignal target entries
  | thrown obj => isLike isSignal (thrown obj) target
  | thrownFor obj cause =>
    isLike isSignal (thrownFor obj cause) target || isOrWraps isSignal target cause

/-- Whether one of a batch's causes is of the sort of `target`. -/
def anyIsOrWraps (isSignal : ObjectId → Bool) (target : Fault) :
    List (Text × Text × Option Fault) → Bool
  | [] => false
  | (_, _, none) :: rest => anyIsOrWraps isSignal target rest
  | (_, _, some cause) :: rest =>
    isOrWraps isSignal target cause || anyIsOrWraps isSignal target rest

end

mutual

/-- **The exception object nearest to the top of a chain**, with what it was raised for. -/
def exception? : Fault → Option (ObjectId × Option Fault)
  | thrown obj => some (obj, none)
  | thrownFor obj cause => some (obj, some cause)
  | context _ cause => exception? cause
  | caused _ cause => exception? cause
  | failures entries => firstException? entries
  | _ => none

/-- The first exception object among a batch's causes. -/
def firstException? : List (Text × Text × Option Fault) → Option (ObjectId × Option Fault)
  | [] => none
  | (_, _, none) :: rest => firstException? rest
  | (_, _, some cause) :: rest => (exception? cause).or (firstException? rest)

end

/-! ## The reports of the library -/

/-- A report, with its cause if there is one. -/
def ofReport (r : Report) : Option Fault → Fault
  | some cause => caused r cause
  | none => report r

/-- A method does not meet the conditions for its transformation. -/
def unableToInstrument (cls name desc detail : Text) : Fault :=
  report { phase := Phase.instrument, kind := FaultKind.unableToInstrument, cls,
           method := name ++ desc, detail }

/-- Analysis failed at an instruction. -/
def analysis (cls name desc : Text) (instr : Int) (cause : Option Fault) : Fault :=
  ofReport { phase := Phase.analyze, kind := FaultKind.analysis, cls, method := name ++ desc,
             instr := some instr } cause

/-- A class could not be looked up. -/
def resolution (cls : Text) (cause : Option Fault) : Fault :=
  ofReport { phase := Phase.resolve, kind := FaultKind.resolution, cls,
             detail := "class not resolvable" } cause

/-- Something is not supported. -/
def unsupported (phase what : Text) : Fault :=
  report { phase, kind := FaultKind.unsupported, detail := what }

/-- An index is out of bounds. -/
def outOfBounds (phase : Text) (path : List Text) (index length : Int) : Fault :=
  report { phase, kind := FaultKind.outOfBounds, path,
           detail := Text.ofString "index " ++ Text.ofInt index
             ++ Text.ofString " out of bounds (length " ++ Text.ofInt length ++ Text.ofString ")" }

/-- A value is of the wrong kind. -/
def typeMismatch (phase : Text) (path : List Text) (want got : Text) : Fault :=
  report { phase, kind := FaultKind.typeMismatch, path,
           detail := Text.ofString "expected " ++ want ++ Text.ofString ", got " ++ got }

/-- Data is invalid. -/
def invalidData (phase : Text) (path : List Text) (detail : Text) : Fault :=
  report { phase, kind := FaultKind.invalidData, path, detail }

/-- A report around another fault. -/
def wrap (phase kind : Text) (cause : Option Fault) (detail : Text) : Fault :=
  ofReport { phase, kind, detail } cause

/-- Something by that name does not exist. -/
def notFound (phase what name : Text) : Fault :=
  report { phase, kind := FaultKind.notFound,
           detail := what ++ Text.ofString " " ++ Quoted.encode name ++ Text.ofString " not found" }

/-- An input is not acceptable. -/
def invalidInput (phase detail : Text) : Fault :=
  report { phase, kind := FaultKind.invalidInput, detail }

/-- Something is not in the right state. -/
def state (phase detail : Text) : Fault :=
  report { phase, kind := FaultKind.state, detail }

/-- A text could not be read. -/
def parseFailed (what : Text) (cause : Option Fault) : Fault :=
  ofReport { phase := Phase.parse, kind := FaultKind.invalidData,
             detail := Text.ofString "parse " ++ what } cause

end Fault

/-! ## Details with arguments -/

/-- An argument of a detail's pattern. -/
inductive DetailArg where
  | text (t : Text)
  | number (n : Int)
deriving DecidableEq, Repr

/-- An argument with its sort, as misused arguments are shown. -/
def DetailArg.shown : DetailArg → Text
  | text t => Text.ofString "string=" ++ t
  | number n => Text.ofString "int=" ++ Text.ofInt n

/-- The character with a given number; U+FFFD when there is none. -/
def DetailArg.character (n : Int) : Char :=
  if 0 ≤ n && n.toNat.isValidChar then Char.ofNat n.toNat else '\uFFFD'

/-- One argument under the letter of its place: `s` a text, `d` a number, `q` a quoted text or
character. -/
def DetailArg.under (letter : UInt8) : DetailArg → Text
  | text t =>
    if letter == 0x73 then t
    else if letter == 0x71 then Quoted.encode t
    else Text.ofString "%!" ++ [letter] ++ Text.ofString "(string=" ++ t ++ Text.ofString ")"
  | number n =>
    if letter == 0x64 then Text.ofInt n
    else if letter == 0x71 then Quoted.encodeChar (character n)
    else Text.ofString "%!" ++ [letter] ++ Text.ofString "(int=" ++ Text.ofInt n
      ++ Text.ofString ")"

/-- **A detail from its pattern.**  Each `%s`, `%d` or `%q` takes the next argument and `%%` is a
percent sign; a missing or superfluous argument is shown as such. -/
def Report.fill : Text → List DetailArg → Text
  | [], [] => []
  | [], args =>
    Text.ofString "%!(EXTRA " ++ Text.join (Text.ofString ", ") (args.map DetailArg.shown)
      ++ Text.ofString ")"
  | [0x25], args => Text.ofString "%!(NOVERB)" ++ Report.fill [] args
  | 0x25 :: letter :: rest, args =>
    if letter == 0x25 then Text.ofString "%" ++ Report.fill rest args
    else
      match args with
      | a :: more => a.under letter ++ Report.fill rest more
      | [] => Text.ofString "%!" ++ [letter] ++ Text.ofString "(MISSING)" ++ Report.fill rest []
  | b :: rest, args => b :: Report.fill rest args

end Suspension
