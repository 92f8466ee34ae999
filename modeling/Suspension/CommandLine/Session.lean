import Suspension.Assembly.Printer
import Suspension.CommandLine.Command
import Suspension.Workspace

/-!
# Carrying out commands

A command reads and writes files, prints, and may fail with a message.  All of that happens to a
`Session`, so that **running the program is a function** from the arguments and the file tree to the
output and the file tree afterwards.  What was written before a failure stays written.

* `Session`, `Job` — the state of a running command, and actions on it.
* `Job.assemble`, `Job.disassemble`, `Job.instrument`, `Job.runClass` — the commands.
* `CommandLine.run` — the whole program.
-/

namespace Suspension

/-- **The state of a running command.** -/
structure Session where
  disk : FileTree := {}
  stdout : Text := []
  stderr : Text := []
deriving Inhabited

/-- How a command ends early: with a message, or broken off in the middle of an action. -/
inductive JobFault where
  | message (text : Text)
  | broken
deriving DecidableEq, Repr

/-- An action of a command, which may end early. -/
abbrev Job (α : Type) := ExceptT JobFault (StateM Session) α

namespace Job

/-! ## Files and output -/

/-- Prints to the output. -/
def print (t : Text) : Job Unit := modify fun s => { s with stdout := s.stdout ++ t }

/-- Prints a line to the output. -/
def printLine (t : Text) : Job Unit := print (t ++ Text.ofString "\n")

/-- Prints a line to the error output. -/
def warnLine (t : Text) : Job Unit :=
  modify fun s => { s with stderr := s.stderr ++ t ++ Text.ofString "\n" }

/-- A result, or its failure as the message of the command. -/
def orFail {ε α : Type} (wording : ε → Text) : Except ε α → Job α
  | .ok a => pure a
  | .error e => throw (.message (wording e))

/-- A result, if there is one.  A command that waits for work that goes on for ever breaks off. -/
def orNever {α : Type} : Option α → Job α
  | some a => pure a
  | none => throw .broken

/-- The contents of a file. -/
def readFile (p : Text) : Job Bytes := do orFail FileFault.message ((← get).disk.read p)

/-- A file written, the directories it is in being made. -/
def writeFile (p : Text) (data : Bytes) : Job Unit := do
  let disk ← orFail FileFault.message ((← get).disk.makeDirectories (Path.parent p))
  modify fun s => { s with disk }
  let disk ← orFail FileFault.message (disk.write p data)
  modify fun s => { s with disk }

/-- A message about something. -/
def about (what message : Text) : Text := what ++ Text.ofString ": " ++ message

/-- The workspace that the flags describe, as the files are now. -/
def workspace (settings : Settings) : Job Workspace := do
  return {
    disk := (← get).disk
    directories := settings.list "cp" ({} : Workspace).directories
    corePrefixes := settings.list "core-prefix" ({} : Workspace).corePrefixes
    policy := {
      allowMonitors := settings.isOn "allow-monitors"
      allowBlocking := settings.isOn "allow-blocking"
      check := settings.isOn "check" } }

/-! ## Assembling and disassembling -/

/-- A class of an assembler file checked, encoded and written. -/
def writeClass (file out : Text) (c : Class) : Job Unit := do
  orFail (fun e => about file (about c.name (ClassFault.message e))) c.validate
  let data ← orFail (·.message) c.encode
  writeFile (ClassPath.fileIn out c.name) data

/-- The classes of an assembler file. -/
def assembleFile (out file : Text) : Job Unit := do
  let classes ← orFail (fun e => about file (Fault.text e)) (Assembly.classes (← readFile file))
  classes.forM (writeClass file out)

/-- **Assembles files** into encoded classes. -/
def assemble (settings : Settings) (files : List Text) : Job Unit :=
  files.forM (assembleFile (settings.text "out" Path.here))

/-- The bytes of a class that is named, or of a class file. -/
def classBytes (w : Workspace) (arg : Text) : Job Bytes :=
  if arg.endsWith ClassPath.extension then readFile arg
  else orFail Fault.text (w.path.resolve arg)

/-- A class as the transformation leaves it; failures are reported. -/
def transformed (w : Workspace) (c : Class) : Job Class := do
  let (result, report) ← orNever ((w.instrumenter.onClass c).run {}).1
  match report.fault? with
  | some f => warnLine f.text
  | none => pure ()
  return result.getD c

/-- **Disassembles a class**, or with the flag what the transformation makes of it. -/
def disassemble (settings : Settings) (arg : Text) : Job Unit := do
  let w ← workspace settings
  let data ← classBytes w arg
  let c ← orFail (fun e => (Fault.malformed e).text) (Class.decode data)
  let c ← if settings.isOn "instrumented" then transformed w c else pure c
  print (Assembly.disassemble c)

/-! ## Transforming classes -/

/-- What has been done so far: classes changed, methods transformed, methods failed. -/
structure Tally where
  classes : Nat := 0
  methods : Nat := 0
  failures : Nat := 0

/-- The tally with a class added. -/
def Tally.add (t : Tally) (r : ClassReport) : Tally where
  classes := t.classes + (if r.isChanged then 1 else 0)
  methods := t.methods + r.instrumented.length
  failures := t.failures + r.failures.length

/-- The wording of a tally. -/
def Tally.message (t : Tally) : Text :=
  Text.ofNat t.classes ++ Text.ofString " classes, " ++ Text.ofNat t.methods
    ++ Text.ofString " methods instrumented, " ++ Text.ofNat t.failures
    ++ Text.ofString " failures"

/-- Prints what became of a class; nothing about one that was left alone, unless `all` is asked for. -/
def printReport (all : Bool) (r : ClassReport) : Job Unit := do
  if r.isChanged || !r.failures.isEmpty || all then
    printLine r.cls
    r.instrumented.forM fun m => printLine (Text.ofString "  instrumented " ++ m)
    r.skipped.forM fun m => printLine (Text.ofString "  skipped      " ++ m)
    r.failures.forM fun f =>
      printLine (Text.ofString "  failed       " ++ about f.method f.cause.text)

/-- One class transformed and written. -/
def instrumentClass (settings : Settings) (name : Text) (h : Hierarchy) :
    Job (ClassReport × Hierarchy) := do
  let w ← workspace settings
  let data ← orFail Fault.text (w.path.resolve name)
  let (outcome, h) := (w.instrumenter.onBytes data).run h
  let outcome ← orNever outcome
  let data ← orFail (fun e => about name (Fault.text e)) outcome.data
  let report := outcome.report?.getD { cls := name }
  printReport (settings.isOn "verbose") report
  writeFile (ClassPath.fileIn (settings.text "out" "instrumented") name) data
  return (report, h)

/-- Classes transformed one after another; what is known about classes is kept on the way. -/
def instrumentAll (settings : Settings) : List Text → Hierarchy → Tally → Job Tally
  | [], _, t => return t
  | name :: rest, h, t => do
    let (report, h) ← instrumentClass settings name h
    instrumentAll settings rest h (t.add report)

/-- **Transforms the classes that are named**, or all of the class path. -/
def instrument (settings : Settings) (args : List Text) : Job Unit := do
  let names ← if args.isEmpty then orFail Fault.text (← workspace settings).path.names
    else pure args
  let t ← instrumentAll settings names {} {}
  printLine t.message
  if t.failures != 0 then
    throw (.message
      (Text.ofNat t.failures ++ Text.ofString " method(s) could not be instrumented"))

/-! ## Running classes -/

/-- An action of a machine; what it prints goes to the output. -/
def onMachine {α : Type} (m : Machine) (x : Exec α) : Job (α × Machine) := do
  let (r, m) := x.run m
  print m.output
  match r with
  | .ok v => return (v, { m with printed := #[] })
  | .error .crash => throw .broken
  | .error stop => throw (.message (m.describeStop stop))

/-- Resumes a coroutine until it finishes, at most `left` times more. -/
def drive (cls : Text) (id : CoroutineId) (runs : Nat) : Nat → Machine → Job Unit
  | left, m => do
    if m.coroutines.stateOf id == .finished then return ()
    match left with
    | 0 =>
      throw (.message (cls ++ Text.ofString " still suspended after " ++ Text.ofNat runs
        ++ Text.ofString " runs"))
    | left + 1 =>
      let (_, m) ← onMachine m (Machine.resume id)
      if m.coroutines.stateOf id == .suspended then
        warnLine (Text.ofString "-- suspended with " ++ Text.ofNat (m.framesOf id).length
          ++ Text.ofString " saved frames")
      drive cls id (runs + 1) left m

/-- How often a coroutine is resumed unless a flag says otherwise. -/
def defaultMaxRuns : Int := 10000

/-- The size of a coroutine's frame stack unless a flag says otherwise. -/
def defaultStackSize : Int := 16

/-- **Runs a class**: one that a coroutine can run until it finishes, any other by its `main`. -/
def runClass (settings : Settings) (cls : Text) : Job Unit := do
  let w ← workspace settings
  let (id, m) ← onMachine (w.machine (settings.isOn "no-instrument")) (Exec.loadClass cls)
  if m.isSubclass id ClassName.runnable then
    let size := settings.number "stack-size" defaultStackSize
    let (co, m) ← onMachine m (Machine.startCoroutine cls size)
    drive cls co 0 (settings.number "max-runs" defaultMaxRuns).toNat m
  else
    let _ ← onMachine m (Machine.onFreshThread (Machine.invoke cls "main" "()V" []))

/-! ## Everything -/

/-- A summary of the commands. -/
def usage : Text :=
  Text.ofString "usage: " ++ Command.program ++ Text.ofString " [flags] command [flags] [args]\n\n"
    ++ Text.ofString "  instrument [class...]  transform classes of the class path\n"
    ++ Text.ofString "  asm file...            assemble classes\n"
    ++ Text.ofString "  dis class              disassemble a class or a .cls file\n"
    ++ Text.ofString "  run class              run a class\n"

/-- The command of an invocation; without one a summary is printed. -/
def perform (i : Invocation) : Job Unit :=
  match i.action?, i.args with
  | some .instrument, args => instrument i.settings args
  | some .assemble, args => assemble i.settings args
  | some .disassemble, arg :: _ => disassemble i.settings arg
  | some .run, arg :: _ => runClass i.settings arg
  | _, _ => print usage

end Job

namespace CommandLine

/-- What a run of the program comes to. -/
structure Outcome where
  exit : Nat
  stdout : Text
  stderr : Text
  disk : FileTree

/-- A message as it is shown: a tab is four spaces. -/
def shown (message : Text) : Text :=
  message.flatMap fun b => if b == 0x09 then Text.ofString "    " else [b]

/-- **The whole program.**  Its exit code is 0, or 1 after a message, or 2 when it breaks off. -/
def run (args : List Text) (disk : FileTree) : Outcome :=
  let job : Job Unit := do
    Job.perform (← Job.orFail (UsageFault.message Command.program) (Invocation.parse args))
  let (r, s) := job.run.run { disk }
  match r with
  | .ok () => ⟨0, s.stdout, s.stderr, s.disk⟩
  | .error (.message e) =>
    ⟨1, s.stdout, s.stderr ++ shown (Job.about "Error" e) ++ [0x0a], s.disk⟩
  | .error .broken => ⟨2, s.stdout, s.stderr ++ Text.ofString "broken off\n", s.disk⟩

end CommandLine

end Suspension
