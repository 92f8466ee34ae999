import Suspension.CommandLine.Session
import Suspension.Stepper

/-!
# The program

The outer layer: it reads the files that a command may need into a `FileTree`, carries the command out
with `CommandLine.run`, and writes back the output and the files that have changed.  Running a coroutine
interactively reads one key per line.
-/

namespace Suspension

namespace Program

/-- A path or a message as a string. -/
def string (t : Text) : String := Utf8.toString t

/-- Reads what is at a path or below it. -/
def load (t : FileTree) (p : Text) : IO FileTree := do
  try
    let real ← IO.FS.realPath (string p)
    if ← real.isDir then
      let mut t := { t with directories := Path.clean p :: t.directories }
      for entry in ← real.walkDir do
        let below := Path.join p (Text.ofString (entry.toString.drop real.toString.length).toString)
        if ← entry.isDir then t := { t with directories := below :: t.directories }
        else t := t.put below (← IO.FS.readBinFile entry).toList
      return t
    else if ← real.pathExists then
      return t.put (Path.clean p) (← IO.FS.readBinFile real).toList
    else return t
  catch _ => return t

/-- The paths that a command line may read or write. -/
def paths (args : List Text) : List Text :=
  match Invocation.parse args with
  | .error _ => []
  | .ok i =>
    let out := i.settings.text "out" (if i.command == some .instrument then "instrumented" else ".")
    i.settings.list "cp" [Path.here] ++ i.args ++ Path.ancestry out

/-- Writes text as it is. -/
def emit (s : IO.FS.Stream) (t : Text) : IO Unit := do
  s.write ⟨t.toArray⟩
  s.flush

/-- What a stepper has to show. -/
def screen (s : Stepper) : Text :=
  let line := fun (t : Text) => t ++ Text.ofString "\n"
  line (s.cls ++ (match s.state? with
    | some st => Text.ofString "  " ++ st.name ++ Text.ofString "  runs: " ++ Text.ofNat s.runs
    | none => []))
    ++ s.frames?.getD [] ++ s.output?.getD []
    ++ (match s.fault? with
        | some e => line (Job.about "Error" e)
        | none => [])

/-- Steps through a coroutine, one key per line. -/
partial def interact (s : Stepper) : IO Unit := do
  emit (← IO.getStdout) (screen s)
  let input ← (← IO.getStdin).getLine
  if input.isEmpty then return ()
  let key := String.ofList (input.toList.filter (· != '\n'))
  let s := s.handle (.key (if key.isEmpty then "enter" else Text.ofString key))
  if s.hasQuit then return () else interact s

/-- The coroutine that a command line asks to step through. -/
def stepper? (args : List Text) (disk : FileTree) : Option Stepper :=
  match Invocation.parse args with
  | .error _ => none
  | .ok i =>
    if i.action? == some .run && i.settings.isOn "interactive" then
      match (Job.workspace i.settings).run.run { disk } with
      | (.ok workspace, _) => some {
          workspace
          cls := i.args.headD []
          stackSize := i.settings.number "stack-size" Job.defaultStackSize
          plain := i.settings.isOn "no-instrument"
          isReady := true }
      | (.error _, _) => none
    else none

/-- Writes the files that a command has changed. -/
def store (before after : FileTree) : IO Unit := do
  for (p, data) in after.changes before do
    IO.FS.createDirAll (string (Path.parent p))
    IO.FS.writeBinFile (string p) ⟨data.toArray⟩

end Program

end Suspension

open Suspension in
/-- **The program.** -/
def main (args : List String) : IO UInt32 := do
  let args := args.map Text.ofString
  let disk ← (Program.paths args).foldlM Program.load {}
  match Program.stepper? args disk with
  | some s =>
    Program.interact s.begin
    return 0
  | none =>
    let outcome := CommandLine.run args disk
    Program.store disk outcome.disk
    Program.emit (← IO.getStdout) outcome.stdout
    Program.emit (← IO.getStderr) outcome.stderr
    return UInt32.ofNat outcome.exit
