import Suspension.CommandLine.Flag
import Suspension.Files.Path
import Suspension.Text.LowerCase

/-!
# Commands

The commands of the program with their flags, and how a command line names one.  The command is the
**first plain argument**: flags may stand before it, and until the command is known a flag that is not
one of all commands is taken to have a value.

* `Command` — the commands; `Command.flags`, `Command.checkCount` — what each of them accepts.
* `Command.find` — the command of a command line, and the line without its name.
* `Command.suggestions` — commands that a mistyped name may stand for.
* `Invocation.parse` — a whole command line.
-/

namespace Suspension

/-- **The commands of the program.** -/
inductive Command where
  | instrument
  | assemble
  | disassemble
  | run
  | completion
  | help
deriving DecidableEq, Repr

namespace Command

/-- The name of the program. -/
def program : Text := "coroinst"

/-- The name of a command. -/
def name : Command → Text
  | instrument => "instrument"
  | assemble => "asm"
  | disassemble => "dis"
  | run => "run"
  | completion => "completion"
  | help => "help"

/-- All commands, in the order in which they are suggested. -/
def all : List Command := [instrument, assemble, disassemble, run, completion, help]

/-- The command of a name. -/
def named? (t : Text) : Option Command := all.find? (·.name == t)

/-! ## Flags of the commands -/

/-- The flags of all commands. -/
def sharedFlags : List Flag :=
  [⟨"cp", none, .list⟩, ⟨"debug", none, .toggle⟩, ⟨"verbose", some 0x76, .toggle⟩,
   ⟨"allow-monitors", none, .toggle⟩, ⟨"allow-blocking", none, .toggle⟩,
   ⟨"core-prefix", none, .list⟩, ⟨"check", none, .toggle⟩]

/-- The flags of a command, or of the program without one. -/
def flags (c : Option Command) : List Flag :=
  let own : List Flag := match c with
    | some instrument | some assemble => [⟨"out", some 0x6f, .text⟩]
    | some disassemble => [⟨"instrumented", some 0x69, .toggle⟩]
    | some run =>
      [⟨"no-instrument", none, .toggle⟩, ⟨"interactive", some 0x69, .toggle⟩,
       ⟨"max-runs", none, .number⟩, ⟨"stack-size", none, .number⟩]
    | _ => []
  own ++ sharedFlags ++ [⟨"help", some 0x68, .toggle⟩]

/-- How many plain arguments a command takes. -/
def checkCount (c : Command) (given : Nat) : Except UsageFault Unit :=
  match c with
  | assemble => if given < 1 then .error (.tooFew 1 given) else .ok ()
  | disassemble | run => if given == 1 then .ok () else .error (.wrongCount 1 given)
  | _ => .ok ()

/-! ## Finding the command -/

/-- Whether a flag without an equals sign has the next argument as its value: all have but toggles. -/
def takesNext (known : List Flag) (arg : Text) : Bool :=
  let isToggle := fun (f : Option Flag) => (f.map (·.kind)) == some .toggle
  !arg.elem 0x3d
    && (if arg.startsWith Arguments.noMoreFlags then
          !isToggle (Arguments.named? known (arg.drop 2))
        else
          match arg with
          | [0x2d, letter] => !isToggle (Arguments.lettered? known letter)
          | _ => false)

/-- Whether an argument begins as flags do. -/
def isDashed (arg : Text) : Bool := arg.head? == some 0x2d

/-- The first plain argument.  The search ends at a flag whose value would be the last argument. -/
def firstPlain? (known : List Flag) : List Text → Option Text
  | [] => none
  | arg :: rest =>
    if arg == Arguments.noMoreFlags then none
    else if takesNext known arg then
      match rest with
      | _ :: more => if more.isEmpty then none else firstPlain? known more
      | [] => none
    else if !arg.isEmpty && !isDashed arg then some arg
    else firstPlain? known rest

/-- The arguments without the first plain one that is `t`. -/
def dropPlain (known : List Flag) (t : Text) : List Text → List Text
  | [] => []
  | arg :: rest =>
    if arg == Arguments.noMoreFlags then arg :: rest
    else if takesNext known arg then
      match rest with
      | value :: more => arg :: value :: dropPlain known t more
      | [] => [arg]
    else if !isDashed arg && arg == t then rest
    else arg :: dropPlain known t rest

/-! ## Suggestions -/

/-- One row of the table of edit distances from the row above it; `left` is the entry before. -/
def nextRow (b : UInt8) (left : Nat) : Text → List Nat → List Nat
  | x :: xs, diagonal :: above :: rest =>
    let entry := if x == b then diagonal else min above (min left diagonal) + 1
    entry :: nextRow b entry xs (above :: rest)
  | _, _ => []

/-- **The edit distance of two texts**: how many bytes have to be inserted, deleted or exchanged. -/
def distance (s t : Text) : Nat :=
  let first := List.range (t.length + 1)
  let last := s.foldl (fun row b =>
    let left := row.headD 0 + 1
    left :: nextRow b left t row) first
  last.getLastD 0

/-- **The commands that a mistyped name may stand for**: those at most two edits away, and those that
it begins, in whatever case it is typed. -/
def suggestions (typed : Text) : List Text :=
  ((all.filter (· != help)).map name).filter fun n =>
    distance typed.lower n ≤ 2 || Text.startsWith n typed.lower

/-- **The command of a command line**, with the line without its name. -/
def find (args : List Text) : Except UsageFault (Option Command × List Text) :=
  match firstPlain? sharedFlags args with
  | none => .ok (none, args)
  | some t =>
    match named? t with
    | some c => .ok (some c, dropPlain sharedFlags t args)
    | none => .error (.unknownCommand t (suggestions t))

end Command

/-- **A command line that was understood.** -/
structure Invocation where
  command : Option Command
  settings : Settings
  args : List Text

namespace Invocation

/-- The command to carry out: none when the line asks for help. -/
def action? (i : Invocation) : Option Command :=
  match i.command with
  | none | some .completion | some .help => none
  | some c => if i.settings.isOn "help" then none else some c

/-- **A command line read.**  The command is found first, then come the flags, then the number of
arguments. -/
def parse (args : List Text) : Except UsageFault Invocation := do
  let (command, rest) ← Command.find args
  let (settings, args) ← Arguments.parse (Command.flags command) rest
  let i : Invocation := ⟨command, settings, args⟩
  match i.action? with
  | none => return i
  | some c =>
    c.checkCount args.length
    return i

end Invocation

end Suspension
