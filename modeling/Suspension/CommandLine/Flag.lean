import Suspension.Number.Literal
import Suspension.Text.Quoted
import Suspension.Text.Record

/-!
# Flags

A command line is made of flags and plain arguments, in any order.  A **long** flag is `--name`, with
its value after an equals sign or as the next argument; a **short** flag is a letter after a dash, and
several letters may share the dash.  A toggle needs no value.  After `--` everything is a plain
argument.

* `Flag`, `FlagKind`, `FlagValue` — flags and what they can be set to.
* `UsageFault` — what is wrong with a command line.
* `Arguments.parse` — the settings and the plain arguments of a command line.
-/

namespace Suspension

/-- What values a flag takes. -/
inductive FlagKind where
  | toggle
  | text
  | list
  | number
deriving DecidableEq, Repr

/-- The value of a flag. -/
inductive FlagValue where
  | toggle (on : Bool)
  | text (t : Text)
  | list (ts : List Text)
  | number (n : Int)
deriving DecidableEq, Repr

/-- **A flag** with its name and, if it has one, its letter. -/
structure Flag where
  name : Text
  letter? : Option UInt8 := none
  kind : FlagKind
deriving DecidableEq, Repr

/-- **What is wrong with a command line.**  A letter is reported together with those after it. -/
inductive UsageFault where
  | unknownCommand (name : Text) (suggestions : List Text)
  | badSyntax (arg : Text)
  | unknownFlag (name : Text)
  | unknownLetter (letter : UInt8) (letters : Text)
  | valueMissing (flag : Text)
  | badValue (flag : Flag) (value : Text) (reason : Text)
  | tooFew (least given : Nat)
  | wrongCount (wanted given : Nat)
deriving Repr

namespace UsageFault

/-- A letter with the letters it was found among. -/
def showLetter (letter : UInt8) (letters : Text) : Text :=
  Quoted.encodeChar (Char.ofNat letter.toNat) ++ Text.ofString " in -" ++ letters

/-- A flag with its letter. -/
def showFlag (f : Flag) : Text :=
  (match f.letter? with
    | some l => Text.ofString "-" ++ [l] ++ Text.ofString ", "
    | none => [])
    ++ Text.ofString "--" ++ f.name

/-- **The wording of what is wrong.**  `program` is the name of the program. -/
def message (program : Text) : UsageFault → Text
  | unknownCommand name suggestions =>
    Text.ofString "unknown command " ++ Quoted.encode name ++ Text.ofString " for "
      ++ Quoted.encode program
      ++ (if suggestions.isEmpty then []
          else Text.ofString "\n\nDid you mean this?\n"
            ++ suggestions.flatMap fun s => Text.ofString "\t" ++ s ++ Text.ofString "\n")
  | badSyntax arg => Text.ofString "bad flag syntax: " ++ arg
  | unknownFlag name => Text.ofString "unknown flag: --" ++ name
  | unknownLetter letter letters =>
    Text.ofString "unknown shorthand flag: " ++ showLetter letter letters
  | valueMissing flag => Text.ofString "flag needs an argument: " ++ flag
  | badValue flag value reason =>
    Text.ofString "invalid argument " ++ Quoted.encode value ++ Text.ofString " for "
      ++ Quoted.encode (showFlag flag) ++ Text.ofString " flag: " ++ reason
  | tooFew least given =>
    Text.ofString "requires at least " ++ Text.ofNat least
      ++ Text.ofString " arg(s), only received " ++ Text.ofNat given
  | wrongCount wanted given =>
    Text.ofString "accepts " ++ Text.ofNat wanted ++ Text.ofString " arg(s), received "
      ++ Text.ofNat given

end UsageFault

namespace FlagKind

/-- The spellings of a toggle's values. -/
def readToggle? (t : Text) : Option Bool :=
  let spelled := fun (ws : List Text) => ws.contains t
  if spelled ["1", "t", "T", "true", "TRUE", "True"] then some true
  else if spelled ["0", "f", "F", "false", "FALSE", "False"] then some false
  else none

/-- Why a value cannot be read. -/
def unreadable (reader value reason : Text) : Text :=
  Text.ofString "strconv." ++ reader ++ Text.ofString ": parsing " ++ Quoted.encode value
    ++ Text.ofString ": " ++ reason

/-- **The value that a text denotes**, or why it denotes none.  The empty text is the empty list. -/
def read (t : Text) : FlagKind → Except Text FlagValue
  | toggle =>
    match readToggle? t with
    | some on => .ok (.toggle on)
    | none => .error (unreadable "ParseBool" t Literal.NumeralFault.malformed.message)
  | text => .ok (.text t)
  | list =>
    if t.isEmpty then .ok (.list [])
    else
      match Record.read t with
      | .ok ts => .ok (.list ts)
      | .error e => .error e.message
  | number =>
    match Literal.separated (t.map fun b => Char.ofNat b.toNat) with
    | .ok n => .ok (.number n)
    | .error e => .error (unreadable "ParseInt" t e.message)

end FlagKind

/-! ## Settings -/

/-- **What the flags of a command line say**, in order. -/
abbrev Settings := List (Text × FlagValue)

namespace Settings

/-- The values that a flag was given, in order. -/
def values (s : Settings) (name : Text) : List FlagValue :=
  (s.filter (·.1 == name)).map (·.2)

/-- Whether a toggle is on; the last setting counts. -/
def isOn (s : Settings) (name : Text) : Bool :=
  match (s.values name).getLast? with
  | some (.toggle on) => on
  | _ => false

/-- A text; the last setting counts. -/
def text (s : Settings) (name fallback : Text) : Text :=
  match (s.values name).getLast? with
  | some (.text t) => t
  | _ => fallback

/-- A number; the last setting counts. -/
def number (s : Settings) (name : Text) (fallback : Int) : Int :=
  match (s.values name).getLast? with
  | some (.number n) => n
  | _ => fallback

/-- A list; all settings together replace the fallback. -/
def list (s : Settings) (name : Text) (fallback : List Text) : List Text :=
  let vs := s.values name
  if vs.isEmpty then fallback
  else vs.flatMap fun
    | .list ts => ts
    | _ => []

end Settings

/-! ## Arguments -/

namespace Arguments

/-- A flag by its name. -/
def named? (flags : List Flag) (name : Text) : Option Flag := flags.find? (·.name == name)

/-- A flag by its letter. -/
def lettered? (flags : List Flag) (letter : UInt8) : Option Flag :=
  flags.find? (·.letter? == some letter)

/-- A flag set to a value. -/
def assign (f : Flag) (value : Text) : Except UsageFault (Text × FlagValue) :=
  match f.kind.read value with
  | .ok v => .ok (f.name, v)
  | .error reason => .error (.badValue f value reason)

/-- A flag whose value is the next argument, and how it was spelled. -/
structure Pending where
  flag : Flag
  spelling : Text

/-- What one argument says: settings, and perhaps a flag that still needs a value. -/
abbrev Said := Settings × Option Pending

/-- The letters after a dash.  Letters that begin with `test.` are not flags of ours and pass. -/
def readLetters (flags : List Flag) : Text → Except UsageFault Said
  | [] => .ok ([], none)
  | letter :: more =>
    if Text.startsWith (letter :: more) (Text.ofString "test.") then .ok ([], none)
    else
      match lettered? flags letter with
      | none => .error (.unknownLetter letter (letter :: more))
      | some f =>
        if more.head? == some 0x3d && 1 < more.length then do
          return ([← assign f more.tail], none)
        else if f.kind == .toggle then do
          let (settings, pending) ← readLetters flags more
          return ((f.name, .toggle true) :: settings, pending)
        else if more.isEmpty then .ok ([], some ⟨f, UsageFault.showLetter letter [letter]⟩)
        else do return ([← assign f more], none)

/-- A name after two dashes, with its value if one follows an equals sign. -/
def readName (flags : List Flag) (arg : Text) : Except UsageFault Said :=
  let body := arg.drop 2
  if [none, some 0x2d, some 0x3d].contains body.head? then .error (.badSyntax arg)
  else
    let name := body.takeWhile (· != 0x3d)
    let after := body.dropWhile (· != 0x3d)
    match named? flags name with
    | none => .error (.unknownFlag name)
    | some f =>
      if !after.isEmpty then do return ([← assign f after.tail], none)
      else if f.kind == .toggle then .ok ([(f.name, .toggle true)], none)
      else .ok ([], some ⟨f, arg⟩)

/-- The separator after which nothing is a flag. -/
def noMoreFlags : Text := "--"

/-- Whether an argument is a flag or a group of letters. -/
def isFlag (arg : Text) : Bool := arg.head? == some 0x2d && 1 < arg.length

/-- The arguments from one on; `pending` is the flag that it is the value of. -/
def parseFrom (flags : List Flag) :
    Option Pending → List Text → Except UsageFault (Settings × List Text)
  | none, [] => .ok ([], [])
  | some p, [] => .error (.valueMissing p.spelling)
  | some p, value :: rest => do
    let setting ← assign p.flag value
    let (settings, args) ← parseFrom flags none rest
    return (setting :: settings, args)
  | none, arg :: rest => do
    if arg == noMoreFlags then return ([], rest)
    else if !isFlag arg then
      let (settings, args) ← parseFrom flags none rest
      return (settings, arg :: args)
    else
      let (said, pending) ← if arg.startsWith noMoreFlags then readName flags arg
        else readLetters flags arg.tail
      let (settings, args) ← parseFrom flags pending rest
      return (said ++ settings, args)

/-- **The settings and the plain arguments of a command line.** -/
def parse (flags : List Flag) (args : List Text) : Except UsageFault (Settings × List Text) :=
  parseFrom flags none args

end Arguments

end Suspension
