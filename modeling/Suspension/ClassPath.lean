import Suspension.Builtins
import Suspension.Files.Tree
import Suspension.Hierarchy

/-!
# Class paths

Where encoded classes are found by name: the classes of the machine first, then classes in memory,
then directories in order, in which class `a/B` is the file `a/B.cls`.

* `ClassPath.resolve` — the bytes of a class.
* `ClassPath.names` — the classes that are there.
* `ClassPath.source` — the class path as the source of what is known about classes.
-/

namespace Suspension

/-- **A class path.**  The directories are those of `disk`. -/
structure ClassPath where
  memory : List (Text × Bytes) := []
  directories : List Text := []
  disk : FileTree := {}
deriving Repr, Inhabited

namespace ClassPath

/-- How the file of a class is named. -/
def extension : Text := ".cls"

/-- The file of a class below a directory. -/
def fileIn (dir name : Text) : Text := Path.join dir (name ++ extension)

/-- Registers the bytes of a class, replacing what was there under the name. -/
def add (p : ClassPath) (name : Text) (data : Bytes) : ClassPath :=
  { p with memory := (name, data) :: p.memory.filter (·.1 != name) }

/-- Encodes a class and registers it. -/
def addClass (p : ClassPath) (c : Class) : Except Fault ClassPath :=
  match c.encode with
  | .error e => .error (.wrap Phase.encode FaultKind.invalidData (some (.plain e.message)) c.name)
  | .ok data => .ok (p.add c.name data)

/-- The first directory that has the file of a class.  A file that is there and cannot be read ends
the search. -/
def inDirectories (disk : FileTree) (name : Text) : List Text → Except Fault Bytes
  | [] => .error (.notFound Phase.resolve "class" name)
  | dir :: rest =>
    match disk.read (fileIn dir name) with
    | .ok data => .ok data
    | .error e =>
      if e.reason == .missing then inDirectories disk name rest
      else .error (.resolution name (some (.plain e.message)))

/-- Whether a name could lead outside the directories. -/
def isUnsafe (name : Text) : Bool :=
  name.isEmpty || name.contains (Text.ofString "..") || name.startsWith (Text.ofString "/")

/-- The bytes of a class, with `builtins` for the classes of the machine. -/
def resolveIn (builtins : List (Text × Bytes)) (p : ClassPath) (name : Text) : Except Fault Bytes :=
  match builtins.lookup name with
  | some data => .ok data
  | none =>
    match p.memory.lookup name with
    | some data => .ok data
    | none =>
      if isUnsafe name then
        .error (.invalidInput Phase.resolve (Text.ofString "bad class name " ++ name))
      else inDirectories p.disk name p.directories

/-- **The bytes of a class.** -/
def resolve (p : ClassPath) (name : Text) : Except Fault Bytes := p.resolveIn Builtins.encoded name

/-- A path without the ending of class files. -/
def stripExtension (path : Text) : Text :=
  if path.endsWith extension then path.take (path.length - extension.length) else path

/-- The classes of one directory. -/
def namesIn (disk : FileTree) (dir : Text) : Except Fault (List Text) :=
  match disk.walk dir with
  | .error e =>
    .error (.wrap Phase.resolve FaultKind.invalidInput (some (.plain e.message)) dir)
  | .ok paths =>
    let isClass := fun path => (Path.join dir path).endsWith extension
    .ok ((paths.filter isClass).map stripExtension)

/-- **The classes in memory and in the directories**, in order, without those of the machine. -/
def names (p : ClassPath) : Except Fault (List Text) := do
  let found ← p.directories.mapM (namesIn p.disk)
  return Text.sort (p.memory.map (·.1) ++ found.flatten).eraseDups

/-- A bound on the number of classes that can be resolved. -/
def height (p : ClassPath) : Nat :=
  Builtins.encoded.length + p.memory.length + p.directories.length * p.disk.files.length

/-- The class path as a source of classes. -/
def source (p : ClassPath) (sink : Sink) (corePrefixes : List Text)
    (suspendableCore : List MethodKey) : ClassSource where
  resolve? := some p.resolve
  height := p.height
  sink
  corePrefixes
  suspendableCore

end ClassPath

end Suspension
