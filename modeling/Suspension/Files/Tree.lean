import Suspension.Files.Path

/-!
# File trees

The files that a command reads and writes, as a value: **a command is a function from one tree to
another**.  A tree knows its files with their contents, under paths in their shortest spelling, and
the directories that hold no file yet.

* `FileTree.read`, `FileTree.write`, `FileTree.makeDirectories`, `FileTree.walk` — the operations.
* `FileFault` — why one of them failed.
* `FileTree.changes` — what a command has written.
-/

namespace Suspension

/-- What is wrong with a path. -/
inductive PathFault where
  | missing
  | notDirectory
  | isDirectory
  | tooLong
  | invalid
deriving DecidableEq, Repr

/-- The wording of what is wrong with a path. -/
def PathFault.message : PathFault → Text
  | missing => "no such file or directory"
  | notDirectory => "not a directory"
  | isDirectory => "is a directory"
  | tooLong => "file name too long"
  | invalid => "invalid argument"

/-- **An operation on a path that failed.** -/
structure FileFault where
  action : Text
  path : Text
  reason : PathFault
deriving DecidableEq, Repr

/-- The wording of a failed operation. -/
def FileFault.message (f : FileFault) : Text :=
  f.action ++ Text.ofString " " ++ f.path ++ Text.ofString ": " ++ f.reason.message

/-- **A tree of files.** -/
structure FileTree where
  files : List (Text × Bytes) := []
  directories : List Text := []
deriving Repr, Inhabited

namespace FileTree

/-- A tree with one file exchanged or added. -/
def put (t : FileTree) (p : Text) (data : Bytes) : FileTree :=
  { t with files := (p, data) :: t.files.filter (·.1 != p) }

/-- A tree of the given files; of two with the same path the last one counts. -/
def ofFiles (fs : List (Text × Bytes)) : FileTree :=
  fs.foldl (fun t (p, data) => t.put (Path.clean p) data) {}

/-- Where the directory ends in the path of a file below it. -/
def stem (dir : Text) : Text :=
  if dir == Path.root then dir else dir ++ [Path.separator]

/-- Whether a path is in the working directory or below it. -/
def isInside (p : Text) : Bool :=
  !(Path.isRooted p || p == Path.up || p.startsWith (stem Path.up))

/-- The path of a file from a directory that it is in or below. -/
def relative? (dir p : Text) : Option Text :=
  if dir == Path.here then (if isInside p then some p else none)
  else if p.startsWith (stem dir) then some (p.drop (stem dir).length)
  else none

/-- Whether a path names a file. -/
def isFile (t : FileTree) (p : Text) : Bool := (t.files.lookup p).isSome

/-- Whether a path names a directory: the root, the working directory and those above it, one that
was made, or one with a file below it. -/
def isDirectory (t : FileTree) (p : Text) : Bool :=
  p == Path.here || p == Path.root || (Path.names p).all (· == Path.up)
    || t.directories.contains p || t.files.any fun (f, _) => (relative? p f).isSome

/-! ## Following paths -/

/-- The length of the longest name. -/
def maxName : Nat := 255

/-- The length of the longest path. -/
def maxPath : Nat := 4095

/-- One name further along a path.  Only directories can be passed. -/
def step (t : FileTree) (place : Text) (name : Text) : Except PathFault Text :=
  if t.isDirectory place then
    if maxName < name.length then .error .tooLong else .ok (Path.join place name)
  else if t.isFile place then .error .notDirectory
  else .error .missing

/-- **Where a path leads**, name by name; there need not be anything at its end. -/
def locate (t : FileTree) (p : Text) : Except PathFault Text :=
  if p.isEmpty then .error .missing
  else if p.elem 0 then .error .invalid
  else if maxPath < p.length then .error .tooLong
  else (Path.names p).foldlM t.step (if Path.isRooted p then Path.root else Path.here)

/-! ## Operations -/

/-- **The contents of a file.** -/
def read (t : FileTree) (p : Text) : Except FileFault Bytes :=
  match t.locate p with
  | .error e => .error ⟨"open", p, e⟩
  | .ok place =>
    match t.files.lookup place with
    | some data => .ok data
    | none =>
      if t.isDirectory place then .error ⟨"read", p, .isDirectory⟩
      else .error ⟨"open", p, .missing⟩

/-- **A file written**, in place of what it held. -/
def write (t : FileTree) (p : Text) (data : Bytes) : Except FileFault FileTree :=
  match t.locate p with
  | .error e => .error ⟨"open", p, e⟩
  | .ok place =>
    if t.isDirectory place then .error ⟨"open", p, .isDirectory⟩
    else .ok (t.put place data)

/-- A directory made, unless it is there. -/
def makeDirectory (t : FileTree) (p : Text) : Except FileFault FileTree :=
  match t.locate p with
  | .error e => .error ⟨"mkdir", p, e⟩
  | .ok place =>
    if t.isDirectory place then .ok t
    else if t.isFile place then .error ⟨"mkdir", p, .notDirectory⟩
    else .ok { t with directories := place :: t.directories }

/-- **A directory made together with those it is in.** -/
def makeDirectories (t : FileTree) (p : Text) : Except FileFault FileTree :=
  (Path.ancestry p).foldlM makeDirectory t

/-- **The files at a path or below it**, each with its path from there. -/
def walk (t : FileTree) (p : Text) : Except FileFault (List Text) :=
  match t.locate p with
  | .error e => .error ⟨"lstat", p, e⟩
  | .ok place =>
    if t.isFile place then .ok [Path.here]
    else if t.isDirectory place then .ok (t.files.filterMap fun (f, _) => relative? place f)
    else .error ⟨"lstat", p, .missing⟩

/-- **The files that were written since**, leaving out those with the contents they had. -/
def changes (t before : FileTree) : List (Text × Bytes) :=
  t.files.filter fun (p, data) => before.files.lookup p != some data

end FileTree

end Suspension
