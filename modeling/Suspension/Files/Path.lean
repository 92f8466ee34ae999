import Suspension.Text.Basic

/-!
# Paths

A path is a text of names with slashes between them.  It is **rooted** when it starts with a slash, and
otherwise starts at the working directory.  `.` stays where it is and `..` goes one directory up.

* `Path.clean` — the shortest spelling of a path that leads to the same place.
* `Path.join`, `Path.parent` — one path below another, and the directory a path is in.
* `Path.ancestry` — the directories on the way to a path.
-/

namespace Suspension

namespace Path

/-- The byte between two names. -/
def separator : UInt8 := 0x2f

/-- The working directory. -/
def here : Text := "."

/-- The directory above. -/
def up : Text := ".."

/-- The root of all rooted paths. -/
def root : Text := "/"

/-- Whether a path starts at the root. -/
def isRooted (p : Text) : Bool := p.head? == some separator

/-- The names of a path; slashes that follow one another have an empty name between them. -/
def names (p : Text) : List Text := Text.splitOn separator p

/-- The path with the given names, none of them empty. -/
def ofNames (rooted : Bool) (ns : List Text) : Text :=
  let body := Text.join [separator] ns
  if rooted then separator :: body
  else if ns.isEmpty then here
  else body

/-- One name after those passed so far, which stand last first.  Going up takes the last of them back;
above the root there is only the root, and above the working directory every step counts. -/
def enter (rooted : Bool) (passed : List Text) (name : Text) : List Text :=
  if name.isEmpty || name == here then passed
  else if name == up then
    match passed with
    | [] => if rooted then [] else [up]
    | last :: before => if last == up then up :: passed else before
  else name :: passed

/-- **The shortest spelling of a path.** -/
def clean (p : Text) : Text :=
  ofNames (isRooted p) ((names p).foldl (enter (isRooted p)) []).reverse

/-- A path below a directory.  An empty directory adds nothing. -/
def join (dir p : Text) : Text :=
  if !dir.isEmpty then clean (dir ++ [separator] ++ p)
  else if p.isEmpty then []
  else clean p

/-- The directory that a path is in. -/
def parent (p : Text) : Text :=
  clean (p.reverse.dropWhile (· != separator)).reverse

/-- **The way to a path**: the directories it goes through, outermost first, and the path itself. -/
def ancestry (p : Text) : List Text :=
  let ns := (names p).filter (!·.isEmpty)
  (List.range ns.length).map fun i => ofNames (isRooted p) (ns.take (i + 1))

end Path

end Suspension
