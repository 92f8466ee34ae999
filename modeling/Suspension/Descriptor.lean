import Suspension.Text.Quoted

/-!
# Descriptors

The type language of class files.  A field descriptor is one of the letters `Z B C S I J F D`, a
class `Lname;` with a name that is not empty, or `[` in front of a field descriptor; a method
descriptor is `(`, field descriptors, `)` and a result, which may also be `V`.

* `Kind` — the five kinds of value a slot can hold.
* `Descriptor.splitField` — one field descriptor off the front of a text.
* `Descriptor.parseMethod` — parameters and result of a method descriptor, or why it is none.
-/

namespace Suspension

/-- **The kind of value one slot holds.**  Every value, long and double included, takes one slot;
`Z B C S` are ints. -/
inductive Kind where
  | int
  | long
  | float
  | double
  | ref
deriving DecidableEq, Repr, Inhabited

namespace Kind

/-- The name of a kind in messages. -/
def name : Kind → Text
  | int => "int"
  | long => "long"
  | float => "float"
  | double => "double"
  | ref => "ref"

/-- The letter of a kind in stack signatures. -/
def letter : Kind → UInt8
  | int => 0x49
  | long => 0x4a
  | float => 0x46
  | double => 0x44
  | ref => 0x41

/-- Whether values of the kind live in primitive storage. -/
def isPrimitive : Kind → Bool
  | ref => false
  | _ => true

/-- The kinds, in the order of their load instructions. -/
def all : List Kind := [int, long, float, double, ref]

/-- The name of an optional kind: no value is `void`. -/
def nameOrVoid : Option Kind → Text
  | some k => k.name
  | none => "void"

/-- The name of the kind that a letter stands for; a letter of no kind is shown as a character. -/
def nameOfLetter (b : UInt8) : Text :=
  if b == 0x56 then "void"
  else
    match all.find? (·.letter == b) with
    | some k => k.name
    | none =>
      Text.ofString "kind(" ++ String.utf8EncodeChar (Char.ofNat b.toNat) ++ Text.ofString ")"

end Kind

namespace Descriptor

/-- The kind a field descriptor's values have; `none` is void, which the empty text denotes too.  Only
the first byte counts. -/
def kind? (desc : Text) : Option Kind :=
  match desc with
  | [] => none
  | b :: _ =>
    if b == 0x5a || b == 0x42 || b == 0x43 || b == 0x53 || b == 0x49 then some .int
    else if b == 0x4a then some .long
    else if b == 0x46 then some .float
    else if b == 0x44 then some .double
    else if b == 0x56 then none
    else some .ref

/-- Whether a class name or descriptor denotes an array. -/
def isArray (name : Text) : Bool :=
  match name with
  | b :: _ => b == 0x5b
  | [] => false

/-- **The class that a reference descriptor denotes.**  An array descriptor is its own class name, and
so is whatever else is not of the form `Lname;`. -/
def classOf (desc : Text) : Text :=
  match desc with
  | b :: rest =>
    if b == 0x4c && rest.getLast? == some 0x3b && 1 < rest.length then rest.dropLast else desc
  | [] => desc

/-- The field descriptor of a class name. -/
def ofClass (cls : Text) : Text :=
  if isArray cls then cls else Text.ofString "L" ++ cls ++ Text.ofString ";"

/-- The element descriptor of an array, empty for anything else. -/
def element (array : Text) : Text :=
  if isArray array then array.drop 1 else []

/-- The package of a class name: what stands before its last `/`. -/
def package (cls : Text) : Text :=
  ((cls.reverse.dropWhile (· != 0x2f)).drop 1).reverse

/-! ## The grammar -/

/-- Why a text does not begin with a field descriptor. -/
inductive FieldError where
  | empty
  | emptyClassName
  | unterminatedClass (text : Text)
  | unknownType (letter : UInt8)
deriving DecidableEq, Repr

/-- The wording of a field descriptor's error. -/
def FieldError.message : FieldError → Text
  | empty => "empty type"
  | emptyClassName => "empty class name"
  | unterminatedClass t => Text.ofString "unterminated class type " ++ Quoted.encode t
  | unknownType b => Text.ofString "unknown type " ++ Quoted.encode [b]

/-- The letters that are a descriptor by themselves. -/
def isBaseType (b : UInt8) : Bool :=
  b == 0x5a || b == 0x42 || b == 0x43 || b == 0x53 || b == 0x49 || b == 0x4a || b == 0x46
    || b == 0x44

/-- **One field descriptor off the front**: the descriptor and what follows it. -/
def splitField : Text → Except FieldError (Text × Text)
  | [] => .error .empty
  | b :: rest =>
    if isBaseType b then .ok ([b], rest)
    else if b == 0x4c then
      match rest.span (· != 0x3b) with
      | (_, []) => .error (.unterminatedClass (b :: rest))
      | (name, semicolon :: after) =>
        if name.isEmpty then .error .emptyClassName
        else .ok (b :: (name ++ [semicolon]), after)
    else if b == 0x5b then
      match splitField rest with
      | .ok (elem, after) => .ok (b :: elem, after)
      | .error e => .error e
    else .error (.unknownType b)

/-- Whether a text is exactly one field descriptor. -/
def isField (s : Text) : Bool :=
  match splitField s with
  | .ok (_, rest) => rest.isEmpty
  | .error _ => false

/-- The parameters and the result of a method. -/
structure Method where
  params : List Text
  result : Text
deriving DecidableEq, Repr, Inhabited

/-- Why a text is not a method descriptor. -/
inductive MethodError where
  | malformed (desc : Text)
  | parameter (desc : Text) (cause : FieldError)
  | unterminated (desc : Text)
  | badResult (desc : Text)
deriving DecidableEq, Repr

/-- The wording of a method descriptor's error. -/
def MethodError.message : MethodError → Text
  | malformed d => Text.ofString "malformed method descriptor " ++ Quoted.encode d
  | parameter d e =>
    Text.ofString "method descriptor " ++ Quoted.encode d ++ Text.ofString ": " ++ e.message
  | unterminated d => Text.ofString "unterminated method descriptor " ++ Quoted.encode d
  | badResult d => Text.ofString "bad return type in " ++ Quoted.encode d

/-- The parameters up to the closing parenthesis and what follows it.  `none` stands for a text that
ends before the parenthesis.  A parameter takes at least one byte, so the length of the text is
fuel enough. -/
def splitParams : Nat → Text → Except FieldError (Option (List Text × Text))
  | 0, _ => .ok none
  | fuel + 1, s =>
    match s with
    | [] => .ok none
    | b :: rest =>
      if b == 0x29 then .ok (some ([], rest))
      else
        match splitField s with
        | .error e => .error e
        | .ok (field, after) =>
          match splitParams fuel after with
          | .error e => .error e
          | .ok none => .ok none
          | .ok (some (fields, result)) => .ok (some (field :: fields, result))

/-- Whether a text may stand as a result: `V` or one field descriptor. -/
def isResult (s : Text) : Bool := s == [0x56] || isField s

/-- **Reading a method descriptor.** -/
def parseMethod (desc : Text) : Except MethodError Method :=
  match desc with
  | b :: rest =>
    if b != 0x28 || rest.length < 2 then .error (.malformed desc)
    else
      match splitParams desc.length rest with
      | .error e => .error (.parameter desc e)
      | .ok none => .error (.unterminated desc)
      | .ok (some (params, result)) =>
        if isResult result then .ok ⟨params, result⟩ else .error (.badResult desc)
  | [] => .error (.malformed desc)

/-- Whether the method returns no value. -/
def Method.isVoid (m : Method) : Bool := m.result == [0x56]

/-- The number of parameters, -1 for a text that is no method descriptor. -/
def argCount (desc : Text) : Int :=
  match parseMethod desc with
  | .ok m => m.params.length
  | .error _ => -1

end Descriptor

end Suspension
