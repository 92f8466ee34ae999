import Suspension.Instruction

/-!
# Classes

A class as it stands in a class file: its place in the hierarchy, its fields and its methods.  Nothing
here is checked; `Suspension.Validation` says which classes are well formed.
-/

namespace Suspension

/-! ## Flags and names with a meaning -/

namespace Flag

def publicBit : UInt32 := 0x0001
def privateBit : UInt32 := 0x0002
def protectedBit : UInt32 := 0x0004
def staticBit : UInt32 := 0x0008
def finalBit : UInt32 := 0x0010
def synchronizedBit : UInt32 := 0x0020
def nativeBit : UInt32 := 0x0100
def interfaceBit : UInt32 := 0x0200
def abstractBit : UInt32 := 0x0400
def syntheticBit : UInt32 := 0x1000

/-- The flags that have a word in assembler text, in the order in which they are written. -/
def words : List (Text × UInt32) :=
  [("public", publicBit), ("private", privateBit), ("protected", protectedBit),
   ("static", staticBit), ("final", finalBit), ("synchronized", synchronizedBit),
   ("native", nativeBit), ("interface", interfaceBit), ("abstract", abstractBit),
   ("synthetic", syntheticBit)]

/-- Whether a flag word has a bit set. -/
def has (flags bit : UInt32) : Bool := flags &&& bit != 0

end Flag

namespace ClassName

/-- The root of the hierarchy. -/
def object : Text := "core/Object"

/-- The class of everything that can be thrown. -/
def throwable : Text := "core/Throwable"

/-- The class of string constants. -/
def string : Text := "core/String"

/-- The type of the null constant during analysis. -/
def null : Text := "null"

/-- The exception that carries a suspension up the call stack. -/
def suspendSignal : Text := "coro/SuspendExecution"

/-- The frame stack that transformed methods save their state in. -/
def frameStack : Text := "coro/Stack"

/-- The coroutine class. -/
def coroutine : Text := "coro/Coroutine"

/-- The interface of what a coroutine runs. -/
def runnable : Text := "coro/SuspendableRunnable"

/-- The annotation of a class whose methods have been transformed. -/
def instrumentedMark : Text := "coro/Instrumented"

end ClassName

/-! ## The data -/

/-- A declared field. -/
structure Field where
  name : Text
  desc : Text
  flags : UInt32
deriving DecidableEq, Repr, Inhabited

/-- The name of a local over a part of the body; for debuggers only. -/
structure LocalVar where
  name : Text
  desc : Text
  start : Label
  stop : Label
  index : UInt32
deriving DecidableEq, Repr, Inhabited

/-- A declared method with its body. -/
structure Method where
  name : Text
  desc : Text
  flags : UInt32 := 0
  throws : List Text := []
  annotations : List Text := []
  paramAnnotations : List (List Text) := []
  maxLocals : UInt32 := 0
  maxStack : UInt32 := 0
  code : Code := #[]
  ranges : List ExceptionRange := []
  localVars : List LocalVar := []
deriving DecidableEq, Repr, Inhabited

/-- **A class**: hierarchy, fields and methods.  The superclass is empty for the root only. -/
structure Class where
  name : Text
  super : Text := []
  interfaces : List Text := []
  flags : UInt32 := 0
  annotations : List Text := []
  fields : List Field := []
  methods : List Method := []
deriving DecidableEq, Repr, Inhabited

namespace Method

/-- Whether the method has no receiver. -/
def isStatic (m : Method) : Bool := Flag.has m.flags Flag.staticBit

/-- Whether the method holds its monitor during the call. -/
def isSynchronized (m : Method) : Bool := Flag.has m.flags Flag.synchronizedBit

/-- Whether the method is declared without a body. -/
def isAbstract (m : Method) : Bool := Flag.has m.flags Flag.abstractBit

/-- Whether the machine supplies the body. -/
def isNative (m : Method) : Bool := Flag.has m.flags Flag.nativeBit

/-- Whether the method carries instructions. -/
def hasBody (m : Method) : Bool := !m.isAbstract && !m.isNative

/-- Whether a class is in the declared throws list. -/
def declares (m : Method) (cls : Text) : Bool := m.throws.contains cls

/-- The identity of a method within its class: name and descriptor. -/
def key (m : Method) : Text := m.name ++ m.desc

/-- The number of locals that the caller fills: the receiver and the parameters. -/
def receiverCount (m : Method) : Nat := if m.isStatic then 0 else 1

/-- A label that neither the body nor the ranges mention. -/
def nextLabel (m : Method) : Label := m.code.nextLabel m.ranges

end Method

namespace Class

/-- The first method declared with a name and descriptor. -/
def method? (c : Class) (name desc : Text) : Option Method :=
  c.methods.find? fun m => m.name == name && m.desc == desc

/-- The first field declared with a name. -/
def field? (c : Class) (name : Text) : Option Field :=
  c.fields.find? fun f => f.name == name

/-- Whether the class carries an annotation. -/
def hasAnnotation (c : Class) (name : Text) : Bool := c.annotations.contains name

/-- Whether the class is an interface. -/
def isInterface (c : Class) : Bool := Flag.has c.flags Flag.interfaceBit

end Class

end Suspension
