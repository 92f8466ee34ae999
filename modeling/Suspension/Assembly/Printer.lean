import Suspension.ClassFile

/-!
# Writing assembler text

A class in the form that `Assembly.single` reads.  Labels are written by their numbers, flags by
their words, and an element that is empty is left out.
-/

namespace Suspension

namespace Assembly

/-- The words of the flags that are set. -/
def flagWords (flags : UInt32) : Text :=
  Text.join (Text.ofString " ") ((Flag.words.filter fun (_, bit) => Flag.has flags bit).map (·.1))

/-- Quoted names with blanks between them. -/
def quotedNames (names : List Text) : Text :=
  Text.join (Text.ofString " ") (names.map Quoted.encode)

/-- A section on a line of its own. -/
def sectionLine (indent : String) (keyword : String) (contents : Text) : Text :=
  Text.ofString indent ++ Text.ofString "(" ++ Text.ofString keyword ++ Text.ofString " " ++ contents
    ++ Text.ofString ")"

/-- A section, unless it would be empty. -/
def optional (present : Bool) (line : Text) : Text := if present then line else []

/-- One instruction on a line of its own; label marks stand out by two columns. -/
def codeLine (i : Instruction) : Text :=
  Text.ofString (if i.isMark then "\n     " else "\n       ") ++ i.render

/-- A protected range. -/
def catchLine (r : ExceptionRange) : Text :=
  Text.ofString "\n    (catch " ++ Instruction.labelName r.start ++ Text.ofString " "
    ++ Instruction.labelName r.stop ++ Text.ofString " " ++ Instruction.labelName r.handler
    ++ Text.ofString " " ++ (if r.type.isEmpty then Text.ofString "any" else Quoted.encode r.type)
    ++ Text.ofString ")"

/-- The name of a local. -/
def localLine (v : LocalVar) : Text :=
  Text.ofString "\n    (local " ++ Quoted.encode v.name ++ Text.ofString " " ++ Quoted.encode v.desc
    ++ Text.ofString " " ++ Instruction.labelName v.start ++ Text.ofString " "
    ++ Instruction.labelName v.stop ++ Text.ofString " " ++ Text.ofNat v.index.toNat
    ++ Text.ofString ")"

/-- The annotations of the parameters from the `i`-th on. -/
def paramLines : List (List Text) → Nat → Text
  | [], _ => []
  | anns :: rest, i =>
    optional (!anns.isEmpty)
        (sectionLine "\n    " "param-annotation"
          (Text.ofNat i ++ Text.ofString " " ++ quotedNames anns))
      ++ paramLines rest (i + 1)

/-- The sections that only a method with a body has. -/
def bodyLines (m : Method) : Text :=
  sectionLine "\n    " "locals" (Text.ofNat m.maxLocals.toNat)
    ++ sectionLine " " "stack" (Text.ofNat m.maxStack.toNat)
    ++ Text.ofString "\n    (code" ++ m.code.toList.flatMap codeLine ++ Text.ofString ")"
    ++ m.ranges.flatMap catchLine ++ m.localVars.flatMap localLine

/-- **A method form.** -/
def methodLines (m : Method) : Text :=
  Text.ofString "\n  (method " ++ Quoted.encode m.name ++ Text.ofString " " ++ Quoted.encode m.desc
    ++ optional (m.flags != 0) (sectionLine "\n    " "flags" (flagWords m.flags))
    ++ optional (!m.throws.isEmpty) (sectionLine "\n    " "throws" (quotedNames m.throws))
    ++ optional (!m.annotations.isEmpty)
        (sectionLine "\n    " "annotation" (quotedNames m.annotations))
    ++ paramLines m.paramAnnotations 0
    ++ optional m.hasBody (bodyLines m) ++ Text.ofString ")"

/-- A field form. -/
def fieldLine (f : Field) : Text :=
  Text.ofString "\n  (field " ++ Quoted.encode f.name ++ Text.ofString " " ++ Quoted.encode f.desc
    ++ optional (f.flags != 0) (Text.ofString " " ++ flagWords f.flags) ++ Text.ofString ")"

/-- **A class form.** -/
def disassemble (c : Class) : Text :=
  Text.ofString "(class " ++ Quoted.encode c.name
    ++ optional (!c.super.isEmpty) (sectionLine "\n  " "super" (Quoted.encode c.super))
    ++ optional (c.flags != 0) (sectionLine "\n  " "flags" (flagWords c.flags))
    ++ optional (!c.interfaces.isEmpty)
        (sectionLine "\n  " "implements" (quotedNames c.interfaces))
    ++ optional (!c.annotations.isEmpty)
        (sectionLine "\n  " "annotation" (quotedNames c.annotations))
    ++ c.fields.flatMap fieldLine ++ c.methods.flatMap methodLines ++ Text.ofString ")\n"

end Assembly

end Suspension
