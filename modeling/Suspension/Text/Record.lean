import Suspension.Text.Basic

/-!
# Comma-separated records

A record is one line of fields with commas between them.  A field that begins with a quote goes on to
the closing one, line ends and commas included, and a quote in it is written twice; other fields hold
no quotes.  Blank lines before the record are skipped, and what follows its line is not read.

* `Record.read` — the fields of the first record of a text.
* `RecordFault` — why there is none.
-/

namespace Suspension

/-- How quotes are misused. -/
inductive QuoteFault where
  | bare
  | unbalanced
deriving DecidableEq, Repr

/-- The wording of a misused quote. -/
def QuoteFault.message : QuoteFault → Text
  | bare => "bare \" in non-quoted-field"
  | unbalanced => "extraneous or missing \" in quoted-field"

/-- **Why a text has no record**: it holds none, or a quote is misused at a line and column of a record
that began on line `start`. -/
inductive RecordFault where
  | nothing
  | misquoted (start line column : Nat) (reason : QuoteFault)
deriving DecidableEq, Repr

/-- The wording of a missing record. -/
def RecordFault.message : RecordFault → Text
  | nothing => "EOF"
  | misquoted start line column reason =>
    (if start == line then []
     else Text.ofString "record on line " ++ Text.ofNat start ++ Text.ofString "; ")
      ++ Text.ofString "parse error on line " ++ Text.ofNat line ++ Text.ofString ", column "
      ++ Text.ofNat column ++ Text.ofString ": " ++ reason.message

namespace Record

/-- A text with every line end a single byte; a carriage return at the very end is dropped. -/
def unifyLines : Text → Text
  | [] => []
  | [b] => if b == 0x0d then [] else [b]
  | 0x0d :: 0x0a :: rest => 0x0a :: unifyLines rest
  | b :: rest => b :: unifyLines rest

/-- Where the reader is within a field. -/
inductive Mode where
  | start
  | bare
  | quoted
  /-- after a quote within a quoted field, which may be the closing one -/
  | closing
deriving DecidableEq, Repr

/-- The reader between two bytes: the position of the next one, and what was read, last first.
`isBroken` says that the byte before ended a line within a quoted field. -/
structure Cursor where
  first : Nat
  line : Nat
  column : Nat := 1
  isBroken : Bool := false
  mode : Mode := .start
  field : Text := []
  fields : List Text := []

namespace Cursor

/-- The fields with the one at hand as the last. -/
def finished (c : Cursor) : List Text := (c.field.reverse :: c.fields).reverse

/-- A byte added to the field. -/
def keep (c : Cursor) (b : UInt8) (mode : Mode) : Cursor :=
  { c with mode, field := b :: c.field, column := c.column + 1 }

/-- The field ended by a comma. -/
def next (c : Cursor) : Cursor :=
  { c with mode := .start, field := [], fields := c.field.reverse :: c.fields,
           column := c.column + 1 }

/-- A quote that is not part of the field. -/
def pass (c : Cursor) (mode : Mode) : Cursor := { c with mode, column := c.column + 1 }

/-- The next line of a quoted field. -/
def onLine (c : Cursor) : Cursor :=
  if c.isBroken then { c with isBroken := false, line := c.line + 1, column := 1 } else c

/-- A misused quote. -/
def fault (c : Cursor) (column : Nat) (reason : QuoteFault) : RecordFault :=
  .misquoted c.first c.line column reason

end Cursor

/-- Reads a record to its end. -/
def scan (c : Cursor) : Text → Except RecordFault (List Text)
  | [] =>
    if c.mode == .quoted then .error (c.fault c.column .unbalanced) else .ok c.finished
  | b :: rest =>
    match c.mode with
    | .start =>
      if b == 0x22 then scan (c.pass .quoted) rest
      else if b == 0x2c then scan c.next rest
      else if b == 0x0a then .ok c.finished
      else scan (c.keep b .bare) rest
    | .bare =>
      if b == 0x22 then .error (c.fault c.column .bare)
      else if b == 0x2c then scan c.next rest
      else if b == 0x0a then .ok c.finished
      else scan (c.keep b .bare) rest
    | .quoted =>
      let c := c.onLine
      if b == 0x22 then scan (c.pass .closing) rest
      else scan { c.keep b .quoted with isBroken := b == 0x0a } rest
    | .closing =>
      if b == 0x22 then scan (c.keep b .quoted) rest
      else if b == 0x2c then scan c.next rest
      else if b == 0x0a then .ok c.finished
      else .error (c.fault (c.column - 1) .unbalanced)

/-- The record after blank lines, the first of them being line `line`. -/
def readFrom (line : Nat) : Text → Except RecordFault (List Text)
  | [] => .error .nothing
  | b :: rest =>
    if b == 0x0a then readFrom (line + 1) rest
    else scan { first := line, line } (b :: rest)

/-- **The fields of the first record of a text.** -/
def read (t : Text) : Except RecordFault (List Text) := readFrom 1 (unifyLines t)

end Record

end Suspension
