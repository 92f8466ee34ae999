import Suspension.Text.Basic

/-!
# UTF-8

Reading a byte text as characters.  A byte that starts no well-formed sequence stands for itself:
`Utf8.next` reports it as **stray** and consumes exactly that byte, so decoding never fails and
never loses a byte.  Two views follow: `Utf8.chars` replaces each stray byte by U+FFFD, and
`Utf8.valid` asks that there is none.

The well-formed sequences are those of the standard: no overlong forms, no surrogates, nothing above
U+10FFFF.
-/

namespace Suspension

namespace Utf8

/-- One step of decoding: a character, or a byte that starts no well-formed sequence. -/
inductive Item where
  | char (c : Char)
  | stray (b : UInt8)
deriving DecidableEq, Repr, Inhabited

/-- The replacement character U+FFFD. -/
def replacement : Char := Char.ofNat 0xfffd

/-- Whether a byte continues a sequence. -/
def isContinuation (b : UInt8) : Bool := 0x80 ≤ b && b ≤ 0xbf

/-- The six payload bits of a continuation byte. -/
def payload (b : UInt8) : Nat := b.toNat % 64

/-- **The first item of a text that begins with `b`**, and how many bytes after `b` it takes.  The
second byte's range excludes overlong forms (`e0`, `f0`), surrogates (`ed`) and values above
U+10FFFF (`f4`). -/
def first (b : UInt8) (rest : Text) : Item × Nat :=
  if b < 0x80 then (.char (Char.ofNat b.toNat), 0)
  else if 0xc2 ≤ b && b ≤ 0xdf then
    match rest with
    | c :: _ =>
      if isContinuation c then (.char (Char.ofNat ((b.toNat % 32) * 64 + payload c)), 1)
      else (.stray b, 0)
    | _ => (.stray b, 0)
  else if 0xe0 ≤ b && b ≤ 0xef then
    match rest with
    | c :: d :: _ =>
      let lo : UInt8 := if b == 0xe0 then 0xa0 else 0x80
      let hi : UInt8 := if b == 0xed then 0x9f else 0xbf
      if lo ≤ c && c ≤ hi && isContinuation d then
        (.char (Char.ofNat ((b.toNat % 16) * 4096 + payload c * 64 + payload d)), 2)
      else (.stray b, 0)
    | _ => (.stray b, 0)
  else if 0xf0 ≤ b && b ≤ 0xf4 then
    match rest with
    | c :: d :: e :: _ =>
      let lo : UInt8 := if b == 0xf0 then 0x90 else 0x80
      let hi : UInt8 := if b == 0xf4 then 0x8f else 0xbf
      if lo ≤ c && c ≤ hi && isContinuation d && isContinuation e then
        (.char (Char.ofNat
          ((b.toNat % 8) * 262144 + payload c * 4096 + payload d * 64 + payload e)), 3)
      else (.stray b, 0)
    | _ => (.stray b, 0)
  else (.stray b, 0)

/-- The items of a text, skipping the `skip` bytes that the item before has taken. -/
def itemsFrom : Nat → Text → List Item
  | _, [] => []
  | skip + 1, _ :: rest => itemsFrom skip rest
  | 0, b :: rest =>
    let (item, taken) := first b rest
    item :: itemsFrom taken rest

/-- **Decoding.**  Every byte of the text belongs to exactly one item. -/
def items (t : Text) : List Item := itemsFrom 0 t

/-- The character an item is read as: a stray byte reads as U+FFFD. -/
def Item.toChar : Item → Char
  | .char c => c
  | .stray _ => replacement

/-- The bytes of an item. -/
def Item.bytes : Item → Text
  | .char c => String.utf8EncodeChar c
  | .stray b => [b]

/-- The characters of a text, one U+FFFD per stray byte. -/
def chars (t : Text) : List Char := (items t).map Item.toChar

/-- Whether an item is a character. -/
def Item.isChar : Item → Bool
  | .char _ => true
  | .stray _ => false

/-- Whether a text is well-formed UTF-8. -/
def valid (t : Text) : Bool := (items t).all Item.isChar

/-- The UTF-8 bytes of a sequence of characters. -/
def encode (cs : List Char) : Text := cs.flatMap String.utf8EncodeChar

/-- A text as a string of characters, for the world outside the library. -/
def toString (t : Text) : String := String.ofList (chars t)

end Utf8

end Suspension
