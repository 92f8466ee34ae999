/-!
# Byte texts

Names, descriptors and string constants of a class file are **byte strings**: nearly all of them are
UTF-8, but an escape such as `\xff` in assembler text, or a damaged file, puts arbitrary bytes into
one.  So a text is its list of bytes, and nothing in the library assumes that the bytes decode.

* `Text` — the type, with string literals read as their UTF-8 bytes.
* `Text.ofNat`, `Text.ofInt`, `Text.hex`, `Text.hexPadded` — numerals.
* `Text.join`, `Text.startsWith`, `Text.endsWith`, `Text.isInfixOf` — the few list operations
  messages and names need.
-/

namespace Suspension

/-- The contents of a file or of an encoded class. -/
abbrev Bytes := List UInt8

/-- **A text is its bytes.**  Equality, order and length are those of the bytes. -/
abbrev Text := List UInt8

namespace Text

/-- The UTF-8 bytes of a string; the way every literal of the library is read. -/
def ofString (s : String) : Text :=
  s.toList.flatMap String.utf8EncodeChar

instance : Coe String Text := ⟨ofString⟩

/-- A text made of one byte. -/
def ofByte (b : UInt8) : Text := [b]

/-! ## Numerals -/

/-- The lower case digit of a value below sixteen. -/
def digit (n : Nat) : UInt8 :=
  if n < 10 then UInt8.ofNat (0x30 + n) else UInt8.ofNat (0x61 + (n - 10))

/-- **Positional notation.**  The digits of `n` in the given base, most significant first, at most
`fuel` of them; `n` itself is always enough fuel, since dividing by a base of two or more shrinks
it. -/
def digits (base : Nat) : Nat → Nat → Text → Text
  | 0, _, acc => acc
  | fuel + 1, n, acc =>
    if n < base then digit n :: acc
    else digits base fuel (n / base) (digit (n % base) :: acc)

/-- A natural number in decimal. -/
def ofNat (n : Nat) : Text := digits 10 (n + 1) n []

/-- An integer in decimal, a minus sign in front of a negative one. -/
def ofInt : Int → Text
  | .ofNat n => ofNat n
  | .negSucc n => 0x2d :: ofNat (n + 1)

/-- A natural number in lower case hexadecimal, without leading zeros. -/
def hex (n : Nat) : Text := digits 16 (n + 1) n []

/-- Hexadecimal filled up with zeros to `width` digits. -/
def hexPadded (width n : Nat) : Text :=
  let t := hex n
  List.replicate (width - t.length) 0x30 ++ t

/-- The bytes of a file as hexadecimal, two digits each. -/
def hexOfBytes (b : Bytes) : Text :=
  b.flatMap fun x => [digit (x.toNat / 16), digit (x.toNat % 16)]

/-! ## Joining and searching -/

/-- The texts one after another with `sep` between neighbours. -/
def join (sep : Text) : List Text → Text
  | [] => []
  | [t] => t
  | t :: rest => t ++ sep ++ join sep rest

/-- Whether `t` begins with `p`. -/
def startsWith (t p : Text) : Bool := p.isPrefixOf t

/-- Whether `t` ends with `p`. -/
def endsWith (t p : Text) : Bool := p.isSuffixOf t

/-- Whether `p` occurs somewhere in `t`. -/
def contains (t p : Text) : Bool :=
  match t with
  | [] => p.isEmpty
  | _ :: rest => p.isPrefixOf t || contains rest p

/-- The bytewise order, the one in which lists of names are sorted. -/
def le : Text → Text → Bool
  | [], _ => true
  | _ :: _, [] => false
  | a :: s, b :: t => a < b || (a == b && le s t)

/-- Names in bytewise order. -/
def sort (ts : List Text) : List Text := ts.mergeSort le

/-- The text cut at each occurrence of the byte `sep`; a text without it is one piece. -/
def splitOn (sep : UInt8) : Text → List Text
  | [] => [[]]
  | b :: rest =>
    if b == sep then [] :: splitOn sep rest
    else
      match splitOn sep rest with
      | [] => [[b]]
      | piece :: more => (b :: piece) :: more

end Text

end Suspension
