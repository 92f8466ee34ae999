import Suspension.Text.Utf8
import Suspension.Text.Printable

/-!
# Quoted texts

A text between double quotes, as assembler source and messages write it.  Printable characters
stand for themselves; the quote, the backslash and everything else is written with a backslash:

* `\a \b \f \n \r \t \v \\ \"` by letter,
* `\xHH` for the other control characters and for bytes that are not part of UTF-8,
* `\uHHHH` and `\UHHHHHHHH` for characters that are not printable.

`Quoted.encode` writes, `Quoted.decode` reads the part between the quotes; reading also knows the
octal form `\OOO`.  `Quoted.encodeChar` is the same for a single character between single quotes.
-/

namespace Suspension

namespace Quoted

/-- The letter that follows the backslash for a control character that has one. -/
def controlLetter? (n : Nat) : Option Char :=
  match n with
  | 7 => some 'a'
  | 8 => some 'b'
  | 9 => some 't'
  | 10 => some 'n'
  | 11 => some 'v'
  | 12 => some 'f'
  | 13 => some 'r'
  | _ => none

/-- A backslash, a letter that fixes the width, and that many hexadecimal digits. -/
def numeric (mark : Char) (width n : Nat) : Text :=
  Text.ofString "\\" ++ String.utf8EncodeChar mark ++ Text.hexPadded width n

/-- How a character is written between quotes of the kind `mark`. -/
def escape (mark c : Char) : Text :=
  if c == mark || c == '\\' then Text.ofString "\\" ++ String.utf8EncodeChar c
  else if isPrintable c then String.utf8EncodeChar c
  else
    match controlLetter? c.toNat with
    | some l => Text.ofString "\\" ++ String.utf8EncodeChar l
    | none =>
      if c.toNat < 0x20 || c.toNat == 0x7f then numeric 'x' 2 c.toNat
      else if c.toNat < 0x10000 then numeric 'u' 4 c.toNat
      else numeric 'U' 8 c.toNat

/-- How one decoded item is written: a stray byte by its number. -/
def escapeItem : Utf8.Item → Text
  | .char c => escape '"' c
  | .stray b => numeric 'x' 2 b.toNat

/-- **The written form of a text**, quotes included. -/
def encode (t : Text) : Text :=
  Text.ofString "\"" ++ (Utf8.items t).flatMap escapeItem ++ Text.ofString "\""

/-- The written form of a single character, single quotes included. -/
def encodeChar (c : Char) : Text :=
  Text.ofString "'" ++ escape '\'' c ++ Text.ofString "'"

/-! ## Reading -/

/-- The value of a hexadecimal digit. -/
def hexDigit? (c : Char) : Option Nat :=
  if '0' ≤ c && c ≤ '9' then some (c.toNat - '0'.toNat)
  else if 'a' ≤ c && c ≤ 'f' then some (c.toNat - 'a'.toNat + 10)
  else if 'A' ≤ c && c ≤ 'F' then some (c.toNat - 'A'.toNat + 10)
  else none

/-- The value of an octal digit. -/
def octalDigit? (c : Char) : Option Nat :=
  if '0' ≤ c && c ≤ '7' then some (c.toNat - '0'.toNat) else none

/-- The number that a sequence of hexadecimal digits denotes. -/
def hexValue? : Nat → List Char → Option Nat
  | acc, [] => some acc
  | acc, c :: rest => (hexDigit? c).bind fun d => hexValue? (acc * 16 + d) rest

/-- A character by number, refusing surrogates and what lies above U+10FFFF. -/
def scalar? (n : Nat) : Option Text :=
  if n < 0xd800 || (0xdfff < n && n < 0x110000) then some (String.utf8EncodeChar (Char.ofNat n))
  else none

/-- The control character that a letter after the backslash stands for. -/
def controlOfLetter? (c : Char) : Option UInt8 :=
  match c with
  | 'a' => some 7
  | 'b' => some 8
  | 't' => some 9
  | 'n' => some 10
  | 'v' => some 11
  | 'f' => some 12
  | 'r' => some 13
  | '\\' => some 0x5c
  | '"' => some 0x22
  | _ => none

/-- **Reading the part between the quotes.**  A quote or a line end that is not behind a backslash,
and a backslash sequence that is not one of the known forms, is refused. -/
def decode : List Char → Option Text
  | [] => some []
  | '\\' :: 'x' :: a :: b :: rest => do
    let v ← hexValue? 0 [a, b]
    return UInt8.ofNat v :: (← decode rest)
  | '\\' :: 'u' :: a :: b :: c :: d :: rest => do
    let v ← hexValue? 0 [a, b, c, d]
    return (← scalar? v) ++ (← decode rest)
  | '\\' :: 'U' :: a :: b :: c :: d :: e :: f :: g :: h :: rest => do
    let v ← hexValue? 0 [a, b, c, d, e, f, g, h]
    return (← scalar? v) ++ (← decode rest)
  | '\\' :: c :: rest =>
    match controlOfLetter? c with
    | some b => do return b :: (← decode rest)
    | none =>
      match rest with
      | d :: e :: rest' => do
        let x ← octalDigit? c
        let y ← octalDigit? d
        let z ← octalDigit? e
        let v := x * 64 + y * 8 + z
        if v < 256 then return UInt8.ofNat v :: (← decode rest') else none
      | _ => none
  | c :: rest =>
    if c == '"' || c == '\n' || c == '\\' then none
    else do return String.utf8EncodeChar c ++ (← decode rest)

end Quoted

end Suspension
