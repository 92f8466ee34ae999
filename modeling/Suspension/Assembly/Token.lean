import Suspension.Text.Blank
import Suspension.Text.Digit
import Suspension.Text.Letter
import Suspension.Text.Quoted

/-!
# Tokens of assembler text

Assembler text is a sequence of parentheses, identifiers, quoted strings, numbers and label
definitions, separated by blanks and by comments from `;` to the end of the line.  An identifier may
hold letters and digits of every script; a number starts with a digit or a sign; `$name:` with the
colon right behind it defines a label.

`Token.scan` splits a text; each token carries the line it starts on.
-/

namespace Suspension

/-- The sorts of token. -/
inductive TokenKind where
  | open_
  | close
  | ident
  | string
  | number
  | label
deriving DecidableEq, Repr, Inhabited

/-- The name of a sort in messages. -/
def TokenKind.name : TokenKind → Text
  | open_ => "'('"
  | close => "')'"
  | ident => "identifier"
  | string => "string"
  | number => "number"
  | label => "label"

/-- **A token**: a string's value is what it denotes, a label's is its name without the colon. -/
structure Token where
  value : Text
  kind : TokenKind
  line : Nat
deriving DecidableEq, Repr, Inhabited

/-- A token as it may be written: a string with its quotes. -/
def Token.render (t : Token) : Text :=
  if t.kind == .string then Quoted.encode t.value else t.value

/-- Why a text cannot be split into tokens. -/
inductive TokenError where
  | unterminated (line : Nat)
  | badString (line : Nat)
  | unexpected (line : Nat) (c : Char)
deriving DecidableEq, Repr

/-- The wording of a token error. -/
def TokenError.message : TokenError → Text
  | unterminated n => Text.ofString "line " ++ Text.ofNat n ++ Text.ofString ": unterminated string"
  | badString n =>
    Text.ofString "line " ++ Text.ofNat n ++ Text.ofString ": bad string literal: invalid syntax"
  | unexpected n c =>
    Text.ofString "line " ++ Text.ofNat n ++ Text.ofString ": unexpected character "
      ++ Quoted.encodeChar c

namespace Token

/-- The characters of an identifier. -/
def isIdentChar (c : Char) : Bool :=
  isLetter c || isDigit c || c == '_' || c == '.' || c == '$' || c == '-' || c == '/' || c == '<'
    || c == '>'

/-- Whether a number begins here. -/
def startsNumber (c : Char) : Bool := c == '-' || c == '+' || isDigit c

/-- Whether a number goes on with `c` after `previous`: digits, hexadecimal letters, a point, an
underscore, `x`, and a sign directly behind an `e`. -/
def continuesNumber (previous c : Char) : Bool :=
  isDigit c || c == '.' || c == 'x' || c == 'X' || c == '_' || ('a' ≤ c && c ≤ 'f')
    || ('A' ≤ c && c ≤ 'F')
    || ((c == '-' || c == '+') && (previous == 'e' || previous == 'E'))

/-- The rest of a number after its character `previous`, and what follows the number. -/
def splitNumber (previous : Char) : List Char → List Char × List Char
  | [] => ([], [])
  | c :: rest =>
    if continuesNumber previous c then
      let (more, after) := splitNumber c rest
      (c :: more, after)
    else ([], c :: rest)

/-- The part of a string up to its closing quote, and what follows the quote.  A backslash takes the
next character with it; a string does not go beyond its line. -/
def splitString : List Char → Option (List Char × List Char)
  | [] => none
  | '\\' :: c :: rest => (splitString rest).map fun (body, after) => ('\\' :: c :: body, after)
  | c :: rest =>
    if c == '"' then some ([], rest)
    else if c == '\n' || c == '\\' then none
    else (splitString rest).map fun (body, after) => (c :: body, after)

/-- The tokens from a given line on.  Each round takes at least one character, so the length of the
text is fuel enough. -/
def scanFrom : Nat → List Char → Nat → Except TokenError (List Token)
  | 0, _, _ => .ok []
  | _ + 1, [], _ => .ok []
  | fuel + 1, c :: rest, line =>
    if c == '\n' then scanFrom fuel rest (line + 1)
    else if isBlank c then scanFrom fuel rest line
    else if c == ';' then scanFrom fuel (rest.dropWhile (· != '\n')) line
    else if c == '(' then
      return ⟨"(", .open_, line⟩ :: (← scanFrom fuel rest line)
    else if c == ')' then
      return ⟨")", .close, line⟩ :: (← scanFrom fuel rest line)
    else if c == '"' then
      match splitString rest with
      | none => .error (.unterminated line)
      | some (body, after) =>
        match Quoted.decode body with
        | none => .error (.badString line)
        | some value => return ⟨value, .string, line⟩ :: (← scanFrom fuel after line)
    else if startsNumber c then
      let (more, after) := splitNumber c rest
      return ⟨Utf8.encode (c :: more), .number, line⟩ :: (← scanFrom fuel after line)
    else if isIdentChar c then
      let (more, after) := rest.span isIdentChar
      let name := Utf8.encode (c :: more)
      match c, after with
      | '$', ':' :: after => return ⟨name, .label, line⟩ :: (← scanFrom fuel after line)
      | _, _ => return ⟨name, .ident, line⟩ :: (← scanFrom fuel after line)
    else .error (.unexpected line c)

/-- **The tokens of a text.**  Bytes that are not UTF-8 read as U+FFFD. -/
def scan (source : Text) : Except TokenError (List Token) :=
  let cs := Utf8.chars source
  scanFrom cs.length cs 1

end Token

end Suspension
