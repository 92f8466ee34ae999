import Suspension.Builtins
import Suspension.Proofs.Codec.RoundTrip
import Suspension.Proofs.Text.Quoted

/-!
# The machine's own classes

The classes that every class path holds are written in assembler text.  Which classes these are is found
by **carrying the assembler out** on this text.

A text is bytes, and the assembler works on its characters.  So the text is spelt first, piece by piece,
and nothing has to be decoded.

* `Text.Spelling` — the characters of a text.
* `Builtins.sourceSpelling` — the characters of the machine's classes.
* `Builtins.classes_headers` — the names and superclasses of the classes; all of them can be written, and
  implement nothing.
* `Builtins.lookup_encoded`, `Builtins.lookup_encoded_object` — which names are free, and the root.
-/

namespace Suspension

namespace Text

/-- **The characters of a text**, to be put in front of others: no character is appended twice. -/
structure Spelling (t : Text) where
  /-- The characters in front of others. -/
  before : List Char → List Char
  encode_before : ∀ cs, Utf8.encode (before cs) = t ++ Utf8.encode cs

/-- Whether a character between quotes stands for itself. -/
def isLiteral (c : Char) : Bool := c != '"' && c != '\\' && isPrintable c

namespace Spelling

variable {t t' : Text}

/-- The characters alone. -/
def chars (s : Spelling t) : List Char := s.before []

lemma eq_encode_chars (s : Spelling t) : t = Utf8.encode s.chars := by
  have h : Utf8.encode s.chars = t ++ [] := s.encode_before []
  rw [h, List.append_nil]

/-- Characters that are given. -/
def ofChars (cs : List Char) (ht : t = Utf8.encode cs) : Spelling t :=
  ⟨(cs ++ ·), fun cs' => by rw [Utf8.encode_append, ht]⟩

/-- A literal. -/
def literal (cs : List Char) : Spelling (ofString (String.ofList cs)) :=
  ofChars cs (by rw [ofString, String.toList_ofList, Utf8.encode])

/-- A numeral. -/
def number (n : Nat) : Spelling (ofNat n) := ofChars (Nat.toDigits 10 n) (ofNat_eq n)

/-- One text behind another. -/
def append (s : Spelling t) (s' : Spelling t') : Spelling (t ++ t') :=
  ⟨fun cs => s.before (s'.before cs), fun cs => by
    rw [s.encode_before, s'.encode_before, List.append_assoc]⟩

section

variable {α : Type} {f : α → Text} {x : α} {xs : List α}

/-- No texts. -/
def nil : Spelling ([].flatMap f) := ⟨id, fun _ => rfl⟩

/-- A text in front of others. -/
def cons (s : Spelling (f x)) (s' : Spelling (xs.flatMap f)) : Spelling ((x :: xs).flatMap f) :=
  ⟨fun cs => s.before (s'.before cs), fun cs => by
    rw [s.encode_before, s'.encode_before, List.flatMap_cons, List.append_assoc]⟩

/-- One text after another. -/
def flatMap (s : ∀ x, Spelling (f x)) : (xs : List α) → Spelling (xs.flatMap f)
  | [] => nil
  | x :: xs => (s x).cons (flatMap s xs)

end

/-- Literal characters are quoted as they are. -/
lemma quoted_eq (s : Spelling t) (hs : s.chars.all isLiteral = true) :
    Quoted.encode t = Utf8.encode ['"'] ++ t ++ Utf8.encode ['"'] := by
  have hbody : (s.chars.map Utf8.Item.char).flatMap Quoted.escapeItem = Utf8.encode s.chars := by
    rw [List.flatMap_map]
    refine List.flatMap_congr fun c hc => ?_
    have hc := List.all_eq_true.mp hs c hc
    simp only [isLiteral, Bool.and_eq_true, bne_iff_ne] at hc
    simp [Quoted.escapeItem, Quoted.escape, hc]
  have hitems : Utf8.items (Utf8.encode s.chars) = s.chars.map .char := by
    simpa [Utf8.items, Utf8.itemsFrom] using Utf8.items_encode_append s.chars []
  have hquote : ofString "\"" = Utf8.encode ['"'] := (literal _).eq_encode_chars
  rw [s.eq_encode_chars, Quoted.encode, hitems, hbody, hquote]

/-- A text between quotes. -/
def quoted (s : Spelling t) (hs : s.chars.all isLiteral = true) : Spelling (Quoted.encode t) :=
  ⟨fun cs => '"' :: s.before ('"' :: cs), fun cs => by
    have hcons : ∀ cs, Utf8.encode ('"' :: cs) = Utf8.encode ['"'] ++ Utf8.encode cs := fun cs =>
      Utf8.encode_append ['"'] cs
    rw [quoted_eq s hs, hcons, s.encode_before, hcons cs, List.append_assoc, List.append_assoc]⟩

end Spelling

/-- The characters of pairs of texts. -/
structure PairSpellings (ps : List (Text × Text)) where
  /-- The characters of each. -/
  chars : List (List Char × List Char)
  eq_encode : ps = chars.map fun c => (Utf8.encode c.1, Utf8.encode c.2)

namespace PairSpellings

/-- No pairs. -/
def nil : PairSpellings [] := ⟨[], rfl⟩

/-- One more pair. -/
def cons {t t' : Text} {ps : List (Text × Text)} (s : Spelling t) (s' : Spelling t')
    (ss : PairSpellings ps) : PairSpellings ((t, t') :: ps) :=
  ⟨(s.chars, s'.chars) :: ss.chars, by
    rw [List.map_cons, ← s.eq_encode_chars, ← s'.eq_encode_chars, ← ss.eq_encode]⟩

end PairSpellings

end Text

namespace Builtins

open Text

/-! ## The characters of the text -/

/-- The characters of a constructor. -/
def constructorSpelling {super desc : Text} (s : Spelling super) (d : Spelling desc)
    (hs : s.chars.all isLiteral = true) (hd : d.chars.all isLiteral = true) (params : Nat) :
    Spelling (constructorSource super params desc) :=
  let load := fun i => (Spelling.literal _).append (.number (i + 1))
  ((((((((Spelling.literal _).append (d.quoted hd)).append (.literal _)).append (.flatMap load _)).append
    (.literal _)).append (s.quoted hs)).append (.literal _)).append (d.quoted hd)).append (.literal _)

/-- The characters of an exception. -/
def exceptionSpelling {name super : Text} (n : Spelling name) (s : Spelling super)
    (hn : n.chars.all isLiteral = true) (hs : s.chars.all isLiteral = true) :
    Spelling (exceptionSource name super) :=
  ((((((((Spelling.literal _).append (n.quoted hn)).append (.literal _)).append (s.quoted hs)).append
    (.literal _)).append (constructorSpelling s (.literal _) hs (by decide) 0)).append
    (constructorSpelling s (.literal _) hs (by decide) 1)).append
    (constructorSpelling s (.literal _) hs (by decide) 2)).append (.literal _)

section

set_option maxRecDepth 20000

/-- The characters of the exceptions. -/
def exceptionsSpelling : Spelling (exceptions.flatMap fun e => exceptionSource e.1 e.2) := by
  repeat' first
    | refine Spelling.cons (exceptionSpelling (.literal _) (.literal _) (by decide) (by decide)) ?_
    | exact Spelling.nil

/-- **The characters of all classes.** -/
def sourceSpelling : Spelling source :=
  let core : Spelling coreSource :=
    ((((((((Spelling.literal _).append (.literal _)).append (.literal _)).append (.literal _)).append
      (.literal _)).append (.literal _)).append (.literal _)).append (.literal _)).append (.literal _)
  core.append exceptionsSpelling

end

/-! ## The classes -/

/-- The names of the machine's classes, each with the superclass. -/
def headers : List (Text × Text) :=
  [(ClassName.object, []), (ClassName.string, ClassName.object),
   ("core/StringBuilder", ClassName.object), ("core/System", ClassName.object),
   (ClassName.throwable, ClassName.object), ("core/Thread", ClassName.object),
   ("core/concurrent/Lock", ClassName.object), ("core/reflect/Method", ClassName.object),
   ("coro/Stack", ClassName.object), ("coro/SuspendableRunnable", ClassName.object),
   ("coro/Instrumented", ClassName.object), ("coro/Coroutine", ClassName.object)] ++ exceptions

/-- Their characters. -/
def headerSpellings : PairSpellings headers := by
  refine .cons (.literal _) (.ofChars [] rfl) ?_
  repeat' first
    | refine PairSpellings.cons (.literal _) (.literal _) ?_
    | exact PairSpellings.nil

/-- The classes that characters are assembled to. -/
def assembled (cs : List Char) : List Class :=
  match Token.scanFrom cs.length cs 1 with
  | .error _ => []
  | .ok toks => (Assembly.ofTokens toks).toOption.getD []

lemma classes_eq {cs : List Char} (hcs : source = Utf8.encode cs) : classes = assembled cs := by
  rw [classes, hcs, Assembly.classes, Token.scan, Utf8.chars_encode]
  unfold assembled
  cases Token.scanFrom cs.length cs 1 with
  | error e => rfl
  | ok toks =>
      dsimp only
      cases Assembly.ofTokens toks <;> rfl

section

set_option maxRecDepth 20000

lemma assembled_computed :
    (assembled sourceSpelling.chars).map (fun c => (c.name, c.super))
        = headerSpellings.chars.map (fun c => (Utf8.encode c.1, Utf8.encode c.2))
      ∧ ∀ c ∈ assembled sourceSpelling.chars, c.interfaces = [] ∧ c.Holdable := by
  decide +kernel

end

/-- **What the assembler makes of the text**: the classes have these names and superclasses, implement
nothing, and can be written. -/
lemma classes_headers : classes.map (fun c => (c.name, c.super)) = headers
    ∧ ∀ c ∈ classes, c.interfaces = [] ∧ c.Holdable := by
  rw [classes_eq sourceSpelling.eq_encode_chars, headerSpellings.eq_encode]
  exact assembled_computed

/-- Every class of the machine has an encoding. -/
lemma encoded_names : encoded.map (·.1) = headers.map (·.1) := by
  obtain ⟨hheaders, hwritten⟩ := classes_headers
  rw [← hheaders, encoded, List.map_map]
  generalize classes = cs at hwritten
  induction cs with
  | nil => rfl
  | cons c cs ih =>
      obtain ⟨⟨-, hc⟩, hcs⟩ := List.forall_mem_cons.mp hwritten
      obtain ⟨data, hdata⟩ := hc.written
      have hentry : c.encode.toOption = some data := by rw [hdata]; rfl
      rw [List.filterMap_cons, hentry, Option.map_some, List.map_cons, List.map_cons, ih hcs]
      rfl

/-- **A name is free** if no class of the machine has it. -/
lemma lookup_encoded {name : Text} (hname : name ∉ headers.map (·.1)) : encoded.lookup name = none := by
  rw [← encoded_names] at hname
  refine List.lookup_eq_none_iff.mpr fun entry hentry => bne_iff_ne.mpr ?_
  rintro rfl
  exact hname (List.mem_map_of_mem hentry)

/-- **The root** extends and implements nothing. -/
lemma lookup_encoded_object : ∃ data file, encoded.lookup ClassName.object = some data
    ∧ Class.decode data = .ok file ∧ file.name = ClassName.object ∧ file.super = []
    ∧ file.interfaces = [] := by
  obtain ⟨hheaders, hwritten⟩ := classes_headers
  unfold encoded
  -- the root is the first of them
  generalize classes = cs at hheaders hwritten
  cases cs with
  | nil => cases hheaders
  | cons c cs =>
      obtain ⟨⟨hinterfaces, hc⟩, -⟩ := List.forall_mem_cons.mp hwritten
      obtain ⟨data, hdata⟩ := hc.written
      obtain ⟨hname, hsuper⟩ := Prod.mk.inj (List.cons.inj hheaders).1
      refine ⟨data, c, ?_, hc.decode_eq hdata, hname, hsuper, hinterfaces⟩
      simp [hdata, Except.toOption, hname]

end Builtins

end Suspension
