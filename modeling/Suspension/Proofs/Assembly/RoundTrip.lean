import Suspension.Proofs.Assembly.Soundness
import Suspension.Proofs.Codec.RoundTrip

/-!
# Classes, their texts and their files

**There and back.**  A class in normal form is what its text denotes, up to the numbers of its labels.
Of the classes that texts denote, exactly those in normal form are read back unchanged; and of those
that are assembled into a file, exactly those that the container can hold are loaded from it.

* `Method.Normal`, `Class.Normal` — what the text leaves out has its default.
* `Class.reread_eq_iff` — nothing but the numbers of labels is lost exactly for normal forms.
* **`Assembly.single_disassemble_normal`** — the text of a class in normal form.
* **`Assembly.single_again`** — which classes of texts are read back unchanged.
* **`Assembly.binary_loads`** — which assembled files can be loaded.
-/

namespace Suspension

/-! ## Normal forms -/

/-- **A method in normal form**: annotations of parameters are there only if there is one, and a method
without body has no more than room for its parameters. -/
@[mk_iff]
structure Method.Normal (m : Method) : Prop where
  annotated : m.paramAnnotations ≠ [] → ∃ names ∈ m.paramAnnotations, names ≠ []
  bodiless : m.hasBody = false → m.code = #[] ∧ m.ranges = [] ∧ m.localVars = [] ∧
    m.maxStack = 0 ∧ m.maxLocals = UInt32.ofNat (m.paramCount + m.receiverCount)

instance (m : Method) : Decidable m.Normal := decidable_of_iff _ (Method.normal_iff m).symm

/-- **A class in normal form**: only the root is without superclass. -/
@[mk_iff]
structure Class.Normal (c : Class) : Prop where
  super : c.super = [] → c.name = ClassName.object
  methods : ∀ m ∈ c.methods, m.Normal

instance (c : Class) : Decidable c.Normal := decidable_of_iff _ (Class.normal_iff c).symm

/-- Each method's labels by their places in its body. -/
def Class.renumbered (c : Class) : Class := { c with methods := c.methods.map Method.renumbered }

lemma Method.presentAnnotations_eq_iff (m : Method) : m.presentAnnotations = m.paramAnnotations ↔
    (m.paramAnnotations ≠ [] → ∃ names ∈ m.paramAnnotations, names ≠ []) := by
  unfold Method.presentAnnotations
  by_cases hall : m.paramAnnotations.all List.isEmpty = true
  · have hnone : ¬ ∃ names ∈ m.paramAnnotations, names ≠ [] := by
      rintro ⟨names, hmem, hne⟩
      exact hne (List.isEmpty_iff.mp (List.all_eq_true.mp hall names hmem))
    rw [if_pos hall]
    exact ⟨fun h hne => (hne h.symm).elim, fun h => by_contra fun hne => hnone (h (Ne.symm hne))⟩
  · have hsome : ∃ names ∈ m.paramAnnotations, names ≠ [] := by simpa using hall
    rw [if_neg hall]
    exact ⟨fun _ _ => hsome, fun _ => rfl⟩

/-- **Of a method, nothing but the numbers of its labels is lost** exactly if it is in normal form. -/
lemma Method.reread_eq_iff (m : Method) : m.reread = m.renumbered ↔ m.Normal := by
  unfold Method.reread
  by_cases hbody : m.hasBody = true
  · rw [if_pos hbody]
    constructor
    · intro h
      exact ⟨m.presentAnnotations_eq_iff.mp (congrArg Method.paramAnnotations h), by simp [hbody]⟩
    · intro h
      rw [m.presentAnnotations_eq_iff.mpr h.annotated]
      rfl
  · rw [if_neg hbody]
    have hnone : m.hasBody = false := by simpa using hbody
    constructor
    · intro h
      refine ⟨m.presentAnnotations_eq_iff.mp (congrArg Method.paramAnnotations h), fun _ =>
        ⟨?_, ?_, ?_, (congrArg Method.maxStack h).symm, (congrArg Method.maxLocals h).symm⟩⟩
      · have hcode := congrArg Method.code h
        exact Array.map_eq_empty_iff.mp hcode.symm
      · have hranges := congrArg Method.ranges h
        exact List.map_eq_nil_iff.mp hranges.symm
      · have hvars := congrArg Method.localVars h
        exact List.map_eq_nil_iff.mp hvars.symm
    · intro h
      obtain ⟨hcode, hranges, hvars, hstack, hlocals⟩ := h.bodiless hnone
      rw [m.presentAnnotations_eq_iff.mpr h.annotated, ← hlocals, ← hstack, Method.renumbered,
        Assembly.relabel, hcode, hranges, hvars, Array.map_empty, List.map_nil, List.map_nil]

/-- **Of a class, nothing but the numbers of labels is lost** exactly if it is in normal form. -/
lemma Class.reread_eq_iff (c : Class) : c.reread = c.renumbered ↔ c.Normal := by
  have hmethods : c.methods.map Method.reread = c.methods.map Method.renumbered ↔
      ∀ m ∈ c.methods, m.Normal := by
    simp only [List.map_inj_left, Method.reread_eq_iff]
  have hsuper : c.reread.super = c.super ↔ (c.super = [] → c.name = ClassName.object) := by
    by_cases hempty : c.super = []
    · by_cases hname : c.name = ClassName.object
      · simp [Class.reread, hempty, hname]
      · have hroot : ClassName.object ≠ [] := by decide
        simp [Class.reread, hempty, hname, hroot]
    · simp [Class.reread, hempty]
  constructor
  · intro h
    have hkept : c.reread.super = c.renumbered.super := congrArg Class.super h
    exact ⟨hsuper.mp hkept, hmethods.mp (congrArg Class.methods h)⟩
  · intro h
    have hkept := hsuper.mpr h.super
    have hread : c.reread = { c with super := c.reread.super, methods := c.methods.map Method.reread } := rfl
    rw [hread, hkept, hmethods.mpr h.methods]
    rfl

lemma eq_ok_of_toOption {ε α : Type} {x : Except ε α} {a : α} (h : x.toOption = some a) : x = .ok a := by
  cases x with
  | error e => cases h
  | ok b => exact congrArg Except.ok (Option.some.inj h)

namespace Assembly

/-! ## Texts -/

/-- **The text of a class in normal form** is read as the class with its labels numbered in order of
definition. -/
theorem single_disassemble_normal (c : Class) (h : c.Writable) (hnormal : c.Normal) :
    single (disassemble c) = .ok c.renumbered := by
  rw [single_disassemble h, c.reread_eq_iff.mpr hnormal]

/-- A class with labels in no order, a switch, a constant that needs all its digits, an annotated
parameter, names that need escapes, and a method without body. -/
def scattered : Class where
  name := "t/\"Scattered\""
  super := "core/Object"
  flags := Flag.publicBit ||| Flag.abstractBit
  interfaces := ["coro/SuspendableRunnable"]
  annotations := ["note/é"]
  fields := [⟨[0xff, 0x0a], "J", Flag.staticBit⟩]
  methods := [{
    name := "run", desc := "(II)V", throws := ["coro/SuspendExecution"], maxLocals := 3, maxStack := 2
    paramAnnotations := [[], ["note/Param"]]
    code := #[.mark 9, .slot (.load .int) 1, ⟨.tableSwitch, .table (-1) [9, 4294967295] 4⟩,
      .mark 4294967295, ⟨.const .double, .double 0x3fb999999999999a⟩, .plain .pop,
      ⟨.increment, .increment 1 (-2147483648)⟩, .mark 4, .plain .returnVoid]
    ranges := [⟨"", 9, 4294967295, 4⟩, ⟨"core/Error", 4294967295, 4, 9⟩]
    localVars := [⟨"i", "I", 9, 4, 1⟩] },
    { name := "size", desc := "(J)I", flags := Flag.abstractBit, maxLocals := 2 }]

theorem scattered_disassembled :
    scattered.Writable ∧ scattered.Normal ∧ single (disassemble scattered) = .ok scattered.renumbered ∧
      scattered.renumbered.methods.map (fun m => m.code.marks) = [[0, 1, 2], []] :=
  have hwritable : scattered.Writable := by decide +kernel
  have hnormal : scattered.Normal := by decide +kernel
  ⟨hwritable, hnormal, single_disassemble_normal scattered hwritable hnormal, by decide +kernel⟩

lemma ClassSound.writable {c : Class} (h : ClassSound c) : c.Writable :=
  ⟨h.flags, h.fields, fun m hm => (h.methods m hm).1⟩

lemma ClassSound.renumbered {c : Class} (h : ClassSound c) : c.renumbered = c := by
  have hmethods : c.methods.map Method.renumbered = c.methods :=
    (List.map_congr_left fun m hm => (h.methods m hm).2).trans (List.map_id c.methods)
  rw [Class.renumbered, hmethods]

/-- **A class that a text denotes is read back unchanged** exactly if it is in normal form. -/
theorem single_again (src : Text) (c : Class) (h : single src = .ok c) :
    single (disassemble c) = .ok c ↔ c.Normal := by
  have hsound := single_sound h
  rw [single_disassemble hsound.writable, ← c.reread_eq_iff, hsound.renumbered]
  exact ⟨Except.ok.inj, congrArg Except.ok⟩

/-- A body whose labels are mentioned before they are defined. -/
def guarded : Class where
  name := "A"
  super := "core/Object"
  methods := [{
    name := "m", desc := "()V", flags := Flag.staticBit, maxStack := 1
    code := #[.mark 0, .plain .nop, .mark 1, .plain .returnVoid, .mark 2, .plain .pop, .jump .goto 1]
    ranges := [⟨"core/Error", 0, 1, 2⟩] }]

/-- A text of this class. -/
def guardedText : Text := Text.ofString
  "(class \"A\" (method \"m\" \"()V\" (catch $a $b $c \"core/Error\") (flags static)
    (code $a: nop $b: return $c: pop goto $b)))"

theorem guarded_again :
    single guardedText = .ok guarded ∧ (single (disassemble guarded) = .ok guarded ↔ guarded.Normal) ∧
      guarded.Normal :=
  have hsingle : single guardedText = .ok guarded := eq_ok_of_toOption (by decide +kernel)
  ⟨hsingle, single_again guardedText guarded hsingle, by decide +kernel⟩

/-- A method without body that declares five locals. -/
def roomy : Class where
  name := "A"
  super := "core/Object"
  methods := [{ name := "m", desc := "()V", flags := Flag.abstractBit, maxLocals := 5 }]

/-- Not every valid class of a text is read back: the text of a method without body does not tell its
locals. -/
theorem single_not_again :
    single (Text.ofString "(class \"A\" (method \"m\" \"()V\" (flags abstract) (locals 5)))") = .ok roomy ∧
      roomy.validate = .ok () ∧ single (disassemble roomy) ≠ .ok roomy := by
  refine ⟨eq_ok_of_toOption (by decide +kernel), by decide +kernel, fun h => ?_⟩
  have hread : (single (disassemble roomy)).toOption ≠ some roomy := by decide +kernel
  exact hread (congrArg Except.toOption h)

/-! ## Files -/

/-- **What is assembled is loaded** exactly if the container can hold it. -/
theorem binary_loads (src : Text) (data : Bytes) (h : binary src = .ok data) :
    ∃ c, single src = .ok c ∧ (Class.decodeValid data = .ok c ↔ c.Holdable) := by
  unfold binary at h
  split at h
  · cases h
  next c hsingle =>
  split at h
  · cases h
  next hvalid =>
  split at h
  · cases h
  next hdata =>
  cases h
  refine ⟨c, hsingle, fun hloads => ?_, fun hhold => ?_⟩
  · unfold Class.decodeValid at hloads
    split at hloads
    · cases hloads
    next hdecode =>
    split at hloads
    · cases hloads
    · cases hloads
      obtain ⟨-, -, ⟨hhold, -⟩, -⟩ := Class.reads_of_decode hdecode
      exact hhold
  · unfold Class.decodeValid
    simp only [hhold.decode_eq hdata, hvalid]

/-- A method that pops a text. -/
def popping (text : Text) : Class where
  name := "A"
  super := "core/Object"
  methods := [{
    name := "m", desc := "()V", flags := Flag.staticBit, maxStack := 1
    code := #[⟨.ldc, .text text⟩, .plain .pop, .plain .returnVoid] }]

/-- The same accented letter, as it is and by its bytes. -/
def accentedText : Text := Text.ofString
  "(class \"A\" (method \"m\" \"()V\" (flags static) (code ldc \"é\\xc3\\xa9\" pop return)))"

theorem accented_loads :
    ∃ data, binary accentedText = .ok data ∧
      (∃ c, single accentedText = .ok c ∧ (Class.decodeValid data = .ok c ↔ c.Holdable)) ∧
      single accentedText = .ok (popping "éé") ∧ (popping "éé").Holdable := by
  have hsome : (binary accentedText).toOption.isSome = true := by decide +kernel
  obtain ⟨data, hdata⟩ := Option.isSome_iff_exists.mp hsome
  have hbinary := eq_ok_of_toOption hdata
  exact ⟨data, hbinary, binary_loads accentedText data hbinary, eq_ok_of_toOption (by decide +kernel),
    by decide +kernel⟩

/-- A constant with a byte that begins no letter. -/
def strayText : Text := Text.ofString
  "(class \"A\" (method \"m\" \"()V\" (flags static) (code ldc \"\\xff\" pop return)))"

/-- Not everything that is assembled is loaded: a constant need not be well-formed to be written, but has
to be to be read. -/
theorem binary_not_loaded :
    single strayText = .ok (popping [0xff]) ∧ ∃ data, binary strayText = .ok data ∧
      Class.decodeValid data = .error (.malformed ⟨.invalidName, "method m()V: instruction 0", 43⟩) := by
  have hload : (binary strayText).toOption.map Class.decodeValid
      = some (.error (.malformed ⟨.invalidName, "method m()V: instruction 0", 43⟩)) := by
    decide +kernel
  obtain ⟨data, hdata, herror⟩ := Option.map_eq_some_iff.mp hload
  exact ⟨eq_ok_of_toOption (by decide +kernel), data, eq_ok_of_toOption hdata, herror⟩

end Assembly

end Suspension
