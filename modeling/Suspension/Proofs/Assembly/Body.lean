import Suspension.Proofs.Assembly.Numbering

/-!
# Bodies that are read back

**The code, the ranges and the names of locals** of a printed body are read as they are, with the numbers
of a table in place of the labels.

* `Operand.IsFinite` — the constants that have a literal.
* `Assembly.reads_operand`, `reads_round` — an instruction by its parts.
* `Assembly.readsUpTo_code` — the instructions of a body.
* `Assembly.reads_catch`, `reads_local` — a range, and the name of a local.
-/

namespace Suspension

/-- A constant that is neither an infinity nor a not-a-number. -/
def Operand.IsFinite : Operand → Prop
  | .float b => FloatFormat.single.IsFinite b.toNat
  | .double b => FloatFormat.double.IsFinite b.toNat
  | _ => True

instance : DecidablePred Operand.IsFinite
  | .float _ | .double _ => by unfold Operand.IsFinite; infer_instance
  | .none | .int _ | .long _ | .text _ | .slot _ | .increment _ _ | .label _ | .table _ _ _ | .member _
  | .type _ => inferInstanceAs (Decidable True)

/-- **An instruction that can be written**: an opcode of the set with its kind of operand. -/
@[mk_iff]
structure Instruction.Writable (i : Instruction) : Prop where
  kind : i.opcode.operandKind? = some i.operand.kind
  finite : i.operand.IsFinite

instance (i : Instruction) : Decidable i.Writable := decidable_of_iff _ (Instruction.writable_iff i).symm

lemma Instruction.Writable.isDefined {i : Instruction} (h : i.Writable) : i.opcode.isDefined = true := by
  have hkind := h.kind
  cases hop : i.opcode <;> first | rfl | (rw [hop] at hkind; cases hkind)

lemma Instruction.Writable.eq_mark {i : Instruction} (h : i.Writable) (hlabel : i.opcode = .label) :
    ∃ id, i = Instruction.mark id := by
  obtain ⟨op, o⟩ := i
  obtain ⟨hkind, -⟩ := h
  cases hlabel
  cases o <;> simp_all [Opcode.operandKind?, Operand.kind, Instruction.mark]

namespace Assembly

open Token

variable {scope ids ds : List Label} {t : LabelTable}

/-- An instruction with its labels exchanged. -/
def relabelInstruction (g : Label → Label) (i : Instruction) : Instruction :=
  { i with operand := relabelOperand g i.operand }

/-! ## Operands -/

/-- What stands behind the name of an instruction. -/
def operandText : Operand → Text
  | .none => []
  | .int v => Text.ofString " " ++ Text.ofInt v.toInt
  | .long v => Text.ofString " " ++ Text.ofInt v.toInt
  | .float b => Text.ofString " " ++ FloatFormat.single.general b.toNat
  | .double b => Text.ofString " " ++ FloatFormat.double.general b.toNat
  | .text s => Text.ofString " " ++ Quoted.encode s
  | .slot n => Text.ofString " " ++ Text.ofNat n.toNat
  | .increment n d =>
    (Text.ofString " " ++ Text.ofNat n.toNat) ++ (Text.ofString " " ++ Text.ofInt d.toInt)
  | .label id => Text.ofString " " ++ Instruction.labelName id
  | .table low labels default =>
    (Text.ofString " " ++ Text.ofInt low.toInt)
      ++ ((labels.flatMap (fun l => Text.ofString " " ++ Instruction.labelName l)
        ++ Text.ofString " default") ++ (Text.ofString " " ++ Instruction.labelName default))
  | .member m =>
    (Text.ofString " " ++ Quoted.encode m.owner) ++ ((Text.ofString " " ++ Quoted.encode m.name)
      ++ (Text.ofString " " ++ Quoted.encode m.desc))
  | .type s => Text.ofString " " ++ Quoted.encode s

lemma render_eq {i : Instruction} (hdefined : i.opcode.isDefined = true) (hlabel : i.opcode ≠ .label) :
    i.render = i.opcode.name ++ operandText i.operand := by
  obtain ⟨op, o⟩ := i
  have hname : Instruction.writtenName op = op.name := by
    cases op <;> first | rfl | cases hdefined
  have hne : (op == .label) = false := by simpa using hlabel
  have hdefault : Text.ofString " default " = Text.ofString " default" ++ Text.ofString " " := rfl
  cases o <;> simp only [Instruction.render, operandText, hname, hne, hdefault, List.append_assoc,
    List.append_nil, Bool.false_eq_true, if_false]

/-- The word behind the entries of a jump table. -/
lemma prints_default :
    Prints (Text.ofString " default") [(.ident, Text.ofString "default")] :=
  prints_ident (isIdent_of_isPlainWord (by decide : isPlainWord "default".toList = true))

/-- A label of a jump table, and the entries behind it. -/
def tableRound (n : Nat) (t : LabelTable) : Parse (List Label × LabelTable) := do
  let (id, t) ← labelRef t
  let (ids, t) ← tableEntries n t
  return (id :: ids, t)

lemma tableEntries_cons (n : Nat) (t : LabelTable) (tok : Token) (rest : List Token) :
    tableEntries (n + 1) t (tok :: rest)
      = if tok.kind == .ident && tok.value == Text.ofString "default" then .ok (([], t), rest)
        else tableRound n t (tok :: rest) := by
  have hround : tableEntries (n + 1) t (tok :: rest)
      = (if tok.kind == .ident && tok.value == Text.ofString "default" then do
          let _ ← next
          return ([], t)
        else tableRound n t : Parse (List Label × LabelTable)) (tok :: rest) := rfl
  rw [hround]
  split <;> rfl

/-- **The entries of a jump table.** -/
lemma reads_entries (h : t.Holds scope ids ds) {labels : List Label} (hscope : ∀ id ∈ labels, id ∈ scope) :
    Reads Anything (do tableEntries ((← get).length + 1) t)
      (labels.flatMap (fun l => Text.ofString " " ++ Instruction.labelName l)
        ++ Text.ofString " default") (Numbered scope ids ds fun g => labels.map g) := by
  let words (labels : List Label) : List Word :=
    labels.flatMap (fun l => [(.ident, Instruction.labelName l)]) ++ [(.ident, Text.ofString "default")]
  have hwords : ∀ labels, Prints (labels.flatMap (fun l => Text.ofString " " ++ Instruction.labelName l)
      ++ Text.ofString " default") (words labels) := fun labels =>
    (Prints.flatMap fun l _ => prints_reference l).append prints_default
  have hlength : (words labels).length = labels.length + 1 := by simp [words]
  have hall : ∀ n, labels.length < n → Takes Anything (tableEntries n t) (words labels)
      (Numbered scope ids ds fun g => labels.map g) := by
    clear hlength
    induction labels generalizing t ids with
    | nil =>
        intro n hn toks rest htoks _
        obtain ⟨n, rfl⟩ : ∃ k, n = k + 1 := ⟨n - 1, by simp at hn; omega⟩
        obtain ⟨tok, rfl, hword⟩ := List.map_eq_singleton_iff.mp htoks
        obtain ⟨hkind, hvalue⟩ := Prod.mk.inj hword
        refine ⟨([], t), ?_, Numbered.const h []⟩
        rw [List.singleton_append, tableEntries_cons, hkind, hvalue]
        rfl
    | cons id labels ih =>
        intro n hn
        obtain ⟨n, rfl⟩ : ∃ k, n = k + 1 := ⟨n - 1, by simp at hn; omega⟩
        have hrest : ∀ t' ids', t'.Holds scope ids' ds → Reads Anything (tableEntries n t') _
            (Numbered scope ids' ds fun g => labels.map g) := fun t' ids' h' =>
          ⟨_, hwords labels, ih h' (fun id' hid' => hscope id' (List.mem_cons_of_mem id hid')) n
            (by simp at hn; omega)⟩
        obtain ⟨ws, hws, htakes⟩ :=
          (reads_reference h (hscope id List.mem_cons_self)).numbered hrest List.cons
        obtain rfl := words_unique hws ((prints_reference id).append (hwords labels))
        intro toks rest htoks hafter
        obtain ⟨r, hr, hQ⟩ := htakes toks rest htoks hafter
        refine ⟨r, ?_, hQ⟩
        obtain ⟨tok, toks', rfl, hword, -⟩ := List.map_eq_cons_iff.mp htoks
        obtain ⟨hkind, hvalue⟩ := Prod.mk.inj hword
        have hname : Instruction.labelName id = 0x24 :: 0x4c :: Text.ofNat id.toNat := rfl
        have hother : (tok.kind == .ident && tok.value == Text.ofString "default") = false := by
          rw [hkind, hvalue, hname]
          rfl
        rw [List.cons_append, tableEntries_cons, hother, if_neg (by simp)]
        exact hr
  refine ⟨_, hwords labels, fun toks rest htoks hafter => ?_⟩
  refine hall ((toks ++ rest).length + 1) ?_ toks rest htoks hafter
  have := congrArg List.length htoks
  rw [List.length_map, hlength] at this
  rw [List.length_append]
  omega

/-- **The operand of an instruction.** -/
lemma reads_operand (h : t.Holds scope ids ds) {o : Operand} (hfinite : o.IsFinite)
    (hscope : ∀ op, ∀ id ∈ Code.mentioned ⟨op, o⟩, id ∈ scope) :
    Reads Anything (operand t o.kind) (operandText o)
      (Numbered scope ids ds fun g => relabelOperand g o) := by
  cases o with
  | none => exact Reads.pure (Numbered.const h _)
  | int v =>
      refine (reads_integer v.le_toInt v.toInt_lt).map ?_
      rintro _ rfl
      rw [Int32.ofInt_toInt]
      exact Numbered.const h _
  | long v =>
      refine (reads_integer v.le_toInt v.toInt_lt).map ?_
      rintro _ rfl
      rw [Int64.ofInt_toInt]
      exact Numbered.const h _
  | float b =>
      refine (reads_float FloatFormat.narrow_single hfinite).map ?_
      rintro _ rfl
      rw [UInt32.ofNat_toNat]
      exact Numbered.const h _
  | double b =>
      refine (reads_float FloatFormat.narrow_double hfinite).map ?_
      rintro _ rfl
      rw [UInt64.ofNat_toNat]
      exact Numbered.const h _
  | text s | type s =>
      refine (reads_string s).map ?_
      rintro _ rfl
      exact Numbered.const h _
  | slot n =>
      refine (reads_word n).map ?_
      rintro _ rfl
      exact Numbered.const h _
  | increment n d =>
      refine (reads_word n).bind ?_
      rintro _ rfl
      refine (reads_integer d.le_toInt d.toInt_lt).map ?_
      rintro _ rfl
      rw [Int32.ofInt_toInt]
      exact Numbered.const h _
  | label id =>
      exact (reads_reference h (hscope .goto id (by simp [Code.mentioned]))).map fun r hr =>
        hr.map Operand.label
  | table low labels default =>
      have hlabels : ∀ id ∈ labels, id ∈ scope := fun id hid =>
        hscope .tableSwitch id (by simp [Code.mentioned, hid])
      have hdefault : default ∈ scope := hscope .tableSwitch default (by simp [Code.mentioned])
      refine (reads_integer low.le_toInt low.toInt_lt).bind ?_
      rintro _ rfl
      have hboth := (reads_entries h hlabels).numbered
        (fun _ _ h' => reads_reference h' hdefault) (Operand.table (Int32.ofInt low.toInt))
      simp only [bind_assoc] at hboth
      refine hboth.mono fun r hr => ?_
      rwa [Int32.ofInt_toInt] at hr
  | member m =>
      refine (reads_string m.owner).bind ?_
      rintro _ rfl
      refine (reads_string m.name).bind ?_
      rintro _ rfl
      refine (reads_string m.desc).map ?_
      rintro _ rfl
      exact Numbered.const h _

/-! ## Instructions -/

lemma takes_next (w : Word) : Takes Anything next [w] fun tok => tok.word = w := by
  intro toks rest htoks _
  obtain ⟨tok, rfl, hword⟩ := List.map_eq_singleton_iff.mp htoks
  exact ⟨tok, rfl, hword⟩

/-- One round of the code: an instruction or the mark of a label. -/
def codeRound (t : LabelTable) : Parse (Instruction × LabelTable) := do
  let tok ← next
  match tok.kind with
  | .label =>
    match t.define tok.value tok.line with
    | .ok (id, t) => pure (Instruction.mark id, t)
    | .error e => throw e
  | .ident => instruction t tok
  | _ => throw (.instructionExpected tok.line tok.value)

lemma codeUpTo_succ (n : Nat) (t : LabelTable) : codeUpTo (n + 1) t = do
    if ← atClose then return ([], t) else
      let r ← codeRound t
      let (more, t) ← codeUpTo n r.2
      return (r.1 :: more, t) := by
  rw [codeUpTo]
  refine bind_congr fun closes => ?_
  cases closes with
  | true => rfl
  | false =>
      simp only [codeRound, bind_assoc]
      refine bind_congr fun tok => ?_
      cases tok.kind with
      | label => cases t.define tok.value tok.line <;> rfl
      | _ => rfl

/-- The blanks in front of an instruction. -/
def codeIndent (i : Instruction) : String := if i.isMark then "\n    " else "\n      "

lemma codeLine_eq (i : Instruction) :
    codeLine i = Text.ofString (codeIndent i) ++ (Text.ofString " " ++ i.render) := by
  unfold codeLine codeIndent
  rw [← List.append_assoc]
  split <;> rfl

lemma prints_indent (i : Instruction) : Prints (Text.ofString (codeIndent i)) [] := by
  unfold codeIndent
  split <;> exact prints_blank (by decide)

/-- **An instruction behind its name.** -/
lemma reads_instruction (h : t.Holds scope ids ds) {i : Instruction} (hi : i.Writable)
    (hlabel : i.opcode ≠ .label) (hscope : ∀ id ∈ Code.mentioned i, id ∈ scope) {tok : Token}
    (htok : tok.value = i.opcode.name) :
    Reads Anything (instruction t tok) (operandText i.operand)
      (Numbered scope ids ds fun g => relabelInstruction g i) := by
  have hmnemonic : Opcode.ofMnemonic? tok.value = some i.opcode := by
    rw [htok]
    exact (mnemonics _ (mem_all hi.isDefined)).1
  obtain ⟨q, hq, hround⟩ : ∃ q : Parse (Instruction × LabelTable),
      (∀ toks r rest, operand t i.operand.kind toks = .ok (r, rest) →
        q toks = .ok ((⟨i.opcode, r.1⟩, r.2), rest)) ∧ instruction t tok = q := by
    have hkind : i.opcode.operandKind?.getD .none = i.operand.kind := by rw [hi.kind]; rfl
    unfold instruction
    rw [hmnemonic, ← hkind]
    split
    · next heq => cases heq
    · next heq => exact absurd (Option.some.inj heq) hlabel
    · next heq =>
        cases heq
        refine ⟨_, ?_, rfl⟩
        intro toks r rest hr
        simp only [hr]
  obtain ⟨ws, hws, htakes⟩ := reads_operand h hi.finite (o := i.operand) fun _ => hscope
  refine ⟨ws, hws, fun toks rest htoks hafter => ?_⟩
  obtain ⟨r, hr, hQ⟩ := htakes toks rest htoks hafter
  refine ⟨(⟨i.opcode, r.1⟩, r.2), by rw [hround]; exact hq _ _ _ hr, ?_⟩
  exact hQ.map fun v => (⟨i.opcode, v⟩ : Instruction)

/-- **One round of the code.** -/
lemma reads_round (h : t.Holds scope ids ds) {i : Instruction} (hi : i.Writable)
    (hscope : ∀ id ∈ Code.mentioned i, id ∈ scope) (hnew : ∀ id, i.markedLabel? = some id → id ∉ ds) :
    Reads Anything (codeRound t) (codeLine i)
      (Numbered scope ids (ds ++ i.markedLabel?.toList) fun g => relabelInstruction g i) := by
  rw [codeLine_eq]
  by_cases hlabel : i.opcode = .label
  · obtain ⟨id, rfl⟩ := hi.eq_mark hlabel
    have hid : id ∈ scope := hscope id (by simp [Code.mentioned, Instruction.mark])
    have hdef : id ∉ ds := hnew id rfl
    refine ⟨_, (prints_indent _).append (prints_definition id), fun toks rest htoks hafter => ?_⟩
    obtain ⟨tok, htok, hword⟩ := takes_next _ toks rest htoks hafter
    obtain ⟨hkind, hvalue⟩ := Prod.mk.inj hword
    obtain ⟨ids', t', hpre, hdefine, hmem, hholds⟩ := h.define hid hdef tok.line
    refine ⟨(Instruction.mark (placeIn ids' id), t'), ?_, ids', hpre, hholds, fun ids'' hpre'' => ?_⟩
    · rw [codeRound, run_bind htok, hkind, hvalue]
      simp only [hdefine]
      rfl
    · simp only [relabelInstruction, relabelOperand, Instruction.mark, placeIn_of_initial hpre'' hmem]
  · have hmark : i.markedLabel? = none := by
      unfold Instruction.markedLabel?
      split
      · next heq _ => exact absurd heq hlabel
      · rfl
    rw [render_eq hi.isDefined hlabel, ← List.append_assoc, ← List.append_assoc, hmark,
      Option.toList_none, List.append_nil]
    have hname := prints_name hi.isDefined
    refine Reads.bind (Q := fun tok => tok.word = (.ident, i.opcode.name))
      ⟨_, ?_, takes_next _⟩ fun tok hword => ?_
    · rw [List.append_assoc]
      exact (prints_indent i).append hname
    · obtain ⟨hkind, hvalue⟩ := Prod.mk.inj hword
      simp only [hkind]
      exact reads_instruction h hi hlabel hscope hvalue

lemma begins_codeLine (h : t.Holds scope ids ds) {i : Instruction} (hi : i.Writable)
    (hscope : ∀ id ∈ Code.mentioned i, id ∈ scope) : ∃ kind, kind ≠ .close ∧ Begins kind (codeLine i) := by
  rw [codeLine_eq]
  by_cases hlabel : i.opcode = .label
  · obtain ⟨id, rfl⟩ := hi.eq_mark hlabel
    exact ⟨.label, by decide, _, _, (prints_indent _).append (prints_definition id)⟩
  · obtain ⟨ws, hws, -⟩ := reads_operand h hi.finite (o := i.operand) fun _ => hscope
    rw [render_eq hi.isDefined hlabel, ← List.append_assoc (Text.ofString " ")]
    exact ⟨.ident, by decide, _, _, (prints_indent i).append ((prints_name hi.isDefined).append hws)⟩

/-- **The instructions of a body.** -/
lemma readsUpTo_code (h : t.Holds scope ids ds) {instrs : List Instruction}
    (hinstrs : ∀ i ∈ instrs, i.Writable) (hscope : ∀ i ∈ instrs, ∀ id ∈ Code.mentioned i, id ∈ scope)
    (hnodup : (ds ++ instrs.filterMap Instruction.markedLabel?).Nodup) :
    ReadsUpTo (fun n => codeUpTo n t) (instrs.flatMap codeLine)
      (Numbered scope ids (ds ++ instrs.filterMap Instruction.markedLabel?)
        fun g => instrs.map (relabelInstruction g)) := by
  induction instrs generalizing t ids ds with
  | nil =>
      rw [List.filterMap_nil, List.append_nil]
      exact .stop rfl (fun n => codeUpTo_succ n t) (Numbered.const h [])
  | cons i instrs ih =>
      have hi := hinstrs i List.mem_cons_self
      have hmarks : ds ++ (i :: instrs).filterMap Instruction.markedLabel?
          = ds ++ i.markedLabel?.toList ++ instrs.filterMap Instruction.markedLabel? := by
        rw [List.filterMap_cons]
        cases i.markedLabel? <;> simp
      rw [hmarks] at hnodup ⊢
      have hnew : ∀ id, i.markedLabel? = some id → id ∉ ds := by
        intro id hid hmem
        rw [hid, Option.toList_some, List.append_assoc, List.singleton_append] at hnodup
        exact (List.nodup_append.mp hnodup).2.2 id hmem id List.mem_cons_self rfl
      have hround := reads_round h hi (hscope i List.mem_cons_self) hnew
      obtain ⟨kind, hkind, hbegins⟩ := begins_codeLine h hi (hscope i List.mem_cons_self)
      refine .step (fun n => codeUpTo_succ n t) hkind hbegins hround ?_
      intro r hr
      obtain ⟨ids', hpre, hholds, hr⟩ := hr
      refine (ih hholds (fun j hj => hinstrs j (List.mem_cons_of_mem i hj))
        (fun j hj => hscope j (List.mem_cons_of_mem i hj)) hnodup).map fun r' hr' => ?_
      exact hr'.combine hpre hr List.cons

/-! ## Ranges and names of locals -/

/-- A range with its labels exchanged. -/
def relabelRange (g : Label → Label) (r : ExceptionRange) : ExceptionRange :=
  { r with start := g r.start, stop := g r.stop, handler := g r.handler }

/-- A name of a local with its labels exchanged. -/
def relabelVar (g : Label → Label) (v : LocalVar) : LocalVar :=
  { v with start := g v.start, stop := g v.stop }

lemma catchLine_eq (r : ExceptionRange) : catchLine r = formText "\n    " "catch"
    ((Text.ofString " " ++ Instruction.labelName r.start)
      ++ ((Text.ofString " " ++ Instruction.labelName r.stop)
      ++ ((Text.ofString " " ++ Instruction.labelName r.handler)
      ++ (Text.ofString " " ++ (if r.type.isEmpty then Text.ofString "any" else Quoted.encode r.type))))) := by
  have hopen : Text.ofString "\n    (catch " = Text.ofString "\n    " ++ (Text.ofString "("
      ++ (Text.ofString "catch" ++ Text.ofString " ")) := rfl
  simp only [catchLine, formText, hopen, List.append_assoc]

lemma localLine_eq (v : LocalVar) : localLine v = formText "\n    " "local"
    ((Text.ofString " " ++ Quoted.encode v.name) ++ ((Text.ofString " " ++ Quoted.encode v.desc)
      ++ ((Text.ofString " " ++ Instruction.labelName v.start)
      ++ ((Text.ofString " " ++ Instruction.labelName v.stop)
      ++ (Text.ofString " " ++ Text.ofNat v.index.toNat))))) := by
  have hopen : Text.ofString "\n    (local " = Text.ofString "\n    " ++ (Text.ofString "("
      ++ (Text.ofString "local" ++ Text.ofString " ")) := rfl
  simp only [localLine, formText, hopen, List.append_assoc]

/-- What a range catches. -/
lemma reads_catchType {α : Type} (type : Text) (f : Text → α) : Reads Anything (do
      let t ← next
      if t.kind == .string then return f t.value
      if t.kind == .ident && t.value == Text.ofString "any" then return f []
      throw (.catchTypeExpected t.line t.value))
      (Text.ofString " " ++ (if type.isEmpty then Text.ofString "any" else Quoted.encode type))
      fun a => a = f type := by
  split
  · next hempty =>
      obtain rfl : type = [] := List.isEmpty_iff.mp hempty
      have hany : Prints (Text.ofString " any") [(.ident, Text.ofString "any")] :=
        prints_ident (isIdent_of_isPlainWord (by decide : isPlainWord "any".toList = true))
      refine ⟨_, hany, fun toks rest htoks hafter => ⟨f [], ?_, rfl⟩⟩
      obtain ⟨tok, htok, hword⟩ := takes_next _ toks rest htoks hafter
      obtain ⟨hkind, hvalue⟩ := Prod.mk.inj hword
      rw [run_bind htok, hkind, hvalue]
      rfl
  · refine ⟨_, prints_string type, fun toks rest htoks hafter => ⟨f type, ?_, rfl⟩⟩
    obtain ⟨tok, htok, hword⟩ := takes_next _ toks rest htoks hafter
    obtain ⟨hkind, hvalue⟩ := Prod.mk.inj hword
    rw [run_bind htok, hkind, hvalue]
    rfl

/-- **A range.** -/
lemma reads_catch (h : t.Holds scope ids ds) {r : ExceptionRange}
    (hscope : ∀ id ∈ Code.rangeLabels r, id ∈ scope) :
    Reads Anything (catchForm t) ((Text.ofString " " ++ Instruction.labelName r.start)
      ++ ((Text.ofString " " ++ Instruction.labelName r.stop)
      ++ ((Text.ofString " " ++ Instruction.labelName r.handler)
      ++ (Text.ofString " " ++ (if r.type.isEmpty then Text.ofString "any" else Quoted.encode r.type)))))
      (Numbered scope ids ds fun g => relabelRange g r) := by
  refine (reads_reference h (hscope r.start (by simp [Code.rangeLabels]))).bind fun start hstart => ?_
  obtain ⟨ids₁, hpre₁, h₁, hstart⟩ := hstart
  refine (reads_reference h₁ (hscope r.stop (by simp [Code.rangeLabels]))).bind fun stop hstop => ?_
  obtain ⟨ids₂, hpre₂, h₂, hstop⟩ := hstop
  refine (reads_reference h₂ (hscope r.handler (by simp [Code.rangeLabels]))).bind
    fun handler hhandler => ?_
  obtain ⟨ids₃, hpre₃, h₃, hhandler⟩ := hhandler
  refine (reads_catchType r.type fun type =>
    ((⟨type, start.1, stop.1, handler.1⟩ : ExceptionRange), handler.2)).mono ?_
  rintro _ rfl
  refine ⟨ids₃, hpre₁.trans (hpre₂.trans hpre₃), h₃, fun ids₄ hpre₄ => ?_⟩
  simp only [relabelRange]
  rw [hstart ids₄ (hpre₂.trans (hpre₃.trans hpre₄)), hstop ids₄ (hpre₃.trans hpre₄),
    hhandler ids₄ hpre₄]

/-- **The name of a local.** -/
lemma reads_local (h : t.Holds scope ids ds) {v : LocalVar} (hstart : v.start ∈ scope)
    (hstop : v.stop ∈ scope) :
    Reads Anything (localForm t)
      ((Text.ofString " " ++ Quoted.encode v.name) ++ ((Text.ofString " " ++ Quoted.encode v.desc)
      ++ ((Text.ofString " " ++ Instruction.labelName v.start)
      ++ ((Text.ofString " " ++ Instruction.labelName v.stop)
      ++ (Text.ofString " " ++ Text.ofNat v.index.toNat)))))
      (Numbered scope ids ds fun g => relabelVar g v) := by
  refine (reads_string v.name).bind ?_
  rintro _ rfl
  refine (reads_string v.desc).bind ?_
  rintro _ rfl
  refine (reads_reference h hstart).bind fun start hstart => ?_
  obtain ⟨ids₁, hpre₁, h₁, hstart⟩ := hstart
  refine (reads_reference h₁ hstop).bind fun stop hstop => ?_
  obtain ⟨ids₂, hpre₂, h₂, hstop⟩ := hstop
  refine (reads_word v.index).map ?_
  rintro _ rfl
  refine ⟨ids₂, hpre₁.trans hpre₂, h₂, fun ids₃ hpre₃ => ?_⟩
  simp only [relabelVar]
  rw [hstart ids₃ (hpre₂.trans hpre₃), hstop ids₃ hpre₃]

end Assembly

end Suspension
