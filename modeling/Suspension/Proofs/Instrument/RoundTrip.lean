import Suspension.Proofs.FrameStack.Nesting
import Suspension.Proofs.Instrument.Saving

/-!
# Saving a frame and restoring it

What the code of a suspension point saves is what it restores.  **Saving puts every slot of the record
once and touches no other record; restoring the record, at once or in a new activation, brings back the
operand stack and all locals that matter**, whatever the shape of the frame: nulls are made anew,
constructions that are redone later are not on the stack, and locals that hold nothing are left alone.

* `FrameStack.Op.objectSlot?`, `FrameStack.Op.primSlot?` — the slot that an operation puts a value in.
* `SuspensionPoint.Writes` — operations that put every slot of a record once.
* `Subject.point_restores` — saving and then restoring the frame of a point.
* `Subject.point_misrestores` — frames that are too large for it, and operands that are unusable.
-/

namespace Suspension

/-! ## The slots that are written -/

namespace FrameStack.Op

/-- The object slot that an operation puts a value in. -/
def objectSlot? : Op Value → Option Int
  | .setObject slot _ => some slot
  | _ => none

/-- The primitive slot that an operation puts a value in. -/
def primSlot? : Op Value → Option Int
  | .setInt slot _ | .setLong slot _ | .setFloat slot _ | .setDouble slot _ => some slot
  | _ => none

/-- Saving a value puts it in one slot. -/
lemma slots_saveOp {k : Kind} {slot : Int} {v : Value} {op : Op Value}
    (h : Native.saveOp k slot v = some op) :
    op.objectSlot? = (if k = .ref then some slot else none)
      ∧ op.primSlot? = if k = .ref then none else some slot := by
  unfold Native.saveOp at h
  split at h <;> cases h <;> exact ⟨rfl, rfl⟩

end FrameStack.Op

namespace SuspensionPoint

/-- **Operations that write a record**: each of them saves a value, and every object slot and every
primitive slot of the record is put once. -/
structure Writes (pt : SuspensionPoint) (ops : List (FrameStack.Op Value)) : Prop where
  saves : ∀ op ∈ ops, ∃ k slot v, Native.saveOp k slot v = some op
  objects : (ops.filterMap FrameStack.Op.objectSlot?).Perm
    ((List.range pt.plan.counts.objects).map Int.ofNat)
  prims : (ops.filterMap FrameStack.Op.primSlot?).Perm
    ((List.range pt.plan.counts.prims).map Int.ofNat)

variable {inst : Value → Text → Prop} {sub : Subject} {pt : SuspensionPoint}
  {stack locals : List FilledSlot}

/-- A slot is written where its plan has it kept. -/
lemma Filled.write_eq (h : pt.Filled inst stack locals) (hf : pt.LaidOut sub) {e : FilledSlot}
    (he : e ∈ stack ++ locals) :
    e.write.filterMap FrameStack.Op.objectSlot?
        = ((SlotPlan.objectSlot? e.slot).map Int.ofNat).toList
      ∧ e.write.filterMap FrameStack.Op.primSlot?
        = ((SlotPlan.primSlot? e.slot).map Int.ofNat).toList := by
  have hmem : (e.type, e.keep) ∈ pt.plan.stack ++ pt.plan.locals := h.slot_mem he
  have hput : ∀ {k : Kind} {i : Nat}, e.place? = some (k, i) →
      e.write.filterMap FrameStack.Op.objectSlot?
          = (if k = .ref then some (i : Int) else none).toList
        ∧ e.write.filterMap FrameStack.Op.primSlot?
          = (if k = .ref then none else some (i : Int)).toList := by
    intro k i hp
    obtain ⟨op, hop⟩ := Running.saveOp_isSome (h.kind hf he hp).2 i
    have hwrite : e.write = [op] := by simp [FilledSlot.write, hp, hop]
    obtain ⟨hobject, hprim⟩ := FrameStack.Op.slots_saveOp hop
    rw [hwrite, ← hobject, ← hprim]
    constructor
    · cases hslot : op.objectSlot? <;> simp [hslot]
    · cases hslot : op.primSlot? <;> simp [hslot]
  cases hkeep : e.keep with
  | nothing | deferred =>
      have hp : e.place? = none := by simp [FilledSlot.place?, Emit.place?, hkeep]
      simp [FilledSlot.write, hp, SlotPlan.objectSlot?, SlotPlan.primSlot?, FilledSlot.slot, hkeep]
  | object i =>
      have hp : e.place? = some (.ref, i) := by simp [FilledSlot.place?, Emit.place?, hkeep]
      simpa [SlotPlan.objectSlot?, SlotPlan.primSlot?, FilledSlot.slot, hkeep] using hput hp
  | prim i =>
      rw [hkeep] at hmem
      obtain ⟨k, hk, href⟩ := hf.placing.kind_of_prim hmem
      have hp : e.place? = some (k, i) := by simp [FilledSlot.place?, Emit.place?, hkeep, hk]
      simpa [SlotPlan.objectSlot?, SlotPlan.primSlot?, FilledSlot.slot, hkeep, href] using hput hp

/-- **Saving the slots of a point writes its record.** -/
lemma Filled.writes (h : pt.Filled inst stack locals) (hf : pt.LaidOut sub) :
    pt.Writes ((stack ++ locals).flatMap FilledSlot.write) := by
  obtain ⟨hobjects, hprims⟩ := hf.placing.slots_eq
  have hperm : ((stack ++ locals).map FilledSlot.slot).Perm (pt.plan.stack ++ pt.plan.locals) := by
    rw [List.map_append, h.stack_eq, h.locals_eq]
    exact (List.reverse_perm pt.plan.stack).append_right pt.plan.locals
  have hslots : ∀ {f : FrameStack.Op Value → Option Int} {g : SlotType × Keep → Option Nat},
      (∀ e ∈ stack ++ locals, e.write.filterMap f = ((g e.slot).map Int.ofNat).toList) →
      (((stack ++ locals).flatMap FilledSlot.write).filterMap f).Perm
        (((pt.plan.stack ++ pt.plan.locals).filterMap g).map Int.ofNat) := by
    intro f g hfg
    have heq : ((stack ++ locals).flatMap FilledSlot.write).filterMap f
        = (((stack ++ locals).map FilledSlot.slot).filterMap g).map Int.ofNat := by
      rw [List.filterMap_flatMap, List.map_filterMap, List.filterMap_map,
        List.filterMap_eq_flatMap_toList]
      exact List.flatMap_congr fun e he => hfg e he
    rw [heq]
    exact (hperm.filterMap g).map Int.ofNat
  refine ⟨fun op hop => ?_, ?_, ?_⟩
  · obtain ⟨e, he, hop⟩ := List.mem_flatMap.mp hop
    unfold FilledSlot.write at hop
    split at hop
    · exact ⟨_, _, _, Option.mem_toList.mp hop⟩
    · cases hop
  · have := hslots fun e he => (h.write_eq hf he).1
    rw [hobjects, Nat.sub_zero, ← List.range_eq_range'] at this
    exact this
  · have := hslots fun e he => (h.write_eq hf he).2
    rw [hprims, Nat.sub_zero, ← List.range_eq_range'] at this
    exact this

end SuspensionPoint

/-! ## The other records -/

lemma FilledSlot.recordAt_putIn {s : FrameStack Value} {e : FilledSlot} {i : Nat}
    (hi : i ≠ s.depth - 1) : (e.putIn s).recordAt i = s.recordAt i := by
  unfold FilledSlot.putIn
  split
  · exact FrameStack.recordAt_setCurrent_of_ne _ hi
  · rfl

lemma FilledSlot.recordAt_putAll {s : FrameStack Value} {l : List FilledSlot} {i : Nat}
    (hi : i ≠ s.depth - 1) : (putAll s l).recordAt i = s.recordAt i := by
  induction l generalizing s with
  | nil => rfl
  | cons e l ih =>
      rw [putAll_cons, ih (by rw [depth_putIn]; exact hi), recordAt_putIn hi]

/-- **Saving touches no other record.** -/
lemma Running.recordAt_saved {pt : SuspensionPoint} {s : FrameStack Value} {slots : List FilledSlot}
    {i : Nat} (hi : i ≠ s.depth - 1) : (saved pt s slots).recordAt i = s.recordAt i := by
  unfold saved
  rw [FilledSlot.recordAt_putAll (by simpa using hi), FrameStack.recordAt_setCurrent_of_ne _ hi]

/-! ## Saving and restoring -/

namespace SuspensionPoint.Filled

variable {inst : Value → Text → Prop} {sub : Subject} {pt : SuspensionPoint}
  {stack locals : List FilledSlot}

/-- What is pushed when a frame is restored is what was on the operand stack, if that was usable. -/
lemma pushed_eq (h : pt.Filled inst stack locals) (hf : pt.LaidOut sub)
    (husable : ∀ t ∈ pt.frame.stack.filter fun t => !sub.isDeferred t, t ≠ .unusable) :
    stack.flatMap FilledSlot.pushed = stack.flatMap FilledSlot.operand := by
  refine List.flatMap_congr fun e he => ?_
  unfold FilledSlot.pushed FilledSlot.operand
  by_cases hkeep : e.keep = .deferred
  · simp [hkeep]
  · have hmem : e.slot ∈ pt.plan.stack.reverse := h.stack_eq ▸ List.mem_map_of_mem he
    have htype : e.type ≠ .unusable := by
      refine husable e.type ?_
      rw [← hf.operands_eq]
      exact List.mem_map.mpr ⟨e.slot, List.mem_filter.mpr ⟨hmem, decide_eq_true hkeep⟩, rfl⟩
    simp [hkeep, htype]

end SuspensionPoint.Filled

lemma FilledSlot.read_eq {e : FilledSlot} {op : FrameStack.Op Value} (h : op ∈ e.read) :
    ∃ k slot, op = Native.restoreOp k slot := by
  unfold FilledSlot.read at h
  split at h
  · cases h
  · split at h
    · exact ⟨_, _, List.mem_singleton.mp h⟩
    · cases h

/-- **Saving the frame of a point and restoring it is the identity.**  Let the code that saves a frame
stand anywhere in a method, and let operand stack and locals hold what the frame of the point says, by any
account of which references are instances of which class; constructions that are redone later are not on
the operand stack.  Then the code runs to its end and leaves an empty operand stack, and a record with the
entry of the point in which every slot has been put once; depth, room and all other records of the frame
stack are as before.  From there on, whenever that record is the current one, in this activation or in
another one, the code that restores the frame runs to its end, with no more than fetching: it leaves the
very values on the operand stack that were there, and in every local the value it had, except for the
receiver, for locals that hold nothing and for those that are not of the frame, which it does not touch.
The numbers of a point are immediates of its code, and have to be below 2³¹. -/
theorem Subject.point_restores {inst : Value → Text → Prop} {S : Surroundings} {sub : Subject}
    {position entry : Nat} {call : Instruction} {f : Frame} {isYield : Bool} {pt : SuspensionPoint}
    (hpt : sub.point position entry call f isYield = pt) (hentry : entry < 2147483648)
    (hslots : pt.plan.counts.objects < 2147483648 ∧ pt.plan.counts.prims < 2147483648)
    (hwidth : f.locals.size ≤ sub.method.maxLocals.toNat) {nm : Method} {q : Nat}
    (hsave : nm.code.Has q (Emit.save sub.method.maxLocals pt)) {L : Array Value} {vs : List Value}
    {s : FrameStack Value} (hhandle : L[sub.method.maxLocals.toNat]? = some (.object S.handle))
    (hs : Running.Entered s)
    (hoperands : List.Forall₂ (SlotType.Admits inst) (f.stack.filter fun t => !sub.isDeferred t) vs)
    (hlocals : ∀ (l : Nat) (t : SlotType), f.locals[l]? = some t →
      ∃ v, L[l]? = some v ∧ t.Allows inst v) :
    ∃ s' writes,
      Running.Works inst S nm q (q + (Emit.save sub.method.maxLocals pt).length) ⟨⟨q, L, vs⟩, s⟩
        (.push entry pt.plan.counts.objects pt.plan.counts.prims :: writes)
        ⟨⟨q + (Emit.save sub.method.maxLocals pt).length, L, []⟩, s'⟩
      ∧ pt.Writes writes
      ∧ (Running.Entered s' ∧ s'.topRecord.entry = entry
        ∧ s'.topRecord.objects.size = pt.plan.counts.objects
        ∧ s'.topRecord.prims.size = pt.plan.counts.prims)
      ∧ (s'.depth = s.depth ∧ s'.room = s.room
        ∧ ∀ i, i ≠ s.depth - 1 → s'.recordAt i = s.recordAt i)
      ∧ ∀ (q' : Nat) (L' : Array Value) (s'' : FrameStack Value),
        nm.code.Has q' (Emit.restore sub.method.maxLocals sub.firstLocal pt) →
        L'[sub.method.maxLocals.toNat]? = some (.object S.handle) →
        Running.Entered s'' → s''.topRecord = s'.topRecord →
        ∃ L'' reads,
          Running.Works inst S nm q'
            (q' + (Emit.restore sub.method.maxLocals sub.firstLocal pt).length) ⟨⟨q', L', []⟩, s''⟩ reads
            ⟨⟨q' + (Emit.restore sub.method.maxLocals sub.firstLocal pt).length, L'', vs⟩, s''⟩
          ∧ (∀ op ∈ reads, ∃ k slot, op = Native.restoreOp k slot)
          ∧ (∀ (l : Nat) (t : SlotType), f.locals[l]? = some t → t ≠ .unusable →
              sub.firstLocal ≤ l → L''[l]? = L[l]?)
          ∧ ∀ l, l < sub.firstLocal ∨ f.locals[l]? = some .unusable ∨ f.locals.size ≤ l →
              L''[l]? = L'[l]? := by
  have hf : pt.LaidOut sub := hpt ▸ sub.point_laidOut position entry call f isYield
  obtain rfl : pt.frame = f := by rw [← hpt]; rfl
  obtain rfl : pt.entry = entry := by rw [← hpt]; rfl
  have hallows : List.Forall₂ (SlotType.Allows inst)
      (pt.frame.stack.filter fun t => !sub.isDeferred t) vs :=
    hoperands.imp fun _ _ => SlotType.Admits.allows
  have husable : ∀ t ∈ pt.frame.stack.filter fun t => !sub.isDeferred t, t ≠ .unusable :=
    ((List.forall₂_and_left _ _).mp (hoperands.imp fun t v h => ⟨h.usable, h⟩)).1
  obtain ⟨stack, locals, hfilled, rfl, hvalues⟩ := hf.exists_filled hallows hlocals
  have hlen : pt.plan.locals.length = pt.frame.locals.size := hf.length_locals
  have hlt := sub.method.maxLocals.toNat_lt
  have hdoes : Running.Does inst S nm _ _ ⟨L, _ ++ [], s⟩ _ :=
    Running.does_save hf hfilled hslots hentry (by omega) hhandle hs hvalues
  rw [List.append_nil] at hdoes
  have hsaved := Running.savedIn_saved (s := s) hf hfilled hslots
  refine ⟨Running.saved pt s (stack ++ locals), _, hdoes q hsave, hfilled.writes hf,
    ⟨hs.saved _, hsaved.entry, ?_, ?_⟩, ⟨Running.depth_saved _, Running.room_saved _,
      fun i hi => Running.recordAt_saved hi⟩, fun q' L' s'' hrestore hhandle' hs'' htop => ?_⟩
  · have hroom : (Running.saved pt s (stack ++ locals)).topRecord.room .ref = _ :=
      Running.slots_saved _ _
    simpa [FrameRecord.room, SuspensionPoint.record] using hroom
  · have hroom : (Running.saved pt s (stack ++ locals)).topRecord.room .int = _ :=
      Running.slots_saved _ _
    simpa [FrameRecord.room, SuspensionPoint.record] using hroom
  rw [← htop] at hsaved
  have hdoes' : Running.Does inst S nm _ _ ⟨L', [], s''⟩ _ :=
    Running.does_restore hf hfilled hslots (by omega) hhandle' hs'' hsaved
  rw [List.append_nil, hfilled.pushed_eq hf husable] at hdoes'
  have hsize := (Array.getElem?_eq_some_iff.mp hhandle').1
  have hcount : locals.length = pt.frame.locals.size := by
    rw [← hlen, ← hfilled.locals_eq, List.length_map]
  refine ⟨_, _, hdoes' q' hrestore, fun op hop => ?_, fun l t ht husable hl => ?_, fun l hl => ?_⟩
  · obtain ⟨e, -, hop⟩ := List.mem_flatMap.mp hop
    exact FilledSlot.read_eq hop
  · obtain ⟨e, he, rfl⟩ := hfilled.exists_local hf ht
    rw [hvalues l e he]
    exact hfilled.getElem?_restored hf (by omega) he husable hl
  · rcases hl with hl | hl | hl
    · exact FilledSlot.getElem?_setAll_of_outside (Or.inl hl)
    · exact hfilled.getElem?_unusable hf hl
    · by_cases hfirst : sub.firstLocal ≤ l
      · exact FilledSlot.getElem?_setAll_of_outside (Or.inr (by rw [List.length_drop]; omega))
      · exact FilledSlot.getElem?_setAll_of_outside (Or.inl (by omega))

/-! ### A frame of every kind -/

/-- An instance method with a construction that is redone later. -/
def Subject.juggling : Subject where
  source := {}
  policy := {}
  sink := {}
  owner := "A"
  method := { name := "m", desc := "()V", maxLocals := 3 }
  types := ⟨#[], [{ cls := "B", newAt := 0 }]⟩

/-- A point of it: the receiver, a double and nothing are in the locals; on the stack are a float, the
construction and null. -/
def SuspensionPoint.juggled : SuspensionPoint :=
  Subject.juggling.point 5 1 (.member (.invoke .static) "A" "g" "()V")
    ⟨#[.ref "A", .double, .unusable], [.float, .pending 0 "B" false, .null]⟩ false

/-- **A float and a double that are no numbers outlast a suspension bit for bit.** -/
theorem Subject.point_restores_nan : ∃ (nm : Method) (s s' : FrameStack Value) (q : Nat)
    (writes reads : List (FrameStack.Op Value)) (L L' : Array Value),
    L[1]? = some (.double 9221120237041090561)
    ∧ Running.Works (fun v c => v = .object 7 ∧ c = "A") ⟨0, 1, fun _ _ => true, rfl⟩ nm 0 q
        ⟨⟨0, L, [.float 2143289345, .null]⟩, s⟩ (.push 1 0 2 :: writes) ⟨⟨q, L, []⟩, s'⟩
    ∧ SuspensionPoint.juggled.Writes writes
    ∧ Running.Works (fun v c => v = .object 7 ∧ c = "A") ⟨0, 1, fun _ _ => true, rfl⟩ nm q nm.code.size
        ⟨⟨q, #[.object 7, .null, .null, .object 0], []⟩, s'.rewind.enter.2⟩ reads
        ⟨⟨nm.code.size, L', [.float 2143289345, .null]⟩, s'.rewind.enter.2⟩
    ∧ L'[1]? = some (.double 9221120237041090561) := by
  let save := Emit.save 3 SuspensionPoint.juggled
  let restore := Emit.restore 3 1 SuspensionPoint.juggled
  let nm : Method := { name := "m", desc := "()V", code := ([] ++ save ++ restore).toArray }
  have hsave : nm.code.Has 0 save := Code.has_toArray [] save restore
  have hrestore : nm.code.Has save.length restore := by
    have := Code.has_toArray save restore []
    rwa [List.append_nil] at this
  have hadmits : List.Forall₂ (SlotType.Admits fun v c => v = .object 7 ∧ c = "A") [.float, .null]
      [.float 2143289345, .null] := .cons rfl (.cons ⟨rfl, Or.inl rfl⟩ .nil)
  have hallows : ∀ (l : Nat) (t : SlotType), #[SlotType.ref "A", .double, .unusable][l]? = some t →
      ∃ v, #[Value.object 7, .double 9221120237041090561, .int 5, .object 0][l]? = some v
        ∧ t.Allows (fun v c => v = .object 7 ∧ c = "A") v := by
    intro l t ht
    match l, ht with
    | 0, ht =>
        cases ht
        exact ⟨_, rfl, fun _ => ⟨rfl, Or.inr ⟨by decide, rfl, rfl⟩⟩⟩
    | 1, ht =>
        cases ht
        exact ⟨_, rfl, fun _ => rfl⟩
    | 2, ht =>
        cases ht
        exact ⟨_, rfl, fun h => absurd rfl h⟩
  obtain ⟨s', writes, hrun, hwrites, -, ⟨hdepth, hroom, -⟩, hrest⟩ :=
    Subject.point_restores (S := ⟨0, 1, fun _ _ => true, rfl⟩) (s := { depth := 1 })
      (rfl : Subject.juggling.point 5 1 (.member (.invoke .static) "A" "g" "()V")
        ⟨#[.ref "A", .double, .unusable], [.float, .pending 0 "B" false, .null]⟩ false
          = SuspensionPoint.juggled) (by decide) (by decide) (by decide) hsave rfl rfl hadmits hallows
  have htop : s'.rewind.record? 0 = some s'.topRecord := by
    have htop : s'.topRecord = s'.recordAt 0 := by
      unfold FrameStack.topRecord
      rw [hdepth]
      rfl
    rw [htop]
    exact if_pos (by rw [show s'.rewind.room = s'.room from rfl, hroom]; decide)
  obtain ⟨-, hcurrent, hrecord, -⟩ := FrameStack.enter_of_record htop
  obtain ⟨L', reads, hrun', -, hvalues, -⟩ := hrest save.length #[.object 7, .null, .null, .object 0]
    s'.rewind.enter.2 hrestore rfl (hcurrent.trans (congrArg some hrecord.symm)) hrecord
  exact ⟨nm, _, s', _, writes, reads, _, L', rfl, hrun, hwrites, hrun',
    hvalues 1 .double rfl (by decide) (by decide)⟩

/-! ### Frames that are not restored -/

/-- Surroundings in which every object belongs to every class. -/
def Surroundings.lax : Surroundings := ⟨0, 1, fun _ _ => true, rfl⟩

/-- A static method without locals. -/
def Subject.bare : Subject where
  source := {}
  policy := {}
  sink := {}
  owner := "A"
  method := { name := "m", desc := "()V", flags := Flag.staticBit }
  types := ⟨#[], []⟩

/-- A point of it, with operands. -/
def SuspensionPoint.bare (entry : Nat) (operands : List SlotType) : SuspensionPoint :=
  Subject.bare.point 5 entry (.member (.invoke .static) "A" "g" "()V") ⟨#[], operands⟩ false

namespace SuspensionPoint

/-- The code that saves the frame of the point. -/
def saving (pt : SuspensionPoint) : Method :=
  { name := "m", desc := "()V", code := (Emit.save 0 pt).toArray }

lemma saving_has (pt : SuspensionPoint) : pt.saving.code.Has 0 (Emit.save 0 pt) := by
  have h : Code.Has ([] ++ Emit.save 0 pt ++ []).toArray 0 (Emit.save 0 pt) :=
    Code.has_toArray [] (Emit.save 0 pt) []
  rwa [List.append_nil] at h

/-- Every number on the operand stack has a slot of its own. -/
lemma placeStack_replicate {isDeferred : SlotType → Bool} (hint : isDeferred .int = false) (n : Nat)
    (c : SlotCounts) : (SlotPlan.placeStack isDeferred (List.replicate n .int) c).2
      = { c with prims := c.prims + n } := by
  induction n generalizing c with
  | zero => rfl
  | succ n ih =>
      simp only [List.replicate_succ, SlotPlan.placeStack, hint]
      refine (ih _).trans ?_
      show SlotCounts.mk c.objects (c.prims + 1 + n) = _
      rw [Nat.add_right_comm, Nat.add_assoc]

lemma counts_bare (entry n : Nat) :
    (bare entry (List.replicate n .int)).plan.counts = { prims := n } := by
  have hplace : (SlotPlan.placeStack Subject.bare.isDeferred (List.replicate n .int) {}).2 = _ :=
    placeStack_replicate rfl n {}
  show (SlotPlan.placeStack Subject.bare.isDeferred (List.replicate n SlotType.int).reverse {}).2 = _
  rw [List.reverse_replicate, hplace, Nat.zero_add]

end SuspensionPoint

/-- **A frame of so many numbers that their count is negative is not saved**: the runtime refuses the
record. -/
lemma SuspensionPoint.exists_refused {inst : Value → Text → Prop} {S : Surroundings} {s : FrameStack Value}
    (n : Nat) (hneg : (Int32.ofNat n).toInt < 0) :
    ∃ vs c, List.Forall₂ (SlotType.Admits inst) (List.replicate n .int) vs
      ∧ Running.Works inst S (bare 1 (List.replicate n .int)).saving 0 5
        ⟨⟨0, #[.object S.handle], vs⟩, s⟩ [] c
      ∧ c.act.pc = 4
      ∧ ∀ ops c', ¬Running.Acts inst S (bare 1 (List.replicate n .int)).saving c ops c' := by
  let vs : List Value := List.replicate n (.int 0)
  have hvs : List.Forall₂ (SlotType.Admits inst) (List.replicate n .int) vs := by
    refine List.forall₂_iff_get.mpr ⟨by simp [vs], fun i h h' => ?_⟩
    simp [vs, SlotType.Admits, Value.kind]
  have hcounts := counts_bare 1 n
  generalize bare 1 (List.replicate n .int) = pt at hcounts
  have hcode : pt.saving.code.Has 0 _ ∧ pt.saving.code.Has 4 _ :=
    (Code.has_append (l := [.slot (.load .ref) 0, .int (Int32.ofNat pt.entry),
      .int (Int32.ofNat pt.plan.counts.objects), .int (Int32.ofNat pt.plan.counts.prims)])).mp
      pt.saving_has
  have hat : pt.saving.code[4]? = some Emit.pushMethod := (Code.has_cons.mp hcode.2).1
  have hhandle : (#[.object S.handle] : Array Value)[(0 : UInt32).toNat]? = some (.object S.handle) := rfl
  have hrun : Running.Works inst S pt.saving 0 4 ⟨⟨0, #[.object S.handle], vs⟩, s⟩ [] _ :=
    Running.does_numbers hhandle 0 hcode.1
  refine ⟨vs, _, hvs, hrun.widen (Nat.le_refl 0) (by decide), rfl, fun ops c' => ?_⟩
  obtain ⟨s', hpush⟩ : ∃ s', s.push (Int32.ofNat pt.entry).toInt
      (Int32.ofNat pt.plan.counts.objects).toInt (Int32.ofNat n).toInt = (false, s') :=
    FrameStack.push_of_neg hneg
  rw [hcounts] at hpush ⊢
  exact Running.not_acts_pushMethod hat hpush

/-- **Frames that are not restored.**  The point with entry 2³¹ leaves a record with another entry.  The
frame of 2³¹ numbers is not saved at all: the runtime refuses the record.  An operand that is unusable is
dropped when the frame is saved, and nothing is pushed for it when it is restored. -/
theorem Subject.point_misrestores :
    (∃ s', Running.Works (fun _ _ => False) .lax (SuspensionPoint.bare 2147483648 []).saving 0 5
        ⟨⟨0, #[.object 0], []⟩, { depth := 1 }⟩ [.push (-2147483648) 0 0] ⟨⟨5, #[.object 0], []⟩, s'⟩
      ∧ s'.topRecord.entry = -2147483648)
    ∧ (∃ vs c, List.Forall₂ (SlotType.Admits fun _ _ => False) (List.replicate 2147483648 .int) vs
      ∧ Running.Works (fun _ _ => False) .lax
        (SuspensionPoint.bare 1 (List.replicate 2147483648 .int)).saving 0 5
        ⟨⟨0, #[.object 0], vs⟩, { depth := 1 }⟩ [] c
      ∧ c.act.pc = 4 ∧ ∀ ops c', ¬Running.Acts (fun _ _ => False) .lax
        (SuspensionPoint.bare 1 (List.replicate 2147483648 .int)).saving c ops c')
    ∧ (∃ s', Running.Works (fun _ _ => False) .lax (SuspensionPoint.bare 1 [.unusable]).saving 0 6
        ⟨⟨0, #[.object 0], [.int 5]⟩, { depth := 1 }⟩ [.push 1 0 0] ⟨⟨6, #[.object 0], []⟩, s'⟩)
    ∧ Emit.restore 0 0 (SuspensionPoint.bare 1 [.unusable]) = [] := by
  have hentered : Running.Entered ({ depth := 1 } : FrameStack Value) :=
    Running.entered_iff.mpr (by decide)
  have hhandle : (#[.object Surroundings.lax.handle] : Array Value)[(0 : UInt32).toNat]?
      = some (.object Surroundings.lax.handle) := rfl
  refine ⟨?_, SuspensionPoint.exists_refused 2147483648 (by decide), ?_, rfl⟩
  · have hsave : Running.Does (fun _ _ => False) .lax (SuspensionPoint.bare 2147483648 []).saving _ _
        ⟨#[.object 0], [], { depth := 1 }⟩ _ :=
      Running.does_pushMethod (Int32.ofNat 2147483648) 0 0 hhandle
        (FrameStack.push_of_fits hentered rfl rfl)
    exact ⟨_, hsave 0 (SuspensionPoint.saving_has _), by rw [FrameStack.topRecord_setCurrent]; rfl⟩
  · have hpush : Running.Does (fun _ _ => False) .lax (SuspensionPoint.bare 1 [.unusable]).saving _ _
        ⟨#[.object 0], [.int 5], { depth := 1 }⟩ _ :=
      Running.does_pushMethod (Int32.ofNat 1) 0 0 hhandle (FrameStack.push_of_fits hentered rfl rfl)
    have hpop : ∀ s, Running.Does (fun _ _ => False) .lax (SuspensionPoint.bare 1 [.unusable]).saving
        [.plain .pop] [] ⟨#[.object 0], [.int 5], s⟩ ⟨#[.object 0], [], s⟩ :=
      fun _ => Running.Does.after (fun _ hat => Running.step_pop hat) Running.Does.nil
    exact ⟨_, (hpush.append (hpop _)) 0 (SuspensionPoint.saving_has _)⟩

end Suspension
