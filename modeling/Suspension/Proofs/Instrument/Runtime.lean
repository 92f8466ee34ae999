import Suspension.Proofs.Frame.Soundness
import Suspension.Proofs.FrameStack.Records
import Suspension.Proofs.Instrument.Dispatch
import Suspension.Proofs.Machine.Heap

/-!
# Transformed methods at work

A transformed method runs beside a frame stack.  **The calls that the transformation put in are answered
by the runtime**: they fetch the frame stack and work on it.  Every other request of the method is one of
its own, and what comes of it is up to its surroundings.

* `Native.stackOp?` — what the natives of frame stacks do, `Native.run_stackOp`.
* `Surroundings` — how a transformed method reaches its frame stack, and the classes of objects.
* `Plan.Own` — the positions that the transformation put in.
* `Plan.Ready`, `Plan.Ready.lands` — a plan that has been carried out, and where exceptions land.
* `Running`, `Running.Advances` — an activation beside its frame stack, and the steps of it that depend on
  nothing else.
-/

namespace Suspension

/-! ## The natives of frame stacks -/

namespace Native

/-- **What a native method of frame stacks does**: the object that it is to work on, and the operation,
which there is none of when a value of the wrong kind is to be saved. -/
def stackOp? : Native → List Value → Option (Value × Option (FrameStack.Op Value))
  | nextEntry, self :: _ => some (self, some .enter)
  | pushMethod, self :: .int entry :: .int objects :: .int prims :: _ =>
    some (self, some (.push entry.toInt objects.toInt prims.toInt))
  | popMethod, self :: _ => some (self, some .pop)
  | save k, v :: self :: .int slot :: _ => some (self, saveOp k slot.toInt v)
  | restore k, self :: .int slot :: _ => some (self, some (restoreOp k slot.toInt))
  | _, _ => none

/-- An operation on a stack, as an action. -/
lemma run_onStack (id : StackId) (op : FrameStack.Op Value) (m : Machine) :
    (Exec.onStack id op).run m = match m.coroutines.onStack id op with
      | (.misuse, w) => (.error .crash, { m with coroutines := w })
      | (a, w) => (.ok a, { m with coroutines := w }) := by
  unfold Exec.onStack
  rw [Exec.run_bind]
  have : (modifyGet (fun m : Machine => ((m.coroutines.onStack id op).1,
      { m with coroutines := (m.coroutines.onStack id op).2 })) : Exec _).run m
      = (.ok (m.coroutines.onStack id op).1, { m with coroutines := (m.coroutines.onStack id op).2 }) := rfl
  rw [this]
  cases m.coroutines.onStack id op with
  | mk a w => cases a <;> rfl

/-- An operation on a stack that answers no more than that it is done. -/
lemma onStack_done {op : FrameStack.Op Value} (hop : ∀ s : FrameStack Value,
    (s.apply op).1 = .done ∨ (s.apply op).1 = .misuse) (id : StackId) :
    (do let _ ← Exec.onStack id op; return Value.null : Exec Value)
      = (do return ofAnswer (← Exec.onStack id op)) := by
  refine ExceptT.ext (StateT.ext fun m => ?_)
  show (_ : Exec Value).run m = (_ : Exec Value).run m
  rw [Exec.run_bind, Exec.run_bind, run_onStack]
  have hanswer : (m.coroutines.onStack id op).1 = .done ∨ (m.coroutines.onStack id op).1 = .misuse := by
    unfold Coroutines.onStack
    split
    · exact Or.inr rfl
    · next s _ => exact hop s
  generalize m.coroutines.onStack id op = r at hanswer
  obtain ⟨a, w⟩ := r
  rcases hanswer with rfl | rfl <;> rfl

/-- **The natives of frame stacks** are the operations on the stack behind an object. -/
theorem run_stackOp {call : Caller} {n : Native} {args : List Value} {self : Value}
    {op : Option (FrameStack.Op Value)} (h : n.stackOp? args = some (self, op)) :
    n.run call args = (do
      let op ← Exec.require op
      return ofAnswer (← Exec.onStack (← stackOf self) op)) := by
  have hdone : ∀ op : FrameStack.Op Value, (∀ s : FrameStack Value,
      (s.apply op).1 = .done ∨ (s.apply op).1 = .misuse) →
      (do let _ ← Exec.onStack (← stackOf self) op; return Value.null : Exec Value)
        = (do return ofAnswer (← Exec.onStack (← stackOf self) op)) := by
    intro op hop
    exact bind_congr fun id => onStack_done hop id
  unfold stackOp? at h
  split at h <;> cases h
  · rfl
  · refine hdone _ fun s => ?_
    simp only [FrameStack.apply]
    split <;> simp
  · exact hdone _ fun s => Or.inl rfl
  · next k v slot _ =>
      cases hop : saveOp k slot.toInt v with
      | none => simp only [run, hop]; rfl
      | some op =>
          simp only [run, hop]
          refine hdone _ fun s => ?_
          rw [FrameStack.apply_saveOp hop]
          split <;> simp
  · rfl

end Native

/-! ## Surroundings -/

/-- **The surroundings of a transformed method**: the object by which it reaches its frame stack, the
suspend signal, and which object belongs to which class. -/
structure Surroundings where
  handle : ObjectId
  signal : ObjectId
  isA : ObjectId → Text → Bool
  signal_isA : isA signal ClassName.suspendSignal = true

namespace Surroundings

/-- Whether an object is a suspend signal. -/
def IsSignal (S : Surroundings) (obj : ObjectId) : Prop := S.isA obj ClassName.suspendSignal = true

/-- The outcome of an operation on a frame stack, as the answer to a call. -/
def outcome (isVoid : Bool) : FrameStack.Answer Value × FrameStack Value →
    Option (Option Value × FrameStack Value)
  | (.misuse, _) => none
  | (ans, s) => some (if isVoid then none else some (Native.ofAnswer ans), s)

/-- **What the runtime does with a request**: `none` when the request is none of its concern, and no
outcome when it is misused. -/
def serve (S : Surroundings) (s : FrameStack Value) :
    Request → Option (Option (Option Value × FrameStack Value))
  | .getStatic m =>
    if m = ⟨ClassName.frameStack, "SUSPEND", "Lcoro/SuspendExecution;"⟩ then
      some (some (some (.object S.signal), s))
    else none
  | .invoke _ m args isVoid =>
    match Native.stackTable.lookup (Native.key m.owner m.name m.desc) with
    | some .getStack => some (some (some (.object S.handle), s))
    | some n =>
      match n.stackOp? args with
      | some (self, op) =>
        if self = .object S.handle then some (op.bind fun op => outcome isVoid (s.apply op)) else none
      | none => none
    | none => none
  | _ => none

end Surroundings

/-- The operation on a frame stack that a request asks for. -/
def Request.stackOp? : Request → Option (FrameStack.Op Value)
  | .invoke _ m args _ =>
    (Native.stackTable.lookup (Native.key m.owner m.name m.desc)).bind fun n =>
      (n.stackOp? args).bind Prod.snd
  | _ => none

/-! ## Positions -/

namespace Plan

/-- **A position that the transformation put in**: it is not the image of an instruction. -/
def Own (p : Plan) (q : Nat) : Prop := ∀ j instr, p.Survives j instr → q ≠ p.imageAt j

variable {p : Plan} {nm : Method} {j q : Nat} {instr : Instruction}

/-- A position is in one segment only. -/
lemma segment_unique {i : Nat} (hi : p.place i ≤ q) (hi' : q < p.place (i + 1))
    (hj : p.place j ≤ q) (hj' : q < p.place (j + 1)) : i = j := by
  rcases Nat.lt_trichotomy i j with hlt | heq | hgt
  · have := p.place_mono (show i + 1 ≤ j from hlt)
    omega
  · exact heq
  · have := p.place_mono (show j + 1 ≤ i from hgt)
    omega

/-- A segment holds no image but that of its instruction. -/
lemma Survives.eq_of_imageAt (hl : p.Lays nm) (hp : p.Sound) (h : p.Survives j instr)
    (hlow : p.place q ≤ p.imageAt j) (hhigh : p.imageAt j < p.place (q + 1)) : j = q := by
  have hw := (h.image hl hp).1
  exact segment_unique hw.low hw.high hlow hhigh

/-- In front of the last instruction of a segment there are no images. -/
lemma own_of_lt (hl : p.Lays nm) (hp : p.Sound) (hlow : p.place j ≤ q)
    (hhigh : q + 1 < p.place (j + 1)) : p.Own q := by
  rintro i instr h rfl
  obtain rfl := h.eq_of_imageAt hl hp hlow (by omega)
  have := (h.image hl hp).1.low
  unfold imageAt at hhigh
  omega

/-- Neither are there any where the instruction does not survive. -/
lemma own_of_not_survives (hl : p.Lays nm) (hp : p.Sound) (hlow : p.place j ≤ q)
    (hhigh : q < p.place (j + 1)) (h : ∀ instr, ¬ p.Survives j instr) : p.Own q := by
  rintro i instr hi rfl
  obtain rfl := hi.eq_of_imageAt hl hp hlow hhigh
  exact h instr hi

lemma own_prologue (hl : p.Lays nm) (hp : p.Sound) (h : q < 6) : p.Own q := by
  rintro i instr hi rfl
  have := (hi.image hl hp).1.low
  have := p.place_mono (Nat.zero_le i)
  rw [place_zero] at this
  omega

lemma own_epilogue (hl : p.Lays nm) (hp : p.Sound) (h : p.place p.code.size ≤ q) : p.Own q := by
  rintro i instr hi rfl
  have := (hi.image hl hp).1.high
  have := p.place_mono (show i + 1 ≤ p.code.size from hi.lt)
  omega

/-- Everything else is in the body. -/
lemma bounds_of_not_own (hl : p.Lays nm) (hp : p.Sound) (h : ¬ p.Own q) :
    6 ≤ q ∧ q < p.place p.code.size := by
  constructor
  · by_contra hlt
    exact h (own_prologue hl hp (by omega))
  · by_contra hle
    exact h (own_epilogue hl hp (by omega))

/-- **The code of a point**, part by part. -/
structure PointCode (p : Plan) (nm : Method) (i : Nat) (pt : SuspensionPoint) : Prop where
  before : nm.code[p.place pt.position]? = some (.mark (p.beforeLabel i))
  save : nm.code.Has (p.place pt.position + 1) (Emit.save p.stackVar pt)
  yield : pt.isYield = true → nm.code.Has
    (p.place pt.position + 1 + (Emit.save p.stackVar pt).length) [Emit.signal, .plain .throw]
  restore : nm.code.Has (p.place pt.position + p.resumeOffset pt)
    ([.mark (p.callLabel i)] ++ Emit.restore p.stackVar p.subject.firstLocal pt
      ++ [.mark (p.afterLabel i)])
  call : pt.isYield = false →
    nm.code[p.place pt.position + p.afterOffset pt + 1]? = some pt.call
  next : p.place (pt.position + 1)
    = p.place pt.position + p.afterOffset pt + 1 + (if pt.isYield then 0 else 1)

lemma pointCode (hl : p.Lays nm) (hp : p.Sound) {i : Nat} {pt : SuspensionPoint}
    (hpt : p.points[i]? = some pt) : p.PointCode nm i pt := by
  obtain ⟨hlt, hseg⟩ := hp.segmentAt_point hpt
  have hcode := hl.segment pt.position hlt
  have hnext := p.place_succ pt.position
  rw [hseg] at hcode hnext
  rw [length_pointImage] at hnext
  unfold pointImage at hcode
  simp only [List.append_assoc, Code.has_append, List.length_singleton] at hcode
  obtain ⟨hbefore, hsave, hyield, hmark, hrestore, hafter, hcall⟩ := hcode
  have hcount : (if pt.isYield = true then [Emit.signal, Instruction.plain .throw] else []).length
      = if pt.isYield then 2 else 0 := by
    split <;> rfl
  have hresume : p.place pt.position + p.resumeOffset pt
      = p.place pt.position + 1 + (Emit.save p.stackVar pt).length
        + (if pt.isYield = true then [Emit.signal, Instruction.plain .throw] else []).length := by
    rw [hcount]
    unfold resumeOffset
    omega
  refine ⟨by simpa using hbefore 0 (by simp), hsave, fun h => ?_, ?_, fun h => ?_, ?_⟩
  · rw [if_pos h] at hyield
    exact hyield
  · rw [hresume, Code.has_append, Code.has_append, List.length_append, List.length_singleton]
    refine ⟨⟨hmark, hrestore⟩, ?_⟩
    rw [← Nat.add_assoc]
    exact hafter
  · have hat := hcall 0 (by simp [h])
    rw [hcount] at hat
    simp only [h, Bool.false_eq_true, if_false, List.getElem?_cons_zero] at hat
    rw [← hat]
    congr 1
    simp only [afterOffset, resumeOffset, h, Bool.false_eq_true, if_false]
    omega
  · rw [hnext]
    omega

/-- Behind the saved region there is a label. -/
lemma PointCode.after {i : Nat} {pt : SuspensionPoint} (h : p.PointCode nm i pt) :
    nm.code[p.place pt.position + p.afterOffset pt]? = some (.mark (p.afterLabel i)) := by
  have hat := (Code.has_append.mp h.restore).2 0 (by simp)
  rw [List.getElem?_cons_zero] at hat
  rw [← hat]
  congr 1
  simp only [List.length_append, List.length_singleton, afterOffset]
  omega

/-- **The call of a point survives**, unless it is the request to suspend. -/
lemma survives_point (hp : p.Sound) {i : Nat} {pt : SuspensionPoint} (hpt : p.points[i]? = some pt)
    (hyield : pt.isYield = false) (hat : p.code[pt.position]? = some instr) :
    p.Survives pt.position instr := by
  obtain ⟨instr', mode, hat', hop, -⟩ := hp.point_call hpt
  rw [hat] at hat'
  cases hat'
  refine ⟨hat, by simp [Instruction.isMark, hop], ?_, fun pt' hpt' hpos => ?_⟩
  · by_contra hd
    obtain ⟨instr', hat', hop'⟩ := hp.dropped (by simpa using hd)
    rw [hat] at hat'
    cases hat'
    rcases hop' with hop' | hop' <;> simp [hop] at hop'
  · obtain ⟨i', hi'⟩ := List.getElem?_of_mem hpt'
    obtain ⟨-, rfl⟩ := hp.point_unique hi' hpt hpos
    exact hyield

end Plan

/-! ## Plans that have been carried out -/

namespace Plan

/-- **Fresh locals do not wrap**: there is one for the frame stack, and the temporaries are above it. -/
def LocalsFit (p : Plan) : Prop :=
  p.stackVar.toNat + 1 + p.temporaries 0 p.code.toList < 4294967296

lemma LocalsFit.toNat_temporary {p : Plan} (hfit : p.LocalsFit) {k : Nat}
    (hk : k < p.temporaries 0 p.code.toList) :
    (p.stackVar + 1 + UInt32.ofNat k).toNat = p.stackVar.toNat + 1 + k := by
  unfold LocalsFit at hfit
  rw [UInt32.toNat_add, UInt32.toNat_add, UInt32.toNat_ofNat', show (1 : UInt32).toNat = 1 from rfl]
  omega

/-- **The numbers of a plan fit**: fresh labels and fresh locals do not wrap at 2³², and the numbers of slots
are below 2³¹. -/
structure NumbersFit (p : Plan) : Prop where
  labels : p.LabelsFit
  locals : p.stackVar.toNat + 1 + p.temporaries 0 p.code.toList < 4294967296
  slots : ∀ pt ∈ p.points,
    pt.plan.counts.objects < 2147483648 ∧ pt.plan.counts.prims < 2147483648

/-- **A plan that has been carried out**: all that is known about it and the method that it makes. -/
structure Ready (p : Plan) (C : Classes) (nm : Method) : Prop extends p.NumbersFit where
  lays : p.Lays nm
  sound : p.Sound
  certified : p.subject.types.Certified C p.subject.owner p.subject.method

/-- A plan that makes a transformed method is carried out by it. -/
lemma Makes.ready {src : ClassSource} {owner : Text} {m nm : Method} {h : Hierarchy} {p : Plan}
    (hp : p.Makes src owner m h nm) (hfit : p.NumbersFit) {C : Classes} (hsrc : src.Agrees C)
    (hh : h.Agrees C) : p.Ready C nm := by
  obtain ⟨h₁, h₂, htypes, -⟩ := hp.found
  obtain ⟨hcert, -⟩ := Analysis.run_certified hsrc hh htypes
  have hcert : p.subject.types.Certified C owner m := hcert
  rw [← hp.method_eq, ← hp.owner_eq] at hcert
  exact ⟨hfit, generate_lays hp.generate, hp.sound, hcert⟩

variable {p : Plan} {C : Classes} {nm : Method}

/-- The suspend signal goes to the last instruction of the body. -/
lemma Ready.lands_signal (h : p.Ready C nm) {q : Nat} (hlow : 5 ≤ q) (hhigh : q < p.place p.code.size)
    {catches : Text → Bool} (hsignal : catches ClassName.suspendSignal = true) :
    (Body.ofMethod nm).handlerFor catches q = some (p.place p.code.size + 4) := by
  obtain ⟨h₁, h₂, -, h₄⟩ := h.lays.frame_labels h.sound h.labels
  rw [← h₄]
  exact (h.sound.dispatches h.lays h.labels).signal catches hsignal q (by omega) (by omega)

/-- **Where an exception lands** that comes up within the segment of an instruction that is reached:
where it does in the method, or at the handler that pops the record. -/
lemma Ready.lands (h : p.Ready C nm) {j q : Nat} (hw : p.Within j q) {f : Frame}
    (hf : p.subject.types.frames[j]? = some (some f)) {catches : Text → Bool}
    (hsignal : catches ClassName.suspendSignal = false) :
    (p.subject.method.rangeFor catches j = none
      ∧ (Body.ofMethod nm).handlerFor catches q = some (p.place p.code.size + 1)) ∨
    ∃ r i, p.subject.method.rangeFor catches j = some r ∧ p.code.labelAt? r.handler = some i
      ∧ (Body.ofMethod nm).handlerFor catches q = some (p.place i)
      ∧ p.subject.types.Reaches C ⟨f.locals, [.ref (Analysis.caughtClass r)]⟩ i := by
  obtain ⟨hsome, hnone⟩ := hw.rangeFor h.lays h.sound h.labels hsignal
  rw [Body.handlerFor_ofMethod]
  cases hr : p.subject.method.rangeFor catches j with
  | none =>
      refine Or.inl ⟨rfl, ?_⟩
      rw [hnone hr, Option.map_some]
      exact congrArg some (h.lays.frame_labels h.sound h.labels).2.2.1
  | some r =>
      obtain ⟨s, hs, hfor⟩ := hsome r hr
      have hmem : r ∈ p.subject.method.ranges := List.mem_of_find?_eq_some hr
      obtain ⟨instr, after, spans, hspans, hsettled⟩ := h.certified.settled j f hf
      obtain ⟨span, hspan, hok⟩ := (Analysis.spans_eq_ok hspans).1 r hmem
      obtain ⟨h₁, h₂, h₃, h₄⟩ := Analysis.span_eq_ok hok
      refine Or.inr ⟨r, span.handler, rfl, h₃, ?_, ?_⟩
      · rw [hfor, Option.map_some, (Cut.isPart_of_mem hs).handler_eq,
          ((Boundary.user h₃).positions h.lays h.sound h.labels).2]
      · have hcov := List.find?_some hr
        simp only [Bool.and_eq_true, decide_eq_true_eq, Method.labelPosition, h₁, h₂,
          Option.getD_some] at hcov
        rw [← h₄]
        exact (hsettled.handlers span hspan hcov.1.1 hcov.1.2).1

/-- An exception in a saved region leaves the method. -/
lemma Ready.lands_saved (h : p.Ready C nm) {n q : Nat} {pt : SuspensionPoint}
    (hn : p.points[n]? = some pt) (hlow : p.place pt.position ≤ q)
    (hhigh : q < p.place pt.position + p.afterOffset pt) {catches : Text → Bool}
    (hsignal : catches ClassName.suspendSignal = false) :
    (Body.ofMethod nm).handlerFor catches q = some (p.place p.code.size + 1) := by
  have hbefore := ((Boundary.before hn).positions h.lays h.sound h.labels).2
  have hafter := ((Boundary.after hn).positions h.lays h.sound h.labels).2
  obtain ⟨h₁, h₂, h₃, -⟩ := h.lays.frame_labels h.sound h.labels
  rw [Body.handlerFor_ofMethod]
  have hfor : nm.rangeFor catches q = some p.catchAllRange := by
    unfold Method.rangeFor
    rw [h.lays.ranges, ranges_eq, List.find?_cons_of_neg, List.find?_append,
      List.find?_eq_none.mpr, Option.none_or]
    · refine List.find?_cons_of_pos ?_
      have hend := afterOffset_lt h.sound hn
      have hupto := p.place_mono
        (show pt.position + 1 ≤ p.code.size from (h.sound.segmentAt_point hn).1)
      have hfrom : 6 ≤ p.place pt.position := p.place_mono (Nat.zero_le _)
      simp only [catchAllRange, h₁, h₂, List.isEmpty_nil, Bool.true_or, Bool.and_true,
        Bool.and_eq_true, decide_eq_true_eq]
      omega
    · intro s hs hcov
      obtain ⟨r, hr, hs⟩ := List.mem_flatMap.mp hs
      simp only [Bool.and_eq_true, decide_eq_true_eq] at hcov
      exact h.sound.not_covers_saved h.lays h.labels hn (hbefore ▸ hlow) (hafter ▸ hhigh) hr hs hcov.1
    · have hempty : ClassName.suspendSignal.isEmpty = false := by decide
      simp [signalRange, hsignal, hempty]
  rw [hfor]
  exact congrArg some h₃

/-- Nothing is caught behind the end. -/
lemma Ready.lands_epilogue (h : p.Ready C nm) {q : Nat} (hq : p.place p.code.size ≤ q)
    (catches : Text → Bool) : (Body.ofMethod nm).handlerFor catches q = none := by
  obtain ⟨-, h₂, -⟩ := h.lays.frame_labels h.sound h.labels
  have hout := (h.sound.dispatches h.lays h.labels).outside.2.2.2 q (Or.inr (h₂ ▸ hq))
  rw [Body.handlerFor_ofMethod, Option.map_eq_none_iff]
  refine List.find?_eq_none.mpr fun s hs hcov => hout s hs ?_
  simp only [Bool.and_eq_true, decide_eq_true_eq] at hcov
  exact hcov.1

/-- **Where an instruction leads that is reached**: to instructions that are reached, without a change to
the locals of the transformation. -/
structure Follows (p : Plan) (j : Nat) (instr : Instruction) : Prop where
  next : instr.opcode.endsBlock = false → ∃ g, p.subject.types.frames[j + 1]? = some (some g)
  targets : ∀ id ∈ instr.targets, ∃ i g, p.code.labelAt? id = some i
    ∧ p.subject.types.frames[i]? = some (some g)
  changes : ∀ n, instr.changes? = some n → n.toNat < p.stackVar.toNat

lemma Ready.follows (h : p.Ready C nm) {j : Nat} {f : Frame} {instr : Instruction}
    (hf : p.subject.types.frames[j]? = some (some f)) (hj : p.code[j]? = some instr) :
    p.Follows j instr := by
  obtain ⟨instr', after, spans, -, hsettled⟩ := h.certified.settled j f hf
  have hat : p.code[j]? = some instr' := hsettled.code_at
  rw [hj] at hat
  cases hat
  refine ⟨fun hend => ?_, fun id hid => ?_, fun n hn => ?_⟩
  · obtain ⟨g, hg, -⟩ := (hsettled.next hend).2
    exact ⟨g, hg⟩
  · obtain ⟨i, hi, g, hg, -⟩ := hsettled.targets id hid
    exact ⟨i, g, hi, hg⟩
  · have hlt := hsettled.transition.changes_lt hn
    rw [h.certified.width j f hf] at hlt
    exact hlt

/-- What stands in for an instruction leads to the same instructions. -/
lemma Ready.follows_image (h : p.Ready C nm) {j : Nat} {f : Frame} {instr img : Instruction}
    (hf : p.subject.types.frames[j]? = some (some f)) (hj : p.code[j]? = some instr)
    (himg : img = instr ∨ img = reflectInvoke ∧ ∃ m, instr.callee? = some m ∧ m.isReflective = true) :
    p.Follows j img := by
  have hfollows := h.follows hf hj
  rcases himg with rfl | ⟨rfl, m, hm, -⟩
  · exact hfollows
  · obtain ⟨mode, hop, -⟩ := Instruction.callee?_eq_some hm
    refine ⟨fun _ => hfollows.next (by rw [hop]; rfl), ?_, ?_⟩
    · intro id hid
      cases hid
    · intro n hn
      cases hn

end Plan

/-! ## Runs -/

/-- **An activation beside its frame stack.** -/
structure Running where
  act : Activation
  stack : FrameStack Value

namespace Running

/-- **The steps that depend on nothing else**: an instruction that asks for nothing, and a call of the
transformation's own that the runtime answers. -/
inductive Advances (S : Surroundings) (p : Plan) (nm : Method) : Running → Running → Prop where
  | next {a a' : Activation} {s : FrameStack Value} (h : a.step (.ofMethod nm) = .next a') :
      Advances S p nm ⟨a, s⟩ ⟨a', s⟩
  | served {a a' : Activation} {s s' : FrameStack Value} {r : Request} {v : Option Value}
      (hown : p.Own a.pc) (h : a.step (.ofMethod nm) = .asks r a')
      (hserve : S.serve s r = some (some (v, s'))) : Advances S p nm ⟨a, s⟩ ⟨a'.answered v, s'⟩

variable {S : Surroundings} {p : Plan} {nm : Method}

/-- There is one way to advance. -/
lemma Advances.unique {c c₁ c₂ : Running} (h₁ : Advances S p nm c c₁) (h₂ : Advances S p nm c c₂) :
    c₁ = c₂ := by
  cases h₁ with
  | next h =>
      cases h₂ with
      | next h' =>
          rw [h] at h'
          cases h'
          rfl
      | served _ h' _ =>
          rw [h] at h'
          cases h'
  | served _ h hs =>
      cases h₂ with
      | next h' =>
          rw [h] at h'
          cases h'
      | served _ h' hs' =>
          rw [h] at h'
          cases h'
          rw [hs] at hs'
          cases hs'
          rfl

variable {q : Nat} {L : Array Value} {vs : List Value} {s s' : FrameStack Value}

/-! ### Instructions that ask for nothing -/

lemma step_eq {instr : Instruction} (hat : nm.code[q]? = some instr) :
    Activation.step (.ofMethod nm) ⟨q, L, vs⟩
      = Activation.execute (Body.ofMethod nm).target ⟨q, L, vs⟩ instr := by
  have : (Body.ofMethod nm).code[q]? = some instr := hat
  simp only [Activation.step, this]

lemma advances_mark {id : Label} (hat : nm.code[q]? = some (.mark id)) :
    Advances S p nm ⟨⟨q, L, vs⟩, s⟩ ⟨⟨q + 1, L, vs⟩, s⟩ := .next (by rw [step_eq hat]; rfl)

lemma step_int {n : Int32} (hat : nm.code[q]? = some (.int n)) :
    Activation.step (.ofMethod nm) ⟨q, L, vs⟩ = .next ⟨q + 1, L, .int n :: vs⟩ := by
  rw [step_eq hat]
  rfl

lemma advances_int {n : Int32} (hat : nm.code[q]? = some (.int n)) :
    Advances S p nm ⟨⟨q, L, vs⟩, s⟩ ⟨⟨q + 1, L, .int n :: vs⟩, s⟩ := .next (step_int hat)

lemma step_load {k : Kind} {n : UInt32} {v : Value} (hat : nm.code[q]? = some (.slot (.load k) n))
    (hv : L[n.toNat]? = some v) :
    Activation.step (.ofMethod nm) ⟨q, L, vs⟩ = .next ⟨q + 1, L, v :: vs⟩ := by
  rw [step_eq hat]
  simp only [Activation.execute, Instruction.slot, Activation.load, hv]
  rfl

lemma advances_load {k : Kind} {n : UInt32} {v : Value} (hat : nm.code[q]? = some (.slot (.load k) n))
    (hv : L[n.toNat]? = some v) :
    Advances S p nm ⟨⟨q, L, vs⟩, s⟩ ⟨⟨q + 1, L, v :: vs⟩, s⟩ := .next (step_load hat hv)

lemma step_store {k : Kind} {n : UInt32} {v : Value}
    (hat : nm.code[q]? = some (.slot (.store k) n)) (hn : n.toNat < L.size) :
    Activation.step (.ofMethod nm) ⟨q, L, v :: vs⟩ = .next ⟨q + 1, L.set! n.toNat v, vs⟩ := by
  rw [step_eq hat]
  simp only [Activation.execute, Instruction.slot, Activation.store, if_pos hn]

lemma advances_store {k : Kind} {n : UInt32} {v : Value}
    (hat : nm.code[q]? = some (.slot (.store k) n)) (hn : n.toNat < L.size) :
    Advances S p nm ⟨⟨q, L, v :: vs⟩, s⟩ ⟨⟨q + 1, L.set! n.toNat v, vs⟩, s⟩ := .next (step_store hat hn)

lemma advances_dup {v : Value} (hat : nm.code[q]? = some (.plain .dup)) :
    Advances S p nm ⟨⟨q, L, v :: vs⟩, s⟩ ⟨⟨q + 1, L, v :: v :: vs⟩, s⟩ :=
  .next (by rw [step_eq hat]; rfl)

lemma step_pop {v : Value} (hat : nm.code[q]? = some (.plain .pop)) :
    Activation.step (.ofMethod nm) ⟨q, L, v :: vs⟩ = .next ⟨q + 1, L, vs⟩ := by
  rw [step_eq hat]
  rfl

/-! ### Calls of the runtime -/

lemma toInt_ofNat {k : Nat} (h : k < 2147483648) : (Int32.ofNat k).toInt = k :=
  Int32.toInt_ofNat_of_lt (by simpa using h)

/-- A call asks for the method with the arguments on top of the stack. -/
lemma step_call {mode : InvokeMode} {m : Member} (d : Descriptor.Method) (args : List Value)
    (hat : nm.code[q]? = some ⟨.invoke mode, .member m⟩) (hd : Descriptor.parseMethod m.desc = .ok d)
    (hlen : args.length = d.params.length + (if mode == .static then 0 else 1)) :
    Activation.step (.ofMethod nm) ⟨q, L, args ++ vs⟩
      = .asks (.invoke mode m args.reverse d.isVoid) ⟨q, L, vs⟩ := by
  rw [step_eq hat]
  simp only [Activation.execute]
  rw [Activation.invoke_over hd (by omega), Frame.invoke_eq hd hlen]
  rfl

/-- A call that the runtime answers. -/
lemma advances_call {mode : InvokeMode} {m : Member} (d : Descriptor.Method) (args : List Value)
    (v : Option Value) (hown : p.Own q) (hat : nm.code[q]? = some ⟨.invoke mode, .member m⟩)
    (hd : Descriptor.parseMethod m.desc = .ok d)
    (hlen : args.length = d.params.length + (if mode == .static then 0 else 1))
    (hserve : S.serve s (.invoke mode m args.reverse d.isVoid) = some (some (v, s'))) :
    Advances S p nm ⟨⟨q, L, args ++ vs⟩, s⟩ ⟨⟨q + 1, L, v.toList ++ vs⟩, s'⟩ :=
  .served hown (step_call d args hat hd hlen) hserve

lemma advances_getStack (hown : p.Own q) (hat : nm.code[q]? = some Emit.getStack) :
    Advances S p nm ⟨⟨q, L, vs⟩, s⟩ ⟨⟨q + 1, L, .object S.handle :: vs⟩, s⟩ :=
  advances_call ⟨[], "Lcoro/Stack;"⟩ [] (some (.object S.handle)) hown hat rfl rfl rfl

lemma advances_signal (hown : p.Own q) (hat : nm.code[q]? = some Emit.signal) :
    Advances S p nm ⟨⟨q, L, vs⟩, s⟩ ⟨⟨q + 1, L, .object S.signal :: vs⟩, s⟩ :=
  have hstep : Activation.step (.ofMethod nm) ⟨q, L, vs⟩
      = .asks (.getStatic ⟨ClassName.frameStack, "SUSPEND", "Lcoro/SuspendExecution;"⟩) ⟨q, L, vs⟩ := by
    rw [step_eq hat]
    rfl
  .served (v := some (.object S.signal)) hown hstep rfl

lemma serve_op {mode : InvokeMode} {m : Member} {args : List Value} {isVoid : Bool} {n : Native}
    {op : Option (FrameStack.Op Value)}
    (hn : Native.stackTable.lookup (Native.key m.owner m.name m.desc) = some n)
    (hop : n.stackOp? args = some (.object S.handle, op)) :
    S.serve s (.invoke mode m args isVoid)
      = some (op.bind fun op => Surroundings.outcome isVoid (s.apply op)) := by
  have hget : n ≠ .getStack := by
    rintro rfl
    cases hop
  simp only [Surroundings.serve, hn]
  cases n <;> simp_all

lemma stackOp?_eq {mode : InvokeMode} {m : Member} {args : List Value} {isVoid : Bool} {n : Native}
    {self : Value} {op : Option (FrameStack.Op Value)}
    (hn : Native.stackTable.lookup (Native.key m.owner m.name m.desc) = some n)
    (hop : n.stackOp? args = some (self, op)) :
    (Request.invoke mode m args isVoid).stackOp? = op := by
  simp only [Request.stackOp?, hn, hop, Option.bind_some]

lemma advances_nextEntry (hown : p.Own q) (hat : nm.code[q]? = some Emit.nextEntry) :
    Advances S p nm ⟨⟨q, L, .object S.handle :: vs⟩, s⟩
      ⟨⟨q + 1, L, .int (Int32.ofInt s.enter.1) :: vs⟩, s.enter.2⟩ := by
  have hn : Native.stackTable.lookup (Native.key ClassName.frameStack "nextMethodEntry" "()I")
      = some .nextEntry := rfl
  exact advances_call ⟨[], "I"⟩ [.object S.handle] (some (.int (Int32.ofInt s.enter.1))) hown hat
    rfl rfl ((serve_op hn rfl).trans rfl)

lemma advances_popMethod (hown : p.Own q) (hat : nm.code[q]? = some Emit.popMethod) :
    Advances S p nm ⟨⟨q, L, .object S.handle :: vs⟩, s⟩ ⟨⟨q + 1, L, vs⟩, s.pop⟩ := by
  have hn : Native.stackTable.lookup (Native.key ClassName.frameStack "popMethod" "()V")
      = some .popMethod := rfl
  exact advances_call ⟨[], "V"⟩ [.object S.handle] none hown hat rfl rfl
    ((serve_op hn rfl).trans rfl)

/-- Pushing a record that there is room for. -/
lemma serve_pushMethod {entry objects prims : Int32}
    (hpush : s.push entry.toInt objects.toInt prims.toInt = (true, s')) :
    S.serve s (.invoke .virtual ⟨ClassName.frameStack, "pushMethod", "(III)V"⟩
      [.object S.handle, .int entry, .int objects, .int prims] true) = some (some (none, s')) := by
  have hn : Native.stackTable.lookup (Native.key ClassName.frameStack "pushMethod" "(III)V")
      = some .pushMethod := rfl
  refine (serve_op hn rfl).trans ?_
  simp only [Option.bind_some, FrameStack.apply, hpush]
  rfl

lemma advances_pushMethod (hown : p.Own q) (hat : nm.code[q]? = some Emit.pushMethod)
    {entry objects prims : Int32}
    (hpush : s.push entry.toInt objects.toInt prims.toInt = (true, s')) :
    Advances S p nm ⟨⟨q, L, .int prims :: .int objects :: .int entry :: .object S.handle :: vs⟩, s⟩
      ⟨⟨q + 1, L, vs⟩, s'⟩ :=
  advances_call ⟨["I", "I", "I"], "V"⟩ [.int prims, .int objects, .int entry, .object S.handle] none hown
    hat rfl rfl (serve_pushMethod hpush)

/-- The method that saves a value of a kind. -/
def putMember (k : Kind) : Member :=
  ⟨ClassName.frameStack, Text.ofString "push" ++ Emit.accessorName k,
    Text.ofString "(" ++ Emit.accessorDesc k ++ Text.ofString "Lcoro/Stack;I)V"⟩

/-- The method that fetches a value of a kind. -/
def getMember (k : Kind) : Member :=
  ⟨ClassName.frameStack, Text.ofString "get" ++ Emit.accessorName k,
    Text.ofString "(I)" ++ Emit.accessorDesc k⟩

lemma lookup_putMember (k : Kind) : Native.stackTable.lookup
    (Native.key (putMember k).owner (putMember k).name (putMember k).desc) = some (.save k) := by
  cases k <;> rfl

lemma lookup_getMember (k : Kind) : Native.stackTable.lookup
    (Native.key (getMember k).owner (getMember k).name (getMember k).desc) = some (.restore k) := by
  cases k <;> rfl

lemma parse_putMember (k : Kind) : Descriptor.parseMethod (putMember k).desc
    = .ok ⟨[Emit.accessorDesc k, "Lcoro/Stack;", "I"], "V"⟩ := by
  cases k <;> rfl

lemma parse_getMember (k : Kind) :
    Descriptor.parseMethod (getMember k).desc = .ok ⟨["I"], Emit.accessorDesc k⟩ := by
  cases k <;> rfl

lemma isVoid_accessor (k : Kind) : (⟨["I"], Emit.accessorDesc k⟩ : Descriptor.Method).isVoid = false := by
  cases k <;> rfl

/-- Saving a value. -/
lemma serve_put {k : Kind} {slot : Int32} {v : Value} {op : FrameStack.Op Value}
    (hop : Native.saveOp k slot.toInt v = some op) (hdone : s.apply op = (.done, s')) :
    S.serve s (.invoke .static (putMember k) [v, .object S.handle, .int slot] true)
      = some (some (none, s')) := by
  refine (serve_op (lookup_putMember k) rfl).trans ?_
  simp only [hop, Option.bind_some, hdone]
  rfl

lemma advances_put {k : Kind} {slot : Int32} {v : Value} {op : FrameStack.Op Value} (hown : p.Own q)
    (hat : nm.code[q]? = some ⟨.invoke .static, .member (putMember k)⟩)
    (hop : Native.saveOp k slot.toInt v = some op) (hdone : s.apply op = (.done, s')) :
    Advances S p nm ⟨⟨q, L, .int slot :: .object S.handle :: v :: vs⟩, s⟩ ⟨⟨q + 1, L, vs⟩, s'⟩ :=
  advances_call _ [.int slot, .object S.handle, v] none hown hat (parse_putMember k) rfl
    (serve_put hop hdone)

/-- Fetching a value. -/
lemma serve_get {k : Kind} {slot : Int32} {v : Value}
    (hans : (s.apply (Native.restoreOp k slot.toInt)).1 ≠ .misuse)
    (hv : Native.ofAnswer (s.apply (Native.restoreOp k slot.toInt)).1 = v) :
    S.serve s (.invoke .virtual (getMember k) [.object S.handle, .int slot] false)
      = some (some (some v, s)) := by
  refine (serve_op (lookup_getMember k) rfl).trans ?_
  have hsnd := s.apply_restoreOp_snd k slot.toInt
  rw [Option.bind_some]
  generalize s.apply (Native.restoreOp k slot.toInt) = r at hans hv hsnd
  obtain ⟨ans, s₁⟩ := r
  subst hv hsnd
  cases ans <;> first | rfl | exact absurd rfl hans

lemma advances_get {k : Kind} {slot : Int32} {v : Value} (hown : p.Own q)
    (hat : nm.code[q]? = some ⟨.invoke .virtual, .member (getMember k)⟩)
    (hans : (s.apply (Native.restoreOp k slot.toInt)).1 ≠ .misuse)
    (hv : Native.ofAnswer (s.apply (Native.restoreOp k slot.toInt)).1 = v) :
    Advances S p nm ⟨⟨q, L, .int slot :: .object S.handle :: vs⟩, s⟩ ⟨⟨q + 1, L, v :: vs⟩, s⟩ := by
  refine advances_call _ [.int slot, .object S.handle] (some v) hown hat (parse_getMember k) rfl ?_
  rw [isVoid_accessor]
  exact serve_get hans hv

end Running

end Suspension
