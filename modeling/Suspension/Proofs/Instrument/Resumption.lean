import Suspension.Proofs.Instrument.Balance
import Suspension.Proofs.Instrument.Saving

/-!
# Resumed methods find their locals

A method arrives at a suspension point, saves its frame and waits there for its call.  The suspend signal
leaves it, and it is entered again with the record that it left.  **By the time its frame is restored,
every local that is not supplied by the caller holds what it held when the signal came up**, however often
that happens.  The receiver is supplied again, so what a method has stored in its place is lost.

* `Running.Arrives` — arriving at a point with values that are what the frame says.
* `Running.Stands` — waiting at a point, for the first time or again.
* `Method.transform_resumes` — the locals of a method that is resumed.
-/

namespace Suspension

namespace Running

variable {C D : Classes} {W : World} {S : Surroundings} {p : Plan} {nm : Method} {d i : Nat}
  {pt : SuspensionPoint}

/-! ## Waiting -/

/-- There is one way to proceed. -/
lemma Proceeds.unique {c c₁ c₂ : Running} (h₁ : Proceeds C S p nm c c₁)
    (h₂ : Proceeds C S p nm c c₂) : c₁ = c₂ := by
  have hmixed : ∀ {a b : Activation} {s : FrameStack Value} {v : Value} {cls : Text} {c' : Running},
      a.step (.ofMethod nm) = .asks (.cast v cls) b → ¬ Advances S p nm ⟨a, s⟩ c' := by
    intro a b s v cls c' hstep hadv
    rcases hadv with h | ⟨-, h, hserve⟩
    · rw [hstep] at h
      cases h
    · rw [hstep] at h
      cases h
      cases hserve
  cases h₁ with
  | advances h₁ =>
      cases h₂ with
      | advances h₂ => exact h₁.unique h₂
      | cast hstep _ => exact absurd h₁ (hmixed hstep)
  | cast hstep _ =>
      cases h₂ with
      | advances h₂ => exact absurd h₂ (hmixed hstep)
      | cast hstep' _ =>
          rw [hstep] at hstep'
          cases hstep'
          rfl

/-- **Waiting**: what comes next is up to the surroundings. -/
def Waits (C : Classes) (S : Surroundings) (p : Plan) (nm : Method) (c : Running) : Prop :=
  ∀ c', ¬ Proceeds C S p nm c c'

/-- There is one place to wait at. -/
lemma Waits.unique {c c₁ c₂ : Running} (h₁ : Relation.ReflTransGen (Proceeds C S p nm) c c₁)
    (h₂ : Relation.ReflTransGen (Proceeds C S p nm) c c₂) (hw₁ : Waits C S p nm c₁)
    (hw₂ : Waits C S p nm c₂) : c₁ = c₂ := by
  have hstuck : ∀ {c c' : Running}, Waits C S p nm c →
      Relation.ReflTransGen (Proceeds C S p nm) c c' → c = c' := by
    intro c c' hw h
    rcases h.cases_head with heq | ⟨c'', hstep, -⟩
    · exact heq
    · exact absurd hstep (hw c'')
  have hright : Relator.RightUnique (Proceeds C S p nm) := fun _ _ _ => Proceeds.unique
  rcases Relation.ReflTransGen.total_of_right_unique hright h₁ h₂ with h | h
  · exact hstuck hw₁ h
  · exact (hstuck hw₂ h).symm

lemma waits_of_asks {a b : Activation} {s : FrameStack Value} {r : Request}
    (h : a.step (.ofMethod nm) = .asks r b) (hserve : p.Own a.pc → S.serve s r = none)
    (hcast : ∀ v cls, r ≠ .cast v cls) : Waits C S p nm ⟨a, s⟩ := by
  rintro c' ((h' | ⟨hown, h', hs⟩) | ⟨h', -⟩)
  · rw [h] at h'
    cases h'
  · rw [h] at h'
    cases h'
    rw [hserve hown] at hs
    cases hs
  · rw [h] at h'
    cases h'
    exact hcast _ _ rfl

lemma waits_of_crash {a : Activation} {s : FrameStack Value} (h : a.step (.ofMethod nm) = .crash) :
    Waits C S p nm ⟨a, s⟩ := by
  rintro c' ((h' | ⟨-, h', -⟩) | ⟨h', -⟩) <;> simp [h] at h'

/-- The call of a point stands at the end of its segment. -/
lemma imageAt_point (hr : p.Ready D nm) (hpt : p.points[i]? = some pt) (hyield : pt.isYield = false) :
    p.imageAt pt.position = p.place pt.position + p.afterOffset pt + 1 := by
  unfold Plan.imageAt
  rw [(Plan.pointCode hr.lays hr.sound hpt).next, hyield]
  simp

/-- A call that survives waits for its surroundings. -/
lemma waits_call (hr : p.Ready D nm) (hpt : p.points[i]? = some pt) (hyield : pt.isYield = false)
    (L : Array Value) (vs : List Value) (s : FrameStack Value) :
    Waits C S p nm ⟨⟨p.place pt.position + p.afterOffset pt + 1, L, vs⟩, s⟩ := by
  have hcode := Plan.pointCode hr.lays hr.sound hpt
  obtain ⟨instr, mode, hat, -, mode', hop⟩ := hr.sound.point_call hpt
  have hcall := hcode.call hyield
  have hnot : ¬ p.Own (p.place pt.position + p.afterOffset pt + 1) := by
    intro hown
    exact hown pt.position instr (Plan.survives_point hr.sound hpt hyield hat)
      (imageAt_point hr hpt hyield).symm
  have hstep : Activation.step (.ofMethod nm) ⟨p.place pt.position + p.afterOffset pt + 1, L, vs⟩
      = Activation.invoke ⟨p.place pt.position + p.afterOffset pt + 1, L, vs⟩ mode'
        pt.call.operand := by
    rw [step_eq hcall]
    simp only [Activation.execute, hop]
  unfold Activation.invoke at hstep
  split at hstep
  · split at hstep
    · exact waits_of_asks hstep (fun hown => absurd hown hnot) (by simp)
    · next dd _ =>
        generalize dd.params.length + _ = n at hstep
        dsimp only at hstep
        split at hstep
        · exact waits_of_crash hstep
        · exact waits_of_asks hstep (fun hown => absurd hown hnot) (by simp)
  · exact waits_of_crash hstep

/-! ## Arriving at a point -/

/-- **Arriving at a point inside a method**, with values that are what the frame of the point says.
Constructions that are redone later are not on the operand stack. -/
structure Arrives (W : World) (S : Surroundings) (p : Plan) (d : Nat) (pt : SuspensionPoint)
    (c : Running) : Prop extends Inside S p d c.act.locals c.stack where
  pc : c.act.pc = p.place pt.position
  room : d < c.stack.room
  locals : ∀ (l : Nat) (t : SlotType), pt.frame.locals[l]? = some t →
    ∃ v, c.act.locals[l]? = some v ∧ W.Holds t v
  operands : List.Forall₂ W.Holds (pt.frame.stack.filter fun t => !p.subject.isDeferred t) c.act.stack

/-- The slots of a point at which a method arrives, with its values. -/
lemma Arrives.filled {c : Running} (h : Arrives W S p d pt c) (hf : pt.LaidOut p.subject) :
    ∃ stack locals, pt.Filled W.inst stack locals ∧ c.act.stack = stack.flatMap FilledSlot.operand
      ∧ ∀ (i : Nat) (e : FilledSlot), locals[i]? = some e → c.act.locals[i]? = some e.value :=
  hf.exists_filled (h.operands.imp fun _ _ => World.Holds.allows) fun l t ht =>
    (h.locals l t ht).imp fun _ hv => ⟨hv.1, hv.2.allows⟩

/-! ## From the point to its call -/

/-- What is known about a point of a plan that has been carried out. -/
structure AtPlan (p : Plan) (i : Nat) (pt : SuspensionPoint) : Prop where
  found : pt.LaidOut p.subject
  slots : pt.plan.counts.objects < 2147483648 ∧ pt.plan.counts.prims < 2147483648
  entry : pt.entry < 2147483648
  locals : pt.plan.locals.length = p.stackVar.toNat
  receiver : p.subject.firstLocal ≤ pt.plan.locals.length

lemma atPlan (hr : p.Ready C nm) (hpt : p.points[i]? = some pt) : AtPlan p i pt := by
  have hmem := List.mem_of_getElem? hpt
  have hfound := hr.sound.found pt hmem
  have hwidth := hr.certified.width _ _ hfound.frame_at
  refine ⟨hfound.laidOut, hr.slots pt hmem, hr.labels.entry_lt hr.sound hpt, ?_, ?_⟩
  · rw [hfound.laidOut.length_locals, hwidth]
    rfl
  · obtain ⟨f, hf, -⟩ := hr.certified.entry
    obtain ⟨ds, -, hlen, -⟩ := Analysis.entryFrame_eq_ok hf
    rw [hfound.laidOut.length_locals, hwidth]
    unfold Subject.firstLocal Method.receiverCount
    unfold Analysis.givenSlots at hlen
    cases hstatic : p.subject.method.isStatic with
    | true => simp
    | false =>
        simp only [hstatic, Bool.false_eq_true, if_false, List.length_append, List.length_singleton] at hlen ⊢
        omega

/-- **Behind the label to resume at**, the frame is restored. -/
lemma reaches_after (hr : p.Ready C nm) (hpt : p.points[i]? = some pt)
    {stack locals : List FilledSlot} (hfilled : pt.Filled W.inst stack locals) {L : Array Value}
    {s : FrameStack Value} (hL : L[p.stackVar.toNat]? = some (.object S.handle)) (hs : Entered s)
    (hsaved : pt.SavedIn s.topRecord stack locals) :
    Relation.ReflTransGen (Proceeds W.toClasses S p nm)
      ⟨⟨p.place pt.position + p.resumeOffset pt, L, []⟩, s⟩
      ⟨⟨p.place pt.position + p.afterOffset pt,
        FilledSlot.setAll L p.subject.firstLocal (locals.drop p.subject.firstLocal),
        stack.flatMap FilledSlot.pushed⟩, s⟩ := by
  obtain ⟨hfound, hslots, -, hlocals, hreceiver⟩ := atPlan hr hpt
  have hcode := (Plan.pointCode hr.lays hr.sound hpt).restore
  rw [Code.has_append, Code.has_append] at hcode
  have hmark : nm.code[p.place pt.position + p.resumeOffset pt]? = some (.mark (p.callLabel i)) :=
    hcode.1.1 0 (by simp)
  refine .head (.advances (advances_mark hmark)) ?_
  have hrestore : Does W.inst S nm _ _ ⟨L, [], s⟩ _ :=
    does_restore hfound hfilled hslots (Nat.le_of_eq hlocals) hL hs hsaved
  rw [List.append_nil] at hrestore
  have hrun := (hrestore (p.place pt.position + p.resumeOffset pt + 1) hcode.1.2).proceeds
    (C := W.toClasses) (p := p) fun q hlow hhigh => ?_
  · have hend : p.place pt.position + p.resumeOffset pt + 1
        + (Emit.restore p.stackVar p.subject.firstLocal pt).length
          = p.place pt.position + p.afterOffset pt := by
      unfold Plan.afterOffset
      omega
    rw [hend] at hrun
    exact hrun
  · obtain ⟨k, rfl⟩ := Nat.exists_eq_add_of_le hlow
    rw [Nat.add_assoc, Nat.add_assoc]
    refine (landing_point (S := S) hr hpt ?_).1
    unfold Plan.afterOffset
    omega

/-- **Waiting at a point**: the record keeps the slots of the point, and the locals that the caller does
not supply hold the same values. -/
structure Kept (W : World) (p : Plan) (d : Nat) (pt : SuspensionPoint)
    (stack locals : List FilledSlot) (c : Running) : Prop where
  filled : pt.Filled W.inst stack locals
  saved : pt.SavedIn (c.stack.recordAt d) stack locals
  depth : c.stack.depth = d + 1
  room : d < c.stack.room
  values : ∀ (i : Nat) (e : FilledSlot), locals[i]? = some e → e.type ≠ .unusable →
    p.subject.firstLocal ≤ i → c.act.locals[i]? = some e.value

/-- **In front of the point**, the frame is saved. -/
lemma reaches_saved (hr : p.Ready C nm) (hpt : p.points[i]? = some pt)
    {stack locals : List FilledSlot} (hfilled : pt.Filled W.inst stack locals) {L : Array Value}
    {s : FrameStack Value} (hL : L[p.stackVar.toNat]? = some (.object S.handle)) (hs : Entered s)
    (hvalues : ∀ (i : Nat) (e : FilledSlot), locals[i]? = some e → L[i]? = some e.value) :
    Relation.ReflTransGen (Proceeds W.toClasses S p nm)
      ⟨⟨p.place pt.position, L, stack.flatMap FilledSlot.operand⟩, s⟩
      ⟨⟨p.place pt.position + 1 + (Emit.save p.stackVar pt).length, L, []⟩,
        saved pt s (stack ++ locals)⟩ := by
  obtain ⟨hfound, hslots, hentry, hwidth, -⟩ := atPlan hr hpt
  have hcode := Plan.pointCode hr.lays hr.sound hpt
  have hlen : pt.plan.locals.length ≤ 4294967296 := by
    have := p.stackVar.toNat_lt
    omega
  have hdoes : Does W.inst S nm _ _ ⟨L, _ ++ [], s⟩ _ :=
    does_save hfound hfilled hslots hentry hlen hL hs hvalues
  rw [List.append_nil] at hdoes
  have hsave := (hdoes _ hcode.save).proceeds (C := W.toClasses) (p := p) fun q hlow hhigh => by
    obtain ⟨k, rfl⟩ := Nat.exists_eq_add_of_le hlow
    rw [Nat.add_assoc]
    refine (landing_point (S := S) hr hpt ?_).1
    unfold Plan.afterOffset Plan.resumeOffset
    omega
  exact hsave.head (.advances (advances_mark hcode.before))

/-- A request to suspend then throws the signal. -/
lemma reaches_throw (hr : p.Ready C nm) (hpt : p.points[i]? = some pt) (hyield : pt.isYield = true)
    {L : Array Value} {s : FrameStack Value} :
    let q := p.place pt.position + 1 + (Emit.save p.stackVar pt).length + 1
    Proceeds D S p nm ⟨⟨p.place pt.position + 1 + (Emit.save p.stackVar pt).length, L, []⟩, s⟩
        ⟨⟨q, L, [.object S.signal]⟩, s⟩
      ∧ Activation.step (.ofMethod nm) ⟨q, L, [.object S.signal]⟩ = .asks (.throw S.signal) ⟨q, L, []⟩
      ∧ q < p.place pt.position + p.afterOffset pt := by
  intro q
  have hcode := Plan.pointCode hr.lays hr.sound hpt
  have hthrow := hcode.yield hyield
  rw [Code.has_cons, Code.has_cons] at hthrow
  have hlen : 1 + (Emit.save p.stackVar pt).length + 1 < p.afterOffset pt := by
    unfold Plan.afterOffset Plan.resumeOffset
    rw [hyield, if_pos rfl]
    omega
  have hown : p.Own (p.place pt.position + 1 + (Emit.save p.stackVar pt).length) := by
    rw [Nat.add_assoc]
    exact (landing_point (S := S) hr hpt (by omega)).1
  refine ⟨.advances (advances_signal hown hthrow.1), ?_, by omega⟩
  rw [step_eq hthrow.2.1]
  rfl

/-- **A method that arrives at a point** comes to wait there, with its slots saved and its usable locals
as they were. -/
lemma Arrives.waits {c : Running} (h : Arrives W S p d pt c) (hr : p.Ready C nm)
    (hpt : p.points[i]? = some pt) :
    ∃ c' stack locals, Relation.ReflTransGen (Proceeds W.toClasses S p nm) c c'
      ∧ Waits W.toClasses S p nm c' ∧ Kept W p d pt stack locals c'
      ∧ (∀ (l : Nat) (t : SlotType), pt.frame.locals[l]? = some t → t ≠ .unusable →
          c'.act.locals[l]? = c.act.locals[l]?)
      ∧ (pt.isYield = false → c'.act.pc = p.imageAt pt.position) := by
  obtain ⟨hfound, hslots, -, hwidth, -⟩ := atPlan hr hpt
  obtain ⟨stack, locals, hfilled, hoperands, hvalues⟩ := h.filled hfound
  obtain ⟨⟨hL, hdepth⟩, hpc, hroom, -, -⟩ := h
  obtain ⟨⟨q, L, vs⟩, s⟩ := c
  obtain rfl : q = p.place pt.position := hpc
  obtain rfl : vs = stack.flatMap FilledSlot.operand := hoperands
  have hdepth : s.depth = d + 1 := hdepth
  have hs : Entered s := entered_iff.mpr ⟨by omega, by rw [hdepth]; exact hroom⟩
  have hsave := reaches_saved hr hpt hfilled hL hs hvalues
  have hsaved : pt.SavedIn (saved pt s (stack ++ locals)).topRecord stack locals :=
    savedIn_saved hfound hfilled hslots
  have htop : (saved pt s (stack ++ locals)).topRecord = (saved pt s (stack ++ locals)).recordAt d := by
    unfold FrameStack.topRecord
    rw [depth_saved, hdepth]
    rfl
  have hdepth' : (saved pt s (stack ++ locals)).depth = d + 1 := by rw [depth_saved, hdepth]
  have hroom' : d < (saved pt s (stack ++ locals)).room := by rw [room_saved]; exact hroom
  cases hyield : pt.isYield with
  | true =>
      obtain ⟨hsignal, hstep, -⟩ := reaches_throw (S := S) (D := W.toClasses) (L := L)
        (s := saved pt s (stack ++ locals)) hr hpt hyield
      exact ⟨_, stack, locals, hsave.tail hsignal, waits_of_asks hstep (fun _ => rfl) (by simp),
        ⟨hfilled, htop ▸ hsaved, hdepth', hroom', fun j e he _ _ => hvalues j e he⟩,
        fun _ _ _ _ => rfl, by simp⟩
  | false =>
      have hcode := Plan.pointCode hr.lays hr.sound hpt
      have hq : p.place pt.position + 1 + (Emit.save p.stackVar pt).length
          = p.place pt.position + p.resumeOffset pt := by
        unfold Plan.resumeOffset
        rw [hyield]
        simp
        omega
      have hsize : locals.length ≤ L.size := by
        have hlt : p.stackVar.toNat < L.size := (Array.getElem?_eq_some_iff.mp hL).1
        rw [← hfilled.locals_eq, List.length_map] at hwidth
        omega
      rw [hq] at hsave
      have hrestore := reaches_after hr hpt hfilled hL (hs.saved (stack ++ locals)) hsaved
      have hkept : ∀ (j : Nat) (e : FilledSlot), locals[j]? = some e → e.type ≠ .unusable →
          p.subject.firstLocal ≤ j → (FilledSlot.setAll L p.subject.firstLocal
            (locals.drop p.subject.firstLocal))[j]? = some e.value :=
        fun j e he husable hj => hfilled.getElem?_restored hfound hsize he husable hj
      refine ⟨_, stack, locals, (hsave.trans hrestore).tail (.advances (advances_mark hcode.after)),
        waits_call hr hpt hyield _ _ _, ⟨hfilled, htop ▸ hsaved, hdepth', hroom', hkept⟩,
        fun l t ht husable => ?_, fun _ => (imageAt_point hr hpt hyield).symm⟩
      by_cases hl : p.subject.firstLocal ≤ l
      · obtain ⟨e, he, rfl⟩ := hfilled.exists_local hfound ht
        exact (hkept l e he husable hl).trans (hvalues l e he).symm
      · exact FilledSlot.getElem?_setAll_of_outside (Or.inl (by omega))

/-! ## Being left and entered again -/

/-- **Entering a method with the record of a point** leads to the label to resume at. -/
lemma reaches_label (hr : p.Ready D nm) (hpt : p.points[i]? = some pt) (args : List Value)
    {s : FrameStack Value} {r : FrameRecord Value} (hs : s.record? s.depth = some r)
    (hsaved : r.entry = pt.entry) :
    Relation.ReflTransGen (Proceeds C S p nm) ⟨Activation.enter nm args, s⟩
      ⟨⟨p.place pt.position + p.resumeOffset pt,
        (Activation.enter nm args).locals.set! p.stackVar.toNat (.object S.handle), []⟩, s.enter.2⟩ := by
  obtain ⟨hentry, -, -, -⟩ := FrameStack.enter_of_record hs
  obtain ⟨-, hprologue⟩ := advances_prologue (S := S) hr args s
  have hrun : Relation.ReflTransGen (Proceeds C S p nm) _ _ :=
    Relation.ReflTransGen.mono (fun _ _ => Proceeds.advances) _ _ hprologue
  have hnumber : Int32.ofInt s.enter.1 = Int32.ofNat (i + 1) := by
    rw [hentry, hsaved, hr.sound.entry_eq hpt]
    rfl
  exact hrun.tail (.advances ((advances_switch hr).2 i pt hpt hnumber))

/-- Its frame is then restored. -/
lemma reaches_resumed (hr : p.Ready C nm) (hpt : p.points[i]? = some pt)
    {stack locals : List FilledSlot} (hfilled : pt.Filled W.inst stack locals) (args : List Value)
    {s : FrameStack Value} {r : FrameRecord Value} (hs : s.record? s.depth = some r)
    (hsaved : pt.SavedIn r stack locals) :
    Relation.ReflTransGen (Proceeds W.toClasses S p nm) ⟨Activation.enter nm args, s⟩
      ⟨⟨p.place pt.position + p.afterOffset pt,
        FilledSlot.setAll ((Activation.enter nm args).locals.set! p.stackVar.toNat (.object S.handle))
          p.subject.firstLocal (locals.drop p.subject.firstLocal),
        stack.flatMap FilledSlot.pushed⟩, s.enter.2⟩ := by
  obtain ⟨-, hcurrent, htop, -⟩ := FrameStack.enter_of_record hs
  obtain ⟨hsize, -⟩ := advances_prologue (S := S) hr args s
  refine (reaches_label hr hpt args hs hsaved.entry).trans (reaches_after hr hpt hfilled ?_ ?_ (htop ▸ hsaved))
  · rw [Array.set!_eq_setIfInBounds, Array.getElem?_setIfInBounds_self_of_lt hsize]
  · exact hcurrent.trans (congrArg some htop.symm)

/-- **Waiting at a point**: a method that has arrived there, and one that has been left there by the
suspend signal, entered again with the record that it left, and has come to its call again. -/
inductive Stands (W : World) (S : Surroundings) (p : Plan) (nm : Method) (d : Nat)
    (pt : SuspensionPoint) : Running → Prop where
  | arrived {c c' : Running} (h : Arrives W S p d pt c)
      (hrun : Relation.ReflTransGen (Proceeds W.toClasses S p nm) c c')
      (hwaits : Waits W.toClasses S p nm c') : Stands W S p nm d pt c'
  | again {c c' : Running} {obj : ObjectId} {a : Activation} {s s' : FrameStack Value}
      {args : List Value} (h : Stands W S p nm d pt c) (hyield : pt.isYield = false)
      (hraises : Raises S p nm c obj a s) (hsignal : S.IsSignal obj) (hdepth : s'.depth = d)
      (hrecord : s'.record? d = some (s.recordAt d))
      (hrun : Relation.ReflTransGen (Proceeds W.toClasses S p nm) ⟨Activation.enter nm args, s'⟩ c')
      (hwaits : Waits W.toClasses S p nm c') : Stands W S p nm d pt c'

/-- The suspend signal leaves the slots in the record. -/
lemma Kept.left {stack locals : List FilledSlot} {c : Running} {obj : ObjectId} {a : Activation}
    {s : FrameStack Value} (h : Kept W p d pt stack locals c) (hraises : Raises S p nm c obj a s)
    (hsignal : S.IsSignal obj) : pt.SavedIn (s.recordAt d) stack locals := by
  obtain ⟨-, -, hthrows⟩ := hraises
  have hrecord := hthrows.record hsignal
  have hdepth := h.depth
  simp only at hdepth
  rw [hdepth] at hrecord
  exact hrecord ▸ h.saved

lemma size_enter (hr : p.Ready C nm) (hpt : p.points[i]? = some pt) {stack locals : List FilledSlot}
    (hfilled : pt.Filled W.inst stack locals) (args : List Value) (v : Value) :
    locals.length ≤ ((Activation.enter nm args).locals.set! p.stackVar.toNat v).size := by
  have hwidth := (atPlan hr hpt).locals
  have hsize := (advances_prologue (S := ⟨0, 0, fun _ _ => true, rfl⟩) hr args {}).1
  rw [← hfilled.locals_eq, List.length_map] at hwidth
  rw [Array.set!_eq_setIfInBounds, Array.size_setIfInBounds]
  omega

/-- **Whoever waits at a point** has its slots in the record. -/
lemma Stands.kept (hr : p.Ready C nm) (hpt : p.points[i]? = some pt) {c : Running}
    (h : Stands W S p nm d pt c) : ∃ stack locals, Kept W p d pt stack locals c := by
  induction h with
  | arrived h hrun hwaits =>
      obtain ⟨c', stack, locals, hrun', hwaits', hkept, -, -⟩ := h.waits hr hpt
      rw [Waits.unique hrun hrun' hwaits hwaits']
      exact ⟨stack, locals, hkept⟩
  | @again c c' obj a s s' args _ hyield hraises hsignal hdepth hrecord hrun hwaits ih =>
      obtain ⟨stack, locals, hkept⟩ := ih
      have hsaved := hkept.left hraises hsignal
      subst hdepth
      have hafter := (Plan.pointCode hr.lays hr.sound hpt).after
      have hresumed := reaches_resumed (S := S) hr hpt hkept.filled args hrecord hsaved
      have hrun' := hresumed.tail (.advances (advances_mark hafter))
      rw [Waits.unique hrun hrun' hwaits (waits_call hr hpt hyield _ _ _)]
      obtain ⟨-, -, htop, hroom⟩ := FrameStack.enter_of_record hrecord
      have hlt : s'.depth < s'.enter.2.room := by
        rw [hroom]
        exact FrameStack.lt_of_record? hrecord
      refine ⟨stack, locals, hkept.filled, ?_, s'.depth_enter, hlt, fun j e he husable hj => ?_⟩
      · unfold FrameStack.topRecord at htop
        rw [s'.depth_enter] at htop
        exact htop ▸ hsaved
      · exact hkept.filled.getElem?_restored (atPlan hr hpt).found
          (size_enter hr hpt hkept.filled args _) he husable hj

/-- The receiver is supplied by the caller. -/
lemma getElem?_receiver (hr : p.Ready C nm) {args : List Value} (rest : List FilledSlot) {l : Nat}
    {v : Value} (hl : l < p.subject.firstLocal) (hfirst : p.subject.firstLocal ≤ p.stackVar.toNat)
    (harg : args[l]? = some v) :
    (FilledSlot.setAll ((Activation.enter nm args).locals.set! p.stackVar.toNat (.object S.handle))
      p.subject.firstLocal rest)[l]? = some v := by
  have hlt := (List.getElem?_eq_some_iff.mp harg).1
  have hsize := (advances_prologue (S := S) hr args {}).1
  rw [FilledSlot.getElem?_setAll_of_outside (Or.inl hl), Array.set!_eq_setIfInBounds,
    Array.getElem?_setIfInBounds_ne (by omega)]
  simp only [Activation.enter, List.size_toArray, List.length_append, List.length_take,
    List.length_replicate] at hsize ⊢
  rw [List.getElem?_toArray, List.getElem?_append_left (by rw [List.length_take]; omega),
    List.getElem?_take_of_lt (by omega), harg]

/-- **The locals of a frame that has been restored** are those that were there, but for the receiver. -/
lemma getElem?_resumed (hr : p.Ready C nm) (hpt : p.points[i]? = some pt)
    {stack locals : List FilledSlot} {c : Running} (hkept : Kept W p d pt stack locals c)
    (args : List Value) {l : Nat} {t : SlotType} {v : Value} (ht : pt.frame.locals[l]? = some t)
    (husable : t ≠ .unusable) (hv : c.act.locals[l]? = some v)
    (hreceiver : l < p.subject.firstLocal → args[l]? = some v) :
    (FilledSlot.setAll ((Activation.enter nm args).locals.set! p.stackVar.toNat (.object S.handle))
      p.subject.firstLocal (locals.drop p.subject.firstLocal))[l]? = some v := by
  obtain ⟨hfound, -, -, hwidth, hfirst⟩ := atPlan hr hpt
  by_cases hl : p.subject.firstLocal ≤ l
  · obtain ⟨e, he, rfl⟩ := hkept.filled.exists_local hfound ht
    have hvalue := hkept.values l e he husable hl
    rw [hv] at hvalue
    rw [Option.some.inj hvalue]
    exact hkept.filled.getElem?_restored hfound (size_enter hr hpt hkept.filled args _) he husable hl
  · have hl : l < p.subject.firstLocal := by omega
    exact getElem?_receiver hr _ hl (by omega) (hreceiver hl)

end Running

/-- **A method that is resumed finds its locals again.**  Whatever a transformed method that waits at a
suspension point holds in its locals, as long as it is what the frame of the point says: it may be left by
the suspend signal and be entered again with the record that it left, and by the time its frame is restored
all usable locals hold what they held.  The receiver is the one that it is entered with. -/
theorem Method.transform_resumes {src : ClassSource} {policy : Policy} {owner : Text}
    {m nm : Method} {h h' : Hierarchy}
    (ht : (Method.transform src policy owner m).run h = (.ok (some nm), h')) :
    ∃ p : Plan, p.Makes src owner m h nm ∧ (p.NumbersFit →
      ∀ (W : World) (S : Surroundings) (d : Nat), ∀ pt ∈ p.points,
        (∀ c, Running.Arrives W S p d pt c → ∃ c', Running.Stands W S p nm d pt c'
          ∧ Relation.ReflTransGen (Running.Proceeds W.toClasses S p nm) c c'
          ∧ (pt.isYield = false → c'.act.pc = p.imageAt pt.position)
          ∧ ∀ (l : Nat) (t : SlotType), pt.frame.locals[l]? = some t → t ≠ .unusable →
            c'.act.locals[l]? = c.act.locals[l]?) ∧
        ∀ c, Running.Stands W S p nm d pt c → ∀ obj a s, Running.Raises S p nm c obj a s →
          S.IsSignal obj → ∀ args s', s'.depth = d → s'.record? d = some (s.recordAt d) →
            ∃ c', Relation.ReflTransGen (Running.Proceeds W.toClasses S p nm)
                ⟨Activation.enter nm args, s'⟩ c'
              ∧ c'.act.pc = p.place pt.position + p.afterOffset pt
              ∧ ∀ l t v, pt.frame.locals[l]? = some t → t ≠ .unusable →
                c.act.locals[l]? = some v → (l < m.receiverCount → args[l]? = some v) →
                  c'.act.locals[l]? = some v) := by
  obtain ⟨p, hp⟩ := Method.transform_makes ht
  refine ⟨p, hp, fun hfit W S d pt hmem => ?_⟩
  have hr : p.Ready Classes.empty nm := hp.ready hfit src.agrees_empty h.agrees_empty
  obtain ⟨i, hpt⟩ := List.getElem?_of_mem hmem
  constructor
  · intro c harrives
    obtain ⟨c', -, -, hrun, hwaits, -, hlocals, hpc⟩ := harrives.waits hr hpt
    exact ⟨c', .arrived harrives hrun hwaits, hrun, hpc, hlocals⟩
  · intro c hstands obj a s hraises hsignal args s' hdepth hrecord
    subst hdepth
    obtain ⟨stack, locals, hkept⟩ := hstands.kept hr hpt
    have hsaved := hkept.left hraises hsignal
    refine ⟨_, Running.reaches_resumed hr hpt hkept.filled args hrecord hsaved, rfl, ?_⟩
    intro l t v hslot husable hv hreceiver
    refine Running.getElem?_resumed hr hpt hkept args hslot husable hv fun hl => hreceiver ?_
    unfold Subject.firstLocal at hl
    rwa [hp.method_eq] at hl

/-! ## A receiver that is stored to -/

/-- A method with a receiver that puts a text into a local and then makes a call that may suspend. -/
def remembering (n : UInt32) : Method where
  name := "f"
  desc := "()V"
  maxLocals := 2
  code := #[⟨.ldc, .text "x"⟩, .slot (.store .ref) n, .member (.invoke .static) "A" "g" "()V",
    .plain .returnVoid]

/-- The frame before the call. -/
def rememberingFrame (n : UInt32) : Frame where
  locals := #[SlotType.ref "A", .unusable].set! n.toNat (.ref ClassName.string)

/-- Texts, and objects of the class. -/
def World.ofTexts : World where
  inst v c := c = ClassName.object ∨ (∃ t, v = .text t) ∧ c = ClassName.string
    ∨ (∃ o, v = .object o) ∧ c = "A"
  inst_object _ := Or.inl rfl
  not_inst_null v h := by
    rcases h with h | ⟨-, h⟩ | ⟨-, h⟩ <;> exact absurd h (by decide)
  made _ c := c = "A"
  inst_of_made h := Or.inr (Or.inr ⟨⟨_, rfl⟩, h⟩)
  inst_text t := Or.inr (Or.inl ⟨⟨t, rfl⟩, rfl⟩)

/-- Surroundings in which one object is the suspend signal. -/
def Surroundings.plain : Surroundings where
  handle := 0
  signal := 1
  isA obj cls := obj == 1 && cls == ClassName.suspendSignal
  signal_isA := by decide

variable {n : UInt32} {nm : Method} {p : Plan}

set_option maxRecDepth 100000 in
/-- It is transformed, its frames are small, and the one before its call is as it should be. -/
lemma remembering_computed (hn : n = 0 ∨ n = 1) :
    (((Method.transform {} {} "A" (remembering n)).run {}).1.toOption.join).isSome = true
      ∧ (remembering n).leavesRoom {} "A" {} 3 = true
      ∧ ((Analysis.run ⟨{}, ({} : ClassSource).sink, "A", remembering n⟩).run {}).1.toOption.all
        (fun T => decide (T.frames[2]? = some (some (rememberingFrame n)))) = true := by
  rcases hn with rfl | rfl <;> decide +kernel

lemma remembering_frame (hn : n = 0 ∨ n = 1) (hp : Plan.Makes {} "A" (remembering n) {} p nm) :
    p.subject.types.frames[2]? = some (some (rememberingFrame n)) := by
  obtain ⟨h₁, h₂, htypes, -⟩ := hp.found
  have hall := (remembering_computed hn).2.2
  rw [htypes] at hall
  exact of_decide_eq_true hall

lemma remembering_fits (hn : n = 0 ∨ n = 1) (hp : Plan.Makes {} "A" (remembering n) {} p nm) :
    p.NumbersFit :=
  hp.numbersFit (remembering_computed hn).2.1

/-- The call is its only suspension point. -/
lemma remembering_point (hn : n = 0 ∨ n = 1) (hp : Plan.Makes {} "A" (remembering n) {} p nm) :
    ∃ pt, p.points[0]? = some pt ∧ pt.position = 2 ∧ pt.frame = rememberingFrame n
      ∧ pt.isYield = false ∧ pt.call = .member (.invoke .static) "A" "g" "()V" := by
  obtain ⟨pt, hpt⟩ : ∃ pt, p.points[0]? = some pt := by
    cases hpoints : p.points with
    | nil => exact absurd hpoints hp.nonempty
    | cons pt points => exact ⟨pt, rfl⟩
  have hfound := hp.sound.found pt (List.mem_of_getElem? hpt)
  obtain ⟨instr, m, hat, hcallee, hcall, hyield⟩ := hfound.call
  rw [hp.method_eq] at hat
  have hlt := (Array.getElem?_eq_some_iff.mp hat).1
  have hpos : pt.position = 2 := by
    have hlt : pt.position < 4 := hlt
    generalize pt.position = j at hat hlt
    rcases j with _ | _ | _ | _ | j
    · cases hat
      cases hcallee
    · cases hat
      cases hcallee
    · rfl
    · cases hat
      cases hcallee
    · omega
  have hcode : (remembering n).code[2]? = some (.member (.invoke .static) "A" "g" "()V") := rfl
  rw [hpos, hcode] at hat
  obtain rfl := (Option.some.inj hat).symm
  have hm : m = ⟨"A", "g", "()V"⟩ := by
    have : (Instruction.member (.invoke .static) "A" "g" "()V").callee? = some ⟨"A", "g", "()V"⟩ := by
      decide +kernel
    rw [this] at hcallee
    exact (Option.some.inj hcallee).symm
  subst hm
  refine ⟨pt, hpt, hpos, ?_, ?_, ?_⟩
  · have hframe := hfound.frame_at
    rw [hpos, remembering_frame hn hp] at hframe
    exact (Option.some.inj (Option.some.inj hframe)).symm
  · cases hy : pt.isYield with
    | false => rfl
    | true => exact absurd (hyield hy).1 (by decide +kernel)
  · rcases hcall with hcall | ⟨hreflective, -⟩
    · exact hcall
    · exact absurd hreflective (by decide +kernel)

/-- Its receiver is an object, and the text is where it has been put. -/
lemma remembering_arrives (hn : n = 0 ∨ n = 1) (hp : Plan.Makes {} "A" (remembering n) {} p nm)
    {pt : SuspensionPoint} (hpos : pt.position = 2) (hframe : pt.frame = rememberingFrame n) :
    Running.Arrives .ofTexts .plain p 0 pt
      ⟨⟨p.place 2, #[.object 7, .null, .object 0].set! n.toNat (.text "x"), []⟩, { depth := 1 }⟩ := by
  have hmax : p.stackVar.toNat = 2 := by
    unfold Plan.stackVar
    rw [hp.method_eq]
    rfl
  refine ⟨⟨?_, rfl⟩, by rw [hpos], Nat.zero_lt_succ 15, ?_, ?_⟩
  · rw [hmax]
    rcases hn with rfl | rfl <;> rfl
  · rw [hframe]
    intro l t ht
    have hlt : l < 2 := by
      have := (Array.getElem?_eq_some_iff.mp ht).1
      simpa [rememberingFrame] using this
    have htext : World.ofTexts.Holds (.ref ClassName.string) (.text "x") :=
      ⟨rfl, Or.inr (World.ofTexts.inst_text _)⟩
    have hobject : World.ofTexts.Holds (.ref "A") (.object 7) :=
      ⟨rfl, Or.inr (Or.inr (Or.inr ⟨⟨7, rfl⟩, rfl⟩))⟩
    rcases hn with rfl | rfl <;> rcases l with _ | _ | l
    · cases ht
      exact ⟨_, rfl, htext⟩
    · cases ht
      exact ⟨_, rfl, trivial⟩
    · omega
    · cases ht
      exact ⟨_, rfl, hobject⟩
    · cases ht
      exact ⟨_, rfl, htext⟩
    · omega
  · rw [hframe]
    exact .nil

/-- The suspend signal may come out of the call. -/
lemma remembering_raises (hn : n = 0 ∨ n = 1) (hp : Plan.Makes {} "A" (remembering n) {} p nm)
    {pt : SuspensionPoint} {i : Nat} (hpt : p.points[i]? = some pt) (hyield : pt.isYield = false)
    (hcall : pt.call = .member (.invoke .static) "A" "g" "()V") {c : Running}
    (hpc : c.act.pc = p.imageAt pt.position) :
    Running.Raises .plain p nm c 1 c.act c.stack := by
  have hr := hp.ready (remembering_fits hn hp) (ClassSource.agrees_empty {}) (Hierarchy.agrees_empty {})
  obtain ⟨⟨q, L, vs⟩, s⟩ := c
  obtain rfl : q = p.imageAt pt.position := hpc
  have hat := (Plan.pointCode hr.lays hr.sound hpt).call hyield
  rw [← Running.imageAt_point hr hpt hyield, hcall] at hat
  have hstep : Activation.step (.ofMethod nm) ⟨p.imageAt pt.position, L, [] ++ vs⟩ = _ :=
    Running.step_call ⟨[], "V"⟩ [] hat (by decide +kernel) rfl
  refine .mk hstep ?_ ⟨by simp, by simp, fun h => absurd Surroundings.plain.signal_isA h,
    fun _ => rfl⟩
  rintro ⟨hown, -⟩
  obtain ⟨instr, -, hinstr, -⟩ := hr.sound.point_call hpt
  exact hown pt.position instr (Plan.survives_point hr.sound hpt hyield hinstr) rfl

lemma remembering_transforms (hn : n = 0 ∨ n = 1) :
    ∃ nm h', (Method.transform {} {} "A" (remembering n)).run {} = (.ok (some nm), h') :=
  Method.exists_transformed (remembering_computed hn).1

/-- The theorem at a method that keeps a text in a local of its own, left and entered again with its
receiver. -/
theorem remembering_resumes : ∃ nm h' p pt c c',
    (Method.transform {} {} "A" (remembering 1)).run {} = (.ok (some nm), h')
      ∧ Plan.Makes {} "A" (remembering 1) {} p nm ∧ p.NumbersFit ∧ pt ∈ p.points
      ∧ pt.frame.locals[1]? = some (.ref ClassName.string)
      ∧ Running.Stands .ofTexts .plain p nm 0 pt c ∧ c.act.locals[1]? = some (.text "x")
      ∧ Running.Raises .plain p nm c 1 c.act c.stack ∧ Surroundings.plain.IsSignal 1
      ∧ Relation.ReflTransGen (Running.Proceeds World.ofTexts.toClasses .plain p nm)
          ⟨Activation.enter nm [.object 7], c.stack.rewind⟩ c'
      ∧ c'.act.pc = p.place pt.position + p.afterOffset pt
      ∧ c'.act.locals[1]? = some (.text "x") ∧ c'.act.locals[0]? = some (.object 7) := by
  obtain ⟨nm, h', ht⟩ := remembering_transforms (n := 1) (Or.inr rfl)
  obtain ⟨p, hp, hresumes⟩ := Method.transform_resumes ht
  obtain ⟨pt, hpt, hpos, hframe, hyield, hcall⟩ := remembering_point (Or.inr rfl) hp
  have hmem := List.mem_of_getElem? hpt
  have hfit := remembering_fits (Or.inr rfl) hp
  have hraises := @remembering_raises 1 nm p (Or.inr rfl) hp pt 0 hpt hyield hcall
  obtain ⟨harrive, hleave⟩ := hresumes hfit .ofTexts .plain 0 pt hmem
  obtain ⟨c, hstands, -, hpc, hlocals⟩ := harrive _ (remembering_arrives (Or.inr rfl) hp hpos hframe)
  have hslot : pt.frame.locals[1]? = some (.ref ClassName.string) := by
    rw [hframe]
    rfl
  have hreceiver : pt.frame.locals[0]? = some (.ref "A") := by
    rw [hframe]
    rfl
  have htext := hlocals 1 _ hslot (by simp)
  have hobject := hlocals 0 _ hreceiver (by simp)
  have hr := hp.ready hfit (ClassSource.agrees_empty {}) (Hierarchy.agrees_empty {})
  obtain ⟨stack, locals, hkept⟩ := hstands.kept hr hpt
  have hrecord : c.stack.rewind.record? 0 = some (c.stack.recordAt 0) := if_pos hkept.room
  obtain ⟨c', hrun, hpc', hsame⟩ := hleave c hstands 1 c.act c.stack (hraises (hpc hyield))
    Surroundings.plain.signal_isA [.object 7] c.stack.rewind rfl hrecord
  refine ⟨nm, h', p, pt, c, c', ht, hp, hfit, hmem, hslot, hstands, htext, hraises (hpc hyield),
    Surroundings.plain.signal_isA, hrun, hpc', ?_, ?_⟩
  · exact hsame 1 _ _ hslot (by simp) htext fun h => absurd h (by decide)
  · exact hsame 0 _ _ hreceiver (by simp) hobject fun _ => rfl

/-- **What is stored in place of the receiver is lost.**  A method that puts a text there holds it while it
waits; when it is left and entered again with its receiver, the local holds the receiver. -/
theorem remembering_not_resumed : ∃ nm h' p pt c,
    (Method.transform {} {} "A" (remembering 0)).run {} = (.ok (some nm), h')
      ∧ Plan.Makes {} "A" (remembering 0) {} p nm ∧ p.NumbersFit ∧ pt ∈ p.points
      ∧ pt.frame.locals[0]? = some (.ref ClassName.string)
      ∧ Running.Stands .ofTexts .plain p nm 0 pt c ∧ c.act.locals[0]? = some (.text "x")
      ∧ Running.Raises .plain p nm c 1 c.act c.stack ∧ Surroundings.plain.IsSignal 1
      ∧ c.stack.rewind.record? 0 = some (c.stack.recordAt 0)
      ∧ (∃ c', Relation.ReflTransGen (Running.Proceeds World.ofTexts.toClasses .plain p nm)
          ⟨Activation.enter nm [.object 7], c.stack.rewind⟩ c'
        ∧ c'.act.pc = p.place pt.position + p.afterOffset pt)
      ∧ ∀ c', Relation.ReflTransGen (Running.Proceeds World.ofTexts.toClasses .plain p nm)
          ⟨Activation.enter nm [.object 7], c.stack.rewind⟩ c' →
        c'.act.pc = p.place pt.position + p.afterOffset pt →
        c'.act.locals[0]? = some (.object 7) := by
  obtain ⟨nm, h', ht⟩ := remembering_transforms (n := 0) (Or.inl rfl)
  obtain ⟨p, hp⟩ := Method.transform_makes ht
  obtain ⟨pt, hpt, hpos, hframe, hyield, hcall⟩ := remembering_point (Or.inl rfl) hp
  have hfit := remembering_fits (Or.inl rfl) hp
  have hr := hp.ready hfit (ClassSource.agrees_empty {}) (Hierarchy.agrees_empty {})
  have harrives := remembering_arrives (Or.inl rfl) hp hpos hframe
  obtain ⟨c, stack, locals, hrun, hwaits, hkept, hlocals, hpc⟩ := harrives.waits hr hpt
  have hraises := @remembering_raises 0 nm p (Or.inl rfl) hp pt 0 hpt hyield hcall c (hpc hyield)
  have hslot : pt.frame.locals[0]? = some (.ref ClassName.string) := by
    rw [hframe]
    rfl
  have hrecord : c.stack.rewind.record? 0 = some (c.stack.recordAt 0) := if_pos hkept.room
  have hresumed := Running.reaches_resumed (S := .plain) hr hpt hkept.filled [.object 7] hrecord
    (hkept.left hraises Surroundings.plain.signal_isA)
  refine ⟨nm, h', p, pt, c, ht, hp, hfit, List.mem_of_getElem? hpt, hslot, .arrived harrives hrun hwaits,
    hlocals 0 _ hslot (by simp), hraises, Surroundings.plain.signal_isA, hrecord, ⟨_, hresumed, rfl⟩,
    fun c' hrun' hpc' => ?_⟩
  -- there is one way to the call, and it leads through the restored frame
  have hafter := (Plan.pointCode hr.lays hr.sound hpt).after
  have hwait := hresumed.tail (.advances (Running.advances_mark hafter))
  obtain ⟨⟨q, L, vs⟩, s⟩ := c'
  obtain rfl : q = p.place pt.position + p.afterOffset pt := hpc'
  have hwait' := hrun'.tail (.advances (Running.advances_mark hafter))
  have heq := Running.Waits.unique hwait hwait' (Running.waits_call hr hpt hyield _ _ _)
    (Running.waits_call hr hpt hyield _ _ _)
  have hL := congrArg (fun c => c.act.locals[0]?) heq
  simp only at hL
  have hfirst : p.subject.firstLocal = 1 := by
    unfold Subject.firstLocal
    rw [hp.method_eq]
    rfl
  have hwidth := (Running.atPlan hr hpt).locals
  have hreceiver := (Running.atPlan hr hpt).receiver
  show L[0]? = some (.object 7)
  rw [← hL]
  exact Running.getElem?_receiver hr _ (by omega) (by omega) rfl

end Suspension
