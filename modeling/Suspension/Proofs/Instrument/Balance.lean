import Suspension.Proofs.Instrument.Passage
import Suspension.Proofs.Instrument.Slots

/-!
# The frame stack is balanced

A transformed method enters a record when it starts.  **When it returns, or when an exception leaves it,
it has popped that record; when the suspend signal leaves it at a suspension point, the record is there,
with the entry of the point and as many slots as its frame needs.**  Nothing is assumed about the values
that the method is given: only that what it calls leaves the frame stack as deep as it was, and that the
suspend signal leaves the record alone.

* `Running.balanced_segment` — the segments of all instructions, by induction on the number of steps.
* `Running.balanced_enter` — the prologue, at the beginning and when a method is resumed.
* `Method.transform_balanced` — transformed methods keep the frame stack balanced.
-/

namespace Suspension

namespace Plan

variable {p : Plan}

/-- The number of a point is a number of the machine. -/
lemma Sound.entry_eq (hp : p.Sound) {i : Nat} {pt : SuspensionPoint} (h : p.points[i]? = some pt) :
    pt.entry = i + 1 := by
  have hmap : (p.points.map (·.entry))[i]? = some pt.entry := by simp [h]
  have hlt := (List.getElem?_eq_some_iff.mp h).1
  rw [hp.entries, List.getElem?_range' hlt] at hmap
  simp only [Option.some.injEq] at hmap
  omega

lemma LabelsFit.entry_lt (hp : p.Sound) (hf : p.LabelsFit) {i : Nat} {pt : SuspensionPoint}
    (h : p.points[i]? = some pt) : pt.entry < 2147483648 := by
  have hlt := (List.getElem?_eq_some_iff.mp h).1
  have hfresh := hf.fresh
  have := hp.entry_eq h
  unfold freshCount UInt32.size at hfresh
  omega

end Plan

/-! ## The number of slots -/

/-- No construction needs more temporaries than its frame has values. -/
lemma Plan.temporaries_le {p : Plan} {b : Nat} (hb : ∀ (i : Nat) (f : Frame),
    p.subject.types.frames[i]? = some (some f) → f.stack.length ≤ b) (l : List Instruction) (i : Nat) :
    p.temporaries i l ≤ b := by
  induction l generalizing i with
  | nil => exact Nat.zero_le _
  | cons instr l ih =>
      refine Nat.max_le.mpr ⟨?_, ih (i + 1)⟩
      split
      · next e hdef =>
          obtain ⟨m, f, cls, cls', dupAt, rest, h⟩ := deferral?_eq_some hdef
          have hf := hb i f h.frame_at
          rw [h.stack, List.length_append] at hf
          omega
      · exact Nat.zero_le _

/-- **Numbers fit when frames are small enough.** -/
lemma Plan.Sound.numbersFit {p : Plan} (hp : p.Sound) (hlabels : p.LabelsFit) {b : Nat}
    (hb : ∀ (i : Nat) (f : Frame), p.subject.types.frames[i]? = some (some f) →
      f.stack.length + f.locals.size ≤ b) (hslots : b < 2147483648)
    (hlocals : p.stackVar.toNat + 1 + b < 4294967296) : p.NumbersFit where
  labels := hlabels
  locals := by
    have := p.temporaries_le (b := b) (fun i f hf => by have := hb i f hf; omega) p.code.toList 0
    omega
  slots pt hpt := by
    have hfound := hp.found pt hpt
    have := hfound.laidOut.counts_le
    have := hb _ _ hfound.frame_at
    omega

/-- Whether the labels and the frames of a method leave room for more, where no frame holds more than `b`
values. -/
def Method.leavesRoom (src : ClassSource) (owner : Text) (h : Hierarchy) (b : Nat) (m : Method) : Bool :=
  ((Code.labelsInUse m.code m.ranges).all fun id => decide (id.toNat + 1 < UInt32.size))
    && decide (m.nextLabel.toNat + 3 * m.code.size + 4 ≤ UInt32.size)
    && ((Analysis.run ⟨src, src.sink, owner, m⟩).run h).1.toOption.all (fun T =>
      T.frames.all fun f => f.all fun f => decide (f.stack.length + f.locals.size ≤ b))
    && decide (b < 2147483648 ∧ m.maxLocals.toNat + 1 + b < 4294967296)

/-- **The numbers that are added to a method fit** where its labels and its frames leave room. -/
lemma Plan.Makes.numbersFit {src : ClassSource} {owner : Text} {m nm : Method} {h : Hierarchy} {p : Plan}
    (hp : p.Makes src owner m h nm) {b : Nat} (hroom : m.leavesRoom src owner h b = true) :
    p.NumbersFit := by
  simp only [Method.leavesRoom, Bool.and_eq_true, decide_eq_true_eq] at hroom
  obtain ⟨⟨⟨hinUse, hfresh⟩, hframes⟩, hslots, hlocals⟩ := hroom
  obtain ⟨h₁, h₂, htypes, -⟩ := hp.found
  rw [htypes] at hframes
  have hmethod := hp.method_eq
  refine hp.sound.numbersFit (hp.labelsFit hinUse hfresh) (fun i f hf => ?_) hslots ?_
  · exact of_decide_eq_true (Array.all_eq_true_iff_forall_mem.mp hframes _ (Array.mem_of_getElem? hf))
  · unfold Plan.stackVar
    rwa [hmethod]

namespace Running

variable {S : Surroundings} {p : Plan} {nm : Method} {C : Classes} {d n : Nat}
  {Φ : FrameStack Value → Prop}

/-! ## Segments -/

/-- **The image of an instruction**, at the end of the segment: control goes to where it may go in the
method, and requests are up to the surroundings. -/
lemma balanced_image (hr : p.Ready C nm) {j : Nat} {instr : Instruction} (hsurv : p.Survives j instr)
    (hret : instr.opcode.isReturn = false) {L : Array Value} {vs : List Value} {s : FrameStack Value}
    {f : Frame} (hf : p.subject.types.frames[j]? = some (some f)) (hin : Inside S p d L s)
    (hheld : ∀ pt ∈ p.points, pt.position = j → Held d pt s)
    (hsegment : ∀ m, m < n → ∀ j c, AtSegment S p d j c → Balanced S p nm d m c) :
    Balanced S p nm d n ⟨⟨p.imageAt j, L, vs⟩, s⟩ := by
  obtain ⟨hw, img, hat, himg⟩ := hsurv.image hr.lays hr.sound
  have hfollows := hr.follows_image hf hsurv.code_at himg
  have hq : p.imageAt j + 1 = p.place (j + 1) := by
    have := hw.high
    unfold Plan.imageAt at this ⊢
    omega
  have hstep : Activation.step (.ofMethod nm) ⟨p.imageAt j, L, vs⟩ = _ := step_eq hat
  have halike := Activation.execute_flows (Body.ofMethod nm).target ⟨p.imageAt j, L, vs⟩ img
  have hheld' : ∀ pt ∈ p.points, p.place pt.position ≤ p.imageAt j →
      p.imageAt j < p.place (pt.position + 1) → Held d pt s := by
    intro pt hpt hlow hhigh
    exact hheld pt hpt (Plan.segment_unique hlow hhigh hw.low hw.high)
  rw [← hstep] at halike
  cases n with
  | zero => trivial
  | succ n =>
      generalize hout : Activation.step (.ofMethod nm) ⟨p.imageAt j, L, vs⟩ = out at halike
      cases halike with
      | next hend =>
          refine Balanced.before (.next hout) (hsegment n (by omega) (j + 1) _ ⟨hin, hq, ?_⟩)
          exact hfollows.next hend
      | changes hn hi hi' hend =>
          next vs' i v =>
          refine Balanced.before (.next hout) (hsegment n (by omega) (j + 1) _ ⟨⟨?_, hin.depth⟩, hq, ?_⟩)
          · have hne : i.toNat ≠ p.stackVar.toNat := Nat.ne_of_lt (hfollows.changes i hn)
            have hhandle := hin.handle
            simp only [Array.set!_eq_setIfInBounds, Array.getElem?_setIfInBounds_ne hne]
            exact hhandle
          · exact hfollows.next hend
      | jumps hid =>
          next vs' id =>
          obtain ⟨i, g, hi, hg⟩ := hfollows.targets id hid
          refine Balanced.before (.next hout) (hsegment n (by omega) i _ ⟨hin, ?_, g, hg⟩)
          have hplace := hr.lays.labelAt?_user hr.sound hr.labels hi
          show (nm.code.labelAt? id).getD 0 = p.place i
          rw [hplace]
          rfl
      | returns hret' =>
          rcases himg with rfl | ⟨rfl, -⟩
          · rw [hret] at hret'
            cases hret'
          · cases hret'
      | asks hend =>
          next vs' r =>
          refine balanced_asks hr hout (fun hown => absurd rfl (hown j instr hsurv)) hin
            (landing_within hr hw hf) hheld' hsegment ?_
          intro m hm v s' hexit _ hdepth
          refine hsegment m hm (j + 1) _ ⟨⟨hin.handle, hdepth.trans hin.depth⟩, hq, hfollows.next ?_⟩
          cases hblock : img.opcode.endsBlock with
          | false => rfl
          | true =>
              rw [hend hblock] at hexit
              cases hexit
      | crash => exact balanced_of_crash hout

/-! ### Returns -/

/-- A return asks for nothing. -/
lemma step_of_isReturn {q : Nat} {instr : Instruction} {L : Array Value} {vs : List Value}
    (hat : nm.code[q]? = some instr) (hret : instr.opcode.isReturn = true) :
    (∃ v, Activation.step (.ofMethod nm) ⟨q, L, vs⟩ = .returns v)
      ∨ Activation.step (.ofMethod nm) ⟨q, L, vs⟩ = .crash := by
  rw [step_eq hat]
  obtain ⟨op, operand⟩ := instr
  cases op <;> cases hret
  · cases vs with
    | nil => exact Or.inr rfl
    | cons v vs => exact Or.inl ⟨v, rfl⟩
  · exact Or.inl ⟨.null, rfl⟩

/-- **A return** pops the record first. -/
lemma balanced_returns (hr : p.Ready C nm) {j : Nat} {instr : Instruction} (hj : j < p.code.size)
    (hseg : p.segmentAt j = [.slot (.load .ref) p.stackVar, Emit.popMethod, instr])
    (hret : instr.opcode.isReturn = true) {L : Array Value} {vs : List Value} {s : FrameStack Value}
    (hin : Inside S p d L s) (hpt : ∀ pt ∈ p.points, pt.position ≠ j) :
    Balanced S p nm d n ⟨⟨p.place j, L, vs⟩, s⟩ := by
  have hcode := hr.lays.segment j hj
  have hnext := p.place_succ j
  rw [hseg] at hcode hnext
  have hown : p.Own (p.place j + 1) :=
    Plan.own_of_lt (j := j) hr.lays hr.sound (by omega) (by rw [hnext]; simp)
  have hat : nm.code[p.place j + 2]? = some instr := hcode 2 (by simp)
  refine Balanced.of_advances (advances_load (hcode 0 (by simp)) hin.handle) ?_
  refine Balanced.of_advances (advances_popMethod hown (hcode 1 (by simp))) ?_
  have hleft : Left d s.pop := by
    have hpos : 0 < s.depth := by rw [hin.depth]; omega
    have hrec := FrameStack.recordAt_pop hpos
    rw [hin.depth] at hrec
    exact ⟨by rw [FrameStack.depth_pop hpos, hin.depth]; rfl, hrec⟩
  have hend : (∃ v, Activation.step (.ofMethod nm) ⟨p.place j + 2, L, vs⟩ = .returns v)
      ∨ Activation.step (.ofMethod nm) ⟨p.place j + 2, L, vs⟩ = .crash := step_of_isReturn hat hret
  rcases hend with ⟨v, hv⟩ | hcrash
  · cases n with
    | zero => trivial
    | succ n =>
        refine ⟨fun o s' hends _ => ?_, fun pt hmem hlow hhigh => ?_, fun c' ht => ?_⟩
        · cases hends with
          | returned _ => exact hleft
          | threw hraises _ =>
              obtain ⟨h', -, -⟩ := hraises
              rw [hv] at h'
              cases h'
        · simp only at hlow hhigh
          exact absurd (Plan.segment_unique hlow hhigh (by omega) (by rw [hnext]; simp)) (hpt pt hmem)
        · cases ht with
          | advances hadv =>
              rcases hadv with h' | ⟨-, h', -⟩
              · rw [hv] at h'
                cases h'
              · rw [hv] at h'
                cases h'
          | answered h' _ _ _ _ =>
              rw [hv] at h'
              cases h'
          | caught hraises _ =>
              obtain ⟨h', -, -⟩ := hraises
              rw [hv] at h'
              cases h'
  · exact balanced_of_crash hcrash

/-! ### Redone constructions -/

lemma passes_map {α : Type} {xs : List α} {g : α → Instruction}
    (h : ∀ x ∈ xs, Harmless p.stackVar.toNat (g x)) : Passes S p nm d Φ (xs.map g) := by
  induction xs with
  | nil => exact passes_nil
  | cons x xs ih =>
      exact passes_append (l := [g x]) (passes_harmless (h x List.mem_cons_self))
        (ih fun y hy => h y (List.mem_cons_of_mem x hy))

lemma passes_spill (hr : p.Ready C nm) {args : List SlotType}
    (hargs : args.length ≤ p.temporaries 0 p.code.toList) :
    Passes S p nm d Φ (Plan.spill (p.stackVar + 1) args) := by
  refine passes_map fun x hx => harmless_storeOf _ ?_
  have hlt := (List.mem_zipIdx' hx).1
  rw [Plan.LocalsFit.toNat_temporary hr.locals (by omega)]
  omega

lemma passes_reload (args : List SlotType) (base : UInt32) :
    Passes S p nm d Φ (Plan.reload base args) := by
  unfold Plan.reload
  rw [← List.map_reverse]
  exact passes_map fun x _ => harmless_loadOf _ _ _

/-- **A new object** may be refused, and its class may run code first. -/
lemma passes_create (hr : p.Ready C nm) (cls : Text) :
    Passes S p nm d (fun _ => True) [⟨.new, .type cls⟩] := by
  intro n q L vs s hcode hown hheld hsegment hin _ hend
  have hat : nm.code[q]? = some ⟨.new, .type cls⟩ := hcode 0 (by simp)
  have hstep : Activation.step (.ofMethod nm) ⟨q, L, vs⟩ = .asks (.create cls) ⟨q, L, vs⟩ := by
    rw [step_eq hat]
    rfl
  refine balanced_asks hr hstep (fun _ => rfl) hin (hown 0 (by simp)).2 ?_ hsegment ?_
  · exact fun pt hpt hlow hhigh => hheld 0 (by simp) pt hpt hlow hhigh s trivial
  · intro m hm v s' _ _ hdepth
    exact (hend L _ s' ⟨hin.handle, hdepth.trans hin.depth⟩ trivial).mono (Nat.le_of_lt hm)

/-- What is generated in front of a constructor call whose construction is redone. -/
lemma passes_redone (hr : p.Ready C nm) {j : Nat} {instr : Instruction} {e : Plan.Deferral}
    (hj : p.code[j]? = some instr) (hdef : p.deferral? j instr = .ok (some e)) :
    Passes S p nm d (fun _ => True)
      (Plan.spill (p.stackVar + 1) e.args ++ [e.create, e.copy]
        ++ Plan.reload (p.stackVar + 1) e.args) := by
  obtain ⟨m, f, cls, cls', dupAt, rest, hredoes⟩ := Plan.deferral?_eq_some hdef
  obtain ⟨hcreate, hcopy⟩ := hredoes.instructions hr.sound
  have hargs : e.args.length ≤ p.temporaries 0 p.code.toList :=
    Plan.args_le_temporaries (k := j) (by simpa using hj) (by simpa using hdef)
  refine passes_append (passes_append (passes_spill hr hargs) ?_) (passes_reload e.args _)
  refine passes_append (l := [e.create]) (hcreate ▸ passes_create hr _) (passes_harmless ?_)
  rw [show e.copy = ⟨.dup, e.copy.operand⟩ from hcopy ▸ rfl]
  exact harmless_dup _ _

/-! ### Points -/

lemma Held.store {pt : SuspensionPoint} {s : FrameStack Value} (h : Held d pt s)
    (hd : s.depth = d + 1) (k : Kind) (i : Nat) (v : Value) :
    Held d pt (s.setCurrent (s.topRecord.store k i v)) := by
  have htop := s.topRecord_setCurrent (s.topRecord.store k i v)
  have hrec : (s.setCurrent (s.topRecord.store k i v)).recordAt d = s.topRecord.store k i v := by
    rw [FrameStack.topRecord, FrameStack.depth_setCurrent, hd] at htop
    exact htop
  have hold : s.topRecord = s.recordAt d := by
    rw [FrameStack.topRecord, hd]
    rfl
  obtain ⟨h₁, h₂, h₃⟩ := h
  rw [← hold] at h₁ h₂ h₃
  exact ⟨by rw [hrec]; simpa using h₁, by rw [hrec]; simpa using h₂, by rw [hrec]; simpa using h₃⟩

/-- **Pushing the record of a point**: it has the entry of the point and room for its slots. -/
lemma balanced_push (hr : p.Ready C nm) {i q : Nat} {pt : SuspensionPoint}
    (hpt : p.points[i]? = some pt) (hown : p.Own (q + 4))
    (hcode : nm.code.Has q [.slot (.load .ref) p.stackVar, .int (Int32.ofNat pt.entry),
      .int (Int32.ofNat pt.plan.counts.objects), .int (Int32.ofNat pt.plan.counts.prims),
      Emit.pushMethod]) {L : Array Value} {vs : List Value} {s : FrameStack Value}
    (hin : Inside S p d L s)
    (hend : ∀ s', Inside S p d L s' → Held d pt s' → Balanced S p nm d n ⟨⟨q + 5, L, vs⟩, s'⟩) :
    Balanced S p nm d n ⟨⟨q, L, vs⟩, s⟩ := by
  obtain ⟨hobjects, hprims⟩ := hr.slots pt (List.mem_of_getElem? hpt)
  have hentry := hr.labels.entry_lt hr.sound hpt
  have hat : nm.code[q + 4]? = some Emit.pushMethod := hcode 4 (by simp)
  refine Balanced.of_advances (advances_load (hcode 0 (by simp)) hin.handle) ?_
  refine Balanced.of_advances (advances_int (hcode 1 (by simp))) ?_
  refine Balanced.of_advances (advances_int (hcode 2 (by simp))) ?_
  refine Balanced.of_advances (advances_int (hcode 3 (by simp))) ?_
  cases hpush : s.push (Int32.ofNat pt.entry).toInt (Int32.ofNat pt.plan.counts.objects).toInt
      (Int32.ofNat pt.plan.counts.prims).toInt with
  | mk done s' =>
      cases done with
      | true =>
          refine Balanced.of_advances (advances_pushMethod hown hat hpush) ?_
          obtain ⟨-, rfl⟩ := FrameStack.push_eq_true hpush
          rw [toInt_ofNat hobjects, toInt_ofNat hprims, toInt_ofNat hentry]
          have htop := s.topRecord_setCurrent ⟨(pt.entry : Int),
            Array.replicate (pt.plan.counts.objects : Int).toNat default,
            Array.replicate (pt.plan.counts.prims : Int).toNat 0⟩
          rw [FrameStack.topRecord, FrameStack.depth_setCurrent, hin.depth, Nat.add_sub_cancel] at htop
          refine hend _ ⟨hin.handle, hin.depth⟩ ⟨?_, ?_, ?_⟩
          · rw [htop]
          · rw [htop]
            simp
          · rw [htop]
            simp
      | false =>
          -- the runtime refuses a push that there is no room for
          have hn : Native.stackTable.lookup (Native.key ClassName.frameStack "pushMethod" "(III)V")
              = some .pushMethod := by decide +kernel
          refine balanced_of_misuse hown (step_call ⟨["I", "I", "I"], "V"⟩
            [.int (Int32.ofNat pt.plan.counts.prims), .int (Int32.ofNat pt.plan.counts.objects),
              .int (Int32.ofNat pt.entry), .object S.handle] hat (by decide +kernel) rfl)
            ((serve_op hn rfl).trans ?_)
          simp only [Option.bind_some, FrameStack.apply, hpush]
          rfl

/-- **The positions of a point up to its call** are the transformation's own, and exceptions land well
there.  The label behind the saved region is the last of them, and the only one that a handler of the
method may cover. -/
lemma landing_point (hr : p.Ready C nm) {i k : Nat} {pt : SuspensionPoint}
    (hpt : p.points[i]? = some pt) (hk : k ≤ p.afterOffset pt) :
    p.Own (p.place pt.position + k) ∧ Landing S p nm (p.place pt.position + k) := by
  have hcode := Plan.pointCode hr.lays hr.sound hpt
  have hmem := List.mem_of_getElem? hpt
  obtain ⟨instr, mode, hat, hop, -⟩ := hr.sound.point_call hpt
  have hnext := hcode.next
  constructor
  · cases hyield : pt.isYield with
    | false =>
        rw [hyield] at hnext
        exact Plan.own_of_lt (j := pt.position) hr.lays hr.sound (by omega) (by rw [hnext]; simp; omega)
    | true =>
        refine Plan.own_of_not_survives (j := pt.position) hr.lays hr.sound (by omega) (by omega)
          fun instr' h => ?_
        rw [h.noYield pt hmem rfl] at hyield
        cases hyield
  · by_cases hlt : k < p.afterOffset pt
    · exact landing_saved hr hpt (by omega) (by omega)
    · refine landing_within hr ⟨(hr.sound.segmentAt_point hpt).1, ?_, by omega, by omega, ?_⟩
        (hr.sound.found pt hmem).frame_at
      · rintro ⟨instr', hat', hmark⟩
        rw [hat] at hat'
        cases hat'
        simp [Instruction.isMark, hop] at hmark
      · intro i' pt' hpt' hpos
        obtain ⟨rfl, rfl⟩ := hr.sound.point_unique hpt hpt' hpos.symm
        omega

/-- The only point whose segment holds a position of a point's is that point. -/
lemma Held.of_segment (hr : p.Ready C nm) {i k : Nat} {pt : SuspensionPoint}
    (hpt : p.points[i]? = some pt) (hk : k ≤ p.afterOffset pt) :
    ∀ pt' ∈ p.points, p.place pt'.position ≤ p.place pt.position + k →
      p.place pt.position + k < p.place (pt'.position + 1) →
        ∀ s : FrameStack Value, Held d pt s → Held d pt' s := by
  intro pt' hpt' hlow hhigh s h
  have hnext := (Plan.pointCode hr.lays hr.sound hpt).next
  obtain ⟨i', hi'⟩ := List.getElem?_of_mem hpt'
  have hpos := Plan.segment_unique hlow hhigh (show p.place pt.position ≤ _ by omega) (by omega)
  obtain ⟨-, rfl⟩ := hr.sound.point_unique hi' hpt hpos
  exact h

/-- Behind the label to resume at: the frame is restored and the call is made again. -/
lemma balanced_resume (hr : p.Ready C nm) {i : Nat} {pt : SuspensionPoint}
    (hpt : p.points[i]? = some pt) {L : Array Value} {vs : List Value} {s : FrameStack Value}
    (hin : Inside S p d L s) (hheld : Held d pt s)
    (hsegment : ∀ m, m < n → ∀ j c, AtSegment S p d j c → Balanced S p nm d m c) :
    Balanced S p nm d n ⟨⟨p.place pt.position + p.resumeOffset pt, L, vs⟩, s⟩ := by
  have hcode := Plan.pointCode hr.lays hr.sound hpt
  have hmem := List.mem_of_getElem? hpt
  have hfound := hr.sound.found pt hmem
  obtain ⟨instr, mode, hat, hop, -⟩ := hr.sound.point_call hpt
  have hnext := hcode.next
  have hrestore := hcode.restore
  have hafter : (Emit.restore p.stackVar p.subject.firstLocal pt
      ++ ([.mark (p.afterLabel i)] : List Instruction)).length + (p.resumeOffset pt + 1)
        = p.afterOffset pt + 1 := by
    simp only [List.length_append, List.length_singleton, Plan.afterOffset]
    omega
  rw [List.append_assoc, List.singleton_append, Code.has_cons] at hrestore
  cases n with
  | zero => trivial
  | succ n =>
      refine Balanced.before (advances_mark hrestore.1) ?_
      have hpass : Passes S p nm d (Held d pt) (Emit.restore p.stackVar p.subject.firstLocal pt
          ++ [.mark (p.afterLabel i)]) := by
        refine passes_append ?_ (passes_harmless (harmless_mark _ _))
        refine passes_append (passes_locals fun k v keep hk hk' => passes_restoreLocal hr ?_ v keep)
          (passes_flatMap fun x => passes_restoreSlot hr _ _)
        have hlen := hfound.laidOut.length_locals
        have hwidth := hr.certified.width _ _ hfound.frame_at
        rw [List.length_drop, hlen, hwidth] at hk'
        unfold Plan.stackVar
        omega
      refine hpass n _ L vs s hrestore.2 (fun k hk => ?_) (fun k hk => ?_)
        (fun m hm => hsegment m (by omega)) hin hheld fun L' vs' s' hin' hheld' => ?_
      · rw [Nat.add_assoc, Nat.add_assoc]
        exact landing_point hr hpt (by omega)
      · rw [Nat.add_assoc, Nat.add_assoc]
        exact Held.of_segment hr hpt (by omega)
      rw [show p.place pt.position + p.resumeOffset pt + 1
          + (Emit.restore p.stackVar p.subject.firstLocal pt
            ++ ([.mark (p.afterLabel i)] : List Instruction)).length
          = p.place pt.position + p.afterOffset pt + 1 by omega]
      cases hyield : pt.isYield with
      | false =>
          have himage : p.imageAt pt.position = p.place pt.position + p.afterOffset pt + 1 := by
            unfold Plan.imageAt
            rw [hnext, hyield]
            simp
          rw [← himage]
          refine balanced_image hr (Plan.survives_point hr.sound hpt hyield hat) (by rw [hop]; rfl)
            hfound.frame_at hin' (fun pt' hpt' hpos => ?_) (fun m hm => hsegment m (by omega))
          obtain ⟨i', hi'⟩ := List.getElem?_of_mem hpt'
          obtain ⟨-, rfl⟩ := hr.sound.point_unique hi' hpt hpos
          exact hheld'
      | true =>
          -- a request to suspend is not repeated: the next segment follows
          rw [hyield, if_pos rfl, Nat.add_zero] at hnext
          refine hsegment n (by omega) (pt.position + 1) _ ⟨hin', hnext.symm, ?_⟩
          exact (hr.follows hfound.frame_at hat).next (by rw [hop]; rfl)

/-- **The segment of a point**: the frame is saved, and then the call is made or the signal thrown. -/
lemma balanced_point (hr : p.Ready C nm) {i : Nat} {pt : SuspensionPoint}
    (hpt : p.points[i]? = some pt) {L : Array Value} {vs : List Value} {s : FrameStack Value}
    (hin : Inside S p d L s)
    (hsegment : ∀ m, m < n → ∀ j c, AtSegment S p d j c → Balanced S p nm d m c) :
    Balanced S p nm d n ⟨⟨p.place pt.position, L, vs⟩, s⟩ := by
  have hcode := Plan.pointCode hr.lays hr.sound hpt
  have hsave := hcode.save
  have hresume : p.resumeOffset pt = 1 + (Emit.save p.stackVar pt).length
      + (if pt.isYield then 2 else 0) := rfl
  have hafter : p.resumeOffset pt ≤ p.afterOffset pt := by
    unfold Plan.afterOffset
    omega
  unfold Emit.save at hsave hresume
  rw [List.append_assoc, Code.has_append] at hsave
  rw [List.append_assoc, List.length_append] at hresume
  generalize hslots : pt.plan.stack.reverse.flatMap (fun x => Emit.saveSlot p.stackVar x.1 x.2)
    ++ Emit.locals (Emit.saveLocal p.stackVar) 0 pt.plan.locals = slots at hsave hresume
  refine Balanced.of_advances (advances_mark hcode.before) ?_
  refine balanced_push hr hpt ?_ hsave.1 hin fun s₁ hin₁ hheld₁ => ?_
  · rw [Nat.add_assoc]
    exact (landing_point (S := S) hr hpt (by simp at hresume; omega)).1
  have hpass : Passes S p nm d (Held d pt) slots := by
    rw [← hslots]
    refine passes_append (passes_flatMap fun x => passes_saveSlot ?_ _ _)
      (passes_locals fun k v keep _ _ => passes_saveLocal ?_ k v keep)
    all_goals exact fun s k i v hd h => h.store hd k i v
  simp only [List.length_cons, List.length_nil] at hsave hresume
  refine hpass n _ L vs s₁ hsave.2 (fun k hk => ?_) (fun k hk => ?_) hsegment hin₁ hheld₁
    fun L' vs' s' hin' hheld' => ?_
  · rw [Nat.add_assoc, Nat.add_assoc]
    exact landing_point hr hpt (by omega)
  · rw [Nat.add_assoc, Nat.add_assoc]
    exact Held.of_segment hr hpt (by omega)
  cases hyield : pt.isYield with
  | false =>
      have hq : p.place pt.position + 1 + 5 + slots.length = p.place pt.position + p.resumeOffset pt := by
        rw [hresume, hyield]
        simp
        omega
      rw [hq]
      exact balanced_resume hr hpt hin' hheld' hsegment
  | true =>
      have hlen : (Emit.save p.stackVar pt).length = 5 + slots.length := by
        unfold Emit.save
        rw [List.append_assoc, List.length_append, ← hslots]
        rfl
      have hthrow := hcode.yield hyield
      rw [hlen, ← Nat.add_assoc, Code.has_cons, Code.has_cons] at hthrow
      rw [hyield, if_pos rfl] at hresume
      have hown : p.Own (p.place pt.position + 1 + 5 + slots.length) := by
        rw [Nat.add_assoc, Nat.add_assoc]
        exact (landing_point (S := S) hr hpt (by omega)).1
      refine Balanced.of_advances (advances_signal hown hthrow.1) ?_
      have hstep : Activation.step (.ofMethod nm)
          ⟨p.place pt.position + 1 + 5 + slots.length + 1, L', .object S.signal :: vs'⟩
          = .asks (.throw S.signal) ⟨p.place pt.position + 1 + 5 + slots.length + 1, L', vs'⟩ := by
        rw [step_eq hthrow.2.1]
        rfl
      refine balanced_asks hr hstep (fun _ => rfl) hin' ?_ ?_ hsegment ?_
      · rw [Nat.add_assoc, Nat.add_assoc, Nat.add_assoc]
        exact (landing_point hr hpt (by omega)).2
      · intro pt' hpt' hlow hhigh
        rw [Nat.add_assoc, Nat.add_assoc, Nat.add_assoc] at hlow hhigh
        exact Held.of_segment hr hpt (by omega) pt' hpt' hlow hhigh s' hheld'
      · intro m hm v s'' hexit
        cases hexit

/-! ## Whole runs -/

lemma no_point (hr : p.Ready C nm) {j : Nat} (h : p.pointAt? j = none) {pt : SuspensionPoint}
    (hmem : pt ∈ p.points) : pt.position ≠ j := by
  rintro rfl
  obtain ⟨i, hi⟩ := List.getElem?_of_mem hmem
  rw [hr.sound.pointAt?_position hi] at h
  cases h

/-- **The segment of every instruction that is reached is balanced**, by induction on the number of
steps; a construction that is left out has an empty segment, and the next instruction follows at once. -/
lemma balanced_segment (hr : p.Ready C nm) (n : Nat) :
    ∀ j c, AtSegment S p d j c → Balanced S p nm d n c := by
  induction n using Nat.strongRecOn with
  | ind n ih =>
  intro j
  have hsize := hr.certified.size
  induction hleft : p.code.size - j generalizing j with
  | zero =>
      rintro c ⟨-, -, f, hf⟩
      have := (Array.getElem?_eq_some_iff.mp hf).1
      unfold Plan.code at hleft
      omega
  | succ k ihk =>
      rintro ⟨⟨q, L, vs⟩, s⟩ ⟨hin, hpc, f, hf⟩
      obtain rfl : q = p.place j := hpc
      have hlt : j < p.code.size := by omega
      have hat : p.code[j]? = some p.code[j] := Array.getElem?_eq_getElem hlt
      have hcode := hr.lays.segment j hlt
      have hnext := p.place_succ j
      have hseg := hr.sound.segment_cases hat
      generalize hl : p.segmentAt j = l at hseg hcode hnext
      generalize p.code[j] = instr at hat hseg
      cases hseg with
      | point hpt hpos =>
          subst hpos
          exact balanced_point hr hpt hin ih
      | dropped hpt hd =>
          obtain ⟨instr', hat', hop⟩ := hr.sound.dropped hd
          rw [hat] at hat'
          cases hat'
          refine ihk (j + 1) (by omega) _ ⟨hin, hnext.symm, (hr.follows hf hat).next ?_⟩
          rcases hop with hop | hop <;> rw [hop] <;> rfl
      | returns hpt hd hret =>
          exact balanced_returns hr hlt hl hret hin fun pt hmem => no_point hr hpt hmem
      | plain hpt hd hret hdef =>
          have hnone : ∀ pt ∈ p.points, pt.position ≠ j := fun pt hmem => no_point hr hpt hmem
          have himage : p.imageAt j = p.place j := by
            unfold Plan.imageAt
            rw [hnext]
            rfl
          by_cases hmark : instr.opcode = .label
          · cases n with
            | zero => trivial
            | succ n =>
                have hfirst : nm.code[p.place j]? = some instr := hcode 0 (by simp)
                have hstep : Activation.step (.ofMethod nm) ⟨p.place j, L, vs⟩
                    = .next ⟨p.place j + 1, L, vs⟩ := by
                  rw [step_eq hfirst]
                  simp only [Activation.execute, hmark]
                  rfl
                refine Balanced.before (.next hstep) (ih n (by omega) (j + 1) _ ⟨hin, hnext.symm, ?_⟩)
                exact (hr.follows hf hat).next (by rw [hmark]; rfl)
          · have hsurv : p.Survives j instr :=
              ⟨hat, by simpa [Instruction.isMark] using hmark, hd,
                fun pt hmem hpos => absurd hpos (hnone pt hmem)⟩
            rw [← himage]
            exact balanced_image hr hsurv hret hf hin
              (fun pt hmem hpos => absurd hpos (hnone pt hmem)) ih
      | redone hpt hd hret hdef =>
          next e =>
          have hnone : ∀ pt ∈ p.points, pt.position ≠ j := fun pt hmem => no_point hr hpt hmem
          obtain ⟨m, f', cls, cls', dupAt, rest, hredoes⟩ := Plan.deferral?_eq_some hdef
          obtain ⟨hop, -, -⟩ := Plan.constructor?_eq_some hredoes.constructor
          have hsurv : p.Survives j instr :=
            ⟨hat, by simp [Instruction.isMark, hop], hd,
              fun pt hmem hpos => absurd hpos (hnone pt hmem)⟩
          unfold Plan.Deferral.emit at hcode hnext
          rw [Code.has_append] at hcode
          rw [List.length_append, List.length_singleton, ← Nat.add_assoc] at hnext
          have himage : p.imageAt j = p.place j + (Plan.spill (p.stackVar + 1) e.args
              ++ [e.create, e.copy] ++ Plan.reload (p.stackVar + 1) e.args).length := by
            unfold Plan.imageAt
            rw [hnext]
            rfl
          refine passes_redone hr hat hdef n _ L vs s hcode.1 (fun k hk => ⟨?_, ?_⟩)
            (fun k hk pt hmem hlow hhigh => ?_) ih hin trivial fun L' vs' s' hin' _ => ?_
          · exact Plan.own_of_lt (j := j) hr.lays hr.sound (by omega) (by omega)
          · exact landing_within hr ⟨hlt, hsurv.not_markAt, by omega, by omega,
              fun i pt hi hpos => absurd hpos (hnone pt (List.mem_of_getElem? hi))⟩ hf
          · have := Plan.segment_unique hlow hhigh (show p.place j ≤ _ by omega) (by omega)
            exact absurd this (hnone pt hmem)
          · rw [← himage]
            exact balanced_image hr hsurv hret hf hin'
              (fun pt hmem hpos => absurd hpos (hnone pt hmem)) ih

/-! ### The prologue -/

/-- **Where the prologue leads**: to the point whose entry was handed out, or to the beginning. -/
lemma advances_switch (hr : p.Ready C nm) {L : Array Value} {s : FrameStack Value} {e : Int32} :
    (e = 0 → Advances S p nm ⟨⟨4, L, [.int e]⟩, s⟩ ⟨⟨5, L, []⟩, s⟩) ∧
    ∀ i pt, p.points[i]? = some pt → e = Int32.ofNat (i + 1) →
      Advances S p nm ⟨⟨4, L, [.int e]⟩, s⟩
        ⟨⟨p.place pt.position + p.resumeOffset pt, L, []⟩, s⟩ := by
  have hat : nm.code[4]? = some ⟨.tableSwitch, .table 1
      ((List.range p.points.length).map p.callLabel) p.startLabel⟩ := hr.lays.prologue 4 (by simp)
  have hstep : Activation.step (.ofMethod nm) ⟨4, L, [.int e]⟩
      = .next ⟨if 0 ≤ e.toInt - (1 : Int32).toInt
          then nm.labelPosition (((List.range p.points.length).map p.callLabel).getD
            (e.toInt - (1 : Int32).toInt).toNat p.startLabel)
          else nm.labelPosition p.startLabel, L, []⟩ := by
    rw [step_eq hat]
    simp only [Activation.execute, Activation.switch]
    split <;> rfl
  have hone : (1 : Int32).toInt = 1 := by decide
  rw [hone] at hstep
  constructor
  · rintro rfl
    refine .next (hstep.trans ?_)
    rw [if_neg (by decide), (hr.lays.frame_labels hr.sound hr.labels).1]
  · rintro i pt hpt rfl
    have hlt := (List.getElem?_eq_some_iff.mp hpt).1
    have hentry := hr.labels.entry_lt hr.sound hpt
    rw [hr.sound.entry_eq hpt] at hentry
    have hcount : 2 * p.points.length + 4 + i < p.freshCount := by
      unfold Plan.freshCount
      omega
    have hlabel : nm.labelPosition (p.callLabel i) = p.place pt.position + p.resumeOffset pt := by
      unfold Method.labelPosition
      rw [show p.callLabel i = p.fresh (2 * p.points.length + 4 + i) from rfl,
        hr.lays.labelAt?_fresh hr.sound hr.labels hcount (.resume hpt)]
      rfl
    refine .next (hstep.trans ?_)
    rw [toInt_ofNat hentry, if_pos (by omega),
      show ((i + 1 : Nat) - 1 : Int).toNat = i by omega, List.getD_eq_getElem?_getD,
      List.getElem?_map, List.getElem?_range hlt, Option.map_some, Option.getD_some, hlabel]

/-- **A record that a method may find**: nothing is saved in it, or it is that of one of its points. -/
def Resumable (p : Plan) (s : FrameStack Value) : Prop :=
  (s.recordAt s.depth).entry = 0 ∨ ∃ pt ∈ p.points, Held s.depth pt s

/-- **The prologue** fetches the frame stack and enters a record. -/
lemma advances_prologue (hr : p.Ready C nm) (args : List Value) (s : FrameStack Value) :
    p.stackVar.toNat < (Activation.enter nm args).locals.size ∧
    Relation.ReflTransGen (Advances S p nm) ⟨Activation.enter nm args, s⟩
      ⟨⟨4, (Activation.enter nm args).locals.set! p.stackVar.toNat (.object S.handle),
        [.int (Int32.ofInt s.enter.1)]⟩, s.enter.2⟩ := by
  have hpro := hr.lays.prologue
  have hown : ∀ q, q < 6 → p.Own q := fun q => Plan.own_prologue hr.lays hr.sound
  have hlocals := hr.locals
  have hsize : p.stackVar.toNat < (Activation.enter nm args).locals.size := by
    have hmax : nm.maxLocals.toNat = p.stackVar.toNat + 1 + p.temporaries 0 p.code.toList := by
      rw [hr.lays.maxLocals, UInt32.toNat_add, UInt32.toNat_add, UInt32.toNat_ofNat',
        show (1 : UInt32).toNat = 1 from rfl]
      omega
    simp only [Activation.enter, List.size_toArray, List.length_append, List.length_take,
      List.length_replicate]
    omega
  refine ⟨hsize, ?_⟩
  have hstart : (Activation.enter nm args) = ⟨0, (Activation.enter nm args).locals, []⟩ := rfl
  rw [hstart]
  generalize (Activation.enter nm args).locals = L at hsize
  refine .head (advances_getStack (hown 0 (by omega)) (hpro 0 (by simp))) ?_
  refine .head (advances_dup (hpro 1 (by simp))) ?_
  refine .head (advances_store (hpro 2 (by simp)) hsize) ?_
  exact .single (advances_nextEntry (hown 3 (by omega)) (hpro 3 (by simp)))

/-- **A method that is entered**, for the first time or again, is balanced. -/
lemma balanced_enter (hr : p.Ready C nm) (hne : p.points ≠ []) {s : FrameStack Value}
    (hs : Resumable p s) (args : List Value) :
    Balanced S p nm s.depth n ⟨Activation.enter nm args, s⟩ := by
  have hpro := hr.lays.prologue
  obtain ⟨hsize, hprologue⟩ := advances_prologue (S := S) hr args s
  refine Balanced.of_run hprologue ?_
  have hin : Inside S p s.depth
      ((Activation.enter nm args).locals.set! p.stackVar.toNat (.object S.handle)) s.enter.2 := by
    refine ⟨?_, s.depth_enter⟩
    rw [Array.set!_eq_setIfInBounds, Array.getElem?_setIfInBounds_self_of_lt hsize]
  generalize (Activation.enter nm args).locals.set! p.stackVar.toNat (.object S.handle) = L' at hin
  have hbegin : Balanced S p nm s.depth n ⟨⟨5, L', []⟩, s.enter.2⟩ := by
    refine Balanced.of_advances (advances_mark (hpro 5 (by simp))) ?_
    obtain ⟨pt, hpt⟩ := List.exists_mem_of_ne_nil _ hne
    obtain ⟨i, hi⟩ := List.getElem?_of_mem hpt
    obtain ⟨f, -, hreach⟩ := hr.certified.entry
    obtain ⟨g, hg, -⟩ := hreach (Nat.lt_of_le_of_lt (Nat.zero_le _) (hr.sound.segmentAt_point hi).1)
    exact balanced_segment hr n 0 _ ⟨hin, rfl, g, hg⟩
  obtain ⟨hzero, hpoint⟩ := advances_switch (S := S) (L := L') (s := s.enter.2)
    (e := Int32.ofInt s.enter.1) hr
  by_cases hentry : s.enter.1 = 0
  · exact Balanced.of_advances (hzero (by rw [hentry]; rfl)) hbegin
  · have hrec := s.entry_enter.resolve_left hentry
    rcases hs with hs | ⟨pt, hmem, hheld⟩
    · rw [hs] at hrec
      exact absurd hrec hentry
    · obtain ⟨i, hi⟩ := List.getElem?_of_mem hmem
      rw [hheld.entry, hr.sound.entry_eq hi] at hrec
      refine Balanced.of_advances (hpoint i pt hi (by rw [hrec]; rfl)) ?_
      have hheld' : Held s.depth pt s.enter.2 := by
        obtain ⟨h₁, h₂, h₃⟩ := hheld
        rw [← s.recordAt_enter] at h₁ h₂ h₃
        exact ⟨h₁, h₂, h₃⟩
      exact balanced_resume hr hi hin hheld' fun m _ => balanced_segment hr m

/-! ### Runs of any length -/

/-- What is balanced for any number of steps stays so. -/
lemma Balanced.run {c c' : Running} (h : ∀ n, Balanced S p nm d n c)
    (hrun : Relation.ReflTransGen (Turn S p nm) c c') : ∀ n, Balanced S p nm d n c' := by
  induction hrun with
  | refl => exact h
  | tail _ ht ih => exact fun n => (ih (n + 1)).2.2 _ ht

/-- **The suspend signal leaves the method**: it is caught where it passes, and the run ends with the
frame stack as it was when the signal came up. -/
def Passed (S : Surroundings) (p : Plan) (nm : Method) (a : Activation) (obj : ObjectId)
    (s : FrameStack Value) : Prop :=
  ∃ pc c, (Body.ofMethod nm).handlerFor (S.isA obj) a.pc = some pc
    ∧ Advances S p nm ⟨a.caught pc obj, s⟩ c ∧ Ends S p nm c (.threw obj) s

lemma Raises.pc_eq {c : Running} {obj : ObjectId} {a : Activation} {s : FrameStack Value}
    (h : Raises S p nm c obj a s) : a.pc = c.act.pc := by
  obtain ⟨hstep, -, -⟩ := h
  next b s₀ r =>
  unfold Activation.step at hstep
  split at hstep
  · cases hstep
  · next instr _ =>
      have hflows := Activation.execute_flows (Body.ofMethod nm).target b instr
      rw [hstep] at hflows
      cases hflows
      rfl

lemma passed_of_raises (hr : p.Ready C nm) {c : Running} {obj : ObjectId} {a : Activation}
    {s : FrameStack Value} {pt : SuspensionPoint} (hpt : pt ∈ p.points)
    (hlow : p.place pt.position ≤ c.act.pc) (hhigh : c.act.pc < p.place (pt.position + 1))
    (h : Raises S p nm c obj a s) (hobj : S.IsSignal obj) : Passed S p nm a obj s := by
  obtain ⟨i, hi⟩ := List.getElem?_of_mem hpt
  have hfrom : 6 ≤ p.place pt.position := p.place_mono (Nat.zero_le _)
  have hupto := p.place_mono
    (show pt.position + 1 ≤ p.code.size from (hr.sound.segmentAt_point hi).1)
  have hmark : nm.code[p.place p.code.size + 4]? = some (.mark p.catchSignalLabel) :=
    hr.lays.epilogue 4 (by simp)
  refine ⟨p.place p.code.size + 4, _, ?_, advances_mark hmark, ?_⟩
  · rw [h.pc_eq]
    exact hr.lands_signal (by omega) (by omega) hobj
  · refine .threw (.mk (step_rethrow hr a.locals obj) ?_ ?_) ?_
    · rintro ⟨-, hserve⟩
      cases hserve
    · refine ⟨by simp, fun o ho => ?_, fun _ => rfl, fun _ => rfl⟩
      cases ho
      exact ⟨rfl, rfl⟩
    · exact hr.lands_epilogue (show p.place p.code.size ≤ p.place p.code.size + 5 by omega) _

/-- **The frame stack is balanced at a state of a run** that began with the frame stack `s`. -/
structure KeepsBalance (S : Surroundings) (p : Plan) (nm : Method) (s : FrameStack Value)
    (c : Running) : Prop where
  /-- a run that returns, or that an exception leaves, has popped its record -/
  left : ∀ o s', Ends S p nm c o s' → (∀ obj, o = .threw obj → ¬ S.IsSignal obj) → Left s.depth s'
  /-- the suspend signal that comes up at a point leaves the run with the record of the point -/
  suspended : ∀ pt ∈ p.points, p.place pt.position ≤ c.act.pc →
    c.act.pc < p.place (pt.position + 1) → ∀ obj a s', Raises S p nm c obj a s' → S.IsSignal obj →
      Held s.depth pt s' ∧ Passed S p nm a obj s'

end Running

/-- **Transformed methods keep the frame stack balanced.**  Whatever they are called with, and whatever
their surroundings answer, as long as what they call leaves the frame stack as deep as it was and the
suspend signal leaves their record alone. -/
theorem Method.transform_balanced {src : ClassSource} {policy : Policy} {owner : Text}
    {m nm : Method} {h h' : Hierarchy}
    (ht : (Method.transform src policy owner m).run h = (.ok (some nm), h')) :
    ∃ p : Plan, p.Makes src owner m h nm ∧ (p.NumbersFit →
      ∀ (S : Surroundings) (args : List Value) (s : FrameStack Value), Running.Resumable p s →
        ∀ c, Relation.ReflTransGen (Running.Turn S p nm) ⟨Activation.enter nm args, s⟩ c →
          Running.KeepsBalance S p nm s c) := by
  obtain ⟨p, hp⟩ := Method.transform_makes ht
  refine ⟨p, hp, fun hfit S args s hs c hrun => ?_⟩
  have hr : p.Ready Classes.empty nm := hp.ready hfit src.agrees_empty h.agrees_empty
  have hb := Running.Balanced.run (fun n => Running.balanced_enter hr hp.nonempty hs args) hrun 1
  exact ⟨hb.1, fun pt hpt hlow hhigh obj a s' hraises hobj =>
    ⟨hb.2.1 pt hpt hlow hhigh obj a s' hraises hobj,
      Running.passed_of_raises hr hpt hlow hhigh hraises hobj⟩⟩

set_option maxRecDepth 100000 in
/-- The theorem at a method with a suspension point inside a protected range, entered afresh. -/
theorem guardedCall_balanced : ∃ nm h' p,
    (Method.transform {} {} "A" guardedCall).run {} = (.ok (some nm), h')
      ∧ Plan.Makes {} "A" guardedCall {} p nm ∧ p.NumbersFit
      ∧ Running.Resumable p {}
      ∧ ∀ (S : Surroundings) (c : Running),
        Relation.ReflTransGen (Running.Turn S p nm) ⟨Activation.enter nm [], {}⟩ c →
          Running.KeepsBalance S p nm {} c := by
  have hcomputed : (((Method.transform {} {} "A" guardedCall).run {}).1.toOption.join).isSome = true
      ∧ guardedCall.leavesRoom {} "A" {} 1 = true := by
    decide +kernel
  obtain ⟨nm, h', ht⟩ := Method.exists_transformed hcomputed.1
  obtain ⟨p, hp, hb⟩ := Method.transform_balanced ht
  have hfit := hp.numbersFit hcomputed.2
  have hresume : Running.Resumable p {} := Or.inl rfl
  exact ⟨nm, h', p, ht, hp, hfit, hresume, fun S c hrun => hb hfit S [] {} hresume c hrun⟩

end Suspension
