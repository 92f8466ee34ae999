import Suspension.Proofs.Code.Depth
import Suspension.Proofs.Frame.Soundness
import Suspension.Proofs.Instrument.Omission
import Suspension.Proofs.Instrument.Slots

/-!
# What segments do to the stack depth

Saving a frame takes the entries that stay off the stack, and restoring it puts them back; a
construction that is redone is put under its arguments.  So **a segment does to the entries that stay
what its instruction does to the whole stack**.

* `Emit.flows_save`, `Emit.flows_restore` — the code that moves a frame.
* `Method.Regular`, `Plan.Regular` — the conditions on a method, and on a plan for it.
* `Plan.Passes` — a segment takes one depth to another and goes on like its instruction.
* `Plan.Regular.passes` — every segment that control comes to does.
-/

namespace Suspension

open StackDepth

/-! ## Conditions on a method -/

/-- The descriptor of the method that calls by reflection. -/
def reflectedDesc : Text := "(Lcore/Object;[Lcore/Object;)Lcore/Object;"

/-- **The conditions under which a body can be generated**: operands fit their opcodes, field reads name
values, control comes to every handler with one entry that stays, and calls by reflection are what they
are declared to be. -/
structure Method.Regular (m : Method) (T : FrameTypes) : Prop where
  wellFormed : ∀ instr ∈ m.code.toList, Instruction.WellFormed instr
  reads : ∀ instr ∈ m.code.toList, Frame.ReadsValue instr
  handlers : ∀ r ∈ m.ranges, ∃ i f t, m.code.labelAt? r.handler = some i
    ∧ T.frames[i]? = some (some f) ∧ f.stack = [t] ∧ Site.Free T.sites t
  reflective : ∀ instr ∈ m.code.toList, ∀ callee, instr.callee? = some callee →
    callee.isReflective = true → instr.opcode ≠ .invoke .static ∧ callee.desc = reflectedDesc

/-! ## Generated instructions -/

namespace Emit

variable {S : UInt32} {d : Nat}

/-- A generated instruction in front of others. -/
lemma flows_cons {instr : Instruction} {l : List Instruction} {a b e e' : Nat} (h : Flows l e e')
    (hdelta : instr.delta = .ok (a, b)) (hstraight : instr.targets = [])
    (hends : instr.opcode.endsBlock = false) (ha : a ≤ d) (he : d - a + b = e) :
    Flows (instr :: l) d e' := by
  subst he
  exact .cons hends hdelta ha hstraight h

lemma flows_mark (id : Label) : Flows [.mark id] d d :=
  flows_cons .nil rfl rfl rfl (Nat.zero_le d) rfl

/-- A load puts a value on the stack. -/
lemma flows_load (k : Kind) (n : UInt32) : Flows [.slot (.load k) n] d (d + 1) :=
  flows_cons .nil rfl rfl rfl (Nat.zero_le d) rfl

lemma flows_loadOf {v : SlotType} (hv : v.kind? ≠ none) (n : UInt32) : Flows [loadOf v n] d (d + 1) := by
  obtain ⟨k, hk⟩ := Option.ne_none_iff_exists'.mp hv
  unfold loadOf
  rw [hk]
  exact flows_load k n

lemma flows_storeOf {v : SlotType} (hv : v.kind? ≠ none) (n : UInt32) :
    Flows [storeOf v n] (d + 1) d := by
  obtain ⟨k, hk⟩ := Option.ne_none_iff_exists'.mp hv
  unfold storeOf
  rw [hk]
  exact flows_cons (a := 1) (b := 0) .nil rfl rfl rfl (by omega) (by omega)

/-- **A value is taken off the stack** when it is put into its slot. -/
lemma flows_put (k : Kind) (i : Nat) : Flows (put S k i) (d + 1) d := by
  have hdelta : (Instruction.member (.invoke .static) ClassName.frameStack
      (Text.ofString "push" ++ accessorName k)
      (Text.ofString "(" ++ accessorDesc k ++ Text.ofString "Lcoro/Stack;I)V")).delta
        = .ok (3, 0) := by
    cases k <;> rfl
  refine flows_cons (e := d + 2) ?_ rfl rfl rfl (Nat.zero_le _) rfl
  refine flows_cons (e := d + 3) ?_ rfl rfl rfl (Nat.zero_le _) rfl
  exact flows_cons .nil hdelta rfl rfl (by omega) (by omega)

/-- **A value is put on the stack** when it is read from its slot. -/
lemma flows_get (v : SlotType) (k : Kind) (i : Nat) : Flows (get S v k i) d (d + 1) := by
  have hdelta : (Instruction.member (.invoke .virtual) ClassName.frameStack
      (Text.ofString "get" ++ accessorName k)
      (Text.ofString "(I)" ++ accessorDesc k)).delta = .ok (2, 1) := by
    cases k <;> rfl
  refine Leads.append (e := d + 1) ?_ ?_
  · refine flows_cons (e := d + 1) ?_ rfl rfl rfl (Nat.zero_le _) rfl
    refine flows_cons (e := d + 2) ?_ rfl rfl rfl (Nat.zero_le _) rfl
    exact flows_cons .nil hdelta rfl rfl (by omega) (by omega)
  · split
    · exact flows_cons (a := 1) (b := 1) .nil rfl rfl rfl (by omega) (by omega)
    · exact .nil

/-- What is kept of a value is there to be placed. -/
lemma flows_saveSlot {v : SlotType} {keep : Keep} (hprim : ∀ i, keep = .prim i → v.kind? ≠ none)
    (hd : keep ≠ .deferred) : Flows (saveSlot S v keep) (d + 1) d := by
  cases keep with
  | deferred => exact absurd rfl hd
  | nothing => exact flows_cons (a := 1) (b := 0) .nil rfl rfl rfl (by omega) (by omega)
  | object i => exact flows_put .ref i
  | prim i =>
      obtain ⟨k, hk⟩ := Option.ne_none_iff_exists'.mp (hprim i rfl)
      simp only [saveSlot, place?, hk, Option.map_some]
      exact flows_put k i

lemma flows_restoreSlot {v : SlotType} {keep : Keep} (hv : v.kind? ≠ none)
    (hnothing : keep = .nothing → v.isSkipped = true) (hd : keep ≠ .deferred) :
    Flows (restoreSlot S v keep) d (d + 1) := by
  unfold restoreSlot
  split
  · exact absurd rfl hd
  split
  · exact flows_cons .nil rfl rfl rfl (Nat.zero_le _) rfl
  next hnull =>
  have hplace : ∃ k i, place? v keep = some (k, i) := by
    cases keep with
    | deferred => exact absurd rfl hd
    | nothing =>
        -- nothing is kept of null and of unusable slots only
        have hskip := hnothing rfl
        simp only [SlotType.isSkipped, Bool.or_eq_true, beq_iff_eq] at hskip
        rcases hskip with rfl | hskip
        · exact absurd rfl hv
        · exact absurd hskip hnull
    | object i => exact ⟨.ref, i, rfl⟩
    | prim i =>
        obtain ⟨k, hk⟩ := Option.ne_none_iff_exists'.mp hv
        exact ⟨k, i, by simp [place?, hk]⟩
  obtain ⟨k, i, hplace⟩ := hplace
  rw [hplace]
  exact flows_get v k i

lemma kind?_of_place? {v : SlotType} {keep : Keep} {k : Kind} {i : Nat}
    (hobject : ∀ i, keep = .object i → v.kind? ≠ none) (h : place? v keep = some (k, i)) :
    v.kind? ≠ none := by
  cases keep with
  | object j => exact hobject j rfl
  | prim j =>
      intro hnone
      simp [place?, hnone] at h
  | nothing => cases h
  | deferred => cases h

lemma flows_saveLocal {v : SlotType} {keep : Keep} (index : Nat)
    (hobject : ∀ i, keep = .object i → v.kind? ≠ none) :
    Flows (saveLocal S index v keep) d d := by
  unfold saveLocal
  split
  · next k i hplace =>
      exact (flows_loadOf (kind?_of_place? hobject hplace) _).append (flows_put k i)
  · exact .nil

lemma flows_restoreLocal {v : SlotType} {keep : Keep} (index : Nat)
    (hobject : ∀ i, keep = .object i → v.kind? ≠ none) :
    Flows (restoreLocal S index v keep) d d := by
  unfold restoreLocal
  split
  · refine flows_cons (e := d + 1) ?_ rfl rfl rfl (Nat.zero_le _) rfl
    exact flows_cons (a := 1) (b := 0) .nil rfl rfl rfl (by omega) (by omega)
  · split
    · next k i hplace =>
        exact (flows_get v k i).append (flows_storeOf (kind?_of_place? hobject hplace) _)
    · exact .nil

lemma flows_locals {f : Nat → SlotType → Keep → List Instruction} {slots : List (SlotType × Keep)}
    {index : Nat} (h : ∀ i, ∀ x ∈ slots, Flows (f i x.1 x.2) d d) :
    Flows (locals f index slots) d d := by
  induction slots generalizing index with
  | nil => exact .nil
  | cons x slots ih =>
      exact (h index x List.mem_cons_self).append
        (ih fun i y hy => h i y (List.mem_cons_of_mem x hy))

/-- The slots of a stack that are put into a record or dropped. -/
def live (slots : List (SlotType × Keep)) : Nat := slots.countP fun x => x.2 != .deferred

lemma flows_saveSlots {slots : List (SlotType × Keep)}
    (hprim : ∀ v i, (v, Keep.prim i) ∈ slots → v.kind? ≠ none) :
    Flows (slots.flatMap fun (v, keep) => saveSlot S v keep) (d + live slots) d := by
  induction slots generalizing d with
  | nil => exact .nil
  | cons x slots ih =>
      obtain ⟨v, keep⟩ := x
      have ih := ih (d := d) fun v' i hi => hprim v' i (List.mem_cons_of_mem _ hi)
      rw [List.flatMap_cons]
      by_cases hd : keep = .deferred
      · subst hd
        have hlive : live ((v, .deferred) :: slots) = live slots := by simp [live]
        rw [hlive]
        exact ih
      · have hlive : live ((v, keep) :: slots) = live slots + 1 := by simp [live, hd]
        rw [hlive, ← Nat.add_assoc]
        refine (flows_saveSlot (fun i hi => ?_) hd).append ih
        exact hprim v i (hi ▸ List.mem_cons_self)

lemma flows_restoreSlots {slots : List (SlotType × Keep)} (husable : ∀ x ∈ slots, x.1.kind? ≠ none)
    (hnothing : ∀ v, (v, Keep.nothing) ∈ slots → v.isSkipped = true) :
    Flows (slots.flatMap fun (v, keep) => restoreSlot S v keep) d (d + live slots) := by
  induction slots generalizing d with
  | nil => exact .nil
  | cons x slots ih =>
      obtain ⟨v, keep⟩ := x
      rw [List.forall_mem_cons] at husable
      have ih : ∀ d, _ := fun d => ih (d := d) husable.2
        fun v' hv' => hnothing v' (List.mem_cons_of_mem _ hv')
      rw [List.flatMap_cons]
      by_cases hd : keep = .deferred
      · subst hd
        have hlive : live ((v, .deferred) :: slots) = live slots := by simp [live]
        rw [hlive]
        exact ih d
      · have hlive : live ((v, keep) :: slots) = 1 + live slots := by simp [live, hd, Nat.add_comm]
        rw [hlive, ← Nat.add_assoc]
        refine (flows_restoreSlot husable.1 (fun hk => ?_) hd).append (ih (d + 1))
        exact hnothing v (hk ▸ List.mem_cons_self)

/-- **Saving a frame takes its live slots off the stack.** -/
lemma flows_save {s : Subject} {pt : SuspensionPoint} (hpt : pt.Found s) :
    Flows (save S pt) (live pt.plan.stack) 0 := by
  have hplacing := hpt.laidOut.placing
  have hstack : Flows (pt.plan.stack.reverse.flatMap fun (v, keep) => saveSlot S v keep)
      (0 + live pt.plan.stack.reverse) 0 := flows_saveSlots fun v i hi => by
    obtain ⟨k, hk, -⟩ := hplacing.kind_of_prim (List.mem_append_left _ (List.mem_reverse.mp hi))
    simp [hk]
  have hlocals : Flows (locals (saveLocal S) 0 pt.plan.locals) 0 0 := flows_locals fun i x hx =>
    flows_saveLocal i fun j hj => by
      obtain ⟨v, keep⟩ := x
      obtain rfl : keep = .object j := hj
      have hkind := hplacing.kind_of_object (List.mem_append_right _ hx)
      simp [hkind]
  have hlive : live pt.plan.stack.reverse = live pt.plan.stack := List.countP_reverse
  rw [Nat.zero_add, hlive] at hstack
  refine (Leads.append ?_ hstack).append hlocals
  refine flows_cons (e := live pt.plan.stack + 1) ?_ rfl rfl rfl (Nat.zero_le _) rfl
  refine flows_cons (e := live pt.plan.stack + 2) ?_ rfl rfl rfl (Nat.zero_le _) rfl
  refine flows_cons (e := live pt.plan.stack + 3) ?_ rfl rfl rfl (Nat.zero_le _) rfl
  refine flows_cons (e := live pt.plan.stack + 4) ?_ rfl rfl rfl (Nat.zero_le _) rfl
  exact flows_cons (a := 4) (b := 0) .nil rfl rfl rfl (by omega) (by omega)

/-- **Restoring a frame puts its live slots on the stack again.** -/
lemma flows_restore {s : Subject} {pt : SuspensionPoint} (hpt : pt.Found s) (skip : Nat)
    (husable : ∀ t ∈ pt.frame.stack, t.kind? ≠ none) :
    Flows (restore S skip pt) 0 (live pt.plan.stack) := by
  have hplacing := hpt.laidOut.placing
  have hlocals : Flows (locals (restoreLocal S) skip (pt.plan.locals.drop skip)) 0 0 :=
    flows_locals fun i x hx => flows_restoreLocal i fun j hj => by
      obtain ⟨v, keep⟩ := x
      obtain rfl : keep = .object j := hj
      have hkind := hplacing.kind_of_object (List.mem_append_right _ (List.mem_of_mem_drop hx))
      simp [hkind]
  have hstack : Flows (pt.plan.stack.flatMap fun (v, keep) => restoreSlot S v keep)
      0 (0 + live pt.plan.stack) := by
    refine flows_restoreSlots (fun x hx => husable x.1 ?_) fun v hv => ?_
    · have hmem : x.1 ∈ pt.plan.stack.map Prod.fst := List.mem_map_of_mem hx
      rw [hpt.laidOut.stack_eq] at hmem
      exact List.mem_reverse.mp hmem
    · exact hpt.laidOut.skipped hv
  rw [Nat.zero_add] at hstack
  exact hlocals.append hstack

end Emit

namespace Plan

variable {p : Plan} {i : Nat} {instr : Instruction} {f after : Frame}

/-! ## Points -/

/-- **At a point, the entries that are put into the record are those that stay.** -/
lemma Founded.leavesOut_eq (hp : p.Founded) {pt : SuspensionPoint} (hpt : pt ∈ p.points) {t : SlotType}
    (ht : t ∈ pt.frame.stack) : p.leavesOut t = p.subject.isDeferred t := by
  cases t with
  | pending n cls copied =>
      rw [Bool.eq_iff_iff]
      constructor
      · intro homitted
        obtain ⟨site, hsite, -, -, hpinned⟩ := hp.site_of_isOmitted homitted
        simp [Subject.isDeferred, hsite, hpinned]
      · intro hd
        have hmem : n ∈ p.subject.deferredSites pt.frame := mem_deferredSites.mpr ⟨cls, copied, ht, hd⟩
        exact List.any_eq_true.mpr ⟨pt, hpt, by simpa using hmem⟩
  | _ => rfl

lemma Founded.live_eq (hp : p.Founded) {pt : SuspensionPoint} (hpt : pt ∈ p.points) :
    Emit.live pt.plan.stack = p.kept pt.frame.stack := by
  have hfound := hp.found pt hpt
  have hdeferred : ∀ x ∈ pt.plan.stack, (x.2 != .deferred) = !p.leavesOut x.1 := by
    intro x hx
    have hmem : x.1 ∈ pt.frame.stack := by
      have := List.mem_map_of_mem (f := Prod.fst) hx
      rw [hfound.laidOut.stack_eq] at this
      exact List.mem_reverse.mp this
    have hiff := hfound.laidOut.deferred_iff hx
    rw [hp.leavesOut_eq hpt hmem, Bool.eq_iff_iff]
    simpa using hiff
  calc Emit.live pt.plan.stack
      = pt.plan.stack.countP ((fun t => !p.leavesOut t) ∘ Prod.fst) :=
        List.countP_congr fun x hx => by rw [hdeferred x hx]; rfl
    _ = p.kept (pt.plan.stack.map Prod.fst) := List.countP_map.symm
    _ = p.kept pt.frame.stack.reverse := by rw [hfound.laidOut.stack_eq]
    _ = p.kept pt.frame.stack := List.countP_reverse

/-! ## Redone constructions -/

/-- The arguments of a constructor are moved out of the way. -/
lemma flows_spill {args : List SlotType} (husable : ∀ t ∈ args, t.kind? ≠ none) (base : UInt32)
    {d : Nat} : Flows (spill base args) (args.length + d) d := by
  suffices h : ∀ k, Flows ((args.zipIdx k).map fun x => Emit.storeOf x.1 (base + UInt32.ofNat x.2))
      (args.length + d) d from h 0
  induction args with
  | nil =>
      intro k
      rw [List.length_nil, Nat.zero_add]
      exact .nil
  | cons t args ih =>
      intro k
      rw [List.forall_mem_cons] at husable
      rw [List.length_cons, show args.length + 1 + d = args.length + d + 1 by omega]
      exact (Emit.flows_storeOf husable.1 _).append (ih husable.2 (k + 1))

/-- And back on top of the construction. -/
lemma flows_reload {args : List SlotType} (husable : ∀ t ∈ args, t.kind? ≠ none) (base : UInt32)
    {d : Nat} : Flows (reload base args) d (d + args.length) := by
  suffices h : ∀ k, Flows ((args.zipIdx k).map fun x => Emit.loadOf x.1 (base + UInt32.ofNat x.2)).reverse
      d (d + args.length) from h 0
  induction args with
  | nil =>
      intro k
      exact .nil
  | cons t args ih =>
      intro k
      rw [List.forall_mem_cons] at husable
      rw [List.zipIdx_cons, List.map_cons, List.reverse_cons, List.length_cons, ← Nat.add_assoc]
      exact (ih husable.2 (k + 1)).append (Emit.flows_loadOf husable.1 _)

/-! ## Segments -/

/-- **What generating a body rests on**: sound frames and points, positions that control comes to, and
the conditions on the method. -/
structure Regular (p : Plan) : Prop extends Typed p, Sound p where
  reached : ∀ {i : Nat} {f : Frame}, p.subject.types.frames[i]? = some (some f) →
    ∃ ss, Analysis.spans p.code p.subject.method.ranges 0 = .ok ss ∧ p.code.Reached ss i
  regular : p.subject.method.Regular p.subject.types

/-- Whether the instruction at a position is a constructor call whose construction is redone. -/
def isRedone (p : Plan) (i : Nat) (instr : Instruction) : Bool :=
  (p.deferral? i instr).toOption.join.isSome

/-- The first part of a point's segment, which leaves the frame in the record. -/
def saved (p : Plan) (pt : SuspensionPoint) (n : Nat) : List Instruction :=
  [.mark (p.beforeLabel n)] ++ Emit.save p.stackVar pt
    ++ (if pt.isYield then [Emit.signal, .plain .throw] else [])

/-- The second part, where a point is resumed. -/
def restored (p : Plan) (pt : SuspensionPoint) (n : Nat) : List Instruction :=
  [.mark (p.callLabel n)] ++ Emit.restore p.stackVar p.subject.firstLocal pt

lemma length_saved (p : Plan) (pt : SuspensionPoint) (n : Nat) :
    (p.saved pt n).length = p.resumeOffset pt := by
  unfold saved resumeOffset
  cases pt.isYield <;> simp <;> omega

lemma pointImage_eq_append (p : Plan) (pt : SuspensionPoint) (n : Nat) :
    p.pointImage pt n = p.saved pt n ++ p.restored pt n ++ [.mark (p.afterLabel n)]
      ++ (if pt.isYield then [] else [pt.call]) := by
  simp [pointImage, saved, restored]

/-- **A segment takes one depth to another and goes on like its instruction.**  A segment that is not
empty ends with the image of the instruction; control comes to the image through the segment, or by
resuming the point. -/
inductive Passes (p : Plan) (i : Nat) (instr : Instruction) (d d' : Nat) : List Instruction → Prop where
  | dropped (htargets : instr.targets = []) (hends : instr.opcode.endsBlock = false) (heq : d' = d) :
      Passes p i instr d d' []
  | image {pre : List Instruction} {x : Instruction} {e pops pushes : Nat}
      (hpre : Leads (fun _ => True) pre d e) (hdepth : e = d + if p.isRedone i instr then 2 else 0)
      (hflows : Flows pre d e ∨ ∃ (n : Nat) (pt : SuspensionPoint) (back : List Instruction),
        p.points[n]? = some pt ∧ pt.position = i ∧ pre = p.saved pt n ++ back ∧ Flows back 0 e)
      (hdelta : x.delta = .ok (pops, pushes)) (hpops : pops ≤ e) (hafter : e - pops + pushes = d')
      (htargets : x.targets = instr.targets) (hends : x.opcode.endsBlock = instr.opcode.endsBlock) :
      Passes p i instr d d' (pre ++ [x])

lemma Regular.wellFormed_at (hp : p.Regular) (hcode : p.code[i]? = some instr) : instr.WellFormed :=
  hp.regular.wellFormed instr (Array.mem_toList_iff.mpr (Array.mem_of_getElem? hcode))

/-- An instruction without operand does not jump. -/
lemma targets_of_dup (hwf : instr.WellFormed) (hop : instr.opcode = .new ∨ instr.opcode = .dup) :
    instr.targets = [] := by
  obtain ⟨op, operand⟩ := instr
  rcases hop with hop | hop <;> obtain rfl := hop <;> cases operand <;> first | rfl | cases hwf

/-- Only constructor calls redo constructions. -/
lemma deferral?_of_constructor? (hc : constructor? instr = none) : p.deferral? i instr = .ok none := by
  simp [deferral?, hc]

lemma constructor?_of_callee? {m : Member} (hm : instr.callee? = some m) : constructor? instr = none := by
  cases hc : constructor? instr with
  | none => rfl
  | some m' =>
      obtain ⟨hop, ho, hname⟩ := constructor?_eq_some hc
      simp [Instruction.callee?, hop, ho, hname] at hm

/-- **The frame is saved** before a point can be resumed. -/
lemma Founded.leads_saved (hp : p.Founded) {pt : SuspensionPoint} (hpt : pt ∈ p.points) (n : Nat) :
    Leads (fun _ => True) (p.saved pt n) (p.kept pt.frame.stack) 0 := by
  have hsave := Emit.flows_save (S := p.stackVar) (hp.found pt hpt)
  rw [hp.live_eq hpt] at hsave
  have hthrow : Leads (fun _ => True) (if pt.isYield then [Emit.signal, .plain .throw] else []) 0 0 := by
    have hsignal : Emit.signal.delta = .ok (0, 1) := rfl
    have hthrow : (Instruction.plain .throw).delta = .ok (1, 0) := rfl
    split
    · exact .cons trivial hsignal (Nat.zero_le _) rfl (.cons trivial hthrow (by omega) rfl .nil)
    · exact .nil
  exact Leads.append (((Emit.flows_mark _).append hsave).mono fun _ _ => trivial) hthrow

/-- **The frame is restored** where a point is resumed. -/
lemma Typed.flows_restored (hp : p.Typed) {pt : SuspensionPoint} (hpt : pt ∈ p.points) (n : Nat) :
    Flows (p.restored pt n) 0 (p.kept pt.frame.stack) := by
  have hfound := hp.found pt hpt
  have hrestore := Emit.flows_restore (S := p.stackVar) hfound p.subject.firstLocal
    (hp.orderly hfound.frame_at).stack.usable
  rw [hp.live_eq hpt] at hrestore
  exact (Emit.flows_mark _).append hrestore

/-- **The segment of a point** has the frame back when it comes to the call. -/
lemma Regular.passes_point (hp : p.Regular) (hcode : p.code[i]? = some instr)
    (hf : p.subject.types.frames[i]? = some (some f))
    (htr : Frame.Transition p.subject.types.sites i instr f after) {n : Nat} {pt : SuspensionPoint}
    (hpt : p.points[n]? = some pt) (hpos : pt.position = i) :
    p.Passes i instr (p.kept f.stack) (p.kept after.stack) (p.pointImage pt n) := by
  have hmem : pt ∈ p.points := List.mem_of_getElem? hpt
  have hfound := hp.toTyped.found pt hmem
  subst hpos
  obtain rfl : pt.frame = f := by simpa [hf] using hfound.frame_at.symm
  obtain ⟨instr', m, hcode', hm, hcall, hyield⟩ := hfound.call
  obtain rfl : instr = instr' := by
    change p.code[pt.position]? = _ at hcode'
    simpa [hcode] using hcode'
  obtain ⟨mode, hop, ho⟩ := Instruction.callee?_eq_some hm
  have hnone := deferral?_of_constructor? (p := p) (i := pt.position) (constructor?_of_callee? hm)
  have hredone : p.isRedone pt.position instr = false := by simp [isRedone, hnone, Except.toOption]
  have hd : p.isDropped pt.position = false := by
    cases hd : p.isDropped pt.position with
    | false => rfl
    | true =>
        obtain ⟨instr', hcode', hop'⟩ := hp.toSound.dropped hd
        rw [hcode] at hcode'
        cases hcode'
        simp [hop] at hop'
  obtain ⟨pops, pushes, hdelta, hpops, hafter⟩ := hp.kept_plain hf htr hd hnone
  have htargets : instr.targets = [] := by simp [Instruction.targets, ho]
  have hends : instr.opcode.endsBlock = false := by rw [hop]; rfl
  have hsaved := hp.leads_saved hmem n
  have hrestored := hp.flows_restored hmem n
  cases hy : pt.isYield with
  | true =>
      -- the request itself is gone, and the label behind the frame takes its place
      obtain ⟨hym, hstatic⟩ := hyield hy
      have hnothing : instr.delta = .ok (0, 0) := by
        obtain ⟨op, operand⟩ := instr
        obtain rfl := hstatic
        obtain rfl := ho
        simp only [Member.isYield, Bool.and_eq_true, beq_iff_eq] at hym
        simp only [Instruction.delta, Opcode.effect?, Opcode.shuffle?, Opcode.memberDelta, hym.2]
        rfl
      rw [hdelta] at hnothing
      cases hnothing
      have himage : p.pointImage pt n
          = (p.saved pt n ++ p.restored pt n) ++ [.mark (p.afterLabel n)] := by
        simp [pointImage_eq_append, hy]
      have hmark : (Instruction.mark (p.afterLabel n)).delta = .ok (0, 0) := rfl
      rw [himage]
      exact .image (hsaved.append (hrestored.mono fun _ _ => trivial)) (by simp [hredone])
        (Or.inr ⟨n, pt, _, hpt, rfl, rfl, hrestored⟩) hmark (Nat.zero_le _) (by omega)
        htargets.symm hends.symm
  | false =>
      have hback : Flows (p.restored pt n ++ [.mark (p.afterLabel n)]) 0 (p.kept pt.frame.stack) :=
        hrestored.append (Emit.flows_mark _)
      have himage : p.pointImage pt n
          = (p.saved pt n ++ (p.restored pt n ++ [.mark (p.afterLabel n)])) ++ [pt.call] := by
        simp [pointImage_eq_append, hy]
      have hsame : pt.call.delta = instr.delta ∧ pt.call.targets = []
          ∧ pt.call.opcode.endsBlock = false := by
        rcases hcall with rfl | ⟨hreflective, hcall⟩
        · exact ⟨rfl, htargets, hends⟩
        · rw [hcall]
          refine ⟨?_, rfl, rfl⟩
          obtain ⟨hstatic, hdesc⟩ := hp.regular.reflective instr
            (Array.mem_toList_iff.mpr (Array.mem_of_getElem? hcode)) m hm hreflective
          rw [hop] at hstatic
          obtain ⟨op, operand⟩ := instr
          obtain rfl := hop
          obtain rfl := ho
          simp only [Instruction.delta, Opcode.effect?, Opcode.shuffle?, Opcode.memberDelta, hdesc]
          cases mode with
          | static => exact absurd rfl hstatic
          | _ => rfl
      rw [himage]
      exact .image (hsaved.append (hback.mono fun _ _ => trivial)) (by simp [hredone])
        (Or.inr ⟨n, pt, _, hpt, rfl, rfl, hback⟩) (hsame.1.trans hdelta) hpops hafter.symm
        (hsame.2.1.trans htargets.symm) (hsame.2.2.trans hends.symm)

/-- **The segment of a constructor call whose construction is redone.** -/
lemma Regular.passes_redone (hp : p.Regular) (hf : p.subject.types.frames[i]? = some (some f))
    (htr : Frame.Transition p.subject.types.sites i instr f after) {d : Deferral}
    (hdef : p.deferral? i instr = .ok (some d)) (base : UInt32) :
    p.Passes i instr (p.kept f.stack) (p.kept after.stack) (d.emit base instr) := by
  obtain ⟨e, pushes, hkept, hdelta, hafter, husable⟩ := hp.kept_redone hf htr hdef
  obtain ⟨m, f', cls, cls', dupAt, below, hr⟩ := deferral?_eq_some hdef
  obtain ⟨hcreate, hcopy⟩ := hr.instructions hp.toSound
  have hstraight : d.copy.targets = [] := by
    obtain ⟨instr', hdup, -⟩ := hp.toTyped.certified.sites.dup_at d.site hr.site dupAt hr.dup_at
    change p.code[dupAt]? = _ at hdup
    have hwf := hp.wellFormed_at hdup
    have hget : d.copy = instr' := by
      rw [hr.copy]
      simp [Array.getD_eq_getD_getElem?, hdup]
    subst hget
    exact targets_of_dup hwf (Or.inr hcopy)
  have hpair : Flows [d.create, d.copy] e (e + 2) := by
    rw [hcreate]
    refine Emit.flows_cons (e := e + 1) ?_ rfl rfl rfl (Nat.zero_le _) rfl
    have hdelta : d.copy.delta = .ok (1, 2) := by
      simp [Instruction.delta, hcopy, Opcode.effect?, Opcode.shuffle?]
    exact Emit.flows_cons .nil hdelta hstraight (by rw [hcopy]; rfl) (by omega) (by omega)
  have hpre := ((flows_spill husable base (d := e)).append hpair).append (flows_reload husable base)
  rw [← hkept] at hpre
  have hredone : p.isRedone i instr = true := by simp [isRedone, hdef, Except.toOption]
  exact .image (hpre.mono fun _ _ => trivial) (by rw [hredone, if_pos rfl]; omega) (Or.inl hpre) hdelta
    (by omega) (by omega) rfl rfl

/-- **Every segment that control comes to** does to the entries that stay what its instruction does. -/
lemma Regular.passes (hp : p.Regular) (hcode : p.code[i]? = some instr)
    (hf : p.subject.types.frames[i]? = some (some f))
    (htr : Frame.Transition p.subject.types.sites i instr f after) :
    p.Passes i instr (p.kept f.stack) (p.kept after.stack) (p.segmentAt i) := by
  have hcase := hp.toSound.segment_cases hcode
  generalize p.segmentAt i = l at hcase
  cases hcase with
  | point hpt hpos => exact hp.passes_point hcode hf htr hpt hpos
  | dropped hpt hd =>
      obtain ⟨hkept, hop⟩ := hp.kept_dropped hf hcode htr hd
      refine .dropped (targets_of_dup (hp.wellFormed_at hcode) hop) ?_ hkept
      rcases hop with hop | hop <;> rw [hop] <;> rfl
  | returns hpt hd hret =>
      have hnone : p.deferral? i instr = .ok none := by
        refine deferral?_of_constructor? ?_
        cases hc : constructor? instr with
        | none => rfl
        | some m =>
            rw [(constructor?_eq_some hc).1] at hret
            cases hret
      obtain ⟨pops, pushes, hdelta, hpops, hafter⟩ := hp.kept_plain hf htr hd hnone
      have hpre : Flows [.slot (.load .ref) p.stackVar, Emit.popMethod] (p.kept f.stack)
          (p.kept f.stack) :=
        Emit.flows_cons (e := p.kept f.stack + 1)
          (Emit.flows_cons (a := 1) (b := 0) .nil rfl rfl rfl (by omega) (by omega)) rfl rfl rfl
          (Nat.zero_le _) rfl
      change p.Passes i instr _ _ ([.slot (.load .ref) p.stackVar, Emit.popMethod] ++ [instr])
      exact .image (hpre.mono fun _ _ => trivial)
        (by simp [isRedone, hnone, Except.toOption]) (Or.inl hpre) hdelta hpops hafter.symm rfl rfl
  | plain hpt hd hret hdef =>
      obtain ⟨pops, pushes, hdelta, hpops, hafter⟩ := hp.kept_plain hf htr hd hdef
      change p.Passes i instr _ _ ([] ++ [instr])
      exact .image .nil (by simp [isRedone, hdef, Except.toOption]) (Or.inl .nil) hdelta hpops
        hafter.symm rfl rfl
  | redone hpt hd hret hdef => exact hp.passes_redone hf htr hdef _

end Plan

end Suspension
