import Suspension.Proofs.Frame.Following
import Suspension.Proofs.Frame.Growth
import Suspension.Proofs.Hierarchy.Lasting

/-!
# What the frame analysis leaves as it is

The analysis asks for the class that two classes have in common, and logs what it pins.  So **a relation
between states of knowledge that lasts through questions lasts through the analysis**: related states are
not told apart, and a property that lasts is kept, whether the analysis succeeds or not.

* `Analysis.Alike`, `Transfer.Respects` — a step does not tell related states of knowledge apart.
* `Frame.respects_execute` — executing an instruction does not.
* `Analysis.respects_step`, `Analysis.respects_run` — following an instruction, and the whole analysis.
-/

namespace Suspension

/-- **Two states of an analysis** that differ in what is known about classes, where they are related. -/
structure Analysis.Alike (R : Hierarchy → Hierarchy → Prop) (a b : Analysis) : Prop where
  hierarchy : R a.hierarchy b.hierarchy
  frames : a.frames = b.frames
  sites : a.sites = b.sites
  pending : a.pending = b.pending

/-- They may both be made to follow other positions. -/
lemma Analysis.Alike.withPending {R : Hierarchy → Hierarchy → Prop} {a b : Analysis} (h : Alike R a b)
    (ps : List Nat) : Alike R { a with pending := ps } { b with pending := ps } :=
  ⟨h.hierarchy, h.frames, h.sites, rfl⟩

/-- They may be exchanged. -/
lemma Analysis.Alike.flip {R : Hierarchy → Hierarchy → Prop} {a b : Analysis} (h : Alike R a b) :
    Alike (fun h₁ h₂ => R h₂ h₁) b a :=
  ⟨h.hierarchy, h.frames.symm, h.sites.symm, h.pending.symm⟩

namespace Transfer

variable {α β : Type} {R : Hierarchy → Hierarchy → Prop} {I : Hierarchy → Prop} {ctx : AnalysisContext}

/-- **A step does not tell related states apart**, also when it fails. -/
def Respects (R : Hierarchy → Hierarchy → Prop) (x : Transfer α) : Prop :=
  ∀ ⦃a b⦄, Analysis.Alike R a b → (x.run a).1 = (x.run b).1 ∧ Analysis.Alike R (x.run a).2 (x.run b).2

lemma respects_pure (r : α) : Respects R (pure r) := fun _ _ h => ⟨rfl, h⟩

lemma respects_throw (e : FrameFault) : Respects R (throw e : Transfer α) := fun _ _ h => ⟨rfl, h⟩

lemma respects_modify {f : Analysis → Analysis}
    (hf : ∀ a b, Analysis.Alike R a b → Analysis.Alike R (f a) (f b)) :
    Respects R (modify f : Transfer Unit) := fun _ _ h => ⟨rfl, hf _ _ h⟩

lemma Respects.bind {x : Transfer α} {f : α → Transfer β} (hx : Respects R x)
    (hf : ∀ r, Respects R (f r)) : Respects R (x >>= f) := by
  intro a b h
  obtain ⟨heq, hR⟩ := hx h
  rw [run_bind, run_bind]
  generalize x.run a = ra at heq hR
  generalize x.run b = rb at heq hR
  obtain ⟨r, a'⟩ := ra
  obtain ⟨r', b'⟩ := rb
  obtain rfl : r = r' := heq
  cases r with
  | error e => exact ⟨rfl, hR⟩
  | ok r => exact hf r hR

/-- Reading the state is no difference, as long as what is known about classes is not read. -/
lemma respects_get_bind {f : Analysis → Transfer α} (hf : ∀ a, Respects R (f a))
    (hsame : ∀ a h, f { a with hierarchy := h } = f a) : Respects R (get >>= f) := by
  intro a b h
  have heq : f b = f a := by
    obtain ⟨-, hframes, hsites, hpending⟩ := h
    rw [← hsame a b.hierarchy, hframes, hsites, hpending]
  change ((f a).run a).1 = ((f b).run b).1 ∧ Analysis.Alike R ((f a).run a).2 ((f b).run b).2
  rw [heq]
  exact hf a h

/-- What a step does in one of two states that are alike it does in the other. -/
lemma Respects.run_eq {x : Transfer α} (hx : Respects R x) {a b a' : Analysis} {r : Except FrameFault α}
    (h : Analysis.Alike R a b) (hrun : x.run a = (r, a')) :
    ∃ b', x.run b = (r, b') ∧ Analysis.Alike R a' b' := by
  obtain ⟨heq, hR⟩ := hx h
  rw [hrun] at heq hR
  exact ⟨(x.run b).2, Prod.ext heq.symm rfl, hR⟩

lemma respects_throw_bind (e : FrameFault) (f : α → Transfer β) :
    Respects R ((throw e : Transfer α) >>= f) := fun _ _ h => ⟨rfl, h⟩

/-- A step that succeeds keeps a property that lasts. -/
lemma Respects.gives {x : Transfer α} {a a' : Analysis} {r : α} (hx : Respects (Hierarchy.Holding I) x)
    (h : Gives x a r a') (ha : I a.hierarchy) : I a'.hierarchy := by
  have hafter := (hx (a := a) (b := a) ⟨⟨rfl, ha⟩, rfl, rfl, rfl⟩).2.hierarchy.2
  rw [h] at hafter
  exact hafter

lemma Respects.adapt {x : Transfer α} (hx : Respects R x) (g : FrameFault → FrameFault) :
    Respects R (ExceptT.adapt g x) := fun _ _ h => ⟨congrArg (Except.mapError g) (hx h).1, (hx h).2⟩

lemma respects_site? (n : Nat) : Respects R (site? n) :=
  respects_get_bind (fun _ => respects_pure _) fun _ _ => rfl

lemma respects_modifySite (n : Nat) (f : Site → Site) : Respects R (modifySite n f) :=
  respects_modify fun _ _ h => ⟨h.hierarchy, h.frames, congrArg (List.map _) h.sites, h.pending⟩

lemma respects_enterSite (n : Nat) (cls : Text) : Respects R (enterSite n cls) := by
  refine .bind (respects_site? n) fun s => ?_
  cases s with
  | none => exact respects_modify fun _ _ h => ⟨h.hierarchy, h.frames, congrArg (· ++ _) h.sites, h.pending⟩
  | some s => exact respects_pure _

variable {src : ClassSource} (hR : Hierarchy.Lasting src R)
include hR

lemma respects_pin (position n : Nat) (reason : Text) :
    Respects R (pin ctx position n reason) := by
  refine .bind (respects_site? n) fun s => ?_
  cases s with
  | none => exact respects_pure _
  | some s =>
      simp only
      split
      · exact respects_pure _
      · refine .bind (respects_modifySite n _) fun _ => respects_modify fun a b h => ?_
        exact ⟨(hR.send _ _ _ _ h.hierarchy).2, h.frames, h.sites, h.pending⟩

lemma respects_pinSlot (position : Nat) (v : SlotType) (reason : Text) :
    Respects R (pinSlot ctx position v reason) := by
  cases v with
  | pending n cls copied => exact respects_pin hR position n reason
  | _ => exact respects_pure _

end Transfer

namespace Frame

open Transfer

variable {R : Hierarchy → Hierarchy → Prop} {ctx : AnalysisContext} {src : ClassSource}

/-! ## Instructions -/

lemma respects_pop (f : Frame) : Respects R f.pop := by
  unfold pop
  split
  · exact respects_throw _
  · exact respects_pure _

lemma respects_checkKind (v : SlotType) (want : Option Kind) : Respects R (checkKind v want) := by
  unfold checkKind
  split
  · exact respects_pure _
  · exact respects_throw _

lemma respects_localOperand (i : Instruction) (f : Frame) : Respects R (localOperand i f) := by
  unfold localOperand
  split
  · split
    · exact respects_pure _
    · exact respects_throw _
  · exact respects_throw _

lemma respects_typeOperand (i : Instruction) : Respects R (typeOperand i) := by
  unfold typeOperand
  split
  · split
    · exact respects_throw _
    · exact respects_pure _
  · exact respects_throw _

lemma respects_memberOperand (i : Instruction) : Respects R (memberOperand i) := by
  unfold memberOperand
  split
  · exact respects_pure _
  · exact respects_throw _

lemma respects_load (i : Instruction) (k : Kind) (f : Frame) : Respects R (load i k f) := by
  refine .bind (respects_localOperand i f) fun n => ?_
  simp only
  split
  · exact respects_pure _
  · exact respects_throw _

lemma respects_increment (i : Instruction) (f : Frame) : Respects R (increment i f) := by
  unfold increment
  split
  · split
    · exact .bind (respects_checkKind _ _) fun _ => respects_pure _
    · exact respects_throw _
  · exact respects_throw _

variable (hR : Hierarchy.Lasting src R)
include hR

lemma respects_popKind (position : Nat) (f : Frame) (want : Option Kind) :
    Respects R (popKind ctx position f want) :=
  .bind (respects_pop f) fun _ => .bind (respects_checkKind _ _) fun _ =>
    .bind (respects_pinSlot hR position _ _) fun _ => respects_pure _

lemma respects_popKinds (position : Nat) (ks : List Kind) (f : Frame) :
    Respects R (popKinds ctx position ks f) := by
  induction ks generalizing f with
  | nil => exact respects_pure _
  | cons k ks ih => exact .bind (respects_popKind hR position f _) fun _ => ih _

lemma respects_store (position : Nat) (i : Instruction) (k : Kind) (f : Frame) :
    Respects R (store ctx position i k f) :=
  .bind (respects_localOperand i f) fun _ => .bind (respects_pop f) fun _ =>
    .bind (respects_checkKind _ _) fun _ => .bind (respects_pinSlot hR position _ _) fun _ =>
      respects_pure _

lemma respects_dup (position : Nat) (f : Frame) : Respects R (dup ctx position f) := by
  unfold dup
  split
  · exact respects_throw _
  split
  · refine .bind (respects_site? _) fun s => ?_
    simp only
    split
    · exact .bind (respects_modifySite _ _) fun _ => respects_pure _
    · exact .bind (respects_pin hR position _ _) fun _ => respects_pure _
  · exact respects_pure _

lemma respects_pinAll (position : Nat) (reason : Text) (vs : List SlotType) :
    Respects R (pinAll ctx position reason vs) := by
  induction vs with
  | nil => exact respects_pure _
  | cons v vs ih => exact .bind (respects_pinSlot hR position v reason) fun _ => ih

lemma respects_shuffle (position : Nat) (op : Opcode) (f : Frame) :
    Respects R (shuffle ctx position op f) := by
  unfold shuffle
  simp only
  split
  all_goals first
    | exact .bind (respects_pinAll hR position _ _) fun _ => respects_pure _
    | exact respects_throw _

lemma respects_field (position : Nat) (i : Instruction) (f : Frame) :
    Respects R (field ctx position i f) := by
  refine .bind (respects_memberOperand i) fun m => ?_
  simp only
  split
  · exact respects_pure _
  · exact .bind (respects_popKind hR position f _) fun _ => respects_pure _
  · exact .bind (respects_popKind hR position f _) fun _ => respects_pure _
  · exact .bind (respects_popKind hR position f _) fun _ =>
      .bind (respects_popKind hR position _ _) fun _ => respects_pure _

lemma respects_popArgs (position : Nat) (m : Member) (params : List (Nat × Text)) (f : Frame) :
    Respects R (popArgs ctx position m params f) := by
  induction params generalizing f with
  | nil => exact respects_pure _
  | cons p params ih =>
      exact .bind ((respects_popKind hR position f _).adapt _) fun _ => ih _

lemma respects_popReceiver (position : Nat) (mode : InvokeMode) (m : Member) (f : Frame) :
    Respects R (popReceiver ctx position mode m f) := by
  refine .bind (respects_pop f) fun r => ?_
  simp only
  split
  · exact respects_throw _
  split
  · split
    · unfold construct
      split
      · exact .bind (respects_pin hR position _ _) fun _ => respects_pure _
      · exact respects_pure _
    · exact .bind (respects_pin hR position _ _) fun _ => respects_pure _
  · exact respects_pure _

lemma respects_invoke (position : Nat) (i : Instruction) (mode : InvokeMode) (f : Frame) :
    Respects R (invoke ctx position i mode f) := by
  refine .bind (respects_memberOperand i) fun m => ?_
  split
  · exact respects_throw _
  · refine .bind (respects_popArgs hR position m _ f) fun f₁ => ?_
    simp only
    split
    · exact .bind (respects_pure _) fun _ => respects_pure _
    · exact .bind (respects_popReceiver hR position mode m f₁) fun _ => respects_pure _

lemma respects_byEffect (position : Nat) (op : Opcode) (f : Frame) :
    Respects R (byEffect ctx position op f) := by
  unfold byEffect
  split
  · exact respects_throw _
  · exact .bind (respects_popKinds hR position _ f) fun _ => respects_pure _

/-- **Executing an instruction.** -/
lemma respects_execute (position : Nat) (i : Instruction) (f : Frame) :
    Respects R (execute ctx position i f) := by
  unfold execute
  split
  case h_1 | h_2 | h_3 | h_4 => exact respects_pure _
  case h_5 =>
      exact .bind (respects_typeOperand i) fun _ => .bind (respects_enterSite _ _) fun _ =>
        respects_pure _
  case h_6 => exact respects_load i _ f
  case h_7 => exact respects_store hR position i _ f
  case h_8 => exact respects_increment i f
  case h_9 =>
      exact .bind (respects_popKind hR position f _) fun _ =>
        .bind (respects_popKind hR position _ _) fun _ => respects_pure _
  case h_10 | h_11 | h_12 =>
      exact .bind (respects_popKind hR position f _) fun _ =>
        .bind (respects_typeOperand i) fun _ => respects_pure _
  case h_13 =>
      exact .bind (respects_pop f) fun _ => .bind (respects_pinSlot hR position _ _) fun _ =>
        respects_pure _
  case h_14 =>
      exact .bind (respects_pop f) fun _ => .bind (respects_pinSlot hR position _ _) fun _ =>
        .bind (respects_pop _) fun _ => .bind (respects_pinSlot hR position _ _) fun _ =>
          respects_pure _
  case h_15 => exact respects_dup hR position f
  case h_16 | h_17 | h_18 | h_19 => exact respects_shuffle hR position _ f
  case h_20 | h_21 | h_22 | h_23 => exact respects_field hR position i f
  case h_24 => exact respects_invoke hR position i _ f
  case h_25 => exact respects_byEffect hR position _ f

end Frame

namespace Analysis

open Transfer

variable {R : Hierarchy → Hierarchy → Prop} {ctx : AnalysisContext}

/-! ## Joins and steps -/

lemma respects_ask {α : Type} {q : Query α} (hq : q.Respects R) : Respects R (ask q) :=
  fun _ _ h => ⟨congrArg Except.ok (hq h.hierarchy).1, (hq h.hierarchy).2, h.frames, h.sites, h.pending⟩

variable (hR : Hierarchy.Lasting ctx.source R)
include hR

lemma respects_merge (position : Nat) (v w : SlotType) (onStack : Bool) :
    Respects R (merge ctx position v w onStack) := by
  unfold merge
  split
  · exact respects_pure _
  refine .bind (respects_pinSlot hR position _ _) fun _ => .bind (respects_pinSlot hR position _ _) fun _ => ?_
  simp only
  split
  · exact respects_pure _
  split
  · split
    · exact respects_pure _
    split
    · exact respects_pure _
    refine .bind (respects_ask (hR.commonSuper _ _)) fun sup => ?_
    cases sup with
    | none => exact respects_pure _
    | some c => exact respects_pure _
  · split
    · exact respects_throw _
    · exact respects_pure _

lemma respects_mergeLocals (position : Nat) (vs ws : List SlotType) :
    Respects R (mergeLocals ctx position vs ws) := by
  induction vs generalizing ws with
  | nil => exact respects_pure _
  | cons v vs ih =>
      cases ws with
      | nil => exact respects_pure _
      | cons w ws =>
          exact .bind (respects_merge hR position v w false) fun _ => .bind (ih ws) fun _ =>
            respects_pure _

lemma respects_mergeStack (position target slot : Nat) (vs ws : List SlotType) :
    Respects R (mergeStack ctx position target slot vs ws) := by
  induction vs generalizing ws slot with
  | nil => exact respects_pure _
  | cons v vs ih =>
      cases ws with
      | nil => exact respects_pure _
      | cons w ws =>
          exact .bind ((respects_merge hR position v w true).adapt _) fun _ =>
            .bind (ih (slot + 1) ws) fun _ => respects_pure _

omit hR in
lemma respects_enqueue (target : Nat) : Respects R (enqueue target) := by
  refine respects_modify fun a b h => ?_
  rw [← h.pending]
  split
  · exact h
  · exact ⟨h.hierarchy, h.frames, h.sites, rfl⟩

lemma respects_mergeInto (position target : Nat) (f : Frame) :
    Respects R (mergeInto ctx position target f) := by
  have hset (f : Option Frame) : Respects R
      (modify fun a : Analysis => { a with frames := a.frames.set! target f } : Transfer Unit) :=
    respects_modify fun _ _ h => ⟨h.hierarchy, congrArg (·.set! target f) h.frames, h.sites, h.pending⟩
  refine respects_get_bind (fun a => ?_) fun _ _ => rfl
  split
  · exact respects_pure _
  · exact .bind (hset _) fun _ => respects_enqueue target
  · simp only
    split
    · exact respects_throw_bind _ _
    · refine .bind (respects_mergeLocals hR position _ _) fun locals =>
        .bind (respects_mergeStack hR position _ _ _ _) fun stack => ?_
      split
      · exact .bind (hset _) fun _ => respects_enqueue target
      · exact respects_pure _

omit hR in
lemma respects_frameAt (position : Nat) : Respects R (frameAt position) :=
  respects_get_bind (fun _ => respects_pure _) fun _ _ => rfl

lemma respects_reachHandlers (position : Nat) (after : Frame) (spans : List HandlerSpan) :
    Respects R (reachHandlers ctx position after spans) := by
  induction spans with
  | nil => exact respects_pure _
  | cons s spans ih =>
      unfold reachHandlers
      split
      · refine .bind (respects_frameAt position) fun before => ?_
        cases before with
        | none => exact respects_pure _
        | some before =>
            exact .bind (respects_mergeInto hR position _ _) fun _ =>
              .bind (respects_mergeInto hR position _ _) fun _ => ih
      · exact ih

lemma respects_reachTargets (position : Nat) (after : Frame) (ids : List Label) :
    Respects R (reachTargets ctx position after ids) := by
  induction ids with
  | nil => exact respects_pure _
  | cons id ids ih =>
      unfold reachTargets
      split
      · exact respects_throw_bind _ _
      · exact .bind (respects_mergeInto hR position _ _) fun _ => ih

/-- **Following an instruction.** -/
lemma respects_step (spans : List HandlerSpan) (position : Nat) :
    Respects R (step ctx spans position) := by
  refine .bind (respects_frameAt position) fun before => ?_
  split
  · refine .bind (Frame.respects_execute hR position _ _) fun after =>
      .bind (respects_reachHandlers hR position after spans) fun _ =>
        .bind (respects_reachTargets hR position after _) fun _ => ?_
    split
    · exact respects_pure _
    split
    · exact respects_throw_bind _ _
    · exact respects_mergeInto hR position _ _
  · exact respects_pure _

/-- An ending in one of two states that are alike is one in the other. -/
lemma follow_respects {spans : List HandlerSpan} {a b : Analysis} {r : Ending} (h : Alike R a b)
    (hr : follow ctx spans a = some r) :
    ∃ b', follow ctx spans b = some (r.1, b') ∧ Alike R r.2 b' := by
  let motive (a : Analysis) (r : Ending) : Prop :=
    ∀ b, Alike R a b → ∃ b', follow ctx spans b = some (r.1, b') ∧ Alike R r.2 b'
  refine follow_induction (motive := motive) ?_ ?_ ?_ hr b h
  · intro a hp b h
    exact ⟨b, follow_done (h.pending.symm.trans hp), h⟩
  · intro a i rest e a' hp hstep b h
    obtain ⟨b', hstep', h'⟩ := (respects_step hR spans i).run_eq (h.withPending rest) hstep
    exact ⟨b', by rw [follow_error (h.pending.symm.trans hp) hstep'], h'⟩
  · intro a i rest a' r hp hstep ih b h
    obtain ⟨b', hstep', h'⟩ := (respects_step hR spans i).run_eq (h.withPending rest) hstep
    rw [follow_next (h.pending.symm.trans hp) hstep']
    exact ih b' h'

/-- **The whole analysis.** -/
lemma respects_run : Query.Respects R (run ctx) := by
  intro h₁ h₂ h
  change (run ctx h₁).1 = (run ctx h₂).1 ∧ R (run ctx h₁).2 (run ctx h₂).2
  unfold run
  simp only [loop_eq_follow]
  cases hspans : spans ctx.method.code ctx.method.ranges 0 with
  | error e => exact ⟨rfl, h⟩
  | ok ss =>
  simp only
  cases hentry : entryFrame ctx.owner ctx.method with
  | error e => exact ⟨rfl, h⟩
  | ok entry =>
  simp only
  have hstart : Alike R (start ctx h₁) (start ctx h₂) := ⟨h, rfl, rfl, rfl⟩
  obtain ⟨heq, hmerged⟩ := respects_mergeInto hR 0 0 entry hstart
  unfold start at heq hmerged
  generalize (mergeInto ctx 0 0 entry).run
    { hierarchy := h₁, frames := Array.replicate ctx.method.code.size none } = r₁ at heq hmerged ⊢
  generalize (mergeInto ctx 0 0 entry).run
    { hierarchy := h₂, frames := Array.replicate ctx.method.code.size none } = r₂ at heq hmerged ⊢
  obtain ⟨r, a₁⟩ := r₁
  obtain ⟨_, a₂⟩ := r₂
  obtain rfl : r = _ := heq
  cases r with
  | error e => exact ⟨rfl, hmerged.hierarchy⟩
  | ok _ =>
  simp only
  cases hout : follow ctx ss a₁ with
  | none =>
      cases hout' : follow ctx ss a₂ with
      | none => exact ⟨rfl, h⟩
      | some out =>
          obtain ⟨_, hsome, -⟩ := follow_respects hR.flip hmerged.flip hout'
          rw [hout] at hsome
          cases hsome
  | some out =>
      obtain ⟨b, hout', hended⟩ := follow_respects hR hmerged hout
      obtain ⟨r, a⟩ := out
      rw [hout']
      cases r with
      | error e => exact ⟨rfl, hended.hierarchy⟩
      | ok _ =>
          obtain ⟨hlast, hframes, hsites, -⟩ := hended
          simp only at hframes hsites
          exact ⟨by simp only [hframes, hsites], hlast⟩

end Analysis

end Suspension
