import Suspension.Proofs.Instrument.Stretches

/-!
# Frames for the instructions of a segment

Every instruction of a segment is given a frame, such that what it makes of its frame is below that of the next
one.  **The first frame of a segment is above the image of the frame at its instruction, and what leaves the
segment is below the image of the frame behind it.**  At a point, the frame in front of the code that
restores is one of which only the receiver is known, so the first part of a segment and the second one meet
there.

* `Plan.Shelter`, `Plan.Inner` — what handlers find of the locals within a segment.
* `Plan.Charted` — frames for the instructions of a segment, `Plan.charted_runs` — for instructions that control
  goes on behind.
* `Plan.Charts`, `Plan.Arranged.charted` — every segment has such frames.
-/

namespace Suspension

open Suspension.Frame (Runs)

/-! ## Calls -/

/-- **What a call of a method that is no constructor does to a frame.** -/
lemma Frame.Transition.of_callee {S : List Site} {q : Nat} {instr : Instruction} {g g' : Frame} {m : Member}
    (htr : Frame.Transition S q instr g g') (hcallee : instr.callee? = some m) :
    ∃ mode d used rest, instr.opcode = .invoke mode ∧ Descriptor.parseMethod m.desc = .ok d
      ∧ g.stack = used ++ rest ∧ used.map SlotType.kind? = (d.params.reverse.map fun p =>
        (SlotType.ofDesc p).kind?)
        ++ (if mode = .static then [] else [some .ref])
      ∧ (∀ t ∈ used, Site.Free S t)
      ∧ g' = ⟨g.locals, (if d.isVoid then [] else [.ofDesc d.result]) ++ rest⟩ := by
  obtain ⟨mode, hmode, ho⟩ := Instruction.callee?_eq_some hcallee
  cases htr with
  | @plain used put rest hs shape hfree =>
      cases shape with
      | @call mode' m' d args recv hop' ho' hd hargs hrecv =>
          rw [hmode] at hop'
          cases hop'
          rw [ho] at ho'
          cases ho'
          exact ⟨mode, d, _, rest, hmode, hd, hs, by rw [List.map_append, hargs, hrecv], hfree, rfl⟩
      | _ => simp_all [Opcode.hasFixedEffect]
  | store hop | begin hop | copy hop =>
      rw [hmode] at hop
      cases hop
  | construct _ ho' hname =>
      rw [ho] at ho'
      cases ho'
      simp [Instruction.callee?, hmode, ho, hname] at hcallee

/-- **The call that stands in for a call by reflection** does to a frame what that one does. -/
lemma Frame.Transition.mirrored {S : List Site} {q : Nat} {instr : Instruction} {g g' : Frame} {m : Member}
    (htr : Frame.Transition S q instr g g') (hcallee : instr.callee? = some m)
    (hop : instr.opcode ≠ .invoke .static) (hdesc : m.desc = reflectedDesc) :
    Frame.Transition S q reflectInvoke g g' := by
  obtain ⟨mode, d, used, rest, hmode, hd, hs, hkinds, hfree, rfl⟩ := htr.of_callee hcallee
  rw [hdesc, Running.parse_reflectedDesc] at hd
  cases hd
  have hmode' : mode ≠ .static := by
    rintro rfl
    exact hop hmode
  rw [if_neg hmode'] at hkinds
  refine .plain hs ?_ hfree
  have hshape : Frame.Shape reflectInvoke g.locals (used ++ []) _ :=
    .call rfl rfl Running.parse_reflectInvoke hkinds rfl
  rwa [List.append_nil] at hshape

/-- A request to suspend leaves the frame as it is. -/
lemma Frame.Transition.of_yield {S : List Site} {q : Nat} {instr : Instruction} {g g' : Frame} {m : Member}
    (htr : Frame.Transition S q instr g g') (hcallee : instr.callee? = some m)
    (hyield : m.isYield = true) (hop : instr.opcode = .invoke .static) : g' = g := by
  obtain ⟨mode, d, used, rest, hmode, hd, hs, hkinds, -, rfl⟩ := htr.of_callee hcallee
  rw [hop] at hmode
  cases hmode
  simp only [Member.isYield, Bool.and_eq_true, beq_iff_eq] at hyield
  rw [hyield.2] at hd
  cases hd
  obtain rfl : used = [] := by simpa using hkinds
  obtain ⟨L, ts⟩ := g
  obtain rfl : ts = rest := hs
  rfl

/-- The suspend signal is put on the stack. -/
lemma Frame.Transition.signal (S : List Site) (q : Nat) (L : Array SlotType) :
    Frame.Transition S q Emit.signal ⟨L, []⟩ ⟨L, [.ref ClassName.suspendSignal]⟩ := by
  have hdesc : SlotType.ofDesc (Text.ofString "Lcoro/SuspendExecution;") = .ref ClassName.suspendSignal :=
    by decide
  rw [← hdesc]
  have hshape : Frame.Shape Emit.signal L [] [.ofDesc (Text.ofString "Lcoro/SuspendExecution;")] :=
    .getStatic (m := ⟨ClassName.frameStack, Text.ofString "SUSPEND",
      Text.ofString "Lcoro/SuspendExecution;"⟩) rfl rfl
  exact .plain (f := ⟨L, []⟩) rfl hshape (by simp)

/-- An exception is thrown. -/
lemma Frame.Transition.throws (S : List Site) (q : Nat) (L : Array SlotType) (cls : Text) :
    Frame.Transition S q (.plain .throw) ⟨L, [.ref cls]⟩ ⟨L, []⟩ := by
  have hshape : Frame.Shape (.plain .throw) L [.ref cls] [] := .fixed (e := ⟨[.ref], []⟩) rfl rfl rfl
  exact .plain (f := ⟨L, [.ref cls]⟩) rfl hshape (by simp [Site.Free])

namespace Plan

variable {src : ClassSource} {V : ClassView}

/-- **What handlers find of the locals** at a place of a segment: those of the images of the frames at its
instruction, or, where a point saves and restores, the frame stack. -/
inductive Shelter (p : Plan) (i : Nat) (f after : Frame) (k : Nat) : Array SlotType → Prop where
  | saved {n : Nat} {pt : SuspensionPoint} (hpt : p.points[n]? = some pt) (hpos : pt.position = i)
      (hk : k < p.afterOffset pt) : Shelter p i f after k p.onlyStack
  | before : Shelter p i f after k (p.frameImage f).locals
  | behind : Shelter p i f after k (p.frameImage after).locals

/-- **A frame within a segment.** -/
structure Inner (U : ClassOrder src V) (p : Plan) (i : Nat) (f after : Frame) (k : Nat) (g : Frame) : Prop where
  builds : U.BuildsAll g
  locals : ∃ B, p.Shelter i f after k B ∧ g.LocalsBelow U p.heldAt B

/-- **An instruction of a segment**, from a frame to another one. -/
structure Stepped (U : ClassOrder src V) (p : Plan) (i : Nat) (f after : Frame) (k : Nat) (x : Instruction)
    (g g' : Frame) : Prop where
  named : x.Named
  transition : Frame.Transition p.imageSites (p.place i + k) x g g'
  before : p.Inner U i f after k g
  behind : p.Inner U i f after k g'

/-- **Frames for the instructions of a segment**, from a place on. -/
inductive Charted (U : ClassOrder src V) (p : Plan) (i : Nat) (instr : Instruction) (f after : Frame) :
    Nat → List Instruction → List Frame → Prop where
  | last {k : Nat} {x : Instruction} {g g' : Frame} (hstep : p.Stepped U i f after k x g g')
      (htargets : x.targets ⊆ instr.targets)
      (hgoes : x.opcode.endsBlock = false → instr.opcode.endsBlock = false)
      (hle : g'.Below (.rising U p.heldAt) (p.frameImage after)) : Charted U p i instr f after k [x] [g]
  | goesOn {k : Nat} {x : Instruction} {l : List Instruction} {g g' g'' : Frame} {gs : List Frame}
      (hstep : p.Stepped U i f after k x g g') (hstraight : x.targets = [])
      (hle : g'.Below (.rising U p.heldAt) g'') (h : Charted U p i instr f after (k + 1) l (g'' :: gs)) :
      Charted U p i instr f after k (x :: l) (g :: g'' :: gs)
  | ends {k : Nat} {x : Instruction} {l : List Instruction} {g g' : Frame} {gs : List Frame}
      (hstep : p.Stepped U i f after k x g g') (hstraight : x.targets = []) (hends : x.opcode.endsBlock = true)
      (h : Charted U p i instr f after (k + 1) l gs) : Charted U p i instr f after k (x :: l) (g :: gs)

variable {U : ClassOrder src V} {p : Plan} {i k : Nat} {instr x : Instruction} {f after g g' g'' : Frame}
  {l rest : List Instruction} {gs : List Frame} {M : Nat → Prop} {B : Array SlotType}

lemma Charted.length_eq (h : p.Charted U i instr f after k l gs) : gs.length = l.length := by
  induction h with
  | last => rfl
  | goesOn _ _ _ _ ih | ends _ _ _ _ ih => simp [ih]

/-- **Frames for the segment of an instruction**, from the image of the frame there on, and up to it unless a
construction is redone.  A point is resumed with less than the frame at its label. -/
structure Charts (U : ClassOrder src V) (p : Plan) (i : Nat) (instr : Instruction) (f after : Frame)
    (gs : List Frame) : Prop where
  charted : p.Charted U i instr f after 0 (p.segmentAt i) gs
  first : gs[0]? = some (p.frameImage f)
  last : p.deferral? i instr = .ok none → gs.getLast? = some (p.frameImage f)
  resumes : ∀ {n : Nat} {pt : SuspensionPoint}, p.points[n]? = some pt → pt.position = i →
    ∃ g, gs[p.resumeOffset pt]? = some g ∧ Frame.Below (.rising U p.heldAt) ⟨p.resumeLocals, []⟩ g

/-- **What a place of a segment is like**: the instruction there, and where what it makes of its frame lies. -/
structure Charted.At (U : ClassOrder src V) (p : Plan) (i : Nat) (instr : Instruction) (f after : Frame)
    (k : Nat)
    (x : Instruction) (g : Frame) (next : Option Frame) (g' : Frame) : Prop where
  step : p.Stepped U i f after k x g g'
  targets : ∀ id ∈ x.targets, id ∈ instr.targets ∧ g'.Below (.rising U p.heldAt) (p.frameImage after)
  next : x.opcode.endsBlock = false → (∃ g'', next = some g'' ∧ g'.Below (.rising U p.heldAt) g'') ∨
    (next = none ∧ instr.opcode.endsBlock = false ∧ g'.Below (.rising U p.heldAt) (p.frameImage after))

lemma Charted.getElem? (h : p.Charted U i instr f after k l gs) {m : Nat} (hg : gs[m]? = some g) :
    ∃ x g', l[m]? = some x ∧ Charted.At U p i instr f after (k + m) x g gs[m + 1]? g' := by
  induction h generalizing m with
  | @last k x g₀ g' hstep htargets hgoes hle =>
      cases m with
      | zero =>
          cases hg
          exact ⟨x, g', rfl, hstep, fun id hid => ⟨htargets hid, hle⟩, fun hend => Or.inr ⟨rfl, hgoes hend,
            hle⟩⟩
      | succ m => cases hg
  | @goesOn k x l g₀ g' g'' gs hstep hstraight hle _ ih =>
      cases m with
      | zero =>
          cases hg
          exact ⟨x, g', rfl, hstep, by simp [hstraight], fun _ => Or.inl ⟨g'', rfl, hle⟩⟩
      | succ m =>
          obtain ⟨y, k', hy, hat⟩ := ih (m := m) (by simpa using hg)
          rw [Nat.add_assoc, Nat.add_comm 1] at hat
          exact ⟨y, k', by simpa using hy, by simpa using hat⟩
  | @ends k x l g₀ g' gs hstep hstraight hends _ ih =>
      cases m with
      | zero =>
          cases hg
          exact ⟨x, g', rfl, hstep, by simp [hstraight], fun hend => by rw [hends] at hend; cases hend⟩
      | succ m =>
          obtain ⟨y, k', hy, hat⟩ := ih (m := m) (by simpa using hg)
          rw [Nat.add_assoc, Nat.add_comm 1] at hat
          exact ⟨y, k', by simpa using hy, by simpa using hat⟩

/-! ## Stretches -/

/-- **Instructions that control goes on behind** have frames in front of those of the rest, which stay as
they are. -/
lemma charted_runs {q : Nat} (hr : Runs p.imageSites M q g l g') (hq : q = p.place i + k)
    (hB : ∀ n, M n → B[n]? = some .unusable)
    (hshelter : ∀ m, k ≤ m → m < k + l.length → p.Shelter i f after m B)
    (hnew : ∀ cls, (⟨.new, .type cls⟩ : Instruction) ∈ l → U.builds cls) (hg : U.BuildsAll g)
    (hlocals : g.LocalsBelow U p.heldAt B) (hle : g'.Below (.rising U p.heldAt) g'')
    (hrest : p.Charted U i instr f after (k + l.length) rest (g'' :: gs)) :
    ∃ k' ks, p.Charted U i instr f after k (l ++ rest) (k' :: ks) ∧ g.Below (.rising U p.heldAt) k'
      ∧ (l ≠ [] → k' = g) ∧ (k' :: ks).drop l.length = g'' :: gs := by
  induction hr generalizing k with
  | done => exact ⟨g'', gs, hrest, hle, fun hne => absurd rfl hne, rfl⟩
  | @step q g g₁ g' x l hquiet htr _ ih =>
      subst hq
      have hx : U.BuildsAll g₁ := htr.buildsAll hg fun cls hi => hnew cls (hi ▸ List.mem_cons_self)
      have hx' : g₁.LocalsBelow U p.heldAt B := htr.localsBelow hquiet p.not_pinned_imageSites hB hlocals
      have hshelter' := hshelter k (Nat.le_refl k) (by simp)
      obtain ⟨k', ks, hchart, hle', -, hdrop⟩ := ih (k := k + 1) (by omega)
        (fun m hm hm' => hshelter m (by omega) (by simp only [List.length_cons]; omega))
        (fun cls hi => hnew cls (List.mem_cons_of_mem x hi)) hx hx' hle (by
          rwa [List.length_cons, Nat.add_comm l.length, ← Nat.add_assoc] at hrest)
      exact ⟨g, k' :: ks, .goesOn ⟨hquiet.named, htr, ⟨hg, B, hshelter', hlocals⟩, ⟨hx, B, hshelter', hx'⟩⟩
        hquiet.straight hle' hchart, .refl _ g, fun _ => rfl, hdrop⟩

/-- What a list ends with, its end ends with. -/
lemma getLast?_of_drop {α : Type} {l l' : List α} {n : Nat} {a : α} (h : l.drop n = a :: l') :
    l.getLast? = (a :: l').getLast? := by
  have hlt : ¬ l.length ≤ n := fun hle => by
    rw [List.drop_eq_nil_of_le hle] at h
    cases h
  rw [← h, List.getLast?_drop, if_neg hlt]

/-- The last instruction of a segment. -/
lemma charted_last (hnamed : x.Named) (htr : Frame.Transition p.imageSites (p.place i + k) x g g')
    (hnew : ∀ cls, x = ⟨.new, .type cls⟩ → U.builds cls) (hg : p.Inner U i f after k g)
    (htargets : x.targets ⊆ instr.targets) (hgoes : x.opcode.endsBlock = false → instr.opcode.endsBlock = false)
    (hle : g'.Below (.rising U p.heldAt) (p.frameImage after)) : p.Charted U i instr f after k [x] [g] :=
  .last ⟨hnamed, htr, hg, ⟨htr.buildsAll hg.builds hnew, _, .behind, hle.locals⟩⟩ htargets hgoes hle

/-- Generated instructions begin no construction. -/
lemma Generated.ne_new (h : p.Generated x) (cls : Text) : x ≠ ⟨.new, .type cls⟩ := by
  have hconstants : ∀ y ∈ Emit.constants, y.opcode ≠ .new := by decide
  rintro rfl
  cases h with
  | constant h => exact hconstants _ h rfl

/-- Nor do those that move arguments. -/
lemma ne_new_of_moves {base : UInt32} {args : List SlotType} (h : x ∈ spill base args ∨ x ∈ reload base args) :
    x.opcode ≠ .new := by
  have hmoves : ∀ t : SlotType, ((t.kind?.map Opcode.load).getD .nop ≠ .new)
      ∧ (t.kind?.map Opcode.store).getD .nop ≠ .new := by
    intro t
    cases t.kind? <;> simp
  unfold spill reload at h
  simp only [List.mem_reverse, List.mem_map] at h
  rcases h with ⟨⟨t, k⟩, -, rfl⟩ | ⟨⟨t, k⟩, -, rfl⟩
  · exact (hmoves t).2
  · exact (hmoves t).1

/-- A return calls no constructor. -/
lemma deferral?_of_isReturn (p : Plan) (hret : instr.opcode.isReturn = true) :
    p.deferral? i instr = .ok none := by
  have hnone : constructor? instr = none := by
    unfold constructor?
    split
    · next hop _ =>
        rw [hop] at hret
        cases hret
    · rfl
  simp [deferral?, hnone]

/-- What restores a frame begins no construction. -/
lemma Arranged.new_notMem_restore {nm : Method} (h : p.Arranged nm) {n : Nat} {pt : SuspensionPoint}
    (hpt : p.points[n]? = some pt) (cls : Text) :
    (⟨.new, .type cls⟩ : Instruction) ∉ .mark (p.callLabel n) :: Emit.restore p.stackVar
    p.subject.firstLocal pt := by
  intro hcls
  rcases List.mem_cons.mp hcls with hcls | hcls
  · cases hcls
  · exact (generated_restore (h.found pt (List.mem_of_getElem? hpt)) _ _ hcls).ne_new cls rfl

/-- A construction that is redone is one of the method. -/
lemma Arranged.new_mem_of_redone {nm : Method} (h : p.Arranged nm) {e : Deferral}
    (hdef : p.deferral? i instr = .ok (some e)) {cls : Text} (hcls : (⟨.new, .type cls⟩ : Instruction) ∈
      spill (p.stackVar + 1) e.args ++ [e.create, e.copy] ++ reload (p.stackVar + 1) e.args) :
    (⟨.new, .type cls⟩ : Instruction) ∈ p.code.toList := by
  obtain ⟨⟨-, hmem⟩, hcopy, -⟩ := h.redone_instructions hdef
  rcases List.mem_append.mp hcls with hcls | hcls
  · rcases List.mem_append.mp hcls with hcls | hcls
    · exact absurd rfl (ne_new_of_moves (Or.inl hcls))
    · rcases List.mem_pair.mp hcls with heq | heq
      · exact heq ▸ hmem
      · rw [← heq] at hcopy
        cases hcopy
  · exact absurd rfl (ne_new_of_moves (Or.inr hcls))

/-! ## Locals -/

/-- What is settled belongs to no construction. -/
lemma buildsSlot_of_settle {t : SlotType} (h : Analysis.settle t = t) : U.BuildsSlot t := by
  rintro n cls copied rfl
  cases h

lemma settle_receiverLocals (p : Plan) : ∀ t ∈ p.receiverLocals, Analysis.settle t = t := by
  intro t ht
  unfold receiverLocals at ht
  split at ht
  · simp at ht
  · obtain rfl := Array.mem_singleton.mp ht
    rfl

lemma buildsAll_resume (U : ClassOrder src V) (p : Plan) : U.BuildsAll ⟨p.resumeLocals, []⟩ := by
  refine ⟨by simp [ClassOrder.Builds], fun t ht => buildsSlot_of_settle ?_⟩
  simp only [resumeLocals, Array.toList_append, List.mem_append, Array.toList_replicate,
    Array.mem_toList_iff] at ht
  rcases ht with (ht | ht) | ht
  · exact p.settle_receiverLocals t ht
  · rw [List.eq_of_mem_replicate ht]
    rfl
  · exact p.settle_extraLocals t (Array.mem_toList_iff.mpr ht)

lemma buildsAll_image (hf : U.BuildsAll f) : U.BuildsAll (p.frameImage f) := by
  have hmoved : ∀ t, U.BuildsSlot t → U.BuildsSlot (t.moved p.standsAt) := by
    intro t ht n cls copied heq
    cases t with
    | pending k c b =>
        cases hq : p.standsAt k with
        | some q =>
            rw [SlotType.moved_pending hq] at heq
            cases heq
            exact ht k cls copied rfl
        | none =>
            rw [SlotType.moved_pending_none hq] at heq
            cases heq
    | _ => cases heq
  obtain ⟨hstack, hlocals⟩ := hf
  refine ⟨fun t ht => ?_, fun t ht => ?_⟩
  · obtain ⟨u, hu, rfl⟩ := List.mem_map.mp ht
    exact hmoved u (hstack u (List.mem_of_mem_filter hu))
  · simp only [frameImage, Frame.image, Frame.moved, Array.toList_append, Array.toList_map] at ht
    rcases List.mem_append.mp ht with ht | ht
    · obtain ⟨u, hu, rfl⟩ := List.mem_map.mp ht
      exact hmoved u (hlocals u hu)
    · exact buildsSlot_of_settle (p.settle_extraLocals t ht)

/-- Locals of which less is known, in front of the frame stack. -/
lemma localsBelow_append {A A' : Array SlotType} {ts : List SlotType} (hsize : A.size = A'.size)
    (h : ∀ (j : Nat) (t u : SlotType), A[j]? = some t → A'[j]? = some u →
      t = u ∨ u = .unusable ∧ Analysis.settle t = t) :
    Frame.LocalsBelow U p.heldAt ⟨A ++ p.extraLocals, ts⟩ (A' ++ p.extraLocals) := by
  unfold Frame.LocalsBelow
  rw [Array.toList_append, Array.toList_append]
  refine List.rel_append (List.forall₂_iff_get.mpr ⟨by simpa using hsize, fun j hj hj' => ?_⟩)
    (List.forall₂_same.mpr fun t _ => .below (.same t))
  simp only [List.get_eq_getElem, Array.getElem_toList]
  simp only [Array.length_toList] at hj hj'
  rcases h j _ _ (Array.getElem?_eq_getElem hj) (Array.getElem?_eq_getElem hj') with heq | ⟨hu, hsettle⟩
  · rw [heq]
    exact .below (.same _)
  · rw [hu]
    exact .upper trivial (hsettle ▸ SlotType.loose_settle _)

/-- Of the temporaries nothing is known. -/
lemma usedLocals_localsBelow {A : Array SlotType} {vs ts : List SlotType}
    (h : vs.length ≤ p.temporaries 0 p.code.toList) :
    Frame.LocalsBelow U p.heldAt ⟨A ++ p.usedLocals vs, ts⟩ (A ++ p.extraLocals) := by
  unfold Frame.LocalsBelow
  rw [Array.toList_append, Array.toList_append]
  refine List.rel_append (List.forall₂_same.mpr fun t _ => .below (.same t))
    ((p.usedLocals_of_extra h).flip.imp fun t u htu => ?_)
  rcases htu with rfl | ⟨rfl, hsettle⟩
  · exact .below (.same _)
  · exact .upper trivial (hsettle ▸ SlotType.loose_settle t)

/-- A call of a method that is no constructor stays, and redoes nothing. -/
lemma Sound.keeps_call (hp : p.Sound) (hcode : p.code[i]? = some instr) {m : Member}
    (hcallee : instr.callee? = some m) : p.isDropped i = false ∧ p.deferral? i instr = .ok none := by
  obtain ⟨mode, hop, -⟩ := Instruction.callee?_eq_some hcallee
  constructor
  · by_contra hd
    obtain ⟨instr', hcode', hop'⟩ := hp.dropped (by simpa using hd)
    rw [hcode] at hcode'
    cases hcode'
    simp [hop] at hop'
  · have hnone : constructor? instr = none := by
      unfold constructor?
      unfold Instruction.callee? at hcallee
      split
      · next m' hop' ho' =>
          simp only [hop', ho'] at hcallee
          split at hcallee
          · cases hcallee
          · next hne => simp only [hne, Bool.false_eq_true, if_false]
      · rfl
    simp [deferral?, hnone]

namespace Arranged

variable {nm : Method} {n : Nat} {pt : SuspensionPoint}

variable (h : p.Arranged nm)
include h

/-- Of the locals of an image no more than the frame stack may be known. -/
lemma image_onlyStack (hw : f.locals.size = p.stackVar.toNat)
    (hfree : ∀ t ∈ f.locals.toList, Site.Free p.subject.types.sites t) :
    (p.frameImage f).LocalsBelow U p.heldAt p.onlyStack := by
  have hlocals : Frame.LocalsBelow U p.heldAt ⟨f.locals.map Analysis.settle ++ p.extraLocals,
    []⟩ p.onlyStack := by
    refine localsBelow_append (by simp [hw]) fun j t u ht hu => ?_
    rw [Array.getElem?_replicate] at hu
    split at hu
    · cases hu
      obtain ⟨v, -, rfl⟩ := Option.map_eq_some_iff.mp (Array.getElem?_map ▸ ht)
      exact Or.inr ⟨rfl, SlotType.settle_settle v⟩
    · cases hu
  rw [← h.image_locals hfree] at hlocals
  exact hlocals

/-- Nor of the locals with which a point is resumed. -/
lemma resume_onlyStack (ts : List SlotType) :
    Frame.LocalsBelow U p.heldAt ⟨p.resumeLocals, ts⟩ p.onlyStack := by
  have hfirst := h.firstLocal_le
  refine localsBelow_append (by simp; omega) fun j t u ht hu => ?_
  rw [Array.getElem?_replicate] at hu
  split at hu
  · cases hu
    refine Or.inr ⟨rfl, ?_⟩
    rcases Array.mem_append.mp (Array.mem_of_getElem? ht) with ht | ht
    · exact p.settle_receiverLocals t ht
    · rw [Array.eq_of_mem_replicate ht]
      rfl
  · cases hu

/-- **A point is resumed with less** than it is left with. -/
lemma image_resume (hf : p.subject.types.frames[i]? = some (some f)) :
    Frame.Below (.rising U p.heldAt) ⟨(p.frameImage f).locals, []⟩ ⟨p.resumeLocals, []⟩ := by
  have hfirst := h.firstLocal_le
  have hw := h.width hf
  have hlocals : Frame.LocalsBelow U p.heldAt ⟨f.locals.map Analysis.settle ++ p.extraLocals,
    []⟩ p.resumeLocals := by
    refine localsBelow_append (by simp; omega) fun j t u ht hu => ?_
    rw [Array.getElem?_append] at hu
    split at hu
    · next hj =>
        unfold receiverLocals at hu hj
        cases hstatic : p.subject.method.isStatic with
        | true => simp [hstatic] at hj
        | false =>
            simp only [hstatic, Bool.false_eq_true, if_false, List.size_toArray, List.length_singleton] at hj
            obtain rfl : j = 0 := by omega
            rw [Array.getElem?_map, h.receiver hstatic hf] at ht
            simp only [hstatic] at hu
            cases ht
            cases hu
            exact Or.inl rfl
    · rw [Array.getElem?_replicate] at hu
      split at hu
      · cases hu
        obtain ⟨v, -, rfl⟩ := Option.map_eq_some_iff.mp (Array.getElem?_map ▸ ht)
        exact Or.inr ⟨rfl, SlotType.settle_settle v⟩
      · cases hu
  rw [← h.image_locals (h.free hf)] at hlocals
  exact ⟨.nil, hlocals⟩

/-! ## Segments -/

section Segments

variable (hf : p.subject.types.frames[i]? = some (some f)) (hcode : p.code[i]? = some instr)
  (htr : Frame.Transition p.subject.types.sites i instr f after) (hbuilds : U.BuildsAll f)
  (hnew : ∀ cls, (⟨.new, .type cls⟩ : Instruction) ∈ p.code.toList → U.builds cls)
include hf htr hbuilds

/-- An instruction that stays, at the end of its segment. -/
lemma image_step (hd : p.isDropped i = false) (hdef : p.deferral? i instr = .ok none)
    (hlen : 0 < (p.segmentAt i).length) :
    ∃ g', Frame.Transition p.imageSites (p.imageAt i) instr (p.frameImage f) g'
      ∧ g'.Below (.rising U p.heldAt) (p.frameImage after) := by
  obtain ⟨g', hstep, hle⟩ := h.sound.image_plain h.founded htr (h.founded.spares hf hd hdef)
    (h.free hf) hlen hbuilds.1
  exact ⟨g', hstep, hle.mono And.left (fun _ h => h) False.elim False.elim⟩

include hcode hnew

lemma charted_plain (hd : p.isDropped i = false) (hdef : p.deferral? i instr = .ok none)
    (hseg : p.segmentAt i = [instr]) : p.Charted U i instr f after 0 (p.segmentAt i) [p.frameImage f] := by
  have hlen : (p.segmentAt i).length = 1 := by rw [hseg]; rfl
  obtain ⟨g', hstep, hle⟩ := h.image_step hf htr hbuilds hd hdef (by omega)
  rw [imageAt_eq_place hlen] at hstep
  rw [hseg]
  exact charted_last (h.fits _ (mem_code hcode)).2.named hstep (fun cls heq => hnew cls (heq ▸ mem_code hcode))
    ⟨buildsAll_image hbuilds, _, .before, (Frame.Below.refl _ _).locals⟩ (fun _ hid => hid) id hle

lemma charted_returns (hd : p.isDropped i = false) (hret : instr.opcode.isReturn = true)
    (hseg : p.segmentAt i = [.slot (.load .ref) p.stackVar, Emit.popMethod, instr]) :
    ∃ gs, p.Charted U i instr f after 0 (p.segmentAt i) (p.frameImage f :: gs)
      ∧ (p.frameImage f :: gs).getLast? = some (p.frameImage f) := by
  have hlen : (p.segmentAt i).length = 3 := by rw [hseg]; rfl
  obtain ⟨g', hstep, hle⟩ := h.image_step hf htr hbuilds hd (p.deferral?_of_isReturn hret) (by omega)
  have himage : p.imageAt i = p.place i + (0 + 2) := by
    unfold imageAt
    rw [place_succ, hlen]
    rfl
  rw [himage] at hstep
  have hlast : p.Charted U i instr f after (0 + 2) [instr] [p.frameImage f] :=
    charted_last (h.fits _ (mem_code hcode)).2.named hstep (fun cls heq => hnew cls (heq ▸ mem_code hcode))
      ⟨buildsAll_image hbuilds, _, .before, (Frame.Below.refl _ _).locals⟩ (fun _ hid => hid) id hle
  rw [hseg]
  obtain ⟨g, gs, hchart, -, hfirst, hdrop⟩ := charted_runs (M := fun _ => False)
    (runs_leaving (h.width hf)) rfl (by simp)
    (fun _ _ _ => .before) (by simp [Instruction.slot, Emit.popMethod, Instruction.member])
    (buildsAll_image hbuilds)
    (Frame.Below.refl _ _).locals (.refl _ _) hlast
  obtain rfl := hfirst (List.cons_ne_nil _ _)
  exact ⟨gs, hchart, getLast?_of_drop hdrop⟩

/-! ### Points -/

omit hnew in
/-- **The call of a point**, at the end of its segment.  A request to suspend changes nothing. -/
lemma point_step (hpt : p.points[n]? = some pt) (hpos : pt.position = i) :
    f = pt.frame ∧ instr.opcode.endsBlock = false ∧ (pt.isYield = true → after = f) ∧
      (pt.isYield = false → ∃ g', Frame.Transition p.imageSites (p.place i + (p.afterOffset pt + 1)) pt.call
          (p.frameImage f) g' ∧ g'.Below (.rising U p.heldAt) (p.frameImage after)
        ∧ pt.call.Named ∧ pt.call.targets = [] ∧ ∀ cls, pt.call ≠ ⟨.new, .type cls⟩) := by
  have hfound := h.found pt (List.mem_of_getElem? hpt)
  have hframe : p.subject.types.frames[pt.position]? = some (some pt.frame) := hfound.frame_at
  obtain ⟨instr', m, hcode', hcallee, hcall, hyield⟩ := hfound.call
  have hcode' : p.code[pt.position]? = some instr' := hcode'
  rw [hpos, hf] at hframe
  rw [hpos, hcode] at hcode'
  cases hframe
  cases hcode'
  obtain ⟨mode, hop, ho⟩ := Instruction.callee?_eq_some hcallee
  refine ⟨rfl, by rw [hop]; rfl, fun hy => htr.of_yield hcallee (hyield hy).1 (hyield hy).2, fun hy => ?_⟩
  obtain ⟨hd, hdef⟩ := h.sound.keeps_call hcode hcallee
  have hlen : (p.segmentAt i).length = p.afterOffset pt + 1 + 1 := by
    rw [← hpos, (h.sound.segmentAt_point hpt).2, length_pointImage, hy]
    rfl
  obtain ⟨g', hstep, hle⟩ := h.image_step hf htr hbuilds hd hdef (by omega)
  have himage : p.imageAt i = p.place i + (p.afterOffset pt + 1) := by
    unfold imageAt
    rw [place_succ, hlen]
    omega
  rw [himage] at hstep
  have hfits := h.fits instr (mem_code hcode)
  have htargets : instr.targets = [] := by simp [Instruction.targets, ho]
  rcases hcall with hcall | ⟨hreflective, hcall⟩
  · rw [hcall]
    refine ⟨g', hstep, hle, hfits.2.named, htargets, fun cls heq => ?_⟩
    rw [heq] at hop
    cases hop
  · obtain ⟨hstatic, hdesc⟩ := h.reflective instr (mem_code hcode) m hcallee hreflective
    rw [hcall]
    exact ⟨g', hstep.mirrored hcallee hstatic hdesc, hle, by simp [Instruction.Named, reflectInvoke,
      Instruction.member],
      rfl, fun cls heq => by cases heq⟩

omit hnew in
/-- **From where a point is resumed**: its frame comes back, and the call does to the image what it does to the
frame. -/
lemma charted_resumed (hpt : p.points[n]? = some pt) (hpos : pt.position = i) :
    ∃ g gs, p.Charted U i instr f after (p.resumeOffset pt)
        ((.mark (p.callLabel n) :: Emit.restore p.stackVar p.subject.firstLocal pt)
          ++ (.mark (p.afterLabel n) :: if pt.isYield then [] else [pt.call])) (g :: gs)
      ∧ Frame.Below (.rising U p.heldAt) ⟨p.resumeLocals, []⟩ g ∧ (g :: gs).getLast? = some
        (p.frameImage f) := by
  obtain ⟨rfl, hgoes, hyield, hcall⟩ := h.point_step hf hcode htr hbuilds hpt hpos
  have hinner : ∀ k, p.Inner U i pt.frame after k (p.frameImage pt.frame) :=
    fun k => ⟨buildsAll_image hbuilds, _, .before, (Frame.Below.refl _ _).locals⟩
  have hmark : ∀ q, Frame.Transition p.imageSites q (.mark (p.afterLabel n)) (p.frameImage pt.frame)
      (p.frameImage pt.frame) := fun q => .plain rfl (.idle (Or.inr rfl)) (by simp)
  have hnamed : (Instruction.mark (p.afterLabel n)).Named := by simp [Instruction.Named, Instruction.mark]
  have hbehind : ∃ gs, p.Charted U i instr pt.frame after (p.afterOffset pt)
      (.mark (p.afterLabel n) :: if pt.isYield then [] else [pt.call]) (p.frameImage pt.frame :: gs)
      ∧ (p.frameImage pt.frame :: gs).getLast? = some (p.frameImage pt.frame) := by
    cases hy : pt.isYield with
    | true =>
        refine ⟨[], charted_last hnamed (hmark _) (by simp [Instruction.mark]) (hinner _)
          (by simp [Instruction.mark,
          Instruction.targets]) (fun _ => hgoes) ?_, rfl⟩
        rw [hyield hy]
        exact .refl _ _
    | false =>
        obtain ⟨g', hstep, hle, hname, htargets, hnone⟩ := hcall hy
        exact ⟨_, .goesOn ⟨hnamed, hmark _, hinner _, hinner _⟩ rfl (.refl _ _) (charted_last hname hstep
          (fun cls heq => absurd heq (hnone cls)) (hinner _) (by simp [htargets]) (fun _ => hgoes) hle), rfl⟩
  obtain ⟨gs, hbehind, hend⟩ := hbehind
  have hlen : (Instruction.mark (p.callLabel n) :: Emit.restore p.stackVar p.subject.firstLocal pt).length
      = p.afterOffset pt - p.resumeOffset pt := by
    unfold afterOffset
    rw [List.length_cons]
    omega
  have hle : p.resumeOffset pt ≤ p.afterOffset pt := by unfold afterOffset; omega
  have hrest : p.Charted U i instr pt.frame after (p.resumeOffset pt
      + (Instruction.mark (p.callLabel n) :: Emit.restore p.stackVar p.subject.firstLocal pt).length)
      (.mark (p.afterLabel n) :: if pt.isYield then [] else [pt.call]) (p.frameImage pt.frame :: gs) := by
    rwa [hlen, Nat.add_sub_cancel' hle]
  have hnothing : ∀ j, j < p.stackVar.toNat → p.onlyStack[j]? = some .unusable := by
    intro j hj
    unfold onlyStack
    rw [Array.getElem?_append_left (by simpa using hj), Array.getElem?_replicate, if_pos hj]
  obtain ⟨g, gs', hchart, hle', -, hdrop⟩ := charted_runs (h.runs_resuming hpt fun j hj => hj) rfl hnothing
    (fun m _ hm => .saved hpt hpos (by omega)) (fun cls hcls => absurd hcls (h.new_notMem_restore hpt cls))
    (buildsAll_resume U p) (h.resume_onlyStack []) (.refl _ _) hrest
  exact ⟨g, gs', hchart, hle', (getLast?_of_drop hdrop).trans hend⟩

omit hnew in
/-- **A point saves its frame**, and ends there if it is a request to suspend.  It goes on with less than it
had. -/
lemma charted_point (hpt : p.points[n]? = some pt) (hpos : pt.position = i) :
    ∃ gs, p.Charted U i instr f after 0 (p.segmentAt i) (p.frameImage f :: gs)
      ∧ (p.frameImage f :: gs).getLast? = some (p.frameImage f)
      ∧ ∃ g', (p.frameImage f :: gs)[p.resumeOffset pt]? = some g'
        ∧ Frame.Below (.rising U p.heldAt) ⟨p.resumeLocals, []⟩ g' := by
  obtain ⟨rfl, -⟩ := h.point_step hf hcode htr hbuilds hpt hpos
  obtain ⟨g, gs, hresumed, hle, hend⟩ := h.charted_resumed hf hcode htr hbuilds hpt hpos
  have hsaved : ∀ k, k < p.afterOffset pt → p.Shelter i pt.frame after k p.onlyStack :=
    fun k hk => .saved hpt hpos hk
  have honly : Frame.LocalsBelow U p.heldAt ⟨(p.frameImage pt.frame).locals, []⟩ p.onlyStack :=
    h.image_onlyStack (h.width hf) (h.free hf)
  have hsaves : ∀ cls, (⟨.new, .type cls⟩ : Instruction) ∉ .mark (p.beforeLabel n) :: Emit.save p.stackVar
    pt := by
    intro cls hmem
    rcases List.mem_cons.mp hmem with hmem | hmem
    · cases hmem
    · exact (generated_save (h.found pt (List.mem_of_getElem? hpt)) _ hmem).ne_new cls rfl
  have hempty : U.BuildsAll ⟨(p.frameImage pt.frame).locals, []⟩ :=
    ⟨by simp [ClassOrder.Builds], (buildsAll_image hbuilds).2⟩
  -- what stands between the record and the label to resume at
  have hmiddle : ∃ g' gs', p.Charted U i instr pt.frame after (1 + (Emit.save p.stackVar pt).length)
      ((if pt.isYield then [Emit.signal, .plain .throw] else [])
        ++ ((.mark (p.callLabel n) :: Emit.restore p.stackVar p.subject.firstLocal pt)
          ++ (.mark (p.afterLabel n) :: if pt.isYield then [] else [pt.call]))) (g' :: gs')
      ∧ Frame.Below (.rising U p.heldAt) ⟨(p.frameImage pt.frame).locals, []⟩ g'
      ∧ (g' :: gs')[p.resumeOffset pt - (1 + (Emit.save p.stackVar pt).length)]? = some g
      ∧ (g' :: gs').getLast? = some (p.frameImage pt.frame) := by
    cases hy : pt.isYield with
    | false =>
        have hoffset : p.resumeOffset pt = 1 + (Emit.save p.stackVar pt).length := by simp [resumeOffset, hy]
        rw [hoffset, hy] at hresumed
        refine ⟨g, gs, hresumed, (h.image_resume hf).trans hle U.trans id id id id id id rfl rfl (·.2), ?_,
          hend⟩
        rw [hoffset, Nat.sub_self, List.getElem?_cons_zero]
    | true =>
        have hoffset : p.resumeOffset pt = 1 + (Emit.save p.stackVar pt).length + 1 + 1 :=
          by simp [resumeOffset, hy]
        have hlt : p.resumeOffset pt ≤ p.afterOffset pt := by unfold afterOffset; omega
        rw [hoffset, hy] at hresumed
        have hbuilds' : U.BuildsAll ⟨(p.frameImage pt.frame).locals, [.ref ClassName.suspendSignal]⟩ :=
          (Frame.Transition.signal p.imageSites 0 _).buildsAll hempty (by simp [Emit.signal,
            Instruction.member])
        refine ⟨_, _, .goesOn ⟨?_, .signal _ _ _, ⟨hempty, _, hsaved _ (by omega), honly⟩, ⟨hbuilds', _,
          hsaved _ (by omega), honly⟩⟩
          rfl (.refl _ _) (.ends ⟨?_, .throws _ _ _ _, ⟨hbuilds', _, hsaved _ (by omega), honly⟩,
            ⟨hempty, _, hsaved _ (by omega), honly⟩⟩ rfl rfl hresumed), .refl _ _, ?_, hend⟩
        · simp [Instruction.Named, Emit.signal, Instruction.member]
        · simp [Instruction.Named, Instruction.plain]
        · rw [hoffset, show 1 + (Emit.save p.stackVar pt).length + 1 + 1 -
            (1 + (Emit.save p.stackVar pt).length) = 2
            by omega]
          rfl
  obtain ⟨g', gs', hchart, hle', hat, hend⟩ := hmiddle
  have himage : p.segmentAt i = (.mark (p.beforeLabel n) :: Emit.save p.stackVar pt)
      ++ ((if pt.isYield then [Emit.signal, .plain .throw] else [])
        ++ ((.mark (p.callLabel n) :: Emit.restore p.stackVar p.subject.firstLocal pt)
          ++ (.mark (p.afterLabel n) :: if pt.isYield then [] else [pt.call]))) := by
    rw [← hpos, (h.sound.segmentAt_point hpt).2]
    simp [pointImage]
  have hlow : 1 + (Emit.save p.stackVar pt).length ≤ p.resumeOffset pt := by unfold resumeOffset; omega
  have hlength : (.mark (p.beforeLabel n) :: Emit.save p.stackVar pt).length = 1 + (Emit.save p.stackVar
    pt).length := by
    rw [List.length_cons, Nat.add_comm]
  have hbefore : ∀ m, m < 0 + (.mark (p.beforeLabel n) :: Emit.save p.stackVar pt).length
    → m < p.afterOffset pt := by
    intro m hm
    unfold afterOffset
    omega
  obtain ⟨g₀, gs₀, hwhole, -, hfirst, hdrop⟩ := charted_runs (M := fun _ => False)
    (h.runs_saving hpt) rfl (by simp)
    (fun m _ hm => hsaved m (hbefore m hm)) (fun cls hcls => absurd hcls (hsaves cls)) (buildsAll_image hbuilds)
    (h.image_onlyStack (h.width hf) (h.free hf)) hle' (by rwa [hlength, Nat.zero_add])
  obtain rfl := hfirst (List.cons_ne_nil _ _)
  refine ⟨gs₀, himage ▸ hwhole, (getLast?_of_drop hdrop).trans hend, g, ?_, hle⟩
  rw [← hat, ← hdrop, hlength, List.getElem?_drop, Nat.add_sub_cancel' hlow]

/-! ### Constructions that are redone -/

/-- **In front of a constructor call whose construction is redone**, the arguments are put aside and come
back. -/
lemma charted_redone {e : Deferral} (hdef : p.deferral? i instr = .ok (some e)) :
    ∃ gs, p.Charted U i instr f after 0 (p.segmentAt i) (p.frameImage f :: gs) := by
  obtain ⟨rest', hr⟩ := h.founded.redone h.sound (h.paired hf) hf htr hdef
  have hw := h.width hf
  have hsize : (p.frameImage f).locals.size = p.stackVar.toNat + (1 + p.temporaries 0 p.code.toList) :=
    size_image hw
  have hbelow : f.Below (.rising U p.unpinned) f := .refl _ f
  -- the arguments are put aside and come back
  have hrun : Runs p.imageSites (fun j => p.stackVar.toNat < j ∧ j < (p.frameImage f).locals.size) _ _ _ _ :=
    hr.runs h hf hcode hdef hbelow rfl fun j hj hj' => ⟨hj, hj'⟩
  have hnothing : ∀ j, p.stackVar.toNat < j ∧ j < (p.frameImage f).locals.size →
      (p.frameImage f).locals[j]? = some .unusable := by
    rintro j ⟨hj, hj'⟩
    rw [h.image_locals (h.free hf), Array.getElem?_append_right (by simp [hw]; omega), extraLocals,
      Array.getElem?_append_right (by simp [hw]; omega), Array.getElem?_replicate, if_pos (by simp [hw]; omega)]
  have hnews : ∀ cls, (⟨.new, .type cls⟩ : Instruction) ∈
      spill (p.stackVar + 1) e.args ++ [e.create, e.copy] ++ reload (p.stackVar + 1) e.args → U.builds cls :=
    fun cls hcls => hnew cls (h.new_mem_of_redone hdef hcls)
  -- the constructor call
  obtain ⟨g', vs, hstep, hvs, hle⟩ := hr.step h hf hcode hdef hbelow rfl htr (h.free hf) hbuilds.1
  have hrise : g'.Below (.rising U p.heldAt) ((after.thin p.isOmitted).moved p.standsAt (p.usedLocals vs)) :=
    hle.mono And.left (fun _ h => h) False.elim False.elim
  have hused : Frame.Below (.rising U p.heldAt) ((after.thin p.isOmitted).moved p.standsAt (p.usedLocals vs))
      (p.frameImage after) := ⟨(Frame.Below.refl _ (p.frameImage after)).stack, usedLocals_localsBelow hvs⟩
  have hle' : g'.Below (.rising U p.heldAt) (p.frameImage after) :=
    hrise.trans hused U.trans id id id id id id rfl rfl (·.2)
  have hseg := h.sound.segmentAt_redone hcode hdef
  have hlength : (p.segmentAt i).length = (spill (p.stackVar + 1) e.args ++ [e.create, e.copy]
      ++ reload (p.stackVar + 1) e.args).length + 1 := by
    rw [hseg]
    exact List.length_append
  have himage : p.imageAt i = p.place i + (0 + (spill (p.stackVar + 1) e.args ++ [e.create, e.copy]
      ++ reload (p.stackVar + 1) e.args).length) := by
    unfold imageAt
    rw [place_succ, hlength]
    omega
  obtain ⟨hall, hbehind⟩ := hrun.keeps p.not_pinned_imageSites hnothing hnews (buildsAll_image hbuilds)
    (Frame.Below.refl (.rising U p.heldAt) _).locals
  rw [himage] at hstep
  rw [hseg]
  obtain ⟨g, gs, hchart, -, hfirst, -⟩ := charted_runs hrun rfl hnothing (fun _ _ _ => .before) hnews
    (buildsAll_image hbuilds)
    (Frame.Below.refl _ _).locals (.refl _ _) (charted_last (h.fits _ (mem_code hcode)).2.named hstep
      (fun cls heq => hnew cls (heq ▸ mem_code hcode)) ⟨hall, _, .before, hbehind⟩ (fun _ hid => hid) id hle')
  obtain rfl := hfirst (by simp)
  exact ⟨gs, hchart⟩

/-- **Every segment has frames.** -/
theorem charted (hlen : 0 < (p.segmentAt i).length) : ∃ gs, p.Charts U i instr f after gs := by
  have hnone : p.pointAt? i = none → ∀ {n : Nat} {pt : SuspensionPoint}, p.points[n]? = some pt →
      pt.position = i → False := by
    intro hpt n pt hn hpos
    have hat := h.sound.pointAt?_position hn
    rw [hpos, hpt] at hat
    cases hat
  have hseg := h.sound.segment_cases hcode
  generalize hl : p.segmentAt i = l at hseg hlen
  cases hseg with
  | dropped => cases hlen
  | @point pt n hpt hpos =>
      obtain ⟨gs, hchart, hlast, hresumes⟩ := h.charted_point hf hcode htr hbuilds hpt hpos
      refine ⟨p.frameImage f :: gs, hchart, rfl, fun _ => hlast, fun hpt' hpos' => ?_⟩
      obtain ⟨rfl, rfl⟩ := h.sound.point_unique hpt hpt' (hpos.trans hpos'.symm)
      exact hresumes
  | returns hpt hd hret =>
      obtain ⟨gs, hchart, hlast⟩ := h.charted_returns hf hcode htr hbuilds hnew hd hret hl
      exact ⟨p.frameImage f :: gs, hchart, rfl, fun _ => hlast, fun hn hpos => (hnone hpt hn hpos).elim⟩
  | plain hpt hd _ hdef =>
      have hchart := h.charted_plain hf hcode htr hbuilds hnew hd hdef hl
      exact ⟨[p.frameImage f], hchart, rfl, fun _ => rfl, fun hn hpos => (hnone hpt hn hpos).elim⟩
  | redone hpt _ _ hdef =>
      obtain ⟨gs, hchart⟩ := h.charted_redone hf hcode htr hbuilds hnew hdef
      refine ⟨p.frameImage f :: gs, hchart, rfl, fun hnone' => ?_, fun hn hpos => (hnone hpt hn hpos).elim⟩
      rw [hdef] at hnone'
      cases hnone'

end Segments

end Arranged

end Plan

end Suspension
