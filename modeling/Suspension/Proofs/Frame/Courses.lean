import Suspension.Proofs.Frame.Constructions
import Suspension.Proofs.Frame.Inheriting
import Suspension.Proofs.Instrument.Layout

/-!
# Instructions one after the other

What several instructions do to a frame, as long as control goes on behind each of them.  **Where a settled
analysis knows more than a frame in front of them, it knows more than the frame behind them.**

* `Instruction.Quiet`, `Frame.Runs` — instructions one after the other.
* `FrameTypes.Settles`, `FrameTypes.Settles.follows_runs` — what a settled analysis knows.
* `Frame.runs_load`, `Frame.runs_store`, `Frame.runs_call`, `Frame.runs_cast` — single instructions.
-/

namespace Suspension

/-- **An instruction behind which control goes on**, that loads no element of an array, calls no constructor and
sets no other locals than those that may be set. -/
structure Instruction.Quiet (may : Nat → Prop) (instr : Instruction) : Prop where
  straight : instr.targets = []
  goesOn : instr.opcode.endsBlock = false
  named : instr.Named
  loads : instr.opcode ≠ .arrayLoad .ref
  calls : Plan.constructor? instr = none
  sets : ∀ k n, instr.opcode = .store k → instr.operand = .slot n → may n.toNat

/-- **Instructions one after the other**, from a frame to another one, with the locals that they may set. -/
inductive Frame.Runs (S : List Site) (may : Nat → Prop) : Nat → Frame → List Instruction → Frame → Prop where
  | done {q : Nat} {f : Frame} : Runs S may q f [] f
  | step {q : Nat} {f g k : Frame} {instr : Instruction} {l : List Instruction} (hq : instr.Quiet may)
      (htr : Frame.Transition S q instr f g) (h : Runs S may (q + 1) g l k) : Runs S may q f (instr :: l) k

namespace Frame.Runs

variable {S : List Site} {may : Nat → Prop} {q : Nat} {f g k : Frame} {instr : Instruction}
  {l l' : List Instruction}

lemma one (hq : instr.Quiet may) (htr : Frame.Transition S q instr f g) : Runs S may q f [instr] g :=
    .step hq htr .done

lemma single (h : Runs S may q f [instr] g) : instr.Named ∧ Frame.Transition S q instr f g := by
  cases h with
  | step hq htr h =>
      cases h
      exact ⟨hq.named, htr⟩

lemma append (h : Runs S may q f l g) (h' : Runs S may (q + l.length) g l' k) : Runs S may q f (l ++ l') k := by
  induction h with
  | done => simpa using h'
  | @step q f g k instr l hq htr _ ih =>
      refine .step hq htr (ih ?_)
      rwa [List.length_cons, Nat.add_comm l.length, ← Nat.add_assoc] at h'

/-- Instructions that do the same at all positions. -/
lemma append_at (h : Runs S may q f l g) (h' : ∀ q, Runs S may q g l' k) : Runs S may q f (l ++ l') k :=
    h.append (h' _)

end Frame.Runs

/-! ## Constructions on the way -/

section Builds

variable {src : ClassSource} {V : ClassView} {U : ClassOrder src V} {held : Nat → Prop} {S : List Site}
  {may : Nat → Prop} {q : Nat} {f g k : Frame} {instr : Instruction} {l : List Instruction}

/-- All constructions of a frame are of classes that may be constructed. -/
def ClassOrder.BuildsAll (U : ClassOrder src V) (f : Frame) : Prop :=
  U.Builds f ∧ ∀ t ∈ f.locals.toList, U.BuildsSlot t

lemma ClassOrder.BuildsSlot.completed {t : SlotType} (h : U.BuildsSlot t) (n : Nat) :
    U.BuildsSlot (Frame.completed n t) := by
  intro m cls copied heq
  unfold Frame.completed at heq
  split at heq
  · split at heq
    · cases heq
    · exact h m cls copied heq
  · exact h m cls copied heq

/-- **An instruction constructs of the classes of a frame**, or of that of its `new`. -/
lemma Frame.Transition.buildsAll (h : Frame.Transition S q instr f g) (hf : U.BuildsAll f)
    (hnew : ∀ cls, instr = ⟨.new, .type cls⟩ → U.builds cls) : U.BuildsAll g := by
  obtain ⟨hstack, hlocals⟩ := hf
  cases h with
  | @plain used put rest hs shape =>
      refine ⟨List.forall_mem_append.mpr ⟨?_, fun t ht => hstack t (by simp [hs, ht])⟩, hlocals⟩
      exact shape.forall_put (fun t ht n cls copied heq => absurd heq (ht n cls copied))
        (fun t ht => hstack t (by simp [hs, ht])) hlocals
  | @store k n t rest hop ho hs =>
      refine ⟨fun t ht => hstack t (by simp [hs, ht]), fun u hu => ?_⟩
      simp only [Array.set!_eq_setIfInBounds, Array.toList_setIfInBounds] at hu
      rcases List.mem_or_eq_of_mem_set hu with hu | rfl
      · exact hlocals u hu
      · exact hstack u (by simp [hs])
  | @begin cls hop ho =>
      refine ⟨List.forall_mem_cons.mpr ⟨?_, hstack⟩, hlocals⟩
      intro n c copied heq
      cases heq
      obtain ⟨op, operand⟩ := instr
      obtain rfl : op = .new := hop
      obtain rfl : operand = .type cls := ho
      exact hnew cls rfl
  | @copy n cls rest hop hs =>
      refine ⟨List.forall_mem_cons.mpr ⟨?_, hstack⟩, hlocals⟩
      intro m c copied heq
      cases heq
      exact hstack (.pending n cls false) (by simp [hs]) n cls false rfl
  | @construct m d args rest n cls copied hop ho hname hd hs =>
      refine ⟨List.forall_mem_append.mpr ⟨?_, fun t ht => ?_⟩, fun t ht => ?_⟩
      · intro t ht m c copied heq
        split at ht
        · cases ht
        · rw [List.mem_singleton.mp ht] at heq
          unfold SlotType.ofDesc at heq
          split at heq <;> cases heq
      · obtain ⟨u, hu, rfl⟩ := List.mem_map.mp ht
        exact (hstack u (by simp [hs, hu])).completed n
      · simp only [Array.toList_map, List.mem_map] at ht
        obtain ⟨u, hu, rfl⟩ := ht
        exact (hlocals u hu).completed n

end Builds

/-! ## Locals on the way -/

section Locals

variable {src : ClassSource} {V : ClassView} {U : ClassOrder src V} {held : Nat → Prop} {S : List Site}
  {may : Nat → Prop} {q : Nat} {f g k : Frame} {instr : Instruction} {l : List Instruction}
  {B C : Array SlotType}

/-- **What is said of locals holds of those of a frame.** -/
def Frame.LocalsBelow (U : ClassOrder src V) (held : Nat → Prop) (f : Frame) (B : Array SlotType) : Prop :=
  List.Forall₂ (SlotType.LocalBelow (.rising U held)) f.locals.toList B.toList

lemma Frame.LocalsBelow.trans (h : f.LocalsBelow U held B) (h' : Frame.LocalsBelow U held ⟨B, []⟩ C) :
    f.LocalsBelow U held C := by
  have hboth : Frame.Below (.rising U held) ⟨f.locals, []⟩ ⟨C, []⟩ :=
    Frame.Below.trans (g := ⟨B, []⟩) ⟨.nil, h⟩ ⟨.nil, h'⟩ U.trans id id id id id id rfl rfl (·.2)
  exact hboth.locals

/-- Such a frame reaches a handler whose locals say this. -/
lemma Frame.LocalsBelow.handler (h : f.LocalsBelow U held B) (cls : Text) :
    Frame.Below (.rising U held) ⟨f.locals, [.ref cls]⟩ ⟨B, [.ref cls]⟩ := ⟨.cons (.same _) .nil, h⟩

/-- **What is said of locals keeps to hold**, if nothing is said of those that may be set. -/
lemma Frame.Transition.localsBelow (htr : Frame.Transition S q instr f g) (hq : instr.Quiet may)
    (hS : ∀ n, ¬ Site.Pinned S n) (hB : ∀ n, may n → B[n]? = some .unusable) (h : f.LocalsBelow U held B) :
    g.LocalsBelow U held B := by
  cases htr with
  | plain | begin | copy => exact h
  | @store k n t rest hop ho hs hn hk hfree =>
      have hset : B.toList = B.toList.set n.toNat .unusable := by
        obtain ⟨hlt, hat⟩ := Array.getElem?_eq_some_iff.mp (hB _ (hq.sets k n hop ho))
        rw [← hat, ← Array.getElem_toList, List.set_getElem_self]
      unfold Frame.LocalsBelow
      simp only [Array.set!_eq_setIfInBounds, Array.toList_setIfInBounds]
      rw [hset]
      exact Frame.forall₂_set_each _ h (.upper trivial (SlotType.loose_of_free (fun n _ => hS n) hfree))
  | construct hop ho hname =>
      have hnone := hq.calls
      simp [Plan.constructor?, hop, ho, hname] at hnone

/-- **So it is behind instructions that control goes on behind.** -/
lemma Frame.Runs.keeps (h : Frame.Runs S may q f l g) (hS : ∀ n, ¬ Site.Pinned S n)
    (hB : ∀ n, may n → B[n]? = some .unusable) (hnew : ∀ cls, (⟨.new, .type cls⟩ : Instruction) ∈ l
      → U.builds cls)
    (hf : U.BuildsAll f) (hlocals : f.LocalsBelow U held B) : U.BuildsAll g ∧ g.LocalsBelow U held B := by
  induction h with
  | done => exact ⟨hf, hlocals⟩
  | step hq htr _ ih =>
      exact ih (fun cls hi => hnew cls (List.mem_cons_of_mem _ hi))
        (htr.buildsAll hf fun cls hi => hnew cls (hi ▸ List.mem_cons_self)) (htr.localsBelow hq hS hB hlocals)

end Locals

/-! ## What a settled analysis says -/

section Settled

variable {src : ClassSource} {V : ClassView} {U : ClassOrder src V} {held : Nat → Prop} {S : List Site}
  {may : Nat → Prop} {q : Nat} {f g k : Frame} {instr : Instruction} {l : List Instruction}

/-- **The order by which a frame bounds another one from below**: unusable locals say nothing. -/
def SlotOrder.weak (U : ClassOrder src V) (held : Nat → Prop) : SlotOrder := ⟨U.le, held, True, True⟩

/-- **A settled analysis of a body**: every frame has been followed, and nothing that is held is pinned. -/
structure FrameTypes.Settles (U : ClassOrder src V) (held : Nat → Prop) (code : Code) (spans : List HandlerSpan)
    (T : FrameTypes) : Prop where
  passed : ∀ (i : Nat) (f : Frame), T.frames[i]? = some (some f) →
    ∃ instr after, T.Passed U code spans i f instr after
  unpinned : ∀ n, held n → ¬ Site.Pinned T.sites n
  builds : ∀ (i : Nat) (f : Frame), T.frames[i]? = some (some f) → U.Builds f

namespace FrameTypes.Settles

variable {code : Code} {spans : List HandlerSpan} {T : FrameTypes}

/-- A frame that has been reached by one above another is above it. -/
lemma weak_of_meets (hT : T.Settles U held code spans) {f' : Frame} (h : f.Below (.weak U held) f') {i : Nat}
    (hmeets : T.Meets U f' i) : ∃ g, T.frames[i]? = some (some g) ∧ f.Below (.weak U held) g := by
  obtain ⟨g, hg, hclimbs⟩ := hmeets
  exact ⟨g, hg, h.trans (hclimbs.held hT.unpinned) U.trans id id id id (fun h => h.elim) id rfl rfl (·.2)⟩

/-- **What an instruction does to a frame below the one at its position** is below what the analysis has found
behind it. -/
lemma follows (hT : T.Settles U held code spans) (hS : ∀ n, held n → ¬ Site.Pinned S n)
    (hcode : code[q]? = some instr) (htr : Frame.Transition S q instr f g) {f' : Frame}
    (hf' : T.frames[q]? = some (some f')) (hle : f.Below (.weak U held) f') (hloads : U.LoadsFrom instr f)
    (hbuilds : U.Builds f) :
    ∃ g', T.Passed U code spans q f' instr g' ∧ g.Below (.weak U held) g' := by
  obtain ⟨instr', g', hpassed⟩ := hT.passed q f' hf'
  have hsame := hpassed.code_at
  rw [hcode] at hsame
  cases hsame
  exact ⟨g', hpassed, htr.below rfl hpassed.transition hle hS hT.unpinned hloads hbuilds (hT.builds q f' hf')⟩

/-- **Instructions one after the other** stay below what the analysis has found. -/
lemma follows_runs (hT : T.Settles U held code spans) (hS : ∀ n, held n → ¬ Site.Pinned S n)
    (h : Frame.Runs S may q f l k) (hcode : code.Has q l) {f' : Frame} (hf' : T.frames[q]? = some (some f'))
    (hle : f.Below (.weak U held) f') (hbuilds : U.BuildsAll f)
    (hnew : ∀ cls, (⟨.new, .type cls⟩ : Instruction) ∈ l → U.builds cls) :
    ∃ k', T.frames[q + l.length]? = some (some k') ∧ k.Below (.weak U held) k' := by
  induction h generalizing f' with
  | done => exact ⟨f', hf', hle⟩
  | @step q f g k instr l hq htr _ ih =>
      obtain ⟨hat, hrest⟩ := Code.has_cons.mp hcode
      obtain ⟨g', hpassed, hgg'⟩ := hT.follows hS hat htr hf' hle (fun hop => absurd hop hq.loads) hbuilds.1
      obtain ⟨g'', hg'', hle'⟩ := hT.weak_of_meets hgg' (hpassed.next hq.goesOn).2
      obtain ⟨k', hk', hkk'⟩ := ih hrest hg'' hle'
        (htr.buildsAll hbuilds fun cls hi => hnew cls (hi ▸ List.mem_cons_self))
        fun cls hi => hnew cls (List.mem_cons_of_mem _ hi)
      refine ⟨k', ?_, hkk'⟩
      rwa [List.length_cons, Nat.add_comm l.length, ← Nat.add_assoc]

end FrameTypes.Settles

end Settled

/-! ## Single instructions -/

namespace Frame

open SlotType

variable {S : List Site} {may : Nat → Prop} {q : Nat} {L : Array SlotType} {ts : List SlotType} {v : SlotType}
  {instr : Instruction}

/-- An instruction takes slots and puts others, whatever lies below. -/
lemma runs_shape {used put : List SlotType} (rest : List SlotType) (hq : instr.Quiet may)
    (h : Shape instr L used put)
    (hfree : ∀ t ∈ used, Site.Free S t) : Runs S may q ⟨L, used ++ rest⟩ [instr] ⟨L, put ++ rest⟩ :=
  .one hq (.plain (f := ⟨L, used ++ rest⟩) rfl h hfree)

lemma runs_mark (id : Label) : Runs S may q ⟨L, ts⟩ [.mark id] ⟨L, ts⟩ :=
  runs_shape ts ⟨rfl, rfl, by simp [Instruction.Named, Instruction.mark], by simp [Instruction.mark], rfl,
    by simp [Instruction.mark]⟩ (.idle (Or.inr rfl)) (by simp)

lemma runs_load {k : Kind} {n : UInt32} (hv : L[n.toNat]? = some v) (hk : v.kind? = some k) :
    Runs S may q ⟨L, ts⟩ [.slot (.load k) n] ⟨L, v :: ts⟩ :=
  runs_shape ts ⟨rfl, rfl, by simp [Instruction.Named, Instruction.slot], by simp [Instruction.slot], rfl,
    by simp [Instruction.slot]⟩ (.load rfl rfl hv hk) (by simp)

lemma runs_store {k : Kind} {n : UInt32} (hmay : may n.toNat) (hn : n.toNat < L.size) (hk : v.kind? = some k)
    (hv : Site.Free S v) : Runs S may q ⟨L, v :: ts⟩ [.slot (.store k) n] ⟨L.set! n.toNat v, ts⟩ := by
  refine .one ⟨rfl, rfl, by simp [Instruction.Named, Instruction.slot], by simp [Instruction.slot], rfl, ?_⟩
    (.store rfl rfl rfl hn hk hv)
  rintro _ m - hm
  cases hm
  exact hmay

lemma runs_int (n : Int32) : Runs S may q ⟨L, ts⟩ [.int n] ⟨L, .int :: ts⟩ := by
  have h : Shape (.int n) L [] ([Kind.int].map SlotType.ofKind).reverse :=
    .fixed (e := ⟨[], [.int]⟩) rfl rfl rfl
  exact runs_shape ts ⟨rfl, rfl, by simp [Instruction.Named, Instruction.int], by simp [Instruction.int], rfl,
    by simp [Instruction.int]⟩ h (by simp)

lemma runs_null : Runs S may q ⟨L, ts⟩ [.plain .pushNull] ⟨L, .null :: ts⟩ :=
  runs_shape ts ⟨rfl, rfl, by simp [Instruction.Named, Instruction.plain], by simp [Instruction.plain], rfl,
    by simp [Instruction.plain]⟩ (.null rfl) (by simp)

lemma runs_pop (hv : Site.Free S v) : Runs S may q ⟨L, v :: ts⟩ [.plain .pop] ⟨L, ts⟩ :=
  runs_shape ts ⟨rfl, rfl, by simp [Instruction.Named, Instruction.plain], by simp [Instruction.plain], rfl,
    by simp [Instruction.plain]⟩ (.pop rfl) (by simpa using hv)

/-- A call of a method that is no constructor. -/
lemma runs_call {mode : InvokeMode} {m : Member} {d : Descriptor.Method} (args recv ts : List SlotType)
    (hmode : mode ≠ .special) (hd : Descriptor.parseMethod m.desc = .ok d)
    (hargs : args.map SlotType.kind? = d.params.reverse.map fun p => (SlotType.ofDesc p).kind?)
    (hrecv : recv.map SlotType.kind? = if mode = .static then [] else [some .ref])
    (hfree : ∀ t ∈ args ++ recv, Site.Free S t) :
    Runs S may q ⟨L, args ++ recv ++ ts⟩ [⟨.invoke mode, .member m⟩]
      ⟨L, (if d.isVoid then [] else [.ofDesc d.result]) ++ ts⟩ := by
  refine runs_shape ts ⟨rfl, rfl, by simp [Instruction.Named], by simp, ?_, by simp⟩
    (.call rfl rfl hd hargs hrecv)
    hfree
  cases mode with
  | special => exact absurd rfl hmode
  | _ => rfl

/-- A cast of a reference that is not known as null. -/
lemma runs_cast {c cls : Text} (hc : c ≠ ClassName.null) (hcls : cls ≠ []) :
    Runs S may q ⟨L, .ref c :: ts⟩ [.type .checkCast cls] ⟨L, .ref cls :: ts⟩ := by
  have hnull : (SlotType.ref c).isNull = false := by simpa [SlotType.isNull, SlotType.null] using hc
  have h : Shape (.type .checkCast cls) L [.ref c] [if (SlotType.ref c).isNull then .ref c else .ref cls] :=
    .cast rfl rfl rfl
  rw [hnull] at h
  exact runs_shape ts ⟨rfl, rfl, by simpa [Instruction.Named, Instruction.type] using hcls,
    by simp [Instruction.type], rfl, by simp [Instruction.type]⟩ h (by simp [Site.Free])

end Frame

end Suspension
