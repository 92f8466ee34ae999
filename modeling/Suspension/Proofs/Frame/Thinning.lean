import Suspension.Proofs.Frame.Constructions
import Suspension.Proofs.Frame.Soundness
import Suspension.Proofs.Instrument.Marks

/-!
# Stacks without some constructions

A stack may be without the references of some pending constructions.  **An instruction that uses none of them
does to the thinner stack what it does to the whole one**: it asks for the same, goes to the same places, and
leaves a thinner stack and a whole one that differ by the same references.

* `SlotType.absent?`, `Frame.gaps` — the slots that are missing.
* `Frame.thicken` — the whole stack for a thinner one.
* `Frame.Spares`, `Frame.Transition.splits` — an instruction that uses none of the missing slots.
* `Frame.thin`, `Frame.Transition.thin` — it makes the same transition.
* `Step.Thicker`, `Frame.Transition.thicker` — its outcomes on the two stacks.
-/

namespace Suspension

/-! ## Gaps -/

/-- **A slot that is missing**: the reference of a construction that is out, with its class. -/
def SlotType.absent? (out : Nat → Bool) : SlotType → Option (Nat × Text)
  | .pending n cls _ => if out n then some (n, cls) else none
  | _ => none

/-- The objects of missing constructions are objects of their classes. -/
def World.Supplies (W : World) (obj : Nat → ObjectId) (gaps : List (Option (Nat × Text))) : Prop :=
  ∀ n cls, some (n, cls) ∈ gaps → W.made (obj n) cls

namespace Frame

/-- Which slots of a stack are missing. -/
def gaps (out : Nat → Bool) (ts : List SlotType) : List (Option (Nat × Text)) := ts.map (·.absent? out)

/-- The slots of a stack that are there. -/
def present (out : Nat → Bool) (ts : List SlotType) : List SlotType :=
  ts.filter fun t => (t.absent? out).isNone

/-- **A stack with the missing references put back**, each to the object of its construction. -/
def thicken (obj : Nat → ObjectId) : List (Option (Nat × Text)) → List Value → List Value
  | [], us => us
  | some (n, _) :: gaps, us => .object (obj n) :: thicken obj gaps us
  | none :: gaps, [] => thicken obj gaps []
  | none :: gaps, u :: us => u :: thicken obj gaps us

variable {W : World} {C : Classes} {out : Nat → Bool} {obj obj' : Nat → ObjectId}
  {ts rest rest' : List SlotType}
  {t : SlotType} {xs us : List Value} {os : List (Option (Nat × Text))}

lemma absent?_eq_some {n : Nat} {cls : Text} (h : t.absent? out = some (n, cls)) :
    out n = true ∧ ∃ copied, t = .pending n cls copied := by
  cases t with
  | pending m c copied =>
      simp only [SlotType.absent?] at h
      split at h
      · next hout =>
          cases h
          exact ⟨hout, copied, rfl⟩
      · cases h
  | _ => cases h

lemma absent?_pending {n : Nat} {cls : Text} {copied : Bool} (h : out n = true) :
    (SlotType.pending n cls copied).absent? out = some (n, cls) := if_pos h

lemma absent?_pending_none {n : Nat} {cls : Text} {copied : Bool} (h : out n = false) :
    (SlotType.pending n cls copied).absent? out = none := by simp [SlotType.absent?, h]

/-- What is there stays where it is. -/
lemma thicken_append (hts : ∀ t ∈ ts, t.absent? out = none) (hlen : ts.length = xs.length) :
    thicken obj (gaps out (ts ++ rest)) (xs ++ us) = xs ++ thicken obj (gaps out rest) us := by
  induction ts generalizing xs with
  | nil =>
      obtain rfl := List.length_eq_zero_iff.mp hlen.symm
      rfl
  | cons t ts ih =>
      cases xs with
      | nil => cases hlen
      | cons x xs =>
          rw [List.forall_mem_cons] at hts
          have ih := ih hts.2 (Nat.succ.inj hlen)
          simp only [gaps, List.cons_append, List.map_cons, hts.1, thicken] at ih ⊢
          rw [ih]

/-- Only the objects of missing constructions count. -/
lemma thicken_congr (h : ∀ n cls, some (n, cls) ∈ os → obj n = obj' n) :
    thicken obj os us = thicken obj' os us := by
  induction os generalizing us with
  | nil => rfl
  | cons o os ih =>
      have ih : ∀ us, thicken obj os us = thicken obj' os us :=
        fun us => ih fun n cls hn => h n cls (List.mem_cons_of_mem o hn)
      match o, us with
      | some (n, cls), us => simp only [thicken, ih, h n cls List.mem_cons_self]
      | none, [] => simp only [thicken, ih]
      | none, u :: us => simp only [thicken, ih]

lemma present_append : present out (ts ++ rest) = present out ts ++ present out rest := List.filter_append ..

lemma present_eq_self (hts : ∀ t ∈ ts, t.absent? out = none) : present out ts = ts :=
  List.filter_eq_self.mpr fun t ht => by rw [hts t ht]; rfl

/-- **Frames that meet have the same gaps**, as long as only slots that are there rise. -/
lemma gaps_of_le {sites : List Site} (hfree : ∀ t, Site.Free sites t → t.absent? out = none)
    {us : List SlotType} (hle : List.Forall₂ (SlotType.Le C sites) ts us) : gaps out ts = gaps out us := by
  induction hle with
  | nil => rfl
  | @cons t u ts us htu _ ih =>
      have hsame : t.absent? out = u.absent? out := by
        rcases htu with rfl | ⟨hf, c, d, -, rfl, -⟩
        · rfl
        · exact hfree t hf
      simp only [gaps, List.map_cons, hsame] at ih ⊢
      rw [ih]

/-! ## Instructions that use nothing that is missing -/

/-- **An instruction uses nothing that is missing**: what may be used freely is there, and so are the
constructions that it begins, copies or completes. -/
structure Spares (out : Nat → Bool) (sites : List Site) (i : Nat) (instr : Instruction) (f : Frame) :
    Prop where
  free : ∀ t, Site.Free sites t → t.absent? out = none
  begins : instr.opcode = .new → out i = false
  copies : instr.opcode = .dup → ∀ n, Site.CopiedAt sites n i → out n = false
  completes : ∀ m n cls copied below, Plan.constructor? instr = some m →
    f.stack.drop (Descriptor.argCount m.desc).toNat = .pending n cls copied :: below → out n = false

/-- **The slots that an instruction takes and puts are there**, and below them nothing is missing that was not
missing before. -/
structure Splits (out : Nat → Bool) (instr : Instruction) (f after : Frame)
    (used put rest rest' : List SlotType) : Prop where
  before : f.stack = used ++ rest
  behind : after.stack = put ++ rest'
  takes : ∀ t ∈ used, t.absent? out = none
  puts : ∀ t ∈ put, t.absent? out = none
  below : gaps out rest = gaps out rest'
  delta : instr.delta = .ok (used.length, put.length)

variable {sites : List Site} {i : Nat} {instr : Instruction} {f after : Frame}

lemma gaps_completed {n : Nat} (hn : out n = false) : gaps out (ts.map (completed n)) = gaps out ts := by
  unfold gaps
  rw [List.map_map]
  refine List.map_congr_left fun t _ => ?_
  cases t with
  | pending s cls copied =>
      simp only [Function.comp_apply, completed]
      split
      · next hsame =>
          obtain rfl : s = n := by simpa using hsame
          exact (absent?_pending_none hn).symm
      · rfl
  | _ => rfl

lemma absent?_result (d : Descriptor.Method) :
    ∀ t ∈ (if d.isVoid then [] else [SlotType.ofDesc d.result]), t.absent? out = none := by
  have hofDesc : ∀ desc, (SlotType.ofDesc desc).absent? out = none := by
    intro desc
    unfold SlotType.ofDesc
    split <;> rfl
  split
  · simp
  · simpa using hofDesc d.result

/-- The construction that a call completes is there. -/
lemma Spares.completed (hs : Spares out sites i instr f) {m : Member} {d : Descriptor.Method}
    {args : List SlotType} {n : Nat} {cls : Text} {copied : Bool} (hop : instr.opcode = .invoke .special)
    (ho : instr.operand = .member m) (hname : m.name = Text.ofString "<init>")
    (hparse : Descriptor.parseMethod m.desc = .ok d)
    (hstack : f.stack = args ++ .pending n cls copied :: rest)
    (hlen : args.length = d.params.length) : out n = false := by
  have hm : Plan.constructor? instr = some m := by
    obtain ⟨op, operand⟩ := instr
    obtain rfl := hop
    obtain rfl := ho
    simp [Plan.constructor?, hname]
  refine hs.completes m n cls copied rest hm ?_
  have hcount : (Descriptor.argCount m.desc).toNat = args.length := by
    simp [Descriptor.argCount, hparse, hlen]
  rw [hstack, hcount, List.drop_left]

/-- **An instruction that uses nothing that is missing** splits the stack. -/
lemma Transition.splits (htr : Transition sites i instr f after) (hs : Spares out sites i instr f)
    (hlocals : ∀ t ∈ f.locals.toList, Site.Free sites t) :
    ∃ used put rest rest', Splits out instr f after used put rest rest' := by
  cases htr with
  | @plain used put rest hstack shape free =>
      exact ⟨used, put, rest, rest, hstack, rfl, fun t ht => hs.free t (free t ht),
        fun t ht => hs.free t (shape.free free hlocals t ht), rfl, shape.delta⟩
  | @store k n t rest hop ho hstack hn hk free =>
      refine ⟨[t], [], rest, rest, hstack, rfl, ?_, by simp, rfl, ?_⟩
      · simpa using hs.free t free
      · obtain ⟨op, operand⟩ := instr
        obtain rfl := hop
        rfl
  | @begin cls hop ho =>
      refine ⟨[], [.pending i cls false], f.stack, f.stack, rfl, rfl, by simp, ?_, rfl, ?_⟩
      · simpa using absent?_pending_none (hs.begins hop)
      · obtain ⟨op, operand⟩ := instr
        obtain rfl := hop
        rfl
  | @copy n cls rest hop hstack hc =>
      have hn := hs.copies hop n hc
      refine ⟨[.pending n cls false], [.pending n cls true, .pending n cls false], rest, rest, hstack,
        by rw [hstack]; rfl, ?_, ?_, rfl, ?_⟩
      · simpa using absent?_pending_none hn
      · simpa using ⟨absent?_pending_none hn, absent?_pending_none hn⟩
      · obtain ⟨op, operand⟩ := instr
        obtain rfl := hop
        rfl
  | @construct m d args rest n cls copied hop ho hname hparse hstack hargs free hpair =>
      have hlen : args.length = d.params.length := by simpa using congrArg List.length hargs
      have hn := hs.completed hop ho hname hparse hstack hlen
      refine ⟨args ++ [.pending n cls copied], if d.isVoid then [] else [.ofDesc d.result], rest,
        rest.map (completed n), by simp [hstack], rfl, fun t ht => ?_, absent?_result d,
        (gaps_completed hn).symm, ?_⟩
      · rcases List.mem_append.mp ht with ht | ht
        · exact hs.free t (free t ht)
        · obtain rfl := List.mem_singleton.mp ht
          exact absent?_pending_none hn
      · obtain ⟨op, operand⟩ := instr
        obtain rfl := hop
        obtain rfl := ho
        cases hvoid : d.isVoid <;>
          simp [Instruction.delta, Opcode.effect?, Opcode.shuffle?, Opcode.memberDelta, hparse, hlen, hvoid]

lemma supplies_append : W.Supplies obj (gaps out (ts ++ rest)) ↔
    W.Supplies obj (gaps out ts) ∧ W.Supplies obj (gaps out rest) := by
  unfold gaps
  rw [List.map_append]
  constructor
  · exact fun h => ⟨fun n cls hn => h n cls (List.mem_append_left _ hn),
      fun n cls hn => h n cls (List.mem_append_right _ hn)⟩
  · rintro ⟨h, h'⟩ n cls hn
    exact (List.mem_append.mp hn).elim (h n cls) (h' n cls)

lemma supplies_of_present (hts : ∀ t ∈ ts, t.absent? out = none) : W.Supplies obj (gaps out ts) := by
  intro n cls hn
  obtain ⟨t, ht, heq⟩ := List.mem_map.mp hn
  rw [hts t ht] at heq
  cases heq

/-- The same objects are missing in front of the instruction and behind it. -/
lemma Splits.supplies_iff {used put rest' : List SlotType} (h : Splits out instr f after used put rest rest') :
    W.Supplies obj (gaps out f.stack) ↔ W.Supplies obj (gaps out after.stack) := by
  rw [h.before, h.behind, supplies_append, supplies_append, h.below]
  exact and_congr_left' (iff_of_true (supplies_of_present h.takes) (supplies_of_present h.puts))

/-! ## The thinner frame -/

/-- **A frame without the slots that are missing.** -/
def thin (out : Nat → Bool) (f : Frame) : Frame := ⟨f.locals, present out f.stack⟩

lemma present_map_completed {n : Nat} (hn : out n = false) :
    present out (ts.map (completed n)) = (present out ts).map (completed n) := by
  have hgaps : gaps out (ts.map (completed n)) = gaps out ts := gaps_completed hn
  induction ts with
  | nil => rfl
  | cons t ts ih =>
      simp only [gaps, List.map_cons, List.cons.injEq] at hgaps
      have ih := ih hgaps.2
      simp only [present, List.map_cons, List.filter_cons, hgaps.1] at ih ⊢
      rw [ih]
      split <;> simp

/-- **It makes the same transition.** -/
lemma Transition.thin (htr : Transition sites i instr f after) (hs : Spares out sites i instr f)
    (hlocals : ∀ t ∈ f.locals.toList, Site.Free sites t) :
    Transition sites i instr (f.thin out) (after.thin out) := by
  cases htr with
  | @plain used put rest hstack shape free =>
      have hused := present_eq_self fun t ht => hs.free t (free t ht)
      have hput := present_eq_self fun t ht => hs.free t (shape.free free hlocals t ht)
      have hafter : (⟨f.locals, put ++ rest⟩ : Frame).thin out = ⟨f.locals, put ++ present out rest⟩ := by
        simp only [Frame.thin, present_append, hput]
      rw [hafter]
      refine .plain ?_ shape free
      simp only [Frame.thin, hstack, present_append, hused]
  | @store k n t rest hop ho hstack hn hk free =>
      refine .store (f := f.thin out) hop ho ?_ hn hk free
      simp [Frame.thin, present, hstack, hs.free t free]
  | @begin cls hop ho =>
      have hpending : (SlotType.pending i cls false).absent? out = none :=
        absent?_pending_none (hs.begins hop)
      have hafter : (⟨f.locals, .pending i cls false :: f.stack⟩ : Frame).thin out
          = ⟨f.locals, .pending i cls false :: present out f.stack⟩ := by
        simp [Frame.thin, present, hpending]
      rw [hafter]
      exact .begin hop ho
  | @copy n cls rest hop hstack hc =>
      have hn := hs.copies hop n hc
      have hpending : ∀ copied, (SlotType.pending n cls copied).absent? out = none :=
        fun copied => absent?_pending_none hn
      have hafter : (⟨f.locals, .pending n cls true :: f.stack⟩ : Frame).thin out
          = ⟨f.locals, .pending n cls true :: present out f.stack⟩ := by
        simp [Frame.thin, present, hpending]
      have hthin : (f.thin out).stack = .pending n cls false :: present out rest := by
        simp [Frame.thin, present, hstack, hpending]
      rw [hafter]
      exact .copy hop hthin hc
  | @construct m d args rest n cls copied hop ho hname hparse hstack hargs free hpair =>
      have hlen : args.length = d.params.length := by simpa using congrArg List.length hargs
      have hn := hs.completed hop ho hname hparse hstack hlen
      have hpending : ∀ copied, (SlotType.pending n cls copied).absent? out = none :=
        fun copied => absent?_pending_none hn
      have hargs' := present_eq_self fun t ht => hs.free t (free t ht)
      have hafter : (⟨f.locals.map (completed n), (if d.isVoid then [] else [.ofDesc d.result])
            ++ rest.map (completed n)⟩ : Frame).thin out
          = ⟨f.locals.map (completed n), (if d.isVoid then [] else [.ofDesc d.result])
              ++ (present out rest).map (completed n)⟩ := by
        simp only [Frame.thin, present_append, present_eq_self (absent?_result d),
          present_map_completed hn]
      rw [hafter]
      have hthin : (f.thin out).stack = args ++ .pending n cls copied :: present out rest := by
        simp only [Frame.thin, hstack, present_append, hargs']
        simp [present, hpending]
      refine .construct hop ho hname hparse hthin hargs free (hpair.imp_right fun h => ⟨h.1, ?_⟩)
      obtain ⟨below, rfl⟩ := List.head?_eq_some_iff.mp h.2
      simp [present, hpending]

/-! ## Steps on the two stacks -/

/-- **Locals agree where a frame says anything of them.** -/
def Agree (f : Frame) (L K : Array Value) : Prop :=
  ∀ (l : Nat) (t : SlotType), f.locals[l]? = some t → t ≠ .unusable → L[l]? = K[l]?

/-- Locals agree where less is said of them. -/
lemma Agree.le {L K : Array Value} (h : f.Agree L K) (hle : Frame.Le C sites f after) :
    after.Agree L K := by
  intro l t ht husable
  have hlen := hle.locals.length_eq
  simp only [Array.length_toList] at hlen
  obtain ⟨hl, rfl⟩ := Array.getElem?_eq_some_iff.mp ht
  have hlf : l < f.locals.size := hlen ▸ hl
  refine h l f.locals[l] (Array.getElem?_eq_getElem hlf) fun hun => husable ?_
  have hslot := (List.forall₂_iff_get.mp hle.locals).2 l (by simpa using hlf) (by simpa using hl)
  simp only [List.get_eq_getElem, Array.getElem_toList] at hslot
  rw [hun] at hslot
  rcases hslot with (heq | ⟨-, c, d, hc, -⟩) | ⟨-, heq⟩
  · exact heq.symm
  · cases hc
  · exact heq

lemma Agree.set {L K : Array Value} (h : f.Agree L K) (hsize : L.size = K.size) (n : Nat) (v : Value)
    (hlocals : ∀ (l : Nat) (t : SlotType), l ≠ n → after.locals[l]? = some t → t ≠ .unusable →
      ∃ u, f.locals[l]? = some u ∧ u ≠ .unusable) : after.Agree (L.set! n v) (K.set! n v) := by
  intro l t ht husable
  simp only [Array.set!_eq_setIfInBounds, Array.getElem?_setIfInBounds, hsize]
  split
  · rfl
  · next hne =>
      obtain ⟨u, hu, hne⟩ := hlocals l t (Ne.symm hne) ht husable
      exact h l u hu hne

end Frame

/-- **The outcomes of a step on a thinner stack and on a whole one.** -/
inductive Step.Thicker (W : World) (instr : Instruction) (obj : Nat → ObjectId) (out : Nat → Bool) (g : Frame) :
    Step → Step → Prop where
  | next {pc : Nat} {L K : Array Value} {us : List Value} (h : g.Agree L K) (hsize : L.size = K.size) :
      Thicker W instr obj out g (.next ⟨pc, L, Frame.thicken obj (Frame.gaps out g.stack) us⟩)
        (.next ⟨pc, K, us⟩)
  | returns {v : Value} : Thicker W instr obj out g (.returns v) (.returns v)
  | asks {r : Request} {pc : Nat} {L K : Array Value} {zs us : List Value} (h : g.Agree L K)
      (hanswer : ∀ v, r.Admits W instr v →
        v.toList ++ zs = Frame.thicken obj (Frame.gaps out g.stack) (v.toList ++ us)) :
      Thicker W instr obj out g (.asks r ⟨pc, L, zs⟩) (.asks r ⟨pc, K, us⟩)

namespace Frame

variable {W : World} {C : Classes} {out : Nat → Bool} {obj : Nat → ObjectId} {sites : List Site} {i : Nat}
  {instr : Instruction} {f after : Frame} {target : Label → Nat}

/-- A local that is usable behind an instruction was so in front of it, unless something is stored. -/
lemma Transition.usable (htr : Transition sites i instr f after) (hop : ∀ k, instr.opcode ≠ .store k)
    {l : Nat} {t : SlotType} (ht : after.locals[l]? = some t) (husable : t ≠ .unusable) :
    ∃ u, f.locals[l]? = some u ∧ u ≠ .unusable := by
  cases htr with
  | plain | begin | copy => exact ⟨t, ht, husable⟩
  | @store k n u rest hstore => exact absurd hstore (hop k)
  | @construct m d args rest n =>
      rw [Array.getElem?_map] at ht
      obtain ⟨u, hu, rfl⟩ := Option.map_eq_some_iff.mp ht
      refine ⟨u, hu, ?_⟩
      rintro rfl
      exact husable rfl

/-- **An instruction looks at nothing but usable locals.** -/
lemma Transition.alike (htr : Transition sites i instr f after) {L K : Array Value} (h : f.Agree L K)
    (hL : f.locals.size ≤ L.size) (hK : f.locals.size ≤ K.size) (pc pc' : Nat) (xs : List Value) :
    instr.Alike ⟨pc, L, xs⟩ ⟨pc', K, xs⟩ := by
  refine ⟨rfl, fun {k n} hop ho => ?_, fun {n delta} hop ho => ?_, fun {k n} hop ho => ?_⟩
  · cases htr with
    | plain hstack shape free =>
        cases shape with
        | load hop' ho' ht hk =>
            rw [ho] at ho'
            cases ho'
            refine h _ _ ht ?_
            rintro rfl
            cases hk
        | _ => simp_all [Opcode.hasFixedEffect]
    | _ => simp_all
  · cases htr with
    | plain hstack shape free =>
        cases shape with
        | increment hop' ho' ht hk =>
            rw [ho] at ho'
            cases ho'
            refine h _ _ ht ?_
            rintro rfl
            cases hk
        | _ => simp_all [Opcode.hasFixedEffect]
    | _ => simp_all
  · have hn := htr.changes_lt (n := n) (by simp [Instruction.changes?, hop, ho])
    exact iff_of_true (Nat.lt_of_lt_of_le hn hL) (Nat.lt_of_lt_of_le hn hK)

/-- Nothing is missing of what an instruction puts, and below it nothing that was not missing before. -/
lemma Splits.thicken {used put rest rest' : List SlotType} (h : Splits out instr f after used put rest rest')
    {s ys : List Value} (hafter : List.Forall₂ W.Holds (present out after.stack) (s ++ ys))
    (hys : ys.length = (present out rest).length) :
    thicken obj (gaps out after.stack) (s ++ ys) = s ++ thicken obj (gaps out rest) ys := by
  have hcount : (present out rest).length = (present out rest').length := by
    have hlen : ∀ ts : List SlotType, (present out ts).length = (gaps out ts).countP (·.isNone) := by
      intro ts
      rw [gaps, List.countP_map, List.countP_eq_length_filter]
      rfl
    rw [hlen, hlen, h.below]
  have hput : put.length = s.length := by
    have hlen := hafter.length_eq
    rw [h.behind, present_append, present_eq_self h.puts, List.length_append, List.length_append] at hlen
    omega
  rw [h.behind, thicken_append h.puts hput, h.below]

/-- Storing does the same to both stacks. -/
lemma store_thicker {k : Kind} {n : UInt32} {t : SlotType} {rest : List SlotType}
    (hop : instr.opcode = .store k) (ho : instr.operand = .slot n) (hstack : f.stack = t :: rest)
    (hn : n.toNat < f.locals.size) (ht : t.absent? out = none) {pc : Nat} {L K : Array Value}
    {us : List Value} (hfits : (f.thin out).Fits W ⟨pc, K, us⟩) (hagree : f.Agree L K)
    (hsize : L.size = K.size) :
    Step.Thicker W instr obj out ⟨f.locals.set! n.toNat t, rest⟩
      (Activation.execute target ⟨pc, L, thicken obj (gaps out f.stack) us⟩ instr)
      (Activation.execute target ⟨pc, K, us⟩ instr) := by
  have hus : List.Forall₂ W.Holds (present out f.stack) us := hfits.stack
  have hwidth : f.locals.size = K.size := by simpa [Frame.thin] using hfits.locals.length_eq
  have hpresent : present out f.stack = t :: present out rest := by simp [present, hstack, ht]
  rw [hpresent] at hus
  cases hus with
  | @cons _ v _ ys hv hys =>
      have hthick : thicken obj (gaps out f.stack) (v :: ys) = v :: thicken obj (gaps out rest) ys := by
        simp only [gaps, hstack, List.map_cons, ht, thicken]
      simp only [Activation.execute, hop, ho, hthick, Activation.store, hsize]
      rw [if_pos (hwidth ▸ hn), if_pos (hwidth ▸ hn)]
      refine .next (hagree.set hsize _ _ fun l u hl hu husable => ?_) (by simpa using hsize)
      rw [Array.set!_eq_setIfInBounds, Array.getElem?_setIfInBounds_ne (Ne.symm hl)] at hu
      exact ⟨u, hu, husable⟩

/-- **An instruction that uses nothing that is missing** does to the whole stack what it does to the thinner
one. -/
lemma Transition.thicker (htr : Transition sites i instr f after) (hs : Spares out sites i instr f)
    (hfree : ∀ t ∈ f.locals.toList, Site.Free sites t) (hwf : instr.WellFormed) {pc : Nat}
    {L K : Array Value} {us : List Value} (hfits : (f.thin out).Fits W ⟨pc, K, us⟩) (hagree : f.Agree L K)
    (hsize : L.size = K.size) :
    Step.Thicker W instr obj out after
      (Activation.execute target ⟨pc, L, thicken obj (gaps out f.stack) us⟩ instr)
      (Activation.execute target ⟨pc, K, us⟩ instr) := by
  by_cases hstore : ∃ k, instr.opcode = .store k
  · cases htr with
    | store hop ho hstack hn _ free => exact store_thicker hop ho hstack hn (hs.free _ free) hfits hagree hsize
    | plain _ shape =>
        obtain ⟨k, hstore⟩ := hstore
        cases shape <;> simp_all [Opcode.hasFixedEffect]
    | begin hop | copy hop | construct hop =>
        obtain ⟨k, hstore⟩ := hstore
        rw [hstore] at hop
        cases hop
  have hfine : Step.Fine W target instr ⟨pc, K, us⟩ (after.thin out)
      (Activation.execute target ⟨pc, K, us⟩ instr) := (htr.thin hs hfree).fine hwf hfits
  have hwidth : f.locals.size ≤ K.size := by simpa [Frame.thin] using Nat.le_of_eq hfits.locals.length_eq
  obtain ⟨used, put, rest, rest', hsplit⟩ := htr.splits hs hfree
  have hstack : List.Forall₂ W.Holds (present out f.stack) us := hfits.stack
  rw [hsplit.before, present_append, present_eq_self hsplit.takes] at hstack
  obtain ⟨xs, ys, rfl, hxs, hys⟩ := forall₂_append_left hstack
  have hlen : used.length = xs.length := hxs.length_eq
  rw [Activation.execute_over hsplit.delta (Nat.le_of_eq hlen)] at hfine ⊢
  rw [hsplit.before, thicken_append hsplit.takes hlen,
    Activation.execute_over hsplit.delta (Nat.le_of_eq hlen)]
  have husable : ∀ (l : Nat) (t : SlotType), after.locals[l]? = some t → t ≠ .unusable →
      ∃ u, f.locals[l]? = some u ∧ u ≠ .unusable :=
    fun l t ht hne => htr.usable (fun k hop => hstore ⟨k, hop⟩) ht hne
  have hafter : after.Agree L K := by
    intro l t ht hne
    obtain ⟨u, hu, hne⟩ := husable l t ht hne
    exact hagree l u hu hne
  have hthick : ∀ s, List.Forall₂ W.Holds (present out after.stack) (s ++ ys) →
      s ++ thicken obj (gaps out rest) ys = thicken obj (gaps out after.stack) (s ++ ys) :=
    fun s hs => (hsplit.thicken hs hys.length_eq.symm).symm
  have halike : Step.Alike instr target target ⟨pc, L, xs⟩ ⟨pc, K, xs⟩ _ _ :=
    Activation.execute_alike (htr.alike hagree (hsize ▸ hwidth) hwidth pc pc xs)
  generalize Activation.execute target ⟨pc, L, xs⟩ instr = u at halike
  generalize Activation.execute target ⟨pc, K, xs⟩ instr = v at halike hfine
  cases halike with
  | next | jumps =>
      simp only [Step.over]
      rw [hthick _ hfine.1.stack]
      exact .next hafter hsize
  | @changes s n v hn hL hK hend =>
      simp only [Step.over]
      rw [hthick _ hfine.1.stack]
      exact .next (hagree.set hsize _ _ fun l t _ ht hne => husable l t ht hne) (by simpa using hsize)
  | returns => exact .returns
  | @asks s r hend =>
      refine .asks hafter fun v hv => ?_
      have hanswered := (hfine.2.2 W (.refl W) v hv).2.stack
      simp only [Activation.answered] at hanswered ⊢
      rw [← List.append_assoc] at hanswered
      rw [← List.append_assoc, ← List.append_assoc]
      exact hthick _ hanswered
  | crash => exact hfine.elim

end Frame

end Suspension
