import Suspension.Proofs.Frame.Transition

/-!
# Frames that rise

Where paths meet, the frame at a position rises to one above both.  A position whose frame has risen
is pending until it is followed again.

* `Analysis.merge_gives`, `Analysis.mergeInto_grows` — two slots that meet, a frame that reaches a
  position.
* `FrameTypes.Reaches`, `FrameTypes.Settled` — a frame is below the one at a position; a position has
  been followed.
* `Analysis.Grows` — frames only rise, and one that has risen is pending; what has been followed stays
  followed.
-/

namespace Suspension

/-! ## Merging -/

namespace Analysis

open Transfer

variable {C : Classes} {code : Code} {new : Nat → Nat → Prop} {a a' : Analysis}
  {ctx : AnalysisContext} {position : Nat}

/-- A question changes what is known about classes and nothing else. -/
lemma ask_gives {α : Type} {q : Query α} {r : α} (h : Gives (ask q) a r a') :
    r = (q.run a.hierarchy).1 ∧ a' = { a with hierarchy := (q.run a.hierarchy).2 } := by
  cases h
  exact ⟨rfl, rfl⟩

/-- Asking for a common superclass keeps right notes right. -/
lemma ask_common (hsrc : ctx.source.Agrees C) {x y : Text} {r : Option Text}
    (h : Gives (ask (Hierarchy.commonSuper ctx.source x y)) a r a') :
    Learns C code new a a'
      ∧ (a.Sound C code → ∀ c, r = some c → C.Below x c ∧ C.Below y c) := by
  obtain ⟨rfl, rfl⟩ := ask_gives h
  constructor
  · refine ⟨rfl, rfl, fun hs => ⟨⟨?_, hs.sites⟩, .refl _⟩, fun s hs d hd => Or.inr ⟨s, hs, rfl, hd⟩⟩
    exact (Hierarchy.commonSuper_agrees hsrc hs.agrees x y).1
  · intro hs c hc
    exact (Hierarchy.commonSuper_agrees hsrc hs.agrees x y).2 c hc

/-- **How a slot rises when it meets another**: to what it settles to, or from there to a class that
admits all its values. -/
def Rises (C : Classes) (t r : SlotType) : Prop :=
  r = settle t ∨ ∃ c d, settle t = .ref c ∧ r = .ref d ∧ C.Below c d

/-- A slot that may be used freely may rise. -/
lemma Rises.le {sites : List Site} {t r : SlotType} (h : Rises C t r) (hf : Site.Free sites t) :
    SlotType.Le C sites t r := by
  rcases h with rfl | ⟨c, d, hc, rfl, hcd⟩
  · cases t with
    | pending n cls copied => exact Or.inr ⟨hf, cls, cls, rfl, rfl, fun _ hv => hv⟩
    | _ => exact .refl _
  · exact Or.inr ⟨hf, c, d, hc, rfl, hcd⟩

lemma Rises.known {sites : List Site} {t r : SlotType} (h : Rises C t r) :
    Site.Known sites r := by
  rcases h with rfl | ⟨c, d, hc, rfl, hcd⟩
  · cases t <;> trivial
  · trivial

/-- The type of the null constant is below every class. -/
lemma Rises.ofNull {t u : SlotType} {c : Text} (ht : (settle t).isNull = true)
    (hu : settle u = .ref c) : Rises C t (settle u) := by
  refine Or.inr ⟨ClassName.null, c, by simpa [SlotType.isNull, SlotType.null] using ht, hu, fun v hv => ?_⟩
  exact absurd hv (C.not_inst_null v)

/-- **Two slots that meet rise to what becomes of them**; on the operand stack that is something
usable. -/
lemma merge_gives (hsrc : ctx.source.Agrees C) {t u r : SlotType} {onStack : Bool}
    (h : Gives (merge ctx position t u onStack) a r a') :
    Learns C code new a a' ∧ (a.Sound C code → Site.Known a.sites t → Site.Known a.sites u →
      Site.Known a'.sites r ∧
      SlotType.LeLocal C a'.sites t r ∧ SlotType.LeLocal C a'.sites u r ∧
      (onStack = true → SlotType.Le C a'.sites t r ∧ SlotType.Le C a'.sites u r)) := by
  unfold merge at h
  split at h
  · next heq =>
      obtain ⟨rfl, rfl⟩ := gives_pure.mp h
      obtain rfl : r = u := by simpa using heq
      exact ⟨.refl _, fun _ hk _ => ⟨hk, .refl _, .refl _, fun _ => ⟨.refl _, .refl _⟩⟩⟩
  obtain ⟨_, a₁, hpin₁, h⟩ := gives_bind.mp h
  obtain ⟨_, a₂, hpin₂, h⟩ := gives_bind.mp h
  have hc : Consumes C code new a a₂ [t, u] := (pinSlot_gives hpin₁).append (pinSlot_gives hpin₂)
  have hjoin : Learns C code new a₂ a' ∧ (a₂.Sound C code →
      (Rises C t r ∧ Rises C u r) ∨ (onStack = false ∧ r = .unusable)) := by
    simp only at h
    split at h
    · next heq =>
        obtain ⟨rfl, rfl⟩ := gives_pure.mp h
        have heq : settle t = settle u := by simpa using heq
        exact ⟨.refl _, fun _ => Or.inl ⟨Or.inl rfl, Or.inl heq⟩⟩
    split at h
    · next ct cu hct hcu =>
        split at h
        · next hnull =>
            obtain ⟨rfl, rfl⟩ := gives_pure.mp h
            exact ⟨.refl _, fun _ => Or.inl ⟨.ofNull hnull hcu, Or.inl rfl⟩⟩
        split at h
        · next hnull =>
            obtain ⟨rfl, rfl⟩ := gives_pure.mp h
            exact ⟨.refl _, fun _ => Or.inl ⟨Or.inl rfl, .ofNull hnull hct⟩⟩
        obtain ⟨sup, a₃, hask, h⟩ := gives_bind.mp h
        obtain ⟨hl, hsup⟩ := ask_common hsrc hask
        split at h
        · next c =>
            obtain ⟨rfl, rfl⟩ := gives_pure.mp h
            refine ⟨hl, fun hs => Or.inl ?_⟩
            obtain ⟨h₁, h₂⟩ := hsup hs c rfl
            exact ⟨Or.inr ⟨ct, c, hct, rfl, h₁⟩, Or.inr ⟨cu, c, hcu, rfl, h₂⟩⟩
        · obtain ⟨rfl, rfl⟩ := gives_pure.mp h
          exact ⟨hl, fun _ => Or.inl ⟨Or.inr ⟨ct, _, hct, rfl, fun _ => C.inst_object⟩,
            Or.inr ⟨cu, _, hcu, rfl, fun _ => C.inst_object⟩⟩⟩
    · split at h
      · exact absurd h (by simp)
      · next hon =>
          obtain ⟨rfl, rfl⟩ := gives_pure.mp h
          exact ⟨.refl _, fun _ => Or.inr ⟨by simpa using hon, rfl⟩⟩
  obtain ⟨hl, hjoin⟩ := hjoin
  refine ⟨hc.learns.trans hl, fun hs ht hu => ?_⟩
  obtain ⟨hs₂, -⟩ := hc.learns.sound hs
  have hg := (hl.sound hs₂).2
  have hfree := hc.free hs (by simpa using ⟨ht, hu⟩)
  have hft : Site.Free a'.sites t := (hfree t (by simp)).grow hg
  have hfu : Site.Free a'.sites u := (hfree u (by simp)).grow hg
  rcases hjoin hs₂ with ⟨h₁, h₂⟩ | ⟨rfl, rfl⟩
  · exact ⟨h₁.known, Or.inl (h₁.le hft), Or.inl (h₂.le hfu), fun _ => ⟨h₁.le hft, h₂.le hfu⟩⟩
  · exact ⟨trivial, Or.inr ⟨hft, rfl⟩, Or.inr ⟨hfu, rfl⟩, fun hon => by simp at hon⟩

/-- Slots that may be merged: they belong to constructions that have been met. -/
def AllKnown (sites : List Site) (ts : List SlotType) : Prop := ∀ t ∈ ts, Site.Known sites t

/-- The locals of two frames that meet. -/
lemma mergeLocals_gives (hsrc : ctx.source.Agrees C) {ts us rs : List SlotType}
    (hlen : ts.length = us.length) (h : Gives (mergeLocals ctx position ts us) a rs a') :
    Learns C code new a a' ∧ (a.Sound C code → AllKnown a.sites ts → AllKnown a.sites us →
      AllKnown a'.sites rs ∧ List.Forall₂ (SlotType.LeLocal C a'.sites) ts rs
        ∧ List.Forall₂ (SlotType.LeLocal C a'.sites) us rs) := by
  induction ts generalizing us rs a with
  | nil =>
      obtain rfl : us = [] := by simpa using hlen.symm
      obtain ⟨rfl, rfl⟩ := gives_pure.mp h
      exact ⟨.refl _, fun _ ht _ => ⟨ht, .nil, .nil⟩⟩
  | cons t ts ih =>
      cases us with
      | nil => simp at hlen
      | cons u us =>
          obtain ⟨r, a₁, hmerge, h⟩ := gives_bind.mp h
          obtain ⟨rs', a₂, hrest, h⟩ := gives_bind.mp h
          obtain ⟨rfl, rfl⟩ := gives_pure.mp h
          obtain ⟨hl₁, h₁⟩ := merge_gives hsrc hmerge
          obtain ⟨hl₂, h₂⟩ := ih (by simpa using hlen) hrest
          refine ⟨hl₁.trans hl₂, fun hs ht hu => ?_⟩
          obtain ⟨hs₁, hg₁⟩ := hl₁.sound hs
          obtain ⟨hs₂, hg₂⟩ := hl₂.sound hs₁
          obtain ⟨hk, hle, hle', -⟩ := h₁ hs (ht t (by simp)) (hu u (by simp))
          obtain ⟨hks, hles, hles'⟩ := h₂ hs₁
            (fun x hx => (ht x (by simp [hx])).grow hg₁) (fun x hx => (hu x (by simp [hx])).grow hg₁)
          refine ⟨fun x hx => ?_, .cons (hle.grow hg₂) hles, .cons (hle'.grow hg₂) hles'⟩
          rcases List.mem_cons.mp hx with rfl | hx
          · exact hk.grow hg₂
          · exact hks x hx

/-- The stacks of two frames that meet. -/
lemma mergeStack_gives (hsrc : ctx.source.Agrees C) {target slot : Nat} {ts us rs : List SlotType}
    (hlen : ts.length = us.length)
    (h : Gives (mergeStack ctx position target slot ts us) a rs a') :
    Learns C code new a a' ∧ (a.Sound C code → AllKnown a.sites ts → AllKnown a.sites us →
      AllKnown a'.sites rs ∧ List.Forall₂ (SlotType.Le C a'.sites) ts rs
        ∧ List.Forall₂ (SlotType.Le C a'.sites) us rs) := by
  induction ts generalizing us rs a slot with
  | nil =>
      obtain rfl : us = [] := by simpa using hlen.symm
      obtain ⟨rfl, rfl⟩ := gives_pure.mp h
      exact ⟨.refl _, fun _ ht _ => ⟨ht, .nil, .nil⟩⟩
  | cons t ts ih =>
      cases us with
      | nil => simp at hlen
      | cons u us =>
          obtain ⟨r, a₁, hmerge, h⟩ := gives_bind.mp h
          obtain ⟨rs', a₂, hrest, h⟩ := gives_bind.mp h
          obtain ⟨rfl, rfl⟩ := gives_pure.mp h
          obtain ⟨hl₁, h₁⟩ := merge_gives hsrc (gives_adapt.mp hmerge)
          obtain ⟨hl₂, h₂⟩ := ih (by simpa using hlen) hrest
          refine ⟨hl₁.trans hl₂, fun hs ht hu => ?_⟩
          obtain ⟨hs₁, hg₁⟩ := hl₁.sound hs
          obtain ⟨hs₂, hg₂⟩ := hl₂.sound hs₁
          obtain ⟨hk, -, -, hle⟩ := h₁ hs (ht t (by simp)) (hu u (by simp))
          obtain ⟨hks, hles, hles'⟩ := h₂ hs₁
            (fun x hx => (ht x (by simp [hx])).grow hg₁) (fun x hx => (hu x (by simp [hx])).grow hg₁)
          refine ⟨fun x hx => ?_, .cons ((hle rfl).1.grow hg₂) hles, .cons ((hle rfl).2.grow hg₂) hles'⟩
          rcases List.mem_cons.mp hx with rfl | hx
          · exact hk.grow hg₂
          · exact hks x hx

end Analysis

/-! ## Frames that have been followed -/

namespace FrameTypes

/-- **A frame has reached a position**: it is below the frame there. -/
def Reaches (C : Classes) (T : FrameTypes) (f : Frame) (target : Nat) : Prop :=
  ∃ g, T.frames[target]? = some (some g) ∧ Frame.Le C T.sites f g

/-- **A frame has been followed**: behind its instruction is a frame that has reached all successors,
and the locals before and behind the instruction have reached every handler that covers it. -/
structure Settled (C : Classes) (code : Code) (spans : List HandlerSpan) (T : FrameTypes) (i : Nat)
    (f : Frame) (instr : Instruction) (after : Frame) : Prop where
  code_at : code[i]? = some instr
  transition : Frame.Transition T.sites i instr f after
  targets : ∀ id ∈ instr.targets, ∃ t, code.labelAt? id = some t ∧ T.Reaches C after t
  next : instr.opcode.endsBlock = false → i + 1 < code.size ∧ T.Reaches C after (i + 1)
  handlers : ∀ s ∈ spans, s.start ≤ i → i < s.stop →
    T.Reaches C ⟨f.locals, [.ref s.cls]⟩ s.handler ∧ T.Reaches C ⟨after.locals, [.ref s.cls]⟩ s.handler

end FrameTypes

namespace Analysis

open Transfer

/-- The frames and constructions found so far. -/
def types (a : Analysis) : FrameTypes := ⟨a.frames, a.sites⟩

/-- **Frames are well formed**: there is one for each instruction that was reached, as wide as the
method is, and its constructions are known. -/
structure Valid (C : Classes) (code : Code) (width : Nat) (a : Analysis) : Prop where
  sound : a.Sound C code
  size : a.frames.size = code.size
  known : ∀ (i : Nat) (f : Frame), a.frames[i]? = some (some f) → f.Known a.sites
  width : ∀ (i : Nat) (f : Frame), a.frames[i]? = some (some f) → f.locals.size = width

/-- **Frames only rise.**  One that has risen, or is new, is pending; what was pending stays so. -/
structure Grows (C : Classes) (new : Nat → Nat → Prop) (a a' : Analysis) : Prop where
  pending : ∀ i ∈ a.pending, i ∈ a'.pending
  grow : Site.Grow a.sites a'.sites
  frames : ∀ i f, a.frames[i]? = some (some f) →
    ∃ g, a'.frames[i]? = some (some g) ∧ Frame.Le C a'.sites f g ∧ (g = f ∨ i ∈ a'.pending)
  fresh : ∀ i g, a'.frames[i]? = some (some g) →
    (∃ f, a.frames[i]? = some (some f)) ∨ i ∈ a'.pending
  copies : ∀ s' ∈ a'.sites, ∀ d, s'.dupAt = some d →
    new s'.newAt d ∨ ∃ s ∈ a.sites, s.newAt = s'.newAt ∧ s.dupAt = some d

variable {C : Classes} {code : Code} {width : Nat} {new : Nat → Nat → Prop} {a a₁ a' : Analysis}
  {ctx : AnalysisContext} {position : Nat}

lemma Learns.grows (h : Learns C code new a a') (hs : a.Sound C code) : Grows C new a a' where
  pending := fun i hi => by rw [h.pending]; exact hi
  grow := (h.sound hs).2
  frames := fun i f hf => ⟨f, by rw [h.frames]; exact hf, .refl f, Or.inl rfl⟩
  fresh := fun i g hg => Or.inl ⟨g, by rw [← h.frames]; exact hg⟩
  copies := h.copies

lemma Learns.valid (h : Learns C code new a a') (hv : Valid C code width a) :
    Valid C code width a' where
  sound := (h.sound hv.sound).1
  size := by rw [h.frames]; exact hv.size
  known := by
    intro i f hf
    rw [h.frames] at hf
    exact (hv.known i f hf).grow (h.sound hv.sound).2
  width := by rw [h.frames]; exact hv.width

lemma Grows.refl (a : Analysis) : Grows C new a a where
  pending := fun _ hi => hi
  grow := .refl _
  frames := fun _ f hf => ⟨f, hf, .refl f, Or.inl rfl⟩
  fresh := fun _ g hg => Or.inl ⟨g, hg⟩
  copies := fun s hs _ hd => Or.inr ⟨s, hs, rfl, hd⟩

lemma Grows.trans (h : Grows C new a a₁) (h' : Grows C new a₁ a') : Grows C new a a' where
  pending := fun i hi => h'.pending i (h.pending i hi)
  grow := h.grow.trans h'.grow
  frames := by
    intro i f hf
    obtain ⟨f₁, hf₁, hle₁, hch₁⟩ := h.frames i f hf
    obtain ⟨f₂, hf₂, hle₂, hch₂⟩ := h'.frames i f₁ hf₁
    refine ⟨f₂, hf₂, (hle₁.grow h'.grow).trans hle₂, ?_⟩
    rcases hch₂ with rfl | hp
    · rcases hch₁ with rfl | hp
      · exact Or.inl rfl
      · exact Or.inr (h'.pending i hp)
    · exact Or.inr hp
  fresh := by
    intro i g hg
    rcases h'.fresh i g hg with ⟨f₁, hf₁⟩ | hp
    · rcases h.fresh i f₁ hf₁ with hf | hp
      · exact Or.inl hf
      · exact Or.inr (h'.pending i hp)
    · exact Or.inr hp
  copies := by
    intro s hs d hd
    rcases h'.copies s hs d hd with hnew | ⟨s₁, hs₁, hn₁, hd₁⟩
    · exact Or.inl hnew
    · rcases h.copies s₁ hs₁ d hd₁ with hnew | ⟨s₀, hs₀, hn₀, hd₀⟩
      · exact Or.inl (hn₁ ▸ hnew)
      · exact Or.inr ⟨s₀, hs₀, hn₀.trans hn₁, hd₀⟩

/-- What has reached a position still does when frames rise. -/
lemma Grows.reaches (h : Grows C new a a') {f : Frame} {target : Nat}
    (hr : a.types.Reaches C f target) : a'.types.Reaches C f target := by
  obtain ⟨g, hg, hle⟩ := hr
  obtain ⟨g', hg', hle', -⟩ := h.frames target g hg
  exact ⟨g', hg', (hle.grow h.grow).trans hle'⟩

/-- What has been followed stays followed when frames rise. -/
lemma Grows.settled (h : Grows C new a a') {spans : List HandlerSpan} {i : Nat} {f after : Frame}
    {instr : Instruction} (hs : a.types.Settled C code spans i f instr after) :
    a'.types.Settled C code spans i f instr after where
  code_at := hs.code_at
  transition := hs.transition.grow h.grow
  targets := by
    intro id hid
    obtain ⟨t, ht, hr⟩ := hs.targets id hid
    exact ⟨t, ht, h.reaches hr⟩
  next := fun hend => ⟨(hs.next hend).1, h.reaches (hs.next hend).2⟩
  handlers := by
    intro s hmem hstart hstop
    obtain ⟨h₁, h₂⟩ := hs.handlers s hmem hstart hstop
    exact ⟨h.reaches h₁, h.reaches h₂⟩

/-! ### Merging into a position -/

/-- **A frame is set**: it is new there or above what was there, and its position is pending. -/
lemma set_grows (hv : Valid C code width a) {target : Nat} {g : Frame}
    (hlt : target < code.size) (hk : g.Known a.sites) (hw : g.locals.size = width)
    (hle : ∀ f, a.frames[target]? = some (some f) → Frame.Le C a.sites f g)
    (hset : a' = { a with
      frames := a.frames.set! target (some g)
      pending := if a.pending.contains target then a.pending else target :: a.pending }) :
    Valid C code width a' ∧ Grows C new a a' ∧ a'.frames[target]? = some (some g) := by
  have hlt' : target < a.frames.size := by rw [hv.size]; exact hlt
  have hat : ∀ i, (a.frames.set! target (some g))[i]?
      = if target = i then some (some g) else a.frames[i]? := by
    intro i
    rw [Array.set!_eq_setIfInBounds, Array.getElem?_setIfInBounds]
    by_cases h : target = i
    · subst h; simp [hlt']
    · simp [h]
  have hpending : ∀ i, i ∈ a'.pending ↔ i = target ∨ i ∈ a.pending := by
    intro i
    rw [hset]
    by_cases hc : a.pending.contains target = true
    · simp only [hc, if_true]
      constructor
      · exact Or.inr
      · rintro (rfl | hi)
        · simpa using hc
        · exact hi
    · simp only [hc]
      simp
  have hframes : ∀ i, a'.frames[i]? = if target = i then some (some g) else a.frames[i]? := by
    intro i; rw [hset]; exact hat i
  have hsites : a'.sites = a.sites := by rw [hset]
  have hcases : ∀ i f, a'.frames[i]? = some (some f) →
      (target = i ∧ f = g) ∨ a.frames[i]? = some (some f) := by
    intro i f hf
    rw [hframes] at hf
    by_cases h : target = i
    · rw [if_pos h] at hf
      cases hf
      exact Or.inl ⟨h, rfl⟩
    · rw [if_neg h] at hf
      exact Or.inr hf
  refine ⟨⟨?_, ?_, ?_, ?_⟩, ⟨?_, ?_, ?_, ?_, ?_⟩, ?_⟩
  · rw [hset]; exact ⟨hv.sound.agrees, hv.sound.sites⟩
  · rw [hset]; simpa using hv.size
  · intro i f hf
    rw [hsites]
    rcases hcases i f hf with ⟨-, rfl⟩ | hf
    · exact hk
    · exact hv.known i f hf
  · intro i f hf
    rcases hcases i f hf with ⟨-, rfl⟩ | hf
    · exact hw
    · exact hv.width i f hf
  · exact fun i hi => (hpending i).mpr (Or.inr hi)
  · rw [hsites]; exact .refl _
  · intro i f hf
    rw [hframes, hsites]
    by_cases h : target = i
    · subst h
      rw [if_pos rfl]
      exact ⟨g, rfl, hle f hf, Or.inr ((hpending _).mpr (Or.inl rfl))⟩
    · rw [if_neg h]
      exact ⟨f, hf, .refl f, Or.inl rfl⟩
  · intro i f hf
    rcases hcases i f hf with ⟨rfl, -⟩ | hf
    · exact Or.inr ((hpending _).mpr (Or.inl rfl))
    · exact Or.inl ⟨f, hf⟩
  · intro s hs d hd
    rw [hsites] at hs
    exact Or.inr ⟨s, hs, rfl, hd⟩
  · rw [hframes, if_pos rfl]

lemma enqueue_gives {target : Nat} {u : Unit} (h : Gives (enqueue target) a u a') :
    a' = { a with
      pending := if a.pending.contains target then a.pending else target :: a.pending } := by
  obtain rfl := gives_modify.mp h
  split <;> simp_all

/-- **A frame that is merged into a position has reached it.** -/
lemma mergeInto_grows (hsrc : ctx.source.Agrees C) (hv : Valid C code width a) {target : Nat}
    {f : Frame} {u : Unit} (hlt : target < code.size) (hk : f.Known a.sites)
    (hw : f.locals.size = width) (h : Gives (mergeInto ctx position target f) a u a') :
    Valid C code width a' ∧ Grows C new a a' ∧ a'.types.Reaches C f target := by
  simp only [mergeInto, gives_bind, gives_get] at h
  obtain ⟨_, a₀, ⟨rfl, rfl⟩, h⟩ := h
  split at h
  · next hnone =>
      have hsize := hv.size
      rw [Array.getElem?_eq_none_iff] at hnone
      omega
  · next hnone =>
      simp only [gives_bind, gives_modify] at h
      obtain ⟨_, a₁, rfl, h⟩ := h
      obtain rfl := enqueue_gives h
      obtain ⟨hv', hg, hat⟩ := set_grows hv hlt hk hw
        (fun g hg => by rw [hnone] at hg; cases hg) rfl
      exact ⟨hv', hg, f, hat, .refl f⟩
  · next old hold =>
      split at h
      · simp at h
      next hlen =>
      have hlen : old.stack.length = f.stack.length := by simpa using hlen
      obtain ⟨locals, a₁, hlocals, h⟩ := gives_bind.mp h
      obtain ⟨stack, a₂, hstack, h⟩ := gives_bind.mp h
      have hwold := hv.width target old hold
      have hkold := hv.known target old hold
      obtain ⟨hl₁, h₁⟩ := mergeLocals_gives hsrc (by simp [hw, hwold]) hlocals
      obtain ⟨hl₂, h₂⟩ := mergeStack_gives hsrc (by simp [hlen]) hstack
      have hl : Learns C code new _ a₂ := hl₁.trans hl₂
      obtain ⟨hs₁, hg₁⟩ := hl₁.sound hv.sound
      obtain ⟨hs₂, hg₂⟩ := hl₂.sound hs₁
      obtain ⟨hkl, hlel, hlel'⟩ := h₁ hv.sound hkold.2 hk.2
      obtain ⟨hks, hles, hles'⟩ := h₂ hs₁
        (fun t ht => (hkold.1 t (List.mem_reverse.mp ht)).grow hg₁)
        (fun t ht => (hk.1 t (List.mem_reverse.mp ht)).grow hg₁)
      have hrev : ∀ {ts : List SlotType}, List.Forall₂ (SlotType.Le C a₂.sites) ts.reverse stack →
          List.Forall₂ (SlotType.Le C a₂.sites) ts stack.reverse := by
        intro ts hts
        have := List.rel_reverse hts
        simpa using this
      have hold_le : Frame.Le C a₂.sites old ⟨locals.toArray, stack.reverse⟩ :=
        ⟨hrev hles, hlel.imp fun _ _ h => h.grow hg₂⟩
      have hf_le : Frame.Le C a₂.sites f ⟨locals.toArray, stack.reverse⟩ :=
        ⟨hrev hles', hlel'.imp fun _ _ h => h.grow hg₂⟩
      have hv₂ := hl.valid hv
      have hold₂ : a₂.frames[target]? = some (some old) := by rw [hl.frames]; exact hold
      split at h
      · simp only [gives_bind, gives_modify] at h
        obtain ⟨_, a₃, rfl, h⟩ := h
        obtain rfl := enqueue_gives h
        have hknew : Frame.Known a₂.sites ⟨locals.toArray, stack.reverse⟩ :=
          ⟨fun t ht => hks t (List.mem_reverse.mp ht), fun t ht => (hkl t ht).grow hg₂⟩
        have hwnew : (⟨locals.toArray, stack.reverse⟩ : Frame).locals.size = width := by
          have := hlel.length_eq
          simp only [Array.length_toList] at this
          simp [← this, hwold]
        obtain ⟨hv', hg, hat⟩ := set_grows hv₂ hlt hknew hwnew
          (fun g hg => by rw [hold₂] at hg; cases hg; exact hold_le) rfl
        exact ⟨hv', (hl.grows hv.sound).trans hg, _, hat, hf_le.grow hg.grow⟩
      · next hsame =>
          obtain ⟨-, rfl⟩ := gives_pure.mp h
          have hsame : (⟨locals.toArray, stack.reverse⟩ : Frame) = old := by simpa using hsame
          exact ⟨hv₂, hl.grows hv.sound, old, hold₂, hsame ▸ hf_le⟩

end Analysis

end Suspension
