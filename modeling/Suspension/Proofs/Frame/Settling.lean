import Suspension.Proofs.Frame.Monotone

/-!
# What a finished analysis has settled

In an order of classes that joining respects, **the frame behind an instruction has reached all successors**
when the analysis is finished, and so have the locals in front of it and behind it reached every handler: all
of them are below the frames there.  The loop keeps this of all positions that are not pending.

* `Frame.Climbs` — a frame rises, in the sense of its constructions and in the order of classes.
* `FrameTypes.Meets`, `FrameTypes.Passed` — a frame has reached a position, and has been followed.
* `Analysis.step_passes`, `Analysis.follow_passes` — one instruction, and the loop.
* `Analysis.run_settles` — the whole analysis.
-/

namespace Suspension

variable {src : ClassSource} {V : ClassView} {U : ClassOrder src V}

/-- **The order in which frames rise**: a local may become unusable. -/
def SlotOrder.rising (U : ClassOrder src V) (held : Nat → Prop) : SlotOrder := ⟨U.le, held, False, True⟩

/-! ## Frames that rise -/

/-- **A frame rises**: only constructions that are pinned become references, and classes rise in their
order. -/
structure Frame.Climbs (U : ClassOrder src V) (sites : List Site) (f g : Frame) : Prop where
  le : Frame.Le Classes.empty sites f g
  below : f.Below (.rising U fun _ => False) g

namespace Frame.Climbs

variable {sites sites' : List Site} {f g k : Frame}

lemma refl (f : Frame) : f.Climbs U sites f := ⟨.refl f, .refl _ f⟩

lemma grow (h : f.Climbs U sites g) (hg : Site.Grow sites sites') : f.Climbs U sites' g :=
  ⟨h.le.grow hg, h.below⟩

lemma trans (h : f.Climbs U sites g) (h' : g.Climbs U sites k) : f.Climbs U sites k :=
  ⟨h.le.trans h'.le, h.below.trans h'.below U.trans id id id id id id rfl rfl (·.2)⟩

/-- **A slot that rises keeps a construction that is not pinned.** -/
lemma slot_held {held : Nat → Prop} (hheld : ∀ n, held n → ¬ Site.Pinned sites n) {t u : SlotType}
    (hle : SlotType.Le Classes.empty sites t u) (h : SlotType.Below (.rising U fun _ => False) t u) :
    SlotType.Below (.rising U held) t u := by
  rcases hle with rfl | ⟨hfree, -, d, -, rfl, -⟩
  · exact .same _
  · cases h with
    | same => exact .same _
    | ref ht hu hcd => exact .ref ht hu hcd (SlotType.loose_of_free hheld hfree) trivial

lemma local_held {held : Nat → Prop} (hheld : ∀ n, held n → ¬ Site.Pinned sites n) {t u : SlotType}
    (hle : SlotType.LeLocal Classes.empty sites t u)
    (h : SlotType.LocalBelow (.rising U fun _ => False) t u) : SlotType.LocalBelow (.rising U held) t u := by
  rcases hle with hle | ⟨hfree, rfl⟩
  · cases h with
    | below h => exact .below (slot_held hheld hle h)
    | lower hlow => exact hlow.elim
    | upper =>
        rcases hle with rfl | ⟨-, -, d, -, hu, -⟩
        · exact .below (.same _)
        · cases hu
  · exact .upper trivial (SlotType.loose_of_free hheld hfree)

lemma forall₂_both {R S T : SlotType → SlotType → Prop} {ts us : List SlotType} (h : List.Forall₂ R ts us)
    (h' : List.Forall₂ S ts us) (hboth : ∀ {t u}, R t u → S t u → T t u) : List.Forall₂ T ts us := by
  induction h with
  | nil => exact .nil
  | cons htu _ ih =>
      cases h' with
      | cons htu' hrest => exact .cons (hboth htu htu') (ih hrest)

/-- **A frame that rises is below in every order that holds constructions which are not pinned.** -/
lemma held {held : Nat → Prop} (h : f.Climbs U sites g) (hheld : ∀ n, held n → ¬ Site.Pinned sites n) :
    f.Below (.rising U held) g :=
  ⟨forall₂_both h.le.stack h.below.stack (slot_held hheld),
    forall₂_both h.le.locals h.below.locals (local_held hheld)⟩

end Frame.Climbs

namespace FrameTypes

/-- **A frame has reached a position**: the frame there has risen from it. -/
def Meets (U : ClassOrder src V) (T : FrameTypes) (f : Frame) (target : Nat) : Prop :=
  ∃ g, T.frames[target]? = some (some g) ∧ f.Climbs U T.sites g

/-- **A frame has been followed**: the frame behind its instruction has reached all successors, and the locals
before and behind it every handler that covers it. -/
structure Passed (U : ClassOrder src V) (code : Code) (spans : List HandlerSpan) (T : FrameTypes) (i : Nat)
    (f : Frame) (instr : Instruction) (after : Frame) : Prop where
  code_at : code[i]? = some instr
  transition : Frame.Transition T.sites i instr f after
  targets : ∀ id ∈ instr.targets, ∃ t, code.labelAt? id = some t ∧ T.Meets U after t
  next : instr.opcode.endsBlock = false → i + 1 < code.size ∧ T.Meets U after (i + 1)
  handlers : ∀ s ∈ spans, s.start ≤ i → i < s.stop →
    T.Meets U ⟨f.locals, [.ref s.cls]⟩ s.handler ∧ T.Meets U ⟨after.locals, [.ref s.cls]⟩ s.handler

end FrameTypes

namespace Analysis

open Transfer

/-- **The state of an analysis at work**: its frames are well formed, and what it knows of classes is right. -/
structure AtWork (V : ClassView) (ctx : AnalysisContext) (a : Analysis) : Prop where
  valid : Valid Classes.empty ctx.method.code ctx.method.maxLocals.toNat a
  shows : a.hierarchy.Shows ctx.source V

/-- **Frames rise.**  One that has risen, or is new, is pending; what was pending stays so. -/
structure Ascends (U : ClassOrder src V) (a a' : Analysis) : Prop where
  pending : ∀ i ∈ a.pending, i ∈ a'.pending
  grow : Site.Grow a.sites a'.sites
  frames : ∀ i f, a.frames[i]? = some (some f) →
    ∃ g, a'.frames[i]? = some (some g) ∧ f.Climbs U a'.sites g ∧ (g = f ∨ i ∈ a'.pending)
  fresh : ∀ i g, a'.frames[i]? = some (some g) →
    (∃ f, a.frames[i]? = some (some f)) ∨ i ∈ a'.pending

namespace Ascends

variable {a a₁ a' : Analysis}

lemma refl (a : Analysis) : Ascends U a a where
  pending := fun _ hi => hi
  grow := .refl _
  frames := fun _ f hf => ⟨f, hf, .refl f, Or.inl rfl⟩
  fresh := fun _ g hg => Or.inl ⟨g, hg⟩

lemma trans (h : Ascends U a a₁) (h' : Ascends U a₁ a') : Ascends U a a' where
  pending := fun i hi => h'.pending i (h.pending i hi)
  grow := h.grow.trans h'.grow
  frames := by
    intro i f hf
    obtain ⟨f₁, hf₁, hc₁, hch₁⟩ := h.frames i f hf
    obtain ⟨f₂, hf₂, hc₂, hch₂⟩ := h'.frames i f₁ hf₁
    refine ⟨f₂, hf₂, (hc₁.grow h'.grow).trans hc₂, ?_⟩
    rcases hch₂ with rfl | hp
    · exact hch₁.imp_right (h'.pending i)
    · exact Or.inr hp
  fresh := by
    intro i g hg
    rcases h'.fresh i g hg with ⟨f₁, hf₁⟩ | hp
    · exact (h.fresh i f₁ hf₁).imp_right (h'.pending i)
    · exact Or.inr hp

/-- What has reached a position still has when frames rise. -/
lemma meets (h : Ascends U a a') {f : Frame} {target : Nat} (hm : a.types.Meets U f target) :
    a'.types.Meets U f target := by
  obtain ⟨g, hg, hc⟩ := hm
  obtain ⟨g', hg', hc', -⟩ := h.frames target g hg
  exact ⟨g', hg', (hc.grow h.grow).trans hc'⟩

/-- What has been followed stays followed when frames rise. -/
lemma passed (h : Ascends U a a') {code : Code} {spans : List HandlerSpan} {i : Nat} {f after : Frame}
    {instr : Instruction} (hp : a.types.Passed U code spans i f instr after) :
    a'.types.Passed U code spans i f instr after where
  code_at := hp.code_at
  transition := hp.transition.grow h.grow
  targets := fun id hid => (hp.targets id hid).imp fun _ ht => ⟨ht.1, h.meets ht.2⟩
  next := fun hend => ⟨(hp.next hend).1, h.meets (hp.next hend).2⟩
  handlers := fun s hs hstart hstop =>
    ⟨h.meets (hp.handlers s hs hstart hstop).1, h.meets (hp.handlers s hs hstart hstop).2⟩

end Ascends

variable {ctx : AnalysisContext} {U : ClassOrder ctx.source V} {spans : List HandlerSpan} {position : Nat}
  {a a' : Analysis}

/-! ## Following an instruction -/

/-- **A frame that is merged into a position has reached it.** -/
lemma mergeInto_ascends (ha : AtWork V ctx a) {target : Nat} {f : Frame} {u : Unit}
    (hlt : target < ctx.method.code.size) (hk : f.Known a.sites)
    (hw : f.locals.size = ctx.method.maxLocals.toNat) (h : Gives (mergeInto ctx position target f) a u a') :
    AtWork V ctx a' ∧ Ascends U a a' ∧ a'.types.Meets U f target := by
  obtain ⟨hv, hg, g, hat, hle⟩ : _ ∧ Grows Classes.empty (fun _ _ => True) a a' ∧ _ :=
    mergeInto_grows ctx.source.agrees_empty ha.valid hlt hk hw h
  have hat : a'.frames[target]? = some (some g) := hat
  have hwidth : ∀ old, a.frames[target]? = some (some old) → old.locals.size = f.locals.size :=
    fun old hold => (ha.valid.width _ _ hold).trans hw.symm
  have hshows := (respects_mergeInto (Hierarchy.lasting_shows ctx.source V) _ _ _).gives h ha.shows
  rcases mergeInto_joins ha.shows hwidth h with ⟨hnone, -⟩ | ⟨new, hframes, htarget, hnew⟩
  · rw [Array.getElem?_eq_none_iff, ha.valid.size] at hnone
    omega
  have hread : ∀ i, a'.frames[i]? = if target = i then some (some new) else a.frames[i]? := by
    intro i
    rw [hframes, Array.set!_eq_setIfInBounds, Array.getElem?_setIfInBounds, if_pos htarget]
  obtain rfl : g = new := by
    rw [hread, if_pos rfl] at hat
    exact (Option.some.inj (Option.some.inj hat)).symm
  have habove : f.Below (.rising U fun _ => False) g ∧
      ∀ old, a.frames[target]? = some (some old) → old.Below (.rising U fun _ => False) g := by
    rcases hnew with ⟨hnone, rfl⟩ | ⟨old, hold, hjoins⟩
    · refine ⟨.refl _ _, fun old hold => ?_⟩
      rw [hnone] at hold
      cases hold
    · obtain ⟨h₁, h₂⟩ := hjoins.above (O := .rising U fun _ => False) U rfl trivial (fun _ h => h)
        (hwidth old hold)
      refine ⟨h₂, fun old' hold' => ?_⟩
      rw [hold] at hold'
      cases hold'
      exact h₁
  refine ⟨⟨hv, hshows⟩, ⟨hg.pending, hg.grow, fun i f' hf' => ?_, hg.fresh⟩, g, hat, hle, habove.1⟩
  obtain ⟨g', hg', hle', hch⟩ := hg.frames i f' hf'
  refine ⟨g', hg', ⟨hle', ?_⟩, hch⟩
  rw [hread] at hg'
  split at hg'
  · next hi =>
      subst hi
      obtain rfl : g = g' := Option.some.inj (Option.some.inj hg')
      exact habove.2 f' hf'
  · rw [hf'] at hg'
    obtain rfl : f' = g' := Option.some.inj (Option.some.inj hg')
    exact .refl _ _

/-- A handler finds a frame of the method. -/
lemma meets_handlers (ha : AtWork V ctx a) {rest : List HandlerSpan}
    (hspans : ∀ s ∈ rest, s.handler < ctx.method.code.size) {f after : Frame} {u : Unit}
    (hf : a.frames[position]? = some (some f) ∨ position ∈ a.pending)
    (hsome : ∃ g, a.frames[position]? = some (some g)) (hk : after.Known a.sites)
    (hw : after.locals.size = ctx.method.maxLocals.toNat)
    (h : Gives (reachHandlers ctx position after rest) a u a') :
    AtWork V ctx a' ∧ Ascends U a a' ∧
      ∀ s ∈ rest, s.start ≤ position → position < s.stop →
        (a'.types.Meets U ⟨f.locals, [.ref s.cls]⟩ s.handler ∨ position ∈ a'.pending) ∧
        a'.types.Meets U ⟨after.locals, [.ref s.cls]⟩ s.handler := by
  induction rest generalizing a with
  | nil =>
      obtain ⟨-, rfl⟩ := gives_pure.mp h
      exact ⟨ha, .refl _, by simp⟩
  | cons s rest ih =>
      have hspans' := fun t ht => hspans t (List.mem_cons_of_mem s ht)
      unfold reachHandlers at h
      split at h
      · next hcover =>
          obtain ⟨r, a₀, hr, h⟩ := gives_bind.mp h
          obtain ⟨rfl, rfl⟩ := frameAt_gives hr
          obtain ⟨before, hbefore⟩ := hsome
          rw [hbefore] at h
          simp only [Option.join_some] at h
          obtain ⟨_, a₁, hm₁, h⟩ := gives_bind.mp h
          obtain ⟨_, a₂, hm₂, h⟩ := gives_bind.mp h
          have hlt := hspans s (by simp)
          have hwbefore := ha.valid.width _ _ hbefore
          obtain ⟨ha₁, hg₁, hr₁⟩ := mergeInto_ascends (U := U) ha hlt
            (known_handler (ha.valid.known _ _ hbefore) s.cls) hwbefore hm₁
          obtain ⟨ha₂, hg₂, hr₂⟩ := mergeInto_ascends (U := U) ha₁ hlt
            (known_handler (hk.grow hg₁.grow) s.cls) hw hm₂
          obtain ⟨g, hg, -, hch⟩ := (hg₁.trans hg₂).frames _ _ hbefore
          -- what is merged is the frame in question, unless that has risen on the way
          have hfirst : before = f ∨ position ∈ a₂.pending := by
            rcases hf with hf | hp
            · rw [hf] at hbefore
              exact Or.inl (Option.some.inj (Option.some.inj hbefore)).symm
            · exact Or.inr ((hg₁.trans hg₂).pending _ hp)
          have hf₂ : a₂.frames[position]? = some (some f) ∨ position ∈ a₂.pending := by
            rcases hfirst with rfl | hp
            · rcases hch with rfl | hp
              · exact Or.inl hg
              · exact Or.inr hp
            · exact Or.inr hp
          obtain ⟨ha₃, hg₃, hall⟩ := ih ha₂ hspans' hf₂ ⟨g, hg⟩ (hk.grow (hg₁.trans hg₂).grow) h
          refine ⟨ha₃, (hg₁.trans hg₂).trans hg₃, fun t ht hstart hstop => ?_⟩
          rcases List.mem_cons.mp ht with rfl | ht
          · refine ⟨?_, hg₃.meets hr₂⟩
            rcases hfirst with rfl | hp
            · exact Or.inl (hg₃.meets (hg₂.meets hr₁))
            · exact Or.inr (hg₃.pending _ hp)
          · exact hall t ht hstart hstop
      · next hcover =>
          obtain ⟨ha', hg, hall⟩ := ih ha hspans' hf hsome hk h
          refine ⟨ha', hg, fun t ht hstart hstop => ?_⟩
          rcases List.mem_cons.mp ht with rfl | ht
          · exact absurd (by simp [hstart, hstop]) hcover
          · exact hall t ht hstart hstop

lemma meets_targets (ha : AtWork V ctx a) {ids : List Label} {after : Frame} {u : Unit}
    (hk : after.Known a.sites) (hw : after.locals.size = ctx.method.maxLocals.toNat)
    (h : Gives (reachTargets ctx position after ids) a u a') :
    AtWork V ctx a' ∧ Ascends U a a' ∧
      ∀ id ∈ ids, ∃ t, ctx.method.code.labelAt? id = some t ∧ a'.types.Meets U after t := by
  induction ids generalizing a with
  | nil =>
      obtain ⟨-, rfl⟩ := gives_pure.mp h
      exact ⟨ha, .refl _, by simp⟩
  | cons id ids ih =>
      unfold reachTargets at h
      split at h
      · simp at h
      next t ht =>
      obtain ⟨_, a₁, hm, h⟩ := gives_bind.mp h
      obtain ⟨ha₁, hg₁, hr₁⟩ := mergeInto_ascends (U := U) ha (Code.labelAt?_lt ht) hk hw hm
      obtain ⟨ha₂, hg₂, hall⟩ := ih ha₁ (hk.grow hg₁.grow) h
      refine ⟨ha₂, hg₁.trans hg₂, fun id' hid' => ?_⟩
      rcases List.mem_cons.mp hid' with rfl | hid'
      · exact ⟨t, ht, hg₂.meets hr₁⟩
      · exact hall id' hid'

/-- **One instruction is followed**: afterwards its frame has been passed on, or it has risen on the way and
is pending again. -/
lemma step_passes (ha : AtWork V ctx a) (hspans : ∀ s ∈ spans, s.handler < ctx.method.code.size)
    {f : Frame} {u : Unit} (hf : a.frames[position]? = some (some f))
    (h : Gives (step ctx spans position) a u a') :
    AtWork V ctx a' ∧ Ascends U a a' ∧ (position ∈ a'.pending ∨
      ∃ instr after, a'.types.Passed U ctx.method.code spans position f instr after) := by
  have hlt : position < ctx.method.code.size := by
    rw [← ha.valid.size]
    exact (Array.getElem?_eq_some_iff.mp hf).1
  obtain ⟨r, a₀, hr, h⟩ := gives_bind.mp h
  obtain ⟨rfl, rfl⟩ := frameAt_gives hr
  have hcode : ctx.method.code[position]? = some ctx.method.code[position] :=
    Array.getElem?_eq_getElem hlt
  generalize ctx.method.code[position] = instr at hcode
  rw [hcode, hf] at h
  simp only [Option.join_some] at h
  obtain ⟨after, a₁, hexec, h⟩ := gives_bind.mp h
  obtain ⟨_, a₂, hhandlers, h⟩ := gives_bind.mp h
  obtain ⟨_, a₃, htargets, h⟩ := gives_bind.mp h
  have hx := Frame.execute_transition (C := Classes.empty) hcode hexec
  have hkf := ha.valid.known _ _ hf
  have htr := hx.transition ha.valid.sound hkf
  have ha₁ : AtWork V ctx a₁ := ⟨hx.learns.valid ha.valid,
    (Frame.respects_execute (Hierarchy.lasting_shows ctx.source V) _ _ _).gives hexec ha.shows⟩
  have hf₁ : a₁.frames[position]? = some (some f) := by rw [hx.learns.frames]; exact hf
  have hg₁ : Ascends U _ a₁ :=
    ⟨fun i hi => by rw [hx.learns.pending]; exact hi, (hx.learns.sound ha.valid.sound).2,
      fun i g hg => ⟨g, by rw [hx.learns.frames]; exact hg, .refl g, Or.inl rfl⟩,
      fun i g hg => Or.inl ⟨g, by rw [← hx.learns.frames]; exact hg⟩⟩
  have hka := hx.known ha.valid.sound hkf
  have hwa : after.locals.size = ctx.method.maxLocals.toNat := by
    rw [htr.size_locals]
    exact ha.valid.width _ _ hf
  obtain ⟨ha₂, hg₂, hall₂⟩ := meets_handlers (U := U) (f := f) ha₁ hspans (Or.inl hf₁) ⟨f, hf₁⟩ hka hwa
    hhandlers
  obtain ⟨ha₃, hg₃, hall₃⟩ := meets_targets (U := U) ha₂ (hka.grow hg₂.grow) hwa htargets
  -- what is left is the way to the next instruction
  have hlast : AtWork V ctx a' ∧ Ascends U a₃ a' ∧ (instr.opcode.endsBlock = false →
      position + 1 < ctx.method.code.size ∧ a'.types.Meets U after (position + 1)) := by
    split at h
    · next hend =>
        obtain ⟨-, rfl⟩ := gives_pure.mp h
        exact ⟨ha₃, .refl _, fun hne => by simp [hend] at hne⟩
    split at h
    · simp at h
    · next hsize =>
        have hnext : position + 1 < ctx.method.code.size := by omega
        obtain ⟨ha', hg, hr⟩ := mergeInto_ascends (U := U) ha₃ hnext
          ((hka.grow hg₂.grow).grow hg₃.grow) hwa h
        exact ⟨ha', hg, fun _ => ⟨hnext, hr⟩⟩
  obtain ⟨ha', hg₄, hnext⟩ := hlast
  have hg₃₄ := hg₃.trans hg₄
  refine ⟨ha', hg₁.trans (hg₂.trans hg₃₄), ?_⟩
  by_cases hp : position ∈ a'.pending
  · exact Or.inl hp
  refine Or.inr ⟨instr, after, hcode, htr.grow (hg₂.trans hg₃₄).grow, fun id hid => ?_, hnext,
    fun s hs hstart hstop => ?_⟩
  · obtain ⟨t, ht, hr⟩ := hall₃ id hid
    exact ⟨t, ht, hg₄.meets hr⟩
  · obtain ⟨hbefore, hafter⟩ := hall₂ s hs hstart hstop
    refine ⟨hg₃₄.meets (hbefore.resolve_right fun hp' => hp (hg₃₄.pending _ hp')), hg₃₄.meets hafter⟩

/-! ## The whole analysis -/

/-- **The invariant of the loop**: every frame has been passed on unless its position is pending. -/
structure Settling (U : ClassOrder ctx.source V) (spans : List HandlerSpan) (entry : Frame) (a : Analysis) :
    Prop where
  work : AtWork V ctx a
  entry : 0 < ctx.method.code.size → a.types.Meets U entry 0
  passed : ∀ (i : Nat) (f : Frame), a.frames[i]? = some (some f) → i ∉ a.pending →
    ∃ instr after, a.types.Passed U ctx.method.code spans i f instr after

lemma AtWork.withPending (ha : AtWork V ctx a) (ps : List Nat) : AtWork V ctx { a with pending := ps } :=
  ⟨⟨⟨ha.valid.sound.agrees, ha.valid.sound.sites⟩, ha.valid.size, ha.valid.known, ha.valid.width⟩, ha.shows⟩

/-- Following a pending position keeps the invariant. -/
lemma step_settling (hspans : ∀ s ∈ spans, s.handler < ctx.method.code.size) {entry : Frame} {i : Nat}
    {rest : List Nat} {u : Unit} (hp : a.pending = i :: rest) (ha : Settling U spans entry a)
    (h : Gives (step ctx spans i) { a with pending := rest } u a') : Settling U spans entry a' := by
  have hwork := ha.work.withPending rest
  cases hf : (a.frames[i]?).join with
  | none =>
      have hf' : (({ a with pending := rest } : Analysis).frames[i]?).join = none := hf
      obtain rfl := step_unreached hf' h
      refine ⟨hwork, ha.entry, fun j g hg hj => ha.passed j g hg ?_⟩
      rw [hp, List.mem_cons, not_or]
      refine ⟨?_, hj⟩
      rintro rfl
      have hg : a.frames[j]? = some (some g) := hg
      rw [hg] at hf
      cases hf
  | some f =>
      have hf := Option.join_eq_some_iff.mp hf
      obtain ⟨hwork', hg, hpassed⟩ := step_passes (U := U) hwork hspans hf h
      refine ⟨hwork', fun hlt => hg.meets (ha.entry hlt), fun j g hj hnot => ?_⟩
      -- the frame at `j` was there before and has not changed, else `j` would be pending
      obtain ⟨g₀, hg₀⟩ := (hg.fresh j g hj).resolve_right hnot
      obtain ⟨g₁, hg₁, -, hsame⟩ := hg.frames j g₀ hg₀
      obtain rfl : g₁ = g₀ := hsame.resolve_right hnot
      obtain rfl : g = g₁ := Option.some.inj (Option.some.inj (hj.symm.trans hg₁))
      by_cases hji : j = i
      · subst hji
        have hf : a.frames[j]? = some (some f) := hf
        have hg₀ : a.frames[j]? = some (some g) := hg₀
        rw [hf] at hg₀
        obtain rfl : f = g := Option.some.inj (Option.some.inj hg₀)
        exact hpassed.resolve_left hnot
      · have hnot' : j ∉ a.pending := by
          rw [hp, List.mem_cons, not_or]
          exact ⟨hji, fun hr => hnot (hg.pending j hr)⟩
        obtain ⟨instr, after, hs⟩ := ha.passed j g hg₀ hnot'
        exact ⟨instr, after, hg.passed hs⟩

lemma follow_settling (hspans : ∀ s ∈ spans, s.handler < ctx.method.code.size) {entry : Frame}
    (ha : Settling U spans entry a) (h : follow ctx spans a = some (.ok (), a')) :
    Settling U spans entry a' ∧ a'.pending = [] := by
  let motive (a : Analysis) (r : Ending) : Prop :=
    Settling U spans entry a → r.1 = .ok () → Settling U spans entry r.2 ∧ r.2.pending = []
  refine follow_induction (motive := motive) ?_ ?_ ?_ h ha rfl
  · exact fun a hp ha _ => ⟨ha, hp⟩
  · exact fun a i rest e a' _ _ _ hok => by cases hok
  · exact fun a i rest a' r hp hstep ih ha => ih (step_settling hspans hp ha hstep)

/-- Before the entry is merged the analysis is at work. -/
lemma atWork_start {h : Hierarchy} (hh : h.Shows ctx.source V) : AtWork V ctx (start ctx h) := by
  have hnone := unreached_replicate ctx.method.code.size
  refine ⟨⟨⟨h.agrees_empty, ⟨List.Pairwise.nil, by simp [start], by simp [start]⟩⟩, by simp, ?_, ?_⟩, hh⟩
  all_goals exact fun i f hf => absurd hf (hnone i f)

lemma settling_entry {h : Hierarchy} (hh : h.Shows ctx.source V) {entry : Frame}
    (hentry : entryFrame ctx.owner ctx.method = .ok entry)
    (hmerge : Gives (mergeInto ctx 0 0 entry) (start ctx h) () a) : Settling U spans entry a := by
  have hnone := unreached_replicate ctx.method.code.size
  by_cases hsize : 0 < ctx.method.code.size
  · obtain ⟨ha, hg, hr⟩ := mergeInto_ascends (U := U) (atWork_start hh) hsize (known_entryFrame hentry [])
      (size_entryFrame hentry) hmerge
    refine ⟨ha, fun _ => hr, fun i f hf hp => ?_⟩
    rcases hg.fresh i f hf with ⟨g, hg⟩ | hpending
    · exact absurd hg (hnone i g)
    · exact absurd hpending hp
  · have ha : a = start ctx h := by
      rcases mergeInto_cases hmerge with ⟨-, rfl⟩ | ⟨hat, -⟩ | ⟨old, _, _, _, _, hat, -⟩
      · rfl
      · rw [Array.getElem?_eq_none (by simpa using hsize)] at hat
        cases hat
      · exact absurd hat (hnone 0 old)
    subst ha
    exact ⟨atWork_start hh, fun hlt => absurd hlt hsize, fun i f hf => absurd hf (hnone i f)⟩

/-- Spans of ranges have handlers in the code. -/
lemma handler_lt {code : Code} {ranges : List ExceptionRange} {n : Nat} {ss : List HandlerSpan}
    (hss : Analysis.spans code ranges n = .ok ss) : ∀ s ∈ ss, s.handler < code.size := by
  intro s hs
  obtain ⟨r, -, hr⟩ := (spans_eq_ok hss).2 s hs
  exact Code.labelAt?_lt (span_eq_ok hr).2.2.1

/-- **A finished analysis has passed every frame on.** -/
theorem run_settles (U : ClassOrder ctx.source V) {h h' : Hierarchy} (hh : h.Shows ctx.source V)
    {T : FrameTypes} {ss : List HandlerSpan} {entry : Frame} (hrun : (run ctx).run h = (.ok T, h'))
    (hss : Analysis.spans ctx.method.code ctx.method.ranges 0 = .ok ss)
    (hentry : entryFrame ctx.owner ctx.method = .ok entry) :
    (0 < ctx.method.code.size → T.Meets U entry 0) ∧
      ∀ (i : Nat) (f : Frame), T.frames[i]? = some (some f) →
        ∃ instr after, T.Passed U ctx.method.code ss i f instr after := by
  obtain ⟨ss', entry', a₁, a₂, hss', hentry', hmerge, hfollow, rfl, rfl⟩ := run_eq_ok hrun
  obtain rfl : ss = ss' := Except.ok.inj (hss.symm.trans hss')
  obtain rfl : entry = entry' := Except.ok.inj (hentry.symm.trans hentry')
  obtain ⟨hset, hpending⟩ := follow_settling (handler_lt hss) (settling_entry (U := U) hh hentry hmerge) hfollow
  -- sorting the constructions keeps what is said about them
  have hgrow : Site.Grow a₂.sites (a₂.sites.mergeSort fun x y => x.newAt ≤ y.newAt) :=
    fun s hs => ⟨s, (List.mergeSort_perm _ _).mem_iff.mpr hs, rfl, rfl, id, fun _ h => h⟩
  have hmeets : ∀ {f : Frame} {i : Nat}, a₂.types.Meets U f i →
      FrameTypes.Meets U ⟨a₂.frames, a₂.sites.mergeSort fun x y => x.newAt ≤ y.newAt⟩ f i :=
    fun ⟨g, hg, hc⟩ => ⟨g, hg, hc.grow hgrow⟩
  refine ⟨fun hlt => hmeets (hset.entry hlt), fun i f hf => ?_⟩
  obtain ⟨instr, after, hp⟩ := hset.passed i f hf (by simp [hpending])
  exact ⟨instr, after, hp.code_at, hp.transition.grow hgrow,
    fun id hid => (hp.targets id hid).imp fun _ ht => ⟨ht.1, hmeets ht.2⟩,
    fun hend => ⟨(hp.next hend).1, hmeets (hp.next hend).2⟩,
    fun s hs hstart hstop => ⟨hmeets (hp.handlers s hs hstart hstop).1,
      hmeets (hp.handlers s hs hstart hstop).2⟩⟩

end Analysis

end Suspension
