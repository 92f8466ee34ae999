import Suspension.Proofs.Code.Labels
import Suspension.Proofs.Frame.Following
import Suspension.Proofs.Frame.Growth

/-!
# What a finished analysis guarantees

The analysis follows positions until none is pending.  The invariant of that loop is that **every
frame is settled unless its position is pending**: the frame behind its instruction has reached all
successors, and its locals all handlers that cover it.  At the end nothing is pending, so all frames
are settled.  How often the loop runs plays no role.

* `Analysis.step_settles` — one instruction.
* `Analysis.Invariant`, `Analysis.follow_invariant` — the loop.
* `FrameTypes.Certified`, `Analysis.run_certified` — the whole analysis.
-/

namespace Suspension

namespace Analysis

open Transfer

variable {C : Classes} {code : Code} {width : Nat} {new : Nat → Nat → Prop} {a a' : Analysis}
  {ctx : AnalysisContext} {position : Nat}

/-! ## Following an instruction -/

lemma frameAt_gives {r : Option Frame} (h : Gives (frameAt position) a r a') :
    r = (a.frames[position]?).join ∧ a' = a := by
  simp only [frameAt, gives_bind, gives_get, gives_pure] at h
  obtain ⟨_, _, ⟨rfl, rfl⟩, rfl, rfl⟩ := h
  exact ⟨rfl, rfl⟩

lemma known_handler {sites : List Site} {f : Frame} (h : f.Known sites) (cls : Text) :
    Frame.Known sites ⟨f.locals, [.ref cls]⟩ :=
  ⟨fun t ht => by obtain rfl := List.mem_singleton.mp ht; trivial, h.2⟩

/-- **The handlers that cover an instruction are reached**, with the locals behind it, and with those
before it unless its frame has risen meanwhile. -/
lemma reachHandlers_grows (hsrc : ctx.source.Agrees C) {spans : List HandlerSpan}
    (hspans : ∀ s ∈ spans, s.handler < code.size) {f after : Frame} {u : Unit}
    (hv : Valid C code width a) (hf : a.frames[position]? = some (some f) ∨ position ∈ a.pending)
    (hsome : ∃ g, a.frames[position]? = some (some g)) (hk : after.Known a.sites)
    (hw : after.locals.size = width)
    (h : Gives (reachHandlers ctx position after spans) a u a') :
    Valid C code width a' ∧ Grows C new a a' ∧
      ∀ s ∈ spans, s.start ≤ position → position < s.stop →
        (a'.types.Reaches C ⟨f.locals, [.ref s.cls]⟩ s.handler ∨ position ∈ a'.pending) ∧
        a'.types.Reaches C ⟨after.locals, [.ref s.cls]⟩ s.handler := by
  induction spans generalizing a with
  | nil =>
      obtain ⟨-, rfl⟩ := gives_pure.mp h
      exact ⟨hv, .refl _, by simp⟩
  | cons s spans ih =>
      have hspans' := fun t ht => hspans t (List.mem_cons_of_mem s ht)
      unfold reachHandlers at h
      split at h
      · next hcover =>
          obtain ⟨r, a₀, hr, h⟩ := gives_bind.mp h
          obtain ⟨rfl, rfl⟩ := frameAt_gives hr
          obtain ⟨before, hbefore⟩ := hsome
          rw [hbefore] at h
          simp only [Option.join_some] at h
          obtain ⟨_, a₁, hm₁, h⟩ := gives_bind.mp h
          obtain ⟨_, a₂, hm₂, h⟩ := gives_bind.mp h
          have hlt := hspans s (by simp)
          have hwbefore := hv.width _ _ hbefore
          obtain ⟨hv₁, hg₁, hr₁⟩ := mergeInto_grows hsrc hv hlt
            (known_handler (hv.known _ _ hbefore) s.cls) hwbefore hm₁
          obtain ⟨hv₂, hg₂, hr₂⟩ := mergeInto_grows hsrc hv₁ hlt
            (known_handler (hk.grow hg₁.grow) s.cls) hw hm₂
          have hg : Grows C new _ a₂ := hg₁.trans hg₂
          obtain ⟨g, hg', -, hch⟩ := hg.frames _ _ hbefore
          have hf₂ : a₂.frames[position]? = some (some f) ∨ position ∈ a₂.pending := by
            rcases hf with hf | hp
            · rw [hf] at hbefore
              cases hbefore
              rcases hch with rfl | hp
              · exact Or.inl hg'
              · exact Or.inr hp
            · exact Or.inr (hg.pending _ hp)
          obtain ⟨hv₃, hg₃, hall⟩ := ih hspans' hv₂ hf₂ ⟨g, hg'⟩ (hk.grow hg.grow) h
          refine ⟨hv₃, hg.trans hg₃, fun t ht hstart hstop => ?_⟩
          rcases List.mem_cons.mp ht with rfl | ht
          · refine ⟨?_, hg₃.reaches hr₂⟩
            rcases hf with hf | hp
            · rw [hf] at hbefore
              cases hbefore
              exact Or.inl (hg₃.reaches (hg₂.reaches hr₁))
            · exact Or.inr (hg₃.pending _ (hg.pending _ hp))
          · exact hall t ht hstart hstop
      · next hcover =>
          obtain ⟨hv', hg, hall⟩ := ih hspans' hv hf hsome hk h
          refine ⟨hv', hg, fun t ht hstart hstop => ?_⟩
          rcases List.mem_cons.mp ht with rfl | ht
          · exact absurd (by simp [hstart, hstop]) hcover
          · exact hall t ht hstart hstop

/-- **The targets of a jump are reached.** -/
lemma reachTargets_grows (hsrc : ctx.source.Agrees C) {ids : List Label} {after : Frame} {u : Unit}
    (hv : Valid C ctx.method.code width a) (hk : after.Known a.sites)
    (hw : after.locals.size = width) (h : Gives (reachTargets ctx position after ids) a u a') :
    Valid C ctx.method.code width a' ∧ Grows C new a a' ∧
      ∀ id ∈ ids, ∃ t, ctx.method.code.labelAt? id = some t ∧ a'.types.Reaches C after t := by
  induction ids generalizing a with
  | nil =>
      obtain ⟨-, rfl⟩ := gives_pure.mp h
      exact ⟨hv, .refl _, by simp⟩
  | cons id ids ih =>
      unfold reachTargets at h
      split at h
      · simp at h
      · next t ht =>
          obtain ⟨_, a₁, hm, h⟩ := gives_bind.mp h
          obtain ⟨hv₁, hg₁, hr₁⟩ := mergeInto_grows hsrc hv (Code.labelAt?_lt ht) hk hw hm
          obtain ⟨hv₂, hg₂, hall⟩ := ih hv₁ (hk.grow hg₁.grow) h
          refine ⟨hv₂, hg₁.trans hg₂, fun id' hid' => ?_⟩
          rcases List.mem_cons.mp hid' with rfl | hid'
          · exact ⟨t, ht, hg₂.reaches hr₁⟩
          · exact hall id' hid'

/-- Every copy that was noted is still where it was noted, unless its construction has been
pinned. -/
def CopiesKept (T : FrameTypes) : Prop :=
  ∀ s ∈ T.sites, ∀ d, s.dupAt = some d → ∃ f, T.frames[d]? = some (some f) ∧
    (Site.Pinned T.sites s.newAt ∨ ∃ cls rest, f.stack = .pending s.newAt cls false :: rest)

/-- A frame that rises keeps its pending top, unless that is pinned. -/
lemma top_pending_of_le {sites : List Site} {f g : Frame} {n : Nat} {cls : Text}
    {rest : List SlotType} (hle : Frame.Le C sites f g)
    (hf : f.stack = .pending n cls false :: rest) :
    Site.Pinned sites n ∨ ∃ cls rest, g.stack = .pending n cls false :: rest := by
  have hstack := hle.stack
  rw [hf] at hstack
  obtain ⟨t, rest', ht, -, hg⟩ := List.forall₂_cons_left_iff.mp hstack
  by_cases hfree : Site.Free sites (.pending n cls false)
  · exact Or.inl hfree
  · rw [ht.eq_of_not_free hfree] at hg
    exact Or.inr ⟨cls, rest', hg⟩

lemma Grows.copiesKept {f : Frame} (h : Grows C (Frame.Copies position f) a a')
    (hf : a.frames[position]? = some (some f)) (hc : CopiesKept a.types) :
    CopiesKept a'.types := by
  intro s' hs' d hd
  rcases h.copies s' hs' d hd with ⟨rfl, cls, rest, hstack⟩ | ⟨s, hs, hn, hd'⟩
  · obtain ⟨g, hg, hle, -⟩ := h.frames _ _ hf
    exact ⟨g, hg, top_pending_of_le hle hstack⟩
  · obtain ⟨f₀, hf₀, hkept⟩ := hc s hs d hd'
    obtain ⟨g, hg, hle, -⟩ := h.frames _ _ hf₀
    refine ⟨g, hg, ?_⟩
    rw [hn] at hkept
    rcases hkept with hp | ⟨cls, rest, hstack⟩
    · exact Or.inl (hp.grow h.grow)
    · exact top_pending_of_le hle hstack

/-- **One instruction is followed**: afterwards its frame is settled, or it has risen on the way and
is pending again. -/
lemma step_settles (hsrc : ctx.source.Agrees C) {spans : List HandlerSpan}
    (hspans : ∀ s ∈ spans, s.handler < ctx.method.code.size) {f : Frame} {u : Unit}
    (hv : Valid C ctx.method.code width a) (hf : a.frames[position]? = some (some f))
    (h : Gives (step ctx spans position) a u a') :
    Valid C ctx.method.code width a' ∧ Grows C (Frame.Copies position f) a a' ∧
      (position ∈ a'.pending ∨
        ∃ instr after, a'.types.Settled C ctx.method.code spans position f instr after) := by
  have hlt : position < ctx.method.code.size := by
    rw [← hv.size]
    exact (Array.getElem?_eq_some_iff.mp hf).1
  obtain ⟨r, a₀, hr, h⟩ := gives_bind.mp h
  obtain ⟨rfl, rfl⟩ := frameAt_gives hr
  have hcode : ctx.method.code[position]? = some ctx.method.code[position] :=
    Array.getElem?_eq_getElem hlt
  generalize ctx.method.code[position] = instr at hcode
  rw [hcode, hf] at h
  simp only [Option.join_some] at h
  obtain ⟨after, a₁, hexec, h⟩ := gives_bind.mp h
  obtain ⟨_, a₂, hhandlers, h⟩ := gives_bind.mp h
  obtain ⟨_, a₃, htargets, h⟩ := gives_bind.mp h
  have hx := Frame.execute_transition (C := C) hcode hexec
  have hkf := hv.known _ _ hf
  have htr := hx.transition hv.sound hkf
  have hv₁ := hx.learns.valid hv
  have hg₁ := hx.learns.grows hv.sound
  have hf₁ : a₁.frames[position]? = some (some f) := by rw [hx.learns.frames]; exact hf
  have hka := hx.known hv.sound hkf
  have hwa : after.locals.size = width := by rw [htr.size_locals]; exact hv.width _ _ hf
  obtain ⟨hv₂, hg₂, hall₂⟩ := reachHandlers_grows (f := f) hsrc hspans hv₁ (Or.inl hf₁) ⟨f, hf₁⟩ hka hwa
    hhandlers
  obtain ⟨hv₃, hg₃, hall₃⟩ := reachTargets_grows hsrc hv₂ (hka.grow hg₂.grow) hwa htargets
  -- what is left is the way to the next instruction
  have hlast : Valid C ctx.method.code width a' ∧ Grows C (Frame.Copies position f) a₃ a' ∧
      (instr.opcode.endsBlock = false →
        position + 1 < ctx.method.code.size ∧ a'.types.Reaches C after (position + 1)) := by
    split at h
    · next hend =>
        obtain ⟨-, rfl⟩ := gives_pure.mp h
        exact ⟨hv₃, .refl _, fun hne => by simp [hend] at hne⟩
    split at h
    · simp at h
    · next hsize =>
        have hnext : position + 1 < ctx.method.code.size := by omega
        obtain ⟨hv', hg, hr⟩ := mergeInto_grows hsrc hv₃ hnext
          ((hka.grow hg₂.grow).grow hg₃.grow) hwa h
        exact ⟨hv', hg, fun _ => ⟨hnext, hr⟩⟩
  obtain ⟨hv', hg₄, hnext⟩ := hlast
  have hg₃₄ : Grows C (Frame.Copies position f) a₂ a' := hg₃.trans hg₄
  refine ⟨hv', hg₁.trans (hg₂.trans hg₃₄), ?_⟩
  by_cases hp : position ∈ a'.pending
  · exact Or.inl hp
  refine Or.inr ⟨instr, after, hcode, (htr.grow (hg₂.trans hg₃₄).grow), ?_, hnext, ?_⟩
  · intro id hid
    obtain ⟨t, ht, hr⟩ := hall₃ id hid
    exact ⟨t, ht, hg₄.reaches hr⟩
  · intro s hs hstart hstop
    obtain ⟨hbefore, hafter⟩ := hall₂ s hs hstart hstop
    refine ⟨?_, hg₃₄.reaches hafter⟩
    rcases hbefore with hr | hp'
    · exact hg₃₄.reaches hr
    · exact absurd (hg₃₄.pending _ hp') hp

/-! ## The whole analysis -/

/-- **The invariant of the loop**: every frame is settled unless its position is pending. -/
structure Invariant (C : Classes) (code : Code) (width : Nat) (spans : List HandlerSpan)
    (entry : Frame) (a : Analysis) : Prop where
  valid : Valid C code width a
  copies : CopiesKept a.types
  entry : 0 < code.size → a.types.Reaches C entry 0
  settled : ∀ (i : Nat) (f : Frame), a.frames[i]? = some (some f) → i ∉ a.pending →
    ∃ instr after, a.types.Settled C code spans i f instr after

/-- Where nothing was reached nothing happens. -/
lemma step_unreached {spans : List HandlerSpan} {u : Unit}
    (hf : (a.frames[position]?).join = none) (h : Gives (step ctx spans position) a u a') :
    a' = a := by
  obtain ⟨r, a₀, hr, h⟩ := gives_bind.mp h
  obtain ⟨rfl, rfl⟩ := frameAt_gives hr
  rw [hf] at h
  split at h
  · next hsome => cases hsome
  · exact (gives_pure.mp h).2

/-- Following a pending position keeps the invariant. -/
lemma step_invariant (hsrc : ctx.source.Agrees C) {spans : List HandlerSpan}
    (hspans : ∀ s ∈ spans, s.handler < ctx.method.code.size) {entry : Frame} {i : Nat}
    {rest : List Nat} {u : Unit} (ha : a.pending = i :: rest)
    (hinv : Invariant C ctx.method.code width spans entry a)
    (h : Gives (step ctx spans i) { a with pending := rest } u a') :
    Invariant C ctx.method.code width spans entry a' := by
  have hv : Valid C ctx.method.code width { a with pending := rest } :=
    ⟨⟨hinv.valid.sound.agrees, hinv.valid.sound.sites⟩, hinv.valid.size, hinv.valid.known,
      hinv.valid.width⟩
  cases hf : (a.frames[i]?).join with
  | none =>
      have hf' : (({ a with pending := rest } : Analysis).frames[i]?).join = none := hf
      obtain rfl := step_unreached hf' h
      refine ⟨hv, hinv.copies, hinv.entry, fun j g hg hj => hinv.settled j g hg ?_⟩
      rw [ha, List.mem_cons, not_or]
      refine ⟨fun hji => ?_, hj⟩
      subst hji
      change a.frames[j]? = some (some g) at hg
      rw [hg] at hf
      simp at hf
  | some f =>
      have hf := Option.join_eq_some_iff.mp hf
      obtain ⟨hv', hg, hsettled⟩ := step_settles hsrc hspans hv hf h
      refine ⟨hv', hg.copiesKept hf hinv.copies, fun hlt => hg.reaches (hinv.entry hlt), ?_⟩
      intro j g hj hnot
      -- the frame at `j` was there before and has not changed, else `j` would be pending
      have hold : ∃ g₀, a.frames[j]? = some (some g₀) := by
        rcases hg.fresh j g hj with hold | hp
        · exact hold
        · exact absurd hp hnot
      obtain ⟨g₀, hg₀⟩ := hold
      have hsame : a.frames[j]? = some (some g) := by
        obtain ⟨g₁, hg₁, -, rfl | hp⟩ := hg.frames j g₀ hg₀
        · rw [hj] at hg₁
          cases hg₁
          exact hg₀
        · exact absurd hp hnot
      by_cases hji : j = i
      · subst hji
        rw [hf] at hsame
        cases hsame
        rcases hsettled with hp | hs
        · exact absurd hp hnot
        · exact hs
      · have hnot' : j ∉ a.pending := by
          rw [ha, List.mem_cons, not_or]
          exact ⟨hji, fun hr => hnot (hg.pending j hr)⟩
        obtain ⟨instr, after, hs⟩ := hinv.settled j g hsame hnot'
        exact ⟨instr, after, hg.settled hs⟩

/-- **The loop keeps the invariant**, and when it succeeds nothing is pending. -/
lemma follow_invariant (hsrc : ctx.source.Agrees C) {spans : List HandlerSpan}
    (hspans : ∀ s ∈ spans, s.handler < ctx.method.code.size) {entry : Frame}
    (hinv : Invariant C ctx.method.code width spans entry a)
    (h : follow ctx spans a = some (.ok (), a')) :
    Invariant C ctx.method.code width spans entry a' ∧ a'.pending = [] := by
  let motive (a : Analysis) (r : Ending) : Prop :=
    Invariant C ctx.method.code width spans entry a → r.1 = .ok () →
      Invariant C ctx.method.code width spans entry r.2 ∧ r.2.pending = []
  refine follow_induction (motive := motive) ?_ ?_ ?_ h hinv rfl
  · exact fun a hp hinv _ => ⟨hinv, hp⟩
  · exact fun a i rest e a' _ _ _ hok => by cases hok
  · exact fun a i rest a' r hp hstep ih hinv => ih (step_invariant hsrc hspans hp hinv hstep)

/-! ### Ranges -/

/-- The class of what a range's handler finds on the stack. -/
def caughtClass (r : ExceptionRange) : Text :=
  if r.type.isEmpty then ClassName.throwable else r.type

lemma span_eq_ok {r : ExceptionRange} {s : HandlerSpan} (h : span code r = .ok s) :
    code.labelAt? r.start = some s.start ∧ code.labelAt? r.stop = some s.stop ∧
      code.labelAt? r.handler = some s.handler ∧ s.cls = caughtClass r := by
  unfold span at h
  split at h
  · cases h
  split at h
  · cases h
  split at h
  · cases h
  · cases h
    exact ⟨by assumption, by assumption, by assumption, rfl⟩

lemma spans_eq_ok {ranges : List ExceptionRange} {n : Nat} {ss : List HandlerSpan}
    (h : spans code ranges n = .ok ss) :
    (∀ r ∈ ranges, ∃ s ∈ ss, span code r = .ok s) ∧ ∀ s ∈ ss, ∃ r ∈ ranges, span code r = .ok s := by
  induction ranges generalizing n ss with
  | nil =>
      cases h
      exact ⟨by simp, by simp⟩
  | cons r ranges ih =>
      unfold spans at h
      split at h
      · cases h
      next s hs =>
      split at h
      · cases h
      next ss' hss =>
      cases h
      obtain ⟨h₁, h₂⟩ := ih hss
      constructor
      · intro r' hr'
        rcases List.mem_cons.mp hr' with rfl | hr'
        · exact ⟨s, List.mem_cons_self, hs⟩
        · obtain ⟨s', hs', heq⟩ := h₁ r' hr'
          exact ⟨s', List.mem_cons_of_mem _ hs', heq⟩
      · intro s' hs'
        rcases List.mem_cons.mp hs' with rfl | hs'
        · exact ⟨r, List.mem_cons_self, hs⟩
        · obtain ⟨r', hr', heq⟩ := h₂ s' hs'
          exact ⟨r', List.mem_cons_of_mem _ hr', heq⟩

end Analysis

/-! ## The certificate -/

namespace FrameTypes

/-- **What frame types say about a method.**  Frames are as wide as the method, constructions are
where their instructions stand, and from the entry on every frame has been followed. -/
structure Certified (C : Classes) (owner : Text) (m : Method) (T : FrameTypes) : Prop where
  size : T.frames.size = m.code.size
  sites : Site.Sound m.code T.sites
  copies : Analysis.CopiesKept T
  known : ∀ (i : Nat) (f : Frame), T.frames[i]? = some (some f) → f.Known T.sites
  width : ∀ (i : Nat) (f : Frame), T.frames[i]? = some (some f) → f.locals.size = m.maxLocals.toNat
  entry : ∃ f, Analysis.entryFrame owner m = .ok f ∧ (0 < m.code.size → T.Reaches C f 0)
  ranges : ∀ r ∈ m.ranges, ∃ s, Analysis.span m.code r = .ok s
  settled : ∀ (i : Nat) (f : Frame), T.frames[i]? = some (some f) →
    ∃ instr after spans, Analysis.spans m.code m.ranges 0 = .ok spans
      ∧ T.Settled C m.code spans i f instr after

/-- Only which constructions there are counts, not their order. -/
lemma Reaches.perm {C : Classes} {frames : Array (Option Frame)} {sites sites' : List Site}
    (hg : Site.Grow sites sites') {f : Frame} {i : Nat} (h : Reaches C ⟨frames, sites⟩ f i) :
    Reaches C ⟨frames, sites'⟩ f i := by
  obtain ⟨g, hat, hle⟩ := h
  exact ⟨g, hat, hle.grow hg⟩

lemma Settled.perm {C : Classes} {code : Code} {spans : List HandlerSpan}
    {frames : Array (Option Frame)} {sites sites' : List Site} (hg : Site.Grow sites sites')
    {i : Nat} {f after : Frame} {instr : Instruction}
    (h : Settled C code spans ⟨frames, sites⟩ i f instr after) :
    Settled C code spans ⟨frames, sites'⟩ i f instr after where
  code_at := h.code_at
  transition := h.transition.grow hg
  targets := by
    intro id hid
    obtain ⟨t, ht, hr⟩ := h.targets id hid
    exact ⟨t, ht, hr.perm hg⟩
  next := fun hend => ⟨(h.next hend).1, (h.next hend).2.perm hg⟩
  handlers := fun s hs hstart hstop =>
    ⟨(h.handlers s hs hstart hstop).1.perm hg, (h.handlers s hs hstart hstop).2.perm hg⟩

end FrameTypes

namespace Analysis

open Transfer

variable {C : Classes} {ctx : AnalysisContext}

/-- The slots that a caller fills: the receiver and the parameters. -/
def givenSlots (owner : Text) (m : Method) (d : Descriptor.Method) : List SlotType :=
  (if m.isStatic then [] else [SlotType.ref owner]) ++ d.params.map SlotType.ofDesc

/-- **The frame at the entry**: what the caller fills, then nothing. -/
lemma entryFrame_eq_ok {owner : Text} {m : Method} {f : Frame} (h : entryFrame owner m = .ok f) :
    ∃ d, Descriptor.parseMethod m.desc = .ok d ∧
      (givenSlots owner m d).length ≤ m.maxLocals.toNat ∧
      f = ⟨(givenSlots owner m d ++ List.replicate
        (m.maxLocals.toNat - (givenSlots owner m d).length) SlotType.unusable).toArray, []⟩ := by
  unfold entryFrame at h
  split at h
  · cases h
  next d hd =>
  by_cases hrecv : (!m.isStatic && m.maxLocals.toNat == 0) = true
  · simp only [hrecv, if_true] at h
    cases h
  · by_cases hparams : m.maxLocals.toNat < (givenSlots owner m d).length
    · rw [if_neg hrecv] at h
      erw [if_pos hparams] at h
      cases h
    · rw [if_neg hrecv] at h
      erw [if_neg hparams] at h
      cases h
      exact ⟨d, hd, by omega, rfl⟩

lemma size_entryFrame {owner : Text} {m : Method} {f : Frame} (h : entryFrame owner m = .ok f) :
    f.locals.size = m.maxLocals.toNat := by
  obtain ⟨d, -, hlen, rfl⟩ := entryFrame_eq_ok h
  simp only [List.size_toArray, List.length_append, List.length_replicate]
  omega

lemma known_entryFrame {owner : Text} {m : Method} {f : Frame} (h : entryFrame owner m = .ok f)
    (sites : List Site) : f.Known sites := by
  obtain ⟨d, -, -, rfl⟩ := entryFrame_eq_ok h
  refine ⟨by simp, fun t ht => ?_⟩
  simp only [givenSlots, List.mem_append, List.mem_map, List.mem_replicate] at ht
  rcases ht with (ht | ⟨desc, -, rfl⟩) | ⟨-, rfl⟩
  · split at ht
    · simp at ht
    · obtain rfl := List.mem_singleton.mp ht
      trivial
  · unfold SlotType.ofDesc
    split <;> trivial
  · trivial

/-- Before the entry is merged there are no frames. -/
lemma unreached_replicate (n i : Nat) (f : Frame) :
    (Array.replicate n (none : Option Frame))[i]? ≠ some (some f) := by
  intro hf
  rw [Array.getElem?_replicate] at hf
  split at hf <;> cases hf

/-- **A finished analysis certifies its result**, if what it learns about classes is true. -/
theorem run_certified (hsrc : ctx.source.Agrees C) {h h' : Hierarchy} (hh : h.Agrees C)
    {T : FrameTypes} (hrun : (run ctx).run h = (.ok T, h')) :
    T.Certified C ctx.owner ctx.method ∧ h'.Agrees C := by
  obtain ⟨ss, entry, a₁, a₂, hss, hentry, hmerge, hfollow, rfl, rfl⟩ := run_eq_ok hrun
  obtain ⟨hranges, hspans⟩ := spans_eq_ok hss
  have hlt : ∀ s ∈ ss, s.handler < ctx.method.code.size := by
    intro s hs
    obtain ⟨r, -, hr⟩ := hspans s hs
    exact Code.labelAt?_lt (span_eq_ok hr).2.2.1
  have hnone := unreached_replicate ctx.method.code.size
  have hv₀ : Valid C ctx.method.code ctx.method.maxLocals.toNat
      { hierarchy := h, frames := Array.replicate ctx.method.code.size none } :=
    ⟨⟨hh, ⟨List.Pairwise.nil, by simp, by simp⟩⟩, by simp, fun i f hf => absurd hf (hnone i f),
      fun i f hf => absurd hf (hnone i f)⟩
  have hinv : Invariant C ctx.method.code ctx.method.maxLocals.toNat ss entry a₁ := by
    by_cases hsize : 0 < ctx.method.code.size
    · obtain ⟨hv₁, hg, hr⟩ : _ ∧ Grows C (fun _ _ => False) _ a₁ ∧ _ :=
        mergeInto_grows hsrc hv₀ hsize (known_entryFrame hentry []) (size_entryFrame hentry) hmerge
      refine ⟨hv₁, fun s hs d hd => ?_, fun _ => hr, fun i f hf hp => ?_⟩
      · rcases hg.copies s hs d hd with hfalse | ⟨s₀, hs₀, -⟩
        · exact hfalse.elim
        · simp at hs₀
      · rcases hg.fresh i f hf with ⟨g, hg⟩ | hpending
        · exact absurd hg (hnone i g)
        · exact absurd hpending hp
    · have ha₁ : a₁ = { hierarchy := h, frames := Array.replicate ctx.method.code.size none } := by
        obtain ⟨r, a₀, hr, hmerge⟩ := gives_bind.mp hmerge
        obtain ⟨rfl, rfl⟩ := gives_get.mp hr
        rw [Array.getElem?_eq_none (by simpa using hsize)] at hmerge
        exact (gives_pure.mp hmerge).2
      subst ha₁
      exact ⟨hv₀, fun s hs => by simp [types] at hs, fun hlt => absurd hlt hsize,
        fun i f hf => absurd hf (hnone i f)⟩
  obtain ⟨hinv', hpending⟩ := follow_invariant hsrc hlt hinv hfollow
  -- sorting the constructions keeps what is said about them
  have hmem : ∀ s, s ∈ a₂.sites.mergeSort (fun x y => x.newAt ≤ y.newAt) ↔ s ∈ a₂.sites := by
    intro s
    exact (List.mergeSort_perm _ _).mem_iff
  have hgrow : Site.Grow a₂.sites (a₂.sites.mergeSort fun x y => x.newAt ≤ y.newAt) :=
    fun s hs => ⟨s, (hmem s).mpr hs, rfl, rfl, id, fun _ h => h⟩
  refine ⟨⟨hinv'.valid.size, ?_, ?_, ?_, hinv'.valid.width, ?_, ?_, ?_⟩, hinv'.valid.sound.agrees⟩
  · refine ⟨?_, fun s hs => hinv'.valid.sound.sites.new_at s ((hmem s).mp hs),
      fun s hs => hinv'.valid.sound.sites.dup_at s ((hmem s).mp hs)⟩
    have hperm := List.mergeSort_perm a₂.sites fun x y => x.newAt ≤ y.newAt
    exact hperm.symm.pairwise hinv'.valid.sound.sites.distinct fun h => h.symm
  · intro s hs d hd
    obtain ⟨f, hf, hkept⟩ := hinv'.copies s ((hmem s).mp hs) d hd
    refine ⟨f, hf, ?_⟩
    rcases hkept with hp | htop
    · exact Or.inl (hp.grow hgrow)
    · exact Or.inr htop
  · exact fun i f hf => (hinv'.valid.known i f hf).grow hgrow
  · exact ⟨entry, hentry, fun hsize => (hinv'.entry hsize).perm hgrow⟩
  · intro r hr
    obtain ⟨s, -, hs⟩ := hranges r hr
    exact ⟨s, hs⟩
  · intro i f hf
    obtain ⟨instr, after, hs⟩ := hinv'.settled i f hf (by simp [hpending])
    exact ⟨instr, after, ss, hss, hs.perm hgrow⟩

end Analysis

end Suspension
