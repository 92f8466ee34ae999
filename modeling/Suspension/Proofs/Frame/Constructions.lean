import Suspension.Proofs.Frame.Invariants

/-!
# Where pending constructions lie

The two references of a construction that is not pinned have **one place each on the operand stack**:
the reference of `new` lies on what was on the stack before the `new`, and its copy lies right on top
of it.  No local holds them.  So the constructor call, which completes the construction, finds no
other reference to it.

This is a property of all frames at once, and it is kept when frames rise.  Such properties are kept
by the whole analysis.

* `FrameTypes.Rises` — frames and constructions only become more definite.
* `Analysis.Keeps`, `Analysis.run_keeps` — a property that rising and executing keep holds of all
  frames.
* `Code.Reached` — a position that control can come to; every frame is at one.
* `FrameTypes.Placed`, `Frame.Orderly`, `Analysis.run_orderly` — where pending slots lie.
-/

namespace Suspension

/-! ## Properties that rising frames keep -/

namespace FrameTypes

/-- **Types become more definite**: so do the constructions, and every frame has risen. -/
structure Rises (C : Classes) (T T' : FrameTypes) : Prop where
  sites : Site.Grow T.sites T'.sites
  frames : ∀ {i : Nat} {f : Frame}, T.frames[i]? = some (some f) →
    ∃ g, T'.frames[i]? = some (some g) ∧ Frame.Le C T'.sites f g

end FrameTypes

namespace Analysis

open Transfer

variable {C : Classes} {ctx : AnalysisContext} {code : Code} {width : Nat}
  {new : Nat → Nat → Prop} {a a' : Analysis}

lemma Grows.rises (h : Grows C new a a') : a.types.Rises C a'.types where
  sites := h.grow
  frames := by
    intro i f hf
    obtain ⟨g, hg, hle, -⟩ := h.frames i f hf
    exact ⟨g, hg, hle⟩

/-- **A property of positions and their frames that the analysis keeps**: it holds still when types
become more definite, it rises with the frame, and an instruction hands it on to its successors and
its handlers. -/
structure Keeps (C : Classes) (code : Code) (spans : List HandlerSpan)
    (P : FrameTypes → Nat → Frame → Prop) : Prop where
  types : ∀ {T T' : FrameTypes} {i : Nat} {f : Frame}, T.Rises C T' → P T i f → P T' i f
  frame : ∀ {T : FrameTypes} {i : Nat} {f g : Frame}, Frame.Le C T.sites f g → P T i f → P T i g
  handler : ∀ {T : FrameTypes} {i : Nat} {f : Frame} {s : HandlerSpan},
    T.frames[i]? = some (some f) → P T i f → s ∈ spans → s.start ≤ i → i < s.stop →
      P T s.handler ⟨f.locals, [.ref s.cls]⟩
  step : ∀ {T : FrameTypes} {i : Nat} {f after : Frame} {instr : Instruction},
    T.frames[i]? = some (some f) → P T i f → code[i]? = some instr →
    Frame.Transition T.sites i instr f after →
      (∀ s ∈ spans, s.start ≤ i → i < s.stop → P T s.handler ⟨after.locals, [.ref s.cls]⟩) ∧
      (∀ id ∈ instr.targets, ∀ t, code.labelAt? id = some t → P T t after) ∧
      (instr.opcode.endsBlock = false → i + 1 < code.size → P T (i + 1) after)

variable {P : FrameTypes → Nat → Frame → Prop} {ss : List HandlerSpan}

/-- The frames found so far are well formed and have a property. -/
structure AllHave (C : Classes) (code : Code) (width : Nat) (P : FrameTypes → Nat → Frame → Prop)
    (a : Analysis) : Prop where
  valid : Valid C code width a
  holds : ∀ {i : Nat} {f : Frame}, a.frames[i]? = some (some f) → P a.types i f

/-- What is merged must be a frame of the method with the property. -/
structure OffersHaving (code : Code) (width : Nat) (P : FrameTypes → Nat → Frame → Prop)
    (a : Analysis) (target : Nat) (f : Frame) : Prop where
  lt : target < code.size
  known : f.Known a.sites
  width : f.locals.size = width
  holds : P a.types target f

/-- Merging makes at most one frame where there was none. -/
lemma mergeInto_fresh (hsrc : ctx.source.Agrees C) (hv : Valid C code width a)
    {position target i : Nat} {f g : Frame} {u : Unit} (hw : f.locals.size = width)
    (h : Gives (mergeInto ctx position target f) a u a') (hg : a'.frames[i]? = some (some g)) :
    (∃ f₀, a.frames[i]? = some (some f₀)) ∨ (i = target ∧ g = f) := by
  have hset : ∀ {frames : Array (Option Frame)} {g₀ : Frame},
      (frames.set! target (some g₀))[i]? = some (some g) →
        (i = target ∧ g = g₀) ∨ frames[i]? = some (some g) := by
    intro frames g₀ hset
    rw [Array.set!_eq_setIfInBounds, Array.getElem?_setIfInBounds] at hset
    split at hset
    · next hi =>
        split at hset
        · cases hset
          exact Or.inl ⟨hi.symm, rfl⟩
        · cases hset
    · exact Or.inr hset
  rcases mergeInto_cases h with ⟨-, rfl⟩ | ⟨-, rfl⟩ | ⟨old, locals, stack, a₁, a₂, hold, hlen, hl, hs, h⟩
  · exact Or.inl ⟨g, hg⟩
  · rcases hset hg with heq | hg
    · exact Or.inr heq
    · exact Or.inl ⟨g, hg⟩
  · have hwold := hv.width target old hold
    obtain ⟨hl₁, -⟩ : Learns C code (fun _ _ => True) a a₁ ∧ _ :=
      mergeLocals_gives hsrc (by simp [hwold, hw]) hl
    obtain ⟨hl₂, -⟩ : Learns C code (fun _ _ => True) a₁ a₂ ∧ _ :=
      mergeStack_gives hsrc (by simp [hlen]) hs
    have hframes : a₂.frames = a.frames := hl₂.frames.trans hl₁.frames
    rcases h with ⟨-, rfl⟩ | ⟨-, rfl⟩
    · exact Or.inl ⟨g, hframes ▸ hg⟩
    · rcases hset hg with ⟨rfl, -⟩ | hg
      · exact Or.inl ⟨old, hold⟩
      · exact Or.inl ⟨g, hframes ▸ hg⟩

/-- **Merging keeps the property.** -/
lemma mergeInto_keeps (hsrc : ctx.source.Agrees C) (hP : Keeps C code ss P)
    {position target : Nat} {g : Frame} {u : Unit} (ha : AllHave C code width P a)
    (hg : OffersHaving code width P a target g)
    (h : Gives (mergeInto ctx position target g) a u a') :
    AllHave C code width P a' ∧
      ∀ t g', OffersHaving code width P a t g' → OffersHaving code width P a' t g' := by
  obtain ⟨hv, hgrows, -⟩ : _ ∧ Grows C (fun _ _ => True) a a' ∧ _ :=
    mergeInto_grows hsrc ha.valid hg.lt hg.known hg.width h
  have hrises := hgrows.rises
  refine ⟨⟨hv, fun {i f} hf => ?_⟩, fun t g' h' =>
    ⟨h'.lt, h'.known.grow hgrows.grow, h'.width, hP.types hrises h'.holds⟩⟩
  rcases mergeInto_fresh hsrc ha.valid hg.width h hf with ⟨f₀, hf₀⟩ | ⟨rfl, rfl⟩
  · obtain ⟨f₁, hf₁, hle⟩ := hrises.frames hf₀
    change a'.frames[i]? = some (some f₁) at hf₁
    rw [hf] at hf₁
    cases hf₁
    exact hP.frame hle (hP.types hrises (ha.holds hf₀))
  · exact hP.types hrises hg.holds

/-- Every position carries the property. -/
lemma carries_keeps (hsrc : ctx.source.Agrees C) (hP : Keeps C ctx.method.code ss P)
    (hspans : ∀ s ∈ ss, s.handler < ctx.method.code.size) (position : Nat) :
    Carries ctx ss position (AllHave C ctx.method.code width P)
      (OffersHaving ctx.method.code width P) where
  merge := fun ha hg h => mergeInto_keeps hsrc hP ha hg h
  before := by
    intro a f ha hf s hs hstart hstop
    have hwidth := ha.valid.width _ _ hf
    exact ⟨hspans s hs, known_handler (ha.valid.known _ _ hf) _, hwidth,
      hP.handler hf (ha.holds hf) hs hstart hstop⟩
  execute := by
    intro a a' f g instr ha hf hinstr h
    have hx := Frame.execute_transition (C := C) hinstr h
    have hkf := ha.valid.known _ _ hf
    have htr := hx.transition ha.valid.sound hkf
    have hrises := (hx.learns.grows ha.valid.sound).rises
    have hf' : a'.types.frames[position]? = some (some f) := by
      change a'.frames[position]? = _
      rw [hx.learns.frames]
      exact hf
    obtain ⟨hhandlers, htargets, hnext⟩ := hP.step hf' (hP.types hrises (ha.holds hf)) hinstr htr
    have hka := hx.known ha.valid.sound hkf
    have hwa : g.locals.size = width := by
      rw [htr.size_locals]
      exact ha.valid.width _ _ hf
    refine ⟨⟨hx.learns.valid ha.valid, fun {i f'} hi => ?_⟩, fun s hs hstart hstop => ?_,
      fun id hid t ht => ?_, fun hends hlt => ?_⟩
    · rw [hx.learns.frames] at hi
      exact hP.types hrises (ha.holds hi)
    · exact ⟨hspans s hs, known_handler hka _, hwa, hhandlers s hs hstart hstop⟩
    · exact ⟨Code.labelAt?_lt ht, hka, hwa, htargets id hid t ht⟩
    · exact ⟨hlt, hka, hwa, hnext hends hlt⟩

/-- **What the analysis keeps holds of all its frames**, if it holds at the entry. -/
theorem run_keeps (hsrc : ctx.source.Agrees C) {h h' : Hierarchy} (hh : h.Agrees C) {T : FrameTypes}
    (hrun : (run ctx).run h = (.ok T, h'))
    (hP : ∀ ss, spans ctx.method.code ctx.method.ranges 0 = .ok ss → Keeps C ctx.method.code ss P)
    (hentry : ∀ (T₀ : FrameTypes) (entry : Frame), entryFrame ctx.owner ctx.method = .ok entry →
      0 < ctx.method.code.size → P T₀ 0 entry) :
    ∀ {i : Nat} {f : Frame}, T.frames[i]? = some (some f) → P T i f := by
  obtain ⟨ss, entry, a₁, a₂, hss, hentry', hmerge, hfollow, rfl, rfl⟩ := run_eq_ok hrun
  have hP := hP ss hss
  have hspans : ∀ s ∈ ss, s.handler < ctx.method.code.size := by
    intro s hs
    obtain ⟨r, -, hr⟩ := (spans_eq_ok hss).2 s hs
    exact Code.labelAt?_lt (span_eq_ok hr).2.2.1
  have hstart : AllHave C ctx.method.code ctx.method.maxLocals.toNat P
      { hierarchy := h, frames := Array.replicate ctx.method.code.size none } := by
    have hnone := unreached_replicate ctx.method.code.size
    refine ⟨⟨⟨hh, ⟨List.Pairwise.nil, by simp, by simp⟩⟩, by simp, ?_, ?_⟩, fun {i f} hf => ?_⟩
    · exact fun i f hf => absurd hf (hnone i f)
    · exact fun i f hf => absurd hf (hnone i f)
    · exact absurd hf (hnone i f)
  have hfirst : AllHave C ctx.method.code ctx.method.maxLocals.toNat P a₁ := by
    by_cases hsize : 0 < ctx.method.code.size
    · exact (mergeInto_keeps hsrc hP hstart ⟨hsize, known_entryFrame hentry' [],
        size_entryFrame hentry', hentry _ _ hentry' hsize⟩ hmerge).1
    · rcases mergeInto_cases hmerge with ⟨-, rfl⟩ | ⟨hnone, -⟩ | ⟨old, _, _, _, _, hold, -⟩
      · exact hstart
      · rw [Array.getElem?_eq_none (by simpa using hsize)] at hnone
        cases hnone
      · rw [Array.getElem?_eq_none (by simpa using hsize)] at hold
        cases hold
  have hpending : ∀ {a : Analysis} (ps : List Nat),
      AllHave C ctx.method.code ctx.method.maxLocals.toNat P a →
        AllHave C ctx.method.code ctx.method.maxLocals.toNat P { a with pending := ps } :=
    fun ps ha => ⟨⟨⟨ha.valid.sound.agrees, ha.valid.sound.sites⟩, ha.valid.size, ha.valid.known,
      ha.valid.width⟩, ha.holds⟩
  have hlast := follow_keeps (carries_keeps hsrc hP hspans) hpending hfirst hfollow
  intro i f hf
  -- sorting the constructions keeps what is said about them
  have hsorted : a₂.types.Rises C
      ⟨a₂.frames, a₂.sites.mergeSort fun x y => x.newAt ≤ y.newAt⟩ :=
    ⟨fun s hs => ⟨s, (List.mergeSort_perm _ _).mem_iff.mpr hs, rfl, rfl, id, fun _ h => h⟩,
      fun {j g} hg => ⟨g, hg, .refl g⟩⟩
  exact hP.types hsorted (hlast.holds hf)

end Analysis

/-! ## Positions that control can come to -/

/-- **Control can come to a position**: it is the entry, or a successor or a handler of such a
position. -/
inductive Code.Reached (code : Code) (spans : List HandlerSpan) : Nat → Prop where
  | entry : Reached code spans 0
  | handler {i : Nat} {s : HandlerSpan} (h : Reached code spans i) (hs : s ∈ spans)
      (hstart : s.start ≤ i) (hstop : i < s.stop) : Reached code spans s.handler
  | target {i t : Nat} {instr : Instruction} {id : Label} (h : Reached code spans i)
      (hcode : code[i]? = some instr) (hid : id ∈ instr.targets) (ht : code.labelAt? id = some t) :
      Reached code spans t
  | next {i : Nat} {instr : Instruction} (h : Reached code spans i) (hcode : code[i]? = some instr)
      (hends : instr.opcode.endsBlock = false) : Reached code spans (i + 1)

/-! ## Descriptors of values -/

namespace Descriptor

/-- A field descriptor denotes a value. -/
lemma kind?_of_isField {s : Text} (h : isField s = true) : kind? s ≠ none := by
  unfold isField at h
  cases s with
  | nil => simp [splitField] at h
  | cons b rest =>
      -- a text that begins with the letter of void is no field descriptor
      by_cases hv : b = 0x56
      · subst hv
        simp [splitField, isBaseType] at h
      · simp only [kind?]
        split_ifs <;> simp_all

/-- **What a method returns is a value**, unless it is void. -/
lemma kind?_result {desc : Text} {d : Method} (h : parseMethod desc = .ok d)
    (hv : d.isVoid = false) : kind? d.result ≠ none := by
  unfold parseMethod at h
  split at h
  · split at h
    · cases h
    split at h
    · cases h
    · cases h
    split at h
    · next hresult =>
        cases h
        simp only [isResult, Bool.or_eq_true] at hresult
        rcases hresult with hvoid | hfield
        · simp only [Method.isVoid] at hv
          rw [hvoid] at hv
          cases hv
        · exact kind?_of_isField hfield
    · cases h
  · cases h

end Descriptor

/-! ## The places of pending slots -/

namespace FrameTypes

/-- **A slot may lie at a height of the operand stack.**  A pending construction that is not pinned lies
as high as the stack was before its `new`, and its copy, made by a known `dup`, one higher. -/
def Placed (T : FrameTypes) (height : Nat) : SlotType → Prop
  | .unusable => False
  | .pending n _ copied => Site.Pinned T.sites n ∨
      ((∃ f, T.frames[n]? = some (some f) ∧ height = f.stack.length + copied.toNat) ∧
        (copied = true → ∃ d, Site.CopiedAt T.sites n d))
  | _ => True

variable {C : Classes} {T T' : FrameTypes} {height : Nat} {t u : SlotType}

lemma Placed.rises (h : T.Placed height t) (hT : T.Rises C T') : T'.Placed height t := by
  cases t with
  | pending n cls copied =>
      rcases h with hp | ⟨⟨f, hf, hheight⟩, hcopied⟩
      · exact Or.inl (hp.grow hT.sites)
      · obtain ⟨g, hg, hle⟩ := hT.frames hf
        refine Or.inr ⟨⟨g, hg, hle.stack.length_eq ▸ hheight⟩, fun hc => ?_⟩
        obtain ⟨d, hd⟩ := hcopied hc
        exact ⟨d, hd.grow hT.sites⟩
  | _ => exact h

/-- A slot that rises stays in place. -/
lemma Placed.le (h : T.Placed height t) (hle : SlotType.Le C T.sites t u) : T.Placed height u := by
  rcases hle with rfl | ⟨-, c, d, -, rfl, -⟩
  · exact h
  · trivial

/-- A usable slot that may be used freely may lie anywhere. -/
lemma placed_of_free (hk : t.kind? ≠ none) (hf : Site.Free T.sites t) : T.Placed height t := by
  cases t with
  | unusable => exact absurd rfl hk
  | pending n cls copied => exact Or.inl hf
  | _ => trivial

lemma Placed.usable (h : T.Placed height t) : t.kind? ≠ none := by
  cases t with
  | unusable => exact h.elim
  | _ => simp [SlotType.kind?]

lemma Placed.completed (h : T.Placed height t) (n : Nat) : T.Placed height (Frame.completed n t) := by
  unfold Frame.completed
  split
  · split
    · trivial
    · exact h
  · exact h

/-- All slots of a stack, top first, lie where they may. -/
def AllPlaced (T : FrameTypes) : List SlotType → Prop
  | [] => True
  | t :: rest => T.Placed rest.length t ∧ AllPlaced T rest

lemma AllPlaced.rises {ts : List SlotType} (h : T.AllPlaced ts) (hT : T.Rises C T') :
    T'.AllPlaced ts := by
  induction ts with
  | nil => trivial
  | cons t ts ih => exact ⟨h.1.rises hT, ih h.2⟩

lemma AllPlaced.le {ts us : List SlotType} (h : T.AllPlaced ts)
    (hle : List.Forall₂ (SlotType.Le C T.sites) ts us) : T.AllPlaced us := by
  induction hle with
  | nil => trivial
  | cons htu hrest ih => exact ⟨hrest.length_eq ▸ h.1.le htu, ih h.2⟩

lemma AllPlaced.of_append {ts us : List SlotType} (h : T.AllPlaced (ts ++ us)) :
    T.AllPlaced us := by
  induction ts with
  | nil => exact h
  | cons t ts ih => exact ih h.2

lemma AllPlaced.append {ts us : List SlotType} (hts : ∀ t ∈ ts, t.kind? ≠ none ∧ Site.Free T.sites t)
    (hus : T.AllPlaced us) : T.AllPlaced (ts ++ us) := by
  induction ts with
  | nil => exact hus
  | cons t ts ih =>
      rw [List.forall_mem_cons] at hts
      exact ⟨placed_of_free hts.1.1 hts.1.2, ih hts.2⟩

lemma AllPlaced.map_completed {ts : List SlotType} (h : T.AllPlaced ts) (n : Nat) :
    T.AllPlaced (ts.map (Frame.completed n)) := by
  induction ts with
  | nil => trivial
  | cons t ts ih =>
      refine ⟨?_, ih h.2⟩
      rw [List.length_map]
      exact h.1.completed n

lemma AllPlaced.usable {ts : List SlotType} (h : T.AllPlaced ts) : ∀ t ∈ ts, t.kind? ≠ none := by
  induction ts with
  | nil => simp
  | cons t ts ih => exact List.forall_mem_cons.mpr ⟨h.1.usable, ih h.2⟩

end FrameTypes

namespace Frame

/-- **A frame in order**: every slot of its stack lies where it may, and its locals hold no
construction that may be left out. -/
structure Orderly (T : FrameTypes) (f : Frame) : Prop where
  stack : T.AllPlaced f.stack
  locals : ∀ t ∈ f.locals.toList, Site.Free T.sites t

/-- A field read names a value. -/
def ReadsValue (instr : Instruction) : Prop :=
  instr.opcode = .getStatic ∨ instr.opcode = .getField →
    ∀ m, instr.operand = .member m → Descriptor.kind? m.desc ≠ none

/-- What is no field access reads no field. -/
lemma readsValue_of_opcode {instr : Instruction}
    (h : instr.opcode ≠ .getStatic ∧ instr.opcode ≠ .getField) : ReadsValue instr := by
  rintro (hop | hop)
  · exact absurd hop h.1
  · exact absurd hop h.2

lemma free_ofDesc (sites : List Site) (desc : Text) : Site.Free sites (.ofDesc desc) := by
  unfold SlotType.ofDesc
  split <;> trivial

lemma kind?_ofDesc (desc : Text) : (SlotType.ofDesc desc).kind? = Descriptor.kind? desc := by
  unfold SlotType.ofDesc
  split <;> simp_all [SlotType.kind?]

variable {T : FrameTypes} {i : Nat} {instr : Instruction} {f g : Frame}

/-- A local that may be used freely may be so when it has risen. -/
lemma free_of_le {C : Classes} {sites : List Site} {ts us : List SlotType}
    (hle : List.Forall₂ (SlotType.LeLocal C sites) ts us) (hts : ∀ t ∈ ts, Site.Free sites t) :
    ∀ u ∈ us, Site.Free sites u := by
  induction hle with
  | nil => simp
  | @cons t u ts us htu _ ih =>
      rw [List.forall_mem_cons] at hts ⊢
      refine ⟨?_, ih hts.2⟩
      rcases htu with (rfl | ⟨-, c, d, -, rfl, -⟩) | ⟨-, rfl⟩
      · exact hts.1
      · trivial
      · trivial

/-- **What an instruction puts on the stack** it has found there or in a local, or it is no pending
construction. -/
lemma Shape.forall_put {P : SlotType → Prop} (hP : ∀ t, (∀ n cls copied, t ≠ .pending n cls copied) → P t)
    {locals : Array SlotType} {used put : List SlotType} (h : Shape instr locals used put)
    (hused : ∀ t ∈ used, P t) (hlocals : ∀ t ∈ locals.toList, P t) : ∀ t ∈ put, P t := by
  have hofDesc : ∀ desc, P (.ofDesc desc) := by
    refine fun desc => hP _ fun n cls copied => ?_
    unfold SlotType.ofDesc
    split <;> simp
  cases h with
  | load _ _ ht _ =>
      obtain ⟨hlt, rfl⟩ := Array.getElem?_eq_some_iff.mp ht
      simpa using hlocals _ (Array.getElem_mem_toList hlt)
  | element =>
      simp only [List.mem_singleton, forall_eq, elementType]
      split
      · exact hofDesc _
      · exact hP _ (by simp)
  | cast =>
      simp only [List.mem_singleton, forall_eq]
      split
      · exact hused _ (List.mem_singleton_self _)
      · exact hP _ (by simp)
  | getStatic => simpa using hofDesc _
  | getField => simpa using hofDesc _
  | call =>
      split
      · simp
      · simpa using hofDesc _
  | fixed =>
      intro t ht
      obtain ⟨k, -, rfl⟩ := List.mem_map.mp (List.mem_reverse.mp ht)
      exact hP _ (by cases k <;> simp [SlotType.ofKind])
  | null | text | array | refArray => simpa using hP _ (by simp [SlotType.null])
  | idle | increment | pop | pop2 | putStatic | putField => simp
  | dup | dupX1 | dupX2 | dup2 | swap => simp_all

/-- What an instruction puts on the stack may be used freely, if that is so of what it finds. -/
lemma Shape.free {sites : List Site} {locals : Array SlotType} {used put : List SlotType}
    (h : Shape instr locals used put) (hused : ∀ t ∈ used, Site.Free sites t)
    (hlocals : ∀ t ∈ locals.toList, Site.Free sites t) : ∀ t ∈ put, Site.Free sites t := by
  refine h.forall_put (fun t ht => ?_) hused hlocals
  cases t with
  | pending n cls copied => exact absurd rfl (ht n cls copied)
  | _ => trivial

/-- **What an instruction puts on the stack is usable.** -/
lemma Shape.usable {locals : Array SlotType} {used put : List SlotType}
    (h : Shape instr locals used put) (hreads : ReadsValue instr)
    (hused : ∀ t ∈ used, t.kind? ≠ none) : ∀ t ∈ put, t.kind? ≠ none := by
  cases h with
  | load _ _ _ hk => simp [hk]
  | element =>
      simp only [List.mem_singleton, forall_eq, elementType]
      split
      · next hk =>
          rw [kind?_ofDesc]
          simp_all
      · simp [SlotType.kind?]
  | cast =>
      simp only [List.mem_singleton, forall_eq]
      split
      · exact hused _ (List.mem_singleton_self _)
      · simp [SlotType.kind?]
  | getStatic hop ho =>
      simp only [List.mem_singleton, forall_eq, kind?_ofDesc]
      exact hreads (Or.inl hop) _ ho
  | getField hop ho =>
      simp only [List.mem_singleton, forall_eq, kind?_ofDesc]
      exact hreads (Or.inr hop) _ ho
  | call hop ho hd =>
      split
      · simp
      · next hv =>
          simp only [List.mem_singleton, forall_eq, kind?_ofDesc]
          exact Descriptor.kind?_result hd (by simpa using hv)
  | fixed =>
      intro t ht
      obtain ⟨k, -, rfl⟩ := List.mem_map.mp (List.mem_reverse.mp ht)
      cases k <;> simp [SlotType.ofKind, SlotType.kind?]
  | null | text | array | refArray => simp [SlotType.null, SlotType.kind?]
  | idle | increment | pop | pop2 | putStatic | putField => simp
  | dup | dupX1 | dupX2 | dup2 | swap => simp_all

/-- **An instruction leaves a usable stack usable.** -/
lemma Transition.usable_stack {sites : List Site} (h : Transition sites i instr f g)
    (hreads : ReadsValue instr) (husable : ∀ t ∈ f.stack, t.kind? ≠ none) : ∀ t ∈ g.stack, t.kind? ≠ none := by
  cases h with
  | plain hs shape free =>
      rw [hs, List.forall_mem_append] at husable
      exact List.forall_mem_append.mpr ⟨shape.usable hreads husable.1, husable.2⟩
  | store _ _ hs =>
      rw [hs, List.forall_mem_cons] at husable
      exact husable.2
  | begin | copy => exact List.forall_mem_cons.mpr ⟨by simp [SlotType.kind?], husable⟩
  | @construct m d args rest n cls copied _ _ _ hd hs =>
      rw [hs, List.forall_mem_append, List.forall_mem_cons] at husable
      refine List.forall_mem_append.mpr ⟨fun t ht => ?_, fun t ht => ?_⟩
      · split at ht
        · cases ht
        · next hv =>
            obtain rfl := List.mem_singleton.mp ht
            rw [kind?_ofDesc]
            exact Descriptor.kind?_result hd (by simpa using hv)
      · obtain ⟨u, hu, rfl⟩ := List.mem_map.mp ht
        have := husable.2.2 u hu
        unfold completed
        split
        · split <;> simp [SlotType.kind?]
        · exact this

/-- **An instruction keeps a frame in order.** -/
lemma Transition.orderly (h : Transition T.sites i instr f g) (hf : T.frames[i]? = some (some f))
    (hreads : ReadsValue instr) (ho : f.Orderly T) : g.Orderly T := by
  have hstack := ho.stack
  cases h with
  | plain hs shape free =>
      rw [hs] at hstack
      have hused := fun t ht => hstack.usable t (List.mem_append_left _ ht)
      refine ⟨.append (fun t ht => ⟨?_, ?_⟩) hstack.of_append, ho.locals⟩
      · exact shape.usable hreads hused t ht
      · exact shape.free free ho.locals t ht
  | store _ _ hs _ _ free =>
      rw [hs] at hstack
      refine ⟨hstack.2, fun t ht => ?_⟩
      rw [Array.set!_eq_setIfInBounds, Array.toList_setIfInBounds] at ht
      rcases List.mem_or_eq_of_mem_set ht with ht | rfl
      · exact ho.locals t ht
      · exact free
  | begin => exact ⟨⟨Or.inr ⟨⟨f, hf, rfl⟩, by simp⟩, hstack⟩, ho.locals⟩
  | copy _ hs hc =>
      refine ⟨⟨?_, hstack⟩, ho.locals⟩
      rw [hs] at hstack
      rcases hstack.1 with hp | ⟨⟨f₀, hf₀, hheight⟩, -⟩
      · exact Or.inl hp
      · refine Or.inr ⟨⟨f₀, hf₀, ?_⟩, fun _ => ⟨i, hc⟩⟩
        rw [hs, List.length_cons, hheight]
        rfl
  | @construct m d args rest n cls copied _ _ _ hd hs _ _ _ =>
      rw [hs] at hstack
      have hrest : T.AllPlaced rest := (FrameTypes.AllPlaced.of_append hstack).2
      refine ⟨.append (fun t ht => ?_) (hrest.map_completed n), fun t ht => ?_⟩
      · split at ht
        · cases ht
        · next hv =>
            obtain rfl := List.mem_singleton.mp ht
            rw [kind?_ofDesc]
            exact ⟨Descriptor.kind?_result hd (by simpa using hv), free_ofDesc _ _⟩
      · rw [Array.toList_map] at ht
        obtain ⟨u, hu, rfl⟩ := List.mem_map.mp ht
        have := ho.locals u hu
        unfold completed
        split
        · split
          · trivial
          · exact this
        · exact this

end Frame

namespace Analysis

variable {C : Classes} {ctx : AnalysisContext}

/-- **What the analysis keeps about pending constructions**: control comes to the position, and its
frame is in order. -/
lemma keeps_orderly {code : Code} {ss : List HandlerSpan}
    (hreads : ∀ instr ∈ code.toList, Frame.ReadsValue instr) :
    Keeps C code ss fun T i f => code.Reached ss i ∧ f.Orderly T where
  types := by
    rintro T T' i f hT ⟨hr, ho⟩
    exact ⟨hr, ho.stack.rises hT, fun t ht => (ho.locals t ht).grow hT.sites⟩
  frame := by
    rintro T i f g hle ⟨hr, ho⟩
    exact ⟨hr, ho.stack.le hle.stack, Frame.free_of_le hle.locals ho.locals⟩
  handler := by
    rintro T i f s - ⟨hr, ho⟩ hs hstart hstop
    exact ⟨.handler hr hs hstart hstop, ⟨trivial, trivial⟩, ho.locals⟩
  step := by
    rintro T i f after instr hf ⟨hr, ho⟩ hcode htr
    have hafter := htr.orderly hf
      (hreads instr (Array.mem_toList_iff.mpr (Array.mem_of_getElem? hcode))) ho
    refine ⟨fun s hs hstart hstop => ⟨.handler hr hs hstart hstop, ⟨trivial, trivial⟩, hafter.locals⟩,
      fun id hid t ht => ⟨.target hr hcode hid ht, hafter⟩,
      fun hends _ => ⟨.next hr hcode hends, hafter⟩⟩

/-- The frame at the entry is in order. -/
lemma orderly_entryFrame {owner : Text} {m : Method} {f : Frame} (h : entryFrame owner m = .ok f)
    (T : FrameTypes) : f.Orderly T := by
  obtain ⟨d, -, -, rfl⟩ := entryFrame_eq_ok h
  refine ⟨trivial, fun t ht => ?_⟩
  simp only [givenSlots, List.mem_append, List.mem_map, List.mem_replicate] at ht
  rcases ht with (ht | ⟨desc, -, rfl⟩) | ⟨-, rfl⟩
  · split at ht
    · simp at ht
    · obtain rfl := List.mem_singleton.mp ht
      trivial
  · exact Frame.free_ofDesc _ desc
  · trivial

/-- **All frames of an analysis are in order, and control can come to their positions**, if the field
reads of the method name values. -/
theorem run_orderly {h h' : Hierarchy} {T : FrameTypes} {ss : List HandlerSpan}
    (hreads : ∀ instr ∈ ctx.method.code.toList, Frame.ReadsValue instr)
    (hrun : (run ctx).run h = (.ok T, h'))
    (hss : spans ctx.method.code ctx.method.ranges 0 = .ok ss) :
    ∀ {i : Nat} {f : Frame}, T.frames[i]? = some (some f) →
      ctx.method.code.Reached ss i ∧ f.Orderly T := by
  refine run_keeps (P := fun T i f => ctx.method.code.Reached ss i ∧ f.Orderly T)
    ctx.source.agrees_empty h.agrees_empty hrun (fun ss' hss' => ?_)
    fun T₀ entry hentry _ => ⟨.entry, orderly_entryFrame hentry T₀⟩
  rw [hss] at hss'
  cases hss'
  exact keeps_orderly hreads

end Analysis

end Suspension
