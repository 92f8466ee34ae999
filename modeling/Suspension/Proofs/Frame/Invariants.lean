import Suspension.Proofs.Code.Validity
import Suspension.Proofs.Frame.Lasting
import Suspension.Proofs.Frame.Settled
import Suspension.Proofs.Text.Descriptor

/-!
# Invariants of the frame analysis

What the analysis does to its state it does by steps of two kinds: an instruction is executed, and a
frame is merged into a position.  **A property of the state that both keep is kept by the whole
analysis.**  The frames that are merged are those that an instruction *offers* to its successors and
handlers.

The first such property is about the class names in frames.  They come from the instructions of the method,
from its descriptor and its ranges, and from the superclasses in class files.  A property that all of these
have, and that arrays and their elements share, **holds of the classes of all references** — for one, that
the name is not empty.

* `Analysis.Carries` — what has to be shown of one position.
* `Analysis.follow_keeps` — what the loop keeps.
* `ClassName.Lawful`, `Method.Brings` — the properties of class names in question.
* `Frame.Names`, `Analysis.run_names` — the classes of all references have such a property.
-/

namespace Suspension

namespace Analysis

open Transfer

variable {ctx : AnalysisContext} {spans : List HandlerSpan} {position : Nat} {I : Analysis → Prop}
  {Offer : Analysis → Nat → Frame → Prop} {a a' : Analysis}

/-- **A property of the state is carried past a position.**  `Offer` is what is known of a frame that
is about to be merged; it may rest on the state, but not on what merging changes. -/
structure Carries (ctx : AnalysisContext) (spans : List HandlerSpan) (position : Nat)
    (I : Analysis → Prop) (Offer : Analysis → Nat → Frame → Prop) : Prop where
  merge : ∀ {a a' : Analysis} {target : Nat} {g : Frame} {u : Unit}, I a → Offer a target g →
    Gives (mergeInto ctx position target g) a u a' →
      I a' ∧ ∀ t g', Offer a t g' → Offer a' t g'
  before : ∀ {a : Analysis} {f : Frame}, I a → a.frames[position]? = some (some f) →
    ∀ s ∈ spans, s.start ≤ position → position < s.stop →
      Offer a s.handler ⟨f.locals, [.ref s.cls]⟩
  execute : ∀ {a a' : Analysis} {f g : Frame} {instr : Instruction}, I a →
    a.frames[position]? = some (some f) → ctx.method.code[position]? = some instr →
    Gives (f.execute ctx position instr) a g a' →
      I a' ∧ (∀ s ∈ spans, s.start ≤ position → position < s.stop →
        Offer a' s.handler ⟨g.locals, [.ref s.cls]⟩)
      ∧ (∀ id ∈ instr.targets, ∀ t, ctx.method.code.labelAt? id = some t → Offer a' t g)
      ∧ (instr.opcode.endsBlock = false → position + 1 < ctx.method.code.size →
        Offer a' (position + 1) g)

section Merging

variable (hmerge : ∀ {a a' : Analysis} {target : Nat} {g : Frame} {u : Unit}, I a → Offer a target g →
    Gives (mergeInto ctx position target g) a u a' → I a' ∧ ∀ t g', Offer a t g' → Offer a' t g')
  (hbefore : ∀ {a : Analysis} {f : Frame}, I a → a.frames[position]? = some (some f) →
    ∀ s ∈ spans, s.start ≤ position → position < s.stop → Offer a s.handler ⟨f.locals, [.ref s.cls]⟩)

include hmerge hbefore in
lemma reachHandlers_keeps {after : Frame} {u : Unit}
    {rest : List HandlerSpan} (hrest : ∀ s ∈ rest, s ∈ spans) (ha : I a)
    (hafter : ∀ s ∈ spans, s.start ≤ position → position < s.stop →
      Offer a s.handler ⟨after.locals, [.ref s.cls]⟩)
    (h : Gives (reachHandlers ctx position after rest) a u a') :
    I a' ∧ ∀ t g, Offer a t g → Offer a' t g := by
  induction rest generalizing a with
  | nil =>
      obtain ⟨-, rfl⟩ := gives_pure.mp h
      exact ⟨ha, fun _ _ hg => hg⟩
  | cons s rest ih =>
      have hrest' := fun t ht => hrest t (List.mem_cons_of_mem s ht)
      unfold reachHandlers at h
      split at h
      · next hcover =>
          simp only [Bool.and_eq_true, decide_eq_true_eq] at hcover
          have hs := hrest s List.mem_cons_self
          obtain ⟨r, a₀, hr, h⟩ := gives_bind.mp h
          obtain ⟨rfl, rfl⟩ := frameAt_gives hr
          split at h
          · obtain ⟨-, rfl⟩ := gives_pure.mp h
            exact ⟨ha, fun _ _ hg => hg⟩
          next before hat =>
          obtain ⟨_, a₁, hm₁, h⟩ := gives_bind.mp h
          obtain ⟨_, a₂, hm₂, h⟩ := gives_bind.mp h
          obtain ⟨ha₁, hkeep₁⟩ := hmerge ha
            (hbefore ha (Option.join_eq_some_iff.mp hat) s hs hcover.1 hcover.2) hm₁
          obtain ⟨ha₂, hkeep₂⟩ := hmerge ha₁ (hkeep₁ _ _ (hafter s hs hcover.1 hcover.2)) hm₂
          obtain ⟨ha', hkeep⟩ := ih hrest' ha₂
            (fun t ht h₁ h₂ => hkeep₂ _ _ (hkeep₁ _ _ (hafter t ht h₁ h₂))) h
          exact ⟨ha', fun t g hg => hkeep t g (hkeep₂ t g (hkeep₁ t g hg))⟩
      · exact ih hrest' ha hafter h

include hmerge in
lemma reachTargets_keeps {after : Frame} {u : Unit} {ids : List Label} (ha : I a)
    (hafter : ∀ id ∈ ids, ∀ t, ctx.method.code.labelAt? id = some t → Offer a t after)
    (h : Gives (reachTargets ctx position after ids) a u a') :
    I a' ∧ ∀ t g, Offer a t g → Offer a' t g := by
  induction ids generalizing a with
  | nil =>
      obtain ⟨-, rfl⟩ := gives_pure.mp h
      exact ⟨ha, fun _ _ hg => hg⟩
  | cons id ids ih =>
      unfold reachTargets at h
      split at h
      · simp at h
      next t ht =>
      obtain ⟨_, a₁, hm, h⟩ := gives_bind.mp h
      obtain ⟨ha₁, hkeep₁⟩ := hmerge ha (hafter id List.mem_cons_self t ht) hm
      obtain ⟨ha', hkeep⟩ := ih ha₁
        (fun id' hid' t' ht' => hkeep₁ _ _ (hafter id' (List.mem_cons_of_mem _ hid') t' ht')) h
      exact ⟨ha', fun t' g hg => hkeep t' g (hkeep₁ t' g hg)⟩

include hmerge hbefore in
/-- **Following an instruction keeps what merging keeps**, if executing it on the frame at its position
does. -/
lemma step_keeps_from {u : Unit} (ha : I a)
    (hexecute : ∀ {a' : Analysis} {f g : Frame} {instr : Instruction}, a.frames[position]? = some (some f) →
      ctx.method.code[position]? = some instr → Gives (f.execute ctx position instr) a g a' →
        I a' ∧ (∀ s ∈ spans, s.start ≤ position → position < s.stop →
          Offer a' s.handler ⟨g.locals, [.ref s.cls]⟩)
        ∧ (∀ id ∈ instr.targets, ∀ t, ctx.method.code.labelAt? id = some t → Offer a' t g)
        ∧ (instr.opcode.endsBlock = false → position + 1 < ctx.method.code.size → Offer a' (position + 1) g))
    (h : Gives (step ctx spans position) a u a') : I a' := by
  obtain ⟨r, a₀, hr, h⟩ := gives_bind.mp h
  obtain ⟨rfl, rfl⟩ := frameAt_gives hr
  split at h
  case h_2 =>
    obtain ⟨-, rfl⟩ := gives_pure.mp h
    exact ha
  next instr f hinstr hf =>
  obtain ⟨after, a₁, hexec, h⟩ := gives_bind.mp h
  obtain ⟨_, a₂, hhandlers, h⟩ := gives_bind.mp h
  obtain ⟨_, a₃, htargets, h⟩ := gives_bind.mp h
  obtain ⟨ha₁, hspans, hids, hnext⟩ := hexecute (Option.join_eq_some_iff.mp hf) hinstr hexec
  obtain ⟨ha₂, hkeep₂⟩ := reachHandlers_keeps hmerge hbefore (fun _ hs => hs) ha₁ hspans hhandlers
  obtain ⟨ha₃, hkeep₃⟩ := reachTargets_keeps hmerge ha₂
    (fun id hid t ht => hkeep₂ _ _ (hids id hid t ht)) htargets
  split at h
  · obtain ⟨-, rfl⟩ := gives_pure.mp h
    exact ha₃
  next hends =>
  split at h
  · simp at h
  next hsize =>
  exact (hmerge ha₃ (hkeep₃ _ _ (hkeep₂ _ _ (hnext (by simpa using hends) (by omega)))) h).1

end Merging

/-- **Following an instruction keeps what is carried past its position.** -/
lemma step_keeps (hc : Carries ctx spans position I Offer) {u : Unit} (ha : I a)
    (h : Gives (step ctx spans position) a u a') : I a' :=
  step_keeps_from hc.merge hc.before ha (fun hf hinstr hexec => hc.execute ha hf hinstr hexec) h

/-- **The loop keeps what is carried past every position.** -/
lemma follow_keeps (hc : ∀ position, Carries ctx spans position I Offer)
    (hpending : ∀ {a : Analysis} (ps : List Nat), I a → I { a with pending := ps })
    (ha : I a) (h : follow ctx spans a = some (.ok (), a')) : I a' := by
  let motive (a : Analysis) (r : Ending) : Prop := I a → r.1 = .ok () → I r.2
  refine follow_induction (motive := motive) ?_ ?_ ?_ h ha rfl
  · exact fun a _ ha _ => ha
  · exact fun a i rest e a' _ _ _ hok => by cases hok
  · exact fun a i rest a' r _ hstep ih ha => ih (step_keeps (hc i) (hpending rest ha) hstep)

end Analysis

/-! ## Class names -/

/-- **A property of class names that the analysis can rely on**: the classes that are always there have it,
elements of arrays that have it, and the superclasses in class files. -/
structure ClassName.Lawful (P : Text → Prop) : Prop where
  null : P ClassName.null
  object : P ClassName.object
  string : P ClassName.string
  throwable : P ClassName.throwable
  element : ∀ {arr : Text}, P arr → Descriptor.kind? (Descriptor.element arr) = some .ref →
    P (Descriptor.classOf (Descriptor.element arr))
  files : Hierarchy.OfFiles P

variable {P : Text → Prop}

/-- A slot that holds references knows their class by a name that has a property. -/
def SlotType.Names (P : Text → Prop) (t : SlotType) : Prop := t.kind? = some .ref → P t.typeName

/-- **The class names that an instruction brings into a frame** have a property. -/
structure Instruction.Brings (P : Text → Prop) (instr : Instruction) : Prop where
  type : ∀ cls, instr.operand = .type cls → instr.opcode = .new ∨ instr.opcode = .checkCast → P cls
  array : ∀ cls, instr.operand = .type cls →
    P (Text.ofString "[" ++ cls) ∧ P (Text.ofString "[" ++ Descriptor.ofClass cls)
  field : ∀ m, instr.operand = .member m → (SlotType.ofDesc m.desc).Names P
  result : ∀ m d, instr.operand = .member m → Descriptor.parseMethod m.desc = .ok d →
    (SlotType.ofDesc d.result).Names P

/-- **The class names that a method brings into its frames** have a property. -/
structure Method.Brings (P : Text → Prop) (owner : Text) (m : Method) : Prop where
  owner : P owner
  params : ∀ d, Descriptor.parseMethod m.desc = .ok d → ∀ p ∈ d.params, (SlotType.ofDesc p).Names P
  code : ∀ instr ∈ m.code.toList, instr.Brings P
  ranges : ∀ r ∈ m.ranges, r.type ≠ [] → P r.type

namespace SlotType

lemma names_ref {cls : Text} (h : P cls) : Names P (.ref cls) := fun _ => h

lemma names_ofKind (hP : P ClassName.object) (k : Kind) : Names P (.ofKind k) := by
  cases k with
  | ref => exact names_ref hP
  | _ => simp [Names, ofKind, kind?]

/-- What a descriptor denotes is a class only if the descriptor does. -/
lemma names_ofDesc {desc : Text}
    (h : Descriptor.kind? desc = some .ref → P (Descriptor.classOf desc)) : Names P (.ofDesc desc) := by
  unfold ofDesc
  split
  case h_5 hkind => exact names_ref (h hkind)
  all_goals simp [Names, kind?]

lemma Names.settle {t : SlotType} (h : t.Names P) : (Analysis.settle t).Names P := by
  cases t <;> exact h

lemma Names.completed {t : SlotType} (h : t.Names P) (n : Nat) : (Frame.completed n t).Names P := by
  unfold Frame.completed
  split
  · split
    · exact h
    · exact h
  · exact h

end SlotType

namespace Frame

/-- **The classes of all references of a frame** have names with a property. -/
def Names (P : Text → Prop) (f : Frame) : Prop :=
  (∀ t ∈ f.stack, t.Names P) ∧ ∀ t ∈ f.locals.toList, t.Names P

variable {instr : Instruction}

lemma names_elementType (hP : ClassName.Lawful P) {arr : SlotType} (hkind : arr.kind? = some .ref)
    (harr : arr.Names P) : (elementType arr).Names P := by
  unfold elementType
  simp only
  split
  · exact SlotType.names_ofDesc (hP.element (harr hkind))
  · exact SlotType.names_ref hP.object

/-- **What an instruction puts on the stack** names such classes. -/
lemma Shape.names (hP : ClassName.Lawful P) {locals : Array SlotType} {used put : List SlotType}
    (h : Shape instr locals used put) (hinstr : instr.Brings P) (hused : ∀ t ∈ used, t.Names P)
    (hlocals : ∀ t ∈ locals.toList, t.Names P) : ∀ t ∈ put, t.Names P := by
  cases h with
  | null =>
      have hnull : SlotType.null.Names P := SlotType.names_ref hP.null
      simpa using hnull
  | text => simpa using SlotType.names_ref hP.string
  | load _ _ ht _ =>
      obtain ⟨hlt, rfl⟩ := Array.getElem?_eq_some_iff.mp ht
      simpa using hlocals _ (Array.getElem_mem_toList hlt)
  | element _ _ ha => simpa using names_elementType hP ha (hused _ (by simp))
  | array _ ho _ => simpa using SlotType.names_ref (hinstr.array _ ho).1
  | refArray _ ho _ => simpa using SlotType.names_ref (hinstr.array _ ho).2
  | cast hcast ho _ =>
      simp only [List.mem_singleton, forall_eq]
      split
      · exact hused _ (List.mem_singleton_self _)
      · exact SlotType.names_ref (hinstr.type _ ho (Or.inr hcast))
  | getStatic _ ho => simpa using hinstr.field _ ho
  | getField _ ho _ => simpa using hinstr.field _ ho
  | call _ ho hd _ _ =>
      split
      · simp
      · simpa using hinstr.result _ _ ho hd
  | fixed =>
      intro t ht
      obtain ⟨k, -, rfl⟩ := List.mem_map.mp (List.mem_reverse.mp ht)
      exact SlotType.names_ofKind hP.object k
  | idle | increment | pop | pop2 | putStatic | putField => simp
  | dup | dupX1 | dupX2 | dup2 | swap => simp_all

/-- **An instruction keeps the property of class names.** -/
lemma Transition.names (hP : ClassName.Lawful P) {sites : List Site} {position : Nat} {f g : Frame}
    (h : Transition sites position instr f g) (hinstr : instr.Brings P) (hf : f.Names P) :
    g.Names P := by
  obtain ⟨hstack, hlocals⟩ := hf
  cases h with
  | plain hs shape _ =>
      rw [hs] at hstack
      rw [List.forall_mem_append] at hstack
      refine ⟨?_, hlocals⟩
      exact List.forall_mem_append.mpr ⟨shape.names hP hinstr hstack.1 hlocals, hstack.2⟩
  | store _ _ hs _ _ _ =>
      rw [hs, List.forall_mem_cons] at hstack
      refine ⟨hstack.2, fun t ht => ?_⟩
      rw [Array.set!_eq_setIfInBounds, Array.toList_setIfInBounds] at ht
      rcases List.mem_or_eq_of_mem_set ht with ht | rfl
      · exact hlocals t ht
      · exact hstack.1
  | begin hnew ho =>
      exact ⟨List.forall_mem_cons.mpr ⟨fun _ => hinstr.type _ ho (Or.inl hnew), hstack⟩, hlocals⟩
  | copy _ hs _ =>
      refine ⟨List.forall_mem_cons.mpr ⟨?_, hstack⟩, hlocals⟩
      rw [hs, List.forall_mem_cons] at hstack
      exact hstack.1
  | construct _ ho _ hd hs _ _ _ =>
      rw [hs, List.forall_mem_append, List.forall_mem_cons] at hstack
      refine ⟨List.forall_mem_append.mpr ⟨?_, ?_⟩, ?_⟩
      · split
        · simp
        · simpa using hinstr.result _ _ ho hd
      · intro t ht
        obtain ⟨u, hu, rfl⟩ := List.mem_map.mp ht
        exact (hstack.2.2 u hu).completed _
      · intro t ht
        rw [Array.toList_map] at ht
        obtain ⟨u, hu, rfl⟩ := List.mem_map.mp ht
        exact (hlocals u hu).completed _

end Frame

namespace Analysis

open Transfer

variable {ctx : AnalysisContext} {a a' : Analysis} {position : Nat}

section Merging

variable (hP : ClassName.Lawful P)
include hP

/-- Slots that name such classes meet in one that does. -/
lemma merge_names {t u r : SlotType} {onStack : Bool} (ha : a.hierarchy.SupersAre P)
    (ht : t.Names P) (hu : u.Names P) (h : Gives (merge ctx position t u onStack) a r a') :
    r.Names P := by
  have hlasting : Hierarchy.Lasting ctx.source (Hierarchy.Holding (Hierarchy.SupersAre P)) :=
    Hierarchy.lasting_supersAre hP.files
  unfold merge at h
  split at h
  · obtain ⟨rfl, -⟩ := gives_pure.mp h
    exact ht
  obtain ⟨_, a₁, hpin₁, h⟩ := gives_bind.mp h
  obtain ⟨_, a₂, hpin₂, h⟩ := gives_bind.mp h
  have ha₁ := (respects_pinSlot hlasting _ _ _).gives hpin₁ ha
  have ha₂ := (respects_pinSlot hlasting _ _ _).gives hpin₂ ha₁
  simp only at h
  split at h
  · obtain ⟨rfl, -⟩ := gives_pure.mp h
    exact ht.settle
  split at h
  · next ct cu hct hcu =>
      split at h
      · obtain ⟨rfl, -⟩ := gives_pure.mp h
        exact hu.settle
      split at h
      · obtain ⟨rfl, -⟩ := gives_pure.mp h
        exact ht.settle
      obtain ⟨sup, a₃, hask, h⟩ := gives_bind.mp h
      split at h
      · next c =>
          obtain ⟨rfl, -⟩ := gives_pure.mp h
          have hname : P ct := by
            have := ht.settle
            rw [hct] at this
            exact this rfl
          exact SlotType.names_ref
            (Hierarchy.commonSuper_of hP.files hP.object ha₂ hname (ask_gives hask).1.symm)
      · obtain ⟨rfl, -⟩ := gives_pure.mp h
        exact SlotType.names_ref hP.object
  · split at h
    · simp at h
    · obtain ⟨rfl, -⟩ := gives_pure.mp h
      simp [SlotType.Names, SlotType.kind?]

lemma mergeLocals_names {ts us rs : List SlotType} (ha : a.hierarchy.SupersAre P)
    (ht : ∀ t ∈ ts, t.Names P) (hu : ∀ t ∈ us, t.Names P)
    (h : Gives (mergeLocals ctx position ts us) a rs a') : ∀ t ∈ rs, t.Names P := by
  induction ts generalizing us rs a with
  | nil =>
      obtain ⟨rfl, -⟩ := gives_pure.mp h
      exact ht
  | cons t ts ih =>
      cases us with
      | nil =>
          obtain ⟨rfl, -⟩ := gives_pure.mp h
          exact ht
      | cons u us =>
          rw [List.forall_mem_cons] at ht hu
          obtain ⟨r, a₁, hmerge, h⟩ := gives_bind.mp h
          obtain ⟨rs', a₂, hrest, h⟩ := gives_bind.mp h
          obtain ⟨rfl, rfl⟩ := gives_pure.mp h
          have ha₁ := (respects_merge (Hierarchy.lasting_supersAre hP.files) _ _ _ _).gives hmerge ha
          exact List.forall_mem_cons.mpr
            ⟨merge_names hP ha ht.1 hu.1 hmerge, ih ha₁ ht.2 hu.2 hrest⟩

lemma mergeStack_names {target slot : Nat} {ts us rs : List SlotType}
    (ha : a.hierarchy.SupersAre P) (ht : ∀ t ∈ ts, t.Names P) (hu : ∀ t ∈ us, t.Names P)
    (h : Gives (mergeStack ctx position target slot ts us) a rs a') : ∀ t ∈ rs, t.Names P := by
  induction ts generalizing us rs a slot with
  | nil =>
      obtain ⟨rfl, -⟩ := gives_pure.mp h
      exact ht
  | cons t ts ih =>
      cases us with
      | nil =>
          obtain ⟨rfl, -⟩ := gives_pure.mp h
          exact ht
      | cons u us =>
          rw [List.forall_mem_cons] at ht hu
          obtain ⟨r, a₁, hmerge, h⟩ := gives_bind.mp h
          obtain ⟨rs', a₂, hrest, h⟩ := gives_bind.mp h
          obtain ⟨rfl, rfl⟩ := gives_pure.mp h
          have hmerge := gives_adapt.mp hmerge
          have ha₁ := (respects_merge (Hierarchy.lasting_supersAre hP.files) _ _ _ _).gives hmerge ha
          exact List.forall_mem_cons.mpr
            ⟨merge_names hP ha ht.1 hu.1 hmerge, ih ha₁ ht.2 hu.2 hrest⟩

end Merging

/-- **How a frame is merged into a position**: there is none yet and it is set, or both meet, and the
result is set unless it is what was there. -/
lemma mergeInto_cases {target : Nat} {f : Frame} {u : Unit}
    (h : Gives (mergeInto ctx position target f) a u a') :
    (a.frames[target]? = none ∧ a' = a) ∨
    (a.frames[target]? = some none ∧ a' = { a with
      frames := a.frames.set! target (some f)
      pending := if a.pending.contains target then a.pending else target :: a.pending }) ∨
    ∃ (old : Frame) (locals stack : List SlotType) (a₁ a₂ : Analysis),
      a.frames[target]? = some (some old) ∧ old.stack.length = f.stack.length
      ∧ Gives (mergeLocals ctx position old.locals.toList f.locals.toList) a locals a₁
      ∧ Gives (mergeStack ctx position target 0 old.stack.reverse f.stack.reverse) a₁ stack a₂
      ∧ ((⟨locals.toArray, stack.reverse⟩ = old ∧ a' = a₂) ∨
        (⟨locals.toArray, stack.reverse⟩ ≠ old ∧ a' = { a₂ with
          frames := a₂.frames.set! target (some ⟨locals.toArray, stack.reverse⟩)
          pending := if a₂.pending.contains target then a₂.pending else target :: a₂.pending })) := by
  simp only [mergeInto, gives_bind, gives_get] at h
  obtain ⟨_, a₀, ⟨rfl, rfl⟩, h⟩ := h
  split at h
  · next hnone => exact Or.inl ⟨hnone, (gives_pure.mp h).2⟩
  · next hnone =>
      simp only [gives_bind, gives_modify] at h
      obtain ⟨_, a₁, rfl, h⟩ := h
      exact Or.inr (Or.inl ⟨hnone, enqueue_gives h⟩)
  · next old hold =>
      split at h
      · simp at h
      next hlen =>
      obtain ⟨locals, a₁, hlocals, h⟩ := gives_bind.mp h
      obtain ⟨stack, a₂, hstack, h⟩ := gives_bind.mp h
      refine Or.inr (Or.inr ⟨old, locals, stack, a₁, a₂, hold, by simpa using hlen, hlocals, hstack, ?_⟩)
      split at h
      · next hchanged =>
          simp only [gives_bind, gives_modify] at h
          obtain ⟨_, a₃, rfl, h⟩ := h
          exact Or.inr ⟨by simpa using hchanged, enqueue_gives h⟩
      · next hsame => exact Or.inl ⟨by simpa using hsame, (gives_pure.mp h).2⟩

/-- The frames found so far are well formed and name such classes, and so does what is known. -/
structure NamesClasses (P : Text → Prop) (code : Code) (width : Nat) (a : Analysis) : Prop where
  valid : Valid Classes.empty code width a
  names : ∀ (i : Nat) (f : Frame), a.frames[i]? = some (some f) → f.Names P
  supers : a.hierarchy.SupersAre P

/-- What is merged must be a frame of the method that names such classes. -/
structure OffersNames (P : Text → Prop) (code : Code) (width : Nat) (a : Analysis) (target : Nat)
    (f : Frame) : Prop where
  lt : target < code.size
  known : f.Known a.sites
  width : f.locals.size = width
  names : f.Names P

variable {code : Code} {width : Nat}

/-- Setting one frame leaves the others. -/
lemma names_set {frames : Array (Option Frame)} {target : Nat} {g : Frame} (hg : g.Names P)
    (hframes : ∀ (i : Nat) (f : Frame), frames[i]? = some (some f) → f.Names P) :
    ∀ (i : Nat) (f : Frame), (frames.set! target (some g))[i]? = some (some f) → f.Names P := by
  intro i f hf
  rw [Array.set!_eq_setIfInBounds, Array.getElem?_setIfInBounds] at hf
  split at hf
  · split at hf
    · cases hf
      exact hg
    · cases hf
  · exact hframes i f hf

/-- **Merging keeps the property of class names.** -/
lemma mergeInto_names (hP : ClassName.Lawful P) {target : Nat} {g : Frame} {u : Unit}
    (ha : NamesClasses P code width a) (hg : OffersNames P code width a target g)
    (h : Gives (mergeInto ctx position target g) a u a') :
    NamesClasses P code width a' ∧
      ∀ t g', OffersNames P code width a t g' → OffersNames P code width a' t g' := by
  have hlasting : Hierarchy.Lasting ctx.source (Hierarchy.Holding (Hierarchy.SupersAre P)) :=
    Hierarchy.lasting_supersAre hP.files
  obtain ⟨hv, hgrows, -⟩ : _ ∧ Grows Classes.empty (fun _ _ => True) a a' ∧ _ :=
    mergeInto_grows ctx.source.agrees_empty ha.valid hg.lt hg.known hg.width h
  refine ⟨⟨hv, ?_, (respects_mergeInto hlasting _ _ _).gives h ha.supers⟩,
    fun t g' h' => ⟨h'.lt, h'.known.grow hgrows.grow, h'.width, h'.names⟩⟩
  rcases mergeInto_cases h with ⟨-, rfl⟩ | ⟨-, rfl⟩ | ⟨old, locals, stack, a₁, a₂, hold, hlen, hl, hs, h⟩
  · exact ha.names
  · exact names_set hg.names ha.names
  · have hwidth := ha.valid.width target old hold
    have hgw := hg.width
    obtain ⟨hl₁, -⟩ : Learns Classes.empty code (fun _ _ => True) a a₁ ∧ _ :=
      mergeLocals_gives ctx.source.agrees_empty (by simp [hwidth, hgw]) hl
    obtain ⟨hl₂, -⟩ : Learns Classes.empty code (fun _ _ => True) a₁ a₂ ∧ _ :=
      mergeStack_gives ctx.source.agrees_empty (by simp [hlen]) hs
    have hframes : a₂.frames = a.frames := hl₂.frames.trans hl₁.frames
    have hnames : ∀ (i : Nat) (f : Frame), a₂.frames[i]? = some (some f) → f.Names P := by
      rw [hframes]
      exact ha.names
    have hold := ha.names target old hold
    have ha₁ := (respects_mergeLocals hlasting _ _ _).gives hl ha.supers
    have hmet : Frame.Names P ⟨locals.toArray, stack.reverse⟩ := by
      refine ⟨fun t ht => ?_, mergeLocals_names hP ha.supers hold.2 hg.names.2 hl⟩
      refine mergeStack_names hP ha₁ (fun t ht => hold.1 t (List.mem_reverse.mp ht))
        (fun t ht => hg.names.1 t (List.mem_reverse.mp ht)) hs t ?_
      exact List.mem_reverse.mp ht
    rcases h with ⟨-, rfl⟩ | ⟨-, rfl⟩
    · exact hnames
    · exact names_set hmet hnames

/-- Handlers catch such classes. -/
lemma names_handler {f : Frame} {cls : Text} (hf : f.Names P) (hcls : P cls) :
    Frame.Names P ⟨f.locals, [.ref cls]⟩ :=
  ⟨by simpa using SlotType.names_ref hcls, hf.2⟩

/-- **Every position carries the property of class names**, if instructions and handlers do. -/
lemma carries_names (hP : ClassName.Lawful P) {spans : List HandlerSpan}
    (hcode : ∀ instr ∈ ctx.method.code.toList, instr.Brings P)
    (hspans : ∀ s ∈ spans, s.handler < ctx.method.code.size ∧ P s.cls) (position : Nat) :
    Carries ctx spans position (NamesClasses P ctx.method.code width)
      (OffersNames P ctx.method.code width) where
  merge := fun ha hg h => mergeInto_names hP ha hg h
  before := by
    intro a f ha hf s hs _ _
    obtain ⟨hlt, hcls⟩ := hspans s hs
    have hwidth := ha.valid.width _ _ hf
    exact ⟨hlt, known_handler (ha.valid.known _ _ hf) _, hwidth, names_handler (ha.names _ _ hf) hcls⟩
  execute := by
    intro a a' f g instr ha hf hinstr h
    have hx := Frame.execute_transition (C := Classes.empty) hinstr h
    have hkf := ha.valid.known _ _ hf
    have htr := hx.transition ha.valid.sound hkf
    have hg : g.Names P := htr.names hP
      (hcode instr (Array.mem_toList_iff.mpr (Array.mem_of_getElem? hinstr))) (ha.names _ _ hf)
    have hka := hx.known ha.valid.sound hkf
    have hwa : g.locals.size = width := by
      rw [htr.size_locals]
      exact ha.valid.width _ _ hf
    have hlasting : Hierarchy.Lasting ctx.source (Hierarchy.Holding (Hierarchy.SupersAre P)) :=
      Hierarchy.lasting_supersAre hP.files
    have hsupers := (Frame.respects_execute hlasting position instr f).gives h ha.supers
    refine ⟨⟨hx.learns.valid ha.valid, ?_, hsupers⟩, fun s hs _ _ => ?_, fun id _ t ht => ?_,
      fun _ hlt => ?_⟩
    · rw [hx.learns.frames]
      exact ha.names
    · obtain ⟨hlt, hcls⟩ := hspans s hs
      exact ⟨hlt, known_handler hka _, hwa, names_handler hg hcls⟩
    · exact ⟨Code.labelAt?_lt ht, hka, hwa, hg⟩
    · exact ⟨hlt, hka, hwa, hg⟩

lemma names_entryFrame {owner : Text} {m : Method} {f : Frame} (hm : m.Brings P owner)
    (h : entryFrame owner m = .ok f) : f.Names P := by
  obtain ⟨d, hd, -, rfl⟩ := entryFrame_eq_ok h
  refine ⟨by simp, fun t ht => ?_⟩
  simp only [givenSlots, List.mem_append, List.mem_map, List.mem_replicate] at ht
  rcases ht with (ht | ⟨desc, hdesc, rfl⟩) | ⟨-, rfl⟩
  · split at ht
    · simp at ht
    · obtain rfl := List.mem_singleton.mp ht
      exact SlotType.names_ref hm.owner
  · exact hm.params d hd desc hdesc
  · simp [SlotType.Names, SlotType.kind?]

/-- **The classes of the references of all frames** have the property, if those that the method brings have
it and the superclasses that are known. -/
lemma run_names (hP : ClassName.Lawful P) {h h' : Hierarchy} {T : FrameTypes}
    (hm : ctx.method.Brings P ctx.owner) (hh : h.SupersAre P)
    (hrun : (run ctx).run h = (.ok T, h')) :
    ∀ (i : Nat) (f : Frame), T.frames[i]? = some (some f) → f.Names P := by
  obtain ⟨ss, entry, a₁, a₂, hss, hentry, hmerge, hfollow, rfl, rfl⟩ := run_eq_ok hrun
  have hspans : ∀ s ∈ ss, s.handler < ctx.method.code.size ∧ P s.cls := by
    intro s hs
    obtain ⟨r, hmem, hr⟩ := (spans_eq_ok hss).2 s hs
    obtain ⟨-, -, hhandler, hcls⟩ := span_eq_ok hr
    refine ⟨Code.labelAt?_lt hhandler, ?_⟩
    rw [hcls]
    unfold caughtClass
    split
    · exact hP.throwable
    · next hne => exact hm.ranges r hmem (by simpa using hne)
  have hstart : NamesClasses P ctx.method.code ctx.method.maxLocals.toNat
      { hierarchy := h, frames := Array.replicate ctx.method.code.size none } := by
    have hnone := unreached_replicate ctx.method.code.size
    refine ⟨⟨⟨h.agrees_empty, ⟨List.Pairwise.nil, by simp, by simp⟩⟩, by simp, ?_, ?_⟩, ?_, hh⟩
    all_goals exact fun i f hf => absurd hf (hnone i f)
  have hfirst : NamesClasses P ctx.method.code ctx.method.maxLocals.toNat a₁ := by
    by_cases hsize : 0 < ctx.method.code.size
    · exact (mergeInto_names hP hstart ⟨hsize, known_entryFrame hentry [], size_entryFrame hentry,
        names_entryFrame hm hentry⟩ hmerge).1
    · rcases mergeInto_cases hmerge with ⟨-, rfl⟩ | ⟨hnone, -⟩ | ⟨old, _, _, _, _, hold, -⟩
      · exact hstart
      · rw [Array.getElem?_eq_none (by simpa using hsize)] at hnone
        cases hnone
      · rw [Array.getElem?_eq_none (by simpa using hsize)] at hold
        cases hold
  have hkeep : ∀ {a : Analysis} (ps : List Nat),
      NamesClasses P ctx.method.code ctx.method.maxLocals.toNat a →
        NamesClasses P ctx.method.code ctx.method.maxLocals.toNat { a with pending := ps } :=
    fun ps ha => ⟨⟨⟨ha.valid.sound.agrees, ha.valid.sound.sites⟩, ha.valid.size, ha.valid.known,
      ha.valid.width⟩, ha.names, ha.supers⟩
  exact (follow_keeps (carries_names hP hm.code hspans) hkeep hfirst hfollow).names

end Analysis

/-! ## Names that are not empty -/

lemma ClassName.lawful_ne_nil : ClassName.Lawful (· ≠ []) where
  null := by decide
  object := by decide
  string := by decide
  throwable := by decide
  element := fun _ => Descriptor.classOf_ne_nil
  files := Hierarchy.ofFiles_ne_nil

end Suspension
