import Mathlib.Logic.Hydra
import Suspension.Proofs.Frame.Invariants

/-!
# The frame analysis ends

A position is followed again only when its frame has changed, and a frame changes only by slots that
**rise**: a pending construction to its class, the null constant to any class, a class to one that it
extends or to the root, and anything to unusable.  If every chain of superclasses ends, no slot rises for
ever, and neither do the frames of a method: a position that is reached gives its place to finitely many
slots, and a slot gives its place to a higher one, as heads do in the game of the hydra.

The null constant has the name of a class.  If some class extended one of that name, the null constant
would be both above and below it, and slots could go round in circles.

* `SlotType.Up`, `SlotType.wellFounded_rises` — the order of slots.
* `Analysis.mergeInto_rises` — a merge that changes a frame raises it.
* `Analysis.follow_ends` — following positions ends.
* `Analysis.run_ends` — the whole analysis.
-/

namespace Suspension

open Relation (ReflTransGen TransGen CutExpand)

/-- **Every chain of superclasses ends**, at the root or where none is known. -/
def ClassView.Ends (V : ClassView) : Prop := WellFounded fun s cls => V.Extends cls s

/-! ## Slots -/

namespace SlotType

variable {V : ClassView} {t u : SlotType}

/-- **One step up** for a slot. -/
inductive Up (V : ClassView) : SlotType → SlotType → Prop
  | settle (site : Nat) (cls : Text) (copied : Bool) : Up V (.pending site cls copied) (.ref cls)
  | null {cls : Text} (hne : cls ≠ ClassName.null) : Up V (.ref ClassName.null) (.ref cls)
  | super {cls s : Text} (h : V.Extends cls s) : Up V (.ref cls) (.ref s)
  | root {cls : Text} (hne : cls ≠ ClassName.object) : Up V (.ref cls) (.ref ClassName.object)
  | unusable {t : SlotType} (hne : t ≠ .unusable) : Up V t .unusable

/-- **A slot rises.** -/
abbrev Rises (V : ClassView) : SlotType → SlotType → Prop := TransGen (Up V)

lemma up_settle (t : SlotType) : ReflTransGen (Up V) t (Analysis.settle t) := by
  cases t with
  | pending site cls copied => exact .single (.settle site cls copied)
  | _ => exact .refl

lemma up_unusable (t : SlotType) : ReflTransGen (Up V) t .unusable := by
  by_cases ht : t = .unusable
  · exact ht ▸ .refl
  · exact .single (.unusable ht)

lemma up_object (cls : Text) : ReflTransGen (Up V) (.ref cls) (.ref ClassName.object) := by
  by_cases hcls : cls = ClassName.object
  · exact hcls ▸ .refl
  · exact .single (.root hcls)

/-- Towards an ancestor a reference rises. -/
lemma up_ancestor {cls s : Text} (h : ReflTransGen V.Extends cls s) :
    ReflTransGen (Up V) (.ref cls) (.ref s) :=
  h.lift SlotType.ref fun _ _ => Up.super

/-- **No slot rises for ever**, if chains of superclasses end and none leads to the name of the null
constant. -/
lemma wellFounded_rises (hends : V.Ends) (hnull : ∀ cls, ¬V.Extends cls ClassName.null) :
    WellFounded fun u t => Rises V t u := by
  have hunusable : Acc (fun u t => Up V t u) .unusable := by
    refine ⟨_, fun u hu => ?_⟩
    cases hu with
    | unusable hne => exact absurd rfl hne
  have hobject : Acc (fun u t => Up V t u) (.ref ClassName.object) := by
    refine ⟨_, fun u hu => ?_⟩
    cases hu with
    | super h => exact absurd rfl h.1
    | root hne => exact absurd rfl hne
    | unusable => exact hunusable
  -- classes along their chains; the null constant comes after all of them
  have hclass (cls : Text) (hcls : cls ≠ ClassName.null) : Acc (fun u t => Up V t u) (.ref cls) := by
    induction cls using hends.induction with
    | _ cls ih =>
        refine ⟨_, fun u hu => ?_⟩
        cases hu with
        | null => exact absurd rfl hcls
        | super h => exact ih _ h fun heq => hnull cls (heq ▸ h)
        | root => exact hobject
        | unusable => exact hunusable
  have href (cls : Text) : Acc (fun u t => Up V t u) (.ref cls) := by
    by_cases hcls : cls = ClassName.null
    · subst hcls
      refine ⟨_, fun u hu => ?_⟩
      cases hu with
      | null hne => exact hclass _ hne
      | super h => exact hclass _ fun heq => hnull _ (heq ▸ h)
      | root => exact hobject
      | unusable => exact hunusable
    · exact hclass cls hcls
  have hup : WellFounded fun u t => Up V t u := by
    refine ⟨fun t => ⟨_, fun u hu => ?_⟩⟩
    cases hu with
    | settle _ cls => exact href cls
    | null => exact href _
    | super => exact href _
    | root => exact hobject
    | unusable => exact hunusable
  exact Subrelation.wf (fun h => Relation.transGen_swap.mpr h) hup.transGen

end SlotType

/-! ## Frames -/

/-- All slots of a frame. -/
def Frame.slots (f : Frame) : List SlotType := f.locals.toList ++ f.stack

/-- **A frame rises**: no slot sinks, and some slot rises. -/
structure Frame.Rises (V : ClassView) (f g : Frame) : Prop where
  slots : List.Forall₂ (ReflTransGen (SlotType.Up V)) f.slots g.slots
  strict : ∃ (n : Nat) (t u : SlotType), f.slots[n]? = some t ∧ g.slots[n]? = some u ∧ SlotType.Rises V t u

/-- Where slots differ and none has sunk, one has risen. -/
lemma SlotType.exists_rises {V : ClassView} {ts us : List SlotType}
    (h : List.Forall₂ (ReflTransGen (Up V)) ts us) (hne : ts ≠ us) :
    ∃ (n : Nat) (t u : SlotType), ts[n]? = some t ∧ us[n]? = some u ∧ Rises V t u := by
  induction h with
  | nil => exact absurd rfl hne
  | @cons t u ts us htu _ ih =>
      rcases Relation.reflTransGen_iff_eq_or_transGen.mp htu with rfl | hrises
      · obtain ⟨n, t', u', ht, hu, hrises⟩ := ih fun heq => hne (heq ▸ rfl)
        exact ⟨n + 1, t', u', ht, hu, hrises⟩
      · exact ⟨0, t, u, rfl, rfl, hrises⟩

/-- A frame that has changed without that a slot sank has risen. -/
lemma Frame.rises_of_ne {V : ClassView} {f g : Frame}
    (hlocals : List.Forall₂ (ReflTransGen (SlotType.Up V)) f.locals.toList g.locals.toList)
    (hstack : List.Forall₂ (ReflTransGen (SlotType.Up V)) f.stack g.stack) (hne : f ≠ g) :
    f.Rises V g := by
  have hslots : List.Forall₂ (ReflTransGen (SlotType.Up V)) f.slots g.slots :=
    List.rel_append hlocals hstack
  refine ⟨hslots, SlotType.exists_rises hslots fun heq => hne ?_⟩
  obtain ⟨hl, hs⟩ := List.append_inj heq hlocals.length_eq
  obtain ⟨fl, fs⟩ := f
  obtain ⟨gl, gs⟩ := g
  exact congrArg₂ Frame.mk (Array.toList_inj.mp hl) hs

namespace Analysis

open Transfer

variable {V : ClassView} {ctx : AnalysisContext} {position : Nat} {a a' : Analysis}

/-! ## Merging -/

/-- **A slot that meets another rises**, or stays. -/
lemma merge_rises (ha : a.hierarchy.Shows ctx.source V) {t u r : SlotType} {onStack : Bool}
    (h : Gives (merge ctx position t u onStack) a r a') : ReflTransGen (SlotType.Up V) t r := by
  have hlasting := Hierarchy.lasting_shows ctx.source V
  unfold merge at h
  split at h
  · obtain ⟨rfl, -⟩ := gives_pure.mp h
    exact .refl
  obtain ⟨_, a₁, hpin₁, h⟩ := gives_bind.mp h
  obtain ⟨_, a₂, hpin₂, h⟩ := gives_bind.mp h
  have ha₁ := (respects_pinSlot hlasting _ _ _).gives hpin₁ ha
  have ha₂ := (respects_pinSlot hlasting _ _ _).gives hpin₂ ha₁
  refine (SlotType.up_settle t).trans ?_
  simp only at h
  split at h
  · obtain ⟨rfl, -⟩ := gives_pure.mp h
    exact .refl
  next hdiffer =>
  split at h
  · next ct cu hct hcu =>
      rw [hct]
      split at h
      · next hisNull =>
          obtain ⟨rfl, -⟩ := gives_pure.mp h
          have hnull : SlotType.ref ct = .ref ClassName.null := by
            rw [← hct]
            exact eq_of_beq hisNull
          cases hnull
          rw [hcu]
          refine .single (.null fun heq => hdiffer ?_)
          rw [hct, hcu, heq]
          exact beq_self_eq_true _
      split at h
      · obtain ⟨rfl, -⟩ := gives_pure.mp h
        rw [hct]
      obtain ⟨sup, a₃, hask, h⟩ := gives_bind.mp h
      split at h
      · next c =>
          obtain ⟨rfl, -⟩ := gives_pure.mp h
          rcases ha₂.commonSuper (ask_gives hask).1.symm with ⟨hc, -⟩ | rfl
          · exact SlotType.up_ancestor hc
          · exact SlotType.up_object ct
      · obtain ⟨rfl, -⟩ := gives_pure.mp h
        exact SlotType.up_object ct
  · split at h
    · simp at h
    · obtain ⟨rfl, -⟩ := gives_pure.mp h
      exact SlotType.up_unusable _

/-- Slots that meet leave the frames and what is pending as they are. -/
lemma merge_same {t u r : SlotType} {onStack : Bool}
    (h : Gives (merge ctx position t u onStack) a r a') :
    a'.frames = a.frames ∧ a'.pending = a.pending := by
  obtain ⟨hl, -⟩ : Learns Classes.empty ctx.method.code (fun _ _ => True) a a' ∧ _ :=
    merge_gives ctx.source.agrees_empty h
  exact ⟨hl.frames, hl.pending⟩

lemma mergeLocals_rises (ha : a.hierarchy.Shows ctx.source V) {ts us rs : List SlotType}
    (h : Gives (mergeLocals ctx position ts us) a rs a') :
    List.Forall₂ (ReflTransGen (SlotType.Up V)) ts rs ∧ a'.frames = a.frames ∧ a'.pending = a.pending := by
  induction ts generalizing us rs a with
  | nil =>
      obtain ⟨rfl, rfl⟩ := gives_pure.mp h
      exact ⟨.nil, rfl, rfl⟩
  | cons t ts ih =>
      cases us with
      | nil =>
          obtain ⟨rfl, rfl⟩ := gives_pure.mp h
          exact ⟨List.forall₂_refl _, rfl, rfl⟩
      | cons u us =>
          obtain ⟨r, a₁, hmerge, h⟩ := gives_bind.mp h
          obtain ⟨rs', a₂, hrest, h⟩ := gives_bind.mp h
          obtain ⟨rfl, rfl⟩ := gives_pure.mp h
          have ha₁ := (respects_merge (Hierarchy.lasting_shows _ V) _ _ _ _).gives hmerge ha
          obtain ⟨hframes, hpending⟩ := merge_same hmerge
          obtain ⟨hrs, hframes', hpending'⟩ := ih ha₁ hrest
          exact ⟨.cons (merge_rises ha hmerge) hrs, hframes'.trans hframes, hpending'.trans hpending⟩

lemma mergeStack_rises (ha : a.hierarchy.Shows ctx.source V) {target slot : Nat}
    {ts us rs : List SlotType} (h : Gives (mergeStack ctx position target slot ts us) a rs a') :
    List.Forall₂ (ReflTransGen (SlotType.Up V)) ts rs ∧ a'.frames = a.frames ∧ a'.pending = a.pending := by
  induction ts generalizing us rs a slot with
  | nil =>
      obtain ⟨rfl, rfl⟩ := gives_pure.mp h
      exact ⟨.nil, rfl, rfl⟩
  | cons t ts ih =>
      cases us with
      | nil =>
          obtain ⟨rfl, rfl⟩ := gives_pure.mp h
          exact ⟨List.forall₂_refl _, rfl, rfl⟩
      | cons u us =>
          obtain ⟨r, a₁, hmerge, h⟩ := gives_bind.mp h
          obtain ⟨rs', a₂, hrest, h⟩ := gives_bind.mp h
          obtain ⟨rfl, rfl⟩ := gives_pure.mp h
          have hmerge := gives_adapt.mp hmerge
          have ha₁ := (respects_merge (Hierarchy.lasting_shows _ V) _ _ _ _).gives hmerge ha
          obtain ⟨hframes, hpending⟩ := merge_same hmerge
          obtain ⟨hrs, hframes', hpending'⟩ := ih ha₁ hrest
          exact ⟨.cons (merge_rises ha hmerge) hrs, hframes'.trans hframes, hpending'.trans hpending⟩

/-- **The frame at a position rises**: it is the first one there, or above the one that was.  All others
stay. -/
def RaisesAt (V : ClassView) (target : Nat) (a a' : Analysis) : Prop :=
  ∃ new, a'.frames = a.frames.set! target (some new)
    ∧ (a.frames[target]? = some none
      ∨ ∃ old, a.frames[target]? = some (some old) ∧ old.Rises V new)

/-- **A merge that changes a frame raises it**, and makes no position pending otherwise. -/
lemma mergeInto_rises (ha : a.hierarchy.Shows ctx.source V) {target : Nat} {f : Frame} {u : Unit}
    (h : Gives (mergeInto ctx position target f) a u a') :
    (a'.frames = a.frames ∧ a'.pending = a.pending) ∨ RaisesAt V target a a' := by
  have hlasting := Hierarchy.lasting_shows ctx.source V
  rcases mergeInto_cases h with ⟨-, rfl⟩ | ⟨hnone, rfl⟩ | ⟨old, locals, stack, a₁, a₂, hold, -, hl, hs, h⟩
  · exact Or.inl ⟨rfl, rfl⟩
  · exact Or.inr ⟨f, rfl, Or.inl hnone⟩
  obtain ⟨hlocals, hframes₁, hpending₁⟩ := mergeLocals_rises ha hl
  obtain ⟨hstack, hframes₂, hpending₂⟩ :=
    mergeStack_rises ((respects_mergeLocals hlasting _ _ _).gives hl ha) hs
  rcases h with ⟨-, rfl⟩ | ⟨hne, rfl⟩
  · exact Or.inl ⟨hframes₂.trans hframes₁, hpending₂.trans hpending₁⟩
  have hreversed : List.Forall₂ (ReflTransGen (SlotType.Up V)) old.stack stack.reverse := by
    have := List.rel_reverse hstack
    rwa [List.reverse_reverse] at this
  refine Or.inr ⟨⟨locals.toArray, stack.reverse⟩, ?_,
    Or.inr ⟨old, hold, Frame.rises_of_ne hlocals hreversed hne.symm⟩⟩
  rw [hframes₂.trans hframes₁]

/-! ## What is left to rise -/

/-- **What may take the place of what** when a frame rises: any slots that of a position which was not
reached yet, and a higher slot that of a slot. -/
inductive Replaces (V : ClassView) : Option SlotType → Option SlotType → Prop
  | reached (t : SlotType) : Replaces V (some t) none
  | risen {t u : SlotType} (h : SlotType.Rises V t u) : Replaces V (some u) (some t)

lemma wellFounded_replaces (hends : V.Ends) (hnull : ∀ cls, ¬V.Extends cls ClassName.null) :
    WellFounded (Replaces V) := by
  have hslot (t : SlotType) : Acc (Replaces V) (some t) := by
    induction t using (SlotType.wellFounded_rises hends hnull).induction with
    | _ t ih =>
        refine ⟨_, fun x hx => ?_⟩
        cases hx with
        | risen h => exact ih _ h
  refine ⟨fun x => ?_⟩
  cases x with
  | some t => exact hslot t
  | none =>
      refine ⟨_, fun x hx => ?_⟩
      cases hx with
      | reached t => exact hslot t

/-- What stands at a position: its slots, or that it was not reached. -/
def heads : Option Frame → Multiset (Option SlotType)
  | none => {none}
  | some f => ↑(f.slots.map some)

/-- **What may still rise**: the slots of all frames, and the positions that were not reached. -/
def left (frames : Array (Option Frame)) : Multiset (Option SlotType) := (frames.toList.map heads).sum

/-- **Less is left to rise** in frames that come later. -/
def Shrinks (V : ClassView) (frames frames' : Array (Option Frame)) : Prop :=
  TransGen (CutExpand (Replaces V)) (left frames') (left frames)

/-- Slots that have risen, one of them strictly, take the place of the old ones. -/
lemma cut_of_rises {ts us : List SlotType} (h : List.Forall₂ (ReflTransGen (SlotType.Up V)) ts us) :
    ts = us ∨ TransGen (CutExpand (Replaces V)) ↑(us.map some) ↑(ts.map some) := by
  induction h with
  | nil => exact Or.inl rfl
  | @cons t u ts us htu _ ih =>
      have hhead (hrises : SlotType.Rises V t u) : TransGen (CutExpand (Replaces V))
          ↑((u :: ts).map some) ↑((t :: ts).map some) :=
        .single (Relation.cutExpand_single_add (Replaces.risen hrises) ↑(ts.map some))
      have hrest (hcut : TransGen (CutExpand (Replaces V)) ↑(us.map some) ↑(ts.map some)) :
          TransGen (CutExpand (Replaces V)) ↑((u :: us).map some) ↑((u :: ts).map some) :=
        hcut.lift ({some u} + ·) fun _ _ hcut => (Relation.cutExpand_add_left _).mpr hcut
      rcases Relation.reflTransGen_iff_eq_or_transGen.mp htu with rfl | hrises
      · rcases ih with rfl | hcut
        · exact Or.inl rfl
        · exact Or.inr (hrest hcut)
      · rcases ih with rfl | hcut
        · exact Or.inr (hhead hrises)
        · exact Or.inr ((hrest hcut).trans (hhead hrises))

/-- Where one frame is set, what is left changes at its position only. -/
lemma left_set {frames : Array (Option Frame)} {target : Nat} {old : Option Frame}
    (hold : frames[target]? = some old) (new : Option Frame) :
    ∃ rest, left frames = rest + heads old ∧ left (frames.set! target new) = rest + heads new := by
  obtain ⟨hlt, rfl⟩ := Array.getElem?_eq_some_iff.mp hold
  have hlt' : target < frames.toList.length := hlt
  refine ⟨((frames.toList.take target).map heads).sum + ((frames.toList.drop (target + 1)).map heads).sum,
    ?_, ?_⟩
  · unfold left
    conv_lhs => rw [← List.take_append_drop target frames.toList, List.drop_eq_getElem_cons hlt']
    simp only [List.map_append, List.map_cons, List.sum_append, List.sum_cons, Array.getElem_toList]
    abel
  · unfold left
    rw [Array.set!_eq_setIfInBounds, Array.toList_setIfInBounds, List.set_eq_take_append_cons_drop,
      if_pos hlt']
    simp only [List.map_append, List.map_cons, List.sum_append, List.sum_cons]
    abel

/-- **Where a frame rises, less is left to rise.** -/
lemma RaisesAt.shrinks (hends : V.Ends) (hnull : ∀ cls, ¬V.Extends cls ClassName.null) {target : Nat}
    (h : RaisesAt V target a a') : Shrinks V a.frames a'.frames := by
  obtain ⟨new, hframes, hold⟩ := h
  -- at the position itself
  have hheads : ∃ old, a.frames[target]? = some old
      ∧ TransGen (CutExpand (Replaces V)) (heads (some new)) (heads old) := by
    rcases hold with hnone | ⟨old, hold, hrises⟩
    · refine ⟨none, hnone, .single (Relation.cutExpand_singleton fun x hx => ?_)⟩
      obtain ⟨t, -, rfl⟩ := List.mem_map.mp (Multiset.mem_coe.mp hx)
      exact .reached t
    · refine ⟨some old, hold, (cut_of_rises hrises.slots).resolve_left fun heq => ?_⟩
      obtain ⟨n, t, u, ht, hu, htu⟩ := hrises.strict
      rw [heq, hu] at ht
      cases ht
      exact (SlotType.wellFounded_rises hends hnull).irrefl.irrefl _ htu
  obtain ⟨old, hold, hcut⟩ := hheads
  obtain ⟨rest, hleft, hleft'⟩ := left_set hold (some new)
  rw [Shrinks, hframes, hleft, hleft']
  exact hcut.lift (rest + ·) fun _ _ hcut => (Relation.cutExpand_add_left _).mpr hcut

/-! ## Following positions -/

/-- **What following a position comes to**: either no frame has changed and nothing has become pending, or
less is left to rise. -/
def Progress (V : ClassView) (a a' : Analysis) : Prop :=
  (a'.frames = a.frames ∧ a'.pending = a.pending) ∨ Shrinks V a.frames a'.frames

lemma Progress.trans {a₁ : Analysis} (h : Progress V a a₁) (h' : Progress V a₁ a') : Progress V a a' := by
  rcases h with ⟨hframes, hpending⟩ | h
  · rcases h' with ⟨hframes', hpending'⟩ | h'
    · exact Or.inl ⟨hframes'.trans hframes, hpending'.trans hpending⟩
    · exact Or.inr (hframes ▸ h')
  · rcases h' with ⟨hframes', -⟩ | h'
    · exact Or.inr (hframes' ▸ h)
    · exact Or.inr (h'.trans h)

section Following

variable {spans : List HandlerSpan} (hends : V.Ends) (hnull : ∀ cls, ¬V.Extends cls ClassName.null)
include hends hnull

/-- **Following a position makes progress.** -/
lemma step_progress (ha : a.hierarchy.Shows ctx.source V) {u : Unit}
    (h : Gives (step ctx spans position) a u a') :
    a'.hierarchy.Shows ctx.source V ∧ Progress V a a' := by
  have hlasting := Hierarchy.lasting_shows ctx.source V
  -- whatever frames are merged
  have hcarries : Carries ctx spans position
      (fun b => b.hierarchy.Shows ctx.source V ∧ Progress V a b) (fun _ _ _ => True) := by
    refine ⟨fun {b b' target g u} hb _ h => ⟨⟨?_, hb.2.trans ?_⟩, fun _ _ _ => trivial⟩,
      fun _ _ _ _ _ _ => trivial, fun {b b' f g instr} hb _ hinstr h => ⟨⟨?_, hb.2.trans ?_⟩, ?_⟩⟩
    · exact (respects_mergeInto hlasting _ _ _).gives h hb.1
    · exact (mergeInto_rises hb.1 h).imp_right (·.shrinks hends hnull)
    · exact (Frame.respects_execute hlasting _ _ _).gives h hb.1
    · have hl := (Frame.execute_transition (C := Classes.empty) hinstr h).learns
      exact Or.inl ⟨hl.frames, hl.pending⟩
    · exact ⟨fun _ _ _ _ => trivial, fun _ _ _ _ => trivial, fun _ _ => trivial⟩
  exact step_keeps hcarries ⟨ha, Or.inl ⟨rfl, rfl⟩⟩ h

/-- **Following positions ends.** -/
lemma follow_ends (ha : a.hierarchy.Shows ctx.source V) : ∃ r, follow ctx spans a = some r := by
  have hwf : WellFounded (Prod.Lex (TransGen (CutExpand (Replaces V))) (· < · : Nat → Nat → Prop)) :=
    (wellFounded_replaces hends hnull).cutExpand.transGen.prod_lex Nat.lt_wfRel.wf
  -- what is left to rise, and then what is pending
  generalize hm : (left a.frames, a.pending.length) = m
  induction m using hwf.induction generalizing a with
  | _ m ih =>
      subst hm
      cases hp : a.pending with
      | nil => exact ⟨_, follow_done hp⟩
      | cons i rest =>
          generalize hstep : (step ctx spans i).run { a with pending := rest } = r
          obtain ⟨r, a'⟩ := r
          cases r with
          | error e => exact ⟨_, follow_error hp hstep⟩
          | ok u =>
              have hstep : Gives (step ctx spans i) { a with pending := rest } u a' := hstep
              obtain ⟨ha', hprogress⟩ := step_progress hends hnull (a := { a with pending := rest }) ha hstep
              rw [follow_next hp hstep]
              refine ih _ ?_ ha' rfl
              rcases hprogress with ⟨hframes, hpending⟩ | hshrinks
              · rw [hframes, hpending, hp]
                exact .right _ (Nat.lt_succ_self _)
              · exact .left _ _ hshrinks

end Following

/-- **The frame analysis ends.**  Let every chain of superclasses end, and let no class extend one with
the name of the null constant.  Then slots rise in a well-founded order; a merge that makes a position
pending raises its frame, and no other; and from the frame at the entry on, following positions comes to an
end, with a fault or when no position is pending. -/
theorem run_ends {ctx : AnalysisContext} {V : ClassView} (hends : V.Ends)
    (hnull : ∀ cls, ¬V.Extends cls ClassName.null) :
    (WellFounded fun u t => SlotType.Rises V t u)
    ∧ (∀ {position target : Nat} {f : Frame} {a a' : Analysis}, a.hierarchy.Shows ctx.source V →
        Gives (mergeInto ctx position target f) a () a' →
          (a'.frames = a.frames ∧ a'.pending = a.pending) ∨ RaisesAt V target a a')
    ∧ ∀ {h : Hierarchy} {entry : Frame} {a : Analysis} (spans : List HandlerSpan), h.Shows ctx.source V →
        entryFrame ctx.owner ctx.method = .ok entry → Gives (mergeInto ctx 0 0 entry) (start ctx h) () a →
          ∃ r, follow ctx spans a = some r ∧ (r.1 = .ok () → r.2.pending = []) := by
  refine ⟨SlotType.wellFounded_rises hends hnull, fun ha h => mergeInto_rises ha h, fun spans hh _ hentry => ?_⟩
  have ha := (respects_mergeInto (Hierarchy.lasting_shows ctx.source V) _ _ _).gives hentry hh
  obtain ⟨r, hr⟩ : ∃ r, follow ctx spans _ = some r := follow_ends hends hnull ha
  refine ⟨r, hr, follow_induction (motive := fun _ r => r.1 = .ok () → r.2.pending = []) ?_ ?_ ?_ hr⟩
  · exact fun a hp _ => hp
  · exact fun a i rest e a' _ _ hok => by cases hok
  · exact fun a i rest a' r _ _ ih => ih

/-! ### Two siblings -/

/-- Where following a position leads back to where it began there is no ending. -/
lemma follow_circle {spans : List HandlerSpan} {i : Nat} {rest : List Nat} (hp : a.pending = i :: rest)
    (hstep : Gives (step ctx spans i) { a with pending := rest } () a) : follow ctx spans a = none := by
  unfold Gives at hstep
  exact result?_of_circle (by simp only [followOne, hp, hstep])

/-- The state after so many positions were followed, if there was no ending before. -/
def after? (ctx : AnalysisContext) (spans : List HandlerSpan) : Nat → Analysis → Option Analysis
  | 0, a => some a
  | n + 1, a =>
    match followOne ctx spans a with
    | .inl _ => none
    | .inr a' => after? ctx spans n a'

/-- Where following one more position changes nothing any more there is no ending. -/
lemma follow_circles {spans : List HandlerSpan} {n : Nat} (h : after? ctx spans n a = some a')
    (hsame : after? ctx spans (n + 1) a = some a') : follow ctx spans a = none := by
  induction n generalizing a with
  | zero =>
      cases h
      unfold after? at hsame
      split at hsame
      · cases hsame
      · next hstep =>
          cases hsame
          exact result?_of_circle hstep
  | succ n ih =>
      unfold after? at h hsame
      split at h
      · cases h
      · next b hstep =>
          rw [hstep] at hsame
          exact (result?_of_inr hstep).trans (ih h hsame)

/-- Two classes that extend a third one, and that extends the root. -/
def siblings (super : Text) : Hierarchy where
  classes := [("t/A", .known ⟨super, []⟩), ("t/B", .known ⟨super, []⟩), (super, .known ⟨ClassName.object, []⟩)]

/-- Nothing else is known. -/
def siblingsView (super : Text) : ClassView := fun cls =>
  ((siblings super).classes.lookup cls).getD .missing

lemma siblings_shows (super : Text) : (siblings super).Shows {} (siblingsView super) where
  kept := fun h => by rw [siblingsView, h, Option.getD_some]
  unkept := fun h => by rw [siblingsView, h]; rfl
  supers := by simp [siblings]

/-- A class of theirs extends the third one or the root. -/
lemma siblings_extends {super cls s : Text} (h : (siblingsView super).Extends cls s) :
    s = super ∨ s = ClassName.object := by
  obtain ⟨-, h⟩ := h
  simp only [siblingsView, siblings, List.lookup_cons, List.lookup_nil] at h
  split at h
  · exact Or.inl (Hierarchy.nonEmpty_eq_some h).1.symm
  split at h
  · exact Or.inl (Hierarchy.nonEmpty_eq_some h).1.symm
  split at h
  · exact Or.inr (Hierarchy.nonEmpty_eq_some h).1.symm
  · cases h

lemma siblings_ends {super : Text} (ha : super ≠ "t/A") (hb : super ≠ "t/B") :
    (siblingsView super).Ends := by
  have hobject : Acc (fun s cls => (siblingsView super).Extends cls s) ClassName.object :=
    ⟨_, fun s hs => absurd rfl hs.1⟩
  have hsuper : Acc (fun s cls => (siblingsView super).Extends cls s) super := by
    refine ⟨_, fun s hs => ?_⟩
    obtain ⟨-, hs⟩ := hs
    simp only [siblingsView, siblings, List.lookup_cons, beq_false_of_ne ha, beq_false_of_ne hb, BEq.rfl,
      Option.getD_some] at hs
    obtain ⟨rfl, -⟩ := Hierarchy.nonEmpty_eq_some hs
    exact hobject
  refine ⟨fun cls => ⟨_, fun s hs => ?_⟩⟩
  rcases siblings_extends hs with rfl | rfl
  · exact hsuper
  · exact hobject

deriving instance DecidableEq for Hierarchy, Analysis

/-- What a step comes to can be computed. -/
instance {α : Type} [DecidableEq α] (x : Transfer α) (a : Analysis) (r : α) (a' : Analysis) :
    Decidable (Gives x a r a') :=
  inferInstanceAs (Decidable (@Eq (Except FrameFault α × Analysis) (x.run a) (.ok r, a')))

/-- A method that throws its parameter, a `t/B`, under two handlers that begin where it is on the stack: one
for each sibling. -/
def catching : AnalysisContext where
  source := {}
  sink := {}
  owner := "t/Main"
  method :=
    { name := "f", desc := "(Lt/B;)V", flags := Flag.staticBit, maxLocals := 1, maxStack := 1
      code := #[⟨.load .ref, .slot 0⟩, ⟨.label, .label 1⟩, ⟨.throw, .none⟩, ⟨.label, .label 2⟩]
      ranges := [⟨"t/A", 1, 2, 1⟩, ⟨"t/B", 1, 2, 1⟩] }

/-- The positions of its handlers. -/
def catchingSpans : List HandlerSpan := [⟨"t/A", 1, 3, 1⟩, ⟨"t/B", 1, 3, 1⟩]

/-- A frame of it. -/
def catchingFrame (stack : List SlotType) : Frame := ⟨#[.ref "t/B"], stack⟩

/-- Its analysis where the siblings extend a class named like the null constant, with the stacks that were
found so far. -/
def circling (found : Array (Option (List SlotType))) (pending : List Nat) : Analysis where
  hierarchy := siblings ClassName.null
  frames := found.map (·.map catchingFrame)
  pending := pending

/-- **Frames may change for ever** where classes extend one that is named like the null constant: the
siblings have the null constant in common, and that is below both. -/
theorem catching_circles :
    (siblingsView ClassName.null).Ends
    ∧ (siblings ClassName.null).Shows catching.source (siblingsView ClassName.null)
    ∧ ∃ ss entry a, spans catching.method.code catching.method.ranges 0 = .ok ss
        ∧ entryFrame catching.owner catching.method = .ok entry
        ∧ Gives (mergeInto catching 0 0 entry) (start catching (siblings ClassName.null)) () a
        ∧ follow catching ss a = none := by
  refine ⟨siblings_ends (by decide) (by decide), siblings_shows _, catchingSpans, catchingFrame [],
    circling #[some [], none, none, none] [0], by decide +kernel, by decide +kernel, by decide +kernel, ?_⟩
  let v : SlotType := .ref "t/B"
  have h₀ : Gives (step catching catchingSpans 0) (circling #[some [], none, none, none] []) ()
      (circling #[some [], some [v], none, none] [1]) := by decide +kernel
  have h₁ : Gives (step catching catchingSpans 1) (circling #[some [], some [v], none, none] []) ()
      (circling #[some [], some [v], some [v], none] [2, 1]) := by decide +kernel
  have h₂ : Gives (step catching catchingSpans 2) (circling #[some [], some [v], some [v], none] [1]) ()
      (circling #[some [], some [v], some [v], none] [1]) := by decide +kernel
  have h₃ : Gives (step catching catchingSpans 1) (circling #[some [], some [v], some [v], none] []) ()
      (circling #[some [], some [v], some [v], none] [1]) := by decide +kernel
  calc follow catching catchingSpans (circling #[some [], none, none, none] [0])
      = follow catching catchingSpans (circling #[some [], some [v], none, none] [1]) := follow_next rfl h₀
    _ = follow catching catchingSpans (circling #[some [], some [v], some [v], none] [2, 1]) :=
      follow_next rfl h₁
    _ = follow catching catchingSpans (circling #[some [], some [v], some [v], none] [1]) := follow_next rfl h₂
    _ = none := follow_circle rfl h₃

/-- The theorem where the siblings extend another class: the analysis of the same method ends. -/
theorem catching_ends : ∃ a r, Gives (mergeInto catching 0 0 (catchingFrame []))
    (start catching (siblings "t/S")) () a ∧ follow catching catchingSpans a = some r := by
  have hnull : ∀ cls, ¬(siblingsView "t/S").Extends cls ClassName.null := by
    intro cls h
    rcases siblings_extends h with h | h
    · exact absurd h (by decide)
    · exact absurd h (by decide)
  have hmerge : Gives (mergeInto catching 0 0 (catchingFrame [])) (start catching (siblings "t/S")) ()
      { start catching (siblings "t/S") with
        frames := #[some (catchingFrame []), none, none, none], pending := [0] } := by decide +kernel
  have hsuper : (siblingsView "t/S").Ends := siblings_ends (by decide) (by decide)
  obtain ⟨r, hr, -⟩ := (run_ends hsuper hnull).2.2 catchingSpans (siblings_shows "t/S") (by decide +kernel)
    hmerge
  exact ⟨_, r, hmerge, hr⟩

end Analysis

end Suspension
