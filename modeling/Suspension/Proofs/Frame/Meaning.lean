import Mathlib.Data.List.Forall2
import Mathlib.Tactic.Common
import Suspension.Frame.Analysis
import Suspension.Machine.Value

/-!
# What frame types mean

A frame type says something about a value.  What it says depends on which values belong to which
class, and that is not known to the analysis: it is a property of the **world** in which the method
runs.

* `Classes` — which references are instances of which class.
* `World` — the classes, and which objects a `new` has made.
* `World.Holds` — a value is what a slot type says.
* `Site.Free`, `SlotType.Le`, `SlotType.LeLocal`, `Frame.Le` — the order in which slots rise when
  paths meet.  A pending construction that is not pinned never rises.
* `World.Holds.mono` — what holds of a value still holds after its slot has risen.
-/

namespace Suspension

/-- **Which references belong to which class**, null apart.  No class is named like the type of the
null constant. -/
structure Classes where
  inst : Value → Text → Prop
  inst_object : ∀ {v : Value} {c : Text}, inst v c → inst v ClassName.object
  not_inst_null : ∀ v : Value, ¬ inst v ClassName.null

/-- **The surroundings of a run**: the classes, and the objects that `new` has made for a class, which
may still be under construction. -/
structure World extends Classes where
  made : ObjectId → Text → Prop
  inst_of_made : ∀ {o : ObjectId} {c : Text}, made o c → inst (.object o) c
  inst_text : ∀ t : Text, inst (.text t) ClassName.string

namespace World

/-- **What a slot type says about a value.**  An unusable slot says nothing. -/
def Holds (W : World) : SlotType → Value → Prop
  | .unusable, _ => True
  | .int, v => v.kind = .int
  | .long, v => v.kind = .long
  | .float, v => v.kind = .float
  | .double, v => v.kind = .double
  | .ref c, v => v.kind = .ref ∧ (v = .null ∨ W.inst v c)
  | .pending _ c _, v => ∃ o, v = .object o ∧ W.made o c

variable {W : World}

/-- A value has the storage kind of its slot. -/
lemma Holds.kind {t : SlotType} {v : Value} {k : Kind} (h : W.Holds t v) (hk : t.kind? = some k) :
    v.kind = k := by
  cases t with
  | unusable => simp [SlotType.kind?] at hk
  | ref c =>
      obtain ⟨hv, -⟩ := h
      simp only [SlotType.kind?, Option.some.injEq] at hk
      rw [hv, hk]
  | pending n c b =>
      obtain ⟨o, rfl, -⟩ := h
      simp only [SlotType.kind?, Option.some.injEq] at hk
      rw [← hk]; rfl
  | _ =>
      simp only [SlotType.kind?, Option.some.injEq] at hk
      rw [← hk]; exact h

/-- **The type of the null constant holds of null only.** -/
lemma Holds.eq_null {v : Value} (h : W.Holds SlotType.null v) : v = .null := by
  obtain ⟨-, h | h⟩ := h
  · exact h
  · exact absurd h (W.not_inst_null v)

@[simp] lemma holds_null : W.Holds SlotType.null .null := ⟨rfl, Or.inl rfl⟩

/-- Null is a reference to any class. -/
lemma holds_ref_null (c : Text) : W.Holds (.ref c) .null := ⟨rfl, Or.inl rfl⟩

/-- Every slot that is made for a kind holds the values of that kind. -/
lemma holds_ofKind {k : Kind} {v : Value} (hv : v.kind = k)
    (href : k = .ref → v = .null ∨ W.inst v ClassName.object) : W.Holds (.ofKind k) v := by
  cases k with
  | ref => exact ⟨hv, href rfl⟩
  | _ => exact hv

/-- A slot of a kind that is no reference says only what kind its value has. -/
lemma holds_of_kind {t : SlotType} {v : Value} {k : Kind} (ht : t.kind? = some k) (hk : k ≠ .ref)
    (hv : v.kind = k) : W.Holds t v := by
  cases t <;> simp_all [SlotType.kind?, Holds]

end World

namespace World

/-- **A world at a later time**: more objects may have been made. -/
structure Later (W W' : World) : Prop where
  classes : W'.toClasses = W.toClasses
  made : ∀ o c, W.made o c → W'.made o c

lemma Later.refl (W : World) : Later W W := ⟨rfl, fun _ _ h => h⟩

lemma Holds.later {W W' : World} {t : SlotType} {v : Value} (h : W.Holds t v) (hW : W.Later W') :
    W'.Holds t v := by
  cases t with
  | ref c =>
      unfold Holds at h ⊢
      rw [hW.classes]
      exact h
  | pending n c copied =>
      obtain ⟨o, rfl, ho⟩ := h
      exact ⟨o, rfl, hW.made o c ho⟩
  | _ => exact h

end World

/-! ## The order of slot types -/

namespace Site

/-- A construction is pinned. -/
def Pinned (sites : List Site) (newAt : Nat) : Prop :=
  ∃ s ∈ sites, s.newAt = newAt ∧ s.pinned = true

/-- **A slot that may be used in any way**: it is no pending construction, or that is pinned. -/
def Free (sites : List Site) : SlotType → Prop
  | .pending newAt _ _ => Pinned sites newAt
  | _ => True

/-- A pending slot belongs to a construction that has been met. -/
def Known (sites : List Site) : SlotType → Prop
  | .pending newAt cls _ => ∃ s ∈ sites, s.newAt = newAt ∧ s.cls = cls
  | _ => True

/-- The `dup` at a position makes the copy of a construction. -/
def CopiedAt (sites : List Site) (newAt position : Nat) : Prop :=
  ∃ s ∈ sites, s.newAt = newAt ∧ s.dupAt = some position

/-- **Constructions only become more definite**: none is lost, a pin stays, and so does the place of a
copy. -/
def Grow (before after : List Site) : Prop :=
  ∀ s ∈ before, ∃ s' ∈ after, s'.newAt = s.newAt ∧ s'.cls = s.cls
    ∧ (s.pinned = true → s'.pinned = true) ∧ (∀ d, s.dupAt = some d → s'.dupAt = some d)

variable {sites sites' sites'' : List Site}

lemma Grow.refl (sites : List Site) : Grow sites sites :=
  fun s hs => ⟨s, hs, rfl, rfl, id, fun _ h => h⟩

lemma Grow.trans (h : Grow sites sites') (h' : Grow sites' sites'') : Grow sites sites'' := by
  intro s hs
  obtain ⟨s₁, hs₁, hn₁, hc₁, hp₁, hd₁⟩ := h s hs
  obtain ⟨s₂, hs₂, hn₂, hc₂, hp₂, hd₂⟩ := h' s₁ hs₁
  exact ⟨s₂, hs₂, hn₂.trans hn₁, hc₂.trans hc₁, hp₂ ∘ hp₁, fun d hd => hd₂ d (hd₁ d hd)⟩

lemma Pinned.grow {n : Nat} (h : Pinned sites n) (hg : Grow sites sites') : Pinned sites' n := by
  obtain ⟨s, hs, rfl, hp⟩ := h
  obtain ⟨s', hs', hn, -, hp', -⟩ := hg s hs
  exact ⟨s', hs', hn, hp' hp⟩

lemma CopiedAt.grow {n d : Nat} (h : CopiedAt sites n d) (hg : Grow sites sites') :
    CopiedAt sites' n d := by
  obtain ⟨s, hs, rfl, hd⟩ := h
  obtain ⟨s', hs', hn, -, -, hd'⟩ := hg s hs
  exact ⟨s', hs', hn, hd' d hd⟩

lemma Free.grow {t : SlotType} (h : Free sites t) (hg : Grow sites sites') : Free sites' t := by
  cases t with
  | pending n c b => exact Pinned.grow h hg
  | _ => trivial

lemma Known.grow {t : SlotType} (h : Known sites t) (hg : Grow sites sites') : Known sites' t := by
  cases t with
  | pending n c b =>
      obtain ⟨s, hs, rfl, rfl⟩ := h
      obtain ⟨s', hs', hn, hc, -⟩ := hg s hs
      exact ⟨s', hs', hn, hc⟩
  | _ => trivial

end Site

namespace SlotType

/-- **A slot rises on the operand stack**: it stays what it is, or becomes a reference to a class that
all its values belong to.  Only a pinned construction rises. -/
def Le (C : Classes) (sites : List Site) (a b : SlotType) : Prop :=
  a = b ∨ (Site.Free sites a
    ∧ ∃ c d, Analysis.settle a = .ref c ∧ b = .ref d ∧ ∀ v, C.inst v c → C.inst v d)

/-- A local rises in the same way, or becomes unusable. -/
def LeLocal (C : Classes) (sites : List Site) (a b : SlotType) : Prop :=
  Le C sites a b ∨ (Site.Free sites a ∧ b = .unusable)

variable {C : Classes} {sites sites' : List Site} {a b c : SlotType}

lemma Le.refl (a : SlotType) : Le C sites a a := Or.inl rfl

lemma LeLocal.refl (a : SlotType) : LeLocal C sites a a := Or.inl (Le.refl a)

lemma Le.grow (h : Le C sites a b) (hg : Site.Grow sites sites') : Le C sites' a b := by
  rcases h with h | ⟨hf, h⟩
  · exact Or.inl h
  · exact Or.inr ⟨hf.grow hg, h⟩

lemma LeLocal.grow (h : LeLocal C sites a b) (hg : Site.Grow sites sites') :
    LeLocal C sites' a b := by
  rcases h with h | ⟨hf, h⟩
  · exact Or.inl (h.grow hg)
  · exact Or.inr ⟨hf.grow hg, h⟩

lemma Le.trans (h : Le C sites a b) (h' : Le C sites b c) : Le C sites a c := by
  rcases h with rfl | ⟨hf, x, y, hx, rfl, hxy⟩
  · exact h'
  rcases h' with rfl | ⟨-, x', y', hx', rfl, hxy'⟩
  · exact Or.inr ⟨hf, x, y, hx, rfl, hxy⟩
  · simp only [Analysis.settle, SlotType.ref.injEq] at hx'
    subst hx'
    exact Or.inr ⟨hf, x, y', hx, rfl, fun v hv => hxy' v (hxy v hv)⟩

/-- Whatever lies below a slot that may be used freely may be used freely itself. -/
lemma Le.free (h : Le C sites a b) (hb : Site.Free sites b) : Site.Free sites a := by
  rcases h with rfl | ⟨hf, -⟩
  · exact hb
  · exact hf

lemma LeLocal.trans (h : LeLocal C sites a b) (h' : LeLocal C sites b c) : LeLocal C sites a c := by
  rcases h' with h' | ⟨hb, rfl⟩
  · rcases h with h | ⟨ha, rfl⟩
    · exact Or.inl (h.trans h')
    · rcases h' with rfl | ⟨-, x, y, hx, -⟩
      · exact Or.inr ⟨ha, rfl⟩
      · simp [Analysis.settle] at hx
  · rcases h with h | ⟨ha, rfl⟩
    · exact Or.inr ⟨h.free hb, rfl⟩
    · exact Or.inr ⟨ha, rfl⟩

/-- Below a pending construction there is only the construction itself. -/
lemma Le.eq_pending {n : Nat} {cls : Text} {copied : Bool}
    (h : Le C sites a (.pending n cls copied)) : a = .pending n cls copied := by
  rcases h with h | ⟨-, x, y, -, hy, -⟩
  · exact h
  · simp at hy

/-- Above a construction that is not pinned there is only the construction itself. -/
lemma Le.eq_of_not_free (h : Le C sites a b) (ha : ¬ Site.Free sites a) : b = a := by
  rcases h with h | ⟨hf, -⟩
  · exact h.symm
  · exact absurd hf ha

/-- A slot keeps its kind of storage. -/
lemma Le.kind?_eq (h : Le C sites a b) : a.kind? = b.kind? := by
  rcases h with rfl | ⟨-, x, y, hx, rfl, -⟩
  · rfl
  · cases a <;> simp_all [Analysis.settle, SlotType.kind?]

end SlotType

/-- **What holds of a value still holds when its slot rises.** -/
lemma World.Holds.mono {W : World} {sites : List Site} {a b : SlotType} {v : Value}
    (h : W.Holds a v) (hle : SlotType.Le W.toClasses sites a b) : W.Holds b v := by
  rcases hle with rfl | ⟨-, x, y, hx, rfl, hxy⟩
  · exact h
  cases a with
  | ref c =>
      simp only [Analysis.settle, SlotType.ref.injEq] at hx
      subst hx
      obtain ⟨hv, h | h⟩ := h
      · exact ⟨hv, Or.inl h⟩
      · exact ⟨hv, Or.inr (hxy v h)⟩
  | pending n c copied =>
      simp only [Analysis.settle, SlotType.ref.injEq] at hx
      subst hx
      obtain ⟨o, rfl, ho⟩ := h
      exact ⟨rfl, Or.inr (hxy _ (W.inst_of_made ho))⟩
  | _ => simp [Analysis.settle] at hx

/-! ## The order of frames -/

namespace Frame

/-- **A frame rises slot by slot**; the height of its stack stays. -/
structure Le (C : Classes) (sites : List Site) (f g : Frame) : Prop where
  stack : List.Forall₂ (SlotType.Le C sites) f.stack g.stack
  locals : List.Forall₂ (SlotType.LeLocal C sites) f.locals.toList g.locals.toList

variable {C : Classes} {sites sites' : List Site} {f g h : Frame}

lemma Le.refl (f : Frame) : Le C sites f f where
  stack := List.forall₂_same.mpr fun t _ => SlotType.Le.refl t
  locals := List.forall₂_same.mpr fun t _ => SlotType.LeLocal.refl t

lemma Le.grow (hle : Le C sites f g) (hg : Site.Grow sites sites') : Le C sites' f g where
  stack := hle.stack.imp fun _ _ hab => hab.grow hg
  locals := hle.locals.imp fun _ _ hab => hab.grow hg

/-- Relations that compose slot by slot compose on lists. -/
lemma forall₂_trans {R : SlotType → SlotType → Prop}
    (htrans : ∀ {a b c}, R a b → R b c → R a c) {as bs cs : List SlotType}
    (h : List.Forall₂ R as bs) (h' : List.Forall₂ R bs cs) : List.Forall₂ R as cs := by
  induction h generalizing cs with
  | nil => exact h'
  | cons hab _ ih =>
      cases h' with
      | cons hbc hrest => exact List.Forall₂.cons (htrans hab hbc) (ih hrest)

lemma Le.trans (hfg : Le C sites f g) (hgh : Le C sites g h) : Le C sites f h where
  stack := forall₂_trans (fun hab hbc => hab.trans hbc) hfg.stack hgh.stack
  locals := forall₂_trans (fun hab hbc => hab.trans hbc) hfg.locals hgh.locals

/-- All pending slots of a frame belong to constructions that have been met. -/
def Known (sites : List Site) (f : Frame) : Prop :=
  (∀ t ∈ f.stack, Site.Known sites t) ∧ ∀ t ∈ f.locals.toList, Site.Known sites t

lemma Known.grow (hf : Known sites f) (hg : Site.Grow sites sites') : Known sites' f :=
  ⟨fun t ht => (hf.1 t ht).grow hg, fun t ht => (hf.2 t ht).grow hg⟩

end Frame

end Suspension
