import Suspension.Proofs.Frame.Termination
import Suspension.Proofs.Hierarchy.Order

/-!
# Comparing frames

Two analyses are compared slot by slot.  Slots of one kind are compared, and references by their classes, in
some order of classes.  A pending construction counts as a reference to its class, unless it is one of those
that are **held**: these compare with themselves only.  What meets at a join is above both, and **below
whatever both are below**.

Locals that hold nothing usable are above all locals, or below all of them, or both: frames that bound an
analysis from above say nothing of such a local, and so do frames that bound it from below.

* `SlotOrder`, `SlotType.Below`, `SlotType.LocalBelow`, `Frame.Below` — the comparison.
* `SlotType.Joins`, `Analysis.merge_joins` — what two slots come to where they meet.
* `SlotType.Joins.above`, `SlotType.Joins.least` — it is above both, and the least such slot.
* `Frame.Joins`, `Analysis.mergeInto_joins` — a frame that reaches a position.
-/

namespace Suspension

/-! ## Slots -/

/-- **What a comparison of slots goes by**: an order of classes, the constructions that are held, and what an
unusable local says — that it is below all others, that it is above them. -/
structure SlotOrder where
  le : Text → Text → Prop
  held : Nat → Prop
  low : Prop
  high : Prop

namespace SlotType

/-- A slot that belongs to no construction that is held. -/
def Loose (held : Nat → Prop) : SlotType → Prop
  | .pending n _ _ => ¬ held n
  | _ => True

/-- **A slot is below another**: they are the same, or references to comparable classes. -/
inductive Below (O : SlotOrder) : SlotType → SlotType → Prop where
  | same (t : SlotType) : Below O t t
  | ref {t u : SlotType} {c d : Text} (ht : Analysis.settle t = .ref c) (hu : Analysis.settle u = .ref d)
      (hcd : O.le c d) (hlt : t.Loose O.held) (hlu : u.Loose O.held) : Below O t u

/-- **A local is below another**, or one of them says nothing. -/
inductive LocalBelow (O : SlotOrder) : SlotType → SlotType → Prop where
  | below {t u : SlotType} (h : Below O t u) : LocalBelow O t u
  | lower {u : SlotType} (hlow : O.low) : LocalBelow O .unusable u
  | upper {t : SlotType} (hhigh : O.high) (hlt : t.Loose O.held) : LocalBelow O t .unusable

variable {O O' O'' : SlotOrder} {held held' : Nat → Prop} {t u w : SlotType} {c d : Text} {n : Nat}

@[simp] lemma loose_ref : (SlotType.ref c).Loose held := trivial

@[simp] lemma loose_unusable : SlotType.unusable.Loose held := trivial

lemma loose_settle (t : SlotType) : (Analysis.settle t).Loose held := by cases t <;> trivial

/-- What may be used freely belongs to a pinned construction, or to none. -/
lemma loose_of_free {sites : List Site} (hheld : ∀ n, held n → ¬ Site.Pinned sites n)
    (h : Site.Free sites t) : t.Loose held := by
  cases t with
  | pending n cls copied => exact fun hn => hheld n hn h
  | _ => trivial

/-- Fewer constructions that are held. -/
lemma Loose.mono (h : t.Loose held) (hsub : ∀ n, held' n → held n) : t.Loose held' := by
  cases t with
  | pending n cls copied => exact fun hn => h (hsub n hn)
  | _ => trivial

lemma settle_eq_ref (h : t.kind? = some .ref) : ∃ c, Analysis.settle t = .ref c := by
  cases t with
  | ref c => exact ⟨c, rfl⟩
  | pending n c copied => exact ⟨c, rfl⟩
  | _ => cases h

lemma kind?_of_settle (h : Analysis.settle t = .ref c) : t.kind? = some .ref := by
  cases t <;> first | rfl | cases h

/-- A slot that settles to a reference knows its class. -/
lemma typeName_of_settle (h : Analysis.settle t = .ref c) : t.typeName = c := by
  cases t <;> cases h <;> rfl

namespace Below

lemma kind?_eq (h : Below O t u) : t.kind? = u.kind? := by
  cases h with
  | same => rfl
  | ref ht hu => rw [kind?_of_settle ht, kind?_of_settle hu]

lemma map_kind?_eq {ts us : List SlotType} (h : List.Forall₂ (Below O) ts us) :
    ts.map SlotType.kind? = us.map SlotType.kind? := by
  induction h with
  | nil => rfl
  | cons htu _ ih => rw [List.map_cons, List.map_cons, htu.kind?_eq, ih]

lemma loose_iff (h : Below O t u) : t.Loose O.held ↔ u.Loose O.held := by
  cases h with
  | same => exact Iff.rfl
  | ref ht hu hcd hlt hlu => exact iff_of_true hlt hlu

/-- A construction that is held compares with itself only. -/
lemma eq_of_not_loose (h : Below O t u) (ht : ¬ t.Loose O.held) : u = t := by
  cases h with
  | same => rfl
  | ref _ _ _ hlt => exact absurd hlt ht

lemma unusable_left (h : Below O .unusable u) : u = .unusable := by
  cases h with
  | same => rfl
  | ref ht => cases ht

lemma unusable_right (h : Below O t .unusable) : t = .unusable := by
  cases h with
  | same => rfl
  | ref _ hu => cases hu

lemma mono (h : Below O t u) (hle : ∀ {c d}, O.le c d → O'.le c d) (hheld : ∀ n, O'.held n → O.held n) :
    Below O' t u := by
  cases h with
  | same => exact .same _
  | ref ht hu hcd hlt hlu => exact .ref ht hu (hle hcd) (hlt.mono hheld) (hlu.mono hheld)

/-- **Slots that compare one after another compare.** -/
lemma trans (h : Below O t u) (h' : Below O' u w) (hle : ∀ {a b c}, O.le a b → O'.le b c → O''.le a c)
    (hl : ∀ {a b}, O.le a b → O''.le a b) (hr : ∀ {a b}, O'.le a b → O''.le a b)
    (hheld : O.held = O''.held) (hheld' : O'.held = O''.held) : Below O'' t w := by
  cases h with
  | same => exact h'.mono hr fun n hn => hheld' ▸ hn
  | ref ht hu hcd hlt hlu =>
      cases h' with
      | same => exact .ref ht hu (hl hcd) (hheld ▸ hlt) (hheld ▸ hlu)
      | ref hu' hw hcd' hlu' hlw =>
          rw [hu] at hu'
          cases hu'
          exact .ref ht hw (hle hcd hcd') (hheld ▸ hlt) (hheld' ▸ hlw)

/-- A slot compares with what it settles to, if its construction is not held. -/
lemma settle_right (hrefl : ∀ c, O.le c c) (h : t.Loose O.held) : Below O t (Analysis.settle t) := by
  cases t with
  | pending n c copied => exact .ref rfl rfl (hrefl c) h trivial
  | _ => exact .same _

lemma settle_left (hrefl : ∀ c, O.le c c) (h : t.Loose O.held) : Below O (Analysis.settle t) t := by
  cases t with
  | pending n c copied => exact .ref rfl rfl (hrefl c) trivial h
  | _ => exact .same _

end Below

/-! ### Constructions that are completed -/

lemma settle_completed (n : Nat) (t : SlotType) :
    Analysis.settle (Frame.completed n t) = Analysis.settle t := by
  unfold Frame.completed
  split
  · split <;> rfl
  · rfl

lemma Loose.completed (h : t.Loose held) (n : Nat) : (Frame.completed n t).Loose held := by
  unfold Frame.completed
  split
  · split
    · trivial
    · exact h
  · exact h

/-- Completing a construction that is not held leaves slots where they are. -/
lemma Below.completed_left (h : Below O t u) (hrefl : ∀ c, O.le c c) (hn : ¬ O.held n) :
    Below O (Frame.completed n t) u := by
  cases h with
  | same =>
      unfold Frame.completed
      split
      · next s cls copied =>
          split
          · next hs =>
              obtain rfl : s = n := by simpa using hs
              exact .ref rfl rfl (hrefl cls) trivial hn
          · exact .same _
      · exact .same _
  | ref ht hu hcd hlt hlu =>
      exact .ref ((settle_completed n t).trans ht) hu hcd (hlt.completed n) hlu

lemma Below.completed_right (h : Below O t u) (hrefl : ∀ c, O.le c c) (hn : ¬ O.held n) :
    Below O t (Frame.completed n u) := by
  cases h with
  | same =>
      unfold Frame.completed
      split
      · next s cls copied =>
          split
          · next hs =>
              obtain rfl : s = n := by simpa using hs
              exact .ref rfl rfl (hrefl cls) hn trivial
          · exact .same _
      · exact .same _
  | ref ht hu hcd hlt hlu =>
      exact .ref ht ((settle_completed n u).trans hu) hcd hlt (hlu.completed n)

/-- Completing one construction on both sides. -/
lemma Below.completed (h : Below O t u) (n : Nat) :
    Below O (Frame.completed n t) (Frame.completed n u) := by
  cases h with
  | same => exact .same _
  | ref ht hu hcd hlt hlu =>
      exact .ref ((settle_completed n t).trans ht) ((settle_completed n u).trans hu) hcd
        (hlt.completed n) (hlu.completed n)

namespace LocalBelow

/-- Locals that are usable compare as slots. -/
lemma below_of_usable (h : LocalBelow O t u) (ht : t ≠ .unusable) (hu : u ≠ .unusable) : Below O t u := by
  cases h with
  | below h => exact h
  | lower => exact absurd rfl ht
  | upper => exact absurd rfl hu

lemma mono (h : LocalBelow O t u) (hle : ∀ {c d}, O.le c d → O'.le c d)
    (hheld : ∀ n, O'.held n → O.held n) (hlow : O.low → O'.low) (hhigh : O.high → O'.high) :
    LocalBelow O' t u := by
  cases h with
  | below h => exact .below (h.mono hle hheld)
  | lower h => exact .lower (hlow h)
  | upper h ht => exact .upper (hhigh h) (ht.mono hheld)

/-- A function of slots that leaves unusable ones alone, and loose ones loose. -/
lemma map {f g : SlotType → SlotType} (h : LocalBelow O t u) (hf : f .unusable = .unusable)
    (hg : g .unusable = .unusable) (hloose : ∀ t, t.Loose O.held → (f t).Loose O.held)
    (hbelow : ∀ {t u}, Below O t u → Below O (f t) (g u)) : LocalBelow O (f t) (g u) := by
  cases h with
  | below h => exact .below (hbelow h)
  | lower h =>
      rw [hf]
      exact .lower h
  | upper h ht =>
      rw [hg]
      exact .upper h (hloose _ ht)

/-- **Locals that compare one after another compare**, unless the middle one says nothing on either side. -/
lemma trans (h : LocalBelow O t u) (h' : LocalBelow O' u w)
    (hbelow : ∀ {t u w}, Below O t u → Below O' u w → Below O'' t w)
    (hlow : O.low → O''.low) (hhigh : O.high → O''.high) (hlow' : O'.low → O''.low)
    (hhigh' : O'.high → O''.high) (hheld : O.held = O''.held) (hheld' : O'.held = O''.held)
    (hmiddle : ¬ (O.high ∧ O'.low)) : LocalBelow O'' t w := by
  cases h with
  | below h =>
      cases h' with
      | below h' => exact .below (hbelow h h')
      | lower hl =>
          obtain rfl := h.unusable_right
          exact .lower (hlow' hl)
      | upper hh hu => exact .upper (hhigh' hh) (by rw [← hheld, h.loose_iff, hheld, ← hheld']; exact hu)
  | lower hl => exact .lower (hlow hl)
  | upper hh ht =>
      cases h' with
      | below h' =>
          obtain rfl := h'.unusable_left
          exact .upper (hhigh hh) (hheld ▸ ht)
      | lower hl => exact absurd ⟨hh, hl⟩ hmiddle
      | upper hh' => exact .upper (hhigh hh) (hheld ▸ ht)

end LocalBelow

end SlotType

/-! ## Frames -/

/-- **A frame is below another**: slot by slot. -/
structure Frame.Below (O : SlotOrder) (f g : Frame) : Prop where
  stack : List.Forall₂ (SlotType.Below O) f.stack g.stack
  locals : List.Forall₂ (SlotType.LocalBelow O) f.locals.toList g.locals.toList

namespace Frame.Below

variable {O O' O'' : SlotOrder} {f g k : Frame}

/-- Relations that compose slot by slot compose on lists. -/
lemma forall₂_chain {R S T : SlotType → SlotType → Prop} (htrans : ∀ t u w, R t u → S u w → T t w)
    {ts us ws : List SlotType} (h : List.Forall₂ R ts us) (h' : List.Forall₂ S us ws) :
    List.Forall₂ T ts ws := by
  induction h generalizing ws with
  | nil =>
      cases h'
      exact .nil
  | cons htu _ ih =>
      cases h' with
      | cons huw hrest => exact .cons (htrans _ _ _ htu huw) (ih hrest)

lemma refl (O : SlotOrder) (f : Frame) : f.Below O f where
  stack := List.forall₂_same.mpr fun t _ => .same t
  locals := List.forall₂_same.mpr fun t _ => .below (.same t)

lemma size (h : f.Below O g) : f.locals.size = g.locals.size := by
  simpa using h.locals.length_eq

lemma mono (h : f.Below O g) (hle : ∀ {c d}, O.le c d → O'.le c d) (hheld : ∀ n, O'.held n → O.held n)
    (hlow : O.low → O'.low) (hhigh : O.high → O'.high) : f.Below O' g where
  stack := h.stack.imp fun _ _ h => h.mono hle hheld
  locals := h.locals.imp fun _ _ h => h.mono hle hheld hlow hhigh

/-- Two frames that compare do so local by local. -/
lemma getElem? (h : f.Below O g) {l : Nat} {t : SlotType} (ht : f.locals[l]? = some t) :
    ∃ u, g.locals[l]? = some u ∧ SlotType.LocalBelow O t u := by
  obtain ⟨hl, rfl⟩ := Array.getElem?_eq_some_iff.mp ht
  have hlt : l < g.locals.size := h.size ▸ hl
  refine ⟨g.locals[l], Array.getElem?_eq_getElem hlt, ?_⟩
  have := (List.forall₂_iff_get.mp h.locals).2 l (by simpa using hl) (by simpa using hlt)
  simpa using this

/-- **Frames that compare one after another compare**, in an order of classes. -/
lemma trans (h : f.Below O g) (h' : g.Below O' k) (hle : ∀ {a b c}, O.le a b → O'.le b c → O''.le a c)
    (hl : ∀ {a b}, O.le a b → O''.le a b) (hr : ∀ {a b}, O'.le a b → O''.le a b)
    (hlow : O.low → O''.low) (hhigh : O.high → O''.high) (hlow' : O'.low → O''.low)
    (hhigh' : O'.high → O''.high) (hheld : O.held = O''.held) (hheld' : O'.held = O''.held)
    (hmiddle : ¬ (O.high ∧ O'.low)) : f.Below O'' k := by
  have hbelow : ∀ t u w, SlotType.Below O t u → SlotType.Below O' u w → SlotType.Below O'' t w :=
    fun _ _ _ h h' => h.trans h' hle hl hr hheld hheld'
  have hlocal : ∀ t u w, SlotType.LocalBelow O t u → SlotType.LocalBelow O' u w →
      SlotType.LocalBelow O'' t w :=
    fun _ _ _ h h' => h.trans h' (hbelow _ _ _) hlow hhigh hlow' hhigh' hheld hheld' hmiddle
  exact ⟨forall₂_chain hbelow h.stack h'.stack, forall₂_chain hlocal h.locals h'.locals⟩

end Frame.Below

/-! ## Joins -/

namespace SlotType

/-- **What two slots come to where they meet**, on the operand stack or in a local. -/
inductive Joins (src : ClassSource) (V : ClassView) : Bool → SlotType → SlotType → SlotType → Prop where
  | same {onStack : Bool} (t : SlotType) : Joins src V onStack t t t
  | settled {onStack : Bool} {t u : SlotType} (hne : t ≠ u) (h : Analysis.settle t = Analysis.settle u) :
      Joins src V onStack t u (Analysis.settle t)
  | left {onStack : Bool} {t u : SlotType} {d : Text} (hne : t ≠ u) (ht : Analysis.settle t = .null)
      (hu : Analysis.settle u = .ref d) : Joins src V onStack t u (.ref d)
  | right {onStack : Bool} {t u : SlotType} {c : Text} (hne : t ≠ u) (ht : Analysis.settle t = .ref c)
      (hu : Analysis.settle u = .null) : Joins src V onStack t u (.ref c)
  | refs {onStack : Bool} {t u : SlotType} {c d : Text} {h : Hierarchy} (hne : t ≠ u)
      (ht : Analysis.settle t = .ref c) (hu : Analysis.settle u = .ref d) (hc : c ≠ ClassName.null)
      (hd : d ≠ ClassName.null) (hh : h.Shows src V) : Joins src V onStack t u (.ref (h.joined src c d))
  | clash {t u : SlotType} (hne : Analysis.settle t ≠ Analysis.settle u)
      (hnot : ∀ c d, Analysis.settle t = .ref c → Analysis.settle u ≠ .ref d) : Joins src V false t u .unusable

namespace Joins

variable {src : ClassSource} {V : ClassView} {onStack : Bool} {t u r w : SlotType} {O : SlotOrder}

/-- **What slots come to is above both**, as long as no construction is held. -/
lemma above (U : ClassOrder src V) (h : Joins src V onStack t u r) (hle : O.le = U.le)
    (hhigh : O.high) (ht : t ≠ u → t.Loose O.held) (hu : t ≠ u → u.Loose O.held) :
    LocalBelow O t r ∧ LocalBelow O u r ∧ (onStack = true → Below O t r ∧ Below O u r) := by
  have hrefl : ∀ c, O.le c c := fun c => hle ▸ U.refl c
  have hboth : Below O t r ∧ Below O u r →
      LocalBelow O t r ∧ LocalBelow O u r ∧ (onStack = true → Below O t r ∧ Below O u r) :=
    fun h => ⟨.below h.1, .below h.2, fun _ => h⟩
  cases h with
  | same => exact hboth ⟨.same _, .same _⟩
  | settled hne h =>
      exact hboth ⟨Below.settle_right hrefl (ht hne), h ▸ Below.settle_right hrefl (hu hne)⟩
  | left hne hn hd =>
      exact hboth ⟨.ref hn rfl (hle ▸ U.null _) (ht hne) trivial, .ref hd rfl (hrefl _) (hu hne) trivial⟩
  | right hne hc hn =>
      exact hboth ⟨.ref hc rfl (hrefl _) (ht hne) trivial, .ref hn rfl (hle ▸ U.null _) (hu hne) trivial⟩
  | refs hne hc hd _ _ hh =>
      have hj := fun a b => U.join (a := a) (b := b) hh
      exact hboth ⟨.ref hc rfl (hle ▸ (hj _ _).1) (ht hne) trivial,
        .ref hd rfl (hle ▸ (hj _ _).2) (hu hne) trivial⟩
  | clash hne =>
      have hne' : t ≠ u := fun heq => hne (heq ▸ rfl)
      exact ⟨.upper hhigh (ht hne'), .upper hhigh (hu hne'), fun hon => by cases hon⟩

/-- What a slot comes to with itself. -/
lemma self (h : Joins src V onStack t t r) : r = t := by
  cases h with
  | same => rfl
  | settled hne | left hne | right hne | refs hne => exact absurd rfl hne
  | clash hne => exact absurd rfl hne

/-- What both of two different slots are below is no construction that is held. -/
lemma loose_of_ne (hne : t ≠ u) (ht : Below O t w) (hu : Below O u w) :
    t.Loose O.held ∧ u.Loose O.held ∧ w.Loose O.held := by
  by_cases hw : w.Loose O.held
  · exact ⟨ht.loose_iff.mpr hw, hu.loose_iff.mpr hw, hw⟩
  · have h₁ := ht.eq_of_not_loose fun h => hw (ht.loose_iff.mp h)
    have h₂ := hu.eq_of_not_loose fun h => hw (hu.loose_iff.mp h)
    exact absurd (h₁.symm.trans h₂) hne

/-- **What slots come to is below whatever both are below.** -/
lemma least (U : ClassOrder src V) (h : Joins src V onStack t u r) (hle : O.le = U.le)
    (ht : Below O t w) (hu : Below O u w) : Below O r w := by
  have hrefl : ∀ c, O.le c c := fun c => hle ▸ U.refl c
  -- a slot above two references is a reference
  have hrefs : ∀ {t u : SlotType} {c : Text}, t ≠ u → Below O t w → Below O u w →
      Analysis.settle t = .ref c → ∃ e, Analysis.settle w = .ref e ∧ O.le c e := by
    intro t u c hne ht hu hc
    cases ht with
    | same => exact ⟨c, hc, hrefl c⟩
    | ref hc' he hce =>
        rw [hc] at hc'
        cases hc'
        exact ⟨_, he, hce⟩
  cases h with
  | same => exact ht
  | settled hne h =>
      obtain ⟨hlt, -, hlw⟩ := loose_of_ne hne ht hu
      cases ht with
      | same => exact Below.settle_left hrefl hlt
      | ref hc he hce => exact .ref (by rw [hc]; rfl) he hce (loose_settle _) hlw
  | left hne hn hd =>
      obtain ⟨-, -, hlw⟩ := loose_of_ne hne ht hu
      obtain ⟨e, he, hde⟩ := hrefs (Ne.symm hne) hu ht hd
      exact .ref rfl he hde trivial hlw
  | right hne hc hn =>
      obtain ⟨-, -, hlw⟩ := loose_of_ne hne ht hu
      obtain ⟨e, he, hce⟩ := hrefs hne ht hu hc
      exact .ref rfl he hce trivial hlw
  | refs hne hc hd hnc hnd hh =>
      obtain ⟨-, -, hlw⟩ := loose_of_ne hne ht hu
      obtain ⟨e, he, hce⟩ := hrefs hne ht hu hc
      obtain ⟨e', he', hde⟩ := hrefs (Ne.symm hne) hu ht hd
      rw [he] at he'
      cases he'
      refine .ref rfl he ?_ trivial hlw
      rw [hle] at hce hde ⊢
      exact U.least hh hnc hnd hce hde
  | clash hne hnot =>
      exfalso
      cases ht with
      | same =>
          cases hu with
          | same => exact hne rfl
          | ref hc hd => exact hnot _ _ hd hc
      | ref hc he =>
          cases hu with
          | same => exact hnot _ _ hc he
          | ref hd => exact hnot _ _ hc hd

/-- The same of locals. -/
lemma least_local (U : ClassOrder src V) (h : Joins src V onStack t u r) (hle : O.le = U.le)
    (ht : LocalBelow O t w) (hu : LocalBelow O u w) : LocalBelow O r w := by
  -- if one of two different slots is unusable, so is what they come to
  have hun : t = .unusable ∨ u = .unusable → t = u ∨ r = .unusable := by
    rintro (rfl | rfl)
    · cases h with
      | same => exact Or.inl rfl
      | settled | clash => exact Or.inr rfl
      | left _ hn | right _ hn | refs _ hn => cases hn
    · cases h with
      | same => exact Or.inl rfl
      | settled _ h => exact Or.inr h
      | clash => exact Or.inr rfl
      | left _ _ hn | right _ _ hn | refs _ _ hn => cases hn
  by_cases heq : t = u
  · subst heq
    exact h.self.symm ▸ ht
  have hr : r ≠ .unusable → t ≠ .unusable ∧ u ≠ .unusable := fun hr =>
    ⟨fun ht => (hun (Or.inl ht)).elim heq hr, fun hu => (hun (Or.inr hu)).elim heq hr⟩
  have hloose : t.Loose O.held → r.Loose O.held := by
    intro hlt
    cases h with
    | same => exact hlt
    | settled => exact loose_settle _
    | left | right | refs | clash => trivial
  cases ht with
  | below hb =>
      cases hu with
      | below hb' => exact .below (h.least U hle hb hb')
      | lower hlow => exact ((hun (Or.inr rfl)).resolve_left heq) ▸ .lower hlow
      | upper hhigh hlu => exact .upper hhigh (hloose (hb.loose_iff.mpr trivial))
  | lower hlow => exact ((hun (Or.inl rfl)).resolve_left heq) ▸ .lower hlow
  | upper hhigh hlt => exact .upper hhigh (hloose hlt)

end Joins

end SlotType

/-- **What two frames come to where they meet.**  Stacks are joined from the bottom up. -/
structure Frame.Joins (src : ClassSource) (V : ClassView) (f g r : Frame) : Prop where
  stack_length : f.stack.length = g.stack.length
  stack : List.Forall₂ (fun tu r => SlotType.Joins src V true tu.1 tu.2 r)
    (f.stack.reverse.zip g.stack.reverse) r.stack.reverse
  locals : List.Forall₂ (fun tu r => SlotType.Joins src V false tu.1 tu.2 r)
    (f.locals.toList.zip g.locals.toList) r.locals.toList

namespace Frame.Joins

variable {src : ClassSource} {V : ClassView} {O : SlotOrder} {f g r k : Frame}

/-- What slots come to one by one, they come to in a list. -/
lemma forall₂_zip {J : SlotType × SlotType → SlotType → Prop} {R S : SlotType → SlotType → Prop}
    {ts us rs : List SlotType} (hlen : ts.length = us.length) (h : List.Forall₂ J (ts.zip us) rs)
    (hJ : ∀ {t u r}, J (t, u) r → R t r ∧ S u r) : List.Forall₂ R ts rs ∧ List.Forall₂ S us rs := by
  induction ts generalizing us rs with
  | nil =>
      obtain rfl : us = [] := by simpa using hlen.symm
      cases h
      exact ⟨.nil, .nil⟩
  | cons t ts ih =>
      cases us with
      | nil => simp at hlen
      | cons u us =>
          cases h with
          | cons hj hrest =>
              obtain ⟨h₁, h₂⟩ := ih (by simpa using hlen) hrest
              exact ⟨.cons (hJ hj).1 h₁, .cons (hJ hj).2 h₂⟩

lemma forall₂_of_zip {J : SlotType × SlotType → SlotType → Prop} {R S T : SlotType → SlotType → Prop}
    {ts us rs ws : List SlotType} (h : List.Forall₂ J (ts.zip us) rs) (ht : List.Forall₂ R ts ws)
    (hu : List.Forall₂ S us ws) (hJ : ∀ {t u r w}, J (t, u) r → R t w → S u w → T r w) :
    List.Forall₂ T rs ws := by
  induction ht generalizing us rs with
  | nil =>
      cases hu
      cases h
      exact .nil
  | cons htw _ ih =>
      cases hu with
      | cons huw hu =>
          cases h with
          | cons hj h => exact .cons (hJ hj htw huw) (ih h hu)

/-- **What frames come to is above both**, no construction being held. -/
lemma above (U : ClassOrder src V) (h : Joins src V f g r) (hle : O.le = U.le) (hhigh : O.high)
    (hheld : ∀ n, ¬ O.held n) (hsize : f.locals.size = g.locals.size) : f.Below O r ∧ g.Below O r := by
  have hloose : ∀ t : SlotType, t.Loose O.held := by
    intro t
    cases t with
    | pending n cls copied => exact hheld n
    | _ => trivial
  obtain ⟨hs₁, hs₂⟩ := forall₂_zip (by simpa using h.stack_length) h.stack
    fun hj => (hj.above U hle hhigh (fun _ => hloose _) fun _ => hloose _).2.2 rfl
  obtain ⟨hl₁, hl₂⟩ := forall₂_zip (by simpa using hsize) h.locals fun hj =>
    ⟨(hj.above U hle hhigh (fun _ => hloose _) fun _ => hloose _).1,
      (hj.above U hle hhigh (fun _ => hloose _) fun _ => hloose _).2.1⟩
  exact ⟨⟨List.forall₂_reverse_iff.mp hs₁, hl₁⟩, ⟨List.forall₂_reverse_iff.mp hs₂, hl₂⟩⟩

/-- **What frames come to is below whatever both are below.** -/
lemma least (U : ClassOrder src V) (h : Joins src V f g r) (hle : O.le = U.le) (hf : f.Below O k)
    (hg : g.Below O k) : r.Below O k where
  stack := List.forall₂_reverse_iff.mp (forall₂_of_zip h.stack (List.forall₂_reverse_iff.mpr hf.stack)
    (List.forall₂_reverse_iff.mpr hg.stack) fun hj => hj.least U hle)
  locals := forall₂_of_zip h.locals hf.locals hg.locals fun hj => hj.least_local U hle

end Frame.Joins

/-! ## Merging -/

namespace Analysis

open Transfer

variable {ctx : AnalysisContext} {V : ClassView} {a a' : Analysis} {position : Nat}

/-- **Merging joins.** -/
lemma merge_joins (ha : a.hierarchy.Shows ctx.source V) {t u r : SlotType} {onStack : Bool}
    (h : Gives (merge ctx position t u onStack) a r a') : SlotType.Joins ctx.source V onStack t u r := by
  have hlasting := Hierarchy.lasting_shows ctx.source V
  unfold merge at h
  split at h
  · next heq =>
      obtain ⟨rfl, -⟩ := gives_pure.mp h
      obtain rfl : r = u := by simpa using heq
      exact .same _
  next hne =>
  have hne : t ≠ u := by simpa using hne
  obtain ⟨_, a₁, hpin₁, h⟩ := gives_bind.mp h
  obtain ⟨_, a₂, hpin₂, h⟩ := gives_bind.mp h
  have ha₁ := (respects_pinSlot hlasting _ _ _).gives hpin₁ ha
  have ha₂ := (respects_pinSlot hlasting _ _ _).gives hpin₂ ha₁
  simp only at h
  split at h
  · next heq =>
      obtain ⟨rfl, -⟩ := gives_pure.mp h
      exact .settled hne (by simpa using heq)
  next hdiffer =>
  have hdiffer : settle t ≠ settle u := by simpa using hdiffer
  split at h
  · next c d hc hd =>
      split at h
      · next hnull =>
          obtain ⟨rfl, -⟩ := gives_pure.mp h
          rw [hd]
          exact .left hne (by simpa [SlotType.isNull] using hnull) hd
      next hnc =>
      split at h
      · next hnull =>
          obtain ⟨rfl, -⟩ := gives_pure.mp h
          rw [hc]
          exact .right hne hc (by simpa [SlotType.isNull] using hnull)
      next hnd =>
      have hnc : c ≠ ClassName.null := by simpa [SlotType.isNull, SlotType.null, hc] using hnc
      have hnd : d ≠ ClassName.null := by simpa [SlotType.isNull, SlotType.null, hd] using hnd
      obtain ⟨sup, a₃, hask, h⟩ := gives_bind.mp h
      have hsup := (ask_gives hask).1
      have hj : SlotType.Joins ctx.source V onStack _ _ _ := .refs hne hc hd hnc hnd ha₂
      split at h
      · next e =>
          obtain ⟨rfl, -⟩ := gives_pure.mp h
          rwa [show a₂.hierarchy.joined ctx.source c d = e by rw [Hierarchy.joined, ← hsup]; rfl] at hj
      · obtain ⟨rfl, -⟩ := gives_pure.mp h
        rwa [show a₂.hierarchy.joined ctx.source c d = ClassName.object by
          rw [Hierarchy.joined, ← hsup]; rfl] at hj
  · next hnot =>
      split at h
      · simp at h
      · next hon =>
          obtain ⟨rfl, -⟩ := gives_pure.mp h
          obtain rfl : onStack = false := by simpa using hon
          exact .clash hdiffer hnot

lemma mergeLocals_joins (ha : a.hierarchy.Shows ctx.source V) {ts us rs : List SlotType}
    (hlen : ts.length = us.length) (h : Gives (mergeLocals ctx position ts us) a rs a') :
    List.Forall₂ (fun tu r => SlotType.Joins ctx.source V false tu.1 tu.2 r) (ts.zip us) rs := by
  induction ts generalizing us rs a a' with
  | nil =>
      obtain ⟨rfl, -⟩ := gives_pure.mp h
      exact .nil
  | cons t ts ih =>
      cases us with
      | nil => simp at hlen
      | cons u us =>
          obtain ⟨r, a₁, hmerge, h⟩ := gives_bind.mp h
          obtain ⟨rs', a₂, hrest, h⟩ := gives_bind.mp h
          obtain ⟨rfl, -⟩ := gives_pure.mp h
          have ha₁ := (respects_merge (Hierarchy.lasting_shows _ V) _ _ _ _).gives hmerge ha
          exact .cons (merge_joins ha hmerge) (ih ha₁ (by simpa using hlen) hrest)

lemma mergeStack_joins (ha : a.hierarchy.Shows ctx.source V) {target slot : Nat} {ts us rs : List SlotType}
    (hlen : ts.length = us.length) (h : Gives (mergeStack ctx position target slot ts us) a rs a') :
    List.Forall₂ (fun tu r => SlotType.Joins ctx.source V true tu.1 tu.2 r) (ts.zip us) rs := by
  induction ts generalizing us rs a a' slot with
  | nil =>
      obtain ⟨rfl, -⟩ := gives_pure.mp h
      exact .nil
  | cons t ts ih =>
      cases us with
      | nil => simp at hlen
      | cons u us =>
          obtain ⟨r, a₁, hmerge, h⟩ := gives_bind.mp h
          obtain ⟨rs', a₂, hrest, h⟩ := gives_bind.mp h
          obtain ⟨rfl, -⟩ := gives_pure.mp h
          have hmerge := gives_adapt.mp hmerge
          have ha₁ := (respects_merge (Hierarchy.lasting_shows _ V) _ _ _ _).gives hmerge ha
          exact .cons (merge_joins ha hmerge) (ih ha₁ (by simpa using hlen) hrest)

/-- **What a frame does at a position that it reaches**: it is the first one there, or it is joined with the
one that was.  All other frames stay. -/
lemma mergeInto_joins (ha : a.hierarchy.Shows ctx.source V) {target : Nat} {f : Frame} {u : Unit}
    (hwidth : ∀ old, a.frames[target]? = some (some old) → old.locals.size = f.locals.size)
    (h : Gives (mergeInto ctx position target f) a u a') :
    (a.frames[target]? = none ∧ a'.frames = a.frames) ∨
      ∃ new, a'.frames = a.frames.set! target (some new) ∧ target < a.frames.size ∧
        ((a.frames[target]? = some none ∧ new = f) ∨
          ∃ old, a.frames[target]? = some (some old) ∧ Frame.Joins ctx.source V old f new) := by
  have hlasting := Hierarchy.lasting_shows ctx.source V
  rcases mergeInto_cases h with ⟨hnone, rfl⟩ | ⟨hnone, rfl⟩ | ⟨old, locals, stack, a₁, a₂, hold, hlen, hl,
    hs, h⟩
  · exact Or.inl ⟨hnone, rfl⟩
  · exact Or.inr ⟨f, rfl, (Array.getElem?_eq_some_iff.mp hnone).1, Or.inl ⟨hnone, rfl⟩⟩
  have hlt := (Array.getElem?_eq_some_iff.mp hold).1
  have hlocals := mergeLocals_joins ha (by simpa using hwidth old hold) hl
  have hstack := mergeStack_joins ((respects_mergeLocals hlasting _ _ _).gives hl ha)
    (by simpa using hlen) hs
  obtain ⟨-, hframes₁, -⟩ := mergeLocals_rises ha hl
  obtain ⟨-, hframes₂, -⟩ := mergeStack_rises ((respects_mergeLocals hlasting _ _ _).gives hl ha) hs
  have hjoins : Frame.Joins ctx.source V old f ⟨locals.toArray, stack.reverse⟩ :=
    ⟨hlen, by simpa using hstack, hlocals⟩
  refine Or.inr ⟨⟨locals.toArray, stack.reverse⟩, ?_, hlt, Or.inr ⟨old, hold, hjoins⟩⟩
  rcases h with ⟨hsame, rfl⟩ | ⟨-, rfl⟩
  · rw [hframes₂.trans hframes₁, hsame, Array.set!_eq_setIfInBounds]
    refine Array.ext_getElem? fun i => ?_
    rw [Array.getElem?_setIfInBounds]
    split
    · next hi =>
        subst hi
        exact hold
    · rfl
  · rw [hframes₂.trans hframes₁]

end Analysis

end Suspension
