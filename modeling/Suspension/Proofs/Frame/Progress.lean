import Suspension.Proofs.Frame.Settling

/-!
# Frames on which instructions succeed

An instruction that makes a transition of some frame **succeeds on every frame below it**: the kinds of what
it takes are the same there.  Constructions that are held stay what they are on the way, unpinned and copied
nowhere else; and frames that are below one frame can be merged.

* `Site.Noted`, `Transfer.Succeeds` — a step succeeds and leaves the constructions that are held alone.
* `Frame.Shape.succeeds` — taking slots and putting slots.
* `Frame.Transition.succeeds` — every instruction.
* `Analysis.mergeInto_succeeds` — merging.
-/

namespace Suspension

/-- **The class that an instruction works on has a name.** -/
def Instruction.Named (instr : Instruction) : Prop :=
  instr.opcode ∈ [Opcode.new, .newArray, .newRefArray, .checkCast] → instr.operand ≠ .type []

/-! ## Steps that succeed -/

namespace Site

/-- **Constructions that are held** are not pinned, and copied in one place. -/
structure Held (held : Nat → Prop) (sites : List Site) : Prop where
  unpinned : ∀ n, held n → ¬ Pinned sites n
  copied : ∀ n d d', held n → CopiedAt sites n d → CopiedAt sites n d' → d = d'

/-- **Of constructions that are held nothing else is noted**: none is pinned, or copied elsewhere than others
say. -/
def Noted (held : Nat → Prop) (others sites : List Site) : Prop :=
  ∀ s ∈ sites, held s.newAt → s.pinned = false ∧ ∀ d, s.dupAt = some d → CopiedAt others s.newAt d

end Site

namespace Transfer

/-- **A step succeeds** and notes nothing else of the constructions that are held. -/
def Succeeds {α : Type} (held : Nat → Prop) (S : List Site) (x : Transfer α) (a : Analysis) (P : α → Prop) :
    Prop :=
  ∃ r a', Gives x a r a' ∧ Site.Noted held S a'.sites ∧ P r

variable {held : Nat → Prop} {S : List Site} {α β : Type} {a : Analysis} {ctx : AnalysisContext}
  {position : Nat} {u : SlotType}

lemma succeeds_pure {r : α} {P : α → Prop} (ha : Site.Noted held S a.sites) (hr : P r) :
    Succeeds held S (pure r) a P :=
  ⟨r, a, by simp, ha, hr⟩

lemma Succeeds.bind {x : Transfer α} {f : α → Transfer β} {P : α → Prop} {Q : β → Prop}
    (hx : Succeeds held S x a P) (hf : ∀ r a', P r → Site.Noted held S a'.sites → Succeeds held S (f r) a' Q) :
    Succeeds held S (x >>= f) a Q := by
  obtain ⟨r, a₁, hg, ha₁, hr⟩ := hx
  obtain ⟨s, a₂, hg', ha₂, hs⟩ := hf r a₁ hr ha₁
  exact ⟨s, a₂, gives_bind.mpr ⟨r, a₁, hg, hg'⟩, ha₂, hs⟩

lemma Succeeds.get_bind {f : Analysis → Transfer β} {Q : β → Prop} (hf : Succeeds held S (f a) a Q) :
    Succeeds held S (get >>= f) a Q := by
  obtain ⟨s, a', hg, hs⟩ := hf
  exact ⟨s, a', gives_bind.mpr ⟨a, a, gives_get.mpr ⟨rfl, rfl⟩, hg⟩, hs⟩

lemma Succeeds.adapt {x : Transfer α} {P : α → Prop} (hx : Succeeds held S x a P)
    (g : FrameFault → FrameFault) : Succeeds held S (ExceptT.adapt g x) a P := by
  obtain ⟨r, a', hg, h⟩ := hx
  exact ⟨r, a', gives_adapt.mpr hg, h⟩

/-- A note about one construction is none about those that are held, if it is not. -/
lemma noted_map {sites : List Site} {n : Nat} {g : Site → Site} (hn : ¬ held n)
    (hg : ∀ s, (g s).newAt = s.newAt) (h : Site.Noted held S sites) :
    Site.Noted held S (sites.map fun s => if s.newAt == n then g s else s) := by
  intro s' hs' hheld
  obtain ⟨s, hs, rfl⟩ := List.mem_map.mp hs'
  by_cases hsn : s.newAt = n
  · rw [if_pos (by simpa using hsn), hg] at hheld
    exact absurd (hsn ▸ hheld) hn
  · rw [if_neg (by simpa using hsn)] at hheld ⊢
    exact h s hs hheld

lemma succeeds_site? {n : Nat} (ha : Site.Noted held S a.sites) :
    Succeeds held S (site? n) a fun r =>
      ∀ s, r = some s → held n → ∀ d, s.dupAt = some d → Site.CopiedAt S n d := by
  refine ⟨_, a, gives_site?.mpr ⟨rfl, rfl⟩, ha, fun s hs hn => ?_⟩
  obtain rfl : s.newAt = n := by simpa using List.find?_some hs
  exact (ha s (List.mem_of_find?_eq_some hs) hn).2

lemma succeeds_modifySite {n : Nat} (hn : ¬ held n) {g : Site → Site} (hg : ∀ s, (g s).newAt = s.newAt)
    (ha : Site.Noted held S a.sites) : Succeeds held S (modifySite n g) a fun _ => True :=
  ⟨(), _, gives_modify.mpr rfl, noted_map hn hg ha, trivial⟩

/-- **Pinning what is not held.** -/
lemma succeeds_pin {n : Nat} (hn : ¬ held n) (reason : Text) (ha : Site.Noted held S a.sites) :
    Succeeds held S (pin ctx position n reason) a fun _ => True := by
  unfold pin
  refine (succeeds_site? ha).bind fun s a₁ _ ha => ?_
  cases s with
  | none => exact succeeds_pure ha trivial
  | some s =>
      by_cases hp : s.pinned
      · simp only [hp, if_true]
        exact succeeds_pure ha trivial
      · simp only [hp]
        refine (succeeds_modifySite hn (by intro; rfl) ha).bind fun _ _ _ ha => ?_
        exact ⟨(), _, gives_modify.mpr rfl, ha, trivial⟩

lemma succeeds_pinSlot (hu : u.Loose held) (reason : Text) (ha : Site.Noted held S a.sites) :
    Succeeds held S (pinSlot ctx position u reason) a fun _ => True := by
  cases u with
  | pending n c copied => exact succeeds_pin hu reason ha
  | _ => exact succeeds_pure ha trivial

end Transfer

namespace Frame

open Transfer Analysis

variable {held : Nat → Prop} {S : List Site} {a : Analysis} {ctx : AnalysisContext} {position : Nat}
  {f g g' : Frame} {instr : Instruction} {u : SlotType} {us rest : List SlotType}

lemma succeeds_pop (hs : f.stack = u :: rest) (ha : Site.Noted held S a.sites) :
    Succeeds held S f.pop a (· = (u, ⟨f.locals, rest⟩)) := by
  unfold pop
  rw [hs]
  exact succeeds_pure ha rfl

lemma succeeds_checkKind {want : Option Kind} (hk : u.kind? = want) (ha : Site.Noted held S a.sites) :
    Succeeds held S (checkKind u want) a fun _ => True := by
  unfold checkKind
  rw [if_pos (by simpa using hk)]
  exact succeeds_pure ha trivial

lemma succeeds_popKind {want : Option Kind} (hs : f.stack = u :: rest) (hk : u.kind? = want)
    (hu : u.Loose held) (ha : Site.Noted held S a.sites) :
    Succeeds held S (f.popKind ctx position want) a (· = (u, ⟨f.locals, rest⟩)) := by
  unfold popKind
  refine (succeeds_pop hs ha).bind fun _ _ hr ha => ?_
  subst hr
  refine (succeeds_checkKind hk ha).bind fun _ _ _ ha => ?_
  exact (succeeds_pinSlot hu _ ha).bind fun _ _ _ ha => succeeds_pure ha rfl

/-- Slots of given kinds. -/
lemma succeeds_popKinds {ks : List Kind} (hs : f.stack = us ++ rest)
    (hk : us.map SlotType.kind? = ks.map some) (hu : ∀ u ∈ us, u.Loose held)
    (ha : Site.Noted held S a.sites) :
    Succeeds held S (popKinds ctx position ks f) a (· = ⟨f.locals, rest⟩) := by
  induction ks generalizing us f a with
  | nil =>
      obtain rfl : us = [] := by simpa using hk
      exact succeeds_pure ha (by rw [← List.nil_append rest, ← hs])
  | cons k ks ih =>
      cases us with
      | nil => cases hk
      | cons u us =>
          simp only [List.map_cons, List.cons.injEq] at hk
          refine (succeeds_popKind hs hk.1 (hu u List.mem_cons_self) ha).bind fun _ _ hr ha => ?_
          subst hr
          exact ih rfl hk.2 (fun v hv => hu v (List.mem_cons_of_mem _ hv)) ha

lemma succeeds_popArgs {m : Member} {params : List (Nat × Text)} (hs : f.stack = us ++ rest)
    (hk : us.map SlotType.kind? = params.map fun p => (SlotType.ofDesc p.2).kind?)
    (hu : ∀ u ∈ us, u.Loose held) (ha : Site.Noted held S a.sites) :
    Succeeds held S (popArgs ctx position m params f) a (· = ⟨f.locals, rest⟩) := by
  induction params generalizing us f a with
  | nil =>
      obtain rfl : us = [] := by simpa using hk
      exact succeeds_pure ha (by rw [← List.nil_append rest, ← hs])
  | cons p params ih =>
      cases us with
      | nil => cases hk
      | cons u us =>
          obtain ⟨j, desc⟩ := p
          simp only [List.map_cons, List.cons.injEq] at hk
          refine ((succeeds_popKind hs hk.1 (hu u List.mem_cons_self) ha).adapt _).bind fun _ _ hr ha => ?_
          subst hr
          exact ih rfl hk.2 (fun v hv => hu v (List.mem_cons_of_mem _ hv)) ha

lemma succeeds_pinAll (hu : ∀ u ∈ us, u.Loose held) (reason : Text) (ha : Site.Noted held S a.sites) :
    Succeeds held S (pinAll ctx position reason us) a fun _ => True := by
  induction us generalizing a with
  | nil => exact succeeds_pure ha trivial
  | cons u us ih =>
      refine (succeeds_pinSlot (hu u List.mem_cons_self) _ ha).bind fun _ _ _ ha => ?_
      exact ih (fun v hv => hu v (List.mem_cons_of_mem _ hv)) ha

lemma succeeds_localOperand {n : UInt32} (ho : instr.operand = .slot n) (hn : n.toNat < f.locals.size)
    (ha : Site.Noted held S a.sites) : Succeeds held S (localOperand instr f) a (· = n.toNat) := by
  unfold localOperand
  rw [ho]
  simp only [hn, if_true]
  exact succeeds_pure ha rfl

lemma succeeds_typeOperand {cls : Text} (ho : instr.operand = .type cls) (hne : cls ≠ [])
    (ha : Site.Noted held S a.sites) : Succeeds held S (typeOperand instr) a (· = cls) := by
  unfold typeOperand
  rw [ho]
  simp only [List.isEmpty_iff, hne, if_false]
  exact succeeds_pure ha rfl

lemma succeeds_memberOperand {m : Member} (ho : instr.operand = .member m)
    (ha : Site.Noted held S a.sites) : Succeeds held S (memberOperand instr) a (· = m) := by
  unfold memberOperand
  rw [ho]
  exact succeeds_pure ha rfl

/-- Copying a slot of no construction that is held. -/
lemma succeeds_dup (hs : f.stack = u :: rest) (hu : u.Loose held) (ha : Site.Noted held S a.sites) :
    Succeeds held S (dup ctx position f) a fun _ => True := by
  unfold dup
  rw [hs]
  cases u with
  | pending n cls copied =>
      refine (succeeds_site? ha).bind fun s _ _ ha => ?_
      simp only
      split
      · exact (succeeds_modifySite hu (by intro; rfl) ha).bind fun _ _ _ ha => succeeds_pure ha trivial
      · exact (succeeds_pin hu _ ha).bind fun _ _ _ ha => succeeds_pure ha trivial
  | _ => exact succeeds_pure ha trivial

/-- Copying a reference of a construction that is held, where it is copied. -/
lemma succeeds_copy (hS : Site.Held held S) {n : Nat} {cls : Text} (hs : f.stack = .pending n cls false :: rest)
    (hn : held n) (hc : Site.CopiedAt S n position) (ha : Site.Noted held S a.sites) :
    Succeeds held S (dup ctx position f) a fun _ => True := by
  unfold dup
  rw [hs]
  refine (succeeds_site? ha).bind fun s a₁ hs ha => ?_
  have hseen : ((s.bind (·.dupAt)).isNone || s.bind (·.dupAt) == some position) = true := by
    cases hd : s.bind (·.dupAt) with
    | none => rfl
    | some d =>
        obtain ⟨s, rfl, hd⟩ := Option.bind_eq_some_iff.mp hd
        obtain rfl := hS.copied n d position hn (hs s rfl hn d hd) hc
        simp
  simp only [hseen, Bool.not_false, Bool.and_self, if_true]
  refine Succeeds.bind (P := fun _ => True) ⟨(), _, gives_modify.mpr rfl, ?_, trivial⟩
    fun _ _ _ ha => succeeds_pure ha trivial
  intro s' hs' hheld
  obtain ⟨s₀, hs₀, rfl⟩ := List.mem_map.mp hs'
  by_cases h₀ : s₀.newAt = n
  · rw [if_pos (by simpa using h₀)] at hheld ⊢
    refine ⟨(ha s₀ hs₀ hheld).1, fun d hd => ?_⟩
    obtain rfl : position = d := Option.some.inj hd
    exact h₀ ▸ hc
  · rw [if_neg (by simpa using h₀)] at hheld ⊢
    exact ha s₀ hs₀ hheld

/-- The receiver of a call, which is of no construction that is held. -/
lemma succeeds_popReceiver {mode : InvokeMode} {m : Member} (hs : f.stack = u :: rest)
    (hk : u.kind? = some .ref) (hu : u.Loose held) (ha : Site.Noted held S a.sites) :
    Succeeds held S (popReceiver ctx position mode m f) a fun _ => True := by
  unfold popReceiver
  refine (succeeds_pop hs ha).bind fun r _ hr ha => ?_
  subst hr
  simp only [hk, bne_self_eq_false, Bool.false_eq_true, if_false]
  cases u with
  | pending n cls copied =>
      simp only
      split
      · unfold construct
        split
        · exact (succeeds_pin hu _ ha).bind fun _ _ _ ha => succeeds_pure ha trivial
        · exact succeeds_pure ha trivial
      · exact (succeeds_pin hu _ ha).bind fun _ _ _ ha => succeeds_pure ha trivial
  | _ => exact succeeds_pure ha trivial

/-- The receiver of a constructor call, which is the copy with the other reference below it. -/
lemma succeeds_popPair {n : Nat} {cls : Text} {m : Member} (hs : f.stack = .pending n cls true :: rest)
    (hbelow : rest.head? = some (.pending n cls false)) (hm : m.name = Text.ofString "<init>")
    (ha : Site.Noted held S a.sites) :
    Succeeds held S (popReceiver ctx position .special m f) a fun _ => True := by
  unfold popReceiver
  refine (succeeds_pop hs ha).bind fun r _ hr ha => ?_
  subst hr
  simp only [SlotType.kind?, bne_self_eq_false, Bool.false_eq_true, if_false, hm, BEq.rfl, Bool.and_self,
    if_true, construct, hbelow, Bool.not_true, Bool.or_self]
  exact succeeds_pure ha trivial

/-! ## Instructions -/

/-- **A slot takes the place of another**: it is of the same kind, and of no construction that is held. -/
structure Serves (held : Nat → Prop) (t u : SlotType) : Prop where
  kind : u.kind? = t.kind?
  loose : u.Loose held

lemma Serves.map_kind? {used : List SlotType} (h : List.Forall₂ (Serves held) used us) :
    us.map SlotType.kind? = used.map SlotType.kind? := by
  induction h with
  | nil => rfl
  | cons h _ ih => rw [List.map_cons, List.map_cons, ih, h.kind]

lemma Serves.all_loose {used : List SlotType} (h : List.Forall₂ (Serves held) used us) :
    ∀ u ∈ us, u.Loose held := by
  induction h with
  | nil => simp
  | cons h _ ih => exact List.forall_mem_cons.mpr ⟨h.loose, ih⟩

/-- Lists that are related to two lists in sequence are two lists in sequence. -/
lemma forall₂_append_right {R : SlotType → SlotType → Prop} {ts ts' vs : List SlotType}
    (h : List.Forall₂ R (ts ++ ts') vs) :
    ∃ us us', vs = us ++ us' ∧ List.Forall₂ R ts us ∧ List.Forall₂ R ts' us' := by
  have htake := List.forall₂_take ts.length h
  have hdrop := List.forall₂_drop ts.length h
  rw [List.take_left] at htake
  rw [List.drop_left] at hdrop
  exact ⟨_, _, (List.take_append_drop _ _).symm, htake, hdrop⟩

/-- **An instruction that takes slots and puts slots succeeds** on slots that take the place of those. -/
lemma Shape.succeeds {locals : Array SlotType} {used put : List SlotType} (h : Shape instr locals used put)
    (hnamed : instr.Named) (hus : List.Forall₂ (Serves held) used us) (hs : f.stack = us ++ rest)
    (hlocals : ∀ (n : Nat) (t : SlotType) (k : Kind), locals[n]? = some t → t.kind? = some k →
      ∃ u, f.locals[n]? = some u ∧ u.kind? = some k) (ha : Site.Noted held S a.sites) :
    Succeeds held S (f.execute ctx position instr) a fun _ => True := by
  obtain ⟨op, operand⟩ := instr
  cases h with
  | idle hop =>
      rcases hop with hop | hop
      all_goals
        obtain rfl := hop
        exact succeeds_pure ha trivial
  | null hop | text hop =>
      obtain rfl := hop
      exact succeeds_pure ha trivial
  | @load k n t hop ho ht hk =>
      obtain rfl := hop
      obtain rfl := ho
      obtain ⟨u, hu, hku⟩ := hlocals n.toNat t k ht hk
      obtain ⟨hlt, hget⟩ := Array.getElem?_eq_some_iff.mp hu
      change Succeeds held S (Frame.load _ k f) a _
      refine (succeeds_localOperand rfl hlt ha).bind fun r _ hr ha => ?_
      subst hr
      have hgetD : f.locals.getD n.toNat .unusable = u := by simp [Array.getD, hlt, hget]
      simp only [hgetD, hku, beq_self_eq_true, if_true]
      exact succeeds_pure ha trivial
  | @increment n delta t hop ho ht hk =>
      obtain rfl := hop
      obtain rfl := ho
      obtain ⟨u, hu, hku⟩ := hlocals n.toNat t .int ht hk
      change Succeeds held S (Frame.increment ⟨.increment, .increment n delta⟩ f) a _
      simp only [Frame.increment, hu]
      exact (succeeds_checkKind hku ha).bind fun _ _ _ ha => succeeds_pure ha trivial
  | element hop hi harr =>
      obtain rfl := hop
      obtain _ | ⟨hui, _ | ⟨hua, _ | _⟩⟩ := hus
      refine (succeeds_popKind hs (hui.kind.trans hi) hui.loose ha).bind fun r _ hr ha => ?_
      subst hr
      refine (succeeds_popKind rfl (hua.kind.trans harr) hua.loose ha).bind fun r _ hr ha => ?_
      exact succeeds_pure ha trivial
  | array hop ho hn | refArray hop ho hn | cast hop ho hn =>
      obtain rfl := hop
      obtain rfl := ho
      obtain _ | ⟨hun, _ | _⟩ := hus
      refine (succeeds_popKind hs (hun.kind.trans hn) hun.loose ha).bind fun r _ hr ha => ?_
      refine (succeeds_typeOperand rfl (fun h => hnamed (by simp) (by rw [h])) ha).bind fun r _ hr ha => ?_
      exact succeeds_pure ha trivial
  | pop hop =>
      obtain rfl := hop
      obtain _ | ⟨hut, _ | _⟩ := hus
      refine (succeeds_pop hs ha).bind fun r _ hr ha => ?_
      subst hr
      exact (succeeds_pinSlot hut.loose _ ha).bind fun _ _ _ ha => succeeds_pure ha trivial
  | pop2 hop =>
      obtain rfl := hop
      obtain _ | ⟨hut, _ | ⟨huw, _ | _⟩⟩ := hus
      refine (succeeds_pop hs ha).bind fun r _ hr ha => ?_
      subst hr
      refine (succeeds_pinSlot hut.loose _ ha).bind fun _ _ _ ha => ?_
      refine (succeeds_pop rfl ha).bind fun r _ hr ha => ?_
      subst hr
      exact (succeeds_pinSlot huw.loose _ ha).bind fun _ _ _ ha => succeeds_pure ha trivial
  | dup hop =>
      obtain rfl := hop
      obtain _ | ⟨hut, _ | _⟩ := hus
      exact succeeds_dup hs hut.loose ha
  | dupX1 hop | dup2 hop | swap hop =>
      obtain rfl := hop
      obtain _ | ⟨hut, _ | ⟨huw, _ | _⟩⟩ := hus
      change Succeeds held S (shuffle ctx position _ f) a _
      simp only [shuffle, hs, List.cons_append, List.nil_append]
      refine (succeeds_pinAll (by simp [hut.loose, huw.loose]) _ ha).bind fun _ _ _ ha => ?_
      exact succeeds_pure ha trivial
  | dupX2 hop =>
      obtain rfl := hop
      obtain _ | ⟨hut, _ | ⟨huw, _ | ⟨huz, _ | _⟩⟩⟩ := hus
      change Succeeds held S (shuffle ctx position .dupX2 f) a _
      simp only [shuffle, hs, List.cons_append, List.nil_append]
      refine (succeeds_pinAll (by simp [hut.loose, huw.loose, huz.loose]) _ ha).bind fun _ _ _ ha => ?_
      exact succeeds_pure ha trivial
  | getStatic hop ho =>
      obtain rfl := hop
      obtain rfl := ho
      exact (succeeds_memberOperand rfl ha).bind fun r _ hr ha => succeeds_pure ha trivial
  | putStatic hop ho ht | getField hop ho ht =>
      obtain rfl := hop
      obtain rfl := ho
      obtain _ | ⟨hut, _ | _⟩ := hus
      refine (succeeds_memberOperand rfl ha).bind fun r _ hr ha => ?_
      subst hr
      refine (succeeds_popKind hs (hut.kind.trans ht) hut.loose ha).bind fun r _ hr ha => ?_
      exact succeeds_pure ha trivial
  | putField hop ho ht hobj =>
      obtain rfl := hop
      obtain rfl := ho
      obtain _ | ⟨hut, _ | ⟨huo, _ | _⟩⟩ := hus
      refine (succeeds_memberOperand rfl ha).bind fun r _ hr ha => ?_
      subst hr
      refine (succeeds_popKind hs (hut.kind.trans ht) hut.loose ha).bind fun r' _ hr ha => ?_
      subst hr
      refine (succeeds_popKind rfl (huo.kind.trans hobj) huo.loose ha).bind fun r' _ hr ha => ?_
      exact succeeds_pure ha trivial
  | @call mode m d args recv hop ho hd hargs hrecv =>
      obtain rfl := hop
      obtain rfl := ho
      obtain ⟨uargs, urecv, rfl, huargs, hurecv⟩ := forall₂_append_right hus
      have hka : uargs.map SlotType.kind? = ((List.range d.params.length).zip d.params).reverse.map
          fun p => (SlotType.ofDesc p.2).kind? := by
        rw [Serves.map_kind? huargs, hargs, map_numbered_params d.params fun p => (SlotType.ofDesc p).kind?]
      refine (succeeds_memberOperand rfl ha).bind fun r _ hr ha => ?_
      subst hr
      simp only [hd]
      refine (succeeds_popArgs (by rw [hs, List.append_assoc]) hka (Serves.all_loose huargs) ha).bind
        fun f₁ _ hr ha => ?_
      subst hr
      by_cases hmode : mode = .static
      · subst hmode
        simp only [BEq.rfl, if_true]
        exact (succeeds_pure (P := fun _ => True) ha trivial).bind fun _ _ _ ha => succeeds_pure ha trivial
      · rw [if_neg hmode] at hrecv
        obtain ⟨t, rfl⟩ : ∃ t, recv = [t] :=
          List.length_eq_one_iff.mp (by simpa using congrArg List.length hrecv)
        obtain _ | ⟨hut, _ | _⟩ := hurecv
        rw [if_neg (by simpa using hmode)]
        refine (succeeds_popReceiver rfl (hut.kind.trans (by simpa using hrecv)) hut.loose ha).bind
          fun _ _ _ ha => succeeds_pure ha trivial
  | @fixed e used hop he hused =>
      have hks : us.map SlotType.kind? = e.pops.reverse.map some := (Serves.map_kind? hus).trans hused
      have hrun : Succeeds held S (byEffect ctx position op f) a fun _ => True := by
        unfold byEffect
        simp only at he
        simp only [he]
        exact (succeeds_popKinds hs hks (Serves.all_loose hus) ha).bind fun _ _ _ ha => succeeds_pure ha trivial
      cases op with
      | arrayLoad k =>
          cases k with
          | ref => cases hop
          | _ => exact hrun
      | _ => first | cases hop; done | exact hrun

section Transition

variable {O : SlotOrder}

/-- Slots below those that an instruction may take take their place. -/
lemma serves_of_below (hO : O.held = held) {ts : List SlotType} (hfree : ∀ t ∈ ts, t.Loose held)
    (h : List.Forall₂ (fun t u => SlotType.Below O u t) ts us) : List.Forall₂ (Serves held) ts us := by
  induction h with
  | nil => exact .nil
  | cons htu _ ih =>
      obtain ⟨ht, hrest⟩ := List.forall_mem_cons.mp hfree
      exact .cons ⟨htu.kind?_eq, by rw [← hO] at ht ⊢; exact htu.loose_iff.mpr ht⟩ (ih hrest)

/-- What can be read of a local can be read below, if what is unusable is not below everything. -/
lemma Below.readable (hfg : f.Below O g) (hlow : ¬ O.low) {n : Nat} {t : SlotType} {k : Kind}
    (ht : g.locals[n]? = some t) (hk : t.kind? = some k) : ∃ u, f.locals[n]? = some u ∧ u.kind? = some k := by
  obtain ⟨hlt, -⟩ := Array.getElem?_eq_some_iff.mp ht
  have hlt : n < f.locals.size := hfg.size ▸ hlt
  have hu : f.locals[n]? = some f.locals[n] := Array.getElem?_eq_getElem hlt
  obtain ⟨t', ht', hle⟩ := hfg.getElem? hu
  rw [ht] at ht'
  cases ht'
  refine ⟨_, hu, ?_⟩
  generalize f.locals[n] = u at hle
  cases hle with
  | below h => rw [h.kind?_eq, hk]
  | lower h => exact absurd h hlow
  | upper => cases hk

/-- Entering a construction. -/
lemma succeeds_enterSite {cls : Text} (ha : Site.Noted held S a.sites) :
    Succeeds held S (enterSite position cls) a fun _ => True := by
  unfold enterSite
  refine (succeeds_site? ha).bind fun s _ _ ha => ?_
  cases s with
  | some s => exact succeeds_pure ha trivial
  | none =>
      refine ⟨(), _, gives_modify.mpr rfl, fun s hs hheld => ?_, trivial⟩
      rcases List.mem_append.mp hs with hs | hs
      · exact ha s hs hheld
      · obtain rfl := List.mem_singleton.mp hs
        exact ⟨rfl, fun d hd => by cases hd⟩

/-- **An instruction that makes a transition of a frame succeeds on all frames below it.** -/
theorem Transition.succeeds (ctx : AnalysisContext) (hO : O.held = held) (hlow : ¬ O.low)
    (hS : Site.Held held S)
    (h : Transition S position instr g g') (hfg : f.Below O g) (hnamed : instr.Named)
    (ha : Site.Noted held S a.sites) :
    Succeeds held S (f.execute ctx position instr) a fun _ => True := by
  have hstack : List.Forall₂ (fun t u => SlotType.Below O u t) g.stack f.stack := hfg.stack.flip
  have hloose : ∀ {ts : List SlotType}, (∀ t ∈ ts, Site.Free S t) → ∀ t ∈ ts, t.Loose held :=
    fun hfree t ht => SlotType.loose_of_free hS.unpinned (hfree t ht)
  cases h with
  | plain hs shape free =>
      rw [hs] at hstack
      obtain ⟨us, rest, hf, hus, -⟩ := forall₂_append_right hstack
      exact shape.succeeds hnamed (serves_of_below hO (hloose free) hus) hf
        (fun n t k ht hk => hfg.readable hlow ht hk) ha
  | @store k n t rest hop ho hs hn hk free =>
      obtain ⟨op, operand⟩ := instr
      obtain rfl := hop
      rw [hs] at hstack
      obtain ⟨u, us, htu, -, hf⟩ := List.forall₂_cons_left_iff.mp hstack
      have hu : u.Loose held := hO ▸ htu.loose_iff.mpr (hO ▸ SlotType.loose_of_free hS.unpinned free)
      change Succeeds held S (Frame.store ctx position _ k f) a _
      unfold Frame.store
      refine (succeeds_localOperand ho (hfg.size ▸ hn) ha).bind fun r _ hr ha => ?_
      subst hr
      refine (succeeds_pop hf ha).bind fun r _ hr ha => ?_
      subst hr
      refine (succeeds_checkKind (htu.kind?_eq.trans hk) ha).bind fun _ _ _ ha => ?_
      exact (succeeds_pinSlot hu _ ha).bind fun _ _ _ ha => succeeds_pure ha trivial
  | @begin cls hop ho =>
      obtain ⟨op, operand⟩ := instr
      obtain rfl := hop
      obtain rfl := ho
      refine (succeeds_typeOperand rfl (fun h => hnamed (by simp) (by rw [h])) ha).bind fun r _ hr ha => ?_
      exact (succeeds_enterSite ha).bind fun _ _ _ ha => succeeds_pure ha trivial
  | @copy n cls rest hop hs hc =>
      obtain ⟨op, operand⟩ := instr
      obtain rfl := hop
      rw [hs] at hstack
      obtain ⟨u, us, htu, -, hf⟩ := List.forall₂_cons_left_iff.mp hstack
      change Succeeds held S (Frame.dup ctx position f) a _
      by_cases hn : held n
      · -- below a construction that is held there is only itself
        have hu : ¬ u.Loose O.held := fun hu => htu.loose_iff.mp hu (hO ▸ hn)
        obtain rfl := htu.eq_of_not_loose hu
        exact succeeds_copy hS hf hn hc ha
      · exact succeeds_dup hf (hO ▸ htu.loose_iff.mpr (hO ▸ hn)) ha
  | @construct m d args rest n cls copied hop ho hm hd hs hargs free hpair =>
      obtain ⟨op, operand⟩ := instr
      obtain rfl := hop
      obtain rfl := ho
      rw [hs] at hstack
      obtain ⟨uargs, us, hf, huargs, hus⟩ := forall₂_append_right hstack
      obtain ⟨u, urest, htu, hurest, rfl⟩ := List.forall₂_cons_left_iff.mp hus
      have hserves := serves_of_below hO (hloose free) huargs
      have hka : uargs.map SlotType.kind? = ((List.range d.params.length).zip d.params).reverse.map
          fun p => (SlotType.ofDesc p.2).kind? := by
        rw [Serves.map_kind? hserves, hargs, map_numbered_params d.params fun p => (SlotType.ofDesc p).kind?]
      refine (succeeds_memberOperand rfl ha).bind fun r _ hr ha => ?_
      subst hr
      simp only [hd]
      refine (succeeds_popArgs hf hka (Serves.all_loose hserves) ha).bind fun f₁ _ hr ha => ?_
      subst hr
      rw [if_neg (by decide)]
      by_cases hn : held n
      · have hu : ¬ u.Loose O.held := fun hu => htu.loose_iff.mp hu (hO ▸ hn)
        obtain rfl := htu.eq_of_not_loose hu
        obtain ⟨rfl, hbelow⟩ := hpair.resolve_left (hS.unpinned n hn)
        obtain ⟨rest', rfl⟩ := List.head?_eq_some_iff.mp hbelow
        obtain ⟨w, _, hw, -, rfl⟩ := List.forall₂_cons_left_iff.mp hurest
        have hw' : ¬ w.Loose O.held := fun hw' => hw.loose_iff.mp hw' (hO ▸ hn)
        obtain rfl := hw.eq_of_not_loose hw'
        exact (succeeds_popPair rfl rfl hm ha).bind fun _ _ _ ha => succeeds_pure ha trivial
      · have hu : u.Loose held := hO ▸ htu.loose_iff.mpr (hO ▸ hn)
        exact (succeeds_popReceiver rfl htu.kind?_eq hu ha).bind fun _ _ _ ha => succeeds_pure ha trivial

end Transition

end Frame

/-! ## Merging -/

namespace Analysis

open Transfer

variable {held : Nat → Prop} {S : List Site} {a : Analysis} {ctx : AnalysisContext} {position : Nat}
  {O : SlotOrder}

/-- **Slots below one slot can be merged.** -/
lemma merge_succeeds {t u : SlotType} {onStack : Bool} (ht : t ≠ u → t.Loose held)
    (hu : t ≠ u → u.Loose held)
    (hfit : onStack = true → settle t ≠ settle u →
      ∃ c d, settle t = .ref c ∧ settle u = .ref d)
    (ha : Site.Noted held S a.sites) : Succeeds held S (merge ctx position t u onStack) a fun _ => True := by
  unfold merge
  split
  · exact succeeds_pure ha trivial
  next hne =>
  have hne : t ≠ u := by simpa using hne
  refine (succeeds_pinSlot (ht hne) _ ha).bind fun _ _ _ ha => ?_
  refine (succeeds_pinSlot (hu hne) _ ha).bind fun _ _ _ ha => ?_
  simp only
  split
  · exact succeeds_pure ha trivial
  next hdiffer =>
  have hdiffer : settle t ≠ settle u := by simpa using hdiffer
  split
  · split
    · exact succeeds_pure ha trivial
    split
    · exact succeeds_pure ha trivial
    refine Succeeds.bind (P := fun _ => True) ⟨_, _, rfl, ?_, trivial⟩ fun r _ _ ha => ?_
    · exact ha
    · cases r with
      | some c => exact succeeds_pure ha trivial
      | none => exact succeeds_pure ha trivial
  · next hnot =>
      split
      · next hon =>
          obtain ⟨c, d, hc, hd⟩ := hfit hon hdiffer
          exact absurd hd (hnot c d hc)
      · exact succeeds_pure ha trivial

/-- Two different locals below one are of no construction that is held. -/
lemma loose_of_local {t u w : SlotType} (hlow : ¬ O.low) (hne : t ≠ u) (ht : SlotType.LocalBelow O t w)
    (hu : SlotType.LocalBelow O u w) : t.Loose O.held ∧ u.Loose O.held := by
  cases ht with
  | below ht =>
      cases hu with
      | below hu => exact ⟨(SlotType.Joins.loose_of_ne hne ht hu).1, (SlotType.Joins.loose_of_ne hne ht hu).2.1⟩
      | lower h => exact absurd h hlow
      | upper _ hu =>
          obtain rfl := ht.unusable_right
          exact ⟨trivial, hu⟩
  | lower h => exact absurd h hlow
  | upper _ ht =>
      cases hu with
      | below hu =>
          obtain rfl := hu.unusable_right
          exact ⟨ht, trivial⟩
      | lower h => exact absurd h hlow
      | upper _ hu => exact ⟨ht, hu⟩

lemma mergeLocals_succeeds (hO : O.held = held) (hlow : ¬ O.low) {ts us ws : List SlotType}
    (ht : List.Forall₂ (SlotType.LocalBelow O) ts ws) (hu : List.Forall₂ (SlotType.LocalBelow O) us ws)
    (ha : Site.Noted held S a.sites) :
    Succeeds held S (mergeLocals ctx position ts us) a fun _ => True := by
  induction ht generalizing us a with
  | nil =>
      cases hu
      exact succeeds_pure ha trivial
  | cons htw _ ih =>
      cases hu with
      | cons huw hrest =>
          have hloose := fun hne => hO ▸ loose_of_local hlow hne htw huw
          refine (merge_succeeds (fun hne => (hloose hne).1) (fun hne => (hloose hne).2)
            (fun h => by cases h) ha).bind fun _ _ _ ha => ?_
          exact (ih hrest ha).bind fun _ _ _ ha => succeeds_pure ha trivial

/-- Two slots below one settle to references, if they differ then. -/
lemma settle_of_below {t u w : SlotType} (hne : settle t ≠ settle u) (ht : SlotType.Below O t w)
    (hu : SlotType.Below O u w) : ∃ c d, settle t = .ref c ∧ settle u = .ref d := by
  have href : ∀ {t u : SlotType}, settle t ≠ settle u → SlotType.Below O t w → SlotType.Below O u w →
      t.kind? = some .ref := by
    intro t u hne ht hu
    cases ht with
    | ref hc => exact SlotType.kind?_of_settle hc
    | same =>
        cases hu with
        | same => exact absurd rfl hne
        | ref _ hd => exact SlotType.kind?_of_settle hd
  obtain ⟨c, hc⟩ := SlotType.settle_eq_ref (href hne ht hu)
  obtain ⟨d, hd⟩ := SlotType.settle_eq_ref (href (Ne.symm hne) hu ht)
  exact ⟨c, d, hc, hd⟩

lemma mergeStack_succeeds (hO : O.held = held) {target slot : Nat} {ts us ws : List SlotType}
    (ht : List.Forall₂ (SlotType.Below O) ts ws) (hu : List.Forall₂ (SlotType.Below O) us ws)
    (ha : Site.Noted held S a.sites) :
    Succeeds held S (mergeStack ctx position target slot ts us) a fun _ => True := by
  induction ht generalizing us a slot with
  | nil =>
      cases hu
      exact succeeds_pure ha trivial
  | cons htw _ ih =>
      cases hu with
      | cons huw hrest =>
          have hloose := fun hne => hO ▸ SlotType.Joins.loose_of_ne hne htw huw
          refine ((merge_succeeds (fun hne => (hloose hne).1) (fun hne => (hloose hne).2.1)
            (fun _ hne => settle_of_below hne htw huw) ha).adapt _).bind fun _ _ _ ha => ?_
          exact (ih hrest ha).bind fun _ _ _ ha => succeeds_pure ha trivial

/-- **A frame can be merged into a position** where it is below what the frame there is below. -/
theorem mergeInto_succeeds (position : Nat) (hO : O.held = held) (hlow : ¬ O.low) {target : Nat} {f g : Frame}
    (hf : f.Below O g) (hold : ∀ old, a.frames[target]? = some (some old) → old.Below O g)
    (ha : Site.Noted held S a.sites) :
    Succeeds held S (mergeInto ctx position target f) a fun _ => True := by
  have hset : ∀ {b : Analysis} (new : Frame), Site.Noted held S b.sites →
      Succeeds held S (do
        modify fun a => { a with frames := a.frames.set! target (some new) }
        enqueue target) b fun _ => True := by
    intro b new hb
    refine ⟨(), _, gives_bind.mpr ⟨(), _, gives_modify.mpr rfl, gives_modify.mpr rfl⟩, ?_, trivial⟩
    split
    · exact hb
    · exact hb
  refine Succeeds.get_bind ?_
  cases hat : a.frames[target]? with
  | none => exact succeeds_pure ha trivial
  | some o =>
      cases o with
      | none => exact hset f ha
      | some old =>
          have hold := hold old hat
          have hlen : old.stack.length = f.stack.length :=
            hold.stack.length_eq.trans hf.stack.length_eq.symm
          simp only [hlen, bne_self_eq_false, Bool.false_eq_true, if_false]
          refine (mergeLocals_succeeds hO hlow hold.locals hf.locals ha).bind fun locals _ _ ha => ?_
          refine (mergeStack_succeeds hO (List.rel_reverse hold.stack) (List.rel_reverse hf.stack) ha).bind
            fun stack _ _ ha => ?_
          split
          · exact hset _ ha
          · exact succeeds_pure ha trivial

end Analysis

end Suspension
