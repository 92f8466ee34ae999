import Suspension.Proofs.Instrument.Mirroring
import Suspension.Proofs.Instrument.RoundTrip

/-!
# How a transformed method crosses a segment

Between one instruction and the next, a transformed method runs code of its own: it saves its frame and
restores it, makes the object of a construction that has been put off, and pops its record.  **What is there
before is there afterwards**, and none of it is seen.

* `Running.Level` — at the beginning of a segment.
* `Plan.Faithful.spares` — what is dropped is not used by what stays.
* `Running.does_spill`, `Running.does_reload` — arguments are put aside.
* `Running.Stored`, `Running.AtCall` — at a point, with a record of the values there.
* `Running.Level.saves`, `Running.Stored.restores`, `Running.Stored.reenters` — on the way to a call.
* `Plan.Faithful.lands`, `Plan.Faithful.rethrows` — where an exception comes to.
-/

namespace Suspension

/-! ## What stays -/

namespace Plan

variable {E : Environment} {p : Plan} {nm : Method} {args : List Value} {t : SlotType} {j : Nat}
  {f after : Frame} {instr : Instruction}

lemma isNone_absent? (p : Plan) (t : SlotType) : (t.absent? p.isOmitted).isNone = !p.leavesOut t := by
  cases t with
  | pending n cls copied =>
      simp only [SlotType.absent?, leavesOut]
      cases p.isOmitted n <;> rfl
  | _ => rfl

lemma Founded.absent?_of_free (hp : p.Founded) (h : Site.Free p.subject.types.sites t) :
    t.absent? p.isOmitted = none := by
  rw [← Option.isNone_iff_eq_none, isNone_absent?, hp.leavesOut_of_free h]
  rfl

@[simp] lemma length_spill (base : UInt32) (ts : List SlotType) : (spill base ts).length = ts.length := by
  simp [spill]

@[simp] lemma length_reload (base : UInt32) (ts : List SlotType) : (reload base ts).length = ts.length := by
  simp [reload]

/-- The receiver is among the locals of the method. -/
lemma Ready.firstLocal_le {C : Classes} (hr : p.Ready C nm) : p.subject.firstLocal ≤ p.stackVar.toNat := by
  obtain ⟨f, hf, -⟩ := hr.certified.entry
  obtain ⟨ds, -, hlen, -⟩ := Analysis.entryFrame_eq_ok hf
  refine Nat.le_trans ?_ hlen
  unfold Subject.firstLocal Method.receiverCount Analysis.givenSlots
  cases p.subject.method.isStatic <;> simp

/-- **An instruction that stays uses nothing of a construction that is left out.** -/
lemma Founded.spares (hp : p.Founded) (hf : p.subject.types.frames[j]? = some (some f))
    (hd : p.isDropped j = false) (hdef : p.deferral? j instr = .ok none) :
    Frame.Spares p.isOmitted p.subject.types.sites j instr f where
  free _ := hp.absent?_of_free
  begins _ := by
    cases homitted : p.isOmitted j with
    | false => rfl
    | true =>
        obtain ⟨site, -, hmem, rfl, -⟩ := hp.site_of_isOmitted homitted
        rw [isDropped_of_site hmem homitted (Or.inl rfl)] at hd
        cases hd
  copies _ n hc := by
    cases homitted : p.isOmitted n with
    | false => rfl
    | true =>
        obtain ⟨site, hmem, rfl, hdup⟩ := hc
        rw [isDropped_of_site hmem homitted (Or.inr hdup)] at hd
        cases hd
  completes _ _ _ _ _ hm hdrop := hp.stays_of_deferral? hf hm hdrop hdef

/-- What is left out, but for one construction. -/
def without (p : Plan) (n k : Nat) : Bool := p.isOmitted k && k != n

@[simp] lemma without_self (p : Plan) (n : Nat) : p.without n n = false := by simp [without]

lemma absent?_without {s : Site} (h : ¬ t.IsOf s) :
    t.absent? (p.without s.newAt) = t.absent? p.isOmitted := by
  cases t with
  | pending n cls copied =>
      have hne : n ≠ s.newAt := by
        rintro rfl
        exact h ⟨cls, copied, rfl⟩
      simp [SlotType.absent?, without, hne]
  | _ => rfl

lemma gaps_without {s : Site} {ts : List SlotType} (h : ∀ t ∈ ts, ¬ t.IsOf s) :
    Frame.gaps (p.without s.newAt) ts = Frame.gaps p.isOmitted ts :=
  List.map_congr_left fun t ht => absent?_without (h t ht)

/-- What is missing but for one construction is missing. -/
lemma mem_gaps_without {n k : Nat} {cls : Text} {ts : List SlotType} :
    some (k, cls) ∈ Frame.gaps (p.without n) ts ↔ some (k, cls) ∈ Frame.gaps p.isOmitted ts ∧ k ≠ n := by
  simp only [Frame.gaps, List.mem_map]
  constructor
  · rintro ⟨t, ht, habsent⟩
    obtain ⟨hk, copied, rfl⟩ := Frame.absent?_eq_some habsent
    simp only [without, Bool.and_eq_true, bne_iff_ne, ne_eq] at hk
    exact ⟨⟨_, ht, Frame.absent?_pending hk.1⟩, hk.2⟩
  · rintro ⟨⟨t, ht, habsent⟩, hne⟩
    obtain ⟨hk, copied, rfl⟩ := Frame.absent?_eq_some habsent
    exact ⟨_, ht, Frame.absent?_pending (by simp [without, hk, hne])⟩

/-- **A constructor call whose construction is redone.** -/
structure Redone (p : Plan) (j : Nat) (instr : Instruction) (e : Deferral) (f after : Frame)
    (rest : List SlotType) : Prop where
  site : e.site ∈ p.subject.types.sites
  omitted : p.isOmitted e.site.newAt = true
  create : e.create = ⟨.new, .type e.site.cls⟩
  copy : e.copy.opcode = .dup
  call : instr.opcode = .invoke .special
  free : ∀ t ∈ e.args, Site.Free p.subject.types.sites t
  stack : f.stack = e.args ++ .pending e.site.newAt e.site.cls true
    :: .pending e.site.newAt e.site.cls false :: rest
  apart : ∀ t ∈ rest, ¬ t.IsOf e.site
  after : ∀ t ∈ after.stack, ¬ t.IsOf e.site
  spares : Frame.Spares (p.without e.site.newAt) p.subject.types.sites j instr f

lemma not_isOf_completed (s : Site) (t : SlotType) : ¬ (Frame.completed s.newAt t).IsOf s := by
  rintro ⟨cls, copied, h⟩
  unfold Frame.completed at h
  split at h
  · split at h
    · cases h
    · next hne =>
        cases h
        simp at hne
  · next hne => exact hne _ _ _ h

lemma Founded.redone (hp : p.Founded) (hsound : p.Sound)
    (hpaired : f.Paired p.subject.types) (hf : p.subject.types.frames[j]? = some (some f))
    (htr : Frame.Transition p.subject.types.sites j instr f after) {e : Deferral}
    (hdef : p.deferral? j instr = .ok (some e)) : ∃ rest, p.Redone j instr e f after rest := by
  obtain ⟨m, f', cls, cls', dupAt, below, hr⟩ := deferral?_eq_some hdef
  have hf' := hr.frame_at
  rw [hf] at hf'
  cases hf'
  obtain ⟨hop, -, -⟩ := constructor?_eq_some hr.constructor
  obtain ⟨hcreate, hcopy⟩ := hr.instructions hsound
  have hdrop : f.stack.drop (Descriptor.argCount m.desc).toNat
      = .pending e.site.newAt cls true :: .pending e.site.newAt cls' false :: below := by
    rw [hr.stack, ← hr.args, List.drop_left]
  obtain ⟨dm, args, rest, hparse, hargs, hfree, hs, -, hbelow, rfl⟩ :=
    hp.constructs htr hr.constructor hdrop hr.omitted
  cases hbelow
  have hlen : e.args.length = args.length := by
    rw [hr.args, hargs]
    simp [Descriptor.argCount, hparse]
  obtain rfl : e.args = args := (List.append_inj (hr.stack.symm.trans hs) hlen).1
  obtain rfl : e.site.cls = cls := by
    have hmem : SlotType.pending e.site.newAt cls true ∈ f.stack := by simp [hs]
    obtain ⟨s, hsite, hn, hcls⟩ := (hp.certified.known j f hf).1 _ hmem
    rw [hp.certified.sites.eq_of_newAt hsite hr.site hn] at hcls
    exact hcls
  have hpinned := hp.not_pinned hr.omitted
  have hrests := hpaired.stack
  rw [hs] at hrests
  have happart : ∀ t ∈ below, ¬ t.IsOf e.site := by
    have hsplit : p.subject.types.AllRest
        ((e.args ++ [.pending e.site.newAt e.site.cls true]) ++ .pending e.site.newAt e.site.cls false ::
          below) := by
      simpa using hrests
    have hnew := hsplit.of_append
    rcases hnew.1 with hpin | hheight
    · exact absurd hpin hpinned
    · obtain ⟨g, hg, hlength⟩ : ∃ g, p.subject.types.frames[e.site.newAt]? = some (some g)
          ∧ below.length = g.stack.length := by simpa using hheight
      exact Site.absent_of_length_le hpinned hg hnew.2 (Nat.le_of_eq hlength)
  refine ⟨below, hr.site, hr.omitted, hcreate, hcopy, hop, hfree, hs, happart, ?_, ?_⟩
  · intro t ht
    rcases List.mem_append.mp ht with ht | ht
    · rintro ⟨cls, copied, rfl⟩
      split at ht
      · cases ht
      · unfold SlotType.ofDesc at ht
        split at ht <;> simp at ht
    · obtain ⟨u, -, rfl⟩ := List.mem_map.mp ht
      exact not_isOf_completed e.site u
  · refine ⟨fun t ht => ?_, fun h => ?_, fun h => ?_, fun m' n cls copied below' hm' hdrop' => ?_⟩
    · by_cases hof : t.IsOf e.site
      · obtain ⟨cls, copied, rfl⟩ := hof
        exact Frame.absent?_pending_none (without_self p _)
      · rw [absent?_without hof]
        exact hp.absent?_of_free ht
    · rw [hop] at h
      cases h
    · rw [hop] at h
      cases h
    · rw [hr.constructor] at hm'
      cases hm'
      rw [hdrop] at hdrop'
      cases hdrop'
      exact without_self p _

end Plan

namespace Plan.Redone

variable {p : Plan} {j : Nat} {instr : Instruction} {e : Plan.Deferral} {f after : Frame}
  {rest : List SlotType}

/-- What is there of the stack, the construction aside. -/
lemma present_eq (h : p.Redone j instr e f after rest) (hp : p.Founded) :
    Frame.present p.isOmitted f.stack = e.args ++ Frame.present p.isOmitted rest := by
  rw [h.stack, Frame.present_append,
    Frame.present_eq_self fun t ht => hp.absent?_of_free (h.free t ht)]
  simp [Frame.present, Frame.absent?_pending h.omitted]

lemma present_without (h : p.Redone j instr e f after rest) :
    Frame.present (p.without e.site.newAt) f.stack
      = e.args ++ .pending e.site.newAt e.site.cls true :: .pending e.site.newAt e.site.cls false
        :: Frame.present (p.without e.site.newAt) rest := by
  rw [h.stack, Frame.present_append,
    Frame.present_eq_self fun t ht => h.spares.free t (h.free t ht)]
  simp [Frame.present, Frame.absent?_pending_none]

/-- The whole stack, with the object of the construction. -/
lemma thicken_eq (h : p.Redone j instr e f after rest) (hp : p.Founded) {obj : Nat → ObjectId}
    {xs ys : List Value} (hlen : e.args.length = xs.length) :
    Frame.thicken obj (Frame.gaps p.isOmitted f.stack) (xs ++ ys)
      = xs ++ .object (obj e.site.newAt) :: .object (obj e.site.newAt)
        :: Frame.thicken obj (Frame.gaps p.isOmitted rest) ys := by
  rw [h.stack, Frame.thicken_append (fun t ht => hp.absent?_of_free (h.free t ht)) hlen]
  simp [Frame.gaps, Frame.absent?_pending h.omitted, Frame.thicken]

lemma thicken_without (h : p.Redone j instr e f after rest) {obj : Nat → ObjectId} {xs ys : List Value}
    {u w : Value} (hlen : e.args.length = xs.length) :
    Frame.thicken obj (Frame.gaps (p.without e.site.newAt) f.stack) (xs ++ u :: w :: ys)
      = xs ++ u :: w :: Frame.thicken obj (Frame.gaps (p.without e.site.newAt) rest) ys := by
  rw [h.stack, Frame.thicken_append (fun t ht => h.spares.free t (h.free t ht)) hlen]
  simp [Frame.gaps, Frame.absent?_pending_none, Frame.thicken]

end Plan.Redone

namespace Frame

variable {C : Classes} {out out' : Nat → Bool} {sites : List Site} {ts us : List SlotType}

/-- Only which slots are missing counts. -/
lemma present_congr (h : gaps out ts = gaps out' ts) : present out ts = present out' ts := by
  refine List.filter_congr fun t ht => ?_
  rw [List.map_inj_left.mp h t ht]

/-- Slots that are there rise. -/
lemma present_le (hfree : ∀ t, Site.Free sites t → t.absent? out = none)
    (hle : List.Forall₂ (SlotType.Le C sites) ts us) :
    List.Forall₂ (SlotType.Le C sites) (present out ts) (present out us) := by
  induction hle with
  | nil => exact .nil
  | @cons t u ts us htu _ ih =>
      have hsame : t.absent? out = u.absent? out := by
        rcases htu with rfl | ⟨hf, c, d, -, rfl, -⟩
        · rfl
        · exact hfree t hf
      unfold present at ih ⊢
      simp only [List.filter_cons, hsame]
      split
      · exact .cons htu ih
      · exact ih

end Frame

namespace Running

variable {E : Environment} {p : Plan} {nm : Method} {args : List Value} {d : Nat} {out out' : Nat → Bool}
  {obj : Nat → ObjectId} {f g after : Frame} {c : Running} {a b b' : Activation} {i j : Nat}
  {instr : Instruction} {sites : List Site} {s : FrameStack Value}

/-! ## From frame to frame -/

lemma Mirrors.congr (h : Mirrors E p args d out f c)
    (hgaps : Frame.gaps out f.stack = Frame.gaps out' f.stack) :
    Mirrors E p args d out' f c :=
  { h with operands := Frame.present_congr hgaps ▸ h.operands }

/-- **The values of a frame are those of a frame above it.** -/
lemma Mirrors.le (h : Mirrors E p args d out f c) (hfree : ∀ t, Site.Free sites t → t.absent? out = none)
    (hle : Frame.Le E.toClasses sites f g) : Mirrors E p args d out g c where
  toInside := h.toInside
  room := h.room
  width := h.width
  operands := Frame.forall₂_comp (fun _ _ _ hle hv => hv.mono hle) (Frame.present_le hfree hle.stack) h.operands
  locals := by
    intro l t ht
    have hlen := hle.locals.length_eq
    simp only [Array.length_toList] at hlen
    obtain ⟨hl, rfl⟩ := Array.getElem?_eq_some_iff.mp ht
    obtain ⟨v, hv, hholds⟩ := h.locals l _ (Array.getElem?_eq_getElem (hlen ▸ hl))
    have hslot := (List.forall₂_iff_get.mp hle.locals).2 l (by simpa using hlen ▸ hl) (by simpa using hl)
    simp only [List.get_eq_getElem, Array.getElem_toList] at hslot
    refine ⟨v, hv, ?_⟩
    rcases hslot with hslot | ⟨-, hslot⟩
    · exact hholds.mono hslot
    · rw [hslot]
      trivial
  given := h.given
  usable := by
    have hlen := hle.stack.length_eq
    intro t ht
    obtain ⟨k, hk, rfl⟩ := List.mem_iff_getElem.mp ht
    have hslot := (List.forall₂_iff_get.mp hle.stack).2 k (hlen ▸ hk) hk
    simp only [List.get_eq_getElem] at hslot
    rw [← hslot.kind?_eq]
    exact h.usable _ (List.getElem_mem (hlen ▸ hk))

lemma Completes.congr (h : Completes out obj f b a) (hgaps : Frame.gaps out f.stack = Frame.gaps out' f.stack) :
    Completes out' obj f b a :=
  { h with stack := hgaps ▸ h.stack }

lemma Completes.le {C : Classes} (h : Completes out obj f b a)
    (hfree : ∀ t, Site.Free sites t → t.absent? out = none) (hle : Frame.Le C sites f g) :
    Completes out obj g b a where
  stack := Frame.gaps_of_le hfree hle.stack ▸ h.stack
  size := h.size.trans (by simpa using hle.locals.length_eq)
  locals := h.locals.le hle

/-- **At the beginning of a segment**, with values that are what the frame there says. -/
structure Level (E : Environment) (p : Plan) (args : List Value) (d j : Nat) (f : Frame) (c : Running) : Prop
    extends Mirrors E p args d p.isOmitted f c where
  pc : c.act.pc = p.place j
  frame : p.subject.types.frames[j]? = some (some f)

/-- **Control comes to a segment** with values that fit. -/
lemma Level.of_reaches (h : p.Faithful E nm args) (hm : Mirrors E p args d p.isOmitted f c)
    (hpc : c.act.pc = p.place j) (hreach : p.subject.types.Reaches E.toClasses f j) :
    ∃ g, Level E p args d j g c ∧ Frame.Le E.toClasses p.subject.types.sites f g := by
  obtain ⟨g, hg, hle⟩ := hreach
  exact ⟨g, ⟨hm.le (fun _ => h.founded.absent?_of_free) hle, hpc, hg⟩, hle⟩

/-! ## What is dropped -/

/-- **A `new` that is dropped**: nothing happens, and the object that the method makes is missing. -/
lemma Level.drops_new (hl : Level E p args d j f c) (h : p.Faithful E nm args) {site : Site}
    (hsite : site ∈ p.subject.types.sites) (homitted : p.isOmitted site.newAt = true) (hj : site.newAt = j)
    {spans : List HandlerSpan}
    (hset : p.subject.types.Settled E.toClasses p.code spans j f instr after)
    (hplace : p.place (j + 1) = p.place j) :
    ∃ g, Level E p args d (j + 1) g c ∧ instr = ⟨.new, .type site.cls⟩
      ∧ (∀ cls, some (j, cls) ∉ Frame.gaps p.isOmitted f.stack)
      ∧ ∀ obj, (E.Supplies obj (Frame.gaps p.isOmitted g.stack)
          ↔ E.Supplies obj (Frame.gaps p.isOmitted f.stack) ∧ E.made (obj j) site.cls)
        ∧ ∀ a, Completes p.isOmitted obj f c.act a →
            Completes p.isOmitted obj g c.act (a.answered (some (.object (obj j)))) := by
  subst hj
  have hnew : p.code[site.newAt]? = _ := h.founded.certified.sites.new_at site hsite
  have hat : p.code[site.newAt]? = some instr := hset.code_at
  rw [hat] at hnew
  obtain rfl := Option.some.inj hnew
  obtain rfl : after = ⟨f.locals, .pending site.newAt site.cls false :: f.stack⟩ := by
    cases hset.transition with
    | begin hop ho =>
        cases ho
        rfl
    | plain _ shape => cases shape <;> simp_all [Opcode.hasFixedEffect]
    | _ => simp_all
  have hm : Mirrors E p args d p.isOmitted ⟨f.locals, .pending site.newAt site.cls false :: f.stack⟩ c := by
    refine { hl.toMirrors with operands := ?_, usable := ?_ }
    · simpa [Frame.present, Frame.absent?_pending homitted] using hl.operands
    · exact List.forall_mem_cons.mpr ⟨by simp [SlotType.kind?], hl.usable⟩
  obtain ⟨g, hg, hle⟩ := Level.of_reaches h hm (hl.pc.trans hplace.symm) (hset.next rfl).2
  have hgaps := Frame.gaps_of_le (fun _ => h.founded.absent?_of_free) hle.stack
  refine ⟨g, hg, rfl, fun cls hmem => ?_, fun obj => ⟨?_, fun a hc => ?_⟩⟩
  · obtain ⟨t, ht, habsent⟩ := List.mem_map.mp hmem
    obtain ⟨-, copied, rfl⟩ := Frame.absent?_eq_some habsent
    exact Site.absent_of_length_le (h.founded.not_pinned homitted) hl.frame (h.paired hl.frame).stack
      (Nat.le_refl _) _ ht ⟨cls, copied, rfl⟩
  · rw [← hgaps]
    simp only [Frame.gaps, List.map_cons, Frame.absent?_pending homitted, World.Supplies, List.mem_cons]
    constructor
    · exact fun hs => ⟨fun n cls hn => hs n cls (Or.inr hn), hs _ _ (Or.inl rfl)⟩
    · rintro ⟨hs, hmade⟩ n cls (heq | hn)
      · cases heq
        exact hmade
      · exact hs n cls hn
  · refine Completes.le ?_ (fun _ => h.founded.absent?_of_free) hle
    refine ⟨?_, hc.size, hc.locals⟩
    simp [Activation.answered, Frame.gaps, Frame.absent?_pending homitted, Frame.thicken, hc.stack]

/-- **A `dup` that is dropped**: nothing happens, and the copy that the method makes is missing, too. -/
lemma Level.drops_dup (hl : Level E p args d j f c) (h : p.Faithful E nm args) {site : Site}
    (hsite : site ∈ p.subject.types.sites) (homitted : p.isOmitted site.newAt = true)
    (hj : site.dupAt = some j) {spans : List HandlerSpan}
    (hset : p.subject.types.Settled E.toClasses p.code spans j f instr after)
    (hplace : p.place (j + 1) = p.place j) :
    ∃ g, Level E p args d (j + 1) g c
      ∧ ∀ obj, (E.Supplies obj (Frame.gaps p.isOmitted g.stack)
          ↔ E.Supplies obj (Frame.gaps p.isOmitted f.stack))
        ∧ ∀ a, a.pc = j → Completes p.isOmitted obj f c.act a →
            ∃ a', a.step (.ofMethod p.subject.method) = .next a' ∧ a'.pc = j + 1
              ∧ Completes p.isOmitted obj g c.act a' := by
  obtain ⟨instr', hdup, hop⟩ := h.founded.certified.sites.dup_at site hsite j hj
  have hat : p.subject.method.code[j]? = some instr := hset.code_at
  rw [hat] at hdup
  obtain rfl := Option.some.inj hdup
  have hpinned := h.founded.not_pinned homitted
  obtain ⟨cls, rest, hstack⟩ : ∃ cls rest, f.stack = .pending site.newAt cls false :: rest := by
    obtain ⟨f', hf', hkept⟩ := h.founded.certified.copies site hsite j hj
    rw [hl.frame] at hf'
    cases hf'
    exact hkept.resolve_left hpinned
  obtain rfl : after = ⟨f.locals, .pending site.newAt cls true :: f.stack⟩ := by
    cases hset.transition with
    | copy _ hs' _ =>
        rw [hstack] at hs'
        cases hs'
        rfl
    | plain hs' shape free =>
        cases shape with
        | dup =>
            rw [hstack] at hs'
            cases hs'
            exact absurd (free _ List.mem_cons_self) hpinned
        | _ => simp_all [Opcode.hasFixedEffect]
    | _ => simp_all
  have hm : Mirrors E p args d p.isOmitted ⟨f.locals, .pending site.newAt cls true :: f.stack⟩ c := by
    refine { hl.toMirrors with operands := ?_, usable := ?_ }
    · simpa [Frame.present, Frame.absent?_pending homitted] using hl.operands
    · exact List.forall_mem_cons.mpr ⟨by simp [SlotType.kind?], hl.usable⟩
  obtain ⟨g, hg, hle⟩ := Level.of_reaches h hm (hl.pc.trans hplace.symm) (hset.next (by rw [hop]; rfl)).2
  have hgaps := Frame.gaps_of_le (fun _ => h.founded.absent?_of_free) hle.stack
  refine ⟨g, hg, fun obj => ⟨?_, fun a hpc hc => ?_⟩⟩
  · rw [← hgaps]
    simp [hstack, Frame.gaps, Frame.absent?_pending homitted, World.Supplies]
  · have htop : a.stack = .object (obj site.newAt)
        :: Frame.thicken obj (Frame.gaps p.isOmitted rest) c.act.stack := by
      rw [hc.stack, hstack]
      simp [Frame.gaps, Frame.absent?_pending homitted, Frame.thicken]
    refine ⟨⟨j + 1, a.locals, .object (obj site.newAt) :: a.stack⟩, ?_, rfl, ?_⟩
    · rw [Activation.step_ofMethod (hpc ▸ hat)]
      simp [Activation.execute, hop, htop, Activation.shuffle, Activation.goOn, hpc]
    · refine Completes.le ?_ (fun _ => h.founded.absent?_of_free) hle
      refine ⟨?_, hc.size, hc.locals⟩
      simp [Frame.gaps, Frame.absent?_pending homitted, Frame.thicken, hc.stack]

/-! ## Arguments that are put aside -/

/-- Locals with values put into a row of them. -/
def stash (L : Array Value) (n : Nat) : List Value → Array Value
  | [] => L
  | v :: vs => stash (L.set! n v) (n + 1) vs

variable {L : Array Value} {vs xs ys : List Value} {n q : Nat} {ts : List SlotType} {base : UInt32}
  {I : Value → Text → Prop} {S : Surroundings}

@[simp] lemma size_stash : (stash L n vs).size = L.size := by
  induction vs generalizing L n with
  | nil => rfl
  | cons v vs ih => simp [stash, ih]

lemma getElem?_stash_of_lt {l : Nat} (hl : l < n) : (stash L n vs)[l]? = L[l]? := by
  induction vs generalizing L n with
  | nil => rfl
  | cons v vs ih =>
      unfold stash
      rw [ih (by omega), Array.set!_eq_setIfInBounds, Array.getElem?_setIfInBounds_ne (by omega)]

lemma getElem?_stash {k : Nat} (hk : k < vs.length) (hsize : n + vs.length ≤ L.size) :
    (stash L n vs)[n + k]? = vs[k]? := by
  induction vs generalizing L n k with
  | nil => cases hk
  | cons v vs ih =>
      rw [List.length_cons] at hk hsize
      unfold stash
      cases k with
      | zero =>
          rw [getElem?_stash_of_lt (by omega), Array.set!_eq_setIfInBounds, Nat.add_zero,
            Array.getElem?_setIfInBounds_self_of_lt (by omega)]
          rfl
      | succ k =>
          rw [show n + (k + 1) = n + 1 + k by omega]
          exact ih (by omega) (by simpa using by omega)

lemma storeOf_eq {t : SlotType} {k : Kind} (hk : t.kind? = some k) (m : UInt32) :
    Emit.storeOf t m = .slot (.store k) m := by simp [Emit.storeOf, hk]

lemma loadOf_eq {t : SlotType} {k : Kind} (hk : t.kind? = some k) (m : UInt32) :
    Emit.loadOf t m = .slot (.load k) m := by simp [Emit.loadOf, hk]

/-- **Arguments are put aside**, the top one first. -/
lemma does_spill (hlen : ts.length = xs.length) (husable : ∀ t ∈ ts, t.kind? ≠ none)
    (hbase : ∀ k < ts.length, (base + UInt32.ofNat k).toNat = n + k) (hsize : n + ts.length ≤ L.size) :
    Does I S nm (Plan.spill base ts) [] ⟨L, xs ++ ys, s⟩ ⟨stash L n xs, ys, s⟩ := by
  suffices h : ∀ k, (∀ m, k ≤ m → m < k + ts.length → (base + UInt32.ofNat m).toNat = n + m) →
      n + k + ts.length ≤ L.size →
      Does I S nm ((ts.zipIdx k).map fun x => Emit.storeOf x.1 (base + UInt32.ofNat x.2)) []
        ⟨L, xs ++ ys, s⟩ ⟨stash L (n + k) xs, ys, s⟩ from
    h 0 (fun m _ hm => hbase m (by omega)) (by omega)
  clear hbase hsize
  induction ts generalizing L xs with
  | nil =>
      obtain rfl := List.length_eq_zero_iff.mp hlen.symm
      exact fun _ _ _ => Does.nil
  | cons t ts ih =>
      intro k hbase hsize
      cases xs with
      | nil => cases hlen
      | cons x xs =>
          rw [List.forall_mem_cons] at husable
          rw [List.length_cons] at hsize
          obtain ⟨kind, hk⟩ := Option.ne_none_iff_exists'.mp husable.1
          have hto : (base + UInt32.ofNat k).toNat = n + k := hbase k (Nat.le_refl k) (by simp)
          rw [List.zipIdx_cons, List.map_cons, storeOf_eq hk]
          refine Does.after (fun q hat => step_store hat (by rw [hto]; omega)) ?_
          rw [hto]
          refine ih (Nat.succ.inj hlen) husable.2 (k + 1) (fun m hm hm' => hbase m (by omega) ?_) ?_
          · rw [List.length_cons]
            omega
          · rw [Array.set!_eq_setIfInBounds, Array.size_setIfInBounds]
            omega

/-- **And brought back**, the deepest one first. -/
lemma does_reload (hlen : ts.length = xs.length) (husable : ∀ t ∈ ts, t.kind? ≠ none)
    (hbase : ∀ k < ts.length, L[(base + UInt32.ofNat k).toNat]? = xs[k]?) :
    Does I S nm (Plan.reload base ts) [] ⟨L, ys, s⟩ ⟨L, xs ++ ys, s⟩ := by
  suffices h : ∀ k, (∀ m < ts.length, L[(base + UInt32.ofNat (k + m)).toNat]? = xs[m]?) →
      Does I S nm ((ts.zipIdx k).map fun x => Emit.loadOf x.1 (base + UInt32.ofNat x.2)).reverse []
        ⟨L, ys, s⟩ ⟨L, xs ++ ys, s⟩ from
    h 0 fun m hm => by rw [Nat.zero_add]; exact hbase m hm
  clear hbase
  induction ts generalizing xs with
  | nil =>
      obtain rfl := List.length_eq_zero_iff.mp hlen.symm
      exact fun _ _ => Does.nil
  | cons t ts ih =>
      intro k hbase
      cases xs with
      | nil => cases hlen
      | cons x xs =>
          rw [List.forall_mem_cons] at husable
          obtain ⟨kind, hk⟩ := Option.ne_none_iff_exists'.mp husable.1
          have hx := hbase 0 (by simp)
          rw [Nat.add_zero, List.getElem?_cons_zero] at hx
          rw [List.zipIdx_cons, List.map_cons, List.reverse_cons, loadOf_eq hk]
          refine (ih (Nat.succ.inj hlen) husable.2 (k + 1) fun m hm => ?_).append
            (Does.single fun q hat => .next (step_load hat hx))
          rw [Nat.add_assoc, Nat.add_comm 1]
          exact hbase (m + 1) (by simpa using hm)

/-! ## Constructions that are redone -/

/-- The values with the object of a construction that has been put off, under its arguments. -/
lemma Mirrors.redone {K : Array Value} {s' : FrameStack Value} {o : ObjectId} {e : Plan.Deferral}
    {rest : List SlotType} (q' : Nat) (hm : Mirrors E p args d p.isOmitted f ⟨⟨q, L, xs ++ ys⟩, s⟩)
    (h : p.Faithful E nm args) (hf : p.subject.types.frames[j]? = some (some f))
    (hr : p.Redone j instr e f after rest) (hlen : e.args.length = xs.length) (hsize : K.size = L.size)
    (hbelow : ∀ l ≤ p.stackVar.toNat, K[l]? = L[l]?) (ho : E.made o e.site.cls)
    (hdepth : s'.depth = s.depth) (hroom : s.room ≤ s'.room) :
    Mirrors E p args d (p.without e.site.newAt) f ⟨⟨q', K, xs ++ .object o :: .object o :: ys⟩, s'⟩
      ∧ ∀ obj a, obj e.site.newAt = o → Completes p.isOmitted obj f ⟨q, L, xs ++ ys⟩ a →
          Completes (p.without e.site.newAt) obj f ⟨q', K, xs ++ .object o :: .object o :: ys⟩ a := by
  have hwidth : f.locals.size = p.stackVar.toNat := h.ready.certified.width j f hf
  have hlt : ∀ {l : Nat} {t : SlotType}, f.locals[l]? = some t → l ≤ p.stackVar.toNat := fun ht => by
    have := (Array.getElem?_eq_some_iff.mp ht).1
    omega
  constructor
  · have hoperands := hm.operands
    rw [hr.present_eq h.founded] at hoperands
    obtain ⟨xs', ys', heq, hxs, hys⟩ := Frame.forall₂_append_left hoperands
    obtain ⟨rfl, rfl⟩ := List.append_inj heq (hlen.symm.trans hxs.length_eq)
    have hmade : ∀ copied, E.Holds (.pending e.site.newAt e.site.cls copied) (.object o) :=
      fun copied => ⟨o, rfl, ho⟩
    refine ⟨⟨(hbelow _ (Nat.le_refl _)).trans hm.handle, hdepth.trans hm.depth⟩,
      Nat.lt_of_lt_of_le hm.room hroom, hm.width.trans_eq hsize.symm, ?_, fun l t ht => ?_, fun l hl => ?_,
      hm.usable⟩
    · rw [hr.present_without, Frame.present_congr (Plan.gaps_without hr.apart)]
      exact List.rel_append hxs (.cons (hmade true) (.cons (hmade false) hys))
    · obtain ⟨v, hv, hholds⟩ := hm.locals l t ht
      exact ⟨v, (hbelow l (hlt ht)).trans hv, hholds⟩
    · exact (hbelow l (hl.le.trans h.ready.firstLocal_le)).trans (hm.given l hl)
  · intro obj a hobj hc
    refine ⟨?_, hc.size, fun l t ht hne => (hc.locals l t ht hne).trans (hbelow l (hlt ht)).symm⟩
    rw [hc.stack, hr.thicken_eq h.founded hlen, hr.thicken_without hlen, hobj,
      Plan.gaps_without hr.apart]

/-- **A construction that has been put off is made**: the arguments are put aside, the object is made and
copied, and the arguments are brought back. -/
lemma Level.redoes (hl : Level E p args d j f c) (h : p.Faithful E nm args) {e : Plan.Deferral}
    {rest : List SlotType} (hr : p.Redone j instr e f after rest) (hat : p.code[j]? = some instr)
    (hdef : p.deferral? j instr = .ok (some e)) (hseg : p.segmentAt j = e.emit (p.stackVar + 1) instr) :
    ∃ q K ys, Relation.ReflTransGen (Proceeds E.toClasses E.surroundings p nm) c ⟨⟨q, K, ys⟩, c.stack⟩
      ∧ p.Own q ∧ nm.code[q]? = some ⟨.new, .type e.site.cls⟩
      ∧ ∀ o s', E.made o e.site.cls → s'.depth = c.stack.depth → c.stack.room ≤ s'.room →
        ∃ b, Relation.ReflTransGen (Proceeds E.toClasses E.surroundings p nm)
            ⟨⟨q + 1, K, .object o :: ys⟩, s'⟩ ⟨b, s'⟩
          ∧ b.pc + 1 = p.place (j + 1) ∧ nm.code[b.pc]? = some instr
          ∧ Mirrors E p args d (p.without e.site.newAt) f ⟨b, s'⟩
          ∧ ∀ obj a, obj e.site.newAt = o → Completes p.isOmitted obj f c.act a →
              Completes (p.without e.site.newAt) obj f b a := by
  obtain ⟨⟨q, L, us⟩, s⟩ := c
  obtain ⟨hm, hpc, hf⟩ := hl
  obtain rfl : q = p.place j := hpc
  have hcode := h.ready.lays.segment j (Array.getElem?_eq_some_iff.mp hat).1
  have hplace := p.place_succ j
  rw [hseg] at hcode hplace
  simp only [Plan.Deferral.emit, List.length_append, List.length_cons, List.length_nil, Plan.length_spill,
    Plan.length_reload] at hplace
  simp only [Plan.Deferral.emit, List.append_assoc, Code.has_append, List.cons_append, List.nil_append,
    Code.has_cons, Plan.length_spill, Plan.length_reload] at hcode
  obtain ⟨hspill, hcreate, hcopy, hreload, hcall, -⟩ := hcode
  have hown : ∀ k, k < e.args.length + 2 + e.args.length → p.Own (p.place j + k) := fun k hk =>
    Plan.own_of_lt h.ready.lays h.ready.sound (Nat.le_add_right _ _) (by omega)
  have hargs : ∀ t ∈ e.args, t.kind? ≠ none := fun t ht =>
    hm.usable t (hr.stack ▸ List.mem_append_left _ ht)
  obtain ⟨xs, ys, rfl, hlen⟩ : ∃ xs ys, us = xs ++ ys ∧ e.args.length = xs.length := by
    have hoperands := hm.operands
    rw [hr.present_eq h.founded] at hoperands
    obtain ⟨xs, ys, heq, hxs, -⟩ := Frame.forall₂_append_left hoperands
    exact ⟨xs, ys, heq, hxs.length_eq⟩
  -- there are temporaries for them
  have hcount : e.args.length ≤ p.temporaries 0 p.code.toList :=
    Plan.args_le_temporaries (k := j) (by simpa using hat) (by simpa using hdef)
  have hbase : ∀ k < e.args.length, (p.stackVar + 1 + UInt32.ofNat k).toNat = p.stackVar.toNat + 1 + k :=
    fun k hk => Plan.LocalsFit.toNat_temporary h.ready.locals (by omega)
  have hwidth : p.stackVar.toNat + 1 + p.temporaries 0 p.code.toList ≤ L.size := hm.width
  have hdoes : Does E.inst E.surroundings nm (Plan.spill (p.stackVar + 1) e.args) [] ⟨L, xs ++ ys, s⟩
      ⟨stash L (p.stackVar.toNat + 1) xs, ys, s⟩ := does_spill hlen hargs hbase (by omega)
  have hspills := (hdoes _ hspill).proceeds (C := E.toClasses) (p := p) fun q hlow hhigh => by
      obtain ⟨k, rfl⟩ := Nat.exists_eq_add_of_le hlow
      rw [Plan.length_spill] at hhigh
      exact hown k (by omega)
  rw [Plan.length_spill] at hspills
  refine ⟨_, _, ys, hspills, hown _ (by omega), hr.create ▸ hcreate, fun o s' ho hdepth hroom => ?_⟩
  have hdup : Proceeds E.toClasses E.surroundings p nm
      ⟨⟨p.place j + e.args.length + 1, stash L (p.stackVar.toNat + 1) xs, .object o :: ys⟩, s'⟩
      ⟨⟨p.place j + e.args.length + 1 + 1, stash L (p.stackVar.toNat + 1) xs,
        .object o :: .object o :: ys⟩, s'⟩ := by
    refine .advances (.next ?_)
    rw [step_eq hcopy]
    simp [Activation.execute, hr.copy, Activation.shuffle, Activation.goOn]
  have hback : Does E.inst E.surroundings nm (Plan.reload (p.stackVar + 1) e.args) []
      ⟨stash L (p.stackVar.toNat + 1) xs, .object o :: .object o :: ys, s'⟩
      ⟨stash L (p.stackVar.toNat + 1) xs, xs ++ .object o :: .object o :: ys, s'⟩ :=
    does_reload hlen hargs fun k hk => by
      rw [hbase k hk]
      exact getElem?_stash (by omega) (by omega)
  have hreloads := (hback _ hreload).proceeds (C := E.toClasses) (p := p)
    fun q hlow hhigh => by
      obtain ⟨k, rfl⟩ := Nat.exists_eq_add_of_le hlow
      rw [Plan.length_reload] at hhigh
      rw [show p.place j + e.args.length + 1 + 1 + k = p.place j + (e.args.length + 2 + k) by omega]
      exact hown _ (by omega)
  rw [Plan.length_reload] at hreloads
  obtain ⟨hmirrors, hcompletes⟩ := Mirrors.redone (K := stash L (p.stackVar.toNat + 1) xs)
    (p.place j + e.args.length + 1 + 1 + e.args.length) hm h hf hr hlen size_stash
    (fun l hl => getElem?_stash_of_lt (by omega)) ho hdepth hroom
  refine ⟨⟨p.place j + e.args.length + 1 + 1 + e.args.length, _, _⟩, .head hdup hreloads, ?_, hcall,
    hmirrors, hcompletes⟩
  show p.place j + e.args.length + 1 + 1 + e.args.length + 1 = p.place (j + 1)
  omega

/-! ## Points -/

/-- **A record keeps the values at a point**: what is on the operand stack, and the usable locals that the
caller does not supply. -/
def Stored (E : Environment) (p : Plan) (pt : SuspensionPoint) (b : Activation) (r : FrameRecord Value) :
    Prop :=
  ∃ stack locals, pt.Filled E.inst stack locals ∧ pt.SavedIn r stack locals
    ∧ b.stack = stack.flatMap FilledSlot.operand
    ∧ ∀ (l : Nat) (e : FilledSlot), locals[l]? = some e → e.type ≠ .unusable → p.subject.firstLocal ≤ l →
        b.locals[l]? = some e.value

/-- Values that are the same as far as a frame says anything of them. -/
structure Same (f : Frame) (b b' : Activation) : Prop where
  stack : b'.stack = b.stack
  locals : f.Agree b'.locals b.locals

lemma Completes.same (h : Completes out obj f b a) (hsame : Same f b b') : Completes out obj f b' a where
  stack := hsame.stack ▸ h.stack
  size := h.size
  locals l t ht hne := (h.locals l t ht hne).trans (hsame.locals l t ht hne).symm

variable {pt : SuspensionPoint} {s' : FrameStack Value} {r : FrameRecord Value}

/-- What is there at a point is what its record keeps. -/
lemma present_eq_kept (hp : p.Founded) (hpt : pt ∈ p.points) :
    Frame.present p.isOmitted pt.frame.stack = pt.frame.stack.filter fun t => !p.subject.isDeferred t :=
  List.filter_congr fun t ht => by rw [Plan.isNone_absent?, hp.leavesOut_eq hpt ht]

/-- **At a point the values are saved.** -/
lemma Level.saves (hl : Level E p args d pt.position pt.frame c) (h : p.Faithful E nm args)
    (hpt : p.points[i]? = some pt) :
    ∃ s', Relation.ReflTransGen (Proceeds E.toClasses E.surroundings p nm) c
        ⟨⟨p.place pt.position + 1 + (Emit.save p.stackVar pt).length, c.act.locals, []⟩, s'⟩
      ∧ Stored E p pt c.act (s'.recordAt d) ∧ s'.depth = d + 1 ∧ d < s'.room := by
  obtain ⟨hfound, hslots, -, -, -⟩ := atPlan h.ready hpt
  have hoperands := hl.operands
  rw [present_eq_kept h.founded (List.mem_of_getElem? hpt)] at hoperands
  obtain ⟨stack, locals, hfilled, hstack, hvalues⟩ := hfound.exists_filled
    (hoperands.imp fun _ _ => World.Holds.allows) fun l t ht =>
      (hl.locals l t ht).imp fun _ hv => ⟨hv.1, hv.2.allows⟩
  have hdepth := hl.depth
  have hs : Entered c.stack := entered_iff.mpr ⟨by omega, by have := hl.room; omega⟩
  have hrun := reaches_saved h.ready hpt hfilled hl.handle hs hvalues
  refine ⟨saved pt c.stack (stack ++ locals), ?_, ⟨stack, locals, hfilled, ?_, hstack,
    fun l e he _ _ => hvalues l e he⟩, by rw [depth_saved, hdepth], by rw [room_saved]; exact hl.room⟩
  · obtain ⟨⟨q, L, vs⟩, s⟩ := c
    obtain rfl : q = p.place pt.position := hl.pc
    obtain rfl : vs = stack.flatMap FilledSlot.operand := hstack
    exact hrun
  · have hsaved := savedIn_saved (s := c.stack) hfound hfilled hslots
    unfold FrameStack.topRecord at hsaved
    rw [depth_saved, hdepth] at hsaved
    exact hsaved

/-- **Behind the label to resume at they are restored.** -/
lemma Stored.restores (hst : Stored E p pt b (s'.recordAt d)) (h : p.Faithful E nm args)
    (hpt : p.points[i]? = some pt) (hm : Mirrors E p args d p.isOmitted pt.frame ⟨b, s⟩)
    (hL : L[p.stackVar.toNat]? = some (.object E.surroundings.handle)) (hdepth : s'.depth = d + 1)
    (hroom : d < s'.room) (hwidth : p.stackVar.toNat + 1 + p.temporaries 0 p.code.toList ≤ L.size)
    (hgiven : ∀ l < p.subject.firstLocal, L[l]? = args[l]?) :
    ∃ b', Relation.ReflTransGen (Proceeds E.toClasses E.surroundings p nm)
        ⟨⟨p.place pt.position + p.resumeOffset pt, L, []⟩, s'⟩ ⟨b', s'⟩
      ∧ b'.pc = p.place pt.position + p.afterOffset pt + 1
      ∧ Mirrors E p args d p.isOmitted pt.frame ⟨b', s'⟩ ∧ Same pt.frame b b'
      ∧ Stored E p pt b' (s'.recordAt d) := by
  obtain ⟨stack, locals, hfilled, hsaved, hstack, hvalues⟩ := hst
  obtain ⟨hfound, -, -, hvar, -⟩ := atPlan h.ready hpt
  have hmem := List.mem_of_getElem? hpt
  have hs : Entered s' := entered_iff.mpr ⟨by omega, by omega⟩
  have htop : s'.topRecord = s'.recordAt d := by
    unfold FrameStack.topRecord
    rw [hdepth]
    rfl
  have hcount : locals.length = p.stackVar.toNat := by
    rw [← hvar, ← hfilled.locals_eq, List.length_map]
  have hrun := reaches_after h.ready hpt hfilled hL hs (htop ▸ hsaved)
  rw [hfilled.pushed_eq hfound, ← hstack] at hrun
  swap
  · intro t ht hun
    exact hm.usable t (List.mem_of_mem_filter ht) (by rw [hun]; rfl)
  have hafter := (Plan.pointCode h.ready.lays h.ready.sound hpt).after
  generalize hK : FilledSlot.setAll L p.subject.firstLocal (locals.drop p.subject.firstLocal) = K at hrun
  have hsize : K.size = L.size := by rw [← hK, FilledSlot.size_setAll]
  have hfirst := h.ready.firstLocal_le
  have houtside : ∀ l, l < p.subject.firstLocal ∨ p.stackVar.toNat ≤ l → K[l]? = L[l]? := by
    intro l hl
    rw [← hK]
    refine FilledSlot.getElem?_setAll_of_outside (hl.imp_right fun hl => ?_)
    rw [List.length_drop]
    omega
  have hgiven' : ∀ l < p.subject.firstLocal, K[l]? = args[l]? := fun l hl =>
    (houtside l (Or.inl hl)).trans (hgiven l hl)
  have hrestored : ∀ (l : Nat) (e : FilledSlot), locals[l]? = some e → e.type ≠ .unusable →
      p.subject.firstLocal ≤ l → K[l]? = some e.value := by
    intro l e he hne hl
    rw [← hK]
    exact hfilled.getElem?_restored hfound (by omega) he hne hl
  have hsame : Same pt.frame b ⟨p.place pt.position + p.afterOffset pt + 1, K, b.stack⟩ := by
    refine ⟨rfl, fun l t ht hne => ?_⟩
    obtain ⟨e, he, rfl⟩ := hfilled.exists_local hfound ht
    by_cases hl : p.subject.firstLocal ≤ l
    · exact (hrestored l e he hne hl).trans (hvalues l e he hne hl).symm
    · exact (hgiven' l (by omega)).trans (hm.given l (by omega)).symm
  refine ⟨_, hrun.tail (.advances (advances_mark hafter)), rfl, ?_, hsame,
    stack, locals, hfilled, hsaved, hstack, hrestored⟩
  refine ⟨⟨(houtside _ (Or.inr (Nat.le_refl _))).trans hL, hdepth⟩, hroom, hwidth.trans_eq hsize.symm,
    hm.operands, fun l t ht => ?_, hgiven', hm.usable⟩
  by_cases hne : t = .unusable
  · have hlt := (Array.getElem?_eq_some_iff.mp ht).1
    have hframe : pt.frame.locals.size = p.stackVar.toNat := h.ready.certified.width _ _
      (h.founded.found pt hmem).frame_at
    refine ⟨_, Array.getElem?_eq_getElem (show l < K.size by omega), ?_⟩
    rw [hne]
    trivial
  · obtain ⟨v, hv, hholds⟩ := hm.locals l t ht
    exact ⟨v, (hsame.locals l t ht hne).trans hv, hholds⟩

/-- The receiver is among the arguments. -/
lemma exists_argument (h : p.Faithful E nm args) {l : Nat} (hl : l < p.subject.firstLocal) :
    ∃ v, args[l]? = some v := by
  obtain ⟨dm, -, hargs⟩ := h.arguments
  have hlen := hargs.length_eq
  have hgiven : p.subject.firstLocal
      ≤ (Analysis.givenSlots p.subject.owner p.subject.method dm).length := by
    unfold Subject.firstLocal Method.receiverCount Analysis.givenSlots
    cases p.subject.method.isStatic <;> simp
  exact ⟨_, List.getElem?_eq_getElem (by omega)⟩

/-- The locals of a method that has been entered, with the frame stack. -/
lemma size_entered (h : p.Faithful E nm args) (v : Value) :
    p.stackVar.toNat + 1 + p.temporaries 0 p.code.toList
      ≤ ((Activation.enter nm args).locals.set! p.stackVar.toNat v).size := by
  have hlocals := h.ready.locals
  rw [Array.set!_eq_setIfInBounds, Array.size_setIfInBounds, Activation.size_locals_enter,
    h.ready.lays.maxLocals, UInt32.toNat_add, UInt32.toNat_add, UInt32.toNat_ofNat',
    Nat.mod_eq_of_lt (show p.stackVar.toNat + (1 : UInt32).toNat < 2 ^ 32 by
      have : (1 : UInt32).toNat = 1 := rfl
      omega)]
  have hone : (1 : UInt32).toNat = 1 := rfl
  rw [hone, Nat.mod_eq_of_lt (show p.temporaries 0 p.code.toList < 2 ^ 32 by omega),
    Nat.mod_eq_of_lt (by omega)]

/-- **Entering a method with the record of a point**: its values are restored. -/
lemma Stored.reenters (hst : Stored E p pt b r) (h : p.Faithful E nm args) (hpt : p.points[i]? = some pt)
    (hm : Mirrors E p args d p.isOmitted pt.frame ⟨b, s⟩) (hdepth : s'.depth = d)
    (hrecord : s'.record? d = some r) :
    ∃ b', Relation.ReflTransGen (Proceeds E.toClasses E.surroundings p nm)
        ⟨Activation.enter nm args, s'⟩ ⟨b', s'.enter.2⟩
      ∧ b'.pc = p.place pt.position + p.afterOffset pt + 1
      ∧ Mirrors E p args d p.isOmitted pt.frame ⟨b', s'.enter.2⟩ ∧ Same pt.frame b b'
      ∧ Stored E p pt b' (s'.enter.2.recordAt d) := by
  subst hdepth
  obtain ⟨-, -, htop, hroom⟩ := FrameStack.enter_of_record hrecord
  obtain ⟨hsize, -⟩ := advances_prologue (S := E.surroundings) h.ready args s'
  have hentry : r.entry = pt.entry := by
    obtain ⟨stack, locals, -, hsaved, -⟩ := hst
    exact hsaved.entry
  have htop : s'.enter.2.recordAt s'.depth = r := by
    unfold FrameStack.topRecord at htop
    rw [FrameStack.depth_enter] at htop
    exact htop
  have hst : Stored E p pt b (s'.enter.2.recordAt s'.depth) := htop ▸ hst
  obtain ⟨b', hrun, hb'⟩ := hst.restores h hpt hm (by
    rw [Array.set!_eq_setIfInBounds, Array.getElem?_setIfInBounds_self_of_lt hsize])
    s'.depth_enter (by rw [hroom]; exact FrameStack.lt_of_record? hrecord) (size_entered h _) fun l hl => by
      obtain ⟨v, hv⟩ := exists_argument h hl
      exact (getElem?_receiver h.ready [] hl h.ready.firstLocal_le hv).trans hv.symm
  exact ⟨b', (reaches_label h.ready hpt args hrecord hentry).trans hrun, hb'⟩

/-- **Waiting at the call of a point**, with a record of the values there. -/
structure AtCall (E : Environment) (p : Plan) (args : List Value) (d : Nat) (pt : SuspensionPoint)
    (c : Running) : Prop extends Mirrors E p args d p.isOmitted pt.frame c where
  pc : c.act.pc = p.imageAt pt.position
  stored : Stored E p pt c.act (c.stack.recordAt d)

/-- **A method comes to the call of a point.** -/
lemma Level.reaches_call (hl : Level E p args d pt.position pt.frame c) (h : p.Faithful E nm args)
    (hpt : p.points[i]? = some pt) (hyield : pt.isYield = false) :
    ∃ c', Relation.ReflTransGen (Proceeds E.toClasses E.surroundings p nm) c c'
      ∧ AtCall E p args d pt c' ∧ Same pt.frame c.act c'.act := by
  obtain ⟨s', hsave, hst, hdepth, hroom⟩ := hl.saves h hpt
  have hq : p.place pt.position + 1 + (Emit.save p.stackVar pt).length
      = p.place pt.position + p.resumeOffset pt := by
    unfold Plan.resumeOffset
    rw [hyield]
    simp
    omega
  rw [hq] at hsave
  obtain ⟨b', hrun, hpc, hm, hsame, hst'⟩ :=
    hst.restores h hpt hl.toMirrors hl.handle hdepth hroom hl.width hl.given
  exact ⟨_, hsave.trans hrun, ⟨hm, hpc.trans (imageAt_point h.ready hpt hyield).symm, hst'⟩, hsame⟩

/-- **Left by the suspend signal and entered again**, it comes to the call again. -/
lemma AtCall.again (hc : AtCall E p args d pt c) (h : p.Faithful E nm args) (hpt : p.points[i]? = some pt)
    (hyield : pt.isYield = false) {o : ObjectId} (hraises : Raises E.surroundings p nm c o a s)
    (hsignal : E.surroundings.IsSignal o) (hdepth : s'.depth = d)
    (hrecord : s'.record? d = some (s.recordAt d)) :
    ∃ c', Relation.ReflTransGen (Proceeds E.toClasses E.surroundings p nm) ⟨Activation.enter nm args, s'⟩ c'
      ∧ AtCall E p args d pt c' ∧ Same pt.frame c.act c'.act := by
  obtain ⟨-, -, hthrows⟩ := hraises
  have hkept := hthrows.record hsignal
  have hd := hc.depth
  simp only at hd
  rw [hd, Nat.add_sub_cancel] at hkept
  obtain ⟨b', hrun, hpc, hm, hsame, hst⟩ :=
    hc.stored.reenters h hpt hc.toMirrors hdepth (hrecord.trans (congrArg some hkept))
  exact ⟨_, hrun, ⟨hm, hpc.trans (imageAt_point h.ready hpt hyield).symm, hst⟩, hsame⟩

/-- **A request to suspend throws the signal**, once the values are saved. -/
lemma Level.yields (hl : Level E p args d pt.position pt.frame c) (h : p.Faithful E nm args)
    (hpt : p.points[i]? = some pt) (hyield : pt.isYield = true) :
    ∃ q L s', Relation.ReflTransGen (Proceeds E.toClasses E.surroundings p nm) c
        ⟨⟨q, L, [.object E.surroundings.signal]⟩, s'⟩
      ∧ Activation.step (.ofMethod nm) ⟨q, L, [.object E.surroundings.signal]⟩
          = .asks (.throw E.surroundings.signal) ⟨q, L, []⟩
      ∧ p.Own q ∧ (p.place pt.position ≤ q ∧ q < p.place (pt.position + 1))
      ∧ Stored E p pt c.act (s'.recordAt d) ∧ s'.depth = d + 1 ∧ d < s'.room := by
  obtain ⟨s', hsave, hst, hdepth, hroom⟩ := hl.saves h hpt
  obtain ⟨hsignal, hstep, hlt⟩ := reaches_throw (D := E.toClasses) (S := E.surroundings)
    (L := c.act.locals) (s := s') h.ready hpt hyield
  have hnext := Plan.afterOffset_lt h.ready.sound hpt
  obtain ⟨k, hk⟩ := Nat.exists_eq_add_of_le
    (show p.place pt.position ≤ p.place pt.position + 1 + (Emit.save p.stackVar pt).length + 1 by omega)
  refine ⟨_, _, s', hsave.tail hsignal, hstep, ?_, ⟨by omega, by omega⟩, hst, hdepth, hroom⟩
  rw [hk] at hlt ⊢
  exact (landing_point (S := E.surroundings) h.ready hpt (by omega)).1

/-! ## Where an exception comes to -/

variable {o : ObjectId}

/-- **An exception of an instruction comes to where it comes to in the method**: to the handler that catches
it there, or to the one that pops the record. -/
lemma lands (h : p.Faithful E nm args) (hm : Mirrors E p args d out f ⟨b, s⟩) {q : Nat}
    (hw : p.Within j q) (hf : p.subject.types.frames[j]? = some (some f)) {r : Request}
    (hraises : E.raises r o) (hdepth : s'.depth = s.depth) (hroom : s.room ≤ s'.room)
    (hlocals : b'.locals = b.locals) :
    ((Body.ofMethod p.subject.method).handlerFor (E.surroundings.isA o) j = none
      ∧ (Body.ofMethod nm).handlerFor (E.surroundings.isA o) q = some (p.place p.code.size + 1)) ∨
    ∃ i g, (Body.ofMethod p.subject.method).handlerFor (E.surroundings.isA o) j = some i
      ∧ (Body.ofMethod nm).handlerFor (E.surroundings.isA o) q = some (p.place i)
      ∧ Level E p args d i g ⟨b'.caught (p.place i) o, s'⟩
      ∧ ∀ obj obj' a a', Completes out obj f b a → a'.locals = a.locals →
          Completes p.isOmitted obj' g (b'.caught (p.place i) o) (Activation.caught a' i o) := by
  have hsignal : E.surroundings.isA o ClassName.suspendSignal = false := by
    simpa [Surroundings.IsSignal] using h.signals r o hraises
  rw [Body.handlerFor_ofMethod p.subject.method]
  rcases h.ready.lands hw hf hsignal with ⟨hnone, hland⟩ | ⟨x, i, hrange, hi, hland, hreach⟩
  · exact Or.inl ⟨by rw [hnone]; rfl, hland⟩
  · have hcls : E.inst (.object o) (Analysis.caughtClass x) := by
      have hcatches := List.find?_some hrange
      simp only [Bool.and_eq_true, Bool.or_eq_true] at hcatches
      unfold Analysis.caughtClass
      split
      · exact h.conforms.throwable r o hraises
      · next hnonempty =>
          exact h.conforms.isA r o _ hraises (hcatches.2.resolve_left hnonempty)
    have hcaught : Mirrors E p args d p.isOmitted ⟨f.locals, [.ref (Analysis.caughtClass x)]⟩
        ⟨b'.caught (p.place i) o, s'⟩ := by
      refine ⟨⟨hlocals ▸ hm.handle, hdepth.trans hm.depth⟩, Nat.lt_of_lt_of_le hm.room hroom,
        hlocals ▸ hm.width, .cons ⟨rfl, Or.inr hcls⟩ .nil, hlocals ▸ hm.locals, hlocals ▸ hm.given, ?_⟩
      simp [SlotType.kind?]
    obtain ⟨g, hg, hle⟩ := Level.of_reaches h hcaught rfl hreach
    refine Or.inr ⟨i, g, ?_, hland, hg, fun obj obj' a a' hc ha' => ?_⟩
    · rw [hrange, Option.map_some, Method.labelPosition, show p.subject.method.code.labelAt? x.handler = _
        from hi]
      rfl
    · have hwhole : Completes p.isOmitted obj' ⟨f.locals, [.ref (Analysis.caughtClass x)]⟩
          (b'.caught (p.place i) o) (Activation.caught a' i o) := by
        refine ⟨rfl, (congrArg Array.size ha').trans hc.size, fun l t ht hne => ?_⟩
        simp only [Activation.caught, ha', hlocals]
        exact hc.locals l t ht hne
      exact hwhole.le (fun _ => h.founded.absent?_of_free) hle

/-- **What the method does not catch leaves it** when the record is popped. -/
lemma rethrows (h : p.Faithful E nm args) (hL : L[p.stackVar.toNat]? = some (.object E.surroundings.handle)) :
    Relation.ReflTransGen (Proceeds E.toClasses E.surroundings p nm)
        ⟨⟨p.place p.code.size + 1, L, [.object o]⟩, s⟩ ⟨⟨p.place p.code.size + 5, L, [.object o]⟩, s.pop⟩
      ∧ Activation.step (.ofMethod nm) ⟨p.place p.code.size + 5, L, [.object o]⟩
          = .asks (.throw o) ⟨p.place p.code.size + 5, L, []⟩
      ∧ p.Own (p.place p.code.size + 5)
      ∧ (Body.ofMethod nm).handlerFor (E.surroundings.isA o) (p.place p.code.size + 5) = none := by
  have hcode := h.ready.lays.epilogue
  have hown : ∀ k, p.Own (p.place p.code.size + k) := fun k =>
    Plan.own_epilogue h.ready.lays h.ready.sound (Nat.le_add_right _ _)
  refine ⟨?_, step_rethrow h.ready L o, hown 5, h.ready.lands_epilogue (Nat.le_add_right _ _) _⟩
  refine .head (.advances (advances_mark (hcode 1 (by simp)))) ?_
  refine .head (.advances (advances_load (hcode 2 (by simp)) hL)) ?_
  refine .head (.advances (advances_popMethod (hown 3) (hcode 3 (by simp)))) ?_
  exact .single (.advances (advances_mark (hcode 4 (by simp))))

/-- **In front of a return the record is popped.** -/
lemma Level.returns (hl : Level E p args d j f c) (h : p.Faithful E nm args) (hat : p.code[j]? = some instr)
    (hseg : p.segmentAt j = [.slot (.load .ref) p.stackVar, Emit.popMethod, instr]) :
    ∃ b s', Relation.ReflTransGen (Proceeds E.toClasses E.surroundings p nm) c ⟨b, s'⟩
      ∧ b.locals = c.act.locals ∧ b.stack = c.act.stack ∧ b.pc + 1 = p.place (j + 1)
      ∧ nm.code[b.pc]? = some instr := by
  obtain ⟨⟨q, L, vs⟩, s⟩ := c
  obtain rfl : q = p.place j := hl.pc
  have hcode := h.ready.lays.segment j (Array.getElem?_eq_some_iff.mp hat).1
  have hplace := p.place_succ j
  rw [hseg] at hcode hplace
  rw [Code.has_cons, Code.has_cons, Code.has_cons] at hcode
  obtain ⟨hload, hpop, hret, -⟩ := hcode
  have hown : p.Own (p.place j + 1) :=
    Plan.own_of_lt h.ready.lays h.ready.sound (Nat.le_add_right _ _) (by rw [hplace]; simp)
  refine ⟨⟨p.place j + 1 + 1, L, vs⟩, s.pop, ?_, rfl, rfl, hplace.symm, hret⟩
  exact .head (.advances (advances_load hload hl.handle)) (.single (.advances (advances_popMethod hown hpop)))

end Running

end Suspension
