import Suspension.Proofs.Frame.Inheriting
import Suspension.Proofs.Frame.Trimming
import Suspension.Proofs.Instrument.Crossing

/-!
# Frames in a transformed body

In a transformed body, **the frame at the place of an instruction is the image of the frame at the
instruction**: the entries of constructions that are left out are missing, other constructions that are not
pinned have moved to the images of their `new`, pinned ones are ordinary references, and behind the locals of
the method there are the frame stack and the temporaries.  What an instruction that stays does to its frame, it
does to the image; one that is dropped changes nothing there.

* `Plan.standsAt`, `Plan.frameImage` — where a construction is, and the image of a frame.
* `Plan.imageSites` — the constructions of the transformed body.
* `Plan.Founded.moves`, `Plan.Typed.image_plain` — an instruction that stays.
* `Plan.Founded.image_dropped`, `Plan.Typed.image_redone` — one that is dropped, a construction that is redone.
-/

namespace Suspension

namespace Plan

/-! ## Constructions -/

/-- Whether a construction is told from an ordinary reference in the transformed body: it is neither left out
nor pinned. -/
def isHeld (p : Plan) (n : Nat) : Bool := !p.isOmitted n && (p.subject.site? n).any fun s => !s.pinned

/-- **Where the construction of a `new` is in the transformed body**, if it is told from a reference there. -/
def standsAt (p : Plan) (n : Nat) : Option Nat := if p.isHeld n then some (p.imageAt n) else none

/-- **The constructions of the transformed body that are told from references.** -/
abbrev heldAt (p : Plan) (q : Nat) : Prop := SlotType.Target p.standsAt q

/-- The locals behind those of the method: the frame stack, and the temporaries. -/
def extraLocals (p : Plan) : Array SlotType :=
  #[.ref ClassName.frameStack] ++ Array.replicate (p.temporaries 0 p.code.toList) .unusable

/-- **The image of a frame.** -/
def frameImage (p : Plan) (f : Frame) : Frame := f.image p.isOmitted p.standsAt p.extraLocals

/-- The constructions that stay, where they are in the transformed body. -/
def heldSites (p : Plan) : List Site :=
  (p.subject.types.sites.filter fun s => p.isHeld s.newAt).map fun s =>
    ⟨s.cls, p.imageAt s.newAt, s.dupAt.map p.imageAt, false⟩

/-- The construction that is redone in front of the constructor call at a position. -/
def redoneSite? (p : Plan) (i : Nat) : Option Site :=
  match (p.code[i]?).map (p.deferral? i) with
  | some (.ok (some d)) =>
    some ⟨d.site.cls, p.place i + d.args.length, some (p.place i + d.args.length + 1), false⟩
  | _ => none

/-- **The constructions of the transformed body.** -/
def imageSites (p : Plan) : List Site :=
  p.heldSites ++ (List.range p.code.size).filterMap p.redoneSite?

variable {p : Plan} {i j n q : Nat} {instr : Instruction} {f after : Frame}

lemma standsAt_eq_some : p.standsAt n = some q ↔ p.isHeld n = true ∧ p.imageAt n = q := by
  unfold standsAt
  split
  · next h => simp [h]
  · next h => simp [h]

/-- A construction that is told from a reference. -/
lemma site_of_isHeld (h : p.isHeld n = true) :
    p.isOmitted n = false ∧ ∃ s ∈ p.subject.types.sites, s.newAt = n ∧ s.pinned = false := by
  simp only [isHeld, Bool.and_eq_true, Bool.not_eq_true', Option.any_eq_true_iff_get] at h
  obtain ⟨homitted, hsome, hpinned⟩ := h
  obtain ⟨s, hs⟩ := Option.isSome_iff_exists.mp hsome
  simp only [hs, Option.get_some] at hpinned
  exact ⟨homitted, s, List.mem_of_find?_eq_some hs, by simpa using List.find?_some hs, hpinned⟩

lemma Founded.not_pinned_of_isHeld (hp : p.Founded) (h : p.isHeld n = true) :
    ¬ Site.Pinned p.subject.types.sites n := by
  obtain ⟨-, s, hs, hn, hpinned⟩ := site_of_isHeld h
  rintro ⟨s', hs', hn', hpinned'⟩
  obtain rfl := hp.certified.sites.eq_of_newAt hs hs' (hn.trans hn'.symm)
  rw [hpinned] at hpinned'
  cases hpinned'

/-- What stays of a construction stands alone in its segment. -/
lemma Sound.segmentAt_held (hsound : p.Sound) (h : p.isHeld n = true) :
    n < p.code.size ∧ p.segmentAt n = [p.code.getD n default] := by
  obtain ⟨homitted, s, hs, rfl, -⟩ := site_of_isHeld h
  have hcode : p.code[s.newAt]? = some ⟨.new, .type s.cls⟩ := hsound.sites.new_at s hs
  refine ⟨(Array.getElem?_eq_some_iff.mp hcode).1, ?_⟩
  rw [Array.getD_eq_getD_getElem?, hcode]
  have hseg := hsound.segment_cases hcode
  generalize p.segmentAt s.newAt = l at hseg
  cases hseg with
  | point hpt hpos =>
      obtain ⟨instr, mode, hcode', hop, -⟩ := hsound.point_call hpt
      rw [hpos, hcode] at hcode'
      cases hcode'
      cases hop
  | dropped _ hd =>
      obtain ⟨s', hs', hi⟩ := List.any_eq_true.mp hd
      simp only [Bool.and_eq_true, Bool.or_eq_true, beq_iff_eq] at hi
      rcases hi with ⟨ho, hn | hdup⟩
      · rw [hn, homitted] at ho
        cases ho
      · obtain ⟨instr, hcode', hop⟩ := hsound.sites.dup_at s' hs' _ hdup
        have hcode' : p.code[s.newAt]? = some instr := hcode'
        rw [hcode] at hcode'
        cases hcode'
        cases hop
  | returns _ _ hret => cases hret
  | plain => rfl
  | redone _ _ _ hdef =>
      obtain ⟨m, _, _, _, _, _, hr⟩ := deferral?_eq_some hdef
      cases hr.constructor

/-- A place in a segment is in that segment only. -/
lemma place_inj {k l : Nat} (hk : k < (p.segmentAt i).length) (hl : l < (p.segmentAt j).length)
    (h : p.place i + k = p.place j + l) : i = j ∧ k = l := by
  rcases Nat.lt_trichotomy i j with hlt | rfl | hlt
  · have := p.place_add_le hlt
    omega
  · exact ⟨rfl, by omega⟩
  · have := p.place_add_le hlt
    omega

/-- An instruction that stands alone is where its segment begins. -/
lemma imageAt_eq_place (h : (p.segmentAt i).length = 1) : p.imageAt i = p.place i := by
  unfold imageAt
  rw [place_succ, h]
  rfl

lemma Sound.imageAt_held (hp : p.Sound) (h : p.isHeld n = true) :
    p.imageAt n = p.place n ∧ (p.segmentAt n).length = 1 := by
  have hlen : (p.segmentAt n).length = 1 := by rw [(hp.segmentAt_held h).2]; rfl
  exact ⟨imageAt_eq_place hlen, hlen⟩

lemma Sound.standsAt_inj (hp : p.Sound) :
    ∀ n n' q, p.standsAt n = some q → p.standsAt n' = some q → n = n' := by
  intro n n' q hn hn'
  obtain ⟨hheld, hq⟩ := standsAt_eq_some.mp hn
  obtain ⟨hheld', hq'⟩ := standsAt_eq_some.mp hn'
  obtain ⟨hplace, hlen⟩ := hp.imageAt_held hheld
  obtain ⟨hplace', hlen'⟩ := hp.imageAt_held hheld'
  refine (place_inj (p := p) (i := n) (j := n') (k := 0) (l := 0) ?_ ?_ ?_).1 <;> omega

lemma tracked_standsAt : SlotType.Tracked p.standsAt n ↔ p.isHeld n = true := by
  unfold SlotType.Tracked standsAt
  split
  · next h => simp [h]
  · next h => simp [h]

/-! ### In the transformed body -/

lemma mem_heldSites {s : Site} : s ∈ p.heldSites ↔ ∃ s' ∈ p.subject.types.sites, p.isHeld s'.newAt = true
    ∧ s = ⟨s'.cls, p.imageAt s'.newAt, s'.dupAt.map p.imageAt, false⟩ := by
  simp only [heldSites, List.mem_map, List.mem_filter]
  exact ⟨fun ⟨s', ⟨hs, hh⟩, heq⟩ => ⟨s', hs, hh, heq.symm⟩, fun ⟨s', hs, hh, heq⟩ => ⟨s', ⟨hs, hh⟩, heq.symm⟩⟩

lemma redoneSite?_eq_some {s : Site} (h : p.redoneSite? i = some s) :
    ∃ instr d, p.code[i]? = some instr ∧ p.deferral? i instr = .ok (some d)
      ∧ s = ⟨d.site.cls, p.place i + d.args.length, some (p.place i + d.args.length + 1), false⟩ := by
  unfold redoneSite? at h
  split at h
  · next d heq =>
      obtain ⟨instr, hcode, hdef⟩ := Option.map_eq_some_iff.mp heq
      exact ⟨instr, d, hcode, hdef, (Option.some.inj h).symm⟩
  · cases h

/-- None of them is pinned. -/
lemma not_pinned_imageSites (p : Plan) (q : Nat) : ¬ Site.Pinned p.imageSites q := by
  rintro ⟨s, hs, -, hpinned⟩
  rcases List.mem_append.mp hs with hs | hs
  · obtain ⟨s', -, -, rfl⟩ := mem_heldSites.mp hs
    cases hpinned
  · obtain ⟨i, -, hi⟩ := List.mem_filterMap.mp hs
    obtain ⟨instr, d, -, -, rfl⟩ := redoneSite?_eq_some hi
    cases hpinned

/-- A construction that is redone has a segment of its own. -/
lemma Sound.segmentAt_redone (hp : p.Sound) (hcode : p.code[i]? = some instr) {d : Deferral}
    (hdef : p.deferral? i instr = .ok (some d)) : p.segmentAt i = d.emit (p.stackVar + 1) instr := by
  obtain ⟨m, f, cls, cls', dupAt, rest, hr⟩ := deferral?_eq_some hdef
  obtain ⟨hop, ho, hname⟩ := constructor?_eq_some hr.constructor
  have hseg := hp.segment_cases hcode
  generalize p.segmentAt i = l at hseg
  cases hseg with
  | point hpt hpos =>
      obtain ⟨instr', m', hcode', hcallee, -⟩ := (hp.found _ (List.mem_of_getElem? hpt)).call
      have hcode' : p.code[i]? = some instr' := hpos ▸ hcode'
      rw [hcode] at hcode'
      cases hcode'
      simp [Instruction.callee?, hop, ho, hname] at hcallee
  | dropped _ hd =>
      obtain ⟨instr', hcode', hop'⟩ := hp.dropped hd
      rw [hcode] at hcode'
      cases hcode'
      simp [hop] at hop'
  | returns _ _ hret => simp [hop, Opcode.isReturn] at hret
  | plain _ _ _ hnone =>
      rw [hdef] at hnone
      cases hnone
  | redone _ _ _ hdef' =>
      rw [hdef] at hdef'
      cases hdef'
      rfl

lemma length_emit (d : Deferral) (base : UInt32) (call : Instruction) :
    (d.emit base call).length = d.args.length + 2 + d.args.length + 1 := by
  simp [Deferral.emit]
  omega

/-- The place of a construction that is redone is the place of no other. -/
lemma Sound.not_target_redone (hp : p.Sound) (hcode : p.code[i]? = some instr) {d : Deferral}
    (hdef : p.deferral? i instr = .ok (some d)) : ¬ p.heldAt (p.place i + d.args.length) := by
  rintro ⟨n, hn⟩
  obtain ⟨hheld, hq⟩ := standsAt_eq_some.mp hn
  obtain ⟨hplace, hlen⟩ := hp.imageAt_held hheld
  have hseg := congrArg List.length (hp.segmentAt_redone hcode hdef)
  rw [length_emit] at hseg
  obtain ⟨rfl, -⟩ := place_inj (p := p) (i := n) (j := i) (k := 0) (l := d.args.length) (by omega) (by omega)
    (by omega)
  omega

/-- **The constructions of the transformed body are copied in one place.** -/
lemma Sound.held_imageSites (hp : p.Sound) : Site.Held p.heldAt p.imageSites where
  unpinned q _ := p.not_pinned_imageSites q
  copied := by
    -- what is told from a reference is none of those that are redone
    have hcopied : ∀ {q d : Nat}, p.heldAt q → Site.CopiedAt p.imageSites q d →
        ∃ s ∈ p.subject.types.sites, p.standsAt s.newAt = some q ∧ s.dupAt.map p.imageAt = some d := by
      rintro q d hq ⟨s, hs, hn, hd⟩
      rcases List.mem_append.mp hs with hs | hs
      · obtain ⟨s', hs', hheld, rfl⟩ := mem_heldSites.mp hs
        exact ⟨s', hs', standsAt_eq_some.mpr ⟨hheld, hn⟩, hd⟩
      · obtain ⟨i, -, hi⟩ := List.mem_filterMap.mp hs
        obtain ⟨instr, e, hcode, hdef, rfl⟩ := redoneSite?_eq_some hi
        obtain rfl : p.place i + e.args.length = q := hn
        exact absurd hq (hp.not_target_redone hcode hdef)
    intro q d d' hq hd hd'
    obtain ⟨s, hs, hn, hd⟩ := hcopied hq hd
    obtain ⟨s', hs', hn', hd'⟩ := hcopied hq hd'
    obtain rfl := hp.sites.eq_of_newAt hs hs' (hp.standsAt_inj _ _ _ hn hn')
    rw [hd] at hd'
    exact Option.some.inj hd'

/-- A construction that stays is copied where its `dup` is. -/
lemma copiedAt_held {d : Nat} (hn : p.isHeld n = true) (h : Site.CopiedAt p.subject.types.sites n d) :
    Site.CopiedAt p.imageSites (p.imageAt n) (p.imageAt d) := by
  obtain ⟨s, hs, rfl, hd⟩ := h
  exact ⟨_, List.mem_append_left _ (mem_heldSites.mpr ⟨s, hs, hn, rfl⟩), rfl, by simp [hd]⟩

/-- One that is redone is copied right behind its `new`. -/
lemma copiedAt_redone (hcode : p.code[i]? = some instr) {d : Deferral}
    (hdef : p.deferral? i instr = .ok (some d)) :
    Site.CopiedAt p.imageSites (p.place i + d.args.length) (p.place i + d.args.length + 1) := by
  refine ⟨⟨d.site.cls, p.place i + d.args.length, some (p.place i + d.args.length + 1), false⟩,
    List.mem_append_right _ (List.mem_filterMap.mpr ⟨i, ?_, ?_⟩), rfl, rfl⟩
  · exact List.mem_range.mpr (Array.getElem?_eq_some_iff.mp hcode).1
  · simp [redoneSite?, hcode, hdef]

/-! ## Instructions -/

/-- **Where constructions have moved to**, for an instruction that has an image. -/
lemma Sound.moves (hp : p.Sound) (hfounded : p.Founded) (hlen : 0 < (p.segmentAt i).length) :
    Frame.Moves p.standsAt p.heldAt p.subject.types.sites p.imageSites instr i (p.imageAt i) where
  unpinned n hn := hfounded.not_pinned_of_isHeld (tracked_standsAt.mp hn)
  inj := hp.standsAt_inj
  begins _ := by
    by_cases hheld : p.isHeld i = true
    · exact Or.inl (standsAt_eq_some.mpr ⟨hheld, rfl⟩)
    · refine Or.inr ⟨by simp [standsAt, hheld], fun ⟨n, hn⟩ => ?_⟩
      obtain ⟨hheld', hq⟩ := standsAt_eq_some.mp hn
      obtain ⟨hplace, hlen'⟩ := hp.imageAt_held hheld'
      have hi : p.imageAt i = p.place i + ((p.segmentAt i).length - 1) := by
        unfold imageAt
        rw [place_succ]
        omega
      obtain ⟨rfl, -⟩ := place_inj (p := p) (i := n) (j := i) (k := 0) (l := (p.segmentAt i).length - 1)
        (by omega) (by omega) (by omega)
      exact hheld hheld'
  copies _ n q hn hc := by
    obtain ⟨hheld, rfl⟩ := standsAt_eq_some.mp hn
    exact copiedAt_held hheld hc

section Frames

variable {src : ClassSource} {V : ClassView} {U : ClassOrder src V} {O : SlotOrder} {g : Frame} {t : SlotType}

/-- The constructions of the method that are not pinned. -/
abbrev unpinned (p : Plan) (n : Nat) : Prop := ¬ Site.Pinned p.subject.types.sites n

/-- **A slot that is compared loosely** may be used freely. -/
lemma loose_iff_free (hO : O.held = p.unpinned) : t.Loose O.held ↔ Site.Free p.subject.types.sites t := by
  rw [hO]
  cases t with
  | pending n cls copied => exact not_not
  | _ => exact Iff.rfl

lemma Founded.unpinned_of_isOmitted (hp : p.Founded) : ∀ n, p.isOmitted n = true → p.unpinned n :=
  fun _ => hp.not_pinned

lemma Founded.unpinned_of_tracked (hp : p.Founded) : ∀ n, SlotType.Tracked p.standsAt n → p.unpinned n :=
  fun _ hn => hp.not_pinned_of_isHeld (tracked_standsAt.mp hn)

/-- Locals that may be used freely are above such locals. -/
lemma free_locals (h : f.Below O g) (hO : O.held = p.unpinned)
    (hg : ∀ t ∈ g.locals.toList, Site.Free p.subject.types.sites t) :
    ∀ t ∈ f.locals.toList, Site.Free p.subject.types.sites t := by
  have hlocals := h.locals
  generalize f.locals.toList = ts at hlocals
  generalize g.locals.toList = us at hlocals hg
  induction hlocals with
  | nil => simp
  | @cons t u ts us htu _ ih =>
      refine List.forall_mem_cons.mpr ⟨?_, ih fun t ht => hg t (List.mem_cons_of_mem u ht)⟩
      have hu := hg u List.mem_cons_self
      cases htu with
      | below h => exact (loose_iff_free hO).mp (h.loose_iff.mpr ((loose_iff_free hO).mpr hu))
      | lower => trivial
      | upper _ ht => exact (loose_iff_free hO).mp ht

/-- The locals behind those of the method belong to no construction. -/
lemma settle_extraLocals (p : Plan) : ∀ t ∈ p.extraLocals.toList, Analysis.settle t = t := by
  intro t ht
  simp only [extraLocals, Array.toList_append, Array.toList_replicate, List.mem_append, List.mem_replicate]
    at ht
  rcases ht with ht | ⟨-, rfl⟩
  · obtain rfl := List.mem_singleton.mp ht
    rfl
  · rfl

/-- **An instruction that stays** does to the image of a frame what it does to the frame. -/
lemma Sound.image_plain (hsound : p.Sound) (hp : p.Founded)
    (htr : Frame.Transition p.subject.types.sites i instr f after)
    (hs : Frame.Spares p.isOmitted p.subject.types.sites i instr f)
    (hlocals : ∀ t ∈ f.locals.toList, Site.Free p.subject.types.sites t) (hlen : 0 < (p.segmentAt i).length)
    (hbuilds : U.Builds f) :
    ∃ g', Frame.Transition p.imageSites (p.imageAt i) instr (p.frameImage f) g'
      ∧ g'.Below (.level U p.heldAt) (p.frameImage after) :=
  htr.image hs hlocals (hsound.moves hp hlen) p.settle_extraLocals hbuilds

/-- **What an instruction that is dropped does**: it puts a reference of a construction that is left out. -/
lemma Founded.puts_dropped (hp : p.Founded) (hg : p.subject.types.frames[i]? = some (some g))
    (hcode : p.code[i]? = some instr) (hd : p.isDropped i = true)
    (htr : Frame.Transition p.subject.types.sites i instr f after) (hfg : f.Below O g)
    (hO : O.held = p.unpinned) :
    (instr.opcode = .new ∨ instr.opcode = .dup) ∧
      ∃ n cls copied, p.isOmitted n = true ∧ after = ⟨f.locals, .pending n cls copied :: f.stack⟩ := by
  obtain ⟨site, hsite, hi⟩ := List.any_eq_true.mp hd
  simp only [Bool.and_eq_true, Bool.or_eq_true, beq_iff_eq] at hi
  obtain ⟨homitted, rfl | hdup⟩ := hi
  · have hnew := hp.certified.sites.new_at site hsite
    change p.code[site.newAt]? = _ at hnew
    rw [hcode] at hnew
    cases hnew
    refine ⟨Or.inl rfl, ?_⟩
    cases htr with
    | begin => exact ⟨_, _, _, homitted, rfl⟩
    | plain _ shape => exact absurd rfl shape.opcode_ne.2
    | store hop | copy hop | construct hop => cases hop
  · obtain ⟨instr', hinstr', hop⟩ := hp.certified.sites.dup_at site hsite i hdup
    change p.code[i]? = _ at hinstr'
    rw [hcode] at hinstr'
    cases hinstr'
    refine ⟨Or.inr hop, ?_⟩
    have hpinned := hp.not_pinned homitted
    -- the `dup` finds the reference of `new` on top
    obtain ⟨g', hg', hkept⟩ := hp.certified.copies site hsite i hdup
    rw [hg] at hg'
    cases hg'
    obtain ⟨cls, rest, hs⟩ := hkept.resolve_left hpinned
    have hstack := hfg.stack
    rw [hs] at hstack
    generalize hts : f.stack = ts at hstack
    cases hstack with
    | @cons t _ ts _ ht _ =>
        obtain rfl : t = .pending site.newAt cls false := by
          cases ht with
          | same => rfl
          | ref _ _ _ _ hloose => exact absurd ((loose_iff_free hO).mp hloose) hpinned
        cases htr with
        | copy _ hs' =>
            rw [hts] at hs'
            cases hs'
            exact ⟨_, _, _, homitted, by rw [hts]⟩
        | plain hs' shape free =>
            obtain ⟨t, rfl, -⟩ := shape.of_dup hop
            rw [hts] at hs'
            cases hs'
            exact absurd (free _ List.mem_cons_self) hpinned
        | store hop' | begin hop' | construct hop' =>
            rw [hop] at hop'
            cases hop'

/-- **An instruction that is dropped** leaves the image of the frame as it is. -/
lemma frameImage_dropped {cls : Text} {copied : Bool} (hn : p.isOmitted n = true) :
    p.frameImage ⟨f.locals, .pending n cls copied :: f.stack⟩ = p.frameImage f := by
  simp [frameImage, Frame.image, Frame.thin, Frame.present, Frame.absent?_pending hn]

/-! ### Constructions that are redone -/

/-- The places of constructions, with one that is redone. -/
def standsWith (p : Plan) (n q k : Nat) : Option Nat := if k = n then some q else p.standsAt k

lemma moved_standsWith {q : Nat} (h : ∀ cls copied, t ≠ .pending n cls copied) :
    t.moved (p.standsWith n q) = t.moved p.standsAt := by
  cases t with
  | pending k cls copied =>
      have hne : k ≠ n := by
        rintro rfl
        exact h cls copied rfl
      simp [SlotType.moved, standsWith, hne]
  | _ => rfl

variable {e : Deferral} {rest : List SlotType}

/-- **The stack in front of a constructor call whose construction is redone**, of a frame below the one that is
known. -/
lemma Redone.splits {after' : Frame} (h : p.Redone i instr e g after' rest) (hp : p.Founded)
    (hfg : f.Below O g) (hO : O.held = p.unpinned) :
    ∃ args rest', f.stack = args ++ .pending e.site.newAt e.site.cls true
        :: .pending e.site.newAt e.site.cls false :: rest'
      ∧ List.Forall₂ (SlotType.Below O) args e.args ∧ (∀ t ∈ args, Site.Free p.subject.types.sites t)
      ∧ ∀ t ∈ rest', ¬ t.IsOf e.site := by
  have hunpinned : p.unpinned e.site.newAt := hp.not_pinned h.omitted
  have hheld : ∀ {t : SlotType} {copied : Bool},
      SlotType.Below O t (.pending e.site.newAt e.site.cls copied)
        → t = .pending e.site.newAt e.site.cls copied := by
    intro t copied ht
    cases ht with
    | same => rfl
    | ref _ _ _ _ hloose => exact absurd ((loose_iff_free hO).mp hloose) hunpinned
  have hstack := hfg.stack.flip
  rw [h.stack] at hstack
  obtain ⟨args, us, hs, hargs, hus⟩ := Frame.forall₂_append_right hstack
  cases hus with
  | cons hcopy hus =>
      cases hus with
      | @cons _ _ _ rest' hnew hrest =>
          refine ⟨args, rest', ?_, hargs.flip, fun t ht => ?_, ?_⟩
          · rw [hs, hheld hcopy, hheld hnew]
          · obtain ⟨k, hk, rfl⟩ := List.mem_iff_getElem.mp ht
            have hbelow := (List.forall₂_iff_get.mp hargs.flip).2 k hk (hargs.length_eq ▸ hk)
            simp only [List.get_eq_getElem] at hbelow
            exact (loose_iff_free hO).mp
              (hbelow.loose_iff.mpr ((loose_iff_free hO).mpr (h.free _ (List.getElem_mem _))))
          · rintro t ht ⟨cls, copied, rfl⟩
            obtain ⟨k, hk, heq⟩ := List.mem_iff_getElem.mp ht
            have hbelow := (List.forall₂_iff_get.mp hrest.flip).2 k hk (hrest.length_eq ▸ hk)
            simp only [List.get_eq_getElem] at hbelow
            rw [heq] at hbelow
            have hsame := hbelow.eq_of_not_loose fun hloose => hunpinned ((loose_iff_free hO).mp hloose)
            exact h.apart _ (List.getElem_mem _) ⟨cls, copied, hsame⟩

/-- What is free is no reference of a construction that is left out. -/
lemma Founded.not_isOf_of_free (hp : p.Founded) {s : Site} (hn : p.isOmitted s.newAt = true)
    (h : Site.Free p.subject.types.sites t) : ¬ t.IsOf s := by
  rintro ⟨cls, copied, rfl⟩
  exact hp.not_pinned hn h

lemma map_moved_standsWith {s : Site} {q : Nat} {ts : List SlotType} (h : ∀ t ∈ ts, ¬ t.IsOf s) :
    ts.map (·.moved (p.standsWith s.newAt q)) = ts.map (·.moved p.standsAt) :=
  List.map_congr_left fun t ht => moved_standsWith fun cls copied heq => h t ht ⟨cls, copied, heq⟩

lemma moved_locals_standsWith {s : Site} {q : Nat} {L : Array SlotType} (h : ∀ t ∈ L.toList, ¬ t.IsOf s) :
    L.map (·.moved (p.standsWith s.newAt q)) = L.map (·.moved p.standsAt) :=
  Array.map_congr_left fun t ht =>
    moved_standsWith fun cls copied heq => h t (Array.mem_toList_iff.mpr ht) ⟨cls, copied, heq⟩

/-- Where a construction is not, it makes no difference that it is there. -/
lemma present_standsWith {s : Site} {q : Nat} {ts : List SlotType} (h : ∀ t ∈ ts, ¬ t.IsOf s) :
    (Frame.present (p.without s.newAt) ts).map (·.moved (p.standsWith s.newAt q))
      = (Frame.present p.isOmitted ts).map (·.moved p.standsAt) := by
  rw [Frame.present_congr (gaps_without h)]
  exact map_moved_standsWith fun t ht => h t (List.mem_of_mem_filter ht)

/-- **A construction that is completed** is pending nowhere. -/
lemma Founded.apart_after (hp : p.Founded) (htr : Frame.Transition p.subject.types.sites i instr f after)
    (hdef : p.deferral? i instr = .ok (some e)) {args : List SlotType}
    (hs : f.stack = args ++ .pending e.site.newAt e.site.cls true :: .pending e.site.newAt e.site.cls false
      :: rest)
    (hlen : args.length = e.args.length) :
    (∀ t ∈ after.stack, ¬ t.IsOf e.site) ∧ ∀ t ∈ after.locals.toList, ¬ t.IsOf e.site := by
  obtain ⟨m, _, _, _, _, _, hr⟩ := deferral?_eq_some hdef
  have hdrop : f.stack.drop (Descriptor.argCount m.desc).toNat
      = .pending e.site.newAt e.site.cls true :: .pending e.site.newAt e.site.cls false :: rest := by
    rw [hs, ← hr.args, ← hlen, List.drop_left]
  obtain ⟨dm, _, _, -, -, -, -, -, -, rfl⟩ := hp.constructs htr hr.constructor hdrop hr.omitted
  constructor
  · intro t ht
    rcases List.mem_append.mp ht with ht | ht
    · rintro ⟨cls, copied, rfl⟩
      split at ht
      · cases ht
      · unfold SlotType.ofDesc at ht
        split at ht <;> simp at ht
    · obtain ⟨u, -, rfl⟩ := List.mem_map.mp ht
      exact not_isOf_completed e.site u
  · intro t ht
    simp only [Array.toList_map, List.mem_map] at ht
    obtain ⟨u, -, rfl⟩ := ht
    exact not_isOf_completed e.site u

/-- The constructions of an instruction whose construction is redone have moved apart. -/
lemma Sound.moves_redone (hsound : p.Sound) (hp : p.Founded) (hcode : p.code[i]? = some instr)
    (hdef : p.deferral? i instr = .ok (some e)) :
    Frame.Moves (p.standsWith e.site.newAt (p.place i + e.args.length)) p.heldAt p.subject.types.sites
      p.imageSites
      instr i (p.imageAt i) := by
  obtain ⟨m, f, cls, cls', dupAt, rest, hr⟩ := deferral?_eq_some hdef
  obtain ⟨hop, -, -⟩ := constructor?_eq_some hr.constructor
  have hnew : ∀ k q, p.standsAt k = some q → q ≠ p.place i + e.args.length := by
    rintro k q hk rfl
    exact hsound.not_target_redone hcode hdef ⟨k, hk⟩
  refine ⟨fun k hk => ?_, fun k k' q hk hk' => ?_, fun h => ?_, fun h => ?_⟩
  · unfold SlotType.Tracked standsWith at hk
    split at hk
    · next heq => exact heq ▸ hp.not_pinned hr.omitted
    · exact hp.unpinned_of_tracked k hk
  · unfold standsWith at hk hk'
    split at hk
    · next heq =>
        split at hk'
        · next heq' => exact heq.trans heq'.symm
        · exact absurd (Option.some.inj hk).symm (hnew _ _ hk')
    · split at hk'
      · exact absurd (Option.some.inj hk').symm (hnew _ _ hk)
      · exact hsound.standsAt_inj _ _ _ hk hk'
  · rw [hop] at h
    cases h
  · rw [hop] at h
    cases h

/-- **A constructor call whose construction is redone** does to the image of a frame, with the references of
the new construction under the arguments, what it does to the frame. -/
lemma Sound.image_redone (hsound : p.Sound) (hp : p.Founded)
    (htr : Frame.Transition p.subject.types.sites i instr f after) {after' : Frame}
    (h : p.Redone i instr e g after' rest) (hcode : p.code[i]? = some instr)
    (hdef : p.deferral? i instr = .ok (some e)) (hfg : f.Below O g) (hO : O.held = p.unpinned)
    (hlocals : ∀ t ∈ f.locals.toList, Site.Free p.subject.types.sites t) (hbuilds : U.Builds f)
    {more : Array SlotType} (hmore : ∀ t ∈ more.toList, Analysis.settle t = t) {args rest' : List SlotType}
    (hs : f.stack = args ++ .pending e.site.newAt e.site.cls true :: .pending e.site.newAt e.site.cls false
      :: rest')
    (hlen : args.length = e.args.length) (hfree : ∀ t ∈ args, Site.Free p.subject.types.sites t)
    (happart : ∀ t ∈ rest', ¬ t.IsOf e.site) :
    ∃ g', Frame.Transition p.imageSites (p.imageAt i) instr
        ⟨f.locals.map (·.moved p.standsAt) ++ more, args.map (·.moved p.standsAt)
          ++ .pending (p.place i + e.args.length) e.site.cls true
            :: .pending (p.place i + e.args.length) e.site.cls false
            :: (Frame.present p.isOmitted rest').map (·.moved p.standsAt)⟩ g'
      ∧ g'.Below (.level U p.heldAt) ((after.thin p.isOmitted).moved p.standsAt more) := by
  have hout : ∀ n, p.without e.site.newAt n = true → O.held n := by
    intro n hn
    rw [hO]
    simp only [without, Bool.and_eq_true] at hn
    exact hp.not_pinned hn.1
  obtain ⟨hgone, hgone'⟩ := hp.apart_after htr hdef hs hlen
  obtain ⟨g', hstep, hbelow⟩ := (htr.thin (h.spares.of_below hfg hout) hlocals).moved (U := U)
    (hsound.moves_redone hp hcode hdef) hmore fun t ht => hbuilds t (List.mem_of_mem_filter ht)
  have hbefore : (f.thin (p.without e.site.newAt)).moved (p.standsWith e.site.newAt
    (p.place i + e.args.length)) more
      = ⟨f.locals.map (·.moved p.standsAt) ++ more, args.map (·.moved p.standsAt)
          ++ .pending (p.place i + e.args.length) e.site.cls true
            :: .pending (p.place i + e.args.length) e.site.cls false
            :: (Frame.present p.isOmitted rest').map (·.moved p.standsAt)⟩ := by
    have hself : ∀ copied, (SlotType.pending e.site.newAt e.site.cls copied).moved
        (p.standsWith e.site.newAt (p.place i + e.args.length))
          = .pending (p.place i + e.args.length) e.site.cls copied := by simp [SlotType.moved, standsWith]
    have hnone : ∀ copied, (SlotType.pending e.site.newAt e.site.cls copied).absent? (p.without e.site.newAt)
        = none := fun copied => Frame.absent?_pending_none (without_self p _)
    have hpresent : Frame.present (p.without e.site.newAt) f.stack
        = args ++ .pending e.site.newAt e.site.cls true :: .pending e.site.newAt e.site.cls false
          :: Frame.present (p.without e.site.newAt) rest' := by
      rw [hs, Frame.present_append, Frame.present_eq_self fun t ht => h.spares.free t (hfree t ht)]
      simp [Frame.present, hnone]
    unfold Frame.thin Frame.moved
    simp only [hpresent, List.map_append, List.map_cons, hself]
    rw [moved_locals_standsWith fun t ht => hp.not_isOf_of_free h.omitted (hlocals t ht),
      map_moved_standsWith fun t ht => hp.not_isOf_of_free h.omitted (hfree t ht), present_standsWith happart]
  have hbehind : (after.thin (p.without e.site.newAt)).moved (p.standsWith e.site.newAt
    (p.place i + e.args.length)) more
      = (after.thin p.isOmitted).moved p.standsAt more := by
    unfold Frame.thin Frame.moved
    rw [moved_locals_standsWith hgone']
    exact congrArg _ (present_standsWith hgone)
  exact ⟨g', hbefore ▸ hstep, hbehind ▸ hbelow⟩

end Frames

end Plan

end Suspension
