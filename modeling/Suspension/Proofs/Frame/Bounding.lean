import Suspension.Proofs.Frame.Progress

/-!
# Bounds on an analysis

Let there be a frame for some positions of a method such that executing an instruction on the frame of its
position leaves a frame **below those of its successors**, and let the frame at the entry be below the first of
them.  Then the analysis succeeds, and every frame that it finds is below the one that was given: it finds the
least such frames.

* `Analysis.Loads` — what an analysis loads elements from.
* `Analysis.Bounds` — frames for positions that instructions respect.
* `Analysis.Bounded`, `Analysis.step_bounded` — frames stay below, one instruction at a time.
* `Analysis.run_bounded` — the whole analysis.
-/

namespace Suspension

open Relation (ReflTransGen)

variable {src : ClassSource} {V : ClassView}

namespace Analysis

open Transfer

/-! ## Visited states -/

/-- **A position is followed.** -/
def Follows (ctx : AnalysisContext) (spans : List HandlerSpan) (a a' : Analysis) : Prop :=
  ∃ i rest, a.pending = i :: rest ∧ Gives (step ctx spans i) { a with pending := rest } () a'

/-- **A state that the analysis of a method comes through.** -/
def Visits (ctx : AnalysisContext) (h : Hierarchy) (spans : List HandlerSpan) (a : Analysis) : Prop :=
  ∃ entry a₁, entryFrame ctx.owner ctx.method = .ok entry
    ∧ Gives (mergeInto ctx 0 0 entry) (start ctx h) () a₁ ∧ ReflTransGen (Follows ctx spans) a₁ a

/-- **What an analysis loads an element from**, in some state that it comes through. -/
def Loads (ctx : AnalysisContext) (h : Hierarchy) (array : SlotType) : Prop :=
  ∃ spans a i rest f instr index below, Analysis.spans ctx.method.code ctx.method.ranges 0 = .ok spans
    ∧ Visits ctx h spans a ∧ a.pending = i :: rest ∧ a.frames[i]? = some (some f)
    ∧ ctx.method.code[i]? = some instr ∧ instr.opcode = .arrayLoad .ref ∧ f.stack = index :: array :: below

lemma Visits.next {ctx : AnalysisContext} {h : Hierarchy} {spans : List HandlerSpan} {a a' : Analysis}
    (ha : Visits ctx h spans a) (hf : Follows ctx spans a a') : Visits ctx h spans a' := by
  obtain ⟨entry, a₁, hentry, hmerge, hrest⟩ := ha
  exact ⟨entry, a₁, hentry, hmerge, hrest.tail hf⟩

/-! ## Frames that instructions respect -/

section Bounds

variable {U : ClassOrder src V} {held : Nat → Prop} {G : Nat → Frame → Prop}

/-- A frame is below the one that is given for a position. -/
def Lies (U : ClassOrder src V) (held : Nat → Prop) (G : Nat → Frame → Prop) (i : Nat) (f : Frame) : Prop :=
  ∃ g, G i g ∧ f.Below (.rising U held) g

lemma Lies.of_below {i : Nat} {f g : Frame} (h : Lies U held G i g) (hfg : f.Below (.rising U held) g) :
    Lies U held G i f := by
  obtain ⟨k, hk, hgk⟩ := h
  exact ⟨k, hk, hfg.trans hgk U.trans id id id id id id rfl rfl (·.2)⟩

/-- **What an instruction makes of the frame that is given for its position**, and where that lies. -/
structure Advances (U : ClassOrder src V) (held : Nat → Prop) (S : List Site) (code : Code)
    (spans : List HandlerSpan) (G : Nat → Frame → Prop) (i : Nat) (g : Frame) (instr : Instruction)
    (g' : Frame) :
    Prop where
  code_at : code[i]? = some instr
  named : instr.Named
  transition : Frame.Transition S i instr g g'
  targets : ∀ id ∈ instr.targets, ∃ t, code.labelAt? id = some t ∧ Lies U held G t g'
  next : instr.opcode.endsBlock = false → i + 1 < code.size ∧ Lies U held G (i + 1) g'
  handlers : ∀ s ∈ spans, s.start ≤ i → i < s.stop →
    Lies U held G s.handler ⟨g.locals, [.ref s.cls]⟩ ∧ Lies U held G s.handler ⟨g'.locals, [.ref s.cls]⟩

/-- **Frames for positions that instructions respect**, at most one for each. -/
structure Bounds (U : ClassOrder src V) (held : Nat → Prop) (S : List Site) (code : Code)
    (spans : List HandlerSpan) (G : Nat → Frame → Prop) : Prop where
  sites : Site.Held held S
  unique : ∀ i g g', G i g → G i g' → g = g'
  builds : ∀ i g, G i g → U.Builds g
  advances : ∀ i g, G i g → ∃ instr g', Advances U held S code spans G i g instr g'

end Bounds

variable {ctx : AnalysisContext} {U : ClassOrder ctx.source V} {held : Nat → Prop} {S : List Site}
  {spans : List HandlerSpan} {G : Nat → Frame → Prop} {position : Nat} {a a' : Analysis}

/-- **The frames found so far lie below**, and nothing else is noted of constructions that are held. -/
structure Bounded (U : ClassOrder ctx.source V) (held : Nat → Prop) (S : List Site) (G : Nat → Frame → Prop)
    (a : Analysis) : Prop where
  work : AtWork V ctx a
  noted : Site.Noted held S a.sites
  frames : ∀ (i : Nat) (f : Frame), a.frames[i]? = some (some f) → Lies U held G i f

/-! ## Following an instruction -/

lemma frameAt_of_eq {r : Option Frame} (h : (a.frames[position]?).join = r) :
    Gives (frameAt position) a r a := by
  subst h
  rfl

/-- **Merging a frame that lies below succeeds**, and leaves such frames. -/
lemma mergeInto_bounded (position : Nat) (hone : ∀ i g g', G i g → G i g' → g = g') (ha : Bounded U held S G a)
    {target : Nat} {f : Frame} (hlt : target < ctx.method.code.size) (hk : f.Known a.sites)
    (hw : f.locals.size = ctx.method.maxLocals.toNat) (hf : Lies U held G target f) :
    ∃ u a', Gives (mergeInto ctx position target f) a u a' ∧ Bounded U held S G a'
      ∧ Site.Grow a.sites a'.sites := by
  obtain ⟨g, hg, hfg⟩ := hf
  have hbelow : ∀ old, a.frames[target]? = some (some old) → old.Below (.rising U held) g := by
    intro old hold
    obtain ⟨g', hg', hle⟩ := ha.frames target old hold
    exact hone _ _ _ hg hg' ▸ hle
  obtain ⟨u, a', hgives, hnoted, -⟩ := mergeInto_succeeds position (O := .rising U held) rfl id
    hfg hbelow ha.noted
  obtain ⟨hwork, hascends, -⟩ := mergeInto_ascends (U := U) ha.work hlt hk hw hgives
  refine ⟨u, a', hgives, ⟨hwork, hnoted, fun i f' hf' => ?_⟩, hascends.grow⟩
  have hwidth : ∀ old, a.frames[target]? = some (some old) → old.locals.size = f.locals.size :=
    fun old hold => (ha.work.valid.width _ _ hold).trans hw.symm
  rcases mergeInto_joins ha.work.shows hwidth hgives with ⟨-, hframes⟩ | ⟨new, hframes, -, hnew⟩
  · exact ha.frames i f' (hframes ▸ hf')
  rw [hframes, Array.set!_eq_setIfInBounds, Array.getElem?_setIfInBounds] at hf'
  split at hf'
  · next hi =>
      subst hi
      split at hf'
      · cases hf'
        refine ⟨g, hg, ?_⟩
        rcases hnew with ⟨-, rfl⟩ | ⟨old, hold, hjoins⟩
        · exact hfg
        · exact hjoins.least U rfl (hbelow old hold) hfg
      · cases hf'
  · exact ha.frames i f' hf'

lemma handlers_bounded (position : Nat) (hone : ∀ i g g', G i g → G i g' → g = g') (ha : Bounded U held S G a)
    {rest : List HandlerSpan} (hspans : ∀ s ∈ rest, s.handler < ctx.method.code.size) {after g : Frame}
    (hG : G position g)
    (hk : after.Known a.sites) (hw : after.locals.size = ctx.method.maxLocals.toNat)
    (hbefore : ∀ s ∈ rest, s.start ≤ position → position < s.stop →
      Lies U held G s.handler ⟨g.locals, [.ref s.cls]⟩)
    (hafter : ∀ s ∈ rest, s.start ≤ position → position < s.stop →
      Lies U held G s.handler ⟨after.locals, [.ref s.cls]⟩) :
    ∃ u a', Gives (reachHandlers ctx position after rest) a u a' ∧ Bounded U held S G a'
      ∧ Site.Grow a.sites a'.sites := by
  induction rest generalizing a with
  | nil => exact ⟨(), a, gives_pure.mpr ⟨rfl, rfl⟩, ha, .refl _⟩
  | cons s rest ih =>
      have hspans' := fun t ht => hspans t (List.mem_cons_of_mem s ht)
      have hbefore' := fun t ht => hbefore t (List.mem_cons_of_mem s ht)
      have hafter' := fun t ht => hafter t (List.mem_cons_of_mem s ht)
      unfold reachHandlers
      by_cases hcover : s.start ≤ position ∧ position < s.stop
      · simp only [hcover, decide_true, Bool.and_self, if_true]
        cases hat : (a.frames[position]?).join with
        | none =>
            exact ⟨(), a, gives_bind.mpr ⟨none, a, frameAt_of_eq hat, gives_pure.mpr ⟨rfl, rfl⟩⟩, ha, .refl _⟩
        | some before =>
            have hat' := Option.join_eq_some_iff.mp hat
            obtain ⟨g', hg', hle⟩ := ha.frames _ _ hat'
            obtain rfl : g = g' := hone _ _ _ hG hg'
            have hlt := hspans s (by simp)
            have hwbefore := ha.work.valid.width _ _ hat'
            obtain ⟨u₁, a₁, hm₁, ha₁, hg₁⟩ := mergeInto_bounded position hone ha hlt
              (known_handler (ha.work.valid.known _ _ hat') s.cls) hwbefore
              ((hbefore s (by simp) hcover.1 hcover.2).of_below ⟨.cons (.same _) .nil, hle.locals⟩)
            obtain ⟨u₂, a₂, hm₂, ha₂, hg₂⟩ := mergeInto_bounded position hone ha₁ hlt
              (known_handler (hk.grow hg₁) s.cls) hw (hafter s (by simp) hcover.1 hcover.2)
            obtain ⟨u₃, a₃, hm₃, ha₃, hg₃⟩ := ih ha₂ hspans' (hk.grow (hg₁.trans hg₂)) hbefore' hafter'
            refine ⟨u₃, a₃, gives_bind.mpr ⟨some before, a, frameAt_of_eq hat, ?_⟩, ha₃,
              (hg₁.trans hg₂).trans hg₃⟩
            exact gives_bind.mpr ⟨u₁, a₁, hm₁, gives_bind.mpr ⟨u₂, a₂, hm₂, hm₃⟩⟩
      · rw [if_neg (by simpa using hcover)]
        exact ih ha hspans' hk hbefore' hafter'

lemma targets_bounded (position : Nat) (hone : ∀ i g g', G i g → G i g' → g = g') (ha : Bounded U held S G a)
    {ids : List Label} {after : Frame} (hk : after.Known a.sites)
    (hw : after.locals.size = ctx.method.maxLocals.toNat)
    (hafter : ∀ id ∈ ids, ∃ t, ctx.method.code.labelAt? id = some t ∧ Lies U held G t after) :
    ∃ u a', Gives (reachTargets ctx position after ids) a u a' ∧ Bounded U held S G a'
      ∧ Site.Grow a.sites a'.sites := by
  induction ids generalizing a with
  | nil => exact ⟨(), a, gives_pure.mpr ⟨rfl, rfl⟩, ha, .refl _⟩
  | cons id ids ih =>
      obtain ⟨t, ht, hlies⟩ := hafter id List.mem_cons_self
      obtain ⟨u₁, a₁, hm₁, ha₁, hg₁⟩ := mergeInto_bounded position hone ha (Code.labelAt?_lt ht)
        hk hw hlies
      obtain ⟨u₂, a₂, hm₂, ha₂, hg₂⟩ := ih ha₁ (hk.grow hg₁) fun id' hid' =>
        hafter id' (List.mem_cons_of_mem _ hid')
      refine ⟨u₂, a₂, ?_, ha₂, hg₁.trans hg₂⟩
      unfold reachTargets
      rw [ht]
      exact gives_bind.mpr ⟨u₁, a₁, hm₁, hm₂⟩

/-- Constructions of a method are of classes that may be constructed, if all its `new` are. -/
lemma AtWork.builds (ha : AtWork V ctx a)
    (hnew : ∀ (i : Nat) (cls : Text), ctx.method.code[i]? = some ⟨.new, .type cls⟩ → U.builds cls) {i : Nat}
    {f : Frame} (hf : a.frames[i]? = some (some f)) : U.Builds f := by
  rintro t ht n cls copied rfl
  obtain ⟨s, hs, -, rfl⟩ := (ha.valid.known i f hf).1 _ ht
  exact hnew s.newAt s.cls (ha.valid.sound.sites.new_at s hs)

/-- **Following an instruction succeeds**, and leaves frames that lie below. -/
lemma step_bounded (hG : Bounds U held S ctx.method.code spans G)
    (hspans : ∀ s ∈ spans, s.handler < ctx.method.code.size)
    (hnew : ∀ (i : Nat) (cls : Text), ctx.method.code[i]? = some ⟨.new, .type cls⟩ → U.builds cls)
    (ha : Bounded U held S G a)
    (hloads : ∀ f instr, a.frames[position]? = some (some f) → ctx.method.code[position]? = some instr →
      U.LoadsFrom instr f) :
    ∃ a', Gives (step ctx spans position) a () a' ∧ Bounded U held S G a' := by
  unfold step
  cases hat : (a.frames[position]?).join with
  | none =>
      refine ⟨a, gives_bind.mpr ⟨none, a, frameAt_of_eq hat, ?_⟩, ha⟩
      split
      · next hsome => cases hsome
      · exact gives_pure.mpr ⟨rfl, rfl⟩
  | some f =>
      have hat' := Option.join_eq_some_iff.mp hat
      obtain ⟨g, hg, hfg⟩ := ha.frames _ _ hat'
      obtain ⟨instr, g', hadv⟩ := hG.advances _ _ hg
      obtain ⟨after, a₁, hexec, hnoted, -⟩ := hadv.transition.succeeds ctx (O := .rising U held) rfl id
        hG.sites hfg hadv.named ha.noted
      have hx := Frame.execute_transition (C := Classes.empty) hadv.code_at hexec
      have hkf := ha.work.valid.known _ _ hat'
      have htr := hx.transition ha.work.valid.sound hkf
      have hunpinned : ∀ n, held n → ¬ Site.Pinned a₁.sites n := by
        rintro n hn ⟨s, hs, rfl, hp⟩
        rw [(hnoted s hs hn).1] at hp
        cases hp
      have hbelow : after.Below (.rising U held) g' :=
        htr.below rfl hadv.transition hfg hunpinned hG.sites.unpinned (hloads f instr hat' hadv.code_at)
          (ha.work.builds hnew hat') (hG.builds _ _ hg)
      have hw₁ : AtWork V ctx a₁ := ⟨hx.learns.valid ha.work.valid,
        (Frame.respects_execute (Hierarchy.lasting_shows ctx.source V) _ _ _).gives hexec ha.work.shows⟩
      have ha₁ : Bounded U held S G a₁ :=
        ⟨hw₁, hnoted, fun i f' hf' => ha.frames i f' (by rw [← hx.learns.frames]; exact hf')⟩
      have hka := hx.known ha.work.valid.sound hkf
      have hwa : after.locals.size = ctx.method.maxLocals.toNat := by
        rw [htr.size_locals]
        exact ha.work.valid.width _ _ hat'
      obtain ⟨u₂, a₂, hm₂, ha₂, hg₂⟩ := handlers_bounded position hG.unique ha₁ hspans hg hka hwa
        (fun s hs hstart hstop => (hadv.handlers s hs hstart hstop).1)
        (fun s hs hstart hstop =>
          (hadv.handlers s hs hstart hstop).2.of_below ⟨.cons (.same _) .nil, hbelow.locals⟩)
      obtain ⟨u₃, a₃, hm₃, ha₃, hg₃⟩ := targets_bounded position hG.unique ha₂ (hka.grow hg₂) hwa
        fun id hid => (hadv.targets id hid).imp fun t ht => ⟨ht.1, ht.2.of_below hbelow⟩
      have hlast : ∃ a₄, Gives (if instr.opcode.endsBlock then return ()
          else if ctx.method.code.size ≤ position + 1 then throw .fallsOff
          else mergeInto ctx position (position + 1) after : Transfer Unit) a₃ () a₄
            ∧ Bounded U held S G a₄ := by
        split
        · exact ⟨a₃, gives_pure.mpr ⟨rfl, rfl⟩, ha₃⟩
        next hends =>
        obtain ⟨hlt, hlies⟩ := hadv.next (by simpa using hends)
        rw [if_neg (by omega)]
        obtain ⟨u₄, a₄, hm₄, ha₄, -⟩ := mergeInto_bounded position hG.unique ha₃ hlt
          ((hka.grow hg₂).grow hg₃) hwa (hlies.of_below hbelow)
        exact ⟨a₄, hm₄, ha₄⟩
      obtain ⟨a₄, hm₄, ha₄⟩ := hlast
      refine ⟨a₄, gives_bind.mpr ⟨some f, a, frameAt_of_eq hat, ?_⟩, ha₄⟩
      rw [hadv.code_at]
      exact gives_bind.mpr ⟨after, a₁, hexec, gives_bind.mpr ⟨u₂, a₂, hm₂, gives_bind.mpr ⟨u₃, a₃, hm₃, hm₄⟩⟩⟩

/-! ## The whole analysis -/

/-- **An analysis with bounds succeeds, and finds nothing above them.** -/
theorem run_bounded (hends : V.Ends) (hnull : ∀ cls, ¬V.Extends cls ClassName.null) {h : Hierarchy}
    (hh : h.Shows ctx.source V) {entry : Frame}
    (hss : Analysis.spans ctx.method.code ctx.method.ranges 0 = .ok spans)
    (hentry : entryFrame ctx.owner ctx.method = .ok entry) (hG : Bounds U held S ctx.method.code spans G)
    (hzero : Lies U held G 0 entry)
    (hnew : ∀ (i : Nat) (cls : Text), ctx.method.code[i]? = some ⟨.new, .type cls⟩ → U.builds cls)
    (hloads : ∀ array, Loads ctx h array → U.loads array.typeName) :
    ∃ T h', (run ctx).run h = (.ok T, h') ∧ Site.Noted held S T.sites ∧
      ∀ (i : Nat) (f : Frame), T.frames[i]? = some (some f) → Lies U held G i f := by
  have hnone := unreached_replicate ctx.method.code.size
  have hstart : Bounded U held S G (start ctx h) :=
    ⟨atWork_start hh, by simp [Site.Noted, start], fun i f hf => absurd hf (hnone i f)⟩
  obtain ⟨a₁, hmerge, ha₁⟩ : ∃ a₁, Gives (mergeInto ctx 0 0 entry) (start ctx h) () a₁
      ∧ Bounded U held S G a₁ := by
    by_cases hsize : 0 < ctx.method.code.size
    · obtain ⟨u, a₁, hm, ha₁, -⟩ := mergeInto_bounded 0 hG.unique hstart hsize
        (known_entryFrame hentry []) (size_entryFrame hentry) hzero
      exact ⟨a₁, hm, ha₁⟩
    · refine ⟨start ctx h, gives_bind.mpr ⟨start ctx h, start ctx h, gives_get.mpr ⟨rfl, rfl⟩, ?_⟩, hstart⟩
      rw [Array.getElem?_eq_none (by simpa using hsize)]
      exact gives_pure.mpr ⟨rfl, rfl⟩
  obtain ⟨r, hfollow⟩ : ∃ r, follow ctx spans a₁ = some r := follow_ends hends hnull ha₁.work.shows
  -- no position that is followed has a fault
  let motive (a : Analysis) (r : Ending) : Prop :=
    Bounded U held S G a → Visits ctx h spans a → r.1 = .ok () ∧ Bounded U held S G r.2
  have hstep : ∀ {a : Analysis} {i : Nat} {rest : List Nat}, a.pending = i :: rest → Bounded U held S G a →
      Visits ctx h spans a →
        ∃ a', Gives (step ctx spans i) { a with pending := rest } () a' ∧ Bounded U held S G a' := by
    intro a i rest hp ha hvisits
    refine step_bounded hG (handler_lt hss) hnew ⟨ha.work.withPending rest, ha.noted, ha.frames⟩
      fun f instr hf hinstr hop index array below hs => ?_
    exact hloads array ⟨spans, a, i, rest, f, instr, index, below, hss, hvisits, hp, hf, hinstr, hop, hs⟩
  obtain ⟨hok, hlast⟩ : r.1 = .ok () ∧ Bounded U held S G r.2 := by
    refine follow_induction (motive := motive) ?_ ?_ ?_ hfollow ha₁ ⟨entry, a₁, hentry, hmerge, .refl⟩
    · exact fun a _ ha _ => ⟨rfl, ha⟩
    · intro a i rest e a' hp herror ha hvisits
      obtain ⟨a'', hgives, -⟩ := hstep hp ha hvisits
      rw [hgives] at herror
      cases herror
    · intro a i rest a' r hp hgives ih ha hvisits
      obtain ⟨a'', hgives', ha''⟩ := hstep hp ha hvisits
      obtain rfl : a' = a'' := congrArg Prod.snd (hgives.symm.trans hgives')
      exact ih ha'' (hvisits.next ⟨i, rest, hp, hgives⟩)
  obtain ⟨r, a₂⟩ := r
  obtain rfl : r = .ok () := hok
  refine ⟨⟨a₂.frames, a₂.sites.mergeSort fun x y => x.newAt ≤ y.newAt⟩, a₂.hierarchy, ?_, fun s hs => ?_,
    hlast.frames⟩
  · have hmerged : (mergeInto ctx 0 0 entry).run
        { hierarchy := h, frames := Array.replicate ctx.method.code.size none } = (.ok (), a₁) := hmerge
    change run ctx h = _
    unfold run
    simp only [hss, hentry, hmerged, loop_eq_follow, hfollow]
  · exact hlast.noted s ((List.mergeSort_perm _ _).mem_iff.mp hs)

end Analysis

end Suspension
