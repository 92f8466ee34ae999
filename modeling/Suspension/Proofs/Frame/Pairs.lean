import Suspension.Proofs.Frame.Constructions

/-!
# The two references of a construction

**A construction that is not pinned has at most two references**, and where they lie is known: the one
that `new` put on the stack, and right on top of it the copy that `dup` made.  This holds of every method
that can be analysed; what else is on the stack plays no role.

While frames still change it is enough to say of each pending slot what lies below it: below a copy lies
what it was copied from, and below the reference of `new` lies as much as before the `new`.  From the
heights it follows that no reference is there twice.

* `FrameTypes.Rests`, `Frame.Paired` — what lies below pending slots, kept by the whole analysis.
* `Site.Pairs` — the references of one construction on a stack.
* `Frame.Shows`, `Analysis.run_shows` — what the final frames show of a construction.
-/

namespace Suspension

/-! ## What lies below a pending slot -/

namespace FrameTypes

/-- **A slot may rest on a stack.**  The reference that a `new` made lies on as much as there was before
it, and a copy lies on what it was copied from, unless the construction is pinned. -/
def Rests (T : FrameTypes) (rest : List SlotType) : SlotType → Prop
  | .pending n cls copied => Site.Pinned T.sites n ∨
      if copied then rest.head? = some (.pending n cls false)
      else ∃ f, T.frames[n]? = some (some f) ∧ rest.length = f.stack.length
  | _ => True

/-- All slots of a stack, top first, rest on those below them. -/
def AllRest (T : FrameTypes) : List SlotType → Prop
  | [] => True
  | t :: rest => T.Rests rest t ∧ AllRest T rest

variable {C : Classes} {T T' : FrameTypes} {t u : SlotType} {ts us rest rest' : List SlotType} {n : Nat}

lemma Rests.rises (h : T.Rests rest t) (hT : T.Rises C T') : T'.Rests rest t := by
  cases t with
  | pending n cls copied =>
      refine h.imp (fun hp => hp.grow hT.sites) fun h => ?_
      cases copied with
      | true => exact h
      | false =>
          obtain ⟨f, hf, hlength⟩ := h
          obtain ⟨g, hg, hle⟩ := hT.frames hf
          exact ⟨g, hg, hle.stack.length_eq ▸ hlength⟩
  | _ => trivial

/-- A slot that rises still rests on what has risen below it. -/
lemma Rests.le (h : T.Rests rest t) (ht : SlotType.Le C T.sites t u)
    (hrest : List.Forall₂ (SlotType.Le C T.sites) rest rest') : T.Rests rest' u := by
  rcases ht with rfl | ⟨-, c, d, -, rfl, -⟩
  · cases t with
    | pending n cls copied =>
        rcases h with hp | h
        · exact Or.inl hp
        cases copied with
        | false =>
            obtain ⟨f, hf, hlength⟩ := h
            exact Or.inr ⟨f, hf, hrest.length_eq ▸ hlength⟩
        | true =>
            obtain ⟨below, rfl⟩ := List.head?_eq_some_iff.mp h
            obtain ⟨x, below', hx, -, rfl⟩ := List.forall₂_cons_left_iff.mp hrest
            by_cases hp : Site.Pinned T.sites n
            · exact Or.inl hp
            · obtain rfl := hx.eq_of_not_free hp
              exact Or.inr rfl
    | _ => trivial
  · trivial

lemma rests_of_free (h : Site.Free T.sites t) : T.Rests rest t := by
  cases t with
  | pending n cls copied => exact Or.inl h
  | _ => trivial

/-- When a construction is completed the other ones stay where they are. -/
lemma Rests.completed (h : T.Rests rest t) (n : Nat) :
    T.Rests (rest.map (Frame.completed n)) (Frame.completed n t) := by
  cases t with
  | pending n' cls copied =>
      by_cases hn : n' = n
      · simp [Frame.completed, hn, Rests]
      · have hsame : ∀ b, Frame.completed n (.pending n' cls b) = .pending n' cls b := by
          simp [Frame.completed, hn]
        rw [hsame]
        refine h.imp_right fun h => ?_
        cases copied with
        | true =>
            obtain ⟨below, rfl⟩ := List.head?_eq_some_iff.mp h
            simp [hsame]
        | false => simpa using h
  | _ => trivial

lemma AllRest.rises (h : T.AllRest ts) (hT : T.Rises C T') : T'.AllRest ts := by
  induction ts with
  | nil => trivial
  | cons t ts ih => exact ⟨h.1.rises hT, ih h.2⟩

lemma AllRest.le (h : T.AllRest ts) (hle : List.Forall₂ (SlotType.Le C T.sites) ts us) :
    T.AllRest us := by
  induction hle with
  | nil => trivial
  | cons htu hrest ih => exact ⟨h.1.le htu hrest, ih h.2⟩

lemma AllRest.of_append (h : T.AllRest (ts ++ us)) : T.AllRest us := by
  induction ts with
  | nil => exact h
  | cons t ts ih => exact ih h.2

lemma AllRest.append (hts : ∀ t ∈ ts, Site.Free T.sites t) (hus : T.AllRest us) :
    T.AllRest (ts ++ us) := by
  induction ts with
  | nil => exact hus
  | cons t ts ih =>
      rw [List.forall_mem_cons] at hts
      exact ⟨rests_of_free hts.1, ih hts.2⟩

lemma AllRest.map_completed (h : T.AllRest ts) (n : Nat) :
    T.AllRest (ts.map (Frame.completed n)) := by
  induction ts with
  | nil => trivial
  | cons t ts ih => exact ⟨h.1.completed n, ih h.2⟩

end FrameTypes

/-! ## Frames of the analysis -/

namespace Frame

/-- **A frame with its references in pairs**: pending slots rest on what they must, and no local holds one
of a construction that is not pinned. -/
structure Paired (T : FrameTypes) (f : Frame) : Prop where
  stack : T.AllRest f.stack
  locals : ∀ t ∈ f.locals.toList, Site.Free T.sites t

variable {T : FrameTypes} {i : Nat} {instr : Instruction} {f g : Frame}

lemma free_completed {sites : List Site} {t : SlotType} (h : Site.Free sites t) (n : Nat) :
    Site.Free sites (completed n t) := by
  unfold completed
  split
  · split
    · trivial
    · exact h
  · exact h

/-- **An instruction keeps references in pairs.** -/
lemma Transition.paired (h : Transition T.sites i instr f g) (hf : T.frames[i]? = some (some f))
    (hp : f.Paired T) : g.Paired T := by
  have hstack := hp.stack
  cases h with
  | plain hs shape free =>
      rw [hs] at hstack
      exact ⟨.append (shape.free free hp.locals) hstack.of_append, hp.locals⟩
  | store _ _ hs _ _ free =>
      rw [hs] at hstack
      refine ⟨hstack.2, fun t ht => ?_⟩
      rw [Array.set!_eq_setIfInBounds, Array.toList_setIfInBounds] at ht
      rcases List.mem_or_eq_of_mem_set ht with ht | rfl
      · exact hp.locals t ht
      · exact free
  | begin => exact ⟨⟨Or.inr ⟨f, hf, rfl⟩, hstack⟩, hp.locals⟩
  | copy _ hs => exact ⟨⟨Or.inr (by rw [hs]; rfl), hstack⟩, hp.locals⟩
  | construct _ _ _ _ hs =>
      rw [hs] at hstack
      refine ⟨.append (fun t ht => ?_) (hstack.of_append.2.map_completed _), fun t ht => ?_⟩
      · split at ht
        · cases ht
        · obtain rfl := List.mem_singleton.mp ht
          exact free_ofDesc _ _
      · rw [Array.toList_map] at ht
        obtain ⟨u, hu, rfl⟩ := List.mem_map.mp ht
        exact free_completed (hp.locals u hu) _

end Frame

namespace Analysis

variable {C : Classes} {ctx : AnalysisContext}

/-- **The analysis keeps references in pairs.** -/
lemma keeps_paired {code : Code} {ss : List HandlerSpan} :
    Keeps C code ss fun T _ f => f.Paired T where
  types := fun hT hp => ⟨hp.stack.rises hT, fun t ht => (hp.locals t ht).grow hT.sites⟩
  frame := fun hle hp => ⟨hp.stack.le hle.stack, Frame.free_of_le hle.locals hp.locals⟩
  handler := fun _ hp _ _ _ => ⟨⟨trivial, trivial⟩, hp.locals⟩
  step := by
    intro T i f after instr hf hp _ htr
    have hafter := htr.paired hf hp
    exact ⟨fun _ _ _ _ => ⟨⟨trivial, trivial⟩, hafter.locals⟩, fun _ _ _ _ => hafter,
      fun _ _ => hafter⟩

lemma paired_entryFrame {owner : Text} {m : Method} {f : Frame} (h : entryFrame owner m = .ok f)
    (T : FrameTypes) : f.Paired T where
  stack := by
    obtain ⟨d, -, -, rfl⟩ := entryFrame_eq_ok h
    trivial
  locals := (orderly_entryFrame h T).locals

/-- **All frames of an analysis have their references in pairs.** -/
lemma run_paired {h h' : Hierarchy} {T : FrameTypes} (hrun : (run ctx).run h = (.ok T, h')) {i : Nat}
    {f : Frame} (hf : T.frames[i]? = some (some f)) : f.Paired T :=
  run_keeps (P := fun T _ f => f.Paired T) ctx.source.agrees_empty h.agrees_empty hrun
    (fun _ _ => keeps_paired)
    (fun T₀ _ hentry _ => paired_entryFrame hentry T₀) hf

end Analysis

/-! ## The references of one construction -/

/-- A slot is a pending reference of a construction. -/
def SlotType.IsOf (s : Site) (t : SlotType) : Prop := ∃ cls copied, t = .pending s.newAt cls copied

namespace Site

/-- **The references of a construction on a stack**, top first: there are none, or only the one of `new`,
or that one with its copy right on top of it. -/
inductive Pairs (s : Site) : List SlotType → Prop where
  | absent {ts : List SlotType} (h : ∀ t ∈ ts, ¬ t.IsOf s) : Pairs s ts
  | single {above below : List SlotType} (habove : ∀ t ∈ above, ¬ t.IsOf s)
      (hbelow : ∀ t ∈ below, ¬ t.IsOf s) : Pairs s (above ++ .pending s.newAt s.cls false :: below)
  | pair {above below : List SlotType} (habove : ∀ t ∈ above, ¬ t.IsOf s)
      (hbelow : ∀ t ∈ below, ¬ t.IsOf s) :
      Pairs s (above ++ .pending s.newAt s.cls true :: .pending s.newAt s.cls false :: below)

variable {s : Site} {t : SlotType} {ts : List SlotType} {T : FrameTypes}

/-- Another slot on top changes nothing. -/
lemma Pairs.cons (h : Pairs s ts) (ht : ¬ t.IsOf s) : Pairs s (t :: ts) := by
  cases h with
  | absent h => exact .absent (List.forall_mem_cons.mpr ⟨ht, h⟩)
  | single habove hbelow => exact .single (List.forall_mem_cons.mpr ⟨ht, habove⟩) hbelow
  | pair habove hbelow => exact .pair (List.forall_mem_cons.mpr ⟨ht, habove⟩) hbelow

/-- Not higher than the stack before a `new` there is no reference to its construction. -/
lemma absent_of_length_le (hs : ¬ Pinned T.sites s.newAt) {f : Frame}
    (hf : T.frames[s.newAt]? = some (some f)) (h : T.AllRest ts) (hle : ts.length ≤ f.stack.length) :
    ∀ t ∈ ts, ¬ t.IsOf s := by
  induction ts with
  | nil => simp
  | cons t rest ih =>
      rw [List.length_cons] at hle
      have hrest := ih h.2 (by omega)
      refine List.forall_mem_cons.mpr ⟨?_, hrest⟩
      rintro ⟨cls, copied, rfl⟩
      have hrests := h.1.resolve_left hs
      cases copied with
      | true =>
          obtain ⟨below, rfl⟩ := List.head?_eq_some_iff.mp hrests
          exact hrest _ List.mem_cons_self ⟨cls, false, rfl⟩
      | false =>
          obtain ⟨f', hf', hlength⟩ := hrests
          rw [hf] at hf'
          cases hf'
          omega

/-- **References in pairs are at most one pair.** -/
lemma pairs_of_allRest (hs : ¬ Pinned T.sites s.newAt) (h : T.AllRest ts)
    (hcls : ∀ cls copied, .pending s.newAt cls copied ∈ ts → cls = s.cls) : Pairs s ts := by
  induction ts with
  | nil => exact .absent (by simp)
  | cons t rest ih =>
      by_cases ht : t.IsOf s
      · obtain ⟨cls, copied, rfl⟩ := ht
        obtain rfl := hcls cls copied List.mem_cons_self
        have hrests := h.1.resolve_left hs
        cases copied with
        | false =>
            obtain ⟨f, hf, hlength⟩ := hrests
            exact @Pairs.single s [] rest (by simp) (absent_of_length_le hs hf h.2 hlength.le)
        | true =>
            obtain ⟨below, rfl⟩ := List.head?_eq_some_iff.mp hrests
            obtain ⟨f, hf, hlength⟩ := h.2.1.resolve_left hs
            exact @Pairs.pair s [] below (by simp) (absent_of_length_le hs hf h.2.2 hlength.le)
      · exact (ih h.2 fun cls copied hmem => hcls cls copied (List.mem_cons_of_mem t hmem)).cons ht

end Site

/-! ## What final frames show -/

/-- **What a frame shows of a construction** that is not pinned: no local holds a reference to it, the
stack holds none, one or a pair, and a constructor call that finds one as its receiver finds the copy, with
the reference of `new` right below it. -/
structure Frame.Shows (s : Site) (instr : Instruction) (f : Frame) : Prop where
  locals : ∀ t ∈ f.locals.toList, ¬ t.IsOf s
  stack : s.Pairs f.stack
  receiver : ∀ m d cls copied, instr = ⟨.invoke .special, .member m⟩ → m.name = Text.ofString "<init>" →
    Descriptor.parseMethod m.desc = .ok d →
    f.stack[d.params.length]? = some (.pending s.newAt cls copied) →
      copied = true ∧ f.stack[d.params.length + 1]? = some (.pending s.newAt cls false)

/-- A constructor call uses its receiver as one of a pair, unless that is pinned. -/
lemma Frame.Transition.receiver {sites : List Site} {i : Nat} {f g : Frame} {m : Member}
    {d : Descriptor.Method} {n : Nat} {cls : Text} {copied : Bool}
    (h : Transition sites i ⟨.invoke .special, .member m⟩ f g)
    (hd : Descriptor.parseMethod m.desc = .ok d) (hn : ¬ Site.Pinned sites n)
    (hr : f.stack[d.params.length]? = some (.pending n cls copied)) :
    copied = true ∧ f.stack[d.params.length + 1]? = some (.pending n cls false) := by
  cases h with
  | plain hs shape free =>
      -- an ordinary call may use its receiver freely
      obtain ⟨m', d', args, recv, ho, hd', rfl, hargs, hrecv, -⟩ := shape.of_invoke rfl
      cases ho
      rw [hd] at hd'
      cases hd'
      simp only [reduceCtorEq, if_false] at hrecv
      obtain ⟨t, rfl⟩ := List.length_eq_one_iff.mp hrecv
      rw [hs, List.append_assoc, List.getElem?_append_right (by omega), hargs, Nat.sub_self] at hr
      cases hr
      exact absurd (free (.pending n cls copied) (by simp)) hn
  | store hop => cases hop
  | begin hop => cases hop
  | copy hop => cases hop
  | @construct m' d' args rest n' cls' copied' hop ho hname hd' hs hargs free hpair =>
      cases ho
      rw [hd] at hd'
      cases hd'
      have hlength : args.length = d.params.length := by simpa using congrArg List.length hargs
      rw [hs, ← hlength, List.getElem?_append_right (Nat.le_refl _), Nat.sub_self] at hr
      cases hr
      obtain ⟨hcopied, hhead⟩ := hpair.resolve_left hn
      refine ⟨hcopied, ?_⟩
      rw [hs, ← hlength, List.getElem?_append_right (by omega), Nat.add_sub_cancel_left,
        List.getElem?_cons_succ, ← List.head?_eq_getElem?]
      exact hhead

/-- **Where the references of a construction lie.**  Every frame that an analysis finds shows of a
construction that is not pinned at most its two references, as a pair on the stack, and its constructor
call uses the pair. -/
theorem Analysis.run_shows {ctx : AnalysisContext} {h h' : Hierarchy} {T : FrameTypes}
    (hrun : (run ctx).run h = (.ok T, h')) :
    ∀ s ∈ T.sites, s.pinned = false → ∀ (i : Nat) (f : Frame), T.frames[i]? = some (some f) →
      ∃ instr, ctx.method.code[i]? = some instr ∧ f.Shows s instr := by
  intro s hs hpinned i f hf
  obtain ⟨hcert, -⟩ := run_certified ctx.source.agrees_empty h.agrees_empty hrun
  have hn : ¬ Site.Pinned T.sites s.newAt := by
    rintro ⟨s', hs', hnew, hp⟩
    rw [hcert.sites.eq_of_newAt hs' hs hnew, hpinned] at hp
    cases hp
  have hpaired := run_paired hrun hf
  obtain ⟨instr, after, spans, -, hsettled⟩ := hcert.settled i f hf
  refine ⟨instr, hsettled.code_at, fun t ht => ?_, ?_, ?_⟩
  · rintro ⟨cls, copied, rfl⟩
    exact hn (hpaired.locals _ ht)
  · refine Site.pairs_of_allRest hn hpaired.stack fun cls copied hmem => ?_
    obtain ⟨s', hs', hnew, hcls⟩ := (hcert.known i f hf).1 _ hmem
    rw [← hcls, hcert.sites.eq_of_newAt hs' hs hnew]
  · rintro m d cls copied rfl - hd hr
    exact hsettled.transition.receiver hd hn hr

/-- A construction whose constructor takes an argument. -/
def filledNew : Method where
  name := "f"
  desc := "()V"
  flags := Flag.staticBit
  code := #[.type .new "A", .plain .dup, .int 7, .member (.invoke .special) "A" "<init>" "(I)V",
    .plain .pop, .plain .returnVoid]

set_option maxRecDepth 100000 in
/-- The theorem where a pair lies below an argument. -/
theorem filledNew_shows : ∃ T h', (Analysis.run ⟨{}, {}, "A", filledNew⟩).run {} = (.ok T, h') ∧
    T.sites = [⟨"A", 0, some 1, false⟩] ∧
    T.frames[3]? = some (some ⟨#[], [.int, .pending 0 "A" true, .pending 0 "A" false]⟩) ∧
    ∀ s ∈ T.sites, s.pinned = false → ∀ (i : Nat) (f : Frame), T.frames[i]? = some (some f) →
      ∃ instr, filledNew.code[i]? = some instr ∧ f.Shows s instr := by
  have hresult : ((Analysis.run ⟨{}, {}, "A", filledNew⟩).run {}).1.toOption.map
      (fun T => (T.sites, T.frames[3]?)) = some ([⟨"A", 0, some 1, false⟩],
        some (some ⟨#[], [.int, .pending 0 "A" true, .pending 0 "A" false]⟩)) := by
    decide +kernel
  obtain ⟨T, h', hrun, hboth⟩ := Conclusion.exists_ok hresult
  exact ⟨T, h', hrun, (Prod.mk.inj hboth).1, (Prod.mk.inj hboth).2, Analysis.run_shows hrun⟩

end Suspension
