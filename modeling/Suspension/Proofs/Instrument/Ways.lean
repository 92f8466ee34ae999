import Suspension.Proofs.Instrument.Crossing

/-!
# Ways across a segment

A transformed method crosses the segment of an instruction in one of six ways, and each of them comes to a
place where the next thing that is seen is what is seen of the instruction itself.

* `Running.Standing` — in front of what stands for an instruction.
* `Running.Way`, `Running.Level.way` — where a segment leads.
* `Plan.Faithful.exists_supplies` — there are objects for all constructions that are put off.
-/

namespace Suspension

/-! ## Objects -/

/-- What is missing is a construction of the method. -/
lemma Plan.Founded.site_of_gap {p : Plan} (hp : p.Founded) {j n : Nat} {f : Frame} {cls : Text}
    (hf : p.subject.types.frames[j]? = some (some f)) (hn : some (n, cls) ∈ Frame.gaps p.isOmitted f.stack) :
    ∃ site ∈ p.subject.types.sites, site.newAt = n ∧ site.cls = cls := by
  obtain ⟨t, ht, habsent⟩ := List.mem_map.mp hn
  obtain ⟨-, copied, rfl⟩ := Frame.absent?_eq_some habsent
  exact (hp.certified.known j f hf).1 _ ht

/-- And it is of one class. -/
lemma Plan.Founded.gap_class {p : Plan} (hp : p.Founded) {j n : Nat} {f : Frame} {cls cls' : Text}
    (hf : p.subject.types.frames[j]? = some (some f)) (hn : some (n, cls) ∈ Frame.gaps p.isOmitted f.stack)
    (hn' : some (n, cls') ∈ Frame.gaps p.isOmitted f.stack) : cls' = cls := by
  obtain ⟨site, hsite, hat, rfl⟩ := hp.site_of_gap hf hn
  obtain ⟨site', hsite', hat', rfl⟩ := hp.site_of_gap hf hn'
  rw [hp.certified.sites.eq_of_newAt hsite' hsite (hat'.trans hat.symm)]

/-- **There are objects for the constructions that are put off**, wherever control is. -/
lemma Plan.Faithful.exists_supplies {E : Environment} {p : Plan} {nm : Method} {args : List Value}
    (h : p.Faithful E nm args) : ∃ obj : Nat → ObjectId, ∀ {j : Nat} {f : Frame},
      p.subject.types.frames[j]? = some (some f) → E.Supplies obj (Frame.gaps p.isOmitted f.stack) := by
  have hmade : ∀ n : Nat, ∃ o : ObjectId, ∀ cls, p.code[n]? = some ⟨.new, .type cls⟩ → E.made o cls := by
    intro n
    by_cases hnew : ∃ cls, p.code[n]? = some ⟨.new, .type cls⟩
    · obtain ⟨cls, hcls⟩ := hnew
      obtain ⟨o, ho⟩ := h.objects cls (Array.mem_toList_iff.mpr (Array.mem_of_getElem? hcls))
      refine ⟨o, fun cls' hcls' => ?_⟩
      rw [hcls] at hcls'
      cases hcls'
      exact ho
    · exact ⟨default, fun cls hcls => absurd ⟨cls, hcls⟩ hnew⟩
  choose obj hobj using hmade
  refine ⟨obj, fun {j f} hf n cls hn => hobj n cls ?_⟩
  obtain ⟨site, hsite, rfl, rfl⟩ := h.founded.site_of_gap hf hn
  exact h.founded.certified.sites.new_at site hsite

namespace Running

variable {E : Environment} {p : Plan} {nm : Method} {args : List Value} {d i j : Nat} {out : Nat → Bool}
  {f after : Frame} {c : Running} {instr img : Instruction} {pt : SuspensionPoint}
  {spans : List HandlerSpan}

/-! ## In front of an instruction -/

/-- **In front of what stands for an instruction**, with the values that it needs. -/
structure Standing (E : Environment) (p : Plan) (nm : Method) (args : List Value) (d : Nat)
    (out : Nat → Bool) (j : Nat) (instr img : Instruction) (f after : Frame) (c : Running) : Prop
    extends Mirrors E p args d out f c where
  frame : p.subject.types.frames[j]? = some (some f)
  code_at : p.code[j]? = some instr
  image_at : nm.code[c.act.pc]? = some img
  next : c.act.pc + 1 = p.place (j + 1)
  asks : ∀ r b, c.act.step (.ofMethod nm) = .asks r b → p.Within j c.act.pc ∧ ¬ p.Own c.act.pc
  outcome : Imaged E p args d out j instr img f after c.act c.stack (c.act.step (.ofMethod nm))
  gaps : Frame.gaps out after.stack = Frame.gaps p.isOmitted after.stack
  supplies : ∀ obj, E.Supplies obj (Frame.gaps out f.stack)
    ↔ E.Supplies obj (Frame.gaps p.isOmitted after.stack)
  covers : ∀ n cls, some (n, cls) ∈ Frame.gaps out f.stack → some (n, cls) ∈ Frame.gaps p.isOmitted f.stack

/-- **An instruction that survives is stood for** at the end of its segment. -/
lemma Standing.of_survives (h : p.Faithful E nm args) (hsurv : p.Survives j instr)
    (hset : p.subject.types.Settled E.toClasses p.code spans j f instr after)
    (hspares : Frame.Spares out p.subject.types.sites j instr f)
    (hf : p.subject.types.frames[j]? = some (some f)) (hm : Mirrors E p args d out f c)
    (hnext : c.act.pc + 1 = p.place (j + 1))
    (hgaps : Frame.gaps out after.stack = Frame.gaps p.isOmitted after.stack)
    (hcovers : ∀ n cls, some (n, cls) ∈ Frame.gaps out f.stack →
      some (n, cls) ∈ Frame.gaps p.isOmitted f.stack) :
    ∃ img, Standing E p nm args d out j instr img f after c := by
  obtain ⟨hw, img, himg, hstands⟩ := hsurv.image h.ready.lays h.ready.sound
  have hpc : c.act.pc = p.imageAt j := by
    have hhigh := hw.high
    unfold Plan.imageAt at hhigh ⊢
    omega
  obtain ⟨used, put, rest, rest', hsplit⟩ := hset.transition.splits hspares (h.paired hf).locals
  refine ⟨img, hm, hf, hset.code_at, hpc ▸ himg, hnext, fun _ _ _ => ?_,
    imaged h hset hspares hf (hpc ▸ himg) hnext hstands hm, hgaps, fun obj => ?_, hcovers⟩
  · rw [hpc]
    exact ⟨hw, fun hown => hown j instr hsurv rfl⟩
  · rw [hsplit.supplies_iff, hgaps]

/-- **A mark stands for itself**, and asks for nothing. -/
lemma Standing.of_mark (h : p.Faithful E nm args) (hmark : instr.opcode = .label)
    (hset : p.subject.types.Settled E.toClasses p.code spans j f instr after)
    (hspares : Frame.Spares p.isOmitted p.subject.types.sites j instr f)
    (hf : p.subject.types.frames[j]? = some (some f)) (hm : Mirrors E p args d p.isOmitted f c)
    (himg : nm.code[c.act.pc]? = some instr) (hnext : c.act.pc + 1 = p.place (j + 1)) :
    Standing E p nm args d p.isOmitted j instr instr f after c := by
  obtain ⟨used, put, rest, rest', hsplit⟩ := hset.transition.splits hspares (h.paired hf).locals
  refine ⟨hm, hf, hset.code_at, himg, hnext, fun r b hstep => ?_,
    imaged h hset hspares hf himg hnext (Or.inl rfl) hm, rfl, fun obj => hsplit.supplies_iff,
    fun _ _ hn => hn⟩
  obtain ⟨q, L, vs⟩ := c.act
  rw [step_eq himg] at hstep
  simp only [Activation.execute, hmark] at hstep
  cases hstep

/-! ## Points -/

lemma exists_settled (h : p.Faithful E nm args) (hf : p.subject.types.frames[j]? = some (some f))
    (hat : p.code[j]? = some instr) :
    ∃ spans after, p.subject.types.Settled E.toClasses p.code spans j f instr after := by
  obtain ⟨instr', after, spans, -, hset⟩ := h.ready.certified.settled j f hf
  have hat' : p.code[j]? = some instr' := hset.code_at
  rw [hat] at hat'
  cases hat'
  exact ⟨spans, after, hset⟩

/-- **A call that may be put off** stands in front of what stands for it. -/
lemma AtCall.standing (hc : AtCall E p args d pt c) (h : p.Faithful E nm args) (hpt : p.points[i]? = some pt)
    (hyield : pt.isYield = false) :
    ∃ instr img after, Standing E p nm args d p.isOmitted pt.position instr img pt.frame after c := by
  have hfound := h.founded.found pt (List.mem_of_getElem? hpt)
  obtain ⟨instr, m, hat, hm, -⟩ := hfound.call
  have hat : p.code[pt.position]? = some instr := hat
  obtain ⟨spans, after, hset⟩ := exists_settled h hfound.frame_at hat
  have hsurv := Plan.survives_point h.ready.sound hpt hyield hat
  have hdef := Plan.deferral?_of_constructor? (p := p) (i := pt.position) (Plan.constructor?_of_callee? hm)
  obtain ⟨hw, -⟩ := hsurv.image h.ready.lays h.ready.sound
  have hnext : c.act.pc + 1 = p.place (pt.position + 1) := by
    have hhigh := hw.high
    rw [hc.pc]
    unfold Plan.imageAt at hhigh ⊢
    omega
  obtain ⟨img, hstanding⟩ := Standing.of_survives h hsurv hset
    (h.founded.spares hfound.frame_at hsurv.kept hdef) hfound.frame_at hc.toMirrors hnext rfl fun _ _ hn => hn
  exact ⟨instr, img, after, hstanding⟩

/-- **A request to suspend** takes nothing and leaves nothing. -/
lemma step_yield (h : p.Faithful E nm args) (hpt : pt ∈ p.points) (hyield : pt.isYield = true) :
    ∃ instr, p.code[pt.position]? = some instr ∧ Frame.ReadsValue instr
      ∧ (∀ a : Activation, a.pc = pt.position → a.step (.ofMethod p.subject.method) = .asks .yield a)
      ∧ p.subject.types.Reaches E.toClasses pt.frame (pt.position + 1) := by
  have hfound := h.founded.found pt hpt
  obtain ⟨⟨op, operand⟩, m, hat, hm, -, hkind⟩ := hfound.call
  obtain ⟨hym, hop⟩ := hkind hyield
  obtain ⟨-, -, ho⟩ := Instruction.callee?_eq_some hm
  obtain rfl : op = .invoke .static := hop
  obtain rfl : operand = .member m := ho
  obtain rfl : m = ⟨ClassName.coroutine, "yield", "()V"⟩ := by
    obtain ⟨owner, name, desc⟩ := m
    simpa [Member.isYield, and_assoc] using hym
  obtain ⟨spans, after, hset⟩ := exists_settled h hfound.frame_at hat
  have hparse : Descriptor.parseMethod (Text.ofString "()V") = .ok ⟨[], "V"⟩ := rfl
  refine ⟨_, hat, ?_, fun a hpc => ?_, ?_⟩
  · rintro (hop | hop) <;> cases hop
  · obtain ⟨q, L, vs⟩ := a
    obtain rfl : q = pt.position := hpc
    exact step_call ⟨[], "V"⟩ [] hat hparse rfl
  · obtain rfl : after = pt.frame := by
      cases hset.transition with
      | @plain used put rest hs shape free =>
          cases shape with
          | call hop ho hd hargs hrecv =>
              cases hop
              cases ho
              rw [hparse] at hd
              cases hd
              obtain rfl := List.map_eq_nil_iff.mp hargs
              obtain rfl := List.map_eq_nil_iff.mp hrecv
              obtain rfl : pt.frame.stack = rest := hs
              rfl
          | _ => simp_all [Opcode.hasFixedEffect]
      | construct hop ho hname =>
          cases ho
          cases hname
      | _ => simp_all
    exact (hset.next rfl).2

/-! ## Ways -/

/-- **What a dropped instruction does in the method**: it makes the object of a construction, or copies the
reference to it, and nothing of that is seen. -/
structure Drops (E : Environment) (p : Plan) (j : Nat) (f g : Frame) (b : Activation) : Prop where
  goes : ∀ obj, E.Supplies obj (Frame.gaps p.isOmitted g.stack) →
    E.Supplies obj (Frame.gaps p.isOmitted f.stack)
      ∧ ∀ a, a.pc = j → Completes p.isOmitted obj f b a →
        ∃ a', (p.original E).Moves a [] a' ∧ a'.pc = j + 1 ∧ Completes p.isOmitted obj g b a'
  went : ∀ obj a, E.Supplies obj (Frame.gaps p.isOmitted f.stack) → a.pc = j →
    Completes p.isOmitted obj f b a → ∀ es a', (p.original E).Moves a es a' →
      es = [] ∧ a'.pc = j + 1 ∧ ∃ obj', E.Supplies obj' (Frame.gaps p.isOmitted g.stack)
        ∧ Completes p.isOmitted obj' g b a'
  lasts : ∀ obj a, a.pc = j → Completes p.isOmitted obj f b a → ∀ es out, ¬ (p.original E).Ends a es out

/-- **Where a segment leads.** -/
inductive Way (E : Environment) (p : Plan) (nm : Method) (args : List Value) (d j : Nat) (f : Frame)
    (c : Running) : Prop where
  | drops {g : Frame} (hl : Level E p args d (j + 1) g c) (hdrops : Drops E p j f g c.act) :
      Way E p nm args d j f c
  | calls {pt : SuspensionPoint} {i : Nat} {c' : Running} (hpt : p.points[i]? = some pt)
      (hyield : pt.isYield = false) (hpos : pt.position = j) (hframe : pt.frame = f)
      (hrun : Relation.ReflTransGen (Proceeds E.toClasses E.surroundings p nm) c c')
      (hc : AtCall E p args d pt c') (hsame : Same f c.act c'.act) : Way E p nm args d j f c
  | yields {pt : SuspensionPoint} {i : Nat} (hpt : p.points[i]? = some pt) (hyield : pt.isYield = true)
      (hpos : pt.position = j) (hframe : pt.frame = f) : Way E p nm args d j f c
  | returns {c' : Running} {v : Value}
      (hrun : Relation.ReflTransGen (Proceeds E.toClasses E.surroundings p nm) c c')
      (hstep : c'.act.step (.ofMethod nm) = .returns v)
      (hwhole : ∀ obj a, a.pc = j → Completes p.isOmitted obj f c.act a →
        a.step (.ofMethod p.subject.method) = .returns v) : Way E p nm args d j f c
  | stands {instr img : Instruction} {after : Frame} (hnone : ∀ pt ∈ p.points, pt.position ≠ j)
      (hs : Standing E p nm args d p.isOmitted j instr img f after c) : Way E p nm args d j f c
  | redoes {c' : Running} {n : Nat} {cls : Text} (hnone : ∀ pt ∈ p.points, pt.position ≠ j)
      (hrun : Relation.ReflTransGen (Proceeds E.toClasses E.surroundings p nm) c c')
      (hown : p.Own c'.act.pc) (hat : nm.code[c'.act.pc]? = some ⟨.new, .type cls⟩)
      (hmissing : some (n, cls) ∈ Frame.gaps p.isOmitted f.stack)
      (hrest : ∀ o s', E.made o cls → s'.depth = c'.stack.depth → c'.stack.room ≤ s'.room →
        ∃ c'' instr img after,
          Relation.ReflTransGen (Proceeds E.toClasses E.surroundings p nm)
              ⟨c'.act.answered (some (.object o)), s'⟩ c''
            ∧ Standing E p nm args d (p.without n) j instr img f after c''
            ∧ ∀ obj a, obj n = o → Completes p.isOmitted obj f c.act a →
                Completes (p.without n) obj f c''.act a) : Way E p nm args d j f c

/-- **What is dropped** leads on. -/
lemma Level.way_dropped (hl : Level E p args d j f c) (h : p.Faithful E nm args)
    (hat : p.code[j]? = some instr) (hd : p.isDropped j = true) (hplace : p.place (j + 1) = p.place j) :
    ∃ g, Level E p args d (j + 1) g c ∧ Drops E p j f g c.act := by
  obtain ⟨spans, after, hset⟩ := exists_settled h hl.frame hat
  obtain ⟨site, hsite, hi⟩ := List.any_eq_true.mp hd
  simp only [Bool.and_eq_true, Bool.or_eq_true, beq_iff_eq] at hi
  obtain ⟨homitted, hj | hj⟩ := hi
  · obtain ⟨g, hg, rfl, hnone, hobj⟩ := hl.drops_new h hsite homitted hj hset hplace
    have hstep : ∀ a : Activation, a.pc = j →
        a.step (.ofMethod p.subject.method) = .asks (.create site.cls) a := by
      rintro ⟨q, L, vs⟩ rfl
      rw [step_eq hat]
      rfl
    refine ⟨g, hg, ⟨fun obj hs => ?_, fun obj a hs hpc hc es a' hmove => ?_,
      fun obj a hpc hc es out hend => ?_⟩⟩
    · obtain ⟨hsupplies, hmade⟩ := (hobj obj).1.mp hs
      refine ⟨hsupplies, fun a hpc hc => ⟨_, .answered (hstep a hpc) (hpc ▸ hat) (.made hmade), ?_, ?_⟩⟩
      · rw [← hpc]
        rfl
      · exact (hobj obj).2 a hc
    · cases hmove with
      | next hnext =>
          rw [hstep a hpc] at hnext
          cases hnext
      | answered hasks _ hbrings =>
          rw [hstep a hpc] at hasks
          cases hasks
          cases hbrings with
          | @made _ o hmade =>
              -- the object that is made now is the one that will be made later
              have hsame : ∀ n cls, some (n, cls) ∈ Frame.gaps p.isOmitted f.stack →
                  Function.update obj j o n = obj n := by
                intro n cls hn
                refine Function.update_of_ne ?_ _ _
                rintro rfl
                exact hnone cls hn
              have hself : Function.update obj j o j = o := Function.update_self _ _ _
              refine ⟨rfl, by rw [← hpc]; rfl, Function.update obj j o, ?_, ?_⟩
              · refine (hobj _).1.mpr ⟨fun n cls hn => ?_, by rw [hself]; exact hmade⟩
                rw [hsame n cls hn]
                exact hs n cls hn
              · have hnew := (hobj (Function.update obj j o)).2 a
                  { hc with stack := hc.stack.trans (Frame.thicken_congr fun n cls hn =>
                    (hsame n cls hn).symm) }
                rwa [hself] at hnew
          | answered hsilent _ _ => cases hsilent
      | caught hasks _ hbrings _ =>
          rw [hstep a hpc] at hasks
          cases hasks
          cases hbrings with
          | raised hraises => exact absurd hraises (h.conforms.create _ _)
      | suspended hasks _ =>
          rw [hstep a hpc] at hasks
          cases hasks
    · cases hend with
      | returned hret =>
          rw [hstep a hpc] at hret
          cases hret
      | threw hasks _ hbrings _ =>
          rw [hstep a hpc] at hasks
          cases hasks
          cases hbrings with
          | raised hraises => exact h.conforms.create _ _ hraises
      | waits hasks hsilent =>
          rw [hstep a hpc] at hasks
          cases hasks
          cases hsilent
  · obtain ⟨g, hg, hobj⟩ := hl.drops_dup h hsite homitted hj hset hplace
    refine ⟨g, hg, ⟨fun obj hs => ⟨(hobj obj).1.mp hs, fun a hpc hc => ?_⟩,
      fun obj a hs hpc hc es a' hmove => ?_, fun obj a hpc hc es out hend => ?_⟩⟩
    · obtain ⟨a', hstep, hpc', hc'⟩ := (hobj obj).2 a hpc hc
      exact ⟨a', .next hstep, hpc', hc'⟩
    · obtain ⟨a₁, hstep, hpc', hc'⟩ := (hobj obj).2 a hpc hc
      cases hmove with
      | next hnext =>
          rw [hstep] at hnext
          cases hnext
          exact ⟨rfl, hpc', obj, (hobj obj).1.mpr hs, hc'⟩
      | answered hasks | caught hasks | suspended hasks =>
          rw [hstep] at hasks
          cases hasks
    · obtain ⟨a₁, hstep, -, -⟩ := (hobj obj).2 a hpc hc
      cases hend with
      | returned hother | threw hother | waits hother =>
          rw [hstep] at hother
          cases hother

/-- **Every segment leads somewhere.** -/
lemma Level.way (hl : Level E p args d j f c) (h : p.Faithful E nm args) : Way E p nm args d j f c := by
  have hlt : j < p.code.size := by
    have hsize := h.ready.certified.size
    have := (Array.getElem?_eq_some_iff.mp hl.frame).1
    unfold Plan.code
    omega
  have hat : p.code[j]? = some p.code[j] := Array.getElem?_eq_getElem hlt
  have hcode := h.ready.lays.segment j hlt
  have hplace := p.place_succ j
  have hseg := h.ready.sound.segment_cases hat
  generalize hsegment : p.segmentAt j = l at hseg hcode hplace
  generalize p.code[j] = instr at hat hseg
  obtain ⟨spans, after, hset⟩ := exists_settled h hl.frame hat
  cases hseg with
  | @point pt i hpt hpos =>
      subst hpos
      have hfound := h.founded.found pt (List.mem_of_getElem? hpt)
      obtain rfl : f = pt.frame := by simpa [hl.frame] using hfound.frame_at
      cases hyield : pt.isYield with
      | true => exact .yields hpt hyield rfl rfl
      | false =>
          obtain ⟨c', hrun, hc, hsame⟩ := hl.reaches_call h hpt hyield
          exact .calls hpt hyield rfl rfl hrun hc hsame
  | dropped hpt hd =>
      obtain ⟨g, hg, hdrops⟩ := hl.way_dropped h hat hd hplace
      exact .drops hg hdrops
  | returns hpt hd hret =>
      obtain ⟨b, s', hrun, hlocals, hstack, hnext, himg⟩ := hl.returns h hat hsegment
      have hdef : p.deferral? j instr = .ok none := by
        refine Plan.deferral?_of_constructor? ?_
        cases hc : Plan.constructor? instr with
        | none => rfl
        | some m =>
            rw [(Plan.constructor?_eq_some hc).1] at hret
            cases hret
      obtain ⟨q, L, vs⟩ := b
      obtain rfl : L = c.act.locals := hlocals
      obtain rfl : vs = c.act.stack := hstack
      have hm : Mirrors E p args d p.isOmitted f ⟨⟨q, c.act.locals, c.act.stack⟩, c.stack⟩ :=
        ⟨hl.toInside, hl.room, hl.width, hl.operands, hl.locals, hl.given, hl.usable⟩
      have himaged := imaged h hset (h.founded.spares hl.frame hd hdef) hl.frame himg hnext (Or.inl rfl) hm
      have hreturns : (∃ v, Activation.step (.ofMethod nm) ⟨q, c.act.locals, c.act.stack⟩ = .returns v)
          ∨ Activation.step (.ofMethod nm) ⟨q, c.act.locals, c.act.stack⟩ = .crash :=
        step_of_isReturn himg hret
      rcases hreturns with ⟨v, hv⟩ | hcrash
      · rw [hv] at himaged
        cases himaged with
        | returns hwhole =>
            exact .returns hrun hv fun obj a hpc hc => hwhole obj a hpc ⟨hc.stack, hc.size, hc.locals⟩
      · rw [hcrash] at himaged
        cases himaged
  | plain hpt hd hret hdef =>
      have hnone : ∀ pt ∈ p.points, pt.position ≠ j := fun pt hmem => no_point h.ready hpt hmem
      have hspares := h.founded.spares hl.frame hd hdef
      have hnext : c.act.pc + 1 = p.place (j + 1) := by
        rw [hl.pc, hplace]
        rfl
      by_cases hmark : instr.opcode = .label
      · have himg : nm.code[c.act.pc]? = some instr := hl.pc ▸ hcode 0 (by simp)
        exact .stands hnone (.of_mark h hmark hset hspares hl.frame hl.toMirrors himg hnext)
      · have hsurv : p.Survives j instr :=
          ⟨hat, by simpa [Instruction.isMark] using hmark, hd,
            fun pt hmem hpos => absurd hpos (hnone pt hmem)⟩
        obtain ⟨img, hs⟩ := Standing.of_survives h hsurv hset hspares hl.frame hl.toMirrors hnext rfl
          fun _ _ hn => hn
        exact .stands hnone hs
  | @redone e hpt hd hret hdef =>
      have hnone : ∀ pt ∈ p.points, pt.position ≠ j := fun pt hmem => no_point h.ready hpt hmem
      obtain ⟨rest, hr⟩ := h.founded.redone h.ready.sound (h.paired hl.frame) hl.frame hset.transition hdef
      have hsurv : p.Survives j instr :=
        ⟨hat, by simp [Instruction.isMark, hr.call], hd,
          fun pt hmem hpos => absurd hpos (hnone pt hmem)⟩
      obtain ⟨q, K, ys, hrun, hown, hnew, hrest⟩ := hl.redoes h hr hat hdef hsegment
      refine .redoes hnone hrun hown hnew (n := e.site.newAt) ?_ fun o s' ho hdepth hroom => ?_
      · simp [hr.stack, Frame.gaps, Frame.absent?_pending hr.omitted]
      · obtain ⟨b, hback, hnext, -, hm, hwhole⟩ := hrest o s' ho hdepth hroom
        obtain ⟨img, hs⟩ := Standing.of_survives h hsurv hset hr.spares hl.frame hm hnext
          (Plan.gaps_without hr.after) fun n cls hn => (Plan.mem_gaps_without.mp hn).1
        exact ⟨⟨b, s'⟩, instr, img, after, hback, hs, hwhole⟩

end Running

end Suspension
