import Suspension.Proofs.Frame.Constructions
import Suspension.Proofs.Instrument.Marks

/-!
# Constructions that are left out

When a point leaves a construction out of its record, its `new` and its `dup` are dropped everywhere,
and the construction is redone in front of its constructor call.  **Every frame then has its own
entries without those of the constructions that are left out**, and the instructions that stay work on
these as they did before.

* `Plan.Founded`, `Plan.Typed` — the frames that a plan rests on come out of the analysis, and are in order.
* `Plan.kept` — the entries of a stack that stay.
* `Plan.Typed.deferral?_ne_error` — a construction that is left out has the shape to be redone.
* `Plan.Typed.segment_eq` — so every instruction has its segment.
* `Plan.Founded.kept_dropped`, `Plan.Typed.kept_redone`, `Plan.Typed.kept_plain` — what an instruction
  does to the entries that stay.
-/

namespace Suspension

namespace Plan

/-- **What a plan rests on**: frames that come out of the analysis, and points that are reached calls. -/
structure Founded (p : Plan) : Prop where
  certified : p.subject.types.Certified Classes.empty p.subject.owner p.subject.method
  found : ∀ pt ∈ p.points, pt.Found p.subject

/-- **A plan whose frames are in order.** -/
structure Typed (p : Plan) : Prop extends Founded p where
  orderly : ∀ {i : Nat} {f : Frame}, p.subject.types.frames[i]? = some (some f) →
    f.Orderly p.subject.types

/-- Whether an entry of a stack belongs to a construction that is left out. -/
def leavesOut (p : Plan) : SlotType → Bool
  | .pending n _ _ => p.isOmitted n
  | _ => false

/-- **The number of entries of a stack that stay.** -/
def kept (p : Plan) (ts : List SlotType) : Nat := ts.countP fun t => !p.leavesOut t

variable {p : Plan} {ts us : List SlotType} {t : SlotType}

@[simp] lemma kept_nil (p : Plan) : p.kept [] = 0 := rfl

@[simp] lemma kept_append : p.kept (ts ++ us) = p.kept ts + p.kept us := List.countP_append

lemma kept_cons : p.kept (t :: ts) = (if p.leavesOut t then 0 else 1) + p.kept ts := by
  unfold kept
  rw [List.countP_cons]
  cases p.leavesOut t <;> simp [Nat.add_comm]

/-- The entries that stay are those that are not left out. -/
lemma kept_eq_sub (p : Plan) (ts : List SlotType) :
    p.kept ts = ts.length - ts.countP p.leavesOut := by
  have := List.length_eq_countP_add_countP (l := ts) p.leavesOut
  unfold kept
  simp only [Bool.not_eq_true] at this
  have hnot : (fun t => decide (p.leavesOut t = false)) = fun t => !p.leavesOut t := by
    funext t
    cases p.leavesOut t <;> rfl
  rw [hnot] at this
  omega

lemma kept_eq_length (h : ∀ t ∈ ts, p.leavesOut t = false) : p.kept ts = ts.length :=
  List.countP_eq_length.mpr fun t ht => by simp [h t ht]

/-! ## Constructions that are left out are not pinned -/

/-- What a point defers is a construction that is not pinned. -/
lemma isDeferred_eq_true {s : Subject} {n : Nat} {cls : Text} {copied : Bool}
    (h : s.isDeferred (.pending n cls copied) = true) :
    ∃ site ∈ s.types.sites, site.newAt = n ∧ site.pinned = false := by
  simp only [Subject.isDeferred] at h
  split at h
  · next site hsite =>
      exact ⟨site, List.mem_of_find?_eq_some hsite, by simpa using List.find?_some hsite,
        by simpa using h⟩
  · cases h

/-- The sites that a frame defers are those of its deferred entries. -/
lemma mem_deferredSites {s : Subject} {f : Frame} {n : Nat} :
    n ∈ s.deferredSites f ↔
      ∃ cls copied, .pending n cls copied ∈ f.stack ∧ s.isDeferred (.pending n cls copied) = true := by
  simp only [Subject.deferredSites, List.mem_filterMap, List.mem_reverse]
  constructor
  · rintro ⟨v, hv, hn⟩
    split at hn
    · next m cls copied =>
        split at hn
        · next hd =>
            cases hn
            exact ⟨cls, copied, hv, hd⟩
        · cases hn
    · cases hn
  · rintro ⟨cls, copied, hv, hd⟩
    exact ⟨_, hv, by simp [hd]⟩

/-- **A construction that is left out** has been met and is not pinned. -/
lemma Founded.site_of_isOmitted (hp : p.Founded) {n : Nat} (h : p.isOmitted n = true) :
    ∃ site, p.subject.site? n = some site ∧ site ∈ p.subject.types.sites ∧ site.newAt = n
      ∧ site.pinned = false := by
  obtain ⟨pt, -, hn⟩ := List.any_eq_true.mp h
  obtain ⟨cls, copied, -, hd⟩ := mem_deferredSites.mp (by simpa using hn)
  obtain ⟨site, hmem, rfl, hpinned⟩ := isDeferred_eq_true hd
  exact ⟨site, hp.certified.sites.find?_eq hmem, hmem, rfl, hpinned⟩

lemma Founded.not_pinned (hp : p.Founded) {n : Nat} (h : p.isOmitted n = true) :
    ¬ Site.Pinned p.subject.types.sites n := by
  rintro ⟨s, hs, hn, hpinned⟩
  obtain ⟨site, -, hmem, hnew, hfalse⟩ := hp.site_of_isOmitted h
  obtain rfl := hp.certified.sites.eq_of_newAt hs hmem (hn.trans hnew.symm)
  rw [hpinned] at hfalse
  cases hfalse

/-- What may be used freely stays. -/
lemma Founded.leavesOut_of_free (hp : p.Founded) (h : Site.Free p.subject.types.sites t) :
    p.leavesOut t = false := by
  cases t with
  | pending n cls copied =>
      cases hn : p.isOmitted n with
      | true => exact absurd h (hp.not_pinned hn)
      | false => exact hn
  | _ => rfl

lemma Founded.kept_of_free (hp : p.Founded) (h : ∀ t ∈ ts, Site.Free p.subject.types.sites t) :
    p.kept ts = ts.length :=
  kept_eq_length fun t ht => hp.leavesOut_of_free (h t ht)

/-- What a call returns stays. -/
lemma kept_result (p : Plan) (d : Descriptor.Method) :
    p.kept (if d.isVoid then [] else [.ofDesc d.result]) = if d.isVoid then 0 else 1 := by
  have hstays : p.leavesOut (.ofDesc d.result) = false := by
    unfold SlotType.ofDesc
    split <;> rfl
  split
  · rfl
  · simp [kept_cons, hstays]

/-- **Frames that meet keep the same entries.** -/
lemma Founded.kept_of_le (hp : p.Founded) {C : Classes}
    (hle : List.Forall₂ (SlotType.Le C p.subject.types.sites) ts us) : p.kept ts = p.kept us := by
  induction hle with
  | nil => rfl
  | @cons t u ts us htu _ ih =>
      have hsame : p.leavesOut t = p.leavesOut u := by
        rcases htu with rfl | ⟨hfree, c, d, -, rfl, -⟩
        · rfl
        · exact hp.leavesOut_of_free hfree
      rw [kept_cons, kept_cons, hsame, ih]

/-- A construction that is completed elsewhere changes nothing. -/
lemma kept_map_completed {n : Nat} (h : p.isOmitted n = false ∨ ∀ cls copied, .pending n cls copied ∉ ts) :
    p.kept (ts.map (Frame.completed n)) = p.kept ts := by
  induction ts with
  | nil => rfl
  | cons t ts ih =>
      have hsame : p.leavesOut (Frame.completed n t) = p.leavesOut t := by
        unfold Frame.completed
        split
        · next s cls copied =>
            split
            · next hs =>
                obtain rfl : s = n := by simpa using hs
                rcases h with h | h
                · exact h.symm
                · exact absurd List.mem_cons_self (h cls copied)
            · rfl
        · rfl
      rw [List.map_cons, kept_cons, kept_cons, hsame, ih ?_]
      rcases h with h | h
      · exact Or.inl h
      · exact Or.inr fun cls copied hmem => h cls copied (List.mem_cons_of_mem t hmem)

end Plan

namespace FrameTypes

variable {T : FrameTypes} {n : Nat} {ts : List SlotType}

/-- A pending entry that is not pinned lies above the stack that its `new` found. -/
lemma AllPlaced.height_lt (h : T.AllPlaced ts) (hp : ¬ Site.Pinned T.sites n) {cls : Text}
    {copied : Bool} (hmem : .pending n cls copied ∈ ts) :
    ∃ f, T.frames[n]? = some (some f) ∧ f.stack.length < ts.length := by
  induction ts with
  | nil => cases hmem
  | cons t ts ih =>
      rcases List.mem_cons.mp hmem with rfl | hmem
      · rcases h.1 with hpinned | ⟨⟨f, hf, hheight⟩, -⟩
        · exact absurd hpinned hp
        · exact ⟨f, hf, by rw [List.length_cons]; omega⟩
      · obtain ⟨f, hf, hlt⟩ := ih h.2 hmem
        exact ⟨f, hf, by rw [List.length_cons]; omega⟩

/-- **Below the reference of `new` there is no other** to its construction. -/
lemma AllPlaced.not_mem (hp : ¬ Site.Pinned T.sites n) {cls : Text}
    (h : T.AllPlaced (.pending n cls false :: ts)) :
    ∀ cls' copied, .pending n cls' copied ∉ ts := by
  intro cls' copied hmem
  rcases h.1 with hpinned | ⟨⟨f, hf, hheight⟩, -⟩
  · exact absurd hpinned hp
  · obtain ⟨g, hg, hlt⟩ := h.2.height_lt hp hmem
    rw [hf] at hg
    cases hg
    simp only [Bool.toNat_false] at hheight
    omega

end FrameTypes

namespace Plan

variable {p : Plan} {i : Nat} {instr : Instruction} {f after : Frame}

/-! ## Constructor calls -/

/-- **A constructor called on a construction that is left out** finds its copy, with the reference of
`new` right below, and completes it. -/
lemma Founded.constructs (hp : p.Founded) (htr : Frame.Transition p.subject.types.sites i instr f after)
    {m : Member} (hm : constructor? instr = some m) {n : Nat} {cls : Text} {copied : Bool}
    {below : List SlotType}
    (hdrop : f.stack.drop (Descriptor.argCount m.desc).toNat = .pending n cls copied :: below)
    (homitted : p.isOmitted n = true) :
    ∃ (d : Descriptor.Method) (args rest : List SlotType),
      Descriptor.parseMethod m.desc = .ok d ∧ args.length = d.params.length
        ∧ (∀ t ∈ args, Site.Free p.subject.types.sites t)
        ∧ f.stack = args ++ .pending n cls true :: .pending n cls false :: rest
        ∧ copied = true ∧ below = .pending n cls false :: rest
        ∧ after = ⟨f.locals.map (Frame.completed n), (if d.isVoid then [] else [.ofDesc d.result])
            ++ (.pending n cls false :: rest).map (Frame.completed n)⟩ := by
  obtain ⟨hop, ho, hname⟩ := constructor?_eq_some hm
  have hpinned := hp.not_pinned homitted
  have hcount : ∀ {d : Descriptor.Method}, Descriptor.parseMethod m.desc = .ok d →
      (Descriptor.argCount m.desc).toNat = d.params.length := by
    intro d hd
    simp [Descriptor.argCount, hd]
  cases htr with
  | plain hs shape free =>
      -- a call that uses its receiver like any other has pinned it
      obtain ⟨m', d, args, recv, ho', hd, rfl, hargs, hrecv, -⟩ := shape.of_invoke hop
      rw [ho] at ho'
      cases ho'
      obtain ⟨r, rfl⟩ := List.length_eq_one_iff.mp (by simpa using hrecv)
      rw [hs, hcount hd, ← hargs, List.append_assoc, List.drop_left] at hdrop
      cases hdrop
      have hfree : Site.Free p.subject.types.sites (.pending n cls copied) := free _ (by simp)
      exact absurd hfree hpinned
  | store hop' => rw [hop] at hop'; cases hop'
  | begin hop' => rw [hop] at hop'; cases hop'
  | copy hop' => rw [hop] at hop'; cases hop'
  | @construct m' d args rest n' cls' copied' hop' ho' hname' hd hs hargs free hpair =>
      rw [ho] at ho'
      cases ho'
      have hargs : args.length = d.params.length := by simpa using congrArg List.length hargs
      rw [hs, hcount hd, ← hargs, List.drop_left] at hdrop
      cases hdrop
      rcases hpair with hpin | ⟨rfl, hhead⟩
      · exact absurd hpin hpinned
      · obtain ⟨rest, rfl⟩ : ∃ rest, below = .pending n cls false :: rest := by
          cases below with
          | nil => cases hhead
          | cons t rest =>
              cases hhead
              exact ⟨rest, rfl⟩
        exact ⟨d, args, rest, hd, hargs, free, hs, rfl, rfl, rfl⟩

/-- The frame at a position with what its instruction makes of it. -/
lemma Founded.transition (hp : p.Founded) (hf : p.subject.types.frames[i]? = some (some f)) :
    ∃ instr after, p.code[i]? = some instr
      ∧ Frame.Transition p.subject.types.sites i instr f after := by
  obtain ⟨instr, after, spans, -, hs⟩ := hp.certified.settled i f hf
  exact ⟨instr, after, hs.code_at, hs.transition⟩

/-- The copy of a construction that is left out was made by a known `dup`. -/
lemma Typed.dupAt_of_copied (hp : p.Typed) (hf : p.subject.types.frames[i]? = some (some f))
    {n : Nat} {cls : Text} {args rest : List SlotType}
    (hs : f.stack = args ++ .pending n cls true :: rest) (homitted : p.isOmitted n = true)
    {site : Site} (hsite : p.subject.site? n = some site) : ∃ d, site.dupAt = some d := by
  have hplaced := (hp.orderly hf).stack
  rw [hs] at hplaced
  rcases (FrameTypes.AllPlaced.of_append hplaced).1 with hpinned | ⟨-, hcopied⟩
  · exact absurd hpinned (hp.not_pinned homitted)
  · obtain ⟨d, s, hmem, hn, hd⟩ := hcopied rfl
    have hsite' : site ∈ p.subject.types.sites := List.mem_of_find?_eq_some hsite
    have hnew : site.newAt = n := by simpa using List.find?_some hsite
    obtain rfl := hp.certified.sites.eq_of_newAt hmem hsite' (hn.trans hnew.symm)
    exact ⟨d, hd⟩

/-- **A construction that is left out has the shape to be redone.** -/
lemma Typed.deferral?_ne_error (hp : p.Typed) (hcode : p.code[i]? = some instr) (e : Fault) :
    p.deferral? i instr ≠ .error e := by
  intro h
  unfold deferral? at h
  split at h
  case h_2 => cases h
  next m f hm hf =>
  simp only at h
  split at h
  case h_2 => cases h
  next n cls copied below hdrop =>
  split at h
  · cases h
  next homitted =>
  have homitted : p.isOmitted n = true := by simpa using homitted
  split at h
  · cases h
  next site hsite =>
  have hf := Option.join_eq_some_iff.mp hf
  obtain ⟨instr', after, hcode', htr⟩ := hp.transition hf
  rw [hcode] at hcode'
  cases hcode'
  obtain ⟨d, args, rest, -, -, -, hs, rfl, rfl, -⟩ := hp.constructs htr hm hdrop homitted
  obtain ⟨dupAt, hdup⟩ := hp.dupAt_of_copied hf hs homitted hsite
  simp [hdup] at h

/-- **So every instruction has its segment.** -/
lemma Typed.segment_eq (hp : p.Typed) (hcode : p.code[i]? = some instr) :
    p.segment i instr = .ok (p.segmentAt i) := by
  have hok : ∃ l, p.segment i instr = .ok l := by
    unfold segment
    split
    · exact ⟨_, rfl⟩
    unfold image
    split
    · exact ⟨_, rfl⟩
    split
    · exact ⟨_, rfl⟩
    split
    · next e he => exact absurd he (hp.deferral?_ne_error hcode e)
    · exact ⟨_, rfl⟩
    · exact ⟨_, rfl⟩
  obtain ⟨l, hl⟩ := hok
  rw [hl]
  simp [segmentAt, hcode, hl, Except.toOption]

/-- A constructor call that redoes nothing has a receiver that stays. -/
lemma Founded.stays_of_deferral? (hp : p.Founded) (hf : p.subject.types.frames[i]? = some (some f))
    {m : Member} (hm : constructor? instr = some m) {n : Nat} {cls : Text} {copied : Bool}
    {below : List SlotType}
    (hdrop : f.stack.drop (Descriptor.argCount m.desc).toNat = .pending n cls copied :: below)
    (hdef : p.deferral? i instr = .ok none) : p.isOmitted n = false := by
  cases homitted : p.isOmitted n with
  | false => rfl
  | true =>
      obtain ⟨site, hsite, -⟩ := hp.site_of_isOmitted homitted
      simp only [deferral?, hm, hf, Option.join_some, hdrop, homitted, hsite, Bool.not_true,
        Bool.false_eq_true, if_false] at hdef
      split at hdef
      · split at hdef <;> cases hdef
      · cases hdef

/-! ## What an instruction does to the entries that stay -/

/-- The `new` and the `dup` of a construction that is left out are dropped. -/
lemma isDropped_of_site {site : Site} (hmem : site ∈ p.subject.types.sites)
    (homitted : p.isOmitted site.newAt = true) (hi : site.newAt = i ∨ site.dupAt = some i) :
    p.isDropped i = true :=
  List.any_eq_true.mpr ⟨site, hmem, by simpa [homitted] using hi⟩

/-- **A dropped instruction** changes none of the entries that stay. -/
lemma Founded.kept_dropped (hp : p.Founded) (hf : p.subject.types.frames[i]? = some (some f))
    (hcode : p.code[i]? = some instr)
    (htr : Frame.Transition p.subject.types.sites i instr f after) (hd : p.isDropped i = true) :
    p.kept after.stack = p.kept f.stack ∧ (instr.opcode = .new ∨ instr.opcode = .dup) := by
  obtain ⟨site, hsite, hi⟩ := List.any_eq_true.mp hd
  simp only [Bool.and_eq_true, Bool.or_eq_true, beq_iff_eq] at hi
  obtain ⟨homitted, rfl | hdup⟩ := hi
  · -- its `new`
    have hnew := hp.certified.sites.new_at site hsite
    change p.code[site.newAt]? = _ at hnew
    rw [hcode] at hnew
    cases hnew
    refine ⟨?_, Or.inl rfl⟩
    cases htr with
    | begin => simp [kept_cons, leavesOut, homitted]
    | plain _ shape => cases shape <;> simp_all [Opcode.hasFixedEffect]
    | _ => simp_all
  · -- its `dup`, which finds the reference of `new` on top
    obtain ⟨instr', hinstr', hop⟩ := hp.certified.sites.dup_at site hsite i hdup
    change p.code[i]? = _ at hinstr'
    rw [hcode] at hinstr'
    cases hinstr'
    refine ⟨?_, Or.inr hop⟩
    have hpinned := hp.not_pinned homitted
    obtain ⟨f', hf', hkept⟩ := hp.certified.copies site hsite i hdup
    rw [hf] at hf'
    cases hf'
    obtain ⟨cls, rest, hs⟩ := hkept.resolve_left hpinned
    cases htr with
    | copy _ hs' _ =>
        rw [hs] at hs'
        cases hs'
        simp [kept_cons, leavesOut, homitted]
    | plain hs' shape free =>
        cases shape with
        | dup =>
            rw [hs] at hs'
            cases hs'
            exact absurd (free _ List.mem_cons_self) hpinned
        | _ => simp_all [Opcode.hasFixedEffect]
    | _ => simp_all

/-- **An instruction that stays** does to the entries that stay what it does to all of them. -/
lemma Typed.kept_plain (hp : p.Typed) (hf : p.subject.types.frames[i]? = some (some f))
    (htr : Frame.Transition p.subject.types.sites i instr f after) (hd : p.isDropped i = false)
    (hdef : p.deferral? i instr = .ok none) :
    ∃ pops pushes, instr.delta = .ok (pops, pushes) ∧ pops ≤ p.kept f.stack
      ∧ p.kept after.stack = p.kept f.stack - pops + pushes := by
  cases htr with
  | @plain used put rest hs shape free =>
      have hput := hp.kept_of_free (shape.free free (hp.orderly hf).locals)
      have hused := hp.kept_of_free free
      refine ⟨_, _, shape.delta, ?_, ?_⟩
      · rw [hs, kept_append]
        omega
      · rw [hs]
        simp only [kept_append]
        omega
  | @store k n t rest hop ho hs hn hk free =>
      refine ⟨1, 0, by obtain ⟨op, operand⟩ := instr; obtain rfl := hop; rfl, ?_, ?_⟩
      · simp [hs, kept_cons, hp.leavesOut_of_free free]
      · simp [hs, kept_cons, hp.leavesOut_of_free free]
  | @begin cls hop ho =>
      have hstays : p.leavesOut (.pending i cls false) = false := by
        cases homitted : p.isOmitted i with
        | false => exact homitted
        | true =>
            obtain ⟨site, -, hmem, rfl, -⟩ := hp.site_of_isOmitted homitted
            rw [isDropped_of_site hmem homitted (Or.inl rfl)] at hd
            cases hd
      refine ⟨0, 1, by obtain ⟨op, operand⟩ := instr; obtain rfl := hop; rfl, by omega, ?_⟩
      simp [kept_cons, hstays, Nat.add_comm]
  | @copy n cls rest hop hs hc =>
      have hstays : p.isOmitted n = false := by
        cases homitted : p.isOmitted n with
        | false => rfl
        | true =>
            obtain ⟨site, hmem, rfl, hdup⟩ := hc
            rw [isDropped_of_site hmem homitted (Or.inr hdup)] at hd
            cases hd
      refine ⟨1, 2, by obtain ⟨op, operand⟩ := instr; obtain rfl := hop; rfl, ?_, ?_⟩
      · simp [hs, kept_cons, leavesOut, hstays]
      · simp only [hs, kept_cons, leavesOut, hstays]
        simp
        omega
  | @construct m d args rest n cls copied hop ho hname hparse hs hargs free hpair =>
      have hargs : args.length = d.params.length := by simpa using congrArg List.length hargs
      have hm : constructor? instr = some m := by
        obtain ⟨op, operand⟩ := instr
        obtain rfl := hop
        obtain rfl := ho
        simp [constructor?, hname]
      have hdrop : f.stack.drop (Descriptor.argCount m.desc).toNat
          = .pending n cls copied :: rest := by
        have hcount : (Descriptor.argCount m.desc).toNat = args.length := by
          simp [Descriptor.argCount, hparse, hargs]
        rw [hs, hcount, List.drop_left]
      have hstays := hp.stays_of_deferral? hf hm hdrop hdef
      have hdelta : instr.delta = .ok (args.length + 1, (if d.isVoid then 0 else 1)) := by
        obtain ⟨op, operand⟩ := instr
        obtain rfl := hop
        obtain rfl := ho
        simp [Instruction.delta, Opcode.effect?, Opcode.shuffle?, Opcode.memberDelta, hparse, hargs]
      have hkept := hp.kept_of_free free
      refine ⟨_, _, hdelta, ?_, ?_⟩
      · simp [hs, kept_cons, leavesOut, hstays, hkept]
      · rw [kept_append, kept_map_completed (Or.inl hstays), kept_result]
        simp only [hs, kept_append, kept_cons, leavesOut, hstays, hkept]
        simp
        omega

/-- **A constructor call whose construction is redone** finds its arguments above what stays, and
leaves the object there, with its result if it has one. -/
lemma Typed.kept_redone (hp : p.Typed) (hf : p.subject.types.frames[i]? = some (some f))
    (htr : Frame.Transition p.subject.types.sites i instr f after) {d : Deferral}
    (hdef : p.deferral? i instr = .ok (some d)) :
    ∃ e pushes, p.kept f.stack = d.args.length + e
      ∧ instr.delta = .ok (d.args.length + 1, pushes) ∧ p.kept after.stack = e + 1 + pushes
      ∧ ∀ t ∈ d.args, t.kind? ≠ none := by
  obtain ⟨m, f', cls, cls', dupAt, below, hr⟩ := deferral?_eq_some hdef
  have hf' := hr.frame_at
  rw [hf] at hf'
  cases hf'
  obtain ⟨hop, ho, -⟩ := constructor?_eq_some hr.constructor
  have hdrop : f.stack.drop (Descriptor.argCount m.desc).toNat
      = .pending d.site.newAt cls true :: .pending d.site.newAt cls' false :: below := by
    rw [hr.stack, ← hr.args, List.drop_left]
  obtain ⟨dm, args, rest, hparse, hargs, free, hs, -, hbelow, rfl⟩ :=
    hp.constructs htr hr.constructor hdrop hr.omitted
  cases hbelow
  have hlen : d.args.length = args.length := by
    rw [hr.args, hargs]
    simp [Descriptor.argCount, hparse]
  have hsame : d.args = args := by
    have := hr.stack.symm.trans hs
    exact (List.append_inj this hlen).1
  subst hsame
  have hplaced := (hp.orderly hf).stack
  have husable := hplaced.usable
  rw [hs] at hplaced husable
  have hnot := FrameTypes.AllPlaced.not_mem (hp.not_pinned hr.omitted)
    (FrameTypes.AllPlaced.of_append hplaced).2
  have homitted := hr.omitted
  refine ⟨p.kept below, if dm.isVoid then 0 else 1, ?_, ?_, ?_,
    fun t ht => husable t (List.mem_append_left _ ht)⟩
  · rw [hs, kept_append, hp.kept_of_free free]
    simp [kept_cons, leavesOut, homitted]
  · obtain ⟨op, operand⟩ := instr
    obtain rfl := hop
    obtain rfl := ho
    simp [Instruction.delta, Opcode.effect?, Opcode.shuffle?, Opcode.memberDelta, hparse, hargs]
  · rw [kept_append, kept_result, List.map_cons, kept_cons, kept_map_completed (Or.inr hnot)]
    simp [Frame.completed, leavesOut]
    omega

end Plan

end Suspension
