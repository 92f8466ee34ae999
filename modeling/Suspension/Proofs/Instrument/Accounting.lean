import Suspension.Proofs.Instrument.Encoding

/-!
# What becomes of the methods of a class

Of each method that declares the suspend signal the report of its class tells what became of it, and only
methods that were transformed are exchanged.  All methods of a class share what is known about classes, and
what one of them makes known stays for the next.  Yet the view of the classes does not change, so **every
method is treated as if it were the only one**.

* `Instrumenter.Treats` — what may become of a method, and why.
* `ClassReport.ofTreatments` — the report that follows from the treatments.
* `Instrumenter.onClass_accounts` — a class.
-/

namespace Suspension

open Hierarchy

/-! ## One method -/

/-- A method has no suspension point, as far as its frames can be told. -/
def Method.Pointless (src : ClassSource) (policy : Policy) (owner : Text) (m : Method) (h : Hierarchy) :
    Prop :=
  ∃ types h',
    (Analysis.run { source := src, sink := src.sink, owner, method := m }).run h = (.ok types, h')
    ∧ ((SuspensionPoint.collect (m.subject src policy owner types)).run h').1 = .ok []

/-- **A method is left as it is** only if it has no suspension point. -/
lemma Method.pointless_of_transform {src : ClassSource} {policy : Policy} {owner : Text} {m : Method}
    {h h' : Hierarchy} (ht : (Method.transform src policy owner m).run h = (.ok none, h')) :
    m.Pointless src policy owner h := by
  obtain ⟨types, h₁, hr, ht⟩ := transform_eq_ok ht
  refine ⟨types, h₁, hr, ?_⟩
  simp only [Subject.transform, Query.run_bind] at ht
  cases hc : (SuspensionPoint.collect (m.subject src policy owner types)).run h₁ with
  | mk rc h₂ =>
  rw [hc] at ht
  cases rc with
  | error e => cases ht
  | ok points =>
  cases points with
  | nil => rfl
  | cons q qs =>
      simp only [Query.run_bind] at ht
      split at ht
      · cases ht
      simp only [Query.run_bind] at ht
      split at ht
      · cases ht
      simp only [Query.run_bind, Query.run_pure] at ht
      generalize Plan.generate _ = g at ht
      cases g <;> cases ht

namespace Instrumenter

variable {i : Instrumenter} {owner : Text} {h h₁ h₂ : Hierarchy} {V : ClassView}

/-- **What may become of a method, and why.** -/
inductive Treats (i : Instrumenter) (owner : Text) (h : Hierarchy) (m : Method) : Treatment → Prop
  | silent (hm : m.declares ClassName.suspendSignal = false) : Treats i owner h m .untouched
  | pointless (hm : i.Eligible m) (hpoints : m.Pointless i.source i.policy owner h) :
      Treats i owner h m .untouched
  | special (hm : m.declares ClassName.suspendSignal = true)
      (hname : m.name.startsWith (Text.ofString "<") = true) : Treats i owner h m .skipped
  | bodiless (hm : m.declares ClassName.suspendSignal = true) (hbody : m.hasBody = false) :
      Treats i owner h m .skipped
  | synchronized (hm : m.declares ClassName.suspendSignal = true)
      (hname : m.name.startsWith (Text.ofString "<") = false) (hbody : m.hasBody = true)
      (hsync : m.isSynchronized = true) (hallow : i.policy.allowMonitors = false) :
      Treats i owner h m (.failed (.unableToInstrument owner m.name m.desc "synchronized method"))
  | failed {e : Fault} (hm : i.Eligible m)
      (he : ((m.transform i.source i.policy owner).run h).1 = .error e) : Treats i owner h m (.failed e)
  | invalid {m' : Method} {e : MethodFault} (hm : i.Eligible m)
      (hm' : ((m.transform i.source i.policy owner).run h).1 = .ok (some m'))
      (hcheck : i.policy.check = true) (he : m'.validate = .error e) :
      Treats i owner h m (.failed (Fault.ofReport
        { phase := Phase.validate, kind := FaultKind.invalidData, cls := owner, method := m.key,
          detail := "rewritten method does not validate" } (some (.plain e.message))))
  | instrumented {m' : Method} (hm : i.Eligible m)
      (hm' : ((m.transform i.source i.policy owner).run h).1 = .ok (some m'))
      (hcheck : i.policy.check = true → m'.validate = .ok ())
      (hname : m'.name = m.name) (hdesc : m'.desc = m.desc) (hflags : m'.flags = m.flags)
      (hthrows : m'.throws = m.throws) : Treats i owner h m (.instrumented m')
  | endless (hm : i.Eligible m)
      (hr : ((m.transform i.source i.policy owner).run h).1 = .endless) : Treats i owner h m .endless

/-- **Every method is treated for one of the reasons.** -/
lemma treats (i : Instrumenter) (owner : Text) (h : Hierarchy) (m : Method) :
    i.Treats owner h m ((i.treat owner m).run h).1 := by
  unfold treat
  split
  · next hm => exact .silent (by simpa using hm)
  next hm =>
  have hm : m.declares ClassName.suspendSignal = true := by simpa using hm
  split
  · next hname => exact .special hm hname
  next hname =>
  split
  · next hbody => exact .bodiless hm (by simpa using hbody)
  next hbody =>
  split
  · next hsync =>
      simp only [Bool.and_eq_true, Bool.not_eq_true'] at hsync
      exact .synchronized hm (by simpa using hname) (by simpa using hbody) hsync.1 hsync.2
  next hsync =>
  have helig : i.Eligible m :=
    ⟨hm, by simpa using hname, by simpa using hbody, by simpa using hsync⟩
  simp only [Query.run_bind]
  cases hr : (m.transform i.source i.policy owner).run h with
  | mk r h' =>
  have hfst : ((m.transform i.source i.policy owner).run h).1 = r := by rw [hr]
  cases r with
  | error e => exact .failed helig hfst
  | endless => exact .endless helig hfst
  | ok o =>
  cases o with
  | none => exact .pointless helig (Method.pointless_of_transform hr)
  | some m' =>
  simp only [Query.run_pure, checked]
  split
  · next hcheck =>
      obtain ⟨p, hp⟩ := Method.transform_makes hr
      obtain ⟨hname', hdesc', hflags', hthrows'⟩ := hp.method_eq ▸ Plan.generate_keeps hp.generate
      have hcheck : i.policy.check = false := by simpa using hcheck
      exact .instrumented helig hfst (by simp [hcheck]) hname' hdesc' hflags' hthrows'
  next hcheck =>
  have hcheck : i.policy.check = true := by simpa using hcheck
  split
  · next hvalid =>
      obtain ⟨p, hp⟩ := Method.transform_makes hr
      obtain ⟨hname', hdesc', hflags', hthrows'⟩ := hp.method_eq ▸ Plan.generate_keeps hp.generate
      exact .instrumented helig hfst (fun _ => hvalid) hname' hdesc' hflags' hthrows'
  · next e he => exact .invalid helig hfst hcheck he

/-- **Treatment depends on the view of the classes only.** -/
lemma treat_eq (hh₁ : h₁.Shows i.source V) (hh₂ : h₂.Shows i.source V) (owner : Text) (m : Method) :
    ((i.treat owner m).run h₁).1 = ((i.treat owner m).run h₂).1 :=
  (respects_treat (lasting_sameView i.source V) owner m ⟨hh₁, hh₂⟩).1

end Instrumenter

/-! ## One class -/

/-- What stands in the place of a method after its treatment. -/
def Treatment.result (m : Method) : Treatment → Method
  | .instrumented m' => m'
  | _ => m

/-- **The report of a class whose methods were treated.**  A method is in the list that fits its treatment,
or in none if it is untouched. -/
def ClassReport.ofTreatments (cls : Text) (ts : List (Method × Treatment)) : ClassReport where
  cls := cls
  instrumented := ts.filterMap fun (m, t) => match t with
    | .instrumented _ => some m.key
    | _ => none
  skipped := ts.filterMap fun (m, t) => match t with
    | .skipped => some m.key
    | _ => none
  failures := ts.filterMap fun (m, t) => match t with
    | .failed e => some ⟨cls, m.key, e⟩
    | _ => none

/-- A report continued by another one. -/
def ClassReport.append (r r' : ClassReport) : ClassReport where
  cls := r.cls
  instrumented := r.instrumented ++ r'.instrumented
  skipped := r.skipped ++ r'.skipped
  failures := r.failures ++ r'.failures

namespace Instrumenter

variable {i : Instrumenter} {owner : Text} {h h₀ : Hierarchy} {V : ClassView} {c : Class}

/-- **The treatment of a method of a class at hand**, as if there were no other method. -/
def treatment (i : Instrumenter) (h : Hierarchy) (c : Class) (m : Method) : Treatment :=
  ((i.treat c.name m).run ((record i.source c).run h).2).1

/-- **One method after another is treated as if it were the only one.** -/
lemma run_treatAll (hh₀ : h₀.Shows i.source V) (hh : h.Shows i.source V) {ms : List Method}
    (hends : ∀ m ∈ ms, ((i.treat owner m).run h₀).1 ≠ .endless) (r : ClassReport) :
    ((i.treatAll owner ms r).run h).1
      = some (ms.map fun m => ((i.treat owner m).run h₀).1.result m,
          r.append (.ofTreatments owner (ms.map fun m => (m, ((i.treat owner m).run h₀).1)))) := by
  induction ms generalizing h r with
  | nil =>
      simp only [treatAll, ClassReport.append, ClassReport.ofTreatments, List.map_nil,
        List.filterMap_nil, List.append_nil]
      rfl
  | cons m rest ih =>
      obtain ⟨hfirst, hrest⟩ := List.forall_mem_cons.mp hends
      have heq := treat_eq hh hh₀ owner m
      have hafter := shows_treat hh owner m
      unfold treatAll
      simp only [Query.run_bind, heq, List.map_cons]
      generalize ((i.treat owner m).run h₀).1 = t at hfirst
      cases t with
      | endless => exact absurd rfl hfirst
      | untouched | skipped | instrumented m' =>
          simp only [Query.run_bind, Query.run_pure, ih hafter hrest]
          simp [Treatment.result, ClassReport.append, ClassReport.ofTreatments]
      | failed e =>
          have hlogged := (respects_send (V := V) i.source.sink .error "unable to instrument method"
            [("class", .text owner), ("method", .text m.key), ("error", .text e.text)]
            ⟨hafter, hafter⟩).2.1
          simp only [Query.run_bind, Query.run_pure, ih hlogged hrest]
          simp [Treatment.result, ClassReport.append, ClassReport.ofTreatments]

/-- **One treatment that goes on for ever is enough** for all of them to do so. -/
lemma run_treatAll_endless (hh₀ : h₀.Shows i.source V) (hh : h.Shows i.source V) {ms : List Method}
    (hendless : ∃ m ∈ ms, ((i.treat owner m).run h₀).1 = .endless) (r : ClassReport) :
    ((i.treatAll owner ms r).run h).1 = none := by
  induction ms generalizing h r with
  | nil => simp at hendless
  | cons m rest ih =>
      have hlater : ((i.treat owner m).run h₀).1 ≠ .endless →
          ∃ m' ∈ rest, ((i.treat owner m').run h₀).1 = .endless := by
        obtain ⟨m', hm', hendless⟩ := hendless
        rcases List.mem_cons.mp hm' with rfl | hm'
        · exact fun hne => absurd hendless hne
        · exact fun _ => ⟨m', hm', hendless⟩
      have heq := treat_eq hh hh₀ owner m
      have hafter := shows_treat hh owner m
      unfold treatAll
      simp only [Query.run_bind, heq]
      generalize ((i.treat owner m).run h₀).1 = t at hlater
      cases t with
      | endless => rfl
      | untouched | skipped | instrumented m' =>
          simp only [Query.run_bind, Query.run_pure, ih hafter (hlater Treatment.noConfusion), Option.map_none]
      | failed e =>
          have hlogged := (respects_send (V := V) i.source.sink .error "unable to instrument method"
            [("class", .text owner), ("method", .text m.key), ("error", .text e.text)]
            ⟨hafter, hafter⟩).2.1
          simp only [Query.run_bind, Query.run_pure, ih hlogged (hlater Treatment.noConfusion), Option.map_none]

/-- The report of a class at hand. -/
def reportOf (i : Instrumenter) (h : Hierarchy) (c : Class) : ClassReport :=
  .ofTreatments c.name (c.methods.map fun m => (m, i.treatment h c m))

/-- The class that is put in the place of a class at hand, when some method was transformed. -/
def transformed (i : Instrumenter) (h : Hierarchy) (c : Class) : Class :=
  { c with
    methods := c.methods.map fun m => (i.treatment h c m).result m
    annotations := c.annotations ++ [ClassName.instrumentedMark] }

/-- Where no method was transformed all stand as they were. -/
lemma map_result {ts : List (Method × Treatment)}
    (hnone : (ClassReport.ofTreatments owner ts).instrumented = []) :
    (ts.map fun (m, t) => t.result m) = ts.map Prod.fst := by
  refine List.map_congr_left fun ⟨m, t⟩ hmem => ?_
  cases t with
  | instrumented m' =>
      have hlisted := List.filterMap_eq_nil_iff.mp hnone _ hmem
      cases hlisted
  | untouched | skipped | failed | endless => rfl

/-- **While requests are served, what is known shows a view.** -/
lemma Served.shows (hh : i.Served h) : ∃ V, h.Shows i.source V := by
  have hlasting : Lasting i.source (Holding fun h => ∃ V, h.Shows i.source V) :=
    lasting_holding (fun _ ⟨V, hV⟩ => ⟨V, hV.congr rfl rfl⟩) fun hl ⟨V, hV⟩ => ⟨V, hV.learns hl⟩
  have hrecord (c : Class) :
      Query.Respects (Holding fun h => ∃ V, h.Shows i.source V) (record i.source c) :=
    Query.respects_holding.mpr fun _ ⟨_, hV⟩ => ⟨_, hV.record c⟩
  induction hh with
  | start => exact ⟨_, shows_empty i.source⟩
  | bytes data _ ih =>
      exact Query.respects_holding.mp (respects_onBytes hlasting fun c _ => hrecord c) _ ih
  | transform _ _ ih => exact Query.respects_holding.mp (respects_onClass hlasting (hrecord _)) _ ih
  | load _ _ ih => exact Query.respects_holding.mp (respects_onLoad hlasting (hrecord _)) _ ih
  | question cls name desc _ ih =>
      exact Query.respects_holding.mp (hlasting.isSuspendable cls name desc true) _ ih
  | invalidation cls _ ih =>
      obtain ⟨V, hV⟩ := ih
      exact hV.invalidate cls

/-- **What becomes of a class.**  Classes that are left alone come back as they are, with an empty report.
Of any other class the report lists each method by its treatment, in order; what stands in the place of a
method follows from its treatment; and nothing else of the class changes but for the mark, which it has if
some method was transformed.  Only if a treatment goes on for ever there is no outcome, and none does where
chains of superclasses are finite and do not lead to the null constant.  The treatment of a method is what it
would be without the other methods, and depends on nothing but the method, the view of the classes, and the
facts about the class at hand. -/
theorem onClass_accounts (i : Instrumenter) (hh : h.Shows i.source V) (c : Class) :
    (i.LeavesAlone c → ((i.onClass c).run h).1 = some (none, { cls := c.name }))
    ∧ (¬ i.LeavesAlone c → (∀ m ∈ c.methods, i.treatment h c m ≠ .endless) →
        ∃ c? report, ((i.onClass c).run h).1 = some (c?, report)
        ∧ report = .ofTreatments c.name (c.methods.map fun m => (m, i.treatment h c m))
        ∧ c?.getD c = { c with
            methods := c.methods.map fun m => (i.treatment h c m).result m
            annotations := c.annotations ++
              if report.instrumented = [] then [] else [ClassName.instrumentedMark] }
        ∧ (c? = none ↔ report.instrumented = []))
    ∧ (¬ i.LeavesAlone c → (∃ m ∈ c.methods, i.treatment h c m = .endless) →
        ((i.onClass c).run h).1 = none)
    ∧ (ClassView.Grounded (Function.update V c.name (.known (.ofClass c))) →
        ∀ m, i.treatment h c m ≠ .endless)
    ∧ (∀ m ∈ c.methods, i.Treats c.name ((record i.source c).run h).2 m (i.treatment h c m))
    ∧ ∀ h' c', h'.Shows i.source V → c'.name = c.name → ClassFacts.ofClass c' = ClassFacts.ofClass c →
        ∀ m, i.treatment h' c' m = i.treatment h c m := by
  have hrecorded := hh.record c
  refine ⟨run_onClass_leavesAlone, fun hc hends => ?_, fun hc hendless => ?_,
    fun hV m => treat_ne_endless hV hrecorded m, fun m _ => treats i c.name _ m,
    fun h' c' hh' hname hfacts m => ?_⟩
  · refine ⟨if (i.reportOf h c).instrumented = [] then none else some (i.transformed h c),
      i.reportOf h c, ?_, rfl, ?_⟩
    · rw [run_onClass hc, run_treatAll hrecorded hrecorded hends]
      rfl
    by_cases hnone : (i.reportOf h c).instrumented = []
    · have hsame := map_result hnone
      simp only [List.map_map] at hsame
      have hmethods : (c.methods.map fun m => (i.treatment h c m).result m) = c.methods :=
        hsame.trans (List.map_id _)
      refine ⟨?_, iff_of_true (if_pos hnone) hnone⟩
      simp only [hmethods, if_pos hnone, List.append_nil]
      rfl
    · exact ⟨by rw [if_neg hnone, if_neg hnone]; rfl, iff_of_false (by rw [if_neg hnone]; simp) hnone⟩
  · rw [run_onClass hc, run_treatAll_endless hrecorded hrecorded hendless]
    rfl
  · have hview := hh'.record c'
    rw [hname, hfacts] at hview
    unfold treatment
    rw [hname]
    exact treat_eq hview hrecorded c.name m

end Instrumenter

/-- A class with a method of each fate: transformed, left as it is, left out as a constructor and for want
of a body, refused as synchronized, and failing because its code falls off the end. -/
def mixedClass : Class where
  name := "A"
  super := ClassName.object
  methods := [
    { name := "f", desc := "()V", flags := Flag.staticBit, throws := [ClassName.suspendSignal]
      code := #[.member (.invoke .static) "A" "f" "()V", .plain .returnVoid] },
    { name := "g", desc := "()V", flags := Flag.staticBit, throws := [ClassName.suspendSignal]
      code := #[.plain .returnVoid] },
    { name := "<init>", desc := "()V", throws := [ClassName.suspendSignal], maxLocals := 1
      code := #[.plain .returnVoid] },
    { name := "h", desc := "()V", flags := Flag.abstractBit, throws := [ClassName.suspendSignal] },
    { name := "s", desc := "()V", flags := Flag.staticBit ||| Flag.synchronizedBit
      throws := [ClassName.suspendSignal]
      code := #[.member (.invoke .static) "A" "f" "()V", .plain .returnVoid] },
    { name := "e", desc := "()V", flags := Flag.staticBit, throws := [ClassName.suspendSignal]
      code := #[.member (.invoke .static) "A" "f" "()V"] }]

/-- The theorem at this class. -/
theorem mixedClass_accounts :
    ({} : Hierarchy).Shows {} ({} : ClassSource).entryOf ∧ ¬ ({} : Instrumenter).LeavesAlone mixedClass
      ∧ (∀ m, ({} : Instrumenter).treatment {} mixedClass m ≠ .endless)
      ∧ ∃ c? report, ((({} : Instrumenter).onClass mixedClass).run {}).1 = some (c?, report)
        ∧ report = .ofTreatments "A"
            (mixedClass.methods.map fun m => (m, ({} : Instrumenter).treatment {} mixedClass m))
        ∧ report.instrumented = ["f()V"] ∧ report.skipped = ["<init>()V", "h()V"]
        ∧ report.failures.map (·.method) = ["s()V", "e()V"] := by
  have hshows : ({} : Hierarchy).Shows {} ({} : ClassSource).entryOf := Hierarchy.shows_empty {}
  have hc : ¬ ({} : Instrumenter).LeavesAlone mixedClass := by
    unfold Instrumenter.LeavesAlone
    decide +kernel
  obtain ⟨-, haccounts, -, hends, -⟩ := Instrumenter.onClass_accounts {} hshows mixedClass
  have hends := hends (ClassView.grounded_single (by decide) rfl)
  obtain ⟨c?, report, hrun, hreport, -⟩ := haccounts hc fun m _ => hends m
  have hlists : ((({} : Instrumenter).onClass mixedClass).run {}).1.any
    (fun outcome : Instrumenter.ClassOutcome =>
      decide (outcome.2.instrumented = ["f()V"] ∧ outcome.2.skipped = ["<init>()V", "h()V"]
        ∧ outcome.2.failures.map (·.method) = ["s()V", "e()V"])) = true := by decide +kernel
  rw [hrun] at hlists
  exact ⟨hshows, hc, hends, c?, report, hrun, hreport, of_decide_eq_true hlists⟩

end Suspension
