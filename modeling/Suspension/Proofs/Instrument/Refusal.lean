import Suspension.Proofs.Instrument.Points

/-!
# Why a method is refused

A method whose frames are known is refused for one of four reasons: it calls for its suspension in a
way that cannot suspend it, it blocks the thread, it holds monitors across a suspension, or it catches
the suspend signal.  What else could go wrong is a failure to generate the body, and is told apart
here.

* `Subject.Refuses` — the reasons, each with the fault that reports it.
* `SuspensionPoint.collect_refuses` — the search for points fails only for such a reason.
* `Subject.transform_cases` — what becomes of a method whose frames are known.
-/

namespace Suspension

namespace Subject

/-- A reached call of a method. -/
structure Calls (s : Subject) (position : Nat) (instr : Instruction) (callee : Member) : Prop where
  code_at : s.method.code[position]? = some instr
  reached : ∃ f, s.types.frames[position]? = some (some f)
  callee : instr.callee? = some callee

/-- Whether a call may suspend, as far as the classes are known at some time. -/
def Answers (s : Subject) (instr : Instruction) (callee : Member) (suspends : Bool) : Prop :=
  ∃ h, ((Hierarchy.isSuspendable s.source callee.owner callee.name callee.desc
    instr.opcode.searchesSupers).run h).1 = suspends

/-- A method has suspension points, if the search for them begins with what is known. -/
def Suspends (s : Subject) (known : Hierarchy) : Prop :=
  ∃ points h', (SuspensionPoint.collect s).run known = (.ok points, h') ∧ points ≠ []

/-- **The reasons to refuse a method**, each with its fault. -/
inductive Refuses (s : Subject) (known : Hierarchy) : Fault → Prop where
  /-- a request to suspend that is not static -/
  | badYield {position : Nat} {instr : Instruction} {callee : Member}
      (hcall : s.Calls position instr callee) (hyield : callee.isYield = true)
      (hsuspends : s.Answers instr callee true) (hop : instr.opcode ≠ .invoke .static) :
      Refuses s known (s.unable (Text.ofString "invalid call to yield at instruction "
        ++ Text.ofNat position))
  /-- a call that blocks the thread -/
  | blocking {position row : Nat} {instr : Instruction} {callee : Member}
      (hcall : s.Calls position instr callee) (hrow : blockingRow? callee = some row)
      (hsuspends : s.Answers instr callee false) (hpolicy : s.policy.allowBlocking = false) :
      Refuses s known (s.unable (Text.ofString "blocking call to " ++ callee.target))
  /-- a monitor in a method with suspension points -/
  | monitors (hpoints : s.Suspends known) (hmonitors : s.hasMonitors = true)
      (hpolicy : s.policy.allowMonitors = false) : Refuses s known (s.unable "synchronization")
  /-- a handler of the suspend signal in a method with suspension points -/
  | catchesSignal {r : ExceptionRange} (hpoints : s.Suspends known) (hr : r ∈ s.method.ranges)
      (htype : r.type = ClassName.suspendSignal) :
      Refuses s known (s.unable (Text.ofString "catch for " ++ ClassName.suspendSignal))

end Subject

namespace PointSearch

variable {s : Subject} {known : Hierarchy}

/-- What the answers about a call say about its kind. -/
lemma callKind_refused {op : Opcode} {m : Member} {h h' : Hierarchy} {kind : CallKind}
    (hk : (callKind s.source op m).run h = (kind, h')) :
    (kind = .badYield → m.isYield = true ∧ op ≠ .invoke .static
      ∧ ((Hierarchy.isSuspendable s.source m.owner m.name m.desc op.searchesSupers).run h).1 = true) ∧
    (∀ row, kind = .blocks row → blockingRow? m = some row
      ∧ ((Hierarchy.isSuspendable s.source m.owner m.name m.desc op.searchesSupers).run h).1
        = false) := by
  unfold callKind at hk
  split at hk
  · cases hk
    exact ⟨by simp, by simp⟩
  · simp only [Query.run_bind] at hk
    generalize (Hierarchy.isSuspendable s.source m.owner m.name m.desc op.searchesSupers).run h = r
      at hk ⊢
    obtain ⟨b, h₁⟩ := r
    cases b with
    | true =>
        simp only [if_true] at hk
        split at hk
        · next hy =>
            split at hk
            · cases hk
              exact ⟨by simp, by simp⟩
            · next hop =>
                cases hk
                exact ⟨fun _ => ⟨hy, by simpa using hop, rfl⟩, by simp⟩
        · cases hk
          exact ⟨by simp, by simp⟩
    | false =>
        simp only [Bool.false_eq_true, if_false] at hk
        split at hk
        · next row hrow =>
            cases hk
            refine ⟨by simp, fun row' heq => ?_⟩
            cases heq
            exact ⟨hrow, rfl⟩
        · cases hk
          exact ⟨by simp, by simp⟩

/-- **One instruction is refused** as a request that cannot suspend or as a blocking call. -/
lemma visit_refuses {acc : PointSearch} {position : Nat} {instr : Instruction} {f : Frame}
    {h h' : Hierarchy} {e : Fault} (hcode : s.method.code[position]? = some instr)
    (hf : s.types.frames[position]? = some (some f))
    (hv : (visit s acc position instr f).run h = (.error e, h')) : s.Refuses known e := by
  unfold visit at hv
  split at hv
  · cases hv
  next m hm =>
  have hcall : s.Calls position instr m := ⟨hcode, ⟨f, hf⟩, hm⟩
  simp only [Query.run_bind] at hv
  cases hk : (callKind s.source instr.opcode m).run h with
  | mk kind h₁ =>
      rw [hk] at hv
      obtain ⟨hbad, hblocks⟩ := callKind_refused hk
      cases kind with
      | badYield =>
          cases hv
          obtain ⟨hyield, hop, hsuspends⟩ := hbad rfl
          exact .badYield hcall hyield ⟨h, hsuspends⟩ hop
      | blocks row =>
          obtain ⟨hrow, hsuspends⟩ := hblocks row rfl
          simp only [block] at hv
          split at hv
          · next hpolicy =>
              cases hv
              exact .blocking hcall hrow ⟨h, hsuspends⟩ (by simpa using hpolicy)
          · split at hv
            · cases hv
            · simp only [Query.run_bind, Query.run_pure] at hv
              cases hv
      | plain => cases hv
      | reflective => simp only [Query.run_bind, Query.run_pure] at hv; cases hv
      | yields => simp only [Query.run_bind, Query.run_pure] at hv; cases hv
      | suspends => simp only [Query.run_bind, Query.run_pure] at hv; cases hv

lemma visitAll_refuses {instrs : List Instruction} {position : Nat} {acc : PointSearch}
    {h h' : Hierarchy} {e : Fault} (hcode : ∀ k, instrs[k]? = s.method.code[position + k]?)
    (hv : (visitAll s instrs position acc).run h = (.error e, h')) : s.Refuses known e := by
  induction instrs generalizing position acc h with
  | nil => cases hv
  | cons instr instrs ih =>
      have hrest : ∀ k, instrs[k]? = s.method.code[position + 1 + k]? := by
        intro k
        have := hcode (k + 1)
        rw [List.getElem?_cons_succ] at this
        rw [this, Nat.add_assoc, Nat.add_comm 1]
      unfold visitAll at hv
      split at hv
      · exact ih hrest hv
      · next f hf =>
          simp only [Query.run_bind] at hv
          cases hvisit : (visit s acc position instr f).run h with
          | mk r h₁ =>
              rw [hvisit] at hv
              cases r with
              | error e' =>
                  cases hv
                  exact visit_refuses (hcode 0).symm (Option.join_eq_some_iff.mp hf) hvisit
              | ok acc₁ => exact ih hrest hv

end PointSearch

/-- **The search for points fails only for a reason.** -/
lemma SuspensionPoint.collect_refuses {s : Subject} {known h h' : Hierarchy} {e : Fault}
    (hc : (SuspensionPoint.collect s).run h = (.error e, h')) : s.Refuses known e := by
  simp only [SuspensionPoint.collect, Query.run_bind] at hc
  cases hv : (PointSearch.visitAll s s.method.code.toList 0 {}).run h with
  | mk r h₁ =>
      rw [hv] at hc
      cases r with
      | error e' =>
          cases hc
          exact PointSearch.visitAll_refuses (by simp) hv
      | ok acc => cases hc

namespace Subject

variable {s : Subject} {known h' : Hierarchy}

/-- Monitors are refused when they are not allowed. -/
lemma checkMonitors_eq_error {h : Hierarchy} {e : Fault}
    (hc : s.checkMonitors.run h = (.error e, h')) :
    s.hasMonitors = true ∧ s.policy.allowMonitors = false ∧ e = s.unable "synchronization" := by
  unfold checkMonitors at hc
  split at hc
  · cases hc
  next hmonitors =>
  split at hc
  · next hpolicy =>
      cases hc
      exact ⟨by simpa using hmonitors, by simpa using hpolicy, rfl⟩
  · simp only [Query.run_bind, Query.run_pure] at hc
    cases hc

/-- **What becomes of a method whose frames are known**: it is refused for a reason, it has no points
and stays, or its points are found and the body is generated. -/
lemma transform_cases {r : Except Fault (Option Method)}
    (ht : s.transform.run known = (r, h')) :
    (∃ e, r = .error e ∧ s.Refuses known e) ∨ r = .ok none ∨
      ∃ points h₁, (SuspensionPoint.collect s).run known = (.ok points, h₁) ∧ points ≠ []
        ∧ (∀ r ∈ s.method.ranges, r.type ≠ ClassName.suspendSignal)
        ∧ r = (Plan.generate ⟨s, points⟩).map some := by
  simp only [transform, Query.run_bind] at ht
  cases hc : (SuspensionPoint.collect s).run known with
  | mk rc h₁ =>
      rw [hc] at ht
      cases rc with
      | error e =>
          cases ht
          exact Or.inl ⟨e, rfl, SuspensionPoint.collect_refuses hc⟩
      | ok points =>
          cases points with
          | nil =>
              cases ht
              exact Or.inr (Or.inl rfl)
          | cons q qs =>
              have hpoints : s.Suspends known := ⟨q :: qs, h₁, hc, by simp⟩
              simp only [Query.run_bind] at ht
              cases hm : s.checkMonitors.run h₁ with
              | mk rm h₂ =>
                  rw [hm] at ht
                  cases rm with
                  | error e =>
                      cases ht
                      obtain ⟨hmonitors, hpolicy, rfl⟩ := checkMonitors_eq_error hm
                      exact Or.inl ⟨_, rfl, .monitors hpoints hmonitors hpolicy⟩
                  | ok u =>
                      simp only [Query.run_bind] at ht
                      split at ht
                      · next hsignal =>
                          cases ht
                          obtain ⟨r, hr, htype⟩ := List.any_eq_true.mp hsignal
                          exact Or.inl ⟨_, rfl, .catchesSignal hpoints hr (by simpa using htype)⟩
                      · next hsignal =>
                          simp only [Query.run_bind, Query.run_pure] at ht
                          cases ht
                          refine Or.inr (Or.inr ⟨q :: qs, h₁, rfl, by simp, fun r hr htype => ?_, rfl⟩)
                          exact hsignal (List.any_eq_true.mpr ⟨r, hr, by simpa using htype⟩)

end Subject

end Suspension
