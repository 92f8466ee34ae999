import Suspension.Proofs.Instrument.Runtime

/-!
# Passing through generated code

A transformed method runs beside its frame stack in surroundings that may do anything, as long as what
is called leaves the frame stack as deep as it was and the suspend signal leaves the record of the method
alone.  **A run is balanced** when it has popped its record by the time it returns or an exception leaves
it, and when its record is that of a point whenever the suspend signal comes up there.

* `Running.Turn`, `Running.Ends` — one step in any surroundings, and the end of a run.
* `Running.Balanced` — a run ends well, as far as a number of steps goes.
* `Running.Passes` — generated code that is passed through: saving, restoring, redone constructions.
-/

namespace Suspension

/-- Requests that may run other code: calls, and whatever may initialise a class. -/
def Request.runsCode : Request → Bool
  | .invoke _ _ _ _ | .getStatic _ | .putStatic _ _ | .create _ | .raise _ _ => true
  | _ => false

/-- **An exception comes of a request.**  The frame stack is as deep as before, unless the exception is
the suspend signal, which leaves the current record as it is. -/
structure Surroundings.Throws (S : Surroundings) (r : Request) (obj : ObjectId)
    (s s' : FrameStack Value) : Prop where
  notFail : ∀ f, r ≠ .fail f
  thrown : ∀ o, r = .throw o → obj = o ∧ s' = s
  depth : ¬ S.IsSignal obj → s'.depth = s.depth
  record : S.IsSignal obj → s'.recordAt (s.depth - 1) = s.recordAt (s.depth - 1)

namespace Running

/-- How a run ends: with a value, or with an exception. -/
inductive Outcome where
  | returned (v : Value)
  | threw (obj : ObjectId)

/-- A request that is not answered by the runtime. -/
def Foreign (S : Surroundings) (p : Plan) (q : Nat) (s : FrameStack Value) (r : Request) : Prop :=
  ¬ (p.Own q ∧ (S.serve s r).isSome = true)

/-- **An exception comes up.** -/
inductive Raises (S : Surroundings) (p : Plan) (nm : Method) :
    Running → ObjectId → Activation → FrameStack Value → Prop where
  | mk {a a' : Activation} {s s' : FrameStack Value} {r : Request} {obj : ObjectId}
      (h : a.step (.ofMethod nm) = .asks r a') (hforeign : Foreign S p a.pc s r)
      (hthrows : S.Throws r obj s s') : Raises S p nm ⟨a, s⟩ obj a' s'

/-- **One step in any surroundings**: what is asked for comes to an answer, or to an exception that is
caught.  What runs no other code leaves the frame stack alone, everything else leaves it as deep as it
was. -/
inductive Turn (S : Surroundings) (p : Plan) (nm : Method) : Running → Running → Prop where
  | advances {c c' : Running} (h : Advances S p nm c c') : Turn S p nm c c'
  | answered {a a' : Activation} {s s' : FrameStack Value} {r : Request} {v : Option Value}
      (h : a.step (.ofMethod nm) = .asks r a') (hforeign : Foreign S p a.pc s r)
      (hr : r.isExit = false) (hquiet : r.runsCode = false → s' = s) (hdepth : s'.depth = s.depth) :
      Turn S p nm ⟨a, s⟩ ⟨a'.answered v, s'⟩
  | caught {c : Running} {a' : Activation} {s' : FrameStack Value} {obj : ObjectId} {pc : Nat}
      (h : Raises S p nm c obj a' s')
      (hcaught : (Body.ofMethod nm).handlerFor (S.isA obj) a'.pc = some pc) :
      Turn S p nm c ⟨a'.caught pc obj, s'⟩

/-- **The end of a run.** -/
inductive Ends (S : Surroundings) (p : Plan) (nm : Method) :
    Running → Outcome → FrameStack Value → Prop where
  | returned {a : Activation} {s : FrameStack Value} {v : Value}
      (h : a.step (.ofMethod nm) = .returns v) : Ends S p nm ⟨a, s⟩ (.returned v) s
  | threw {c : Running} {a' : Activation} {s' : FrameStack Value} {obj : ObjectId}
      (h : Raises S p nm c obj a' s')
      (huncaught : (Body.ofMethod nm).handlerFor (S.isA obj) a'.pc = none) :
      Ends S p nm c (.threw obj) s'

variable {S : Surroundings} {p : Plan} {nm : Method} {C : Classes}

/-- A step that depends on nothing else is the only one. -/
lemma Advances.not_raises {c c' : Running} {obj : ObjectId} {a' : Activation} {s' : FrameStack Value}
    (h : Advances S p nm c c') : ¬ Raises S p nm c obj a' s' := by
  rintro ⟨hstep, hforeign, -⟩
  cases h with
  | next h =>
      rw [h] at hstep
      cases hstep
  | served hown h hserve =>
      rw [h] at hstep
      cases hstep
      exact hforeign ⟨hown, by rw [hserve]; rfl⟩

lemma Advances.not_ends {c c' : Running} {o : Outcome} {s' : FrameStack Value}
    (h : Advances S p nm c c') : ¬ Ends S p nm c o s' := by
  intro hends
  cases hends with
  | returned hret =>
      cases h with
      | next h =>
          rw [h] at hret
          cases hret
      | served _ h _ =>
          rw [h] at hret
          cases hret
  | threw hraises _ => exact h.not_raises hraises

lemma Advances.turn_eq {c c₁ c₂ : Running} (h : Advances S p nm c c₁) (ht : Turn S p nm c c₂) :
    c₂ = c₁ := by
  cases ht with
  | advances h' => exact h'.unique h
  | answered hstep hforeign _ _ _ =>
      cases h with
      | next h =>
          rw [h] at hstep
          cases hstep
      | served hown h hserve =>
          rw [h] at hstep
          cases hstep
          exact absurd ⟨hown, by rw [hserve]; rfl⟩ hforeign
  | caught hraises _ => exact absurd hraises h.not_raises

/-! ## Balanced runs -/

/-- The record of a method has been popped: the stack is as deep as before it was entered, and the record
is empty. -/
structure Left (d : Nat) (s : FrameStack Value) : Prop where
  depth : s.depth = d
  empty : s.recordAt d = .empty

/-- **The record of a method is that of a point**: it has the entry of the point, and as many slots as
the point needs. -/
structure Held (d : Nat) (pt : SuspensionPoint) (s : FrameStack Value) : Prop where
  entry : (s.recordAt d).entry = pt.entry
  objects : (s.recordAt d).objects.size = pt.plan.counts.objects
  prims : (s.recordAt d).prims.size = pt.plan.counts.prims

/-- **A run ends well, as far as a number of steps goes**: it has popped its record when it returns or
when an exception leaves it; when the suspend signal comes up at a point, the record is that of the
point. -/
def Balanced (S : Surroundings) (p : Plan) (nm : Method) (d : Nat) : Nat → Running → Prop
  | 0, _ => True
  | n + 1, c =>
    (∀ o s, Ends S p nm c o s → (∀ obj, o = .threw obj → ¬ S.IsSignal obj) → Left d s) ∧
    (∀ pt ∈ p.points, p.place pt.position ≤ c.act.pc → c.act.pc < p.place (pt.position + 1) →
      ∀ obj a s, Raises S p nm c obj a s → S.IsSignal obj → Held d pt s) ∧
    ∀ c', Turn S p nm c c' → Balanced S p nm d n c'

variable {d n : Nat}

lemma Balanced.of_succ {c : Running} (h : Balanced S p nm d (n + 1) c) : Balanced S p nm d n c := by
  induction n generalizing c with
  | zero => trivial
  | succ n ih => exact ⟨h.1, h.2.1, fun c' hc => ih (h.2.2 c' hc)⟩

lemma Balanced.mono {n' : Nat} {c : Running} (h : Balanced S p nm d n c) (hle : n' ≤ n) :
    Balanced S p nm d n' c := by
  induction hle with
  | refl => exact h
  | step _ ih => exact ih h.of_succ

/-- What is balanced behind a step is balanced in front of it. -/
lemma Balanced.before {c c' : Running} (h : Advances S p nm c c')
    (hb : Balanced S p nm d n c') : Balanced S p nm d (n + 1) c := by
  refine ⟨fun o s hends => absurd hends h.not_ends, ?_, fun c'' ht => ?_⟩
  · intro pt _ _ _ obj a s hraises
    exact absurd hraises h.not_raises
  · rw [h.turn_eq ht]
    exact hb

lemma Balanced.of_advances {c c' : Running} (h : Advances S p nm c c')
    (hb : Balanced S p nm d n c') : Balanced S p nm d n c := (hb.before h).of_succ

lemma Balanced.of_run {c c' : Running} (h : Relation.ReflTransGen (Advances S p nm) c c')
    (hb : Balanced S p nm d n c') : Balanced S p nm d n c := by
  induction h with
  | refl => exact hb
  | tail _ hstep ih => exact ih (hb.of_advances hstep)

/-- A run that goes no further. -/
lemma balanced_of_still {a : Activation} {s : FrameStack Value}
    (hadv : ∀ c', ¬ Advances S p nm ⟨a, s⟩ c') (hret : ∀ v, a.step (.ofMethod nm) ≠ .returns v)
    (hasks : ∀ r a', a.step (.ofMethod nm) = .asks r a' → ¬ Foreign S p a.pc s r) :
    Balanced S p nm d n ⟨a, s⟩ := by
  have hraises : ∀ {obj : ObjectId} {a' : Activation} {s' : FrameStack Value},
      ¬ Raises S p nm ⟨a, s⟩ obj a' s' := by
    rintro obj a' s' ⟨hstep, hforeign, -⟩
    exact hasks _ _ hstep hforeign
  cases n with
  | zero => trivial
  | succ n =>
      refine ⟨fun o s' hends => ?_, fun pt _ _ _ obj a' s' hr => absurd hr hraises, fun c' ht => ?_⟩
      · cases hends with
        | returned h => exact absurd h (hret _)
        | threw hr _ => exact absurd hr hraises
      · cases ht with
        | advances h => exact absurd h (hadv _)
        | answered h hforeign _ _ _ => exact absurd hforeign (hasks _ _ h)
        | caught hr _ => exact absurd hr hraises

lemma balanced_of_crash {a : Activation} {s : FrameStack Value}
    (h : a.step (.ofMethod nm) = .crash) : Balanced S p nm d n ⟨a, s⟩ := by
  refine balanced_of_still ?_ ?_ ?_
  · rintro c' (h' | ⟨-, h', -⟩) <;> simp [h] at h'
  · simp [h]
  · simp [h]

/-- The runtime stops a run that misuses it. -/
lemma balanced_of_misuse {a a' : Activation} {s : FrameStack Value} {r : Request}
    (hown : p.Own a.pc) (h : a.step (.ofMethod nm) = .asks r a') (hserve : S.serve s r = some none) :
    Balanced S p nm d n ⟨a, s⟩ := by
  refine balanced_of_still ?_ (by simp [h]) ?_
  · rintro c' (h' | ⟨-, h', hs⟩)
    · simp [h] at h'
    · rw [h] at h'
      cases h'
      rw [hserve] at hs
      cases hs
  · intro r' a'' h' hforeign
    rw [h] at h'
    cases h'
    exact hforeign ⟨hown, by rw [hserve]; rfl⟩

/-! ## Behind the end -/

/-- **Inside a method**: its frame stack is at hand, and its record is the current one. -/
structure Inside (S : Surroundings) (p : Plan) (d : Nat) (L : Array Value) (s : FrameStack Value) :
    Prop where
  handle : L[p.stackVar.toNat]? = some (.object S.handle)
  depth : s.depth = d + 1

lemma not_in_segment {q : Nat} (hq : p.place p.code.size ≤ q) (hp : p.Sound) :
    ∀ pt ∈ p.points, q < p.place (pt.position + 1) → False := by
  intro pt hpt hlt
  obtain ⟨n, hn⟩ := List.getElem?_of_mem hpt
  have := p.place_mono (show pt.position + 1 ≤ p.code.size from (hp.segmentAt_point hn).1)
  omega

/-- **The last instruction throws** what it is given. -/
lemma step_rethrow (hr : p.Ready C nm) (L : Array Value) (obj : ObjectId) :
    Activation.step (.ofMethod nm) ⟨p.place p.code.size + 5, L, [.object obj]⟩
      = .asks (.throw obj) ⟨p.place p.code.size + 5, L, []⟩ := by
  have hthrow : nm.code[p.place p.code.size + 5]? = some (.plain .throw) :=
    hr.lays.epilogue 5 (by simp)
  rw [step_eq hthrow]
  rfl

/-- **The last instruction** throws what is to leave the method. -/
lemma balanced_rethrow (hr : p.Ready C nm) {L : Array Value} {obj : ObjectId} {s : FrameStack Value}
    (h : S.IsSignal obj ∨ Left d s) :
    Balanced S p nm d n ⟨⟨p.place p.code.size + 4, L, [.object obj]⟩, s⟩ := by
  have hmark : nm.code[p.place p.code.size + 4]? = some (.mark p.catchSignalLabel) :=
    hr.lays.epilogue 4 (by simp)
  refine Balanced.of_advances (advances_mark hmark) ?_
  have hstep := step_rethrow hr L obj
  have huncaught := hr.lands_epilogue (show p.place p.code.size ≤ p.place p.code.size + 5 by omega)
  cases n with
  | zero => trivial
  | succ n =>
      refine ⟨fun o s' hends hsignal => ?_, fun pt hpt _ hlt => ?_, fun c' ht => ?_⟩
      · cases hends with
        | returned hret =>
            rw [hstep] at hret
            cases hret
        | threw hraises _ =>
            obtain ⟨h', -, hthrows⟩ := hraises
            rw [hstep] at h'
            cases h'
            obtain ⟨rfl, rfl⟩ := hthrows.thrown _ rfl
            exact h.resolve_left (hsignal _ rfl)
      · exact absurd hlt fun hlt => not_in_segment (by simp only; omega) hr.sound pt hpt hlt
      · cases ht with
        | advances hadv =>
            rcases hadv with h' | ⟨-, h', hs⟩
            · rw [hstep] at h'
              cases h'
            · rw [hstep] at h'
              cases h'
              cases hs
        | answered h' _ hexit _ _ =>
            rw [hstep] at h'
            cases h'
            cases hexit
        | caught hraises hcaught =>
            obtain ⟨h', -, -⟩ := hraises
            rw [hstep] at h'
            cases h'
            rw [huncaught] at hcaught
            cases hcaught

/-- **The handler of everything else** pops the record. -/
lemma balanced_catchAll (hr : p.Ready C nm) {L : Array Value} {obj : ObjectId} {s : FrameStack Value}
    (h : Inside S p d L s) :
    Balanced S p nm d n ⟨⟨p.place p.code.size + 1, L, [.object obj]⟩, s⟩ := by
  have hepi := hr.lays.epilogue
  have hown : p.Own (p.place p.code.size + 3) := Plan.own_epilogue hr.lays hr.sound (by omega)
  refine Balanced.of_advances (advances_mark (hepi 1 (by simp))) ?_
  refine Balanced.of_advances (advances_load (hepi 2 (by simp)) h.handle) ?_
  refine Balanced.of_advances (advances_popMethod hown (hepi 3 (by simp))) ?_
  have hpos : 0 < s.depth := by rw [h.depth]; omega
  refine balanced_rethrow hr (Or.inr ⟨?_, ?_⟩)
  · rw [FrameStack.depth_pop hpos, h.depth]
    rfl
  · have := FrameStack.recordAt_pop hpos
    rw [h.depth] at this
    exact this

/-! ## Exceptions -/

/-- **Exceptions at a position land well**: the suspend signal passes, and everything else goes to code of
the method that is reached, or to the handler that pops the record. -/
structure Landing (S : Surroundings) (p : Plan) (nm : Method) (q : Nat) : Prop where
  signal : ∀ obj, S.IsSignal obj →
    (Body.ofMethod nm).handlerFor (S.isA obj) q = some (p.place p.code.size + 4)
  other : ∀ obj, ¬ S.IsSignal obj →
    (Body.ofMethod nm).handlerFor (S.isA obj) q = some (p.place p.code.size + 1) ∨
    ∃ i f, (Body.ofMethod nm).handlerFor (S.isA obj) q = some (p.place i)
      ∧ p.subject.types.frames[i]? = some (some f)

lemma landing_within (hr : p.Ready C nm) {j q : Nat} (hw : p.Within j q) {f : Frame}
    (hf : p.subject.types.frames[j]? = some (some f)) : Landing S p nm q where
  signal obj hobj := by
    have hfrom : 6 ≤ p.place j := p.place_mono (Nat.zero_le j)
    have hupto := p.place_mono (show j + 1 ≤ p.code.size from hw.lt)
    have hlow := hw.low
    have hhigh := hw.high
    exact hr.lands_signal (by omega) (by omega) hobj
  other obj hobj := by
    rcases hr.lands hw hf (Bool.eq_false_iff.mpr hobj) with ⟨-, h⟩ | ⟨r, i, -, -, h, g, hg, -⟩
    · exact Or.inl h
    · exact Or.inr ⟨i, g, h, hg⟩

lemma landing_saved (hr : p.Ready C nm) {i q : Nat} {pt : SuspensionPoint}
    (hpt : p.points[i]? = some pt) (hlow : p.place pt.position ≤ q)
    (hhigh : q < p.place pt.position + p.afterOffset pt) : Landing S p nm q where
  signal obj hobj := by
    have hfrom : 6 ≤ p.place pt.position := p.place_mono (Nat.zero_le _)
    have hupto := p.place_mono
      (show pt.position + 1 ≤ p.code.size from (hr.sound.segmentAt_point hpt).1)
    have hend := Plan.afterOffset_lt hr.sound hpt
    exact hr.lands_signal (by omega) (by omega) hobj
  other obj hobj := Or.inl (hr.lands_saved hpt hlow hhigh (Bool.eq_false_iff.mpr hobj))

/-- **At the beginning of the segment** of an instruction that is reached. -/
structure AtSegment (S : Surroundings) (p : Plan) (d j : Nat) (c : Running) : Prop extends
    Inside S p d c.act.locals c.stack where
  pc : c.act.pc = p.place j
  frame : ∃ f, p.subject.types.frames[j]? = some (some f)

/-- **A request that is up to the surroundings**: what is balanced behind every answer is balanced in
front of it, for exceptions land well. -/
lemma balanced_asks (hr : p.Ready C nm) {q : Nat} {L : Array Value} {vs vs' : List Value}
    {s : FrameStack Value} {r : Request}
    (hstep : Activation.step (.ofMethod nm) ⟨q, L, vs⟩ = .asks r ⟨q, L, vs'⟩)
    (hserve : p.Own q → S.serve s r = none) (hin : Inside S p d L s) (hland : Landing S p nm q)
    (hheld : ∀ pt ∈ p.points, p.place pt.position ≤ q → q < p.place (pt.position + 1) → Held d pt s)
    (hsegment : ∀ m, m < n → ∀ j c, AtSegment S p d j c → Balanced S p nm d m c)
    (hanswer : ∀ m, m < n → ∀ (v : Option Value) s', r.isExit = false →
      (r.runsCode = false → s' = s) → s'.depth = s.depth →
        Balanced S p nm d m ⟨⟨q + 1, L, v.toList ++ vs'⟩, s'⟩) :
    Balanced S p nm d n ⟨⟨q, L, vs⟩, s⟩ := by
  cases n with
  | zero => trivial
  | succ n =>
      refine ⟨fun o s' hends => ?_, fun pt hpt hlow hhigh obj a' s' hraises hobj => ?_, fun c' ht => ?_⟩
      · cases hends with
        | returned hret =>
            rw [hstep] at hret
            cases hret
        | threw hraises huncaught =>
            -- every exception is caught here
            obtain ⟨h', -, -⟩ := hraises
            rw [hstep] at h'
            cases h'
            next obj =>
            by_cases hobj : S.IsSignal obj
            · rw [hland.signal obj hobj] at huncaught
              cases huncaught
            · rcases hland.other obj hobj with h | ⟨i, f, h, -⟩
              · rw [h] at huncaught
                cases huncaught
              · rw [h] at huncaught
                cases huncaught
      · obtain ⟨h', -, hthrows⟩ := hraises
        rw [hstep] at h'
        cases h'
        have hrec := hthrows.record hobj
        rw [hin.depth] at hrec
        have hheld := hheld pt hpt hlow hhigh
        exact ⟨hrec ▸ hheld.entry, hrec ▸ hheld.objects, hrec ▸ hheld.prims⟩
      · cases ht with
        | advances hadv =>
            rcases hadv with h' | ⟨hown, h', hs⟩
            · rw [hstep] at h'
              cases h'
            · rw [hstep] at h'
              cases h'
              rw [hserve hown] at hs
              cases hs
        | answered h' _ hexit hquiet hdepth =>
            rw [hstep] at h'
            cases h'
            exact hanswer n (by omega) _ _ hexit hquiet hdepth
        | caught hraises hcaught =>
            obtain ⟨h', -, hthrows⟩ := hraises
            rw [hstep] at h'
            cases h'
            next s' obj pc =>
            by_cases hobj : S.IsSignal obj
            · rw [hland.signal obj hobj] at hcaught
              cases hcaught
              exact balanced_rethrow hr (Or.inl hobj)
            · have hin' : Inside S p d L s' := ⟨hin.handle, (hthrows.depth hobj).trans hin.depth⟩
              rcases hland.other obj hobj with h | ⟨i, f, h, hf⟩
              · rw [h] at hcaught
                cases hcaught
                exact balanced_catchAll hr hin'
              · rw [h] at hcaught
                cases hcaught
                exact hsegment n (by omega) i _ ⟨hin', rfl, f, hf⟩

/-! ## Generated code -/

/-- **Generated code that is passed through.**  Whatever it finds on the operand stack, it stops, or an
exception comes up, or its end is reached inside the method, with what `Φ` says about the frame stack
still true. -/
def Passes (S : Surroundings) (p : Plan) (nm : Method) (d : Nat) (Φ : FrameStack Value → Prop)
    (l : List Instruction) : Prop :=
  ∀ n q L vs s, nm.code.Has q l → (∀ k, k < l.length → p.Own (q + k) ∧ Landing S p nm (q + k)) →
    (∀ k, k < l.length → ∀ pt ∈ p.points, p.place pt.position ≤ q + k →
      q + k < p.place (pt.position + 1) → ∀ s, Φ s → Held d pt s) →
    (∀ m, m < n → ∀ j c, AtSegment S p d j c → Balanced S p nm d m c) →
    Inside S p d L s → Φ s →
    (∀ L' vs' s', Inside S p d L' s' → Φ s' →
      Balanced S p nm d n ⟨⟨q + l.length, L', vs'⟩, s'⟩) →
    Balanced S p nm d n ⟨⟨q, L, vs⟩, s⟩

variable {Φ : FrameStack Value → Prop}

lemma passes_nil : Passes S p nm d Φ [] := by
  intro n q L vs s _ _ _ _ hin hΦ hend
  exact hend L vs s hin hΦ

lemma passes_append {l l' : List Instruction} (h : Passes S p nm d Φ l)
    (h' : Passes S p nm d Φ l') : Passes S p nm d Φ (l ++ l') := by
  intro n q L vs s hcode hown hheld hsegment hin hΦ hend
  rw [Code.has_append] at hcode
  simp only [List.length_append] at hown hheld hend
  refine h n q L vs s hcode.1 (fun k hk => hown k (by omega)) (fun k hk => hheld k (by omega))
    hsegment hin hΦ fun L' vs' s' hin' hΦ' => ?_
  refine h' n (q + l.length) L' vs' s' hcode.2 (fun k hk => ?_) (fun k hk => ?_) hsegment hin' hΦ'
    fun L'' vs'' s'' hin'' hΦ'' => ?_
  · rw [Nat.add_assoc]
    exact hown (l.length + k) (by omega)
  · rw [Nat.add_assoc]
    exact hheld (l.length + k) (by omega)
  · rw [Nat.add_assoc]
    exact hend L'' vs'' s'' hin'' hΦ''

lemma passes_flatMap {α : Type} {xs : List α} {g : α → List Instruction}
    (h : ∀ x, Passes S p nm d Φ (g x)) : Passes S p nm d Φ (xs.flatMap g) := by
  induction xs with
  | nil => exact passes_nil
  | cons x xs ih =>
      rw [List.flatMap_cons]
      exact passes_append (h x) ih

/-- **An instruction that asks for nothing** and leaves a local alone. -/
def Harmless (n : Nat) (instr : Instruction) : Prop :=
  ∀ (t : Label → Nat) (a : Activation), a.execute t instr = .crash ∨
    ∃ L vs, a.execute t instr = .next ⟨a.pc + 1, L, vs⟩ ∧ L[n]? = a.locals[n]?

lemma passes_harmless {instr : Instruction} (h : Harmless p.stackVar.toNat instr) :
    Passes S p nm d Φ [instr] := by
  intro n q L vs s hcode _ _ _ hin hΦ hend
  rw [Code.has_cons] at hcode
  rcases h (Body.ofMethod nm).target ⟨q, L, vs⟩ with hcrash | ⟨L', vs', hnext, hL⟩
  · refine balanced_of_crash ?_
    rw [step_eq hcode.1]
    exact hcrash
  · refine Balanced.of_advances (.next ?_) (hend L' vs' s ⟨hL.trans hin.handle, hin.depth⟩ hΦ)
    rw [step_eq hcode.1]
    exact hnext

lemma harmless_nop (n : Nat) (operand : Operand) : Harmless n ⟨.nop, operand⟩ :=
  fun _ a => Or.inr ⟨a.locals, a.stack, rfl, rfl⟩

lemma harmless_mark (n : Nat) (id : Label) : Harmless n (.mark id) :=
  fun _ a => Or.inr ⟨a.locals, a.stack, rfl, rfl⟩

lemma harmless_null (n : Nat) : Harmless n (.plain .pushNull) :=
  fun _ a => Or.inr ⟨a.locals, _, rfl, rfl⟩

lemma harmless_pop (n : Nat) : Harmless n (.plain .pop) := by
  rintro t ⟨pc, L, _ | ⟨v, vs⟩⟩
  · exact Or.inl rfl
  · exact Or.inr ⟨L, vs, rfl, rfl⟩

lemma harmless_dup (n : Nat) (operand : Operand) : Harmless n ⟨.dup, operand⟩ := by
  rintro t ⟨pc, L, _ | ⟨v, vs⟩⟩
  · exact Or.inl rfl
  · exact Or.inr ⟨L, v :: v :: vs, rfl, rfl⟩

lemma harmless_load (n : Nat) (k : Kind) (i : UInt32) : Harmless n (.slot (.load k) i) := by
  intro t a
  simp only [Activation.execute, Instruction.slot, Activation.load]
  split
  · exact Or.inr ⟨a.locals, _, rfl, rfl⟩
  · exact Or.inl rfl

lemma harmless_store {n : Nat} (k : Kind) {i : UInt32} (h : i.toNat ≠ n) :
    Harmless n (.slot (.store k) i) := by
  rintro t ⟨pc, L, _ | ⟨v, vs⟩⟩
  · exact Or.inl rfl
  · simp only [Activation.execute, Instruction.slot, Activation.store]
    split
    · refine Or.inr ⟨L.set! i.toNat v, vs, rfl, ?_⟩
      rw [Array.set!_eq_setIfInBounds, Array.getElem?_setIfInBounds_ne h]
    · exact Or.inl rfl

lemma harmless_loadOf (n : Nat) (v : SlotType) (i : UInt32) : Harmless n (Emit.loadOf v i) := by
  unfold Emit.loadOf
  cases v.kind? with
  | none => exact harmless_nop n _
  | some k => exact harmless_load n k i

lemma harmless_storeOf {n : Nat} (v : SlotType) {i : UInt32} (h : i.toNat ≠ n) :
    Harmless n (Emit.storeOf v i) := by
  unfold Emit.storeOf
  cases v.kind? with
  | none => exact harmless_nop n _
  | some k => exact harmless_store k h

/-- **Saving a value** keeps what is true of a record with any of its slots changed. -/
lemma passes_put (hΦ : ∀ s k i v, s.depth = d + 1 → Φ s →
      Φ (s.setCurrent (s.topRecord.store k i v))) (k : Kind) (i : Nat) :
    Passes S p nm d Φ (Emit.put p.stackVar k i) := by
  intro n q L vs s hcode hown _ _ hin hs hend
  have hload : nm.code[q]? = some (.slot (.load .ref) p.stackVar) := hcode 0 (by simp [Emit.put])
  have hint : nm.code[q + 1]? = some (.int (Int32.ofNat i)) := hcode 1 (by simp [Emit.put])
  have hcall : nm.code[q + 2]? = some ⟨.invoke .static, .member (putMember k)⟩ :=
    hcode 2 (by simp [Emit.put])
  have hown := (hown 2 (by simp [Emit.put])).1
  refine Balanced.of_advances (advances_load hload hin.handle) ?_
  refine Balanced.of_advances (advances_int hint) ?_
  cases vs with
  | nil =>
      refine balanced_of_crash ?_
      rw [step_eq hcall]
      simp [Activation.execute, Activation.invoke, parse_putMember]
  | cons v vs =>
      have hstep : Activation.step (.ofMethod nm)
          ⟨q + 2, L, [.int (Int32.ofNat i), .object S.handle, v] ++ vs⟩ = .asks _ ⟨q + 2, L, vs⟩ :=
        step_call _ _ hcall (parse_putMember k) rfl
      have hserve : S.serve s (.invoke .static (putMember k)
          [v, .object S.handle, .int (Int32.ofNat i)] true) = _ :=
        serve_op (lookup_putMember k) rfl
      cases hop : Native.saveOp k (Int32.ofNat i).toInt v with
      | none =>
          rw [hop] at hserve
          exact balanced_of_misuse hown hstep hserve
      | some op =>
          rw [hop, Option.bind_some] at hserve
          cases happly : s.apply op with
          | mk ans s' =>
              by_cases hans : ans = .misuse
              · rw [happly, hans] at hserve
                exact balanced_of_misuse hown hstep hserve
              · obtain ⟨-, rfl, j, rfl⟩ := FrameStack.saved_eq hop happly hans
                refine Balanced.of_advances (advances_put hown hcall hop happly) ?_
                exact hend L vs _ ⟨hin.handle, hin.depth⟩ (hΦ s k j v hin.depth hs)

/-- **Fetching a value** changes nothing in the frame stack. -/
lemma passes_fetch (k : Kind) (i : Nat) : Passes S p nm d Φ
    [.slot (.load .ref) p.stackVar, .int (Int32.ofNat i), ⟨.invoke .virtual, .member (getMember k)⟩] := by
  intro n q L vs s hcode hown _ _ hin hs hend
  have hcall : nm.code[q + 2]? = some ⟨.invoke .virtual, .member (getMember k)⟩ := hcode 2 (by simp)
  have hown := (hown 2 (by simp)).1
  refine Balanced.of_advances (advances_load (hcode 0 (by simp)) hin.handle) ?_
  refine Balanced.of_advances (advances_int (hcode 1 (by simp))) ?_
  have hstep : Activation.step (.ofMethod nm)
      ⟨q + 2, L, [.int (Int32.ofNat i), .object S.handle] ++ vs⟩ = .asks _ ⟨q + 2, L, vs⟩ :=
    step_call _ _ hcall (parse_getMember k) rfl
  have hserve : S.serve s (.invoke .virtual (getMember k) [.object S.handle, .int (Int32.ofNat i)]
      (⟨["I"], Emit.accessorDesc k⟩ : Descriptor.Method).isVoid) = _ :=
    serve_op (lookup_getMember k) rfl
  by_cases hans : (s.apply (Native.restoreOp k (Int32.ofNat i).toInt)).1 = .misuse
  · refine balanced_of_misuse hown hstep (hserve.trans ?_)
    rw [Option.bind_some]
    generalize s.apply (Native.restoreOp k (Int32.ofNat i).toInt) = r at hans
    obtain ⟨ans, s'⟩ := r
    subst hans
    rfl
  · refine Balanced.of_advances (advances_get hown hcall hans rfl) ?_
    exact hend L _ s hin hs

/-- **A cast** may fail, and its exception then leaves the method. -/
lemma passes_cast (hr : p.Ready C nm) (cls : Text) :
    Passes S p nm d Φ [.type .checkCast cls] := by
  intro n q L vs s hcode hown hheld hsegment hin hs hend
  have hat : nm.code[q]? = some (.type .checkCast cls) := hcode 0 (by simp)
  cases vs with
  | nil =>
      refine balanced_of_crash ?_
      rw [step_eq hat]
      rfl
  | cons v vs =>
      by_cases hv : v.isNull = true
      · refine Balanced.of_advances (.next ?_) (hend L (v :: vs) s hin hs)
        rw [step_eq hat]
        simp only [Activation.execute, Instruction.type, Activation.typed, hv, if_true]
        rfl
      · have hstep : Activation.step (.ofMethod nm) ⟨q, L, v :: vs⟩
            = .asks (.cast v cls) ⟨q, L, v :: vs⟩ := by
          rw [step_eq hat]
          simp only [Activation.execute, Instruction.type, Activation.typed, hv]
          rfl
        refine balanced_asks hr hstep (fun _ => rfl) hin (hown 0 (by simp)).2 ?_ hsegment ?_
        · exact fun pt hpt hlow hhigh => hheld 0 (by simp) pt hpt hlow hhigh s hs
        · intro m hm w s' _ hquiet _
          rw [hquiet rfl]
          exact (hend L _ s hin hs).mono (Nat.le_of_lt hm)

lemma passes_get (hr : p.Ready C nm) (v : SlotType) (k : Kind) (i : Nat) :
    Passes S p nm d Φ (Emit.get p.stackVar v k i) := by
  unfold Emit.get
  refine passes_append (passes_fetch k i) ?_
  split
  · exact passes_cast hr _
  · exact passes_nil

/-! ### Saving and restoring -/

lemma passes_saveSlot (hΦ : ∀ s k i v, s.depth = d + 1 → Φ s →
      Φ (s.setCurrent (s.topRecord.store k i v))) (v : SlotType) (keep : Keep) :
    Passes S p nm d Φ (Emit.saveSlot p.stackVar v keep) := by
  unfold Emit.saveSlot
  split
  · exact passes_nil
  · exact passes_harmless (harmless_pop _)
  · split
    · exact passes_put hΦ _ _
    · exact passes_nil

lemma passes_saveLocal (hΦ : ∀ s k i v, s.depth = d + 1 → Φ s →
      Φ (s.setCurrent (s.topRecord.store k i v))) (index : Nat) (v : SlotType) (keep : Keep) :
    Passes S p nm d Φ (Emit.saveLocal p.stackVar index v keep) := by
  unfold Emit.saveLocal
  split
  · exact passes_append (passes_harmless (harmless_loadOf _ v _)) (passes_put hΦ _ _)
  · exact passes_nil

lemma passes_restoreSlot (hr : p.Ready C nm) (v : SlotType) (keep : Keep) :
    Passes S p nm d Φ (Emit.restoreSlot p.stackVar v keep) := by
  unfold Emit.restoreSlot
  split
  · exact passes_nil
  · split
    · exact passes_harmless (harmless_null _)
    · split
      · exact passes_get hr v _ _
      · exact passes_nil

lemma passes_restoreLocal (hr : p.Ready C nm) {index : Nat} (hindex : index < p.stackVar.toNat)
    (v : SlotType) (keep : Keep) :
    Passes S p nm d Φ (Emit.restoreLocal p.stackVar index v keep) := by
  have hne : (UInt32.ofNat index).toNat ≠ p.stackVar.toNat := by
    have := p.stackVar.toNat_lt
    rw [UInt32.toNat_ofNat_of_lt' (by simp [UInt32.size]; omega)]
    omega
  unfold Emit.restoreLocal
  split
  · exact passes_append (passes_harmless (harmless_null _))
      (passes_harmless (harmless_store .ref hne))
  · split
    · exact passes_append (passes_get hr v _ _) (passes_harmless (harmless_storeOf v hne))
    · exact passes_nil

lemma passes_locals {f : Nat → SlotType → Keep → List Instruction} {slots : List (SlotType × Keep)}
    {index : Nat} (h : ∀ i v keep, index ≤ i → i < index + slots.length →
      Passes S p nm d Φ (f i v keep)) :
    Passes S p nm d Φ (Emit.locals f index slots) := by
  induction slots generalizing index with
  | nil => exact passes_nil
  | cons slot slots ih =>
      obtain ⟨v, keep⟩ := slot
      simp only [List.length_cons] at h
      exact passes_append (h index v keep (Nat.le_refl _) (by omega))
        (ih fun i v keep hi hi' => h i v keep (by omega) (by omega))

end Running

end Suspension
