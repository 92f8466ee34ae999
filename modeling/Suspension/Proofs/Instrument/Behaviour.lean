import Suspension.Proofs.Frame.Constructions
import Suspension.Proofs.Instrument.Resumption
import Suspension.Proofs.Observation

/-!
# A method and its transformed body, seen from outside

A method asks its environment for everything but its own arithmetic.  **What is seen of a method** are its
requests with what came of them, and how it ends.  A new object and a cast that lets its value pass are not
seen, for a transformed method makes some objects later and casts what it has restored.

A transformed method is in an environment that may put a call off: the suspend signal comes out of the call
and leaves the method, and the method is entered again, with the same arguments and the record that it left.
Of a method that is not transformed, the same is seen as if the call had been made and were made again.

* `Environment`, `Environment.Brings` — what may come of a request, and what is seen of it.
* `Plan.original` — the method as it was.
* `Plan.instrumented` — the transformed method beside its frame stack, left and entered again.
* `Running.only_of_proceeds` — what depends on the classes alone is the one way to go.
-/

namespace Suspension

/-! ## Environments -/

/-- **The environment of a method**: the classes and the objects that `new` makes, how a transformed method
reaches its frame stack, and which exceptions may come of a request. -/
structure Environment extends World where
  surroundings : Surroundings
  raises : Request → ObjectId → Prop

/-- **An environment that keeps to what is declared.**  Exceptions belong to the classes that their handlers
name, `throw` raises what it is given, casts fail only where they must, and neither a new object nor the
request to suspend raises anything. -/
structure Environment.Conforms (E : Environment) : Prop where
  throwable : ∀ r obj, E.raises r obj → E.inst (.object obj) ClassName.throwable
  isA : ∀ r obj cls, E.raises r obj → E.surroundings.isA obj cls = true → E.inst (.object obj) cls
  throw : ∀ thrown obj, E.raises (.throw thrown) obj → obj = thrown
  cast : ∀ v cls obj, E.raises (.cast v cls) obj → ¬ E.inst v cls
  create : ∀ cls obj, ¬ E.raises (.create cls) obj
  yields : ∀ m args isVoid obj, m.isYield = true → ¬ E.raises (.invoke .static m args isVoid) obj

/-- **What is seen of a request**: a call by reflection is seen as the call that stands in for it. -/
def Request.seen : Request → Request
  | .invoke mode m args isVoid =>
    if m.isReflective then
      .invoke .static ⟨ClassName.coroutine, "reflectInvoke",
        "(Lcore/reflect/Method;Lcore/Object;[Lcore/Object;)Lcore/Object;"⟩ args isVoid
    else .invoke mode m args isVoid
  | r => r

/-- Requests that are not seen when they are answered: for new objects and for casts. -/
def Request.isSilent : Request → Bool
  | .create _ | .cast _ _ => true
  | _ => false

/-- The request to suspend. -/
def Request.yield : Request := .invoke .static ⟨ClassName.coroutine, "yield", "()V"⟩ [] true

/-- What comes of a request. -/
inductive Upshot where
  | answer (v : Option Value)
  | exception (obj : ObjectId)

/-- **What is seen**: a request with its answer, a request with its exception, and a call that is put off. -/
inductive Seen where
  | answered (r : Request) (v : Option Value)
  | raised (r : Request) (obj : ObjectId)
  | suspended (r : Request)

/-- **What an environment brings about**: any answer that fits what is declared, and any exception that may
come of the request.  Where a field is declared to hold no value, there is none to answer with. -/
inductive Environment.Brings (E : Environment) (instr : Instruction) :
    Request → Upshot → List Seen → Prop where
  | made {cls : Text} {o : ObjectId} (h : E.made o cls) :
      Brings E instr (.create cls) (.answer (some (.object o))) []
  | passed {v : Value} {cls : Text} (h : E.inst v cls) : Brings E instr (.cast v cls) (.answer none) []
  | answered {r : Request} {v : Option Value} (hr : r.isSilent = false) (hreads : Frame.ReadsValue instr)
      (h : r.Admits E.toWorld instr v) : Brings E instr r (.answer v) [.answered r.seen v]
  | raised {r : Request} {obj : ObjectId} (h : E.raises r.seen obj) :
      Brings E instr r (.exception obj) [.raised r.seen obj]

/-- **How a run is seen to end**: with an outcome, or waiting for what it has asked for. -/
inductive Ending where
  | outcome (o : Running.Outcome)
  | waits (r : Request)

lemma Request.seen_invoke {mode : InvokeMode} {m : Member} {args : List Value} {isVoid : Bool}
    (hm : m.isReflective = false) :
    (Request.invoke mode m args isVoid).seen = .invoke mode m args isVoid := if_neg (by simp [hm])

lemma Request.seen_reflective {mode : InvokeMode} {m : Member} {args : List Value} {isVoid : Bool}
    (hm : m.isReflective = true) : (Request.invoke mode m args isVoid).seen
      = .invoke .static ⟨ClassName.coroutine, "reflectInvoke",
        "(Lcore/reflect/Method;Lcore/Object;[Lcore/Object;)Lcore/Object;"⟩ args isVoid := if_pos hm

/-- What is seen of a request is silent if the request is. -/
@[simp] lemma Request.isSilent_seen (r : Request) : r.seen.isSilent = r.isSilent := by
  cases r with
  | invoke mode m args isVoid => cases hm : m.isReflective <;> simp [seen, hm, isSilent]
  | _ => rfl

/-- What is seen as a call is a call. -/
lemma Request.eq_invoke_of_seen {r : Request} {mode : InvokeMode} {m : Member} {args : List Value}
    {isVoid : Bool} (h : r.seen = (Request.invoke mode m args isVoid).seen) :
    ∃ mode m args isVoid, r = .invoke mode m args isVoid := by
  obtain ⟨mode', m', hseen⟩ : ∃ mode' m', (Request.invoke mode m args isVoid).seen
      = .invoke mode' m' args isVoid := by
    cases hm : m.isReflective with
    | true => exact ⟨_, _, seen_reflective hm⟩
    | false => exact ⟨mode, m, seen_invoke hm⟩
  rw [hseen] at h
  cases r with
  | invoke mode m args isVoid => exact ⟨mode, m, args, isVoid, rfl⟩
  | _ => cases h

/-- **Every answer is one that the request may get.** -/
lemma Environment.Brings.admits {E : Environment} {instr : Instruction} {r : Request} {v : Option Value}
    {es : List Seen} (h : E.Brings instr r (.answer v) es) : r.Admits E.toWorld instr v := by
  cases h with
  | made h => exact ⟨_, rfl, h⟩
  | passed h => exact ⟨rfl, h⟩
  | answered _ _ h => exact h

/-- **What is answered is no read of a field without a value.** -/
lemma Environment.Brings.readsValue {E : Environment} {instr : Instruction} {r : Request} {v : Option Value}
    {es : List Seen} (h : E.Brings instr r (.answer v) es) (hfrom : r.ComesFrom instr) :
    Frame.ReadsValue instr := by
  cases h with
  | made | passed =>
      intro _ m hm
      rw [show instr.operand = _ from hfrom] at hm
      cases hm
  | answered _ hreads _ => exact hreads

/-- What is brought about for a request is so for another one that is seen as the same and gets the same
answers. -/
lemma Environment.Brings.congr {E : Environment} {instr img : Instruction} {r r' : Request} {u : Upshot}
    {es : List Seen} (h : E.Brings instr r u es) (hr : r.isSilent = false) (hr' : r'.isSilent = false)
    (hseen : r.seen = r'.seen) (hreads : Frame.ReadsValue img)
    (hadmits : ∀ v, r.Admits E.toWorld instr v → r'.Admits E.toWorld img v) : E.Brings img r' u es := by
  cases h with
  | made | passed => cases hr
  | answered _ _ h =>
      rw [hseen]
      exact .answered hr' hreads (hadmits _ h)
  | raised h =>
      rw [hseen] at h ⊢
      exact .raised h

/-- An instruction that goes on by itself reads no field. -/
lemma Activation.readsValue_of_next {target : Label → Nat} {a a' : Activation} {instr : Instruction}
    (h : a.execute target instr = .next a') : Frame.ReadsValue instr := by
  intro hop
  exfalso
  rcases hop with hop | hop <;>
    · simp only [execute, hop, field] at h
      split at h <;> simp_all [ask]

/-! ## The method as it was -/

namespace Plan

/-- The position of a call that may be put off. -/
def MaySuspend (p : Plan) (j : Nat) : Prop := ∃ pt ∈ p.points, pt.position = j ∧ pt.isYield = false

/-- **The moves of the method as it was.** -/
inductive OriginalMoves (E : Environment) (p : Plan) : Activation → List Seen → Activation → Prop where
  | next {a a' : Activation} (h : a.step (.ofMethod p.subject.method) = .next a') :
      OriginalMoves E p a [] a'
  | answered {a a' : Activation} {r : Request} {v : Option Value} {es : List Seen} {instr : Instruction}
      (h : a.step (.ofMethod p.subject.method) = .asks r a') (hat : p.code[a.pc]? = some instr)
      (hr : E.Brings instr r (.answer v) es) : OriginalMoves E p a es (a'.answered v)
  | caught {a a' : Activation} {r : Request} {obj : ObjectId} {es : List Seen} {instr : Instruction}
      {pc : Nat} (h : a.step (.ofMethod p.subject.method) = .asks r a') (hat : p.code[a.pc]? = some instr)
      (hr : E.Brings instr r (.exception obj) es)
      (hcaught : (Body.ofMethod p.subject.method).handlerFor (E.surroundings.isA obj) a.pc = some pc) :
      OriginalMoves E p a es (a'.caught pc obj)
  | suspended {a a' : Activation} {mode : InvokeMode} {m : Member} {args : List Value} {isVoid : Bool}
      (h : a.step (.ofMethod p.subject.method) = .asks (.invoke mode m args isVoid) a')
      (hpoint : p.MaySuspend a.pc) :
      OriginalMoves E p a [.suspended (Request.invoke mode m args isVoid).seen] a

/-- **The ends of the method as it was.** -/
inductive OriginalEnds (E : Environment) (p : Plan) : Activation → List Seen → Ending → Prop where
  | returned {a : Activation} {v : Value} (h : a.step (.ofMethod p.subject.method) = .returns v) :
      OriginalEnds E p a [] (.outcome (.returned v))
  | threw {a a' : Activation} {r : Request} {obj : ObjectId} {es : List Seen} {instr : Instruction}
      (h : a.step (.ofMethod p.subject.method) = .asks r a') (hat : p.code[a.pc]? = some instr)
      (hr : E.Brings instr r (.exception obj) es)
      (huncaught : (Body.ofMethod p.subject.method).handlerFor (E.surroundings.isA obj) a.pc = none) :
      OriginalEnds E p a es (.outcome (.threw obj))
  | waits {a a' : Activation} {r : Request} (h : a.step (.ofMethod p.subject.method) = .asks r a')
      (hr : r.isSilent = false) : OriginalEnds E p a [] (.waits r.seen)

/-- **The method as it was**, in an environment. -/
def original (p : Plan) (E : Environment) : System Activation Seen Ending where
  Moves := OriginalMoves E p
  Ends := OriginalEnds E p

/-! ## The transformed method -/

/-- **Where a transformed method is left by the suspend signal**, and what is seen of that: at a call that may
be put off, and where it throws the signal because it has been asked to suspend.  The request to suspend is
answered when the method is entered again. -/
inductive SuspendsAt (p : Plan) (S : Surroundings) (q : Nat) : Request → Seen → Prop where
  | call {pt : SuspensionPoint} {mode : InvokeMode} {m : Member} {args : List Value} {isVoid : Bool}
      (hpt : pt ∈ p.points) (hyield : pt.isYield = false) (hq : q = p.imageAt pt.position) :
      SuspendsAt p S q (.invoke mode m args isVoid) (.suspended (Request.invoke mode m args isVoid).seen)
  | yield (hown : p.Own q) : SuspendsAt p S q (.throw S.signal) (.answered .yield none)

end Plan

/-- **What a request leaves of the frame stack**: it is as deep as before, with at least as much room.  What
runs no other code leaves it alone. -/
structure Request.Keeps (r : Request) (s s' : FrameStack Value) : Prop where
  quiet : r.runsCode = false → s' = s
  depth : s'.depth = s.depth
  room : s.room ≤ s'.room

lemma Request.Keeps.refl (r : Request) (s : FrameStack Value) : r.Keeps s s :=
    ⟨fun _ => rfl, rfl, Nat.le_refl _⟩

namespace Plan

open Running

/-- **The moves of a transformed method** that has been entered with `args` above `d` other records.  What the
transformation put in is served by the runtime; new objects apart, what remains are requests of the method
itself. -/
inductive InstrumentedMoves (E : Environment) (p : Plan) (nm : Method) (args : List Value) (d : Nat) :
    Running → List Seen → Running → Prop where
  | proceeds {c c' : Running} (h : Proceeds E.toClasses E.surroundings p nm c c') :
      InstrumentedMoves E p nm args d c [] c'
  | answered {a a' : Activation} {s s' : FrameStack Value} {r : Request} {v : Option Value}
      {es : List Seen} {instr : Instruction} (h : a.step (.ofMethod nm) = .asks r a')
      (hat : nm.code[a.pc]? = some instr) (hown : p.Own a.pc → ∃ cls, r = .create cls)
      (hr : E.Brings instr r (.answer v) es) (hs : r.Keeps s s') :
      InstrumentedMoves E p nm args d ⟨a, s⟩ es ⟨a'.answered v, s'⟩
  | caught {a a' : Activation} {s s' : FrameStack Value} {r : Request} {obj : ObjectId}
      {es : List Seen} {instr : Instruction} {pc : Nat} (h : a.step (.ofMethod nm) = .asks r a')
      (hat : nm.code[a.pc]? = some instr) (hown : ¬ p.Own a.pc)
      (hr : E.Brings instr r (.exception obj) es) (hs : r.Keeps s s')
      (hcaught : (Body.ofMethod nm).handlerFor (E.surroundings.isA obj) a.pc = some pc) :
      InstrumentedMoves E p nm args d ⟨a, s⟩ es ⟨a'.caught pc obj, s'⟩
  | suspended {c : Running} {a : Activation} {s s' : FrameStack Value} {r : Request} {obj : ObjectId}
      {e : Seen} (h : c.act.step (.ofMethod nm) = .asks r a)
      (hpoint : p.SuspendsAt E.surroundings c.act.pc r e)
      (hraises : Raises E.surroundings p nm c obj a s) (hsignal : E.surroundings.IsSignal obj)
      (hpassed : Passed E.surroundings p nm a obj s) (hdepth : s'.depth = d)
      (hrecord : s'.record? d = some (s.recordAt d)) :
      InstrumentedMoves E p nm args d c [e] ⟨Activation.enter nm args, s'⟩

/-- **The ends of a transformed method**: it returns, an exception of its own leaves it, or what it has caught
in order to pop its record; or it waits for what it has asked for itself, or to be entered again after a
request to suspend. -/
inductive InstrumentedEnds (E : Environment) (p : Plan) (nm : Method) :
    Running → List Seen → Ending → Prop where
  | returned {c : Running} {v : Value} (h : c.act.step (.ofMethod nm) = .returns v) :
      InstrumentedEnds E p nm c [] (.outcome (.returned v))
  | threw {c : Running} {a : Activation} {r : Request} {obj : ObjectId} {es : List Seen}
      {instr : Instruction} (h : c.act.step (.ofMethod nm) = .asks r a)
      (hat : nm.code[c.act.pc]? = some instr) (hown : ¬ p.Own c.act.pc)
      (hr : E.Brings instr r (.exception obj) es)
      (huncaught : (Body.ofMethod nm).handlerFor (E.surroundings.isA obj) c.act.pc = none) :
      InstrumentedEnds E p nm c es (.outcome (.threw obj))
  | rethrew {c : Running} {a : Activation} {obj : ObjectId}
      (h : c.act.step (.ofMethod nm) = .asks (.throw obj) a) (hown : p.Own c.act.pc)
      (huncaught : (Body.ofMethod nm).handlerFor (E.surroundings.isA obj) c.act.pc = none) :
      InstrumentedEnds E p nm c [] (.outcome (.threw obj))
  | waits {c : Running} {a : Activation} {r : Request} (h : c.act.step (.ofMethod nm) = .asks r a)
      (hown : ¬ p.Own c.act.pc) (hr : r.isSilent = false) : InstrumentedEnds E p nm c [] (.waits r.seen)
  | yields {c : Running} {a : Activation}
      (h : c.act.step (.ofMethod nm) = .asks (.throw E.surroundings.signal) a) (hown : p.Own c.act.pc) :
      InstrumentedEnds E p nm c [] (.waits .yield)

/-- **The transformed method**, in an environment. -/
def instrumented (p : Plan) (E : Environment) (nm : Method) (args : List Value) (d : Nat) :
    System Running Seen Ending where
  Moves := InstrumentedMoves E p nm args d
  Ends := InstrumentedEnds E p nm

end Plan

/-! ## One way to go -/

namespace Running

variable {E : Environment} {p : Plan} {nm : Method} {C : Classes} {args : List Value} {d : Nat}

/-- A call that may be put off is not the transformation's own. -/
lemma not_own_call (hr : p.Ready C nm) {pt : SuspensionPoint} (hpt : pt ∈ p.points)
    (hyield : pt.isYield = false) : ¬ p.Own (p.imageAt pt.position) := by
  obtain ⟨i, hi⟩ := List.getElem?_of_mem hpt
  obtain ⟨instr, -, hat, -⟩ := hr.sound.point_call hi
  exact fun hown => hown pt.position instr (Plan.survives_point hr.sound hi hyield hat) rfl

/-- **What depends on the classes alone is the one way to go.** -/
lemma only_of_proceeds (hr : p.Ready C nm) (hE : E.Conforms) {c c' : Running}
    (h : Proceeds E.toClasses E.surroundings p nm c c') : (p.instrumented E nm args d).Only c c' := by
  constructor
  · intro es c'' hmove
    cases hmove with
    | proceeds h' => exact ⟨rfl, h'.unique h⟩
    | answered hstep _ hown hbrings hs =>
        cases h with
        | advances h =>
            rcases h with h | ⟨hown', h, hserve⟩
            · rw [h] at hstep
              cases hstep
            · rw [h] at hstep
              cases hstep
              obtain ⟨cls, rfl⟩ := hown hown'
              cases hserve
        | cast h hv =>
            rw [h] at hstep
            cases hstep
            obtain rfl := hs.quiet rfl
            cases hbrings with
            | passed _ => exact ⟨rfl, rfl⟩
            | answered hsilent _ _ => cases hsilent
    | caught hstep _ hown hbrings _ _ =>
        cases h with
        | advances h =>
            rcases h with h | ⟨hown', -, -⟩
            · rw [h] at hstep
              cases hstep
            · exact absurd hown' hown
        | cast h hv =>
            rw [h] at hstep
            cases hstep
            cases hbrings with
            | raised hraises => exact absurd hv (hE.cast _ _ _ hraises)
    | suspended hstep hpoint _ _ _ _ _ =>
        cases h with
        | advances h =>
            rcases h with h | ⟨hown, h, hserve⟩
            · rw [h] at hstep
              cases hstep
            · rw [h] at hstep
              cases hstep
              cases hpoint with
              | call hpt hyield hq => exact absurd (hq ▸ hown) (not_own_call hr hpt hyield)
              | yield _ => cases hserve
        | cast h hv =>
            rw [h] at hstep
            cases hstep
            cases hpoint
  · intro es out hend
    cases hend with
    | returned hstep =>
        cases h with
        | advances h =>
            rcases h with h | ⟨-, h, -⟩
            · rw [h] at hstep
              cases hstep
            · rw [h] at hstep
              cases hstep
        | cast h _ =>
            rw [h] at hstep
            cases hstep
    | threw hstep _ hown hbrings _ =>
        cases h with
        | advances h =>
            rcases h with h | ⟨hown', -, -⟩
            · rw [h] at hstep
              cases hstep
            · exact absurd hown' hown
        | cast h hv =>
            rw [h] at hstep
            cases hstep
            cases hbrings with
            | raised hraises => exact absurd hv (hE.cast _ _ _ hraises)
    | waits hstep hown hsilent =>
        cases h with
        | advances h =>
            rcases h with h | ⟨hown', -, -⟩
            · rw [h] at hstep
              cases hstep
            · exact absurd hown' hown
        | cast h _ =>
            rw [h] at hstep
            cases hstep
            cases hsilent
    | rethrew hstep _ _ | yields hstep _ =>
        cases h with
        | advances h =>
            rcases h with h | ⟨-, h, hserve⟩
            · rw [h] at hstep
              cases hstep
            · rw [h] at hstep
              cases hstep
              cases hserve
        | cast h _ =>
            rw [h] at hstep
            cases hstep

end Running

end Suspension
