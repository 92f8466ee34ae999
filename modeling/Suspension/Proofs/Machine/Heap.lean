import Mathlib.Tactic.Common
import Suspension.Machine.Execution
import Suspension.Proofs.Coroutine.Discipline

/-!
# What a machine never takes back

Classes stay loaded under their names, and **an object stays an object of its class**, whatever code
runs.  A relation between states that is respected by loading and by a few small changes is respected by
every action of a machine, from the smallest up to a call.

* `Machine.Extends` — nothing is taken back between two states.
* `Machine.Steady`, `Exec.SteadyLoad` — what small changes, initialisation and loading respect.
* `Exec.run_startWithin_fresh` — one initialisation, with what is run between its beginning and its end.
* `Exec.Keeps` — an action respects a relation; the lemmas for the parts of actions are rules of
  simplification.
* `Exec.keeps_call`, `Exec.keeps_answer` — calls and answers respect what loading does.
-/

namespace Suspension

namespace Machine

/-- **Nothing is taken back**: loaded classes keep their names, objects keep their classes. -/
structure Extends (s s' : Machine) : Prop where
  classes : ∀ (id : ClassId) (c : LoadedClass), s.classes[id]? = some c →
    ∃ c', s'.classes[id]? = some c' ∧ c'.file.name = c.file.name
  objects : ∀ (i : Nat) (o : HeapObject), s.objects[i]? = some o →
    ∃ o', s'.objects[i]? = some o' ∧ o'.cls = o.cls

variable {s s' s'' : Machine}

lemma Extends.refl (s : Machine) : Extends s s :=
  ⟨fun _ c h => ⟨c, h, rfl⟩, fun _ o h => ⟨o, h, rfl⟩⟩

lemma Extends.trans (h : Extends s s') (h' : Extends s' s'') : Extends s s'' where
  classes id c hc := by
    obtain ⟨c₁, hc₁, hn₁⟩ := h.classes id c hc
    obtain ⟨c₂, hc₂, hn₂⟩ := h'.classes id c₁ hc₁
    exact ⟨c₂, hc₂, hn₂.trans hn₁⟩
  objects i o ho := by
    obtain ⟨o₁, ho₁, hn₁⟩ := h.objects i o ho
    obtain ⟨o₂, ho₂, hn₂⟩ := h'.objects i o₁ ho₁
    exact ⟨o₂, ho₂, hn₂.trans hn₁⟩

/-- A change that leaves classes and objects alone takes nothing back. -/
lemma Extends.of_eq (hc : s'.classes = s.classes) (ho : s'.objects = s.objects) : Extends s s' :=
  ⟨fun _ c h => ⟨c, hc ▸ h, rfl⟩, fun _ o h => ⟨o, ho ▸ h, rfl⟩⟩

lemma Extends.push_class (s : Machine) (c : LoadedClass) :
    Extends s { s with classes := s.classes.push c } := by
  refine ⟨fun id c' h => ⟨c', ?_, rfl⟩, fun _ o h => ⟨o, h, rfl⟩⟩
  have hlt := (Array.getElem?_eq_some_iff.mp h).1
  rw [Array.getElem?_push_lt hlt, ← h, Array.getElem?_eq_getElem hlt]

lemma Extends.push_object (s : Machine) (o : HeapObject) :
    Extends s { s with objects := s.objects.push o } := by
  refine ⟨fun id c h => ⟨c, h, rfl⟩, fun i o' h => ⟨o', ?_, rfl⟩⟩
  have hlt := (Array.getElem?_eq_some_iff.mp h).1
  rw [Array.getElem?_push_lt hlt, ← h, Array.getElem?_eq_getElem hlt]

lemma Extends.modify_class (s : Machine) (id : ClassId) {f : LoadedClass → LoadedClass}
    (hf : ∀ c, (f c).file = c.file) : Extends s { s with classes := s.classes.modify id f } := by
  refine ⟨fun id' c h => ?_, fun _ o h => ⟨o, h, rfl⟩⟩
  by_cases hid : id = id'
  · subst hid
    exact ⟨f c, by simp [Array.getElem?_modify, h], by rw [hf]⟩
  · exact ⟨c, by simp [Array.getElem?_modify, hid, h], rfl⟩

lemma Extends.modifyObject (s : Machine) (id : ObjectId) {f : HeapObject → HeapObject}
    (hf : ∀ o, (f o).cls = o.cls) : Extends s (s.modifyObject id f) := by
  refine ⟨fun _ c h => ⟨c, h, rfl⟩, fun i o h => ?_⟩
  unfold Machine.modifyObject
  by_cases hid : id - 1 = i
  · subst hid
    exact ⟨f o, by simp [Array.getElem?_modify, h], hf o⟩
  · exact ⟨o, by simp [Array.getElem?_modify, hid, h], rfl⟩

/-- The machine with a class marked as far as its initialisation has come. -/
def marked (m : Machine) (id : ClassId) (st : InitState) : Machine :=
  { m with classes := m.classes.modify id fun c => { c with state := st } }

/-- The machine with the statics of a class changed. -/
def withStatics (m : Machine) (id : ClassId) (f : List (Text × Value) → List (Text × Value)) :
    Machine :=
  { m with classes := m.classes.modify id fun c => { c with statics := f c.statics } }

/-- **A relation between states that small changes respect**: all of them but the one that adds a class.  Of
a class that has been loaded only the statics change, and its initialisation goes on; an array keeps its
descriptor, and no coroutine is lost.

What is done between the beginning of an initialisation and its end is respected by itself, `start`; the
relation need not hold at the two ends alone. -/
class Steady (R : Machine → Machine → Prop) : Prop where
  refl (s : Machine) : R s s
  trans {s s' s'' : Machine} : R s s' → R s' s'' → R s s''
  of_eq {s s' : Machine} : s'.path = s.path → s'.classes = s.classes → s'.objects = s.objects →
    s'.arrays = s.arrays → s.coroutines.coroutines.size ≤ s'.coroutines.coroutines.size → R s s'
  push_object (s : Machine) (o : HeapObject) : R s { s with objects := s.objects.push o }
  modifyObject (s : Machine) (id : ObjectId) {f : HeapObject → HeapObject} :
    (∀ o, (f o).cls = o.cls) → R s (s.modifyObject id f)
  push_array (s : Machine) {a : HeapArray} :
    Descriptor.isArray a.desc = true → R s { s with arrays := s.arrays.push a }
  modify_array (s : Machine) (id : ArrayId) {f : HeapArray → HeapArray} :
    (∀ a, (f a).desc = a.desc) → R s { s with arrays := s.arrays.modify id f }
  withStatics (s : Machine) (id : ClassId) (f : List (Text × Value) → List (Text × Value)) :
    R s (s.withStatics id f)
  start {s s' : Machine} {id : ClassId} {c : LoadedClass} : s.classes[id]? = some c →
    c.state = .fresh → R (s.marked id .begun) s' → R s s' ∧ R s (s'.marked id .done)

/-- Where marks do not matter, the ends of an initialisation do not. -/
lemma start_of_marked {R : Machine → Machine → Prop}
    (trans : ∀ {s s' s'' : Machine}, R s s' → R s' s'' → R s s'')
    (hmark : ∀ (s : Machine) (id : ClassId) (st : InitState), R s (s.marked id st)) {s s' : Machine}
    {id : ClassId} (h : R (s.marked id .begun) s') : R s s' ∧ R s (s'.marked id .done) :=
  ⟨trans (hmark s id _) h, trans (trans (hmark s id _) h) (hmark s' id _)⟩

instance : Steady Extends where
  refl := .refl
  trans := .trans
  of_eq _ hc ho _ _ := .of_eq hc ho
  push_object := .push_object
  modifyObject s id _ hf := .modifyObject s id hf
  push_array _ _ _ := .of_eq rfl rfl
  modify_array _ _ _ _ := .of_eq rfl rfl
  withStatics s id _ := .modify_class s id fun _ => rfl
  start _ _ := start_of_marked .trans fun s id _ => .modify_class s id fun _ => rfl

end Machine

open Machine

namespace Exec

variable {α β : Type}

/-- **An action respects a relation**: it holds between the states before and after it. -/
def Keeps (R : Machine → Machine → Prop) (x : Exec α) : Prop := ∀ s : Machine, R s (x.run s).2

/-! ## Parts of actions -/

lemma run_bind (x : Exec α) (f : α → Exec β) (s : Machine) :
    (x >>= f).run s = match x.run s with
      | (.ok a, s') => (f a).run s'
      | (.error e, s') => (.error e, s') := by
  show (ExceptT.bind x f).run s = _
  unfold ExceptT.bind ExceptT.mk ExceptT.bindCont
  simp only [ExceptT.run, bind, StateT.bind]
  cases x s with
  | mk r s' => cases r <;> rfl

lemma run_tryCatch (x : Exec α) (f : Stop → Exec α) (s : Machine) :
    (tryCatch x f).run s = match x.run s with
      | (.ok a, s') => (.ok a, s')
      | (.error e, s') => (f e).run s' := by
  show (ExceptT.tryCatch x f).run s = _
  unfold ExceptT.tryCatch ExceptT.mk
  simp only [ExceptT.run, bind, StateT.bind]
  cases x s with
  | mk r s' => cases r <;> rfl

lemma run_attempt (x : Exec α) (s : Machine) :
    (attempt x).run s = match x.run s with
      | (.ok a, s') => (.ok (.ok a), s')
      | (.error (.fault f), s') => (.ok (.error f), s')
      | (.error stop, s') => (.error stop, s') := by
  unfold attempt
  simp only [ExceptT.run, tryCatch, tryCatchThe, MonadExceptOf.tryCatch, ExceptT.tryCatch, bind,
    ExceptT.bind, ExceptT.mk, ExceptT.bindCont, StateT.bind, throw, throwThe, MonadExceptOf.throw,
    EarlyReturn.runK, EarlyReturnT.return]
  cases x s with
  | mk r s' =>
      cases r with
      | ok a => rfl
      | error e => cases e <;> rfl

lemma run_andThen (x : Exec α) (after : Machine → Machine) (s : Machine) :
    (andThen x after).run s = ((x.run s).1, after (x.run s).2) := by
  unfold andThen
  simp only [ExceptT.run, tryCatch, tryCatchThe, MonadExceptOf.tryCatch, ExceptT.tryCatch, bind,
    ExceptT.bind, ExceptT.mk, ExceptT.bindCont, StateT.bind, throw, throwThe, MonadExceptOf.throw,
    EarlyReturn.runK, EarlyReturnT.return]
  cases x s with
  | mk r s' => cases r <;> rfl

/-- A descriptor with a dimension in front is one of an array. -/
lemma isArray_append (elem : Text) : Descriptor.isArray (Text.ofString "[" ++ elem) = true := by
  rw [show Text.ofString "[" = [0x5b] by decide]
  rfl

section

variable {R : Machine → Machine → Prop} [Steady R]

@[simp] lemma keeps_pure (a : α) : Keeps R (pure a : Exec α) := fun s => Steady.refl s

@[simp] lemma keeps_throw (e : Stop) : Keeps R (throw e : Exec α) := fun s => Steady.refl s

@[simp] lemma keeps_get : Keeps R (get : Exec Machine) := fun s => Steady.refl s

@[simp] lemma keeps_bind {x : Exec α} {f : α → Exec β} (hx : Keeps R x) (hf : ∀ a, Keeps R (f a)) :
    Keeps R (x >>= f) := by
  intro s
  have h₁ := hx s
  rw [run_bind]
  cases hr : x.run s with
  | mk r s₁ =>
      rw [hr] at h₁
      cases r with
      | ok a => exact Steady.trans h₁ (hf a s₁)
      | error e => exact h₁

@[simp] lemma keeps_map {x : Exec α} {f : α → β} (hx : Keeps R x) : Keeps R (f <$> x) := by
  have : f <$> x = x >>= fun a => pure (f a) := (bind_pure_comp f x).symm
  rw [this]
  exact keeps_bind hx fun a => keeps_pure _

omit [Steady R] in
lemma keeps_modifyGet {f : Machine → α × Machine} (hf : ∀ s, R s (f s).2) :
    Keeps R (modifyGet f : Exec α) := fun s => hf s

omit [Steady R] in
lemma keeps_modify {f : Machine → Machine} (hf : ∀ s, R s (f s)) :
    Keeps R (modify f : Exec Unit) := fun s => hf s

omit [Steady R] in
/-- An action that looks at the state first. -/
lemma keeps_get_bind {f : Machine → Exec β} (hf : ∀ s, R s ((f s).run s).2) :
    Keeps R (get >>= f) := fun s => hf s

@[simp] lemma keeps_tryCatch {x : Exec α} {f : Stop → Exec α} (hx : Keeps R x) (hf : ∀ e, Keeps R (f e)) :
    Keeps R (tryCatch x f) := by
  intro s
  have h₁ := hx s
  rw [run_tryCatch]
  cases hr : x.run s with
  | mk r s₁ =>
      rw [hr] at h₁
      cases r with
      | ok a => exact h₁
      | error e => exact Steady.trans h₁ (hf e s₁)

omit [Steady R] in
@[simp] lemma keeps_ite {c : Prop} [Decidable c] {x y : Exec α} (hx : Keeps R x) (hy : Keeps R y) :
    Keeps R (if c then x else y) := by
  split
  · exact hx
  · exact hy

@[simp] lemma keeps_fail (f : Fault) : Keeps R (fail f : Exec α) := keeps_throw _

@[simp] lemma keeps_crash : Keeps R (crash : Exec α) := keeps_throw _

@[simp] lemma keeps_require (o : Option α) : Keeps R (require o) := by
  cases o with
  | none => exact keeps_crash
  | some a => exact keeps_pure a

omit [Steady R] in
@[simp] lemma keeps_attempt {x : Exec α} (hx : Keeps R x) : Keeps R (attempt x) := by
  intro s
  have h₁ := hx s
  rw [run_attempt]
  generalize x.run s = r at h₁
  obtain ⟨r, s'⟩ := r
  cases r with
  | ok a => exact h₁
  | error e => cases e <;> exact h₁

@[simp] lemma keeps_guarded {x : Exec α} (hx : Keeps R x) : Keeps R (guarded x) := by
  unfold guarded
  refine keeps_tryCatch hx fun e => ?_
  cases e <;> simp

@[simp] lemma keeps_andThen {x : Exec α} {after : Machine → Machine} (hx : Keeps R x)
    (hafter : ∀ s, R s (after s)) : Keeps R (andThen x after) := by
  intro s
  rw [run_andThen]
  exact Steady.trans (hx s) (hafter _)

@[simp] lemma keeps_allocate (id : ClassId) (p : Payload) : Keeps R (allocate id p) :=
  keeps_modifyGet fun s => Steady.push_object s _

@[simp] lemma keeps_object (v : Value) : Keeps R (object v) := by
  unfold object
  split <;> simp

@[simp] lemma keeps_payload (v : Value) : Keeps R (payload v) := by simp [payload]

@[simp] lemma keeps_setField (id : ObjectId) (name : Text) (v : Value) :
    Keeps R (setField id name v) :=
  keeps_modify fun s => Steady.modifyObject s id fun _ => rfl

@[simp] lemma keeps_setPayload (id : ObjectId) (p : Payload) : Keeps R (setPayload id p) :=
  keeps_modify fun s => Steady.modifyObject s id fun _ => rfl

@[simp] lemma keeps_onStack (id : StackId) (op : FrameStack.Op Value) : Keeps R (onStack id op) := by
  unfold onStack
  have hsize : ∀ s : Machine,
      (s.coroutines.onStack id op).2.coroutines.size = s.coroutines.coroutines.size := fun s =>
    (Coroutines.sameStacks_onStack s.coroutines (some id) op).1.size
  refine keeps_bind (keeps_modifyGet fun s => Steady.of_eq rfl rfl rfl rfl (Nat.le_of_eq (hsize s).symm))
    fun a => ?_
  split <;> simp

/-! ## Classes -/

@[simp] lemma keeps_readClass (name : Text) : Keeps R (readClass name) := by
  unfold readClass
  refine keeps_bind keeps_get fun m => ?_
  split
  · simp
  · split <;> simp

@[simp] lemma keeps_transformed (c : Class) : Keeps R (transformed c) := by
  unfold transformed
  refine keeps_bind keeps_get fun m => ?_
  split
  · simp
  · refine keeps_bind (keeps_modifyGet fun s => Steady.of_eq rfl rfl rfl rfl (Nat.le_refl _)) fun r => ?_
    split <;> simp

lemma keeps_mapM {f : β → Exec α} (hf : ∀ b, Keeps R (f b)) (l : List β) : Keeps R (l.mapM f) := by
  induction l with
  | nil => simp
  | cons b l ih => simp [hf, ih]

/-- Loading respects what it respects to add a class. -/
lemma keeps_loadWithin_of_push
    (hpush : ∀ (s : Machine) (c : LoadedClass), R s { s with classes := s.classes.push c })
    (fuel : Nat) (name : Text) : Keeps R (loadWithin fuel name) := by
  induction fuel generalizing name with
  | zero => exact keeps_throw _
  | succ fuel ih =>
      unfold loadWithin
      refine keeps_bind keeps_get fun m => ?_
      split
      · simp
      · refine keeps_bind (keeps_readClass name) fun c => ?_
        refine keeps_bind (keeps_transformed c) fun file => ?_
        have hrest : ∀ super, Keeps R (do
            let interfaces ← file.interfaces.mapM (loadWithin fuel)
            modifyGet fun m =>
              (m.classes.size, { m with classes := m.classes.push (link m file super interfaces) })) :=
          fun super => keeps_bind (keeps_mapM ih _) fun interfaces =>
            keeps_modifyGet fun s => hpush s _
        dsimp only
        split
        · exact hrest none
        · exact keeps_bind (keeps_map (ih _)) hrest

end

/-- **A relation that loading respects** as well. -/
class SteadyLoad (R : Machine → Machine → Prop) : Prop extends Steady R where
  load (fuel : Nat) (name : Text) : Keeps R (loadWithin fuel name)

instance : SteadyLoad Extends where
  load := keeps_loadWithin_of_push .push_class

variable {R : Machine → Machine → Prop} [SteadyLoad R]

@[simp] lemma keeps_loadClass (name : Text) : Keeps R (loadClass name) := by
  simp [loadClass, SteadyLoad.load]

@[simp] lemma keeps_classOf (v : Value) : Keeps R (classOf v) := by
  unfold classOf
  split <;> simp

@[simp] lemma keeps_arrayFits (fuel : Nat) (desc want : Text) : Keeps R (arrayFits fuel desc want) := by
  induction fuel generalizing desc want with
  | zero => exact keeps_pure _
  | succ fuel ih =>
      unfold arrayFits
      refine keeps_ite (keeps_pure _) (keeps_ite (keeps_pure _) ?_)
      dsimp only
      split
      · refine keeps_ite (ih _ _) (keeps_bind (by simp) fun r => ?_)
        cases r <;> simp
      · exact keeps_pure _

@[simp] lemma keeps_isInstance (v : Value) (cls : Text) : Keeps R (isInstance v cls) := by
  unfold isInstance
  refine keeps_ite (keeps_pure _) ?_
  split
  · simp
  · refine keeps_bind (by simp) fun r => ?_
    cases r <;> simp

/-! ## Running code from within -/

/-- **The steps of an initialisation** between its beginning and its end: the superclass, if there is one,
and then the initialiser of the class itself. -/
def initialise (call : Caller) (fuel : Nat) (c : LoadedClass) : Exec Unit := do
  match c.super with
  | some s => startWithin call fuel s
  | none => pure ()
  match c.methods.lookup (Text.ofString "<clinit>()V") with
  | some m => let _ ← call m []
  | none => pure ()

section

variable {call : Caller} {fuel : Nat} {s : Machine} {id : ClassId} {c : LoadedClass}

lemma run_startWithin_none (hc : s.classes[id]? = none) :
    (startWithin call (fuel + 1) id).run s = (.error .crash, s) := by
  have hget : (get : Exec Machine).run s = (.ok s, s) := rfl
  rw [startWithin, run_bind, hget]
  simp only [hc]
  rfl

/-- A class that has been begun is not begun again. -/
lemma run_startWithin_started (hc : s.classes[id]? = some c) (hstate : c.state ≠ .fresh) :
    (startWithin call (fuel + 1) id).run s = (.ok (), s) := by
  have hget : (get : Exec Machine).run s = (.ok s, s) := rfl
  have hne : (c.state != .fresh) = true := bne_iff_ne.mpr hstate
  rw [startWithin, run_bind, hget]
  simp only [hc, require, pure_bind, hne, if_true]
  rfl

/-- **One initialisation**: the class is begun, its steps are run, and if they go well it is done. -/
lemma run_startWithin_fresh (hc : s.classes[id]? = some c) (hfresh : c.state = .fresh) :
    (startWithin call (fuel + 1) id).run s =
      match (initialise call fuel c).run (s.marked id .begun) with
      | (.ok (), s') => (.ok (), s'.marked id .done)
      | (.error e, s') => (.error e, s') := by
  have hget : (get : Exec Machine).run s = (.ok s, s) := rfl
  have hset : ∀ st, (setInitState id st).run s = (.ok (), s.marked id st) := fun _ => rfl
  have hne : (c.state != .fresh) = false := by simp [hfresh]
  rw [startWithin, run_bind, hget]
  simp only [hc, require, pure_bind, hne, Bool.false_eq_true, if_false, run_bind, hset]
  unfold initialise
  -- with or without a superclass and an initialiser, the same is run
  cases c.super with
  | none =>
      cases c.methods.lookup (Text.ofString "<clinit>()V") with
      | none => rfl
      | some m =>
          simp only [run_bind]
          cases (call m []).run (s.marked id .begun) with
          | mk r s' => cases r <;> rfl
  | some super =>
      simp only [run_bind]
      cases (startWithin call fuel super).run (s.marked id .begun) with
      | mk r s' =>
          cases r with
          | error e => rfl
          | ok _ =>
              cases c.methods.lookup (Text.ofString "<clinit>()V") with
              | none => rfl
              | some m =>
                  simp only [run_bind]
                  cases (call m []).run s' with
                  | mk r s' => cases r <;> rfl

end

section

variable {call : Caller} (hcall : ∀ m args, Keeps R (call m args))

include hcall

/-- What is run between the beginning and the end of an initialisation. -/
lemma keeps_initialise (fuel : Nat) (c : LoadedClass)
    (hsuper : ∀ id, Keeps R (startWithin call fuel id)) : Keeps R (initialise call fuel c) := by
  unfold initialise
  have hclinit : Keeps R (match c.methods.lookup (Text.ofString "<clinit>()V") with
      | some m => do let _ ← call m []
      | none => pure () : Exec Unit) := by
    split
    · exact keeps_bind (hcall _ _) fun _ => keeps_pure _
    · exact keeps_pure _
  dsimp only
  split
  · exact keeps_bind (hsuper _) fun _ => hclinit
  · exact hclinit

lemma keeps_startWithin (fuel : Nat) (id : ClassId) : Keeps R (startWithin call fuel id) := by
  induction fuel generalizing id with
  | zero => exact keeps_throw _
  | succ fuel ih =>
      intro s
      cases hc : s.classes[id]? with
      | none => exact (run_startWithin_none hc) ▸ Steady.refl s
      | some c =>
          by_cases hfresh : c.state = .fresh
          · have hbody := keeps_initialise hcall fuel c ih (s.marked id .begun)
            obtain ⟨herror, hok⟩ := Steady.start hc hfresh hbody
            rw [run_startWithin_fresh hc hfresh]
            generalize (initialise call fuel c).run (s.marked id .begun) = r at herror hok
            obtain ⟨r, s'⟩ := r
            cases r with
            | ok _ => exact hok
            | error e => exact herror
          · exact (run_startWithin_started hc hfresh) ▸ Steady.refl s

lemma keeps_startClass (name : Text) : Keeps R (startClass call name) := by
  simp [startClass, start, keeps_startWithin hcall]

lemma keeps_newException (cls message : Text) : Keeps R (newException call cls message) := by
  unfold newException
  refine keeps_bind (keeps_startClass hcall _) fun c => keeps_bind (keeps_allocate _ _) fun id => ?_
  exact keeps_ite (keeps_bind (keeps_setField _ _ _) fun _ => keeps_pure _) (keeps_pure _)

lemma keeps_raise (cls message : Text) : Keeps R (raise call cls message : Exec α) := by
  simp [raise, keeps_newException hcall]

lemma keeps_raiseFor (cls : Text) (cause : Fault) : Keeps R (raiseFor call cls cause : Exec α) := by
  simp [raiseFor, keeps_newException hcall]

lemma keeps_selectMethod (recv : Value) (name desc : Text) :
    Keeps R (selectMethod call recv name desc) := by
  unfold selectMethod
  refine keeps_ite (keeps_bind (keeps_raise hcall _ _) fun _ => ?_) ?_
  all_goals
    refine keeps_bind (keeps_classOf _) fun cls => keeps_bind keeps_get fun m => ?_
    split <;> simp

lemma keeps_callOn (recv : Value) (name desc : Text) (args : List Value) :
    Keeps R (callOn call recv name desc args) :=
  keeps_guarded (keeps_bind (keeps_selectMethod hcall _ _ _) fun _ => hcall _ _)

lemma keeps_textOf (v : Value) : Keeps R (textOf call v) := by
  unfold textOf
  split
  case h_8 =>
    refine keeps_bind (keeps_callOn hcall _ _ _ _) fun r => ?_
    split <;> simp
  all_goals simp

lemma keeps_passAll (i : Nat) (ps : List Text) (vs : List Value) : Keeps R (passAll call i ps vs) := by
  induction ps generalizing i vs with
  | nil => exact keeps_pure _
  | cons p ps ih =>
      cases vs with
      | nil => exact keeps_pure _
      | cons v vs =>
          unfold passAll
          split
          · exact keeps_bind (ih _ _) fun _ => keeps_pure _
          · exact keeps_raise hcall _ _

lemma keeps_reflectedReceiver (target : LoadedMethod) (recv : Value) :
    Keeps R (reflectedReceiver call target recv) := by
  unfold reflectedReceiver
  have hrest : Keeps R (do
      if !(← isInstance recv target.ownerName) then
        raise call "core/IllegalArgumentException"
          (Text.ofString "receiver is not an instance of " ++ target.ownerName)
      return [recv]) := by
    refine keeps_bind (keeps_isInstance _ _) fun b => ?_
    exact keeps_ite (keeps_bind (keeps_raise hcall _ _) fun _ => keeps_pure _) (keeps_pure _)
  refine keeps_ite (keeps_pure _) ?_
  exact keeps_ite (keeps_bind (keeps_raise hcall _ _) fun _ => hrest) hrest

lemma keeps_reflectedFault (passSignal : Bool) (f : Fault) :
    Keeps R (reflectedFault call passSignal f) := by
  unfold reflectedFault
  split
  · exact keeps_fail _
  · next obj _ _ =>
      have hrest : Keeps R (do
          let id ← allocate (← startClass call "core/reflect/InvocationTargetException") .none
          setField id "cause" (.object obj)
          fail (.thrownFor id f) : Exec Value) :=
        keeps_bind (keeps_startClass hcall _) fun _ => keeps_bind (keeps_allocate _ _) fun _ =>
          keeps_bind (keeps_setField _ _ _) fun _ => keeps_fail _
      refine keeps_bind keeps_get fun m => ?_
      exact keeps_ite (keeps_bind (keeps_fail _) fun _ => hrest) hrest

lemma keeps_reflectCall (method recv argArray : Value) (passSignal : Bool) :
    Keeps R (reflectCall call method recv argArray passSignal) := by
  unfold reflectCall
  dsimp only
  repeat' first
    | with_reducible exact keeps_raise hcall _ _
    | with_reducible exact keeps_selectMethod hcall _ _ _
    | with_reducible exact keeps_reflectedReceiver hcall _ _
    | with_reducible exact keeps_reflectedFault hcall _ _
    | with_reducible exact keeps_passAll hcall _ _ _
    | with_reducible exact keeps_attempt (hcall _ _)
    | (simp; done)
    | split
    | with_reducible refine keeps_bind ?_ fun _ => ?_

lemma keeps_reflectLookup (owner name desc : Text) : Keeps R (reflectLookup call owner name desc) := by
  unfold reflectLookup
  refine keeps_bind (keeps_attempt (keeps_startClass hcall _)) fun r => ?_
  cases r with
  | error f => exact keeps_raiseFor hcall _ _
  | ok c =>
      refine keeps_bind keeps_get fun m => ?_
      split
      · exact keeps_raise hcall _ _
      · exact keeps_bind (keeps_startClass hcall _) fun _ =>
          keeps_bind (keeps_allocate _ _) fun _ => keeps_pure _

/-! ## Coroutines and natives -/

omit hcall in
lemma keeps_addCoroutine (runnable : ObjectId) (size : Int) (name : Text) :
    Keeps R (addCoroutine runnable size name) := by
  refine keeps_get_bind fun s => ?_
  rw [run_bind]
  cases hadd : s.coroutines.add? size name with
  | none => exact Steady.refl s
  | some x => exact Steady.of_eq rfl rfl rfl rfl (Coroutines.size_add? hadd ▸ Nat.le_succ _)

omit hcall in
lemma keeps_leaveCoroutine (id : CoroutineId) (before : Option StackId) (suspended : Bool) :
    Keeps R (leaveCoroutine id before suspended) :=
  keeps_modify fun s => Steady.of_eq rfl rfl rfl rfl
    (Nat.le_of_eq (Coroutines.sameStacks_leave s.coroutines id before suspended).size.symm)

lemma keeps_runCoroutine (id : CoroutineId) : Keeps R (runCoroutine call id) := by
  refine keeps_get_bind fun s => ?_
  dsimp only
  split
  · exact Steady.refl s
  · next w hbegin =>
      have hset : R s { s with coroutines := w } := by
        obtain ⟨-, -, rfl⟩ := Coroutines.begin?_ok hbegin
        exact Steady.of_eq rfl rfl rfl rfl
          (Nat.le_of_eq (Coroutines.sameStacks_setState s.coroutines id .running).size.symm)
      rw [run_bind]
      refine Steady.trans hset (keeps_tryCatch ?_ (fun e => ?_) { s with coroutines := w })
      · exact keeps_bind (keeps_callOn hcall _ _ _ _) fun _ => keeps_leaveCoroutine _ _ _
      · cases e with
        | fault f =>
            refine keeps_bind keeps_get fun m => keeps_bind (keeps_leaveCoroutine _ _ _) fun _ => ?_
            exact keeps_ite (keeps_fail _) (keeps_pure _)
        | crash => exact keeps_bind (keeps_leaveCoroutine _ _ _) fun _ => keeps_throw _
        | exhausted => exact keeps_bind (keeps_leaveCoroutine _ _ _) fun _ => keeps_throw _

omit hcall in
@[simp] lemma keeps_stackOf (v : Value) : Keeps R (Native.stackOf v) := by
  refine keeps_bind (keeps_payload v) fun p => ?_
  split <;> simp

omit hcall in
@[simp] lemma keeps_coroutineOf (v : Value) : Keeps R (Native.coroutineOf v) := by
  refine keeps_bind (keeps_payload v) fun p => ?_
  split <;> simp

omit hcall in
@[simp] lemma keeps_ambientStack : Keeps R Native.ambientStack := by
  refine keeps_modifyGet fun s => ?_
  split
  · exact Steady.refl s
  · exact Steady.of_eq rfl rfl rfl rfl (Nat.le_refl _)

lemma keeps_makeCoroutine (self runnable : Value) (size : Option Value) :
    Keeps R (Native.makeCoroutine call self runnable size) := by
  unfold Native.makeCoroutine
  dsimp only
  repeat' first
    | with_reducible exact keeps_raise hcall _ _
    | with_reducible exact keeps_addCoroutine _ _ _
    | (simp; done)
    | split
    | with_reducible refine keeps_bind ?_ fun _ => ?_

lemma keeps_runObject (self : Value) : Keeps R (Native.runObject call self) := by
  unfold Native.runObject
  refine keeps_bind (keeps_coroutineOf _) fun id => ?_
  refine keeps_bind (keeps_attempt (keeps_runCoroutine hcall id)) fun r => ?_
  cases r with
  | ok _ => exact keeps_pure _
  | error f => exact keeps_ite (keeps_raiseFor hcall _ _) (keeps_fail _)

/-- **A native method** respects what loading does. -/
lemma keeps_native (n : Native) (args : List Value) : Keeps R (Native.run call n args) := by
  have hprint : ∀ t : Text, Keeps R (modify fun m : Machine => { m with printed := m.printed.push t }) :=
    fun t => keeps_modify fun _ => Steady.of_eq rfl rfl rfl rfl (Nat.le_refl _)
  unfold Native.run
  split
  all_goals
    repeat' first
      | with_reducible exact keeps_raise hcall _ _
      | with_reducible exact keeps_raiseFor hcall _ _
      | with_reducible exact keeps_textOf hcall _
      | with_reducible exact keeps_reflectLookup hcall _ _ _
      | with_reducible exact keeps_reflectCall hcall _ _ _ _
      | with_reducible exact keeps_startClass hcall _
      | with_reducible exact keeps_makeCoroutine hcall _ _ _
      | with_reducible exact keeps_runObject hcall _
      | with_reducible exact hprint _
      | (simp; done)
      | split
      | with_reducible refine keeps_bind ?_ fun _ => ?_

omit hcall in
lemma keeps_host (h : HostMethod) (args : List Value) : Keeps R (h.run args) := by
  unfold HostMethod.run
  split <;> simp

/-! ## Requests and calls -/

lemma keeps_arrayOf (v : Value) : Keeps R (arrayOf call v) := by
  unfold arrayOf
  split
  · exact keeps_bind keeps_get fun m => keeps_bind (keeps_require _) fun a => keeps_pure _
  · exact keeps_raise hcall _ _

lemma keeps_elementOf (v : Value) (index : Int32) : Keeps R (elementOf call v index) := by
  unfold elementOf
  refine keeps_bind (keeps_arrayOf hcall v) fun a => ?_
  exact keeps_ite (keeps_bind (keeps_raise hcall _ _) fun _ => keeps_pure _) (keeps_pure _)

lemma keeps_fieldOwner (v : Value) (name : Text) : Keeps R (fieldOwner call v name) := by
  unfold fieldOwner
  split
  · exact keeps_object _
  · exact keeps_raise hcall _ _

lemma keeps_staticOwner (m : Member) : Keeps R (staticOwner call m) := by
  unfold staticOwner
  refine keeps_bind (keeps_startClass hcall _) fun cls => keeps_bind keeps_get fun s => ?_
  split <;> simp

lemma keeps_calleeOf (mode : InvokeMode) (m : Member) (args : List Value) :
    Keeps R (calleeOf call mode m args) := by
  unfold calleeOf
  dsimp only
  repeat' first
    | with_reducible exact keeps_raise hcall _ _
    | with_reducible exact keeps_startClass hcall _
    | with_reducible exact keeps_map (keeps_selectMethod hcall _ _ _)
    | (simp; done)
    | split
    | with_reducible refine keeps_bind ?_ fun _ => ?_

lemma keeps_create (name : Text) : Keeps R (create call name) := by
  unfold create
  refine keeps_bind (keeps_startClass hcall _) fun cls => keeps_bind keeps_get fun s => ?_
  have hrest : Keeps R (do return Value.object (← allocate cls .none)) :=
    keeps_bind (keeps_allocate _ _) fun _ => keeps_pure _
  exact keeps_ite (keeps_bind (keeps_raise hcall _ _) fun _ => hrest) hrest

lemma keeps_castFailed (v : Value) (cls : Text) : Keeps R (castFailed call v cls) := by
  unfold castFailed
  refine keeps_bind (keeps_attempt (keeps_classOf v)) fun r => ?_
  dsimp only
  repeat' first
    | with_reducible exact keeps_raise hcall _ _
    | (simp; done)
    | split
    | with_reducible refine keeps_bind ?_ fun _ => ?_

lemma keeps_putElement (k : Kind) (arr : Value) (index : Int32) (v : Value) :
    Keeps R (putElement call k arr index v) := by
  unfold putElement
  refine keeps_bind (keeps_elementOf hcall arr index) fun x => ?_
  have hset : Keeps R (modify fun m : Machine => { m with
      arrays := m.arrays.modify x.1 fun a => { a with elems := a.elems.set! x.2.2 v } }) :=
    keeps_modify fun s => Steady.modify_array s x.1 fun _ => rfl
  refine keeps_ite (keeps_bind (keeps_isInstance _ _) fun b => ?_) hset
  exact keeps_ite (keeps_bind (keeps_raise hcall _ _) fun _ => hset) hset

/-- **The answer to a request** respects what loading does. -/
lemma keeps_answer (r : Request) : Keeps R (answer call r) := by
  unfold answer
  cases r with
  | fail f => exact keeps_fail f
  | raise cls message => exact keeps_raise hcall _ _
  | throw obj => exact keeps_fail _
  | getStatic m =>
      exact keeps_bind (keeps_staticOwner hcall m) fun _ => keeps_bind keeps_get fun _ => keeps_pure _
  | putStatic m v =>
      refine keeps_bind (keeps_staticOwner hcall m) fun owner => keeps_bind (keeps_require v) fun v => ?_
      exact keeps_bind (keeps_modify fun s => Steady.withStatics s owner (putName m.name v))
        fun _ => keeps_pure _
  | getField obj name => exact keeps_bind (keeps_fieldOwner hcall obj name) fun _ => keeps_pure _
  | putField obj name v =>
      exact keeps_bind (keeps_fieldOwner hcall obj name) fun _ =>
        keeps_bind (keeps_setField _ _ _) fun _ => keeps_pure _
  | getElement arr index => exact keeps_bind (keeps_elementOf hcall arr index) fun _ => keeps_pure _
  | putElement k arr index v =>
      exact keeps_bind (keeps_putElement hcall k arr index v) fun _ => keeps_pure _
  | length arr => exact keeps_bind (keeps_arrayOf hcall arr) fun _ => keeps_pure _
  | create cls => exact keeps_bind (keeps_create hcall cls) fun _ => keeps_pure _
  | createArray elem size =>
      exact keeps_bind (keeps_modifyGet fun s => Steady.push_array s (isArray_append elem))
        fun _ => keeps_pure _
  | cast v cls =>
      refine keeps_bind (keeps_isInstance v cls) fun b => ?_
      exact keeps_ite (keeps_pure _) (keeps_castFailed hcall v cls)
  | isInstance v cls => exact keeps_bind (keeps_isInstance v cls) fun _ => keeps_pure _
  | invoke mode m args isVoid =>
      exact keeps_bind (keeps_calleeOf hcall mode m args) fun _ =>
        keeps_bind (hcall _ _) fun _ => keeps_pure _

/-- An activation respects what loading does, from step to step. -/
lemma keeps_loop (m : LoadedMethod) (fuel : Nat) (a : Activation) (s : Machine) :
    R s (loop call m fuel a s).2 := by
  induction fuel generalizing a s with
  | zero => exact Steady.refl s
  | succ fuel ih =>
      unfold loop
      split
      · exact ih _ _
      · exact Steady.refl s
      · exact Steady.refl s
      · exact Steady.refl s
      · next r a' _ =>
          have hanswer := keeps_answer hcall r s
          split
          · next h => rw [h] at hanswer; exact Steady.trans hanswer (ih _ _)
          · next h =>
              rw [h] at hanswer
              split
              · exact Steady.trans hanswer (ih _ _)
              · exact hanswer
          · next h => rw [h] at hanswer; exact hanswer

lemma keeps_runNative (m : LoadedMethod) (args : List Value) : Keeps R (runNative call m args) := by
  unfold runNative
  refine keeps_bind keeps_get fun s => ?_
  split
  · exact keeps_host _ _
  · split
    · exact keeps_native hcall _ _
    · exact keeps_fail _

lemma keeps_callOnce (fuel : Nat) (m : LoadedMethod) (args : List Value) :
    Keeps R (callOnce call fuel m args) := by
  unfold callOnce
  refine keeps_bind keeps_get fun s => ?_
  have hbody : Keeps R (do
      modify fun s => { s with depth := s.depth + 1 }
      andThen (ExceptT.mk fun s => loop call m fuel (.enter m.method args) s)
        fun s => { s with depth := s.depth - 1 }) := by
    refine keeps_bind (keeps_modify fun _ => Steady.of_eq rfl rfl rfl rfl (Nat.le_refl _)) fun _ =>
      keeps_andThen ?_ ?_
    · exact fun s => keeps_loop hcall m fuel _ s
    · exact fun s => Steady.of_eq rfl rfl rfl rfl (Nat.le_refl _)
  dsimp only
  repeat' first
    | with_reducible exact keeps_raise hcall _ _
    | with_reducible exact keeps_runNative hcall _ _
    | with_reducible exact hbody
    | simp
    | split
    | with_reducible refine keeps_bind ?_ fun _ => ?_

end

/-- **A call** respects what loading does. -/
lemma keeps_call (fuel : Nat) (m : LoadedMethod) (args : List Value) : Keeps R (call fuel m args) := by
  induction fuel generalizing m args with
  | zero => exact keeps_throw _
  | succ fuel ih => exact keeps_callOnce ih fuel m args

end Exec

end Suspension
