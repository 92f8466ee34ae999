import Suspension.Proofs.Machine.Linking
import Suspension.Proofs.Machine.Outcome

/-!
# Initialisations that fail

A class is marked as begun before its superclass and its own initialiser are run, so that they can use
it, and as done behind them.  A use looks at neither mark: it only asks whether the class has been
begun.  **The mark of a failed initialisation is that of one under way**, it stays for ever, and every
later use of the class goes on as if the class were initialised; the initialiser is not run again.

A moment later may lie within other initialisations, under way around the failure or begun after it, so
the states to speak about are not those between whole runs alone.  What carries the argument to all of
them is one relation, `LeavesBegun`, that every action respects: an initialisation within it begins
with a class that is fresh, and can mark no other.

* `Machine.LeavesBegun` — of classes that have been begun nothing is marked anew.
* `Machine.Later` — what a machine may have come to after an initialisation failed.
* `Machine.PassesAsStarted` — every use of a class goes on with it.
* `Machine.passes_after_failure` — a class whose initialisation failed passes at any later moment.
-/

namespace Suspension

open Exec

namespace Machine

variable {s s' s'' : Machine} {id : ClassId} {name : Text}

/-! ## Marks that stay -/

/-- How far the initialisation of a class has come. -/
def progress? (s : Machine) (id : ClassId) : Option InitState := (s.classes[id]?).map (·.state)

/-- Marking a class leaves the others alone. -/
lemma marked_other {other : ClassId} (hne : other ≠ id) (st : InitState) :
    (s.marked other st).classes[id]? = s.classes[id]? := by
  simp [marked, Array.getElem?_modify, hne]

lemma marked_self {c : LoadedClass} (hc : s.classes[id]? = some c) (st : InitState) :
    (s.marked id st).classes[id]? = some { c with state := st } := by
  simp [marked, Array.getElem?_modify, hc]

/-- **Loaded classes keep their names, and those that have been begun keep their marks.** -/
def LeavesBegun (s s' : Machine) : Prop :=
  ∀ (id : ClassId) (c : LoadedClass), s.classes[id]? = some c →
    ∃ c', s'.classes[id]? = some c' ∧ c'.file.name = c.file.name ∧
      (c.state ≠ .fresh → c'.state = c.state)

namespace LeavesBegun

lemma refl (s : Machine) : LeavesBegun s s := fun _ c hc => ⟨c, hc, rfl, fun _ => rfl⟩

lemma trans (h : LeavesBegun s s') (h' : LeavesBegun s' s'') : LeavesBegun s s'' := by
  intro id c hc
  obtain ⟨c₁, hc₁, hn₁, hs₁⟩ := h id c hc
  obtain ⟨c₂, hc₂, hn₂, hs₂⟩ := h' id c₁ hc₁
  refine ⟨c₂, hc₂, hn₂.trans hn₁, fun hne => ?_⟩
  have hs := hs₁ hne
  exact (hs₂ (hs ▸ hne)).trans hs

lemma of_eq (h : s'.classes = s.classes) : LeavesBegun s s' :=
  fun _ c hc => ⟨c, h ▸ hc, rfl, fun _ => rfl⟩

lemma push_class (s : Machine) (c : LoadedClass) :
    LeavesBegun s { s with classes := s.classes.push c } := by
  intro id d hd
  have hlt := (Array.getElem?_eq_some_iff.mp hd).1
  refine ⟨d, ?_, rfl, fun _ => rfl⟩
  rw [Array.getElem?_push_lt hlt, ← hd, Array.getElem?_eq_getElem hlt]

lemma withStatics (s : Machine) (id : ClassId) (f : List (Text × Value) → List (Text × Value)) :
    LeavesBegun s (s.withStatics id f) := by
  intro id' c hc
  by_cases hid : id = id'
  · subst hid
    exact ⟨{ c with statics := f c.statics },
      by simp [Machine.withStatics, Array.getElem?_modify, hc], rfl, fun _ => rfl⟩
  · exact ⟨c, by simp [Machine.withStatics, Array.getElem?_modify, hid, hc], rfl, fun _ => rfl⟩

/-- **An initialisation of a class that is fresh** marks nothing else anew. -/
lemma start {c : LoadedClass} (hc : s.classes[id]? = some c) (hfresh : c.state = .fresh)
    (h : LeavesBegun (s.marked id .begun) s') :
    LeavesBegun s s' ∧ LeavesBegun s (s'.marked id .done) := by
  have hself := h id _ (marked_self hc .begun)
  obtain ⟨c', hc', hname, -⟩ := hself
  refine ⟨fun id' d hd => ?_, fun id' d hd => ?_⟩ <;> by_cases hid : id = id'
  · subst hid
    obtain rfl : c = d := Option.some.inj (hc.symm.trans hd)
    exact ⟨c', hc', hname, fun hne => absurd hfresh hne⟩
  · exact h id' d (by rw [marked_other hid, hd])
  · subst hid
    obtain rfl : c = d := Option.some.inj (hc.symm.trans hd)
    exact ⟨_, marked_self hc' .done, hname, fun hne => absurd hfresh hne⟩
  · obtain ⟨d', hd', hrest⟩ := h id' d (by rw [marked_other hid, hd])
    exact ⟨d', by rw [marked_other hid, hd'], hrest⟩

end LeavesBegun

/-- **Whatever a machine does, marks stay.** -/
instance : Steady LeavesBegun where
  refl := .refl
  trans := .trans
  of_eq _ hc _ _ _ := .of_eq hc
  push_object _ _ := .of_eq rfl
  modifyObject _ _ _ _ := .of_eq rfl
  push_array _ _ _ := .of_eq rfl
  modify_array _ _ _ _ := .of_eq rfl
  withStatics := .withStatics
  start hc hfresh h := LeavesBegun.start hc hfresh h

instance : SteadyLoad LeavesBegun where
  load := keeps_loadWithin_of_push .push_class

/-! ## Later moments -/

/-- **The actions of a machine that are whole**, from outside or within a call. -/
inductive Whole : ∀ {α : Type}, Exec α → Prop
  | load (fuel : Nat) (name : Text) : Whole (loadWithin fuel name)
  | start (fuel : Nat) (name : Text) : Whole (startClass (call fuel) name)
  | call (fuel : Nat) (m : LoadedMethod) (args : List Value) : Whole (Exec.call fuel m args)
  | answer (fuel : Nat) (r : Request) : Whole (answer (Exec.call fuel) r)
  | native (fuel : Nat) (n : Native) (args : List Value) : Whole (n.run (Exec.call fuel) args)
  | resume (fuel : Nat) (id : CoroutineId) : Whole (runCoroutine (Exec.call fuel) id)

lemma Whole.leavesBegun {α : Type} {x : Exec α} (hx : Whole x) : Keeps LeavesBegun x := by
  cases hx with
  | load fuel name => exact SteadyLoad.load fuel name
  | start fuel name => exact keeps_startClass (keeps_call fuel) name
  | call fuel m args => exact keeps_call fuel m args
  | answer fuel r => exact keeps_answer (keeps_call fuel) r
  | native fuel n args => exact keeps_native (keeps_call fuel) n args
  | resume fuel id => exact keeps_runCoroutine (keeps_call fuel) id

/-- **What a machine may have come to later** than a failed initialisation of class `id`: by whole
actions, by changes that leave the classes alone, and by initialisations of other classes, of which some
were under way around the failed one and end now and others have only begun.  None of these is of class
`id`, which was fresh when its initialisation began, and has not been since. -/
inductive Later (id : ClassId) (s : Machine) : Machine → Prop
  | now : Later id s s
  | whole {s' : Machine} {α : Type} {x : Exec α} (h : Later id s s') (hx : Whole x) :
      Later id s (x.run s').2
  | other {s' s'' : Machine} (h : Later id s s') (hc : s''.classes = s'.classes) : Later id s s''
  | mark {s' : Machine} {other : ClassId} (h : Later id s s') (hne : other ≠ id) (st : InitState) :
      Later id s (s'.marked other st)

/-- A class that has been begun keeps its mark at any later moment. -/
lemma Later.keeps (h : Later id s s') {c : LoadedClass} (hc : s.classes[id]? = some c)
    (hstate : c.state ≠ .fresh) :
    ∃ c', s'.classes[id]? = some c' ∧ c'.state = c.state := by
  induction h with
  | now => exact ⟨c, hc, rfl⟩
  | whole _ hx ih =>
      obtain ⟨c₁, hc₁, hs₁⟩ := ih
      obtain ⟨c₂, hc₂, -, hs₂⟩ := hx.leavesBegun _ id c₁ hc₁
      exact ⟨c₂, hc₂, (hs₂ (hs₁ ▸ hstate)).trans hs₁⟩
  | other _ hsame ih => exact hsame ▸ ih
  | mark _ hne st ih =>
      obtain ⟨c₁, hc₁, hs₁⟩ := ih
      exact ⟨c₁, by rw [marked_other hne, hc₁], hs₁⟩

/-- All classes keep their names. -/
lemma Later.extends (h : Later id s s') {i : ClassId} {c : LoadedClass}
    (hc : s.classes[i]? = some c) : ∃ c', s'.classes[i]? = some c' ∧ c'.file.name = c.file.name := by
  induction h with
  | now => exact ⟨c, hc, rfl⟩
  | whole _ hx ih =>
      obtain ⟨c₁, hc₁, hn₁⟩ := ih
      obtain ⟨c₂, hc₂, hn₂, -⟩ := hx.leavesBegun _ i c₁ hc₁
      exact ⟨c₂, hc₂, hn₂.trans hn₁⟩
  | other _ hsame ih => exact hsame ▸ ih
  | @mark s₁ other _ hne st ih =>
      obtain ⟨c₁, hc₁, hn₁⟩ := ih
      by_cases hi : other = i
      · exact ⟨{ c₁ with state := st }, by rw [hi, marked_self hc₁], hn₁⟩
      · exact ⟨c₁, by rw [marked_other hi, hc₁], hn₁⟩

/-- The class of a name is the same when the classes that were there keep their names. -/
lemma classNamed?_of_extends (hid : s.classNamed? name = some id)
    (h : ∀ {i : ClassId} {c : LoadedClass}, s.classes[i]? = some c →
      ∃ c', s'.classes[i]? = some c' ∧ c'.file.name = c.file.name) :
    s'.classNamed? name = some id := by
  obtain ⟨hlt, hname, hfirst⟩ := Array.findIdx?_eq_some_iff_getElem.mp hid
  obtain ⟨c', hc', hn'⟩ := h (Array.getElem?_eq_getElem hlt)
  obtain ⟨hlt', rfl⟩ := Array.getElem?_eq_some_iff.mp hc'
  refine Array.findIdx?_eq_some_iff_getElem.mpr ⟨hlt', by rwa [hn'], fun j hj => ?_⟩
  obtain ⟨d', hd', hm'⟩ := h (Array.getElem?_eq_getElem (Nat.lt_trans hj hlt))
  obtain ⟨hltj, hdj⟩ := Array.getElem?_eq_some_iff.mp hd'
  rw [hdj, hm']
  exact hfirst j hj

/-! ## Uses of a class -/

/-- **A class passes as initialised**: whatever uses it goes on with it at once and in the same state, so
that no initialiser is run.  `call` is how methods are called. -/
structure PassesAsStarted (s : Machine) (name : Text) (id : ClassId) : Prop where
  start (call : Caller) : (startClass call name).run s = (.ok id, s)
  new (call : Caller) {c : LoadedClass} (hc : s.classes[id]? = some c)
    (hflags : Flag.has c.file.flags (Flag.abstractBit ||| Flag.interfaceBit) = false) :
    (answer call (.create name)).run s =
      (.ok (some (.object (s.objects.size + 1))), ((allocate id .none).run s).2)
  getStatic (call : Caller) {field desc : Text} {owner : ClassId}
    (hfield : Machine.staticOwner s.classes field (id + 1) id = some owner) :
    (answer call (.getStatic ⟨name, field, desc⟩)).run s =
      (.ok (some (((s.classes[owner]?).bind (·.statics.lookup field)).getD .null)), s)
  putStatic (call : Caller) {field desc : Text} {owner : ClassId} (v : Value)
    (hfield : Machine.staticOwner s.classes field (id + 1) id = some owner) :
    (answer call (.putStatic ⟨name, field, desc⟩ (some v))).run s =
      (.ok none, s.withStatics owner (putName field v))
  invokeStatic (call : Caller) {method desc : Text} {m : LoadedMethod} (args : List Value)
    (isVoid : Bool) (hfind : s.findMethod id method desc = some m) :
    (answer call (.invoke .static ⟨name, method, desc⟩ args isVoid)).run s =
      ((fun v => if isVoid then none else some v) <$> call m args).run s
  invoke {method desc : Text} {m : LoadedMethod} {args : List Value} {v : Value} {s' : Machine}
    (hfind : s.findMethod id method desc = some m) (hstatic : m.method.isStatic = true)
    (hcall : (caller m args).run s = (.ok v, s')) :
    (Machine.invoke name method desc args).run s = (.ok v, s')

/-- What goes well is not guarded against. -/
lemma run_guarded_of_ok {α : Type} {x : Exec α} {a : α} (h : x.run s = (.ok a, s')) :
    (guarded x).run s = (.ok a, s') := by
  unfold guarded
  rw [run_tryCatch, h]

section

variable {c : LoadedClass} (hid : s.classNamed? name = some id) (hc : s.classes[id]? = some c)
  (hstate : c.state ≠ .fresh)

include hid hc hstate

/-- A class that has been begun is not started again. -/
lemma run_startClass_started (call : Caller) : (startClass call name).run s = (.ok id, s) := by
  have hstart : (start call id).run s = (.ok (), s) := run_startWithin_started hc hstate
  unfold startClass
  rw [run_bind_of_ok (run_loadClass_named hid), run_bind_of_ok hstart]
  rfl

/-- **A class passes as initialised once it has been begun**, whatever came of it. -/
lemma passes_of_begun : s.PassesAsStarted name id where
  start call := run_startClass_started hid hc hstate call
  new call := by
    intro c' hc' hflags
    obtain rfl : c = c' := Option.some.inj (hc.symm.trans hc')
    have hcreate : (create call name).run s =
        (.ok (.object (s.objects.size + 1)), ((allocate id .none).run s).2) := by
      unfold create
      rw [run_bind_of_ok (run_startClass_started hid hc hstate call), run_get_bind, hc]
      simp only [Option.map_some, Option.getD_some, hflags, Bool.false_eq_true, if_false]
      rfl
    exact (run_bind_of_ok hcreate).trans rfl
  getStatic call := by
    intro field desc owner hfield
    have howner : (Exec.staticOwner call ⟨name, field, desc⟩).run s = (.ok owner, s) := by
      unfold Exec.staticOwner
      rw [run_bind_of_ok (run_startClass_started hid hc hstate call), run_get_bind, hfield]
      rfl
    exact (run_bind_of_ok howner).trans rfl
  putStatic call := by
    intro field desc owner v hfield
    have howner : (Exec.staticOwner call ⟨name, field, desc⟩).run s = (.ok owner, s) := by
      unfold Exec.staticOwner
      rw [run_bind_of_ok (run_startClass_started hid hc hstate call), run_get_bind, hfield]
      rfl
    exact (run_bind_of_ok howner).trans rfl
  invokeStatic call := by
    intro method desc m args isVoid hfind
    have hcallee : (calleeOf call .static ⟨name, method, desc⟩ args).run s = (.ok m, s) := by
      unfold calleeOf
      dsimp only
      rw [run_bind_of_ok (run_startClass_started hid hc hstate call), run_get_bind]
      simp only [pure_bind, hfind]
      rfl
    refine (run_bind_of_ok hcallee).trans ?_
    rw [← bind_pure_comp]
  invoke := by
    intro method desc m args v s' hfind hstatic hcall
    unfold Machine.invoke
    generalize caller = call at hcall ⊢
    have hattempt : (attempt (call m args)).run s = (.ok (.ok v), s') := by
      rw [run_attempt, hcall]
    refine run_guarded_of_ok ?_
    rw [run_bind_of_ok (run_startClass_started hid hc hstate call), run_get_bind]
    simp only [hfind, hstatic, if_true]
    rw [run_bind_of_ok hattempt]
    rfl

end

/-- **A class whose initialisation failed passes as initialised at any later moment**: it is never marked
as done, and never started again. -/
theorem passes_after_failure {fuel depth : Nat} {e : Stop} (hid : s.classNamed? name = some id)
    (hfail : (startWithin (call fuel) (depth + 1) id).run s = (.error e, s'))
    (hlater : Later id s' s'') :
    s''.progress? id = some .begun ∧ s''.PassesAsStarted name id := by
  obtain ⟨hlt, -, -⟩ := Array.findIdx?_eq_some_iff_getElem.mp hid
  obtain ⟨c, hc⟩ : ∃ c, s.classes[id]? = some c := ⟨_, Array.getElem?_eq_getElem hlt⟩
  -- a class that has been begun is not started again, so its start cannot fail
  have hfresh : c.state = .fresh := by
    by_contra hne
    rw [run_startWithin_started hc hne] at hfail
    cases hfail
  have hsteps : LeavesBegun (s.marked id .begun)
      ((initialise (call fuel) depth c).run (s.marked id .begun)).2 :=
    keeps_initialise (keeps_call fuel) depth c (keeps_startWithin (keeps_call fuel) depth) _
  rw [run_startWithin_fresh hc hfresh] at hfail
  generalize (initialise (call fuel) depth c).run (s.marked id .begun) = r at hsteps hfail
  obtain ⟨r, s₁⟩ := r
  cases r with
  | ok _ => cases hfail
  | error e' =>
      obtain ⟨-, rfl⟩ := Prod.mk.inj hfail
      have hkept := (LeavesBegun.start hc hfresh hsteps).1
      obtain ⟨c', hc', -, hstate'⟩ := hsteps id _ (marked_self hc .begun)
      have hbegun : c'.state = .begun := hstate' (by simp)
      have hnamed' := classNamed?_of_extends hid fun hi => by
        obtain ⟨d, hd, hn, -⟩ := hkept _ _ hi
        exact ⟨d, hd, hn⟩
      obtain ⟨c'', hc'', hstate''⟩ := hlater.keeps hc' (by simp [hbegun])
      have hnamed'' := classNamed?_of_extends hnamed' hlater.extends
      rw [hbegun] at hstate''
      exact ⟨by simp [progress?, hc'', hstate''],
        passes_of_begun hnamed'' hc'' (by simp [hstate''])⟩

/-! ### A class whose initialiser throws -/

/-- **A call of a method with a body**: its activation is run one level deeper. -/
lemma run_call_body {fuel : Nat} {m : LoadedMethod} {args : List Value} {r : Except Stop Value}
    (hcanceled : s.canceled = false) (hnative : m.method.isNative = false)
    (habstract : m.method.isAbstract = false) (hdepth : s.depth < s.maxDepth)
    (hloop : loop (call fuel) m fuel (.enter m.method args) { s with depth := s.depth + 1 } =
      (r, s')) :
    (call (fuel + 1) m args).run s = (r, { s' with depth := s'.depth - 1 }) := by
  have hmodify : (modify fun s : Machine => { s with depth := s.depth + 1 } : Exec Unit).run s =
      (.ok (), { s with depth := s.depth + 1 }) := rfl
  have hrun : (ExceptT.mk fun s => loop (call fuel) m fuel (.enter m.method args) s : Exec Value).run
      { s with depth := s.depth + 1 } = (r, s') := hloop
  rw [call, callOnce, run_get_bind]
  dsimp only
  rw [if_neg (by simp [hcanceled]), if_neg (by simp [hnative]), if_neg (by simp [habstract]),
    if_neg (Nat.not_le.mpr hdepth), run_bind_of_ok hmodify, run_andThen, hrun]

lemma run_bind_of_error {α β : Type} {x : Exec α} {f : α → Exec β} {e : Stop}
    (h : x.run s = (.error e, s')) : (x >>= f).run s = (.error e, s') := by
  rw [run_bind, h]

lemma run_initialise_of_error {call : Caller} {fuel : Nat} {c : LoadedClass} {m : LoadedMethod}
    {e : Stop} (hsuper : c.super = none)
    (hclinit : c.methods.lookup (Text.ofString "<clinit>()V") = some m)
    (hcall : (call m []).run s = (.error e, s')) :
    (initialise call fuel c).run s = (.error e, s') := by
  unfold initialise
  rw [hclinit, hsuper]
  exact run_bind_of_error hcall

section

variable {call : Caller} {m : LoadedMethod} {fuel : Nat} {a a' : Activation} {r : Request}
  (hstep : a.step m.body = .asks r a')

include hstep

lemma loop_answered {v : Option Value} (hanswer : (answer call r).run s = (.ok v, s')) :
    loop call m (fuel + 1) a s = loop call m fuel (a'.answered v) s' := by
  simp only [loop, hstep, hanswer]

lemma loop_thrown {f : Fault} (hanswer : (answer call r).run s = (.error (.fault f), s'))
    (huncaught : handled m a' f s' = none) :
    loop call m (fuel + 1) a s = (.error (.fault f), s') := by
  simp only [loop, hstep, hanswer, huncaught]

end

/-- A class with a static field and an initialiser that throws. -/
def moody : Class where
  name := "t/A"
  fields := [{ name := "x", desc := "I", flags := Flag.staticBit }]
  methods := [{ name := "<clinit>", desc := "()V", flags := Flag.staticBit, maxStack := 1,
                code := #[.type .new "t/E", .plain .throw] }]

/-- The class, loaded behind a class of exceptions. -/
def moodyLoaded : LoadedClass :=
  link { classes := #[Native.readied { name := "t/E" }] } moody none []

/-- A machine that has loaded both. -/
def untried : Machine where
  classes := #[Native.readied { name := "t/E" }, moodyLoaded]

/-- The machine after the first use of the class: the exception is there, and the class has been begun. -/
def tried : Machine := { untried.marked 1 .begun with objects := #[{ cls := 0 }] }

/-- The initialiser, loaded. -/
def moodyStart : LoadedMethod where
  owner := 1
  ownerName := "t/A"
  method := moody.methods.head!
  body := .ofMethod moody.methods.head!

lemma untried_named : untried.classNamed? "t/A" = some 1 := by decide +kernel

lemma run_create_exception (call : Caller) (depth : Nat) :
    (answer call (.create "t/E")).run { untried.marked 1 .begun with depth } =
      (.ok (some (.object 1)), { tried with depth }) := by
  have hnamed : Machine.classNamed? { untried.marked 1 .begun with depth } "t/E" = some 0 :=
    show (untried.marked 1 .begun).classNamed? "t/E" = some 0 by decide +kernel
  have hflags : Flag.has (Native.readied { name := "t/E" }).file.flags
      (Flag.abstractBit ||| Flag.interfaceBit) = false := by decide
  exact (passes_of_begun (c := Native.readied { name := "t/E" }) hnamed rfl (by decide)).new _ rfl
    hflags

/-- The initialiser throws a new exception. -/
lemma run_moodyStart : (call 10 moodyStart []).run (untried.marked 1 .begun) =
    (.error (.fault (.thrown 1)), tried) := by
  let a : Activation := .enter moodyStart.method []
  have hcreate : a.step moodyStart.body = .asks (.create "t/E") a := rfl
  have hthrow : (a.answered (some (.object 1))).step moodyStart.body =
      .asks (.throw 1) { a with pc := 1 } := rfl
  have hloop : ∀ depth, loop (call 9) moodyStart 9 a { untried.marked 1 .begun with depth } =
      (.error (.fault (.thrown 1)), { tried with depth }) := by
    intro depth
    rw [loop_answered hcreate (run_create_exception (call 9) depth)]
    exact loop_thrown hthrow rfl rfl
  exact run_call_body rfl rfl rfl (by decide) (hloop _)

/-- The first use of the class fails. -/
lemma run_startWithin_moody : (startWithin (call 10) 2 1).run untried =
    (.error (.fault (.thrown 1)), tried) := by
  have hclinit : moodyLoaded.methods.lookup (Text.ofString "<clinit>()V") = some moodyStart := rfl
  rw [run_startWithin_fresh (c := moodyLoaded) rfl rfl,
    run_initialise_of_error rfl hclinit run_moodyStart]

/-- The theorem at a class whose initialiser throws. -/
theorem moody_passes : ∃ e s, (startWithin (call 10) 2 1).run untried = (.error e, s) ∧
    s.progress? 1 = some .begun ∧ s.PassesAsStarted "t/A" 1 :=
  ⟨_, tried, run_startWithin_moody, passes_after_failure untried_named run_startWithin_moody .now⟩

/-- **A failed initialisation taken for a success**: the initialiser throws at the first use of the class,
and the field is read at the second as if it had run. -/
theorem moody_not_refused : ∃ s, untried.classNamed? "t/A" = some 1 ∧
    (startClass (call 10) "t/A").run untried = (.error (.fault (.thrown 1)), s) ∧
    (startClass (call 10) "t/A").run s = (.ok 1, s) ∧
    (answer (call 10) (.getStatic ⟨"t/A", "x", "I"⟩)).run s = (.ok (some (.int 0)), s) := by
  have hfails : (startClass (call 10) "t/A").run untried = (.error (.fault (.thrown 1)), tried) := by
    unfold startClass
    rw [run_bind_of_ok (run_loadClass_named untried_named)]
    exact run_bind_of_error (x := start (call 10) 1) run_startWithin_moody
  have hnamed : tried.classNamed? "t/A" = some 1 := by decide +kernel
  have hpasses := passes_of_begun (c := { moodyLoaded with state := .begun }) hnamed rfl (by decide)
  have hholds : Machine.staticOwner tried.classes "x" 2 1 = some 1 := rfl
  exact ⟨tried, untried_named, hfails, hpasses.start _, hpasses.getStatic _ hholds⟩

end Machine

end Suspension
