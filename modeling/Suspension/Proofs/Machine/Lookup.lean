import Suspension.Proofs.Machine.FreeNames
import Suspension.Proofs.Machine.Linking

/-!
# Method lookup and questions about calls

A call is looked up twice: the transformation asks whether it may suspend, on the class files of the
class path, and the machine later selects a method, on the classes that it has loaded.  **Both walk the
same chain of superclasses**, so a method that declares the signal is not missed.

The rules for questions look at names first.  A class of a core package answers only from the list of
core methods that suspend, and a name that begins with `<` is never taken to suspend.

* `ClassSource.Ends.of_contents` — a chain that ends is no longer than there are encodings.
* `ClassPath.contents` — the encodings on a class path.
* `Machine.Linked.decides` — what the machine finds is what the walk decides by.
* `Machine.Reached.foreseen` — questions about the calls on a loaded class.
-/

namespace Suspension

/-! ## Chains that end are short -/

namespace ClassSource

open Hierarchy

variable {src : ClassSource} {cls s : Text} {n : Nat} {f : Text → Except Fault Bytes}

/-- A class and its superclass. -/
def Extends (src : ClassSource) (cls s : Text) : Prop := src.superOf cls = some s

/-- A chain that ends does not come back. -/
lemma Ends.not_cyclic (h : src.Ends n cls) : ¬ Relation.TransGen src.Extends cls cls := by
  induction n generalizing cls with
  | zero => exact h.elim
  | succ n ih =>
      intro hcycle
      obtain ⟨t, ht, hback⟩ := Relation.TransGen.head'_iff.mp hcycle
      have hends : src.Ends n t := h t ht
      exact ih hends (Relation.TransGen.tail' hback ht)

/-- The superclass is read off the encoding. -/
lemma superOf_congr (hf : src.resolve? = some f) {data : Bytes} {cls cls' : Text}
    (h : f cls = .ok data) (h' : f cls' = .ok data) : src.superOf cls = src.superOf cls' := by
  have hfind : ∀ {x : Text}, f x = .ok data → src.find x = readClass x data := by
    intro x hx
    simp only [find, hf, hx]
  unfold superOf superText
  rw [hfind h, hfind h']
  unfold readClass
  generalize Class.decode data = r
  cases r <;> rfl

/-- A class is found by its encoding. -/
lemma find_of_data (hf : src.resolve? = some f) {data : Bytes} {c : Class} (hdata : f cls = .ok data)
    (hc : Class.decode data = .ok c) : src.find cls = .ok c := by
  unfold find
  rw [hf]
  dsimp only
  rw [hdata]
  dsimp only
  unfold readClass
  rw [hc]

/-- A class with a superclass has an encoding. -/
lemma exists_data (hf : src.resolve? = some f) (hs : src.superOf cls = some s) :
    ∃ data, f cls = .ok data := by
  cases hdata : f cls with
  | ok data => exact ⟨data, rfl⟩
  | error e => simp [superOf, superText, find, hf, hdata, nonEmpty] at hs

/-- **A chain that ends is no longer than there are encodings.**  Two classes of it with the same
encoding would have the same superclass, and the chain would not end. -/
lemma Ends.of_contents (hf : src.resolve? = some f) {contents : List Bytes}
    (hmem : ∀ {cls data}, f cls = .ok data → data ∈ contents) {k : Nat} (hk : contents.length = k)
    (h : src.Ends n cls) : src.Ends (k + 1) cls := by
  subst hk
  -- what is still to come on the chain has an encoding among those that are left
  have hleft : ∀ {n : Nat} {cls : Text} {left : List Bytes}, src.Ends n cls →
      (∀ {x s data}, Relation.ReflTransGen src.Extends cls x → src.superOf x = some s →
        f x = .ok data → data ∈ left) → src.Ends (left.length + 1) cls := by
    intro n
    induction n with
    | zero => exact fun h => h.elim
    | succ n ih =>
        intro cls left h hin s hs
        obtain ⟨data, hdata⟩ := exists_data hf hs
        have hdata' : data ∈ left := hin .refl hs hdata
        have hlength : left.length = (left.erase data).length + 1 := by
          have := List.length_pos_of_mem hdata'
          rw [List.length_erase_of_mem hdata']
          omega
        rw [hlength]
        refine ih (h s hs) fun {x s' data'} hx hs' hx' => ?_
        have hne : data' ≠ data := by
          rintro rfl
          have hsame : src.superOf x = some s := (superOf_congr hf hx' hdata).trans hs
          exact (h s hs).not_cyclic (Relation.TransGen.tail' hx hsame)
        exact (List.mem_erase_of_ne hne).mpr (hin (.head hs hx) hs' hx')
  exact hleft h fun _ _ hx => hmem hx

end ClassSource

/-! ## The encodings on a class path -/

namespace ClassPath

variable {p : ClassPath} {name : Text} {data : Bytes}

/-- All encodings on a class path, those of each directory apart. -/
def contents (p : ClassPath) : List Bytes :=
  Builtins.encoded.map (·.2) ++ p.memory.map (·.2)
    ++ p.directories.flatMap fun _ => p.disk.files.map (·.2)

lemma length_contents (p : ClassPath) : p.contents.length = p.height := by
  simp only [contents, height, List.length_append, List.length_map, List.length_flatMap,
    List.map_const', List.sum_replicate_nat]

lemma mem_of_lookup {xs : List (Text × Bytes)} (h : xs.lookup name = some data) :
    data ∈ xs.map (·.2) := by
  induction xs with
  | nil => cases h
  | cons x xs ih =>
      rw [List.lookup_cons] at h
      split at h
      · cases h
        exact List.mem_cons_self
      · exact List.mem_cons_of_mem _ (ih h)

lemma mem_of_inDirectories {disk : FileTree} {dirs : List Text}
    (h : inDirectories disk name dirs = .ok data) :
    dirs ≠ [] ∧ data ∈ disk.files.map (·.2) := by
  induction dirs with
  | nil => cases h
  | cons dir rest ih =>
      refine ⟨by simp, ?_⟩
      unfold inDirectories at h
      split at h
      · next data' hread =>
          cases h
          unfold FileTree.read at hread
          split at hread
          · cases hread
          · split at hread
            · next hlookup =>
                cases hread
                exact mem_of_lookup hlookup
            · split at hread <;> cases hread
      · split at h
        · exact (ih h).2
        · cases h

/-- What is resolved is a class of the machine, one in memory, or one of the directories. -/
lemma resolveIn_cases {builtins : List (Text × Bytes)} (h : p.resolveIn builtins name = .ok data) :
    builtins.lookup name = some data ∨ p.memory.lookup name = some data
      ∨ inDirectories p.disk name p.directories = .ok data := by
  unfold resolveIn at h
  split at h
  · next hbuiltin =>
      cases h
      exact Or.inl hbuiltin
  split at h
  · next hmemory =>
      cases h
      exact Or.inr (Or.inl hmemory)
  split at h
  · cases h
  · exact Or.inr (Or.inr h)

/-- A class in memory whose name is free. -/
lemma resolveIn_of_memory {builtins : List (Text × Bytes)} (hfree : builtins.lookup name = none)
    (h : p.memory.lookup name = some data) : p.resolveIn builtins name = .ok data := by
  unfold resolveIn
  rw [hfree]
  dsimp only
  rw [h]

/-- **What is resolved is on the class path.** -/
lemma mem_contents (h : p.resolve name = .ok data) : data ∈ p.contents := by
  rw [contents, List.mem_append, List.mem_append]
  rcases resolveIn_cases h with hbuiltin | hmemory | hdisk
  · exact Or.inl (Or.inl (mem_of_lookup hbuiltin))
  · exact Or.inl (Or.inr (mem_of_lookup hmemory))
  · obtain ⟨hne, hmem⟩ := mem_of_inDirectories hdisk
    obtain ⟨dir, hdir⟩ := List.exists_mem_of_ne_nil _ hne
    exact Or.inr (List.mem_flatMap.mpr ⟨dir, hdir, hmem⟩)

end ClassPath

/-! ## The classes of a machine and the source -/

namespace Machine

open Hierarchy ClassSource Exec

variable {path : ClassPath} {m : Machine} {src : ClassSource} {id : ClassId} {c : LoadedClass}
  {name desc : Text}

/-- **The source has the class** with the members of a loaded one. -/
lemma LinkedAt.find (h : m.LinkedAt id c) (hsrc : src.resolve? = some m.path.resolve) :
    ∃ file, src.find c.file.name = .ok file ∧ file.Resembles c.file := by
  obtain ⟨data, file, hdata, hfile, hres⟩ := h.file
  exact ⟨file, find_of_data hsrc hdata hfile, hres⟩

/-- The chain of a loaded class ends. -/
lemma Linked.ends (hl : m.Linked) (hsrc : src.resolve? = some m.path.resolve)
    (hc : m.classes[id]? = some c) : src.Ends (id + 1) c.file.name := by
  induction id using Nat.strongRecOn generalizing c with
  | ind id ih =>
      have hlinked := hl id c hc
      obtain ⟨file, hfind, hres⟩ := hlinked.find hsrc
      intro s hs
      rw [superOf_of_find hfind, hres.super] at hs
      obtain ⟨rfl, hne⟩ := nonEmpty_eq_some hs
      rcases hlinked.super with ⟨hempty, -⟩ | ⟨-, sid, -, hlt, d, hd, hname⟩
      · exact absurd hempty hne
      · have hsuper : src.Ends (sid + 1) c.file.super := hname ▸ ih sid hlt hd
        exact hsuper.mono (Nat.succ_le_of_lt hlt)

/-- What the walk decides by, given the method that is found. -/
def verdict (src : ClassSource) (name desc : Text) (lm : LoadedMethod) : Bool :=
  if isCore src lm.ownerName then isListed src lm.ownerName name desc
  else lm.method.declares ClassName.suspendSignal

/-- Whether a class declares a method, as the source and the machine see it. -/
lemma LinkedAt.declared (h : m.LinkedAt id c) {file : Class} (hres : file.Resembles c.file) (key : Text) :
    (c.methods.lookup key = none ∧ file.declared? key = none)
      ∨ ∃ lm x, c.methods.lookup key = some lm ∧ file.declared? key = some x
          ∧ lm.ownerName = c.file.name ∧ x.declares ClassName.suspendSignal
              = lm.method.declares ClassName.suspendSignal := by
  have hthrows := hres.throws?_eq key
  rw [h.methods key]
  simp only [Class.throws?] at hthrows
  cases hfile : file.declared? key with
  | none =>
      rw [hfile] at hthrows
      exact Or.inl ⟨by simpa using hthrows.symm, rfl⟩
  | some x =>
      rw [hfile] at hthrows
      obtain ⟨y, hy, hxy⟩ := Option.map_eq_some_iff.mp hthrows.symm
      refine Or.inr ⟨_, x, by rw [hy, Option.map_some], rfl, rfl, ?_⟩
      simp only [Method.declares, hxy]

/-- **What the machine finds is what the walk decides by.** -/
lemma Linked.decides (hl : m.Linked) (hsrc : src.resolve? = some m.path.resolve) {fuel : Nat}
    {lm : LoadedMethod} (hc : m.classes[id]? = some c) (hne : c.file.name ≠ [])
    (hfind : upward m.classes (·.methods.lookup (name ++ desc)) fuel id = some lm) :
    src.Decides name desc true c.file.name (verdict src name desc lm) := by
  induction fuel generalizing id c with
  | zero => cases hfind
  | succ fuel ih =>
      have hlinked := hl id c hc
      obtain ⟨file, hfile, hres⟩ := hlinked.find hsrc
      simp only [upward, hc] at hfind
      rcases hlinked.declared hres (name ++ desc) with ⟨hnone, hm⟩ | ⟨lm', x, hlm', hm, howner, hx⟩
      · rw [hnone, Option.none_or] at hfind
        refine .inherited rfl hne hfile hm ?_
        rcases hlinked.super with ⟨-, hsuper⟩ | ⟨hsne, sid, hsuper, -, d, hd, hname⟩
        · rw [hsuper] at hfind
          cases hfind
        · rw [hsuper] at hfind
          rw [hres.super, ← hname]
          exact ih hd (hname ▸ hsne) hfind
      · rw [hlm', Option.some_or] at hfind
        cases hfind
        unfold verdict
        rw [howner, ← hx]
        exact .declared hne hfile hm

/-- Without a search the walk decides by the class itself: what it does not declare may suspend. -/
lemma Linked.decides_unsearched (hl : m.Linked) (hsrc : src.resolve? = some m.path.resolve)
    {lm : LoadedMethod} (hc : m.classes[id]? = some c) (hne : c.file.name ≠ [])
    (hfind : m.findMethod id name desc = some lm) :
    src.Decides name desc false c.file.name (verdict src name desc lm)
      ∨ src.Decides name desc false c.file.name true := by
  have hlinked := hl id c hc
  obtain ⟨file, hfile, hres⟩ := hlinked.find hsrc
  rcases hlinked.declared hres (name ++ desc) with ⟨hnone, hm⟩ | ⟨lm', x, hlm', hm, howner, hx⟩
  · exact Or.inr (.unsearched rfl hne hfile hm)
  · simp only [findMethod, upward, hc, hlm', Option.some_or] at hfind
    cases hfind
    refine Or.inl ?_
    unfold verdict
    rw [howner, ← hx]
    exact .declared hne hfile hm

/-- **What the answers about calls have to do with the method that the machine finds.**  The rules look at
names first: nothing suspends whose name begins with `<`, and a core class answers from the list. -/
structure Foreseen (src : ClassSource) (owner name desc : Text) (lm : LoadedMethod)
    (answer : InvokeMode → Bool) : Prop where
  special : name.startsWith (Text.ofString "<") = true → ∀ mode, answer mode = false
  core : name.startsWith (Text.ofString "<") = false → isCore src owner = true →
    ∀ mode, answer mode = isListed src owner name desc
  sound : name.startsWith (Text.ofString "<") = false → isCore src owner = false →
    isCore src lm.ownerName = false → lm.method.declares ClassName.suspendSignal = true →
      ∀ mode, answer mode = true
  exact : name.startsWith (Text.ofString "<") = false → isCore src owner = false →
    isCore src lm.ownerName = false → owner ≠ [] → ∀ mode, mode = .virtual ∨ mode = .static →
      answer mode = lm.method.declares ClassName.suspendSignal
  nameless : name.startsWith (Text.ofString "<") = false → isCore src owner = false → owner = [] →
    ∀ mode, answer mode = true

/-- The rules answer as the machine finds, on a loaded class. -/
lemma Linked.foresees (hl : m.Linked) (hsrc : src.resolve? = some m.path.resolve) {lm : LoadedMethod}
    {owner : Text} (hid : m.classNamed? owner = some id) (hfind : m.findMethod id name desc = some lm)
    {answer : InvokeMode → Bool}
    (hanswer : ∀ mode, src.Suspends owner name desc (Opcode.invoke mode).searchesSupers (answer mode)) :
    Foreseen src owner name desc lm answer := by
  obtain ⟨hlt, hclass, -⟩ := Array.findIdx?_eq_some_iff_getElem.mp hid
  have hc : m.classes[id]? = some m.classes[id] := Array.getElem?_eq_getElem hlt
  generalize m.classes[id] = c at hclass hc
  obtain rfl : c.file.name = owner := by simpa using hclass
  unfold Suspends at hanswer
  -- the walk decides if neither the name nor the class does
  have hwalk : name.startsWith (Text.ofString "<") = false → isCore src c.file.name = false →
      ∀ mode, src.Decides name desc (Opcode.invoke mode).searchesSupers c.file.name (answer mode) := by
    intro hname hcore mode
    simpa only [hname, hcore, Bool.false_eq_true, if_false] using hanswer mode
  have hverdict : isCore src lm.ownerName = false →
      verdict src name desc lm = lm.method.declares ClassName.suspendSignal := by
    intro hdecl
    simp only [verdict, hdecl, Bool.false_eq_true, if_false]
  refine ⟨fun hname mode => ?_, fun hname hcore mode => ?_, fun hname hcore hdecl hdeclares mode => ?_,
    fun hname hcore hdecl hne mode hmode => ?_, fun hname hcore hempty mode => ?_⟩
  · simpa only [hname, if_true] using hanswer mode
  · simpa only [hname, hcore, Bool.false_eq_true, if_false, if_true] using hanswer mode
  · by_cases hne : c.file.name = []
    · exact (hne ▸ hwalk hname hcore mode).unique .ended
    have hv : verdict src name desc lm = true := (hverdict hdecl).trans hdeclares
    have hd := hwalk hname hcore mode
    cases hsearch : (Opcode.invoke mode).searchesSupers with
    | true => exact (hsearch ▸ hd).unique (hv ▸ hl.decides hsrc hc hne hfind)
    | false =>
        refine (hsearch ▸ hd).unique ?_
        have hun := hl.decides_unsearched hsrc hc hne hfind
        rwa [hv, or_self] at hun
  · rw [← hverdict hdecl]
    refine (hwalk hname hcore mode).unique ?_
    rcases hmode with rfl | rfl <;> exact hl.decides hsrc hc hne hfind
  · exact (hempty ▸ hwalk hname hcore mode).unique .ended

/-- **Questions about calls agree with what the machine selects.**  Let a machine have loaded the owner of
a call, and find a method for it.  If neither the owner nor the class of that method is a core class, the
answer is never that a method with the signal does not suspend; and for virtual and static calls it is
exactly whether the method declares the signal.  This holds whatever has been asked or recorded before. -/
theorem Reached.foreseen (hm : m.Reached path) (sink : Sink) (corePrefixes : List Text)
    (suspendableCore : List MethodKey) {asks : List Ask}
    (hasks : ∀ a ∈ asks, a.Recorded (path.source sink corePrefixes suspendableCore))
    {owner : Text} {lm : LoadedMethod} (hid : m.classNamed? owner = some id)
    (hfind : m.findMethod id name desc = some lm) :
    let src := path.source sink corePrefixes suspendableCore
    Foreseen src owner name desc lm fun mode => ((isSuspendable src owner name desc
      (Opcode.invoke mode).searchesSupers).run ((asks.mapM (Ask.run src)).run {}).2).1 := by
  obtain ⟨rfl, hl⟩ := hm.linked
  have hsrc : (m.path.source sink corePrefixes suspendableCore).resolve? = some m.path.resolve := rfl
  have hheight : (m.path.source sink corePrefixes suspendableCore).height = m.path.height := rfl
  generalize m.path.source sink corePrefixes suspendableCore = src at hasks hsrc hheight ⊢
  have hh : Consistent src ((asks.mapM (Ask.run src)).run {}).2 :=
    consistent_empty.learnsAll (Ask.learns_all fun a ha => Ask.allowed_faithful (hasks a ha))
  -- the search goes far enough, since the chain of a loaded class ends
  have hends : src.Ends (src.height + 1) owner := by
    obtain ⟨hlt, hclass, -⟩ := Array.findIdx?_eq_some_iff_getElem.mp hid
    have hchain := hl.ends hsrc (Array.getElem?_eq_getElem hlt)
    have hlength : m.path.contents.length = src.height := m.path.length_contents.trans hheight.symm
    rw [show m.classes[id].file.name = owner by simpa using hclass] at hchain
    exact hchain.of_contents hsrc ClassPath.mem_contents hlength
  exact hl.foresees hsrc hid hfind fun mode => isSuspendable_suspends hh hends

/-! ### Two classes, one in the core package -/

/-- A method that declares the signal. -/
def waiting (name : Text) : Method where
  name := name
  desc := "()V"
  flags := Flag.abstractBit
  throws := [ClassName.suspendSignal]

/-- A class that declares two of them. -/
def waiter (cls : Text) : Class where
  name := cls
  methods := [waiting "<x>", waiting "f"]

/-- A class in the core package that inherits them. -/
def heir (cls : Text) : Class where
  name := Text.ofString "core/" ++ cls
  super := cls

/-- A method of the first class when that is loaded first. -/
def waitingIn (cls name : Text) : LoadedMethod where
  owner := 0
  ownerName := cls
  method := waiting name
  body := .ofMethod (waiting name)

/-- **A machine that has loaded the two classes**, the first with a name outside the core package. -/
structure Inherits (path : ClassPath) (m : Machine) (cls : Text) : Prop where
  reached : m.Reached path
  outside : Text.startsWith cls "core/" = false
  first : m.classNamed? cls = some 0
  second : m.classNamed? (Text.ofString "core/" ++ cls) = some 1
  found : m.findMethod 0 "f" "()V" = some (waitingIn cls "f")
  special : m.findMethod 0 "<x>" "()V" = some (waitingIn cls "<x>")
  inherited : m.findMethod 1 "f" "()V" = some (waitingIn cls "f")

/-- Both classes can be written and read back. -/
lemma exists_encoded {cls : Text} (hcls : Text.Holdable cls)
    (hcore : Text.Holdable (Text.ofString "core/" ++ cls)) :
    ∃ data data', Class.decode data = .ok (waiter cls) ∧ Class.decode data' = .ok (heir cls) := by
  have hempty : Text.Holdable [] := by decide
  have hnil : Text.AllHoldable [] := by decide
  have hmethods : ∀ x ∈ [waiting "<x>", waiting "f"], x.Holdable := by decide
  have hwaiter : (waiter cls).Holdable :=
    ⟨hcls, hempty, hnil, hnil, by simp [waiter], by simp [waiter], hmethods⟩
  have hheir : (heir cls).Holdable := ⟨hcore, hcls, hnil, hnil, by simp [heir], by simp [heir]⟩
  obtain ⟨data, hdata⟩ := hwaiter.written
  obtain ⟨data', hdata'⟩ := hheir.written
  exact ⟨data, data', hwaiter.decode_eq hdata, hheir.decode_eq hdata'⟩

/-- A machine that has loaded the first class. -/
def withWaiter (path : ClassPath) (cls : Text) : Machine where
  path := path
  classes := #[link { path := path } (waiter cls) none []]

/-- A machine that has loaded the second class too. -/
def withHeir (path : ClassPath) (cls : Text) : Machine where
  path := path
  classes := (withWaiter path cls).classes.push (link (withWaiter path cls) (heir cls) (some 0) [])

/-- A name is not its own name in the core package. -/
lemma ne_core (cls : Text) : cls ≠ Text.ofString "core/" ++ cls := by
  intro heq
  have hlength := congrArg List.length heq
  have hcorename : (Text.ofString "core/").length = 5 := by decide
  rw [List.length_append] at hlength
  omega

/-- **The machine that has loaded both** finds the methods of the first for the second. -/
lemma withHeir_inherits {path : ClassPath} {cls : Text} {data data' : Bytes} (hne : cls ≠ [])
    (houtside : Text.startsWith cls "core/" = false) (hdata : path.resolve cls = .ok data)
    (hdata' : path.resolve (Text.ofString "core/" ++ cls) = .ok data')
    (hdecode : Class.decode data = .ok (waiter cls)) (hdecode' : Class.decode data' = .ok (heir cls)) :
    Inherits path (withHeir path cls) cls := by
  have hbase : (withWaiter path cls).classNamed? cls = some 0 := by
    simp [classNamed?, withWaiter, link, waiter]
  have hnamed : ∀ name, (withHeir path cls).classNamed? name
      = ((withWaiter path cls).classNamed? name).or
          (if (heir cls).name == name then some 1 else none) := fun _ => Array.findIdx?_push
  have hfirst : (withWaiter path cls).Reached path :=
    Reached.load_new (m := { path := path }) (c := waiter cls) (.fresh rfl rfl) rfl
      (by simp [classNamed?]) hdata hdecode rfl (Or.inl ⟨rfl, rfl⟩)
  have hnew : (withWaiter path cls).classNamed? (heir cls).name = none := by
    simp [classNamed?, withWaiter, link, waiter, heir, ne_core cls]
  have hsecond : (withHeir path cls).Reached path :=
    Reached.load_new (c := heir cls) hfirst rfl hnew hdata' hdecode' rfl
      (Or.inr ⟨hne, 0, rfl, hbase⟩)
  refine ⟨hsecond, houtside, ?_, ?_, ?_, ?_, ?_⟩
  · rw [hnamed, hbase, Option.some_or]
  · rw [hnamed, show (withWaiter path cls).classNamed? (Text.ofString "core/" ++ cls) = none from hnew]
    simp [heir]
  · rfl
  · rfl
  · rfl

lemma exists_inherits : ∃ path m cls, Inherits path m cls := by
  obtain ⟨cls, hne, houtside, ⟨hholdable, hfree⟩, hholdable', hfree'⟩ := Builtins.exists_free
  obtain ⟨data, data', hdecode, hdecode'⟩ := exists_encoded hholdable hholdable'
  have hother : (Text.ofString "core/" ++ cls == cls) = false :=
    beq_eq_false_iff_ne.mpr (ne_core cls).symm
  let path : ClassPath := { memory := [(cls, data), (Text.ofString "core/" ++ cls, data')] }
  have hdata : path.resolve cls = .ok data := ClassPath.resolveIn_of_memory hfree (by simp [path])
  have hdata' : path.resolve (Text.ofString "core/" ++ cls) = .ok data' :=
    ClassPath.resolveIn_of_memory hfree' (by simp [path, List.lookup_cons, hother])
  exact ⟨path, _, cls, withHeir_inherits hne houtside hdata hdata' hdecode hdecode'⟩

/-- The theorem at a method that suspends, after its class was looked up for something else. -/
theorem inherits_foreseen : ∃ path m cls, Inherits path m cls
    ∧ Foreseen (path.source {} ["core/"] []) cls "f" "()V" (waitingIn cls "f") (fun mode =>
        ((isSuspendable (path.source {} ["core/"] []) cls "f" "()V"
          (Opcode.invoke mode).searchesSupers).run
            (([Ask.directSuper cls].mapM (Ask.run (path.source {} ["core/"] []))).run {}).2).1)
    ∧ ((isSuspendable (path.source {} ["core/"] []) cls "f" "()V" true).run
        (([Ask.directSuper cls].mapM (Ask.run (path.source {} ["core/"] []))).run {}).2).1 = true := by
  obtain ⟨path, m, cls, h⟩ := exists_inherits
  have hrecorded : ∀ a ∈ [Ask.directSuper cls], a.Recorded (path.source {} ["core/"] []) := by
    rintro a ha c rfl
    cases List.mem_singleton.mp ha
  have hforeseen := h.reached.foreseen {} ["core/"] [] hrecorded h.first h.found
  have houtside : isCore (path.source {} ["core/"] []) cls = false := by
    simp [isCore, ClassPath.source, h.outside]
  have hsuspends : (waiting "f").declares ClassName.suspendSignal = true := by decide
  exact ⟨path, m, cls, h, hforeseen,
    hforeseen.sound (by decide) houtside houtside hsuspends .virtual⟩

/-- **Methods with the signal that the answers miss**: one that a core class inherits from a class outside
the core package, and one whose name begins with `<`. -/
theorem inherits_missed : ∃ path m cls, Inherits path m cls
    ∧ isCore (path.source {} ["core/"] []) cls = false
    ∧ (waiting "f").declares ClassName.suspendSignal = true
    ∧ (∀ search, ((isSuspendable (path.source {} ["core/"] []) (Text.ofString "core/" ++ cls) "f" "()V"
        search).run {}).1 = false)
    ∧ (waiting "<x>").declares ClassName.suspendSignal = true
    ∧ ∀ search, ((isSuspendable (path.source {} ["core/"] []) cls "<x>" "()V" search).run {}).1
        = false := by
  obtain ⟨path, m, cls, h⟩ := exists_inherits
  have houtside : isCore (path.source {} ["core/"] []) cls = false := by
    simp [isCore, ClassPath.source, h.outside]
  have hcore : isCore (path.source {} ["core/"] []) (Text.ofString "core/" ++ cls) = true := by
    simp [isCore, ClassPath.source, Text.startsWith]
  refine ⟨path, m, cls, h, houtside, by decide, fun search => ?_, by decide, fun search => ?_⟩
  · have hname : Text.startsWith "f" (Text.ofString "<") = false := by decide
    unfold isSuspendable
    rw [hname, hcore]
    rfl
  · have hname : Text.startsWith "<x>" (Text.ofString "<") = true := by decide
    unfold isSuspendable
    rw [hname]
    rfl

end Machine

end Suspension
