import Suspension.Proofs.Hierarchy.Agreement
import Suspension.Proofs.Hierarchy.Lasting
import Suspension.Proofs.Builtins
import Suspension.Proofs.Machine.Linking

/-!
# The order of loaded classes

A class is a subclass of every name that it reaches through superclasses and interfaces.  **The class files
order the names**, and whatever a machine has loaded, its subclasses are in this order.

* `ClassPath.Derives`, `ClassPath.Belongs` — the order that the class files give.
* `Machine.Visited` — the states of a machine, with the interfaces of classes and the types of arrays;
  `Visited.sound`: what holds in all of them, and `Visited.call`: calls go from one to another.
* `Machine.Linked.reaches_iff`, `Machine.Visited.isSubclass_iff` — subclasses are ordered by class files.
-/

namespace Suspension

open Relation (ReflTransGen)

/-! ## The order of names -/

namespace ClassPath

variable {p : ClassPath} {a b c : Text}

/-- **A class names another one** as its superclass or as an interface. -/
def Derives (p : ClassPath) (cls above : Text) : Prop :=
  ∃ data file, p.resolve cls = .ok data ∧ Class.decode data = .ok file
    ∧ ((file.super ≠ [] ∧ file.super = above) ∨ above ∈ file.interfaces)

/-- **A class is another class**, extends it or implements it, as far as class files say.  Everything is the
root. -/
def Belongs (p : ClassPath) (cls above : Text) : Prop :=
  above = ClassName.object ∨ ReflTransGen p.Derives cls above

lemma Belongs.refl (cls : Text) : p.Belongs cls cls := Or.inr .refl

/-- The root derives from nothing: no class path replaces it. -/
lemma not_derives_object : ¬ p.Derives ClassName.object c := by
  obtain ⟨data, file, hlookup, hdecode, -, hsuper, hinterfaces⟩ := Builtins.lookup_encoded_object
  rintro ⟨data', file', hdata, hfile, habove⟩
  rw [resolve, resolveIn, hlookup] at hdata
  cases hdata
  rw [hdecode] at hfile
  cases hfile
  rcases habove with ⟨hne, -⟩ | hmem
  · exact hne hsuper
  · rw [hinterfaces] at hmem
    cases hmem

lemma Belongs.object (h : p.Belongs ClassName.object c) : c = ClassName.object := by
  rcases h with h | h
  · exact h
  · rcases h.cases_head with heq | ⟨d, hd, -⟩
    · exact heq.symm
    · exact absurd hd not_derives_object

lemma Belongs.trans (h : p.Belongs a b) (h' : p.Belongs b c) : p.Belongs a c := by
  rcases h with rfl | h
  · exact Or.inl h'.object
  · exact h'.imp_right h.trans

/-- What a source says about superclasses is said on its class path. -/
lemma derives_of_extends {src : ClassSource} (hsrc : src.resolve? = some p.resolve)
    (h : ClassView.Extends src.entryOf a b) : p.Derives a b := by
  have hsuper := h.2
  cases hentry : src.entryOf a with
  | missing =>
      rw [hentry] at hsuper
      cases hsuper
  | known f =>
      obtain ⟨file, hfind, rfl⟩ := ClassSource.find_of_entryOf hentry
      rw [hentry] at hsuper
      change Hierarchy.nonEmpty file.super = some b at hsuper
      obtain ⟨heq, hne⟩ := Hierarchy.nonEmpty_eq_some hsuper
      obtain ⟨f, data, hf, hdata, hfile⟩ := Hierarchy.decode_of_find hfind
      have hresolve : p.resolve a = .ok data := by
        rw [← hdata, Option.some.inj (hsrc.symm.trans hf)]
      exact ⟨data, file, hresolve, hfile, Or.inl ⟨heq ▸ hne, heq⟩⟩

end ClassPath

namespace Machine

variable {path : ClassPath} {m m' : Machine} {cid : ClassId} {c : LoadedClass} {name : Text}

lemma Provides.exists_name {ids : List ClassId} {names : List Text} (hp : m.Provides ids names)
    {i : ClassId} (hi : i ∈ ids) : ∃ n ∈ names, m.Named i n := by
  unfold Provides at hp
  induction hp with
  | nil => cases hi
  | cons hn _ ih =>
      rcases List.mem_cons.mp hi with rfl | hi
      · exact ⟨_, List.mem_cons_self, hn⟩
      · obtain ⟨n, hmem, hn⟩ := ih hi
        exact ⟨n, List.mem_cons_of_mem _ hmem, hn⟩

lemma Provides.exists_id {ids : List ClassId} {names : List Text} (hp : m.Provides ids names)
    {n : Text} (hmem : n ∈ names) : ∃ i ∈ ids, m.Named i n := by
  unfold Provides at hp
  induction hp with
  | nil => cases hmem
  | cons hn _ ih =>
      rcases List.mem_cons.mp hmem with rfl | hmem
      · exact ⟨_, List.mem_cons_self, hn⟩
      · obtain ⟨i, hi, hn⟩ := ih hmem
        exact ⟨i, List.mem_cons_of_mem _ hi, hn⟩

/-- **What a loaded class reaches** is what its name derives from. -/
lemma Linked.reaches_iff (hl : m.Linked) (hi : m.Interlinked) (hc : m.classes[cid]? = some c) {fuel : Nat}
    (hfuel : cid < fuel) :
    reaches m.classes name fuel cid = true ↔ ReflTransGen m.path.Derives c.file.name name := by
  induction fuel generalizing cid c with
  | zero => exact absurd hfuel (Nat.not_lt_zero _)
  | succ fuel ih =>
      obtain ⟨data, file, hdata, hfile, hres⟩ := (hl cid c hc).file
      obtain ⟨hbelow, hprovides⟩ := hi cid c hc
      have hderives : ∀ {above}, (c.file.super ≠ [] ∧ c.file.super = above)
          ∨ above ∈ c.file.interfaces → m.path.Derives c.file.name above := by
        intro above habove
        exact ⟨data, file, hdata, hfile, by rwa [hres.super, hres.interfaces]⟩
      simp only [reaches, hc, Bool.or_eq_true, List.any_eq_true, beq_iff_eq]
      have hfuel' : ∀ {i : ClassId}, i < cid → i < fuel := fun hlt =>
        Nat.lt_of_lt_of_le hlt (Nat.le_of_lt_succ hfuel)
      constructor
      · rintro ((rfl | ⟨i, hmem, hreach⟩) | hreach)
        · exact .refl
        · obtain ⟨n, hn, d, hd, rfl⟩ := hprovides.exists_name hmem
          exact .head (hderives (Or.inr hn)) ((ih hd (hfuel' (hbelow i hmem))).mp hreach)
        · rcases (hl cid c hc).super with ⟨-, hnone⟩ | ⟨hne, s, hs, hlt, d, hd, hname⟩
          · simp [hnone] at hreach
          · rw [hs] at hreach
            refine .head (hderives (Or.inl ⟨hne, rfl⟩)) ?_
            exact hname ▸ (ih hd (hfuel' hlt)).mp hreach
      · intro hreach
        rcases hreach.cases_head with heq | ⟨n, ⟨data', file', hdata', hfile', habove⟩, hrest⟩
        · exact Or.inl (Or.inl heq)
        obtain rfl : data = data' := Except.ok.inj (hdata.symm.trans hdata')
        obtain rfl : file = file' := Except.ok.inj (hfile.symm.trans hfile')
        rw [hres.super, hres.interfaces] at habove
        rcases habove with ⟨hne, rfl⟩ | hmem
        · rcases (hl cid c hc).super with ⟨hempty, -⟩ | ⟨-, s, hs, hlt, d, hd, hname⟩
          · exact absurd hempty hne
          · rw [hs]
            exact Or.inr ((ih hd (hfuel' hlt)).mpr (hname ▸ hrest))
        · obtain ⟨i, hi', d, hd, rfl⟩ := hprovides.exists_id hmem
          exact Or.inl (Or.inr ⟨i, hi', (ih hd (hfuel' (hbelow i hi'))).mpr hrest⟩)

/-! ## The states of a machine -/

/-- Two states with the same classes, their interfaces among what is the same, and with arrays in the second
one that have array types. -/
structure SameTypes (m m' : Machine) : Prop extends m.SameClasses m' where
  interfaces : ∀ id : ClassId, (m'.classes[id]?).map (·.interfaces) = (m.classes[id]?).map (·.interfaces)
  arrays : ∀ a ∈ m'.arrays, Descriptor.isArray a.desc = true

/-- **The states of a machine** over a class path: it begins without classes and without arrays, loads
classes, whether or not all goes well, and whatever else it does leaves them as they were loaded, and
gives arrays an array type. -/
inductive Visited (path : ClassPath) : Machine → Prop
  | fresh {m : Machine} (hp : m.path = path) (hc : m.classes = #[]) (ha : m.arrays = #[]) :
      Visited path m
  | load {m m' : Machine} {fuel : Nat} {name : Text} {r : Except Stop ClassId} (h : Visited path m)
      (hrun : (Exec.loadWithin fuel name).run m = (r, m')) : Visited path m'
  | other {m m' : Machine} (h : Visited path m) (hsame : m.SameTypes m') : Visited path m'

/-- All arrays have array types. -/
def Typed (m : Machine) : Prop := ∀ a ∈ m.arrays, Descriptor.isArray a.desc = true

/-- **Whatever a machine does, arrays have array types.** -/
instance : Steady fun m m' => m.Typed → m'.Typed where
  refl _ := id
  trans h h' := h' ∘ h
  of_eq _ _ _ ha _ h := by unfold Typed; rwa [ha]
  push_object _ _ h := h
  modifyObject _ _ _ _ h := h
  push_array _ _ hdesc h a ha := by
    rcases Array.mem_push.mp ha with ha | rfl
    · exact h a ha
    · exact hdesc
  modify_array s id f hf h a ha := by
    obtain ⟨i, hi, rfl⟩ := Array.mem_iff_getElem.mp ha
    rw [Array.getElem_modify]
    split
    · rw [hf]
      exact h _ (Array.getElem_mem _)
    · exact h _ (Array.getElem_mem _)
  withStatics _ _ _ h := h
  start _ _ := start_of_marked (R := fun m m' => m.Typed → m'.Typed) (fun h h' => h' ∘ h)
    fun _ _ _ h => h

instance : Exec.SteadyLoad fun m m' => m.Typed → m'.Typed where
  load := Exec.keeps_loadWithin_of_push fun _ _ h => h

lemma SameTypes.interlinked (h : m.SameTypes m') (hi : m.Interlinked) : m'.Interlinked := by
  intro id c' hc'
  have hid := h.classes id
  have hid' := h.interfaces id
  rw [hc'] at hid hid'
  obtain ⟨c, hc, heq⟩ := Option.map_eq_some_iff.mp hid.symm
  rw [hc] at hid'
  have hfile : c.file = c'.file := congrArg (·.1) heq
  have hinterfaces : c'.interfaces = c.interfaces := Option.some.inj hid'
  rw [hinterfaces, ← hfile]
  exact (hi id c hc).imp_right (·.mono h.named)

/-- **What holds in all states of a machine.** -/
structure Sound (path : ClassPath) (m : Machine) : Prop where
  path : m.path = path
  linked : m.Linked
  interlinked : m.Interlinked
  typed : m.Typed

theorem Visited.sound (h : m.Visited path) : m.Sound path := by
  induction h with
  | fresh hp hc ha =>
      exact ⟨hp, fun id c hid => by simp [hc] at hid, fun id c hid => by simp [hc] at hid,
        fun a ha' => by simp [ha] at ha'⟩
  | @load m m' fuel name r _ hrun ih =>
      obtain ⟨hgrows, -⟩ := Exec.loads_loadWithin fuel name _ ih.linked
      have htyped : Exec.Keeps (fun m m' => m.Typed → m'.Typed) (Exec.loadWithin fuel name) :=
        Exec.SteadyLoad.load fuel name
      have htyped' := htyped m ih.typed
      rw [hrun] at hgrows htyped'
      exact ⟨hgrows.path.trans ih.path, hgrows.linked ih.linked, hgrows.interlinked ih.interlinked,
        htyped'⟩
  | other _ hsame ih =>
      exact ⟨hsame.path.trans ih.path, hsame.linked ih.linked, hsame.interlinked ih.interlinked,
        hsame.arrays⟩

/-- A change that keeps the classes, and the types of arrays. -/
lemma Visited.change (hm : m.Visited path) (hsame : m.SameClasses m')
    (hinterfaces : ∀ id : ClassId,
      (m'.classes[id]?).map (·.interfaces) = (m.classes[id]?).map (·.interfaces))
    (htyped : m.Typed → m'.Typed) : m'.Visited path :=
  hm.other ⟨hsame, hinterfaces, htyped hm.sound.typed⟩

/-- A change within a class that leaves what was linked alone. -/
lemma Visited.modify_class (hm : m.Visited path) (id : ClassId) {f : LoadedClass → LoadedClass}
    (hf : ∀ c, (f c).file = c.file ∧ (f c).super = c.super ∧ (f c).methods = c.methods)
    (hinterfaces : ∀ c, (f c).interfaces = c.interfaces) :
    Visited path { m with classes := m.classes.modify id f } := by
  refine hm.change (.modify_class m id hf) (fun id' => ?_) fun h => h
  by_cases hid : id = id'
  · subst hid
    cases hc : m.classes[id]? with
    | none => simp [Array.getElem?_modify, hc]
    | some c => simp [Array.getElem?_modify, hc, hinterfaces c]
  · simp [Array.getElem?_modify, hid]

instance : Steady fun m m' => m.Visited path → m'.Visited path where
  refl _ h := h
  trans h h' := h' ∘ h
  of_eq hp hc _ ha _ hm := hm.change ⟨hp, fun id => by rw [hc]⟩ (fun id => by rw [hc])
    fun h => by unfold Typed; rwa [ha]
  push_object _ _ hm := hm.change ⟨rfl, fun _ => rfl⟩ (fun _ => rfl) fun h => h
  modifyObject _ _ _ _ hm := hm.change ⟨rfl, fun _ => rfl⟩ (fun _ => rfl) fun h => h
  push_array s _ hdesc hm := hm.change ⟨rfl, fun _ => rfl⟩ (fun _ => rfl)
    (Steady.push_array (R := fun m m' => m.Typed → m'.Typed) s hdesc)
  modify_array s id _ hf hm := hm.change ⟨rfl, fun _ => rfl⟩ (fun _ => rfl)
    (Steady.modify_array (R := fun m m' => m.Typed → m'.Typed) s id hf)
  withStatics _ id _ hm := hm.modify_class id (fun _ => ⟨rfl, rfl, rfl⟩) fun _ => rfl
  start _ _ := start_of_marked (R := fun m m' => m.Visited path → m'.Visited path)
    (fun h h' => h' ∘ h) fun _ id _ hm => hm.modify_class id (fun _ => ⟨rfl, rfl, rfl⟩) fun _ => rfl

/-- **Whatever a machine does, its states are visited.** -/
instance : Exec.SteadyLoad fun m m' => m.Visited path → m'.Visited path where
  load _ _ _ hm := hm.load rfl

/-- **Calls lead from visited states to visited states.** -/
theorem Visited.call (hm : m.Visited path) (fuel : Nat) (lm : LoadedMethod) (args : List Value) :
    ((Exec.call fuel lm args).run m).2.Visited path := by
  have hkeeps : Exec.Keeps (fun m m' => m.Visited path → m'.Visited path) (Exec.call fuel lm args) :=
    Exec.keeps_call fuel lm args
  exact hkeeps m hm

/-! ## Subclasses -/

/-- **Subclasses among loaded classes** are ordered by the class files. -/
lemma Visited.isSubclass_iff (hm : m.Visited path) (hc : m.classes[cid]? = some c) :
    m.isSubclass cid name = true ↔ path.Belongs c.file.name name := by
  have hs := hm.sound
  rw [isSubclass, Bool.or_eq_true, beq_iff_eq,
    hs.linked.reaches_iff hs.interlinked hc (Nat.lt_succ_self cid), hs.path]
  rfl

/-- What has been loaded is in a visited state. -/
lemma Visited.loadClass (hm : m.Visited path) (hrun : (Exec.loadClass name).run m = (.ok cid, m')) :
    m'.Visited path ∧ m'.Named cid name := by
  rw [Exec.run_loadClass] at hrun
  generalize m.path.height + 2 = fuel at hrun
  obtain ⟨-, hok⟩ := Exec.loads_loadWithin fuel name m hm.sound.linked
  rw [hrun] at hok
  exact ⟨hm.load hrun, (hok cid rfl).2⟩

/-- **What is found on a class that is loaded for it.** -/
lemma Visited.isSubclass_loaded {above : Text} (hm : m.Visited path)
    (hrun : (Exec.loadClass name).run m = (.ok cid, m')) :
    m'.isSubclass cid above = true ↔ path.Belongs name above := by
  obtain ⟨hm', d, hd, rfl⟩ := hm.loadClass hrun
  exact hm'.isSubclass_iff hd

end Machine

end Suspension
