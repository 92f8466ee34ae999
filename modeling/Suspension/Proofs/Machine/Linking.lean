import Mathlib.Data.List.Forall2
import Suspension.Proofs.Hierarchy.Answers
import Suspension.Proofs.Instrument.Lasting
import Suspension.Proofs.Instrument.Points
import Suspension.Proofs.Machine.Run

/-!
# Loaded classes and the class path

What a machine has loaded comes from its class path.  A transformation on the way exchanges bodies, but
**the members of a class stay**: its name, its superclass, its interfaces, and of every method the key and
the declared exceptions.  The superclass and the interfaces of a loaded class have been loaded before it.

* `Class.Resembles`, `Instrumenter.onLoad_resembles` — what a transformation leaves alone.
* `Machine.Linked` — the classes of a machine and its class path; `Machine.Interlinked` — their
  interfaces.
* `Machine.Grows` — loading only adds classes, and keeps them linked.
* `Machine.Reached` — the states of a machine; `Reached.linked`: its classes are linked in all of them,
  and `Reached.call`: calls go from one to another.
-/

namespace Suspension

/-! ## What a transformation leaves alone -/

/-- Two methods with one key that declare the same exceptions. -/
def Method.Resembles (m m' : Method) : Prop := m.key = m'.key ∧ m.throws = m'.throws

lemma Method.Resembles.refl (m : Method) : m.Resembles m := ⟨rfl, rfl⟩

namespace Class

/-- **Two classes with the same members**, as far as callers see them. -/
structure Resembles (c c' : Class) : Prop where
  name : c.name = c'.name
  super : c.super = c'.super
  interfaces : c.interfaces = c'.interfaces
  methods : List.Forall₂ Method.Resembles c.methods c'.methods

lemma Resembles.refl (c : Class) : c.Resembles c :=
  ⟨rfl, rfl, rfl, List.forall₂_same.mpr fun m _ => .refl m⟩

lemma Resembles.trans {a b c : Class} (h : a.Resembles b) (h' : b.Resembles c) : a.Resembles c := by
  refine ⟨h.name.trans h'.name, h.super.trans h'.super, h.interfaces.trans h'.interfaces, ?_⟩
  have hmethods := h.methods
  have hmethods' := h'.methods
  generalize a.methods = as at hmethods ⊢
  generalize b.methods = bs at hmethods hmethods'
  generalize c.methods = cs at hmethods' ⊢
  induction hmethods generalizing cs with
  | nil => exact hmethods'
  | cons hm _ ih =>
      cases hmethods' with
      | cons hm' hrest => exact .cons ⟨hm.1.trans hm'.1, hm.2.trans hm'.2⟩ (ih _ hrest)

/-- What a class declares for a key, as far as exceptions go. -/
def throws? (c : Class) (key : Text) : Option (List Text) := (c.declared? key).map (·.throws)

/-- Classes with the same members declare the same. -/
lemma Resembles.throws?_eq {c c' : Class} (h : c.Resembles c') (key : Text) :
    c.throws? key = c'.throws? key := by
  have hmethods := h.methods
  unfold throws? declared?
  generalize c.methods = ms at hmethods ⊢
  generalize c'.methods = ms' at hmethods ⊢
  induction hmethods with
  | nil => rfl
  | @cons m m' ms ms' hm _ ih =>
      rw [find?_reverse_cons, find?_reverse_cons]
      cases hf : ms.reverse.find? (·.key == key) <;> cases hf' : ms'.reverse.find? (·.key == key)
      · by_cases hkey : key = m.key
        · simp [hkey, ← hm.1, hm.2]
        · simp [hkey, ← hm.1]
      · rw [hf, hf'] at ih
        cases ih
      · rw [hf, hf'] at ih
        cases ih
      · rw [hf, hf'] at ih
        exact ih

end Class

namespace Instrumenter

variable {i : Instrumenter} {owner : Text} {h : Hierarchy}

/-- A transformed method keeps its name, its descriptor and its exceptions. -/
lemma generate_resembles {p : Plan} {m' : Method} (hgen : p.generate = .ok m') :
    p.subject.method.Resembles m' := by
  obtain ⟨hname, hdesc, -, hthrows⟩ := Plan.generate_keeps hgen
  exact ⟨by rw [Method.key, Method.key, hname, hdesc], hthrows.symm⟩

/-- So does whatever a treatment puts in place of a method. -/
lemma treat_resembles {m m' : Method} (ht : ((i.treat owner m).run h).1 = .instrumented m') :
    m.Resembles m' := by
  obtain ⟨p, hp⟩ := treat_makes ht
  exact hp.method_eq ▸ generate_resembles hp.generate

lemma onClass_resembles {c c' : Class} {r : ClassReport}
    (hrun : ((i.onClass c).run h).1 = some (some c', r)) : c.Resembles c' := by
  obtain ⟨ms, htreated, rfl⟩ := onClass_eq_some hrun
  have hlasting : Hierarchy.Lasting i.source (Hierarchy.Holding fun _ => True) :=
    Hierarchy.lasting_holding (fun _ h => h) fun _ h => h
  exact ⟨rfl, rfl, rfl, treatAll_forall₂ hlasting .refl (fun _ => treat_resembles) trivial htreated⟩

/-- **A class on its way into a machine keeps its members.** -/
lemma onLoad_resembles {c c' : Class} (hrun : ((i.onLoad c).run h).1 = .ok c') : c.Resembles c' := by
  obtain ⟨c?, r, hclass, rfl⟩ := onLoad_eq_ok hrun
  cases c? with
  | none => exact .refl c
  | some c' => exact onClass_resembles hclass

end Instrumenter

/-! ## Linked classes -/

namespace Machine

variable {m m' m'' : Machine}

/-- A loaded class under its name. -/
def Named (m : Machine) (id : ClassId) (name : Text) : Prop :=
  ∃ c, m.classes[id]? = some c ∧ c.file.name = name

/-- The superclass of a loaded class has been loaded before. -/
def SuperLoaded (m : Machine) (id : ClassId) (c : LoadedClass) : Prop :=
  (c.file.super = [] ∧ c.super = none) ∨
    (c.file.super ≠ [] ∧ ∃ s, c.super = some s ∧ s < id ∧ m.Named s c.file.super)

/-- **A loaded class is linked**: the class path has a class with its members under its name, its methods
are those of its file, and its superclass has been loaded before. -/
structure LinkedAt (m : Machine) (id : ClassId) (c : LoadedClass) : Prop where
  file : ∃ data file, m.path.resolve c.file.name = .ok data ∧ Class.decode data = .ok file
    ∧ file.Resembles c.file
  methods : ∀ key, c.methods.lookup key = (c.file.declared? key).map fun x =>
    { owner := id, ownerName := c.file.name, method := x, body := .ofMethod x }
  super : m.SuperLoaded id c

/-- **All loaded classes are linked.** -/
def Linked (m : Machine) : Prop := ∀ id c, m.classes[id]? = some c → m.LinkedAt id c

/-- Loaded classes under the names that a class has for its interfaces. -/
def Provides (m : Machine) (ids : List ClassId) (names : List Text) : Prop :=
  List.Forall₂ m.Named ids names

/-- **The interfaces of all loaded classes have been loaded before them.** -/
def Interlinked (m : Machine) : Prop :=
  ∀ (id : ClassId) (c : LoadedClass), m.classes[id]? = some c →
    (∀ i ∈ c.interfaces, i < id) ∧ m.Provides c.interfaces c.file.interfaces

/-- **Loading only adds classes**, and keeps them linked. -/
structure Grows (m m' : Machine) : Prop where
  path : m'.path = m.path
  classes : ∀ {id : ClassId} {c : LoadedClass}, m.classes[id]? = some c → m'.classes[id]? = some c
  linked : m.Linked → m'.Linked
  interlinked : m.Interlinked → m'.Interlinked

lemma Grows.refl (m : Machine) : Grows m m := ⟨rfl, id, id, id⟩

lemma Grows.trans (h : Grows m m') (h' : Grows m' m'') : Grows m m'' :=
  ⟨h'.path.trans h.path, fun hc => h'.classes (h.classes hc), fun hl => h'.linked (h.linked hl),
    fun hi => h'.interlinked (h.interlinked hi)⟩

lemma Named.grows {id : ClassId} {name : Text} (hn : m.Named id name) (h : Grows m m') :
    m'.Named id name := by
  obtain ⟨c, hc, hname⟩ := hn
  exact ⟨c, h.classes hc, hname⟩

lemma Provides.mono {ids : List ClassId} {names : List Text} (hp : m.Provides ids names)
    (hn : ∀ {id : ClassId} {name : Text}, m.Named id name → m'.Named id name) :
    m'.Provides ids names :=
  List.Forall₂.imp (fun _ _ => hn) hp

/-- Only the class path and the classes count. -/
lemma LinkedAt.congr {id : ClassId} {c : LoadedClass} (h : m.LinkedAt id c) (hp : m'.path = m.path)
    (hc : ∀ {s : ClassId} {name : Text}, m.Named s name → m'.Named s name) : m'.LinkedAt id c where
  file := hp ▸ h.file
  methods := h.methods
  super := h.super.imp_right fun ⟨hne, s, hs, hlt, hn⟩ => ⟨hne, s, hs, hlt, hc hn⟩

lemma Grows.of_eq (hp : m'.path = m.path) (hc : m'.classes = m.classes) : Grows m m' where
  path := hp
  classes := fun h => hc ▸ h
  linked := fun h id c hid => (h id c (hc ▸ hid)).congr hp fun ⟨d, hd, hn⟩ => ⟨d, hc ▸ hd, hn⟩
  interlinked := fun h id c hid =>
    (h id c (hc ▸ hid)).imp_right (·.mono fun ⟨d, hd, hn⟩ => ⟨d, hc ▸ hd, hn⟩)

/-- Classes that have been loaded have a smaller number than the next one. -/
lemma Provides.lt {ids : List ClassId} {names : List Text} (hp : m.Provides ids names) :
    ∀ i ∈ ids, i < m.classes.size := by
  unfold Provides at hp
  induction hp with
  | nil => simp
  | cons hn _ ih =>
      obtain ⟨d, hd, -⟩ := hn
      exact List.forall_mem_cons.mpr ⟨(Array.getElem?_eq_some_iff.mp hd).1, ih⟩

/-- **A class that is linked where it is put**, and whose interfaces are there, keeps all classes
linked. -/
lemma Grows.push {c : LoadedClass} (hc : m.LinkedAt m.classes.size c)
    (hi : m.Provides c.interfaces c.file.interfaces) :
    Grows m { m with classes := m.classes.push c } := by
  have hkeep : ∀ {id : ClassId} {d : LoadedClass}, m.classes[id]? = some d →
      (m.classes.push c)[id]? = some d := by
    intro id d hd
    have hlt := (Array.getElem?_eq_some_iff.mp hd).1
    rw [Array.getElem?_push_lt hlt, ← hd, Array.getElem?_eq_getElem hlt]
  have hnamed : ∀ {s : ClassId} {name : Text}, m.Named s name →
      Named { m with classes := m.classes.push c } s name :=
    fun ⟨d, hd, hn⟩ => ⟨d, hkeep hd, hn⟩
  -- a class behind the push is the new one or one of before
  have hcases : ∀ {id : ClassId} {d : LoadedClass}, (m.classes.push c)[id]? = some d →
      id = m.classes.size ∧ d = c ∨ m.classes[id]? = some d := by
    intro id d hd
    rw [Array.getElem?_push] at hd
    split at hd
    · next hid => exact Or.inl ⟨hid, (Option.some.inj hd).symm⟩
    · exact Or.inr hd
  refine ⟨rfl, hkeep, fun hl id d hd => ?_, fun hl id d hd => ?_⟩
  · rcases hcases hd with ⟨rfl, rfl⟩ | hd
    · exact hc.congr rfl hnamed
    · exact (hl id d hd).congr rfl hnamed
  · rcases hcases hd with ⟨rfl, rfl⟩ | hd
    · exact ⟨hi.lt, hi.mono hnamed⟩
    · exact (hl id d hd).imp_right (·.mono hnamed)

end Machine

/-! ## Loading -/

namespace Exec

open Machine

variable {α β : Type} {P : Machine → Prop} {Q : α → Machine → Prop} {R : β → Machine → Prop}

/-- **What loading comes to**: from a state with `P` it only adds classes, and if it goes well its result
and the state after it are as `Q` says. -/
def Loads (P : Machine → Prop) (x : Exec α) (Q : α → Machine → Prop) : Prop :=
  ∀ s, P s → Grows s (x.run s).2 ∧ ∀ a, (x.run s).1 = .ok a → Q a (x.run s).2

lemma Loads.bind {x : Exec α} {f : α → Exec β} (hx : Loads P x Q) (hf : ∀ a, Loads (Q a) (f a) R) :
    Loads P (x >>= f) R := by
  intro s hs
  obtain ⟨hgrows, hok⟩ := hx s hs
  rw [run_bind]
  generalize x.run s = r at hgrows hok
  obtain ⟨r, s₁⟩ := r
  cases r with
  | error e => exact ⟨hgrows, fun b hb => by cases hb⟩
  | ok a =>
      obtain ⟨hgrows', hok'⟩ := hf a s₁ (hok a rfl)
      exact ⟨hgrows.trans hgrows', hok'⟩

lemma Loads.pure {a : α} (h : ∀ s, P s → Q a s) : Loads P (pure a : Exec α) Q := by
  intro s hs
  refine ⟨.refl s, fun b hb => ?_⟩
  cases hb
  exact h s hs

lemma Loads.throw {e : Stop} : Loads P (throw e : Exec α) Q :=
  fun s _ => ⟨.refl s, fun b hb => by cases hb⟩

lemma Loads.get : Loads P (get : Exec Machine) (fun m s => m = s ∧ P s) :=
  fun s hs => ⟨.refl s, fun b hb => by cases hb; exact ⟨rfl, hs⟩⟩

lemma Loads.map {x : Exec α} {f : α → β} (hx : Loads P x Q) (hf : ∀ a s, Q a s → R (f a) s) :
    Loads P (f <$> x) R := by
  rw [← bind_pure_comp]
  exact hx.bind fun a => .pure fun s hs => hf a s hs

lemma Loads.mono {P' : Machine → Prop} {Q' : α → Machine → Prop} {x : Exec α} (hx : Loads P x Q)
    (hP : ∀ s, P' s → P s) (hQ : ∀ a s, Q a s → Q' a s) : Loads P' x Q' := by
  intro s hs
  obtain ⟨hgrows, hok⟩ := hx s (hP s hs)
  exact ⟨hgrows, fun a ha => hQ a _ (hok a ha)⟩

/-- What loading does not take back still holds after it. -/
lemma Loads.frame {F : Machine → Prop} {x : Exec α} (hx : Loads P x Q)
    (hF : ∀ {s s' : Machine}, Grows s s' → F s → F s') :
    Loads (fun s => P s ∧ F s) x (fun a s => Q a s ∧ F s) := by
  intro s hs
  obtain ⟨hgrows, hok⟩ := hx s hs.1
  exact ⟨hgrows, fun a ha => ⟨hok a ha, hF hgrows hs.2⟩⟩

/-- What is loaded one after another is there in the end. -/
lemma Loads.mapM {f : β → Exec α} {N : Machine → α → β → Prop}
    (hN : ∀ {s s' : Machine} {a b}, Grows s s' → N s a b → N s' a b)
    (hf : ∀ b, Loads P (f b) (fun a s => P s ∧ N s a b)) (l : List β) :
    Loads P (l.mapM f) (fun as s => P s ∧ List.Forall₂ (N s) as l) := by
  induction l with
  | nil => exact .pure fun s hs => ⟨hs, .nil⟩
  | cons b l ih =>
      rw [List.mapM_cons]
      refine (hf b).bind fun a => (ih.frame fun hg h => hN hg h).bind fun as => .pure fun s hs => ?_
      exact ⟨hs.1.1, .cons hs.2 hs.1.2⟩

/-- The file that a class path has under a name. -/
def HasFile (name : Text) (c : Class) (s : Machine) : Prop :=
  c.name = name ∧ ∃ data file, s.path.resolve name = .ok data ∧ Class.decode data = .ok file
    ∧ file.Resembles c

lemma HasFile.grows {name : Text} {c : Class} {s s' : Machine} (h : Grows s s')
    (hf : HasFile name c s) : HasFile name c s' := by
  unfold HasFile
  rw [h.path]
  exact hf

lemma loads_readClass (name : Text) :
    Loads P (readClass name) (fun c s => P s ∧ HasFile name c s) := by
  unfold readClass
  refine Loads.get.bind fun m => ?_
  split
  · exact .throw
  next data hdata =>
  split
  · exact .throw
  next c hc =>
  split
  · exact .throw
  next hname =>
  refine .pure fun s hs => ?_
  obtain ⟨rfl, hs⟩ := hs
  exact ⟨hs, by simpa using hname, data, c, hdata, hc, .refl c⟩

lemma loads_transformed {name : Text} {c : Class} :
    Loads (fun s => Linked s ∧ HasFile name c s) (transformed c)
      (fun c' s => Linked s ∧ HasFile name c' s) := by
  unfold transformed
  refine Loads.get.bind fun m => ?_
  split
  · exact .pure fun s hs => hs.2
  next i _ =>
  have hload : Loads (fun s => m = s ∧ Linked s ∧ HasFile name c s)
      (modifyGet fun m => (((i.onLoad c).run m.hierarchy).1,
        { m with hierarchy := ((i.onLoad c).run m.hierarchy).2 }) : Exec (Conclusion Class))
      (fun r s => Linked s ∧ ∀ c', r = .ok c' → HasFile name c' s) := by
    intro s hs
    have hgrows : Grows s { s with hierarchy := ((i.onLoad c).run s.hierarchy).2 } := .of_eq rfl rfl
    refine ⟨hgrows, fun r hr => ⟨hgrows.linked hs.2.1, fun c' hc' => ?_⟩⟩
    cases hr
    obtain ⟨hname, data, file, hdata, hfile, hres⟩ := hs.2.2
    have hres' := Instrumenter.onLoad_resembles hc'
    exact ⟨hres'.name.symm.trans hname, data, file, hdata, hfile, hres.trans hres'⟩
  refine hload.bind fun r => ?_
  cases r with
  | error | endless => exact .throw
  | ok c' => exact .pure fun s hs => ⟨hs.1, hs.2 c' rfl⟩

/-- The methods of a class, the last declared in front. -/
lemma lookup_link_methods (id : ClassId) (cls : Text) (ms : List Method)
    (acc : List (Text × LoadedMethod)) (key : Text) :
    (ms.foldl (fun acc x => (x.key,
        ({ owner := id, ownerName := cls, method := x, body := .ofMethod x } : LoadedMethod)) :: acc)
        acc).lookup key
      = ((ms.reverse.find? (·.key == key)).map fun x =>
          { owner := id, ownerName := cls, method := x, body := .ofMethod x }).or (acc.lookup key) := by
  induction ms generalizing acc with
  | nil => rfl
  | cons x ms ih =>
      rw [List.foldl_cons, ih, Class.find?_reverse_cons]
      cases ms.reverse.find? (·.key == key) with
      | some y => rfl
      | none =>
          by_cases hkey : key = x.key
          · simp [hkey]
          · have hne : (key == x.key) = false := by simpa using hkey
            simp [List.lookup_cons, hkey, hne]

/-- **A class that is put where its superclass has been loaded** is linked. -/
lemma linkedAt_link {name : Text} {c : Class} {s : Machine} {super : Option ClassId}
    {interfaces : List ClassId} (hf : HasFile name c s)
    (hsuper : (c.super = [] ∧ super = none)
      ∨ (c.super ≠ [] ∧ ∃ id, super = some id ∧ s.Named id c.super)) :
    s.LinkedAt s.classes.size (link s c super interfaces) where
  file := by
    obtain ⟨rfl, hfile⟩ := hf
    exact hfile
  methods := fun key => by
    simp only [link, lookup_link_methods, List.lookup_nil, Option.or_none]
    rfl
  super := by
    refine hsuper.imp_right fun ⟨hne, id, hid, d, hd, hn⟩ => ⟨hne, id, hid, ?_, d, hd, hn⟩
    exact (Array.getElem?_eq_some_iff.mp hd).1

/-- **Loading a class** keeps all classes linked, and gives a class of the name. -/
lemma loads_loadWithin (fuel : Nat) (name : Text) :
    Loads Linked (loadWithin fuel name) (fun id s => Linked s ∧ s.Named id name) := by
  induction fuel generalizing name with
  | zero => exact .throw
  | succ fuel ih =>
      unfold loadWithin
      refine Loads.get.bind fun m => ?_
      split
      · next id hid =>
          refine .pure fun s hs => ?_
          obtain ⟨rfl, hs⟩ := hs
          obtain ⟨hlt, hname, -⟩ := Array.findIdx?_eq_some_iff_getElem.mp hid
          exact ⟨hs, _, Array.getElem?_eq_getElem hlt, by simpa using hname⟩
      refine Loads.bind (loads_readClass name) fun c => ?_
      refine Loads.bind (loads_transformed.mono (fun s hs => ⟨hs.1.2, hs.2⟩) fun _ _ hs => hs)
        fun file => ?_
      -- the superclass is there, then the interfaces are loaded and the class is put behind them
      have hpush : ∀ super : Option ClassId, Loads
          (fun s => (Linked s ∧ HasFile name file s) ∧ ((file.super = [] ∧ super = none)
            ∨ (file.super ≠ [] ∧ ∃ id, super = some id ∧ s.Named id file.super)))
          (do
            let interfaces ← file.interfaces.mapM (loadWithin fuel)
            modifyGet fun m =>
              (m.classes.size, { m with classes := m.classes.push (link m file super interfaces) }))
          (fun id s => Linked s ∧ s.Named id name) := by
        intro super
        have hall : Loads (fun s => Linked s ∧ (HasFile name file s ∧ ((file.super = [] ∧ super = none)
              ∨ (file.super ≠ [] ∧ ∃ id, super = some id ∧ s.Named id file.super))))
            (file.interfaces.mapM (loadWithin fuel)) (fun ids s =>
              (Linked s ∧ s.Provides ids file.interfaces) ∧ (HasFile name file s
                ∧ ((file.super = [] ∧ super = none)
                  ∨ (file.super ≠ [] ∧ ∃ id, super = some id ∧ s.Named id file.super)))) := by
          refine Loads.frame (Loads.mapM (fun hg hn => hn.grows hg) ih _)
            fun hg hs => ⟨hs.1.grows hg, hs.2.imp_right fun ⟨hne, id, hid, hn⟩ => ?_⟩
          exact ⟨hne, id, hid, hn.grows hg⟩
        refine Loads.bind (hall.mono (fun s hs => ⟨hs.1.1, hs.1.2, hs.2⟩) fun _ _ hs => hs)
          fun interfaces s hs => ?_
        have hlinked : s.LinkedAt s.classes.size (link s file super interfaces) :=
          linkedAt_link hs.2.1 hs.2.2
        have hg := Grows.push hlinked hs.1.2
        refine ⟨hg, fun id hid => ?_⟩
        cases hid
        exact ⟨hg.linked hs.1.1, _, Array.getElem?_push_size, hs.2.1.1⟩
      dsimp only
      split
      · next hempty =>
          refine (hpush none).mono (fun s hs => ⟨hs, Or.inl ⟨?_, rfl⟩⟩) fun _ _ hs => hs
          simpa using hempty
      · next hempty =>
          have hsuper : Loads (fun s => Linked s ∧ HasFile name file s)
              (some <$> loadWithin fuel file.super)
              (fun super s => (Linked s ∧ HasFile name file s) ∧ ((file.super = [] ∧ super = none)
                ∨ (file.super ≠ [] ∧ ∃ id, super = some id ∧ s.Named id file.super))) := by
            refine ((ih file.super).frame fun hg hs => HasFile.grows hg hs).map fun id s hs => ?_
            exact ⟨⟨hs.1.1, hs.2⟩, Or.inr ⟨by simpa using hempty, id, rfl, hs.1.2⟩⟩
          exact hsuper.bind hpush

/-! ### Classes that are loaded at once -/

lemma run_get_bind (f : Machine → Exec α) (s : Machine) : (get >>= f).run s = (f s).run s := rfl

lemma run_bind_of_ok {x : Exec α} {f : α → Exec β} {s s' : Machine} {a : α} (h : x.run s = (.ok a, s')) :
    (x >>= f).run s = (f a).run s' := by
  rw [run_bind, h]

lemma run_map_of_ok {x : Exec α} {f : α → β} {s s' : Machine} {a : α} (h : x.run s = (.ok a, s')) :
    (f <$> x).run s = (.ok (f a), s') := by
  rw [← bind_pure_comp, run_bind, h]
  rfl

lemma run_readClass {m : Machine} {c : Class} {data : Bytes} (hdata : m.path.resolve c.name = .ok data)
    (hdecode : Class.decode data = .ok c) : (readClass c.name).run m = (.ok c, m) := by
  unfold readClass
  rw [run_get_bind, hdata]
  dsimp only
  rw [hdecode]
  simp only [bne_self_eq_false, Bool.false_eq_true, if_false]
  rfl

lemma run_transformed {m : Machine} {c : Class} (hplain : m.instrumenter? = none) :
    (transformed c).run m = (.ok c, m) := by
  unfold transformed
  rw [run_get_bind, hplain]
  rfl

lemma run_loadWithin_known {m : Machine} {name : Text} {id : ClassId} (fuel : Nat)
    (h : m.classNamed? name = some id) : (loadWithin (fuel + 1) name).run m = (.ok id, m) := by
  rw [loadWithin, run_get_bind, h]
  rfl

/-- There is fuel for every class on the class path. -/
lemma run_loadClass (name : Text) (m : Machine) :
    (loadClass name).run m = (loadWithin (m.path.height + 2) name).run m := by
  unfold loadClass
  rw [run_get_bind]

/-- A class that has been loaded is not loaded again. -/
lemma run_loadClass_named {m : Machine} {name : Text} {id : ClassId} (h : m.classNamed? name = some id) :
    (loadClass name).run m = (.ok id, m) := by
  rw [run_loadClass]
  exact run_loadWithin_known (m.path.height + 1) h

/-- A class is loaded at once if its superclass has been and it has no interfaces. -/
lemma run_loadWithin_new {m : Machine} {c : Class} {data : Bytes} {super : Option ClassId} (fuel : Nat)
    (hplain : m.instrumenter? = none) (hnew : m.classNamed? c.name = none)
    (hdata : m.path.resolve c.name = .ok data) (hdecode : Class.decode data = .ok c)
    (hinterfaces : c.interfaces = [])
    (hsuper : (c.super = [] ∧ super = none)
      ∨ (c.super ≠ [] ∧ ∃ s, super = some s ∧ m.classNamed? c.super = some s)) :
    (loadWithin (fuel + 2) c.name).run m
      = (.ok m.classes.size, { m with classes := m.classes.push (link m c super []) }) := by
  have hrest : ((do
      let interfaces ← c.interfaces.mapM (loadWithin (fuel + 1))
      modifyGet fun m =>
        (m.classes.size, { m with classes := m.classes.push (link m c super interfaces) })) :
      Exec ClassId).run m
        = (.ok m.classes.size, { m with classes := m.classes.push (link m c super []) }) := by
    rw [hinterfaces]
    rfl
  rw [loadWithin, run_get_bind, hnew]
  refine (run_bind_of_ok (run_readClass hdata hdecode)).trans ?_
  refine (run_bind_of_ok (run_transformed hplain)).trans ?_
  dsimp only
  rcases hsuper with ⟨hempty, rfl⟩ | ⟨hne, s, rfl, hs⟩
  · rw [if_pos (by simpa using hempty)]
    exact hrest
  · rw [if_neg (by simpa using hne)]
    exact (run_bind_of_ok (run_map_of_ok (run_loadWithin_known fuel hs))).trans hrest
end Exec

/-! ## The states of a machine -/

namespace Machine

/-- Two states with the same classes, as far as their files, superclasses and methods go.  Code that runs
changes statics and starts classes. -/
structure SameClasses (m m' : Machine) : Prop where
  path : m'.path = m.path
  classes : ∀ id : ClassId, (m'.classes[id]?).map (fun c => (c.file, c.super, c.methods))
    = (m.classes[id]?).map fun c => (c.file, c.super, c.methods)

/-- **The states of a machine** over a class path: it begins without classes, loads them, whether or not
all goes well, and whatever else it does leaves them as they were loaded. -/
inductive Reached (path : ClassPath) : Machine → Prop
  | fresh {m : Machine} (hp : m.path = path) (hc : m.classes = #[]) : Reached path m
  | load {m m' : Machine} {fuel : Nat} {name : Text} {r : Except Stop ClassId} (h : Reached path m)
      (hrun : (Exec.loadWithin fuel name).run m = (r, m')) : Reached path m'
  | other {m m' : Machine} (h : Reached path m) (hsame : m.SameClasses m') : Reached path m'

variable {path : ClassPath} {m m' : Machine}

lemma SameClasses.named (h : m.SameClasses m') {id : ClassId} {name : Text} (hn : m.Named id name) :
    m'.Named id name := by
  obtain ⟨c, hc, hname⟩ := hn
  have hid := h.classes id
  rw [hc] at hid
  obtain ⟨c', hc', heq⟩ := Option.map_eq_some_iff.mp hid
  exact ⟨c', hc', (congrArg (·.1.name) heq).trans hname⟩

lemma SameClasses.linked (h : m.SameClasses m') (hl : m.Linked) : m'.Linked := by
  intro id c' hc'
  have hid := h.classes id
  rw [hc'] at hid
  obtain ⟨c, hc, heq⟩ := Option.map_eq_some_iff.mp hid.symm
  simp only [Prod.mk.injEq] at heq
  obtain ⟨hfile, hsuper, hmethods⟩ := heq
  have hlinked := (hl id c hc).congr h.path h.named
  refine ⟨hfile ▸ hlinked.file, fun key => ?_, ?_⟩
  · rw [← hmethods, ← hfile]
    exact hlinked.methods key
  · have := hlinked.super
    unfold SuperLoaded at this ⊢
    rwa [← hfile, ← hsuper]

/-- **The classes of a machine are linked in all its states.** -/
theorem Reached.linked (h : Reached path m) : m.path = path ∧ m.Linked := by
  induction h with
  | fresh hp hc => exact ⟨hp, fun id c hid => by simp [hc] at hid⟩
  | load _ hrun ih =>
      obtain ⟨hp, hl⟩ := ih
      obtain ⟨hgrows, -⟩ := Exec.loads_loadWithin _ _ _ hl
      rw [hrun] at hgrows
      exact ⟨hgrows.path.trans hp, hgrows.linked hl⟩
  | other _ hsame ih => exact ⟨hsame.path.trans ih.1, hsame.linked ih.2⟩

/-- **The state after a class was loaded at once.** -/
lemma Reached.load_new {c : Class} {data : Bytes}
    {super : Option ClassId} (hm : m.Reached path) (hplain : m.instrumenter? = none)
    (hnew : m.classNamed? c.name = none) (hdata : m.path.resolve c.name = .ok data)
    (hdecode : Class.decode data = .ok c) (hinterfaces : c.interfaces = [])
    (hsuper : (c.super = [] ∧ super = none)
      ∨ (c.super ≠ [] ∧ ∃ s, super = some s ∧ m.classNamed? c.super = some s)) :
    Reached path { m with classes := m.classes.push (Exec.link m c super []) } := by
  exact hm.load (Exec.run_loadWithin_new 0 hplain hnew hdata hdecode hinterfaces hsuper)

/-- A change within a class that leaves its file, its superclass and its methods alone. -/
lemma SameClasses.modify_class (m : Machine) (id : ClassId) {f : LoadedClass → LoadedClass}
    (hf : ∀ c, (f c).file = c.file ∧ (f c).super = c.super ∧ (f c).methods = c.methods) :
    m.SameClasses { m with classes := m.classes.modify id f } := by
  refine ⟨rfl, fun id' => ?_⟩
  by_cases hid : id = id'
  · subst hid
    cases hc : m.classes[id]? with
    | none => simp [Array.getElem?_modify, hc]
    | some c => simp [Array.getElem?_modify, hc, hf c]
  · simp [Array.getElem?_modify, hid]

/-- **Whatever a machine does, its states are reached.** -/
instance : Exec.SteadyLoad fun m m' => m.Reached path → m'.Reached path where
  refl _ := id
  trans h h' := h' ∘ h
  of_eq hp hc _ _ _ hm := hm.other ⟨hp, fun id => by rw [hc]⟩
  push_object _ _ hm := hm.other ⟨rfl, fun _ => rfl⟩
  modifyObject _ _ _ _ hm := hm.other ⟨rfl, fun _ => rfl⟩
  push_array _ _ _ hm := hm.other ⟨rfl, fun _ => rfl⟩
  modify_array _ _ _ _ hm := hm.other ⟨rfl, fun _ => rfl⟩
  withStatics s id _ hm := hm.other (.modify_class s id fun _ => ⟨rfl, rfl, rfl⟩)
  start _ _ := start_of_marked (R := fun m m' => m.Reached path → m'.Reached path)
    (fun h h' => h' ∘ h) fun s id _ hm => hm.other (.modify_class s id fun _ => ⟨rfl, rfl, rfl⟩)
  load _ _ _ hm := hm.load rfl

/-- **Calls lead from reached states to reached states.** -/
theorem Reached.call (hm : m.Reached path) (fuel : Nat) (lm : LoadedMethod) (args : List Value) :
    ((Exec.call fuel lm args).run m).2.Reached path := by
  have hkeeps : Exec.Keeps (fun m m' => m.Reached path → m'.Reached path) (Exec.call fuel lm args) :=
    Exec.keeps_call fuel lm args
  exact hkeeps m hm

end Machine

end Suspension
