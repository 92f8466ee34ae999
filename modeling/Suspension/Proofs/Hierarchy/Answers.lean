import Suspension.Proofs.Hierarchy.Views

/-!
# Answers do not depend on the past

What is kept only saves asking again.  If all chains of superclasses end, **each query answers what it
would answer alone**, whatever was asked or recorded before, and the answer to a question about a call is
determined by the source as the rules say.

* `ClassSource.Ends` — a chain of superclasses that ends.
* `ClassSource.Suspends` — whether a call may suspend, by rules.
* `Hierarchy.walk_decides` — the walk follows the rules.
* `Ask.run_eq` — one query on two states of knowledge.
* `Ask.answers_alone` — queries in sequence.
-/

namespace Suspension

/-! ## What a class declares -/

namespace Class

/-- The method that a class declares for a name and descriptor; the last one counts. -/
def declared? (c : Class) (key : Text) : Option Method := c.methods.reverse.find? (·.key == key)

/-- A list of methods is read from the front, and the later one of two with the same key wins. -/
lemma find?_reverse_cons (m : Method) (ms : List Method) (key : Text) :
    (m :: ms).reverse.find? (·.key == key)
      = (ms.reverse.find? (·.key == key)).or (if key = m.key then some m else none) := by
  rw [List.reverse_cons, List.find?_append]
  by_cases hkey : key = m.key
  · simp [hkey]
  · simp [hkey, Ne.symm hkey]

end Class

namespace ClassFacts

open Hierarchy

lemma lookup_foldl_methods (ms : List Method) (acc : List (Text × Bool)) (key : Text) :
    (ms.foldl (fun acc m => (m.key, m.declares ClassName.suspendSignal)
        :: acc.filter (·.1 != m.key)) acc).lookup key
      = ((ms.reverse.find? (·.key == key)).map (·.declares ClassName.suspendSignal)).or
          (acc.lookup key) := by
  induction ms generalizing acc with
  | nil => rfl
  | cons m ms ih =>
      rw [List.foldl_cons, ih, Class.find?_reverse_cons]
      cases ms.reverse.find? (·.key == key) with
      | some m' => rfl
      | none =>
          change (put m.key (m.declares ClassName.suspendSignal) acc).lookup key = _
          by_cases hkey : key = m.key
          · simp [hkey, lookup_put_self]
          · simp [hkey, lookup_put_of_ne _ acc hkey]

/-- **The facts of a class** tell of each method that it declares whether it suspends. -/
lemma lookup_ofClass (c : Class) (key : Text) :
    (ofClass c).methods.lookup key
      = (c.declared? key).map (·.declares ClassName.suspendSignal) := by
  simp [ofClass, lookup_foldl_methods, Class.declared?]

end ClassFacts

/-! ## Rules -/

namespace ClassSource

open Hierarchy

variable {src : ClassSource} {cls name desc : Text} {search : Bool} {n : Nat}

/-- **The chain of superclasses ends**, within a number of classes. -/
def Ends (src : ClassSource) : Nat → Text → Prop
  | 0, _ => False
  | n + 1, cls => ∀ s, src.superOf cls = some s → Ends src n s

lemma Ends.mono {m : Nat} (h : src.Ends n cls) (hle : n ≤ m) : src.Ends m cls := by
  induction n generalizing cls m with
  | zero => exact h.elim
  | succ n ih =>
      obtain ⟨m, rfl⟩ := Nat.exists_eq_add_of_le' (Nat.lt_of_lt_of_le n.succ_pos hle)
      exact fun s hs => ih (h s hs) (by omega)

/-- **The walk that decides a call.**  It goes to the first class that is not found or that declares the
method, towards the superclass only in a search. -/
inductive Decides (src : ClassSource) (name desc : Text) (search : Bool) : Text → Bool → Prop
  | ended : Decides src name desc search [] true
  | missing {cls : Text} {e : Fault} (hne : cls ≠ []) (hfind : src.find cls = .error e) :
      Decides src name desc search cls true
  | declared {cls : Text} {c : Class} {m : Method} (hne : cls ≠ []) (hfind : src.find cls = .ok c)
      (hm : c.declared? (name ++ desc) = some m) :
      Decides src name desc search cls
        (if isCore src cls then isListed src cls name desc else m.declares ClassName.suspendSignal)
  | unsearched {cls : Text} {c : Class} (hsearch : search = false) (hne : cls ≠ [])
      (hfind : src.find cls = .ok c) (hm : c.declared? (name ++ desc) = none) :
      Decides src name desc search cls true
  | inherited {cls : Text} {c : Class} {b : Bool} (hsearch : search = true) (hne : cls ≠ [])
      (hfind : src.find cls = .ok c) (hm : c.declared? (name ++ desc) = none)
      (hsuper : Decides src name desc search c.super b) : Decides src name desc search cls b

/-- The walk has one outcome. -/
lemma Decides.unique {b b' : Bool} (h : src.Decides name desc search cls b)
    (h' : src.Decides name desc search cls b') : b = b' := by
  induction h with
  | ended => cases h' <;> first | rfl | contradiction
  | missing _ hfind => cases h' <;> simp_all
  | declared _ hfind hm => cases h' <;> simp_all
  | unsearched _ _ hfind hm => cases h' <;> simp_all
  | inherited hsearch hne hfind hm _ ih =>
      cases h' with
      | inherited _ _ hfind' _ hsuper' =>
          obtain rfl := Except.ok.inj (hfind.symm.trans hfind')
          exact ih hsuper'
      | _ => simp_all

/-- **Whether a call may suspend.**  Constructors and initialisers never do, methods of core classes do if
they are listed, and of all others the walk decides. -/
def Suspends (src : ClassSource) (cls name desc : Text) (search b : Bool) : Prop :=
  if name.startsWith (Text.ofString "<") then b = false
  else if isCore src cls then b = isListed src cls name desc
  else src.Decides name desc search cls b

lemma Suspends.unique {b b' : Bool} (h : src.Suspends cls name desc search b)
    (h' : src.Suspends cls name desc search b') : b = b' := by
  unfold Suspends at h h'
  split at h
  · rw [if_pos (by assumption)] at h'
    exact h.trans h'.symm
  · rw [if_neg (by assumption)] at h'
    split at h
    · rw [if_pos (by assumption)] at h'
      exact h.trans h'.symm
    · rw [if_neg (by assumption)] at h'
      exact h.unique h'

/-- The lessons that agree with a source: a class that is recorded is the one that would be resolved. -/
def Faithful (src : ClassSource) : Lesson → Prop
  | .recorded c => src.find c.name = .ok c
  | _ => True

lemma calls_faithful : Calls src.Faithful := ⟨trivial, fun _ => trivial⟩

lemma supers_faithful : Supers src.Faithful := ⟨fun _ => trivial, fun _ => trivial⟩

end ClassSource

/-! ## Answers from what is known -/

namespace Hierarchy

open ClassSource

variable {src : ClassSource} {cls name desc : Text} {search : Bool} {n : Nat}
  {h h' h₁ h₂ : Hierarchy}

/-- Faithful lessons keep what is kept consistent. -/
lemma Consistent.learnsAll (hl : LearnsAll src src.Faithful h h') (hh : Consistent src h) :
    Consistent src h' :=
  hl.keeps (fun hl => Consistent.learns (fun _ hc => hc) hl) hh

/-- A walk that comes to an empty name has ended. -/
lemma run_walk_nil {count : Nat} : (walk src name desc search count []).run h = (none, h) := by
  rw [walk, run_climb, climbOn_of_inl rfl]
  rfl

/-- What one class says to the walk that decides a call. -/
def walkAnswer (src : ClassSource) (cls name desc : Text) (search : Bool) :
    ClassEntry → Option Bool ⊕ Text
  | .missing => .inl (some true)
  | .known f =>
    match f.methods.lookup (name ++ desc) with
    | some declared => .inl (some (if isCore src cls then isListed src cls name desc else declared))
    | none => if search then .inr f.super else .inl none

/-- **The walk follows the rules**, whatever is known already. -/
lemma walk_decides (hh : Consistent src h) (hends : src.Ends n cls) (count : Nat) :
    src.Decides name desc search cls (((walk src name desc search count cls).run h).1.getD true) := by
  rw [walk_count]
  induction n generalizing cls h with
  | zero => exact hends.elim
  | succ n ih =>
  rcases List.eq_nil_or_concat cls with hnil | hne
  · subst hnil
    rw [run_walk_nil]
    exact .ended
  have hne : cls ≠ [] := by
    rintro rfl
    simp at hne
  have hstep : (walkStep src name desc search cls).run h
      = (walkAnswer src cls name desc search (src.entryOf cls), ((entry src cls).run h).2) := by
    unfold walkStep walkAnswer
    rw [if_neg (by simpa using hne), Query.run_bind, hh.entry cls]
    cases src.entryOf cls with
    | missing => rfl
    | known f =>
        simp only
        cases f.methods.lookup (name ++ desc) <;> rfl
  have hh' : Consistent src ((entry src cls).run h).2 := hh.learnsAll (entry_learns calls_faithful cls)
  generalize ((entry src cls).run h).2 = h' at hstep hh'
  rw [walk, run_climb]
  cases hfind : src.find cls with
  | error e =>
      simp only [walkAnswer, entryOf, hfind] at hstep
      rw [climbOn_of_inl hstep]
      exact .missing hne hfind
  | ok c =>
      rw [entryOf_of_find hfind] at hstep
      simp only [walkAnswer, ClassFacts.lookup_ofClass] at hstep
      cases hm : c.declared? (name ++ desc) with
      | some m =>
          simp only [hm, Option.map_some] at hstep
          rw [climbOn_of_inl hstep]
          exact .declared hne hfind hm
      | none =>
          simp only [hm, Option.map_none] at hstep
          cases search with
          | false =>
              rw [climbOn_of_inl hstep]
              exact .unsearched rfl hne hfind hm
          | true =>
              rw [climbOn_of_inr hstep]
              refine .inherited rfl hne hfind hm ?_
              have hrest : src.Decides name desc true c.super
                  (((walk src name desc true 0 c.super).run h').1.getD true) := by
                by_cases hsuper : c.super = []
                · rw [hsuper, run_walk_nil]
                  exact .ended
                · refine ih hh' (hends c.super ?_)
                  rw [superOf_of_find hfind, nonEmpty, if_neg (by simpa using hsuper)]
              rw [walk, run_climb] at hrest
              change src.Decides name desc true c.super
                (((climbOn (walkStep src name desc true) c.super h').getD (none, h)).1.getD true)
              cases hout : climbOn (walkStep src name desc true) c.super h' with
              | none => rwa [hout] at hrest
              | some out => rwa [hout] at hrest

/-- **Questions about calls are answered by the rules.** -/
lemma isSuspendable_suspends (hh : Consistent src h) (hends : src.Ends n cls) :
    src.Suspends cls name desc search ((isSuspendable src cls name desc search).run h).1 := by
  unfold Suspends isSuspendable
  split
  · rfl
  split
  · rfl
  simp only [chainBound, Query.run_bind, Query.run_get, Query.run_pure]
  have hwalk : src.Decides name desc search cls
      (((walk src name desc search (src.height + h.classes.length + 2) cls).run h).1.getD true) :=
    walk_decides hh hends _
  generalize (walk src name desc search (src.height + h.classes.length + 2) cls).run h = r at hwalk ⊢
  obtain ⟨answer, h'⟩ := r
  cases answer <;> exact hwalk

end Hierarchy

/-! ## Queries in sequence -/

namespace Ask

open Hierarchy ClassSource

variable {src : ClassSource} {h h₁ h₂ : Hierarchy}

/-- A recorded class is the one that would be resolved. -/
def Recorded (src : ClassSource) (a : Ask) : Prop := ∀ c, a = .record c → src.find c.name = .ok c

lemma allowed_faithful {a : Ask} (ha : a.Recorded src) : a.Allowed src.Faithful := by
  cases a with
  | suspendable => exact calls_faithful
  | directSuper | commonSuper | exception => exact supers_faithful
  | record c => exact ⟨trivial, ha c rfl⟩

/-- **One query on two states of knowledge** has one answer. -/
lemma run_eq (a : Ask) (hh₁ : Consistent src h₁) (hh₂ : Consistent src h₂) :
    ((a.run src).run h₁).1 = ((a.run src).run h₂).1 := by
  have hview : SameView src src.entryOf h₁ h₂ := ⟨hh₁.shows, hh₂.shows⟩
  cases a with
  | suspendable cls name desc search =>
      exact congrArg Reply.verdict (respects_isSuspendable cls name desc search hview).1
  | directSuper cls => exact congrArg Reply.cls (respects_directSuper cls hview).1
  | commonSuper x y => exact congrArg Reply.cls (respects_commonSuper x y hview).1
  | exception cls => exact congrArg Reply.verdict (respects_isException cls hview).1
  | record c => rfl

/-- **Each of several queries has the answer that it would have alone.** -/
lemma run_all_eq {asks : List Ask} (hh : Consistent src h)
    (hrecorded : ∀ a ∈ asks, a.Recorded src) :
    ((asks.mapM (run src)).run h).1 = asks.map fun a => ((a.run src).run {}).1 := by
  induction asks generalizing h with
  | nil => rfl
  | cons a rest ih =>
      rw [List.forall_mem_cons] at hrecorded
      have hh' : Consistent src ((a.run src).run h).2 :=
        hh.learnsAll (learns (allowed_faithful hrecorded.1))
      rw [List.mapM_cons]
      simp only [Query.run_bind, Query.run_pure, List.map_cons]
      rw [ih hh' hrecorded.2, run_eq a hh consistent_empty]

/-- **Answers do not depend on the past.**  Let all chains of superclasses end, and let classes be
recorded only as they would be resolved.  Each query of a sequence has the answer that it would have alone,
a call may suspend as the rules say, and no class causes more than one warning of a kind. -/
theorem answers_alone (src : ClassSource) (hends : ∀ cls, ∃ n, src.Ends n cls) (asks : List Ask)
    (hrecorded : ∀ a ∈ asks, a.Recorded src) :
    ((asks.mapM (run src)).run {}).1 = (asks.map fun a => ((a.run src).run {}).1)
      ∧ (∀ cls name desc search b,
          (((suspendable cls name desc search).run src).run {}).1 = .verdict b
            ↔ src.Suspends cls name desc search b)
      ∧ ∀ cls, warnings notFoundMessage cls ((asks.mapM (run src)).run {}).2.log ≤ 1
          ∧ warnings noSuperMessage cls ((asks.mapM (run src)).run {}).2.log ≤ 1 := by
  refine ⟨run_all_eq consistent_empty hrecorded, fun cls name desc search b => ?_, fun cls => ?_⟩
  · obtain ⟨n, hn⟩ := hends cls
    have hanswer : src.Suspends cls name desc search
        ((isSuspendable src cls name desc search).run {}).1 := isSuspendable_suspends consistent_empty hn
    constructor
    · intro hb
      have hb : ((isSuspendable src cls name desc search).run {}).1 = b := Reply.verdict.inj hb
      rwa [hb] at hanswer
    · exact fun hb => congrArg Reply.verdict (hanswer.unique hb)
  · have honce : WarnsOnce ((asks.mapM (run src)).run {}).2 :=
      (learns_all fun a ha => allowed_faithful (hrecorded a ha)).keeps WarnsOnce.learns warnsOnce_empty
    exact ⟨Nat.le_trans (honce.notFound cls) (Bool.toNat_le _),
      Nat.le_trans (honce.noSuper cls) (Bool.toNat_le _)⟩

/-! ### Two classes -/

/-- A class that declares a method which suspends. -/
def baseClass : Class where
  name := "a/B"
  super := ClassName.object
  methods := [{ name := "f", desc := "()V", flags := Flag.abstractBit,
                throws := [ClassName.suspendSignal] }]

/-- A class that inherits it. -/
def derivedClass : Class where
  name := "a/A"
  super := "a/B"

/-- A source of these two classes. -/
def twoClasses : ClassSource where
  resolve? := some fun name =>
    match [baseClass, derivedClass].find? (·.name == name) with
    | none => .error (.plain "no such class")
    | some c => c.encode.mapError fun e => .plain e.message

set_option maxRecDepth 100000 in
lemma twoClasses_ends (cls : Text) : ∃ n, twoClasses.Ends n cls := by
  have hbase : twoClasses.superOf "a/B" = some ClassName.object := by decide +kernel
  have hderived : twoClasses.superOf "a/A" = some (Text.ofString "a/B") := by decide +kernel
  have hother : ∀ cls : Text, cls ≠ Text.ofString "a/B" → cls ≠ Text.ofString "a/A" →
      twoClasses.superOf cls = none := by
    intro cls hb ha
    have hnone : [baseClass, derivedClass].find? (·.name == cls) = none := by
      simp [baseClass, derivedClass, Ne.symm hb, Ne.symm ha]
    simp [superOf, superText, find, twoClasses, hnone, nonEmpty]
  have hobject : twoClasses.Ends 1 ClassName.object := by
    intro s hs
    rw [hother ClassName.object (by decide) (by decide)] at hs
    cases hs
  have hends : twoClasses.Ends 2 "a/B" := fun s hs => Option.some.inj (hbase.symm.trans hs) ▸ hobject
  by_cases hb : cls = Text.ofString "a/B"
  · exact ⟨2, hb ▸ hends⟩
  by_cases ha : cls = Text.ofString "a/A"
  · subst ha
    exact ⟨3, fun s hs => Option.some.inj (hderived.symm.trans hs) ▸ hends⟩
  · refine ⟨1, fun s hs => ?_⟩
    rw [hother cls hb ha] at hs
    cases hs

set_option maxRecDepth 100000 in
/-- The theorem at a sequence that looks a class up before it is recorded and asked about again. -/
theorem twoClasses_answers_alone :
    (([directSuper "a/A", record derivedClass, suspendable "a/A" "f" "()V" true, exception "a/B",
        directSuper "a/A"].mapM (run twoClasses)).run {}).1
      = [directSuper "a/A", record derivedClass, suspendable "a/A" "f" "()V" true, exception "a/B",
        directSuper "a/A"].map fun a => ((a.run twoClasses).run {}).1 := by
  have hfind : (twoClasses.find "a/A").toOption = some derivedClass := by decide +kernel
  have hrecorded : ∀ a ∈ [directSuper "a/A", record derivedClass, suspendable "a/A" "f" "()V" true,
      exception "a/B", directSuper "a/A"], a.Recorded twoClasses := by
    rintro a ha c rfl
    obtain rfl : c = derivedClass := by simpa using ha
    change twoClasses.find (Text.ofString "a/A") = _
    cases hf : twoClasses.find "a/A" with
    | error e =>
        rw [hf] at hfind
        cases hfind
    | ok c =>
        rw [hf] at hfind
        exact congrArg Except.ok (Option.some.inj hfind)
  exact (answers_alone twoClasses twoClasses_ends _ hrecorded).1

end Ask

end Suspension
