import Mathlib.Logic.Relation
import Suspension.Proofs.Hierarchy.Agreement

/-!
# What queries learn

A query answers from what is kept, and asks the resolver for the rest.  Whatever it asks for, what is
known changes by **lessons of five kinds** only: a remark is logged, a class is entered, a superclass is
looked up without keeping its class, the look-up fails for a class that is known to be missing, and the
facts of a class at hand are recorded.

* `ClassSource.find`, `entryOf`, `superOf` — what a source says about a name.
* `Hierarchy.Learns` — one lesson.
* `Ask`, `Ask.run` — the queries as data, and `Ask.learns`: every query is a sequence of lessons.
* `Hierarchy.Consistent` — what is kept is what the source says; lessons keep it so.
* `Hierarchy.WarnsOnce` — a class is warned about when its name is kept, and not again.
-/

namespace Suspension

/-! ## What a source says -/

namespace ClassSource

variable {src : ClassSource} {cls : Text}

/-- **The class of a name**, as the resolver supplies it. -/
def find (src : ClassSource) (cls : Text) : Except Fault Class :=
  match src.resolve? with
  | none => .error (.resolution cls (some (.state Phase.resolve "no resolver configured")))
  | some f =>
    match f cls with
    | .error e => .error (.resolution cls (some e))
    | .ok data => Hierarchy.readClass cls data

/-- The entry of a name. -/
def entryOf (src : ClassSource) (cls : Text) : ClassEntry :=
  match src.find cls with
  | .error _ => .missing
  | .ok c => .known (.ofClass c)

/-- The name of a superclass; empty if there is none or if it cannot be determined. -/
def superText (src : ClassSource) (cls : Text) : Text :=
  match src.find cls with
  | .error _ => []
  | .ok c => c.super

/-- **The superclass of a name.** -/
def superOf (src : ClassSource) (cls : Text) : Option Text := Hierarchy.nonEmpty (src.superText cls)

/-- The names that the resolver was asked for, with one more. -/
def consult (src : ClassSource) (cls : Text) (asked : List Text) : List Text :=
  if src.resolve?.isSome then cls :: asked else asked

lemma entryOf_of_find {c : Class} (h : src.find cls = .ok c) :
    src.entryOf cls = .known (.ofClass c) := by
  simp [entryOf, h]

lemma find_of_entryOf {f : ClassFacts} (h : src.entryOf cls = .known f) :
    ∃ c, src.find cls = .ok c ∧ f = .ofClass c := by
  unfold entryOf at h
  split at h
  · cases h
  · next c hc =>
      cases h
      exact ⟨c, hc, rfl⟩

lemma superOf_of_find {c : Class} (h : src.find cls = .ok c) :
    src.superOf cls = Hierarchy.nonEmpty c.super := by
  simp [superOf, superText, h]

lemma superOf_of_missing (h : src.entryOf cls = .missing) : src.superOf cls = none := by
  unfold entryOf at h
  split at h
  · next e he => simp [superOf, superText, he, Hierarchy.nonEmpty]
  · cases h

end ClassSource

namespace Hierarchy

variable {src : ClassSource} {cls : Text} {h h' : Hierarchy}

lemma run_resolve (cls : Text) (h : Hierarchy) :
    (resolve src cls).run h = (src.find cls, { h with consulted := src.consult cls h.consulted }) := by
  cases hr : src.resolve? with
  | none =>
      unfold resolve ClassSource.find ClassSource.consult
      rw [hr]
      rfl
  | some f =>
      rw [resolve_run hr]
      unfold ClassSource.find ClassSource.consult
      cases hf : f cls <;> simp [hr, hf]

/-! ## Lessons -/

/-- The warning about a class that was not found. -/
def notFoundMessage : Text := "class not found - assuming suspendable"

/-- The warning about a superclass that was not found. -/
def noSuperMessage : Text := "can't determine super class"

/-- The log after a class was entered. -/
def enterLog (src : ClassSource) (cls : Text) (log : Log) : Log :=
  match src.find cls with
  | .error e =>
    src.sink.send .warn notFoundMessage [("class", .text cls), ("error", .text e.text)] log
  | .ok _ => log

/-- The log after the superclass of a class could not be determined. -/
def failLog (src : ClassSource) (cls : Text) (cause : Option Fault) (log : Log) : Log :=
  src.sink.send .warn noSuperMessage
    ([(Text.ofString "class", .text cls)] ++ match cause with
      | some e => [(Text.ofString "error", .text e.text)]
      | none => []) log

/-- The log after a superclass was looked up. -/
def lookLog (src : ClassSource) (cls : Text) (log : Log) : Log :=
  match src.find cls with
  | .error e => failLog src cls (some e) log
  | .ok c => if c.super.isEmpty then failLog src cls none log else log

/-- What a lesson is about. -/
inductive Lesson where
  | remark
  | entered (cls : Text)
  | looked (cls : Text)
  | failed (cls : Text)
  | recorded (c : Class)

/-- **One lesson**, of those that are allowed. -/
inductive Learns (src : ClassSource) (P : Lesson → Prop) : Hierarchy → Hierarchy → Prop
  | remark {h : Hierarchy} {level : LogLevel} {message : Text} {fields : LogFields} (hP : P .remark)
      (hm : message ≠ notFoundMessage) (hm' : message ≠ noSuperMessage) :
      Learns src P h { h with log := src.sink.send level message fields h.log }
  | entered {h : Hierarchy} {cls : Text} (hP : P (.entered cls))
      (hnew : h.classes.lookup cls = none) :
      Learns src P h { h with
        classes := put cls (src.entryOf cls) h.classes
        consulted := src.consult cls h.consulted
        log := enterLog src cls h.log }
  | looked {h : Hierarchy} {cls : Text} (hP : P (.looked cls)) (hc : h.classes.lookup cls = none)
      (hs : h.supers.lookup cls = none) :
      Learns src P h { h with
        supers := put cls (src.superText cls) h.supers
        consulted := src.consult cls h.consulted
        log := lookLog src cls h.log }
  | failed {h : Hierarchy} {cls : Text} {cause : Option Fault} (hP : P (.failed cls))
      (hc : h.classes.lookup cls = some .missing) (hs : h.supers.lookup cls = none) :
      Learns src P h { h with
        supers := put cls [] h.supers
        log := failLog src cls cause h.log }
  | recorded {h : Hierarchy} {c : Class} (hP : P (.recorded c)) :
      Learns src P h { h with classes := put c.name (.known (.ofClass c)) h.classes }

/-- A sequence of lessons. -/
abbrev LearnsAll (src : ClassSource) (P : Lesson → Prop) : Hierarchy → Hierarchy → Prop :=
  Relation.ReflTransGen (Learns src P)

/-- **What every lesson keeps is kept by all of them.** -/
lemma LearnsAll.keeps {P : Lesson → Prop} {I : Hierarchy → Prop} (hl : LearnsAll src P h h')
    (hI : ∀ {h h' : Hierarchy}, Learns src P h h' → I h → I h') (hh : I h) : I h' := by
  induction hl with
  | refl => exact hh
  | tail _ hlast ih => exact hI hlast ih

/-! ## Queries are sequences of lessons -/

section Queries

variable {P : Lesson → Prop}

/-- The lessons of queries about calls. -/
structure Calls (P : Lesson → Prop) : Prop where
  remark : P .remark
  entered : ∀ cls, P (.entered cls)

/-- The lessons of queries about superclasses. -/
structure Supers (P : Lesson → Prop) : Prop where
  looked : ∀ cls, P (.looked cls)
  failed : ∀ cls, P (.failed cls)

/-- Keeping the facts of a class that is at hand. -/
lemma record_learns {c : Class} (hr : P .remark) (hP : P (.recorded c)) :
    LearnsAll src P h ((record src c).run h).2 := by
  have hput : Learns src P h { h with classes := put c.name (.known (.ofClass c)) h.classes } :=
    .recorded hP
  simp only [record, keep, Query.run_bind, Query.run_get, Query.run_modify]
  cases h.classes.lookup c.name with
  | none => exact .single hput
  | some o =>
      by_cases ho : o.agrees (.known (.ofClass c)) = true
      · simp only [ho, if_true]
        exact .single hput
      · have hwarn : Learns src P { h with classes := put c.name (.known (.ofClass c)) h.classes }
            { h with
              classes := put c.name (.known (.ofClass c)) h.classes
              log := src.sink.send .warn "duplicate class entries with different data"
                [("class", .text c.name), ("kind", .text FaultKind.cacheConflict)] h.log } :=
          .remark hr (by decide) (by decide)
        simp only [ho]
        exact .tail (.single hput) hwarn

/-- What the entry of a name comes to, if none is kept. -/
lemma run_entry_none (hnew : h.classes.lookup cls = none) :
    (entry src cls).run h = (src.entryOf cls,
      { h with
        classes := put cls (src.entryOf cls) h.classes
        consulted := src.consult cls h.consulted
        log := enterLog src cls (src.sink.send .info "reading class" [("class", .text cls)] h.log) }) := by
  simp only [entry, Query.run_bind, Query.run_get, hnew, send, Query.run_modify, run_resolve, keep,
    ClassSource.entryOf, enterLog]
  cases src.find cls with
  | error e =>
      simp only [Query.run_bind, Query.run_get, Query.run_modify, hnew]
      rfl
  | ok c =>
      simp only [Query.run_bind, Query.run_get, Query.run_modify, hnew]
      rfl

lemma run_entry_some {e : ClassEntry} (hc : h.classes.lookup cls = some e) :
    (entry src cls).run h = (e, h) := by
  simp only [entry, Query.run_bind, Query.run_get, hc, Query.run_pure]

lemma entry_learns (hP : Calls P) (cls : Text) : LearnsAll src P h ((entry src cls).run h).2 := by
  cases hc : h.classes.lookup cls with
  | some e =>
      simp only [run_entry_some hc]
      exact .refl
  | none =>
      rw [run_entry_none hc]
      have hremark : Learns src P h
          { h with log := src.sink.send .info "reading class" [("class", .text cls)] h.log } :=
        .remark hP.remark (by decide) (by decide)
      exact .tail (.single hremark) (.entered (hP.entered cls) hc)

/-- A walk is a sequence of lessons, if each of its steps is. -/
lemma climb_learns {α β : Type} {step : β → Query (α ⊕ β)} {lost : α} {count : Nat} {x : β}
    (hstep : ∀ x h, LearnsAll src P h ((step x).run h).2) :
    LearnsAll src P h ((climb step lost count x).run h).2 := by
  refine climb_induction (motive := fun _ h out => LearnsAll src P h out.2) ?_ ?_ ?_
  · exact fun _ _ => .refl
  · intro x h r h' hrun
    have hl := hstep x h
    rwa [hrun] at hl
  · intro x h y h' out hrun ih
    have hl := hstep x h
    rw [hrun] at hl
    exact hl.trans ih

lemma walkStep_learns (hP : Calls P) {name desc : Text} {search : Bool} (cls : Text) (h : Hierarchy) :
    LearnsAll src P h ((walkStep src name desc search cls).run h).2 := by
  unfold walkStep
  split
  · exact .refl
  simp only [Query.run_bind]
  refine .trans (entry_learns hP cls) ?_
  split
  · exact .refl
  split
  · exact .refl
  · exact .refl

lemma walk_learns (hP : Calls P) {name desc : Text} {search : Bool} {count : Nat} :
    LearnsAll src P h ((walk src name desc search count cls).run h).2 :=
  climb_learns (walkStep_learns hP)

lemma isSuspendable_learns (hP : Calls P) {name desc : Text} {search : Bool} :
    LearnsAll src P h ((isSuspendable src cls name desc search).run h).2 := by
  unfold isSuspendable
  split
  · exact .refl
  split
  · exact .refl
  simp only [chainBound, Query.run_bind, Query.run_get, Query.run_pure]
  have hwalk : LearnsAll src P h
      ((walk src name desc search (src.height + h.classes.length + 2) cls).run h).2 := walk_learns hP
  refine hwalk.trans ?_
  split
  · exact .refl
  · exact .single (.remark hP.remark (by decide) (by decide))

lemma run_superFailed {cause : Option Fault} :
    (superFailed src cls cause).run h
      = (none, { h with supers := put cls [] h.supers, log := failLog src cls cause h.log }) := rfl

/-- What looking up a superclass comes to, if nothing is kept. -/
lemma run_directSuper_none (hc : h.classes.lookup cls = none) (hs : h.supers.lookup cls = none) :
    (directSuper src cls).run h = (src.superOf cls,
      { h with
        supers := put cls (src.superText cls) h.supers
        consulted := src.consult cls h.consulted
        log := lookLog src cls h.log }) := by
  simp only [directSuper, Query.run_bind, Query.run_get, hc, hs, run_resolve, ClassSource.superOf,
    ClassSource.superText, lookLog]
  cases src.find cls with
  | error e => exact run_superFailed
  | ok c =>
      simp only
      split
      · next he =>
          rw [run_superFailed, List.isEmpty_iff.mp he]
          rfl
      · next he =>
          rw [nonEmpty, if_neg he]
          rfl

lemma directSuper_learns (hP : Supers P) (cls : Text) :
    LearnsAll src P h ((directSuper src cls).run h).2 := by
  cases hc : h.classes.lookup cls with
  | none =>
      cases hs : h.supers.lookup cls with
      | none =>
          rw [run_directSuper_none hc hs]
          exact .single (.looked (hP.looked cls) hc hs)
      | some s =>
          simp only [directSuper, Query.run_bind, Query.run_get, hc, hs]
          exact .refl
  | some e =>
      simp only [directSuper, Query.run_bind, Query.run_get, hc]
      cases e with
      | known f => exact .refl
      | missing =>
          cases hs : h.supers.lookup cls with
          | some s => exact .refl
          | none =>
              simp only [run_superFailed]
              exact .single (.failed (hP.failed cls) hc hs)

lemma chainStep_learns (hP : Supers P) (x : Text × List Text) (h : Hierarchy) :
    LearnsAll src P h ((chainStep src x).run h).2 := by
  obtain ⟨cls, below⟩ := x
  by_cases hroot : cls = ClassName.object
  · subst hroot
    exact .refl
  · rw [run_chainStep hroot]
    exact directSuper_learns hP cls

lemma chainTo_learns (hP : Supers P) {count : Nat} :
    LearnsAll src P h ((chainTo src count cls).run h).2 :=
  climb_learns (chainStep_learns hP)

lemma commonSuper_learns (hP : Supers P) {a b : Text} :
    LearnsAll src P h ((commonSuper src a b).run h).2 := by
  unfold commonSuper
  split
  · exact .refl
  split
  · exact .refl
  simp only [chainBound, Query.run_bind, Query.run_get, Query.run_pure]
  have hchain : ∀ (h : Hierarchy) (cls : Text),
      LearnsAll src P h ((chainTo src (src.height + h.classes.length + 2) cls).run h).2 :=
    fun h cls => chainTo_learns hP
  refine (hchain h a).trans ?_
  split
  · exact .refl
  simp only [Query.run_bind, Query.run_get, Query.run_pure]
  refine (hchain _ b).trans ?_
  split
  · exact .refl
  · exact .refl

lemma exceptionStep_learns (hP : Supers P) (cls : Text) (h : Hierarchy) :
    LearnsAll src P h ((exceptionStep src cls).run h).2 := by
  unfold exceptionStep
  split
  · exact .refl
  split
  · exact .refl
  simp only [Query.run_bind]
  refine .trans (directSuper_learns hP cls) ?_
  split
  · exact .refl
  · exact .refl

lemma walkException_learns (hP : Supers P) {count : Nat} :
    LearnsAll src P h ((walkException src count cls).run h).2 :=
  climb_learns (exceptionStep_learns hP)

lemma isException_learns (hP : Supers P) :
    LearnsAll src P h ((isException src cls).run h).2 := by
  simp only [isException, chainBound, Query.run_bind, Query.run_get, Query.run_pure]
  exact walkException_learns hP

end Queries

end Hierarchy

/-! ## Queries as data -/

/-- **What can be asked**, and the recording of a class at hand.  Nothing is forgotten. -/
inductive Ask where
  | suspendable (cls name desc : Text) (search : Bool)
  | directSuper (cls : Text)
  | commonSuper (a b : Text)
  | exception (cls : Text)
  | record (c : Class)

/-- What comes back. -/
inductive Reply where
  | verdict (b : Bool)
  | cls (name : Option Text)
  | done
deriving DecidableEq

namespace Ask

open Hierarchy

/-- **Asking.** -/
def run (src : ClassSource) : Ask → Query Reply
  | suspendable cls name desc search => return .verdict (← isSuspendable src cls name desc search)
  | directSuper cls => return .cls (← Hierarchy.directSuper src cls)
  | commonSuper a b => return .cls (← Hierarchy.commonSuper src a b)
  | exception cls => return .verdict (← isException src cls)
  | record c => do
    Hierarchy.record src c
    return .done

/-- The lessons that are needed for a query. -/
def Allowed (P : Lesson → Prop) : Ask → Prop
  | suspendable _ _ _ _ => Calls P
  | directSuper _ | commonSuper _ _ | exception _ => Supers P
  | record c => P .remark ∧ P (.recorded c)

variable {src : ClassSource} {P : Lesson → Prop}

/-- **Every query is a sequence of lessons.** -/
lemma learns {a : Ask} (ha : a.Allowed P) {h : Hierarchy} :
    LearnsAll src P h ((a.run src).run h).2 := by
  cases a with
  | suspendable cls name desc search => exact isSuspendable_learns ha
  | directSuper cls => exact directSuper_learns ha cls
  | commonSuper a b => exact commonSuper_learns ha
  | exception cls => exact isException_learns ha
  | record c => exact record_learns ha.1 ha.2

/-- **So are several queries**, one after the other. -/
theorem learns_all {asks : List Ask} (ha : ∀ a ∈ asks, a.Allowed P) {h : Hierarchy} :
    LearnsAll src P h ((asks.mapM (run src)).run h).2 := by
  induction asks generalizing h with
  | nil => exact .refl
  | cons a rest ih =>
      rw [List.mapM_cons]
      simp only [Query.run_bind, Query.run_pure]
      exact .trans (learns (ha a List.mem_cons_self))
        (ih fun b hb => ha b (List.mem_cons_of_mem a hb))

end Ask

/-! ## What is kept is what the source says -/

namespace Hierarchy

variable {src : ClassSource} {cls : Text} {h h' : Hierarchy} {P : Lesson → Prop}

/-- **What is kept is what the source says.** -/
structure Consistent (src : ClassSource) (h : Hierarchy) : Prop where
  classes : ∀ {cls : Text} {e : ClassEntry}, h.classes.lookup cls = some e → e = src.entryOf cls
  supers : ∀ {cls s : Text}, h.supers.lookup cls = some s → nonEmpty s = src.superOf cls

lemma consistent_empty : Consistent src {} where
  classes := by simp
  supers := by simp

lemma Consistent.putClass (hh : Consistent src h) {e : ClassEntry} (he : e = src.entryOf cls)
    {consulted : List Text} {log : Log} :
    Consistent src { h with classes := put cls e h.classes, consulted := consulted, log := log } where
  supers := hh.supers
  classes := by
    intro cls' e' hc
    by_cases hcls : cls' = cls
    · subst hcls
      rw [lookup_put_self] at hc
      cases hc
      exact he
    · rw [lookup_put_of_ne e h.classes hcls] at hc
      exact hh.classes hc

lemma Consistent.putSuper (hh : Consistent src h) {s : Text} (hs : nonEmpty s = src.superOf cls)
    {consulted : List Text} {log : Log} :
    Consistent src { h with supers := put cls s h.supers, consulted := consulted, log := log } where
  classes := hh.classes
  supers := by
    intro cls' s' hc
    by_cases hcls : cls' = cls
    · subst hcls
      rw [lookup_put_self] at hc
      cases hc
      exact hs
    · rw [lookup_put_of_ne s h.supers hcls] at hc
      exact hh.supers hc

/-- **A lesson keeps what is kept consistent**, if only classes that the resolver would supply are
recorded. -/
lemma Consistent.learns (hP : ∀ c, P (.recorded c) → src.find c.name = .ok c)
    (hl : Learns src P h h') (hh : Consistent src h) : Consistent src h' := by
  cases hl with
  | remark => exact ⟨hh.classes, hh.supers⟩
  | entered => exact hh.putClass rfl
  | looked => exact hh.putSuper rfl
  | failed _ hc _ =>
      have hnone := ClassSource.superOf_of_missing (hh.classes hc).symm
      exact hh.putSuper (hnone ▸ rfl)
  | recorded hc => exact hh.putClass (ClassSource.entryOf_of_find (hP _ hc)).symm

/-- **The entry of a name is what the source says**, whatever was asked before. -/
lemma Consistent.entry (hh : Consistent src h) (cls : Text) :
    ((entry src cls).run h).1 = src.entryOf cls := by
  cases hc : h.classes.lookup cls with
  | some e =>
      rw [run_entry_some hc]
      exact hh.classes hc
  | none => rw [run_entry_none hc]

/-! ## Warnings -/

/-- The class that an entry of the log is about.  Of several values with that name the last one
counts. -/
def about (e : LogEntry) : Option LogValue := e.fields.reverse.lookup (Text.ofString "class")

/-- How many entries of the log carry a message about a class. -/
def warnings (message cls : Text) (log : Log) : Nat :=
  log.countP fun e => decide (e.message = message ∧ about e = some (.text cls))

variable {sink : Sink} {level : LogLevel} {message other : Text} {fields : LogFields} {log : Log}

/-- Another message does not count. -/
lemma warnings_send_of_ne (hm : other ≠ message) :
    warnings message cls (sink.send level other fields log) = warnings message cls log := by
  unfold warnings Sink.send
  split
  · simp [hm]
  · rfl

/-- A message about a class counts for this class alone. -/
lemma warnings_send_le {subject : Text}
    (hf : fields.reverse.lookup (Text.ofString "class") = some (.text subject)) :
    warnings message cls (sink.send level other fields log)
      ≤ warnings message cls log + (decide (cls = subject)).toNat := by
  have habout : about ⟨level, other, sink.context ++ fields⟩ = some (.text subject) := by
    simp [about, List.lookup_append, hf]
  unfold warnings Sink.send
  split
  · rw [Array.countP_push]
    by_cases hc : cls = subject
    · simp only [hc, decide_true, Bool.toNat_true]
      split <;> omega
    · simp [habout, Ne.symm hc]
  · omega

/-- The cause of a failure does not hide the class. -/
lemma warnings_failLog {cause : Option Fault} {subject : Text} :
    warnings notFoundMessage cls (failLog src subject cause log) = warnings notFoundMessage cls log
      ∧ warnings noSuperMessage cls (failLog src subject cause log)
          ≤ warnings noSuperMessage cls log + (decide (cls = subject)).toNat := by
  refine ⟨warnings_send_of_ne (by decide), warnings_send_le ?_⟩
  have hne : (Text.ofString "class" == Text.ofString "error") = false := by decide
  cases cause <;> simp [List.lookup_cons, hne]

lemma warnings_enterLog {subject : Text} :
    warnings noSuperMessage cls (enterLog src subject log) = warnings noSuperMessage cls log
      ∧ warnings notFoundMessage cls (enterLog src subject log)
          ≤ warnings notFoundMessage cls log + (decide (cls = subject)).toNat := by
  unfold enterLog
  split
  · refine ⟨warnings_send_of_ne (by decide), warnings_send_le ?_⟩
    have hne : (Text.ofString "class" == Text.ofString "error") = false := by decide
    simp [List.lookup_cons, hne]
  · exact ⟨rfl, Nat.le_add_right _ _⟩

lemma warnings_lookLog {subject : Text} :
    warnings notFoundMessage cls (lookLog src subject log) = warnings notFoundMessage cls log
      ∧ warnings noSuperMessage cls (lookLog src subject log)
          ≤ warnings noSuperMessage cls log + (decide (cls = subject)).toNat := by
  unfold lookLog
  split
  · exact warnings_failLog
  · split
    · exact warnings_failLog
    · exact ⟨rfl, Nat.le_add_right _ _⟩

/-- **A class is warned about when its name is kept**, and not again. -/
structure WarnsOnce (h : Hierarchy) : Prop where
  notFound : ∀ cls, warnings notFoundMessage cls h.log ≤ (h.classes.lookup cls).isSome.toNat
  noSuper : ∀ cls, warnings noSuperMessage cls h.log ≤ (h.supers.lookup cls).isSome.toNat

lemma warnsOnce_empty : WarnsOnce {} where
  notFound := by simp [warnings]
  noSuper := by simp [warnings]

/-- A kept name stays kept when another one is. -/
lemma isSome_lookup_put {β : Type} {key cls : Text} {v : β} {xs : List (Text × β)} :
    ((put key v xs).lookup cls).isSome = (decide (cls = key) || (xs.lookup cls).isSome) := by
  by_cases hc : cls = key
  · simp [hc, lookup_put_self]
  · simp [hc, lookup_put_of_ne v xs hc]

/-- A count that grows with a key that is kept from now on stays within what is kept. -/
lemma le_lookup_put {β : Type} {key cls : Text} {v : β} {xs : List (Text × β)} {m n : Nat}
    (hn : n ≤ m + (decide (cls = key)).toNat) (hm : m ≤ (xs.lookup cls).isSome.toNat)
    (hnew : xs.lookup key = none) : n ≤ ((put key v xs).lookup cls).isSome.toNat := by
  rw [isSome_lookup_put]
  by_cases hc : cls = key
  · subst hc
    simp_all
  · simp_all only [decide_false, Bool.toNat_false, Bool.false_or]
    omega

/-- **A lesson warns only about a name that is kept with it**, and was not before. -/
lemma WarnsOnce.learns (hl : Learns src P h h') (hh : WarnsOnce h) : WarnsOnce h' := by
  obtain ⟨hnotFound, hnoSuper⟩ := hh
  cases hl with
  | remark _ hm hm' =>
      refine ⟨fun c => ?_, fun c => ?_⟩
      · rw [warnings_send_of_ne hm]
        exact hnotFound c
      · rw [warnings_send_of_ne hm']
        exact hnoSuper c
  | entered _ hnew =>
      refine ⟨fun c => le_lookup_put warnings_enterLog.2 (hnotFound c) hnew, fun c => ?_⟩
      rw [warnings_enterLog.1]
      exact hnoSuper c
  | looked _ _ hs =>
      refine ⟨fun c => ?_, fun c => le_lookup_put warnings_lookLog.2 (hnoSuper c) hs⟩
      rw [warnings_lookLog.1]
      exact hnotFound c
  | failed _ _ hs =>
      refine ⟨fun c => ?_, fun c => le_lookup_put warnings_failLog.2 (hnoSuper c) hs⟩
      rw [warnings_failLog.1]
      exact hnotFound c
  | recorded =>
      refine ⟨fun c => Nat.le_trans (hnotFound c) ?_, hnoSuper⟩
      rw [isSome_lookup_put]
      cases (h.classes.lookup c).isSome <;> simp

end Hierarchy

end Suspension
