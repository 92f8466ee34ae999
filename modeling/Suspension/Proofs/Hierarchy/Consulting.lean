import Suspension.Proofs.Hierarchy.Answers

/-!
# How often the resolver is asked

Questions about calls and questions about superclasses keep what they find apart.  So a class is
resolved **at most once for each of the two kinds**, and once its facts are kept, not at all.  It is
resolved twice if its superclass is asked for before a call to it is.

* `Ask.isCall`, `Ask.isSuper` — the two kinds of questions.
* `Ask.consulted_le` — how often a sequence of queries has a class resolved.
* `Ask.consulted_twice` — a class that is resolved twice.
-/

namespace Suspension

namespace Hierarchy

variable {src : ClassSource} {P : Lesson → Prop} {h h' : Hierarchy} {cls : Text} {calls supers : Bool}

/-- Asking for a class counts for this class alone. -/
lemma count_consult_le (cls subject : Text) (asked : List Text) :
    (src.consult subject asked).count cls ≤ asked.count cls + (decide (cls = subject)).toNat := by
  unfold ClassSource.consult
  split
  · rw [List.count_cons]
    by_cases hc : cls = subject
    · simp [hc]
    · simp [Ne.symm hc]
  · exact Nat.le_add_right _ _

/-- **A class is resolved when its name is kept**, and not again for the same kind of question. -/
structure ResolvesOnce (calls supers : Bool) (h : Hierarchy) : Prop where
  count : ∀ cls, h.consulted.count cls ≤
    (calls && (h.classes.lookup cls).isSome).toNat + (supers && (h.supers.lookup cls).isSome).toNat

lemma resolvesOnce_empty : ResolvesOnce calls supers {} := ⟨by simp⟩

/-- A lesson resolves a class only if its name is kept with it, and was not before. -/
lemma ResolvesOnce.learns (hcalls : ∀ cls, P (.entered cls) → calls = true)
    (hsupers : ∀ cls, P (.looked cls) → supers = true) (hl : Learns src P h h')
    (hh : ResolvesOnce calls supers h) : ResolvesOnce calls supers h' := by
  refine ⟨fun cls => ?_⟩
  have hcount := hh.count cls
  cases hl with
  | remark => exact hcount
  | @entered new hP hnew =>
      obtain rfl := hcalls _ hP
      have hle : (src.consult new h.consulted).count cls
          ≤ h.consulted.count cls + (decide (cls = new)).toNat := count_consult_le cls new h.consulted
      have hkept : (h.classes.lookup cls).isSome.toNat + (decide (cls = new)).toNat
          ≤ ((put new (src.entryOf new) h.classes).lookup cls).isSome.toNat :=
        le_lookup_put (Nat.le_refl _) (Nat.le_refl _) hnew
      simp only [Bool.true_and] at hcount ⊢
      omega
  | @looked new hP _ hs =>
      obtain rfl := hsupers _ hP
      have hle : (src.consult new h.consulted).count cls
          ≤ h.consulted.count cls + (decide (cls = new)).toNat := count_consult_le cls new h.consulted
      have hkept : (h.supers.lookup cls).isSome.toNat + (decide (cls = new)).toNat
          ≤ ((put new (src.superText new) h.supers).lookup cls).isSome.toNat :=
        le_lookup_put (Nat.le_refl _) (Nat.le_refl _) hs
      simp only [Bool.true_and] at hcount ⊢
      omega
  | failed =>
      refine Nat.le_trans hcount (Nat.add_le_add_left ?_ _)
      rw [isSome_lookup_put]
      cases supers <;> cases (h.supers.lookup cls).isSome <;> simp
  | recorded =>
      refine Nat.le_trans hcount (Nat.add_le_add_right ?_ _)
      rw [isSome_lookup_put]
      cases calls <;> cases (h.classes.lookup cls).isSome <;> simp

/-- **A class whose facts are kept is not resolved any more.** -/
lemma count_of_kept (hl : Learns src P h h') (hk : (h.classes.lookup cls).isSome) :
    (h'.classes.lookup cls).isSome ∧ h'.consulted.count cls = h.consulted.count cls := by
  have hother : ∀ {subject : Text}, h.classes.lookup subject = none →
      (src.consult subject h.consulted).count cls = h.consulted.count cls := by
    intro subject hnone
    have hne : subject ≠ cls := by
      rintro rfl
      simp [hnone] at hk
    unfold ClassSource.consult
    split
    · exact List.count_cons_of_ne hne
    · rfl
  cases hl with
  | remark => exact ⟨hk, rfl⟩
  | entered _ hnew =>
      refine ⟨?_, hother hnew⟩
      rw [isSome_lookup_put, hk, Bool.or_true]
  | looked _ hc _ => exact ⟨hk, hother hc⟩
  | failed => exact ⟨hk, rfl⟩
  | recorded =>
      refine ⟨?_, rfl⟩
      rw [isSome_lookup_put, hk, Bool.or_true]

end Hierarchy

namespace Ask

open Hierarchy

variable {src : ClassSource}

/-- Whether a query is about a call. -/
def isCall : Ask → Bool
  | suspendable _ _ _ _ => true
  | _ => false

/-- Whether a query is about superclasses. -/
def isSuper : Ask → Bool
  | directSuper _ | commonSuper _ _ | exception _ => true
  | _ => false

/-- The lessons of the queries of a sequence. -/
def lessons (asks : List Ask) : Lesson → Prop
  | .entered _ => asks.any isCall = true
  | .looked _ | .failed _ => asks.any isSuper = true
  | _ => True

lemma allowed_lessons {asks : List Ask} {a : Ask} (ha : a ∈ asks) : a.Allowed (lessons asks) := by
  have hany : ∀ p : Ask → Bool, p a = true → asks.any p = true :=
    fun p hp => List.any_eq_true.mpr ⟨a, ha, hp⟩
  cases a with
  | suspendable => exact ⟨trivial, fun _ => hany isCall rfl⟩
  | directSuper | commonSuper | exception =>
      exact ⟨fun _ => hany isSuper rfl, fun _ => hany isSuper rfl⟩
  | record => exact ⟨trivial, trivial⟩

/-- **How often a class is resolved**: in a sequence of queries at most once for questions about calls and
at most once for questions about superclasses, and when its facts are kept not any more. -/
theorem consulted_le (src : ClassSource) (asks more : List Ask) (cls : Text) :
    ((asks.mapM (run src)).run {}).2.consulted.count cls
        ≤ (asks.any isCall).toNat + (asks.any isSuper).toNat
      ∧ ((((asks.mapM (run src)).run {}).2.classes.lookup cls).isSome →
          ((more.mapM (run src)).run ((asks.mapM (run src)).run {}).2).2.consulted.count cls
            = ((asks.mapM (run src)).run {}).2.consulted.count cls) := by
  have honce : ResolvesOnce (asks.any isCall) (asks.any isSuper) ((asks.mapM (run src)).run {}).2 :=
    (learns_all fun a ha => allowed_lessons ha).keeps
      (ResolvesOnce.learns (fun _ hP => hP) (fun _ hP => hP)) resolvesOnce_empty
  generalize ((asks.mapM (run src)).run {}).2 = h at honce ⊢
  refine ⟨Nat.le_trans (honce.count cls) (Nat.add_le_add ?_ ?_), fun hk => ?_⟩
  · cases asks.any isCall <;> simp [Bool.toNat_le]
  · cases asks.any isSuper <;> simp [Bool.toNat_le]
  · have hl : LearnsAll src (lessons more) h ((more.mapM (run src)).run h).2 :=
      learns_all fun a ha => allowed_lessons ha
    -- the class stays kept along the way
    exact (hl.keeps (I := fun k => (k.classes.lookup cls).isSome
      ∧ k.consulted.count cls = h.consulted.count cls)
      (fun hl hI => (count_of_kept hl hI.1).imp_right fun heq => heq.trans hI.2) ⟨hk, rfl⟩).2

set_option maxRecDepth 100000 in
/-- The theorem at a class that is recorded before a call to it is asked about: it is not resolved. -/
theorem recorded_consulted :
    ((([record derivedClass].mapM (run twoClasses)).run {}).2.classes.lookup derivedClass.name).isSome
      ∧ (([suspendable "a/A" "f" "()V" true].mapM (run twoClasses)).run
          (([record derivedClass].mapM (run twoClasses)).run {}).2).2.consulted.count derivedClass.name
            = 0 := by
  have hkept : ((([record derivedClass].mapM (run twoClasses)).run {}).2.classes.lookup
      derivedClass.name).isSome := by
    decide +kernel
  obtain ⟨hle, hmore⟩ := consulted_le twoClasses [record derivedClass]
    [suspendable "a/A" "f" "()V" true] derivedClass.name
  exact ⟨hkept, (hmore hkept).trans (Nat.le_zero.mp hle)⟩

set_option maxRecDepth 100000 in
/-- **A class that is resolved twice**: its superclass is looked up first, and what was found is not kept
for the question about the call. -/
theorem consulted_twice :
    (([directSuper "a/A", suspendable "a/A" "f" "()V" true].mapM
      (run twoClasses)).run {}).2.consulted.count derivedClass.name = 2 := by
  decide +kernel

end Ask

end Suspension
