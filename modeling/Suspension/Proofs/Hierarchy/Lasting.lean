import Suspension.Proofs.Codec.RoundTrip
import Suspension.Proofs.Hierarchy.Views

/-!
# What questions about classes leave as it is

A question may change what is known, by lessons.  A relation between states of knowledge **lasts** if no
question tells related states apart and logging does not either.  Two kinds of relations do: showing one
view of the classes, and being one state with a property that no lesson of a question breaks.

The first such property: all superclasses that are kept have a property that the superclass of every class
file has.  It makes the classes that two classes have in common have it too.

* `Query.Preserves`, `Hierarchy.Holding` — a query keeps a property of what is known.
* `Hierarchy.Lasting` — a relation that questions and messages keep.
* `Hierarchy.SupersAre`, `Hierarchy.lasting_supersAre` — the superclasses that are kept.
* `Hierarchy.commonSuper_of` — the class that two classes have in common.
-/

namespace Suspension

/-- **One state of knowledge with a property.** -/
def Hierarchy.Holding (I : Hierarchy → Prop) (h₁ h₂ : Hierarchy) : Prop := h₁ = h₂ ∧ I h₁

/-! ## Queries that keep a property -/

namespace Query

variable {α : Type} {I : Hierarchy → Prop}

/-- **A query keeps a property** of what is known. -/
def Preserves (I : Hierarchy → Prop) (q : Query α) : Prop := ∀ h, I h → I (q.run h).2

lemma respects_holding {q : Query α} : Respects (Hierarchy.Holding I) q ↔ Preserves I q := by
  constructor
  · exact fun hq h hh => (hq ⟨rfl, hh⟩).2.2
  · rintro hq h _ ⟨rfl, hh⟩
    exact ⟨rfl, rfl, hq h hh⟩

end Query

namespace Hierarchy

open Query

/-- **A relation lasts**: neither messages nor questions tell related states apart. -/
structure Lasting (src : ClassSource) (R : Hierarchy → Hierarchy → Prop) : Prop where
  send : ∀ sink level message fields, Respects R (send sink level message fields)
  isSuspendable : ∀ cls name desc search, Respects R (isSuspendable src cls name desc search)
  commonSuper : ∀ a b, Respects R (commonSuper src a b)

/-- The same with the states exchanged. -/
lemma Lasting.flip {src : ClassSource} {R : Hierarchy → Hierarchy → Prop} (hR : Lasting src R) :
    Lasting src fun h₁ h₂ => R h₂ h₁ where
  send := fun _ _ _ _ => (hR.send _ _ _ _).flip
  isSuspendable := fun _ _ _ _ => (hR.isSuspendable _ _ _ _).flip
  commonSuper := fun _ _ => (hR.commonSuper _ _).flip

variable {src : ClassSource} {I : Hierarchy → Prop} {P : Text → Prop} {h h' : Hierarchy} {cls : Text}

/-- **Showing one view lasts.** -/
lemma lasting_sameView (src : ClassSource) (V : ClassView) : Lasting src (SameView src V) where
  send := respects_send
  isSuspendable := respects_isSuspendable
  commonSuper := respects_commonSuper

/-- **A property lasts**, if neither the log nor the lessons of a question matter to it. -/
lemma lasting_holding (hlog : ∀ {h : Hierarchy} (log : Log), I h → I { h with log := log })
    (hlearns : ∀ {h h' : Hierarchy}, Learns src Lesson.Asked h h' → I h → I h') :
    Lasting src (Holding I) where
  send := fun _ _ _ _ => respects_holding.mpr fun _ hh => hlog _ hh
  isSuspendable := fun _ _ _ _ =>
    respects_holding.mpr fun _ hh => (isSuspendable_learns calls_asked).keeps hlearns hh
  commonSuper := fun _ _ =>
    respects_holding.mpr fun _ hh => (commonSuper_learns supers_asked).keeps hlearns hh

/-- **That a view is shown lasts.** -/
lemma lasting_shows (src : ClassSource) (V : ClassView) : Lasting src (Holding (Shows src V)) :=
  lasting_holding (fun _ hh => hh.congr rfl rfl) fun hl hh => hh.learns hl

/-! ## Superclasses -/

/-- **The superclasses that are kept** have a property. -/
structure SupersAre (P : Text → Prop) (h : Hierarchy) : Prop where
  known : ∀ {cls : Text} {f : ClassFacts}, h.classes.lookup cls = some (.known f) → f.super ≠ [] →
    P f.super
  kept : ∀ {cls s : Text}, h.supers.lookup cls = some s → s ≠ [] → P s

/-- The superclass of every class file has a property. -/
def OfFiles (P : Text → Prop) : Prop :=
  ∀ (data : Bytes) (c : Class), Class.decode data = .ok c → c.super ≠ [] → P c.super

lemma ofFiles_ne_nil : OfFiles (· ≠ []) := fun _ _ _ h => h

/-- **The texts of a class file** are well formed, its superclass for one. -/
lemma ofFiles_valid : OfFiles (Utf8.valid · = true) := by
  intro data c hc _
  obtain ⟨-, _, ⟨hholdable, -⟩, -⟩ := Class.reads_of_decode hc
  exact hholdable.super.1

lemma supersAre_empty : SupersAre P {} := ⟨by simp, by simp⟩

lemma supersAre_ne_nil (h : Hierarchy) : SupersAre (· ≠ []) h := ⟨fun _ hne => hne, fun _ hne => hne⟩

/-- What the resolver finds is a class file. -/
lemma decode_of_find {c : Class} (hc : src.find cls = .ok c) :
    ∃ f data, src.resolve? = some f ∧ f cls = .ok data ∧ Class.decode data = .ok c := by
  unfold ClassSource.find at hc
  split at hc
  · cases hc
  next f hf =>
  split at hc
  · cases hc
  next data hdata =>
  unfold readClass at hc
  split at hc
  · next hdecode =>
      cases hc
      exact ⟨f, data, hf, hdata, hdecode⟩
  · cases hc

lemma superText_of (hP : OfFiles P) (hne : src.superText cls ≠ []) : P (src.superText cls) := by
  unfold ClassSource.superText at hne ⊢
  split
  · next he => simp [he] at hne
  · next c hc =>
      obtain ⟨-, data, -, -, hdata⟩ := decode_of_find hc
      rw [hc] at hne
      exact hP data c hdata hne

/-- One more class that is known. -/
lemma SupersAre.putClass (hh : SupersAre P h) {e : ClassEntry}
    (he : ∀ f, e = .known f → f.super ≠ [] → P f.super) {consulted : List Text} {log : Log} :
    SupersAre P { h with classes := put cls e h.classes, consulted := consulted, log := log } where
  kept := hh.kept
  known := by
    intro cls' f hf
    by_cases hcls : cls' = cls
    · subst hcls
      rw [lookup_put_self] at hf
      exact he f (Option.some.inj hf)
    · rw [lookup_put_of_ne e h.classes hcls] at hf
      exact hh.known hf

/-- One more superclass that is kept. -/
lemma SupersAre.putSuper (hh : SupersAre P h) {s : Text} (hs : s ≠ [] → P s)
    {consulted : List Text} {log : Log} :
    SupersAre P { h with supers := put cls s h.supers, consulted := consulted, log := log } where
  known := hh.known
  kept := by
    intro cls' s' hl
    by_cases hcls : cls' = cls
    · subst hcls
      rw [lookup_put_self] at hl
      exact Option.some.inj hl ▸ hs
    · rw [lookup_put_of_ne s h.supers hcls] at hl
      exact hh.kept hl

/-- No lesson of a question breaks it, if the superclass of every class file has the property. -/
lemma SupersAre.learns (hP : OfFiles P) (hl : Learns src Lesson.Asked h h') (hh : SupersAre P h) :
    SupersAre P h' := by
  cases hl with
  | remark => exact ⟨hh.known, hh.kept⟩
  | entered =>
      refine hh.putClass fun f hf hne => ?_
      obtain ⟨c, hc, rfl⟩ := ClassSource.find_of_entryOf hf
      obtain ⟨-, data, -, -, hdata⟩ := decode_of_find hc
      exact hP data c hdata hne
  | looked => exact hh.putSuper (superText_of hP)
  | failed => exact hh.putSuper fun hne => absurd rfl hne
  | recorded hasked => exact hasked.elim

/-- **So the property lasts.** -/
lemma lasting_supersAre (hP : OfFiles P) : Lasting src (Holding (SupersAre P)) :=
  lasting_holding (fun _ hh => ⟨hh.known, hh.kept⟩) (SupersAre.learns hP)

/-- So does recording a class whose superclass has it. -/
lemma SupersAre.record (hP : OfFiles P) {c : Class} (hc : c.super ≠ [] → P c.super) :
    Preserves (SupersAre P) (record src c) := by
  intro h hh
  refine (record_learns (P := fun l => l.Asked ∨ l = .recorded c) (Or.inl trivial)
    (Or.inr rfl)).keeps (fun hl hh => ?_) hh
  cases hl with
  | remark => exact ⟨hh.known, hh.kept⟩
  | entered hl hnew => exact hh.learns hP (.entered trivial hnew)
  | looked hl hc hs => exact hh.learns hP (.looked trivial hc hs)
  | failed hl hc hs => exact hh.learns hP (.failed trivial hc hs)
  | recorded hl =>
      rcases hl with hl | hl
      · exact hl.elim
      · cases hl
        refine hh.putClass fun f hf => ?_
        cases hf
        exact hc

/-- So does forgetting. -/
lemma SupersAre.invalidate (cls : Text) : Preserves (SupersAre P) (invalidate cls) := by
  have hlookup : ∀ {β : Type} {xs : List (Text × β)} {other : Text} {v : β},
      (xs.filter (·.1 != cls)).lookup other = some v → xs.lookup other = some v := by
    intro β xs other v hv
    rw [lookup_remove] at hv
    split at hv
    · cases hv
    · exact hv
  intro h hh
  unfold Hierarchy.invalidate
  rw [Query.run_modify]
  split
  · exact ⟨by simp, by simp⟩
  · exact ⟨fun hf => hh.known (hlookup hf), fun hs => hh.kept (hlookup hs)⟩

/-- **A superclass that is found has the property**, whether it was kept or is read now. -/
lemma directSuper_of (hP : OfFiles P) (hh : SupersAre P h) {s : Text}
    (hs : ((directSuper src cls).run h).1 = some s) : P s := by
  have hnonEmpty : ∀ {t : Text}, (t ≠ [] → P t) → nonEmpty t = some s → P s := by
    intro t ht hts
    obtain ⟨rfl, hne⟩ := nonEmpty_eq_some hts
    exact ht hne
  cases hc : h.classes.lookup cls with
  | none =>
      cases hk : h.supers.lookup cls with
      | none =>
          rw [run_directSuper_none hc hk] at hs
          exact hnonEmpty (superText_of hP) hs
      | some t =>
          simp only [directSuper, Query.run_bind, Query.run_get, hc, hk] at hs
          exact hnonEmpty (hh.kept hk) hs
  | some e =>
      simp only [directSuper, Query.run_bind, Query.run_get, hc] at hs
      cases e with
      | known f => exact hnonEmpty (hh.known hc) hs
      | missing =>
          cases hk : h.supers.lookup cls with
          | none =>
              simp only [hk, run_superFailed] at hs
              cases hs
          | some t =>
              simp only [hk] at hs
              exact hnonEmpty (hh.kept hk) hs

lemma chainTo_of (hP : OfFiles P) {count : Nat} {chain : List Text} (hh : SupersAre P h) (hcls : P cls)
    (hc : ((chainTo src count cls).run h).1 = some chain) : ∀ c ∈ chain, P c := by
  let motive (x : Text × List Text) (h : Hierarchy) (out : Option (List Text) × Hierarchy) : Prop :=
    SupersAre P h → (∀ c ∈ x.1 :: x.2, P c) → ∀ chain, out.1 = some chain → ∀ c ∈ chain, P c
  refine climb_induction (motive := motive) ?_ ?_ ?_ hh (by simpa using hcls) chain hc
  · exact fun x h _ _ chain hc => by cases hc
  · rintro x h r h' hstep - hx chain rfl
    rcases chainStep_eq_inl hstep with ⟨-, hr, -⟩ | ⟨-, hr, -⟩
    · cases hr
      exact hx
    · cases hr
  · rintro x h y h' out hstep ih hh hx
    obtain ⟨-, s, rfl, hsuper⟩ := chainStep_eq_inr hstep
    refine ih ?_ (List.forall_mem_cons.mpr ⟨directSuper_of hP hh (congrArg Prod.fst hsuper), hx⟩)
    have hl : LearnsAll src Lesson.Asked h ((directSuper src x.1).run h).2 :=
      directSuper_learns supers_asked x.1
    rw [hsuper] at hl
    exact hl.keeps (SupersAre.learns hP) hh

/-- **What two classes have in common has the property**, if the first one and the root have. -/
lemma commonSuper_of (hP : OfFiles P) (hobject : P ClassName.object) {x y c : Text}
    (hh : SupersAre P h) (hx : P x) (hc : ((commonSuper src x y).run h).1 = some c) : P c := by
  unfold commonSuper at hc
  split at hc
  · cases hc
    exact hx
  split at hc
  · cases hc
    exact hobject
  simp only [Query.run_bind] at hc
  split at hc
  · cases hc
  next as has =>
  simp only [Query.run_bind] at hc
  split at hc
  · cases hc
  next bs _ =>
  exact chainTo_of hP hh hx has c (mem_of_lastCommon hc).1

end Hierarchy

end Suspension
