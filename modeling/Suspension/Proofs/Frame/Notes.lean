import Mathlib.Data.List.Pairwise
import Suspension.Proofs.Hierarchy.Agreement

/-!
# Notes of the frame analysis

The analysis proceeds by steps that may fail and that note, on the side, what becomes of pending
constructions and what is learnt about classes.  This module says what a step that succeeds may have
noted.

* `Transfer.Gives` — a step succeeds, with a result and a new state; it composes.
* `Site.Sound` — constructions are where their `new` and `dup` stand.
* `Analysis.Learns` — nothing but notes changes, and right notes stay right.
* `Analysis.Consumes` — slots are used up, and the constructions among them are pinned.
-/

namespace Suspension

/-! ## Steps that succeed -/

namespace Transfer

variable {α β : Type}

/-- **A step succeeds** in a state, with a result and the state after it. -/
def Gives (x : Transfer α) (a : Analysis) (r : α) (a' : Analysis) : Prop := x.run a = (.ok r, a')

variable {a a' : Analysis} {r : α}

@[simp] lemma gives_pure {b : α} : Gives (pure b) a r a' ↔ r = b ∧ a' = a := by
  constructor
  · intro h
    cases h
    exact ⟨rfl, rfl⟩
  · rintro ⟨rfl, rfl⟩
    rfl

@[simp] lemma gives_throw {e : FrameFault} : Gives (throw e) a r a' ↔ False := by
  constructor
  · intro h
    cases h
  · exact False.elim

@[simp] lemma gives_get {b : Analysis} : Gives get a b a' ↔ b = a ∧ a' = a := by
  constructor
  · intro h
    cases h
    exact ⟨rfl, rfl⟩
  · rintro ⟨rfl, rfl⟩
    rfl

@[simp] lemma gives_modify {f : Analysis → Analysis} {u : Unit} :
    Gives (modify f) a u a' ↔ a' = f a := by
  constructor
  · intro h
    cases h
    rfl
  · rintro rfl
    rfl

@[simp] lemma gives_set {b : Analysis} {u : PUnit} : Gives (set b) a u a' ↔ a' = b := by
  constructor
  · intro h
    cases h
    rfl
  · rintro rfl
    rfl

/-- The second of two steps begins where the first one ends, unless that fails. -/
lemma run_bind (x : Transfer β) (f : β → Transfer α) (a : Analysis) :
    (x >>= f).run a = match x.run a with
      | (.ok b, a₁) => (f b).run a₁
      | (.error e, a₁) => (.error e, a₁) := by
  change ExceptT.bindCont f (x.run a).1 (x.run a).2 = _
  rcases x.run a with ⟨_ | _, _⟩ <;> rfl

/-- **Steps in sequence**: the first succeeds, and the second does from where it ends. -/
@[simp] lemma gives_bind {x : Transfer β} {f : β → Transfer α} :
    Gives (x >>= f) a r a' ↔ ∃ b a₁, Gives x a b a₁ ∧ Gives (f b) a₁ r a' := by
  unfold Gives
  rw [run_bind]
  rcases x.run a with ⟨e | b, a₁⟩
  · constructor
    · intro h
      cases h
    · rintro ⟨b, a₂, h, -⟩
      cases h
  · constructor
    · intro h
      exact ⟨b, a₁, rfl, h⟩
    · rintro ⟨b', a₁', h, h'⟩
      cases h
      exact h'

@[simp] lemma gives_adapt {x : Transfer α} {g : FrameFault → FrameFault} :
    Gives (ExceptT.adapt g x) a r a' ↔ Gives x a r a' := by
  have hrun : (ExceptT.adapt g x).run a = ((x.run a).1.mapError g, (x.run a).2) := rfl
  unfold Gives
  rw [hrun]
  rcases x.run a with ⟨e | b, a₁⟩
  · constructor
    · intro h
      cases h
    · intro h
      cases h
  · exact Iff.rfl

end Transfer

/-! ## Notes about constructions -/

namespace Site

/-- **Constructions are where their instructions stand**, one for each `new`. -/
structure Sound (code : Code) (sites : List Site) : Prop where
  distinct : sites.Pairwise fun s t => s.newAt ≠ t.newAt
  new_at : ∀ s ∈ sites, code[s.newAt]? = some ⟨.new, .type s.cls⟩
  dup_at : ∀ s ∈ sites, ∀ d, s.dupAt = some d → ∃ i, code[d]? = some i ∧ i.opcode = .dup

/-- Two constructions with one `new` are the same. -/
lemma Sound.eq_of_newAt {code : Code} {sites : List Site} (h : Sound code sites) {s t : Site}
    (hs : s ∈ sites) (ht : t ∈ sites) (hn : s.newAt = t.newAt) : s = t := by
  have : Std.Symm fun s t : Site => s.newAt ≠ t.newAt := ⟨fun _ _ h => h.symm⟩
  by_contra hne
  exact h.distinct.forall hs ht hne hn

/-- Looking a construction up finds it. -/
lemma Sound.find?_eq {code : Code} {sites : List Site} (h : Sound code sites) {s : Site}
    (hs : s ∈ sites) : sites.find? (·.newAt == s.newAt) = some s := by
  cases hf : sites.find? (·.newAt == s.newAt) with
  | none =>
      rw [List.find?_eq_none] at hf
      exact absurd (beq_self_eq_true s.newAt) (hf s hs)
  | some t =>
      have ht := List.mem_of_find?_eq_some hf
      have hn : t.newAt = s.newAt := by simpa using List.find?_some hf
      rw [h.eq_of_newAt ht hs hn]

end Site

namespace Analysis

/-- The notes of an analysis are right: about classes, and about constructions. -/
structure Sound (C : Classes) (code : Code) (a : Analysis) : Prop where
  agrees : Hierarchy.Agrees C a.hierarchy
  sites : Site.Sound code a.sites

/-- **Nothing but notes changes.**  Right notes stay right, constructions become more definite, and
every place of a copy that is new satisfies `new`. -/
structure Learns (C : Classes) (code : Code) (new : Nat → Nat → Prop) (a a' : Analysis) : Prop where
  frames : a'.frames = a.frames
  pending : a'.pending = a.pending
  sound : a.Sound C code → a'.Sound C code ∧ Site.Grow a.sites a'.sites
  copies : ∀ s' ∈ a'.sites, ∀ d, s'.dupAt = some d →
    new s'.newAt d ∨ ∃ s ∈ a.sites, s.newAt = s'.newAt ∧ s.dupAt = some d

variable {C : Classes} {code : Code} {new : Nat → Nat → Prop} {a a₁ a' : Analysis}

lemma Learns.refl (a : Analysis) : Learns C code new a a where
  frames := rfl
  pending := rfl
  sound := fun h => ⟨h, .refl _⟩
  copies := fun s hs _ hd => Or.inr ⟨s, hs, rfl, hd⟩

lemma Learns.trans (h : Learns C code new a a₁) (h' : Learns C code new a₁ a') :
    Learns C code new a a' where
  frames := h'.frames.trans h.frames
  pending := h'.pending.trans h.pending
  sound := fun hs =>
    have ⟨hs₁, hg₁⟩ := h.sound hs
    have ⟨hs₂, hg₂⟩ := h'.sound hs₁
    ⟨hs₂, hg₁.trans hg₂⟩
  copies := by
    intro s hs d hd
    rcases h'.copies s hs d hd with hnew | ⟨s₁, hs₁, hn₁, hd₁⟩
    · exact Or.inl hnew
    · rcases h.copies s₁ hs₁ d hd₁ with hnew | ⟨s₀, hs₀, hn₀, hd₀⟩
      · exact Or.inl (hn₁ ▸ hnew)
      · exact Or.inr ⟨s₀, hs₀, hn₀.trans hn₁, hd₀⟩

/-- **Slots are used up**: besides notes nothing changes, and no construction among them may be left
out any more. -/
structure Consumes (C : Classes) (code : Code) (new : Nat → Nat → Prop) (a a' : Analysis)
    (used : List SlotType) : Prop where
  learns : Learns C code new a a'
  free : a.Sound C code → (∀ t ∈ used, Site.Known a.sites t) → ∀ t ∈ used, Site.Free a'.sites t

lemma Consumes.nil (a : Analysis) : Consumes C code new a a [] where
  learns := .refl a
  free := fun _ _ t ht => by simp at ht

lemma Consumes.append {used used' : List SlotType} (h : Consumes C code new a a₁ used)
    (h' : Consumes C code new a₁ a' used') : Consumes C code new a a' (used ++ used') where
  learns := h.learns.trans h'.learns
  free := by
    intro hs hk t ht
    have ⟨hs₁, hg₁⟩ := h.learns.sound hs
    have ⟨_, hg₂⟩ := h'.learns.sound hs₁
    rcases List.mem_append.mp ht with ht | ht
    · exact (h.free hs (fun u hu => hk u (List.mem_append_left _ hu)) t ht).grow hg₂
    · exact h'.free hs₁ (fun u hu => (hk u (List.mem_append_right _ hu)).grow hg₁) t ht

end Analysis

namespace Transfer

open Analysis

variable {C : Classes} {code : Code} {new : Nat → Nat → Prop} {a a' : Analysis}
  {ctx : AnalysisContext} {position : Nat}

@[simp] lemma gives_site? {n : Nat} {r : Option Site} :
    Gives (site? n) a r a' ↔ r = a.sites.find? (·.newAt == n) ∧ a' = a := by
  simp only [site?, gives_bind, gives_get, gives_pure]
  constructor
  · rintro ⟨_, _, ⟨rfl, rfl⟩, rfl, rfl⟩
    exact ⟨rfl, rfl⟩
  · rintro ⟨rfl, rfl⟩
    exact ⟨a', a', ⟨rfl, rfl⟩, rfl, rfl⟩

/-- Constructions changed at one `new`, by something that keeps its place and class. -/
lemma sound_map {sites : List Site} (hs : Site.Sound code sites) (n : Nat) {f : Site → Site}
    (hnew : ∀ s, (f s).newAt = s.newAt) (hcls : ∀ s, (f s).cls = s.cls)
    (hdup : ∀ s ∈ sites, s.newAt = n → ∀ d, (f s).dupAt = some d →
      ∃ i, code[d]? = some i ∧ i.opcode = .dup) :
    Site.Sound code (sites.map fun s => if s.newAt == n then f s else s) where
  distinct := by
    rw [List.pairwise_map]
    refine hs.distinct.imp fun {s t} h => ?_
    split <;> split <;> simpa [hnew] using h
  new_at := by
    intro s hmem
    obtain ⟨t, ht, rfl⟩ := List.mem_map.mp hmem
    split
    · rw [hnew, hcls]; exact hs.new_at t ht
    · exact hs.new_at t ht
  dup_at := by
    intro s hmem d hd
    obtain ⟨t, ht, rfl⟩ := List.mem_map.mp hmem
    split at hd
    · next hn => exact hdup t ht (by simpa using hn) d hd
    · exact hs.dup_at t ht d hd

/-- **Pinning a construction.** -/
lemma pin_gives {n : Nat} {reason : Text} {u : Unit} (h : Gives (pin ctx position n reason) a u a') :
    Learns C code new a a' ∧
      (a.Sound C code → (∃ s ∈ a.sites, s.newAt = n) → Site.Pinned a'.sites n) := by
  simp only [pin, gives_bind, gives_site?] at h
  obtain ⟨_, _, ⟨rfl, rfl⟩, h⟩ := h
  split at h
  · next hf =>
      obtain ⟨-, rfl⟩ := gives_pure.mp h
      refine ⟨.refl _, fun _ ⟨s, hs, hn⟩ => ?_⟩
      rw [List.find?_eq_none] at hf
      exact absurd (by simpa using hn) (hf s hs)
  · next s hf =>
      have hs := List.mem_of_find?_eq_some hf
      have hn : s.newAt = n := by simpa using List.find?_some hf
      split at h
      · next hp =>
          obtain ⟨-, rfl⟩ := gives_pure.mp h
          exact ⟨.refl _, fun _ _ => ⟨s, hs, hn, hp⟩⟩
      · simp only [modifySite, gives_bind, gives_modify] at h
        obtain ⟨_, _, rfl, rfl⟩ := h
        refine ⟨⟨rfl, rfl, fun hsound => ⟨⟨hsound.agrees.congr rfl rfl, ?_⟩, ?_⟩, ?_⟩, fun _ _ => ?_⟩
        · exact sound_map hsound.sites n (fun _ => rfl) (fun _ => rfl)
            (fun t ht _ => hsound.sites.dup_at t ht)
        · intro t ht
          refine ⟨_, List.mem_map_of_mem ht, ?_⟩
          split <;> simp
        · intro t ht d hd
          obtain ⟨t₀, ht₀, rfl⟩ := List.mem_map.mp ht
          refine Or.inr ⟨t₀, ht₀, ?_⟩
          split at hd <;> simp_all
        · refine ⟨_, List.mem_map_of_mem hs, ?_⟩
          simp [hn]

/-- Pinning what a slot belongs to makes the slot free. -/
lemma pinSlot_gives {t : SlotType} {reason : Text} {u : Unit}
    (h : Gives (pinSlot ctx position t reason) a u a') : Consumes C code new a a' [t] := by
  cases t with
  | pending n cls copied =>
      obtain ⟨hl, hp⟩ := pin_gives h
      refine ⟨hl, fun hs hk t ht => ?_⟩
      obtain rfl := List.mem_singleton.mp ht
      obtain ⟨s, hs', hn, -⟩ := hk _ ht
      exact hp hs ⟨s, hs', hn⟩
  | _ =>
      obtain ⟨-, rfl⟩ := gives_pure.mp h
      refine ⟨.refl _, fun _ _ t ht => ?_⟩
      obtain rfl := List.mem_singleton.mp ht
      trivial

end Transfer

end Suspension
