import Mathlib.Tactic
import Suspension.Proofs.Codec.Number

/-!
# What a reader takes

A read goes on silently behind a failure, and the length of a vector is compared with the bytes that
are left, so what a read does seems to depend on everything around it.  It does not: **a read that
ends without failure takes a certain string of bytes from the front and would do the same with any
other bytes behind it.**  This module states that for every element of the container together with
its inverse, the element's written form.

* `Reads f δ bs x` — `f` takes exactly `bs` and gives `x`, whatever follows; `δ` is what it does to
  the open sections.
* `Accepts f δ P` — every run of `f` without failure is such a read, of bytes that satisfy `P`.
* `Respelled bs cs` — `cs` is `bs` with LEB128 numbers written anew.
* `Conveys f δ W` — what `W` writes is read back by `f`, and whatever `f` reads is a respelling of
  what `W` writes.  `Conveys.bind` composes it along the code of a reader, `Conveys.count` where the
  length of a vector is looked at.
-/

namespace Suspension

variable {α β : Type} {f : Read α} {g : α → Read β} {δ ε : List Section → List Section}

/-! ## Reading a string of bytes -/

/-- **A read takes exactly `bs` and gives `x`**, whatever stands behind. -/
def Reads (f : Read α) (δ : List Section → List Section) (bs : Bytes) (x : α) : Prop :=
  ∀ rest position sections, f ⟨bs ++ rest, position, sections, none⟩ =
    (x, ⟨rest, position + bs.length, δ sections, none⟩)

lemma Reads.pure (x : α) : Reads (pure x) id [] x := fun _ _ _ => rfl

lemma Read.bind_apply (f : Read α) (g : α → Read β) (r : Reader) :
    (f >>= g) r = g (f r).1 (f r).2 := rfl

lemma Reads.bind {b c : Bytes} {x : α} {y : β} (hf : Reads f δ b x)
    (hg : Reads (g x) ε c y) : Reads (f >>= g) (ε ∘ δ) (b ++ c) y := by
  intro rest position sections
  rw [Read.bind_apply, List.append_assoc, hf, hg, List.length_append, Nat.add_assoc]
  rfl

/-- **What a run without failure has done**: it began without one, and took a string of bytes that
it reads in front of anything. -/
def Accepts (f : Read α) (δ : List Section → List Section) (P : α → Bytes → Prop) : Prop :=
  ∀ (r r' : Reader) (x : α), f r = (x, r') → r'.failure = none →
    r.failure = none ∧ ∃ bs, r.rest = bs ++ r'.rest ∧ Reads f δ bs x ∧ P x bs

namespace Accepts

variable {P P' : α → Bytes → Prop} {Q : α → β → Bytes → Prop}

lemma mono (h : Accepts f δ P) (hP : ∀ x bs, P x bs → P' x bs) : Accepts f δ P' := by
  intro r r' x hrun hgood
  obtain ⟨hfine, bs, hrest, hreads, hx⟩ := h r r' x hrun hgood
  exact ⟨hfine, bs, hrest, hreads, hP x bs hx⟩

lemma bind (hf : Accepts f δ P) (hg : ∀ x, Accepts (g x) ε (Q x)) :
    Accepts (f >>= g) (ε ∘ δ) fun y bs => ∃ x a b, P x a ∧ Q x y b ∧ bs = a ++ b := by
  intro r r'' y hrun hgood
  obtain ⟨x, r', hfr, hgr⟩ : ∃ x r', f r = (x, r') ∧ g x r' = (y, r'') :=
    ⟨(f r).1, (f r).2, rfl, hrun⟩
  obtain ⟨hfine', b, hrest', hreads', hQ⟩ := hg x r' r'' y hgr hgood
  obtain ⟨hfine, a, hrest, hreads, hP⟩ := hf r r' x hfr hfine'
  refine ⟨hfine, a ++ b, ?_, hreads.bind hreads', x, a, b, hP, hQ, rfl⟩
  rw [hrest, hrest', List.append_assoc]

/-- A read that only touches the open sections. -/
lemma ofSections (δ : List Section → List Section) :
    Accepts (modify fun r : Reader => { r with sections := δ r.sections }) δ
      fun _ bs => bs = [] := by
  intro r r' x hrun hgood
  obtain ⟨-, rfl⟩ := Prod.mk.inj hrun
  exact ⟨hgood, [], rfl, fun _ _ _ => rfl, rfl⟩

lemma pure (x : α) : Accepts (pure x) id fun y bs => y = x ∧ bs = [] := by
  intro r r' y hrun hgood
  obtain ⟨rfl, rfl⟩ := Prod.mk.inj hrun
  exact ⟨hgood, [], rfl, Reads.pure _, rfl, rfl⟩

/-- A failure is kept, so failing is never accepted. -/
lemma fail (cause : ReadCause) (δ : List Section → List Section) :
    Accepts (Reader.fail cause) δ fun _ _ => False := by
  intro r r' x hrun hgood
  obtain ⟨-, rfl⟩ := Prod.mk.inj hrun
  exfalso
  cases h : r.failure <;> simp [h] at hgood

end Accepts

/-! ## Respelling -/

/-- **LEB128 numbers written anew**, all other bytes kept. -/
inductive Respelled : Bytes → Bytes → Prop
  | nil : Respelled [] []
  | byte (b : UInt8) {bs cs : Bytes} (rest : Respelled bs cs) : Respelled (b :: bs) (b :: cs)
  | u32 {e bs cs : Bytes} {v : UInt32} (h : SpellsU32 e v) (rest : Respelled bs cs) :
      Respelled (e ++ bs) (Writer.u32 v ++ cs)
  | s32 {e bs cs : Bytes} {v : Int32} (h : SpellsS32 e v) (rest : Respelled bs cs) :
      Respelled (e ++ bs) (Writer.s32 v ++ cs)
  | s64 {e bs cs : Bytes} {v : Int64} (h : SpellsS64 e v) (rest : Respelled bs cs) :
      Respelled (e ++ bs) (Writer.s64 v ++ cs)

namespace Respelled

lemma append {bs cs bs' cs' : Bytes} (h : Respelled bs cs) (h' : Respelled bs' cs') :
    Respelled (bs ++ bs') (cs ++ cs') := by
  induction h with
  | nil => exact h'
  | byte b _ ih => exact .byte b ih
  | u32 h _ ih => simpa using Respelled.u32 h ih
  | s32 h _ ih => simpa using Respelled.s32 h ih
  | s64 h _ ih => simpa using Respelled.s64 h ih

lemma refl (bs : Bytes) : Respelled bs bs := by
  induction bs with
  | nil => exact .nil
  | cons b bs ih => exact .byte b ih

/-- Writing numbers anew makes nothing longer. -/
lemma length_le {bs cs : Bytes} (h : Respelled bs cs) : cs.length ≤ bs.length := by
  induction h with
  | nil => exact le_refl _
  | byte b _ ih => simpa using ih
  | u32 h _ ih => simpa using Nat.add_le_add (length_u32_le h) ih
  | s32 h _ ih => simpa using Nat.add_le_add (length_s32_le h) ih
  | s64 h _ ih => simpa using Nat.add_le_add (length_s64_le h) ih

end Respelled

/-! ## Reading what is written -/

/-- **A read and a written form belong together.**  `W x cs` says that `cs` is a written form of
`x`. -/
structure Conveys (f : Read α) (δ : List Section → List Section) (W : α → Bytes → Prop) : Prop where
  reads : ∀ {x cs}, W x cs → Reads f δ cs x
  accepts : Accepts f δ fun x bs => ∃ cs, W x cs ∧ Respelled bs cs

namespace Conveys

variable {W W₁ : α → Bytes → Prop} {W' : α → β → Bytes → Prop}

lemma congr (h : Conveys f δ W) (hW : ∀ x cs, W₁ x cs ↔ W x cs) : Conveys f δ W₁ where
  reads hx := h.reads ((hW _ _).1 hx)
  accepts := h.accepts.mono fun x _ ⟨cs, hx, hsp⟩ => ⟨cs, (hW x cs).2 hx, hsp⟩

/-- Elements that have one spelling. -/
lemma ofExact (hreads : ∀ {x cs}, W x cs → Reads f δ cs x) (haccepts : Accepts f δ W) :
    Conveys f δ W :=
  ⟨hreads, haccepts.mono fun _ bs hx => ⟨bs, hx, .refl bs⟩⟩

/-- **Reading one thing and then another**, where the first may decide what the second is. -/
lemma bind (hf : Conveys f δ W) (hg : ∀ x, Conveys (g x) ε (W' x)) :
    Conveys (f >>= g) (ε ∘ δ) fun y cs => ∃ x a b, W x a ∧ W' x y b ∧ cs = a ++ b where
  reads := by
    rintro y _ ⟨x, a, b, ha, hb, rfl⟩
    exact (hf.reads ha).bind ((hg x).reads hb)
  accepts := by
    refine (hf.accepts.bind fun x => (hg x).accepts).mono ?_
    rintro y _ ⟨x, _, _, ⟨a, ha, hspa⟩, ⟨b, hb, hspb⟩, rfl⟩
    exact ⟨a ++ b, ⟨x, a, b, ha, hb, rfl⟩, hspa.append hspb⟩

lemma pure (x : α) : Conveys (pure x) id fun y cs => y = x ∧ cs = [] :=
  .ofExact (by rintro _ _ ⟨rfl, rfl⟩; exact Reads.pure _) (.pure x)

lemma map {F : α → β} (hf : Conveys f δ W) :
    Conveys (f >>= fun x => Pure.pure (F x)) δ fun y cs => ∃ x, W x cs ∧ y = F x := by
  refine (hf.bind fun x => Conveys.pure (F x)).congr fun y cs => ?_
  constructor
  · rintro ⟨x, hx, rfl⟩
    exact ⟨x, cs, [], hx, ⟨rfl, rfl⟩, by simp⟩
  · rintro ⟨x, a, _, hx, ⟨rfl, rfl⟩, rfl⟩
    exact ⟨x, by simpa using hx, rfl⟩

lemma fail (cause : ReadCause) (δ : List Section → List Section) :
    Conveys (Reader.fail cause) δ fun _ _ => False :=
  .ofExact False.elim (.fail cause δ)

lemma enterItem (name : Text) (i : Nat) :
    Conveys (Reader.enterItem name i) (⟨name, some i⟩ :: ·) fun _ cs => cs = [] :=
  .ofExact (by rintro _ _ rfl _ _ _; rfl) (.ofSections _)

lemma leave : Conveys Reader.leave (·.drop 1) fun _ cs => cs = [] :=
  .ofExact (by rintro _ _ rfl _ _ _; rfl) (.ofSections _)

/-- **A section is opened in front of a read that closes it.** -/
lemma inSection (name : Text) (hf : Conveys f (·.drop 1) W) :
    Conveys (Reader.enter name >>= fun _ => f) id W := by
  have henter : Conveys (Reader.enter name) (⟨name, none⟩ :: ·) fun _ cs => cs = [] :=
    .ofExact (by rintro _ _ rfl _ _ _; rfl) (.ofSections _)
  refine Conveys.congr (δ := id) (henter.bind fun _ => hf) fun x cs => ?_
  constructor
  · intro h
    exact ⟨(), [], cs, rfl, h, rfl⟩
  · rintro ⟨_, _, _, rfl, h, rfl⟩
    exact h

end Conveys

/-! ## Bytes and words -/

lemma hasAtLeast_iff (n : Nat) (bs : Bytes) : Reader.hasAtLeast n bs = true ↔ n ≤ bs.length := by
  induction n generalizing bs with
  | zero => simp [Reader.hasAtLeast]
  | succ n ih => cases bs <;> simp [Reader.hasAtLeast, ih]

lemma reads_take (bs : Bytes) : Reads (Reader.take bs.length) id bs (some bs) := by
  intro rest position sections
  have hlen : Reader.hasAtLeast bs.length (bs ++ rest) = true := by simp [hasAtLeast_iff]
  simp [Reader.take, hlen]

lemma accepts_take (n : Nat) :
    Accepts (Reader.take n) id fun o bs => o = some bs ∧ bs.length = n := by
  intro r r' x hrun hgood
  unfold Reader.take at hrun
  split at hrun
  · next hfail =>
    obtain ⟨-, rfl⟩ := Prod.mk.inj hrun
    rw [hgood] at hfail
    cases hfail
  · next hfine =>
    split at hrun
    · next hlen =>
      obtain ⟨rfl, rfl⟩ := Prod.mk.inj hrun
      have hn : (r.rest.take n).length = n := by simpa [hasAtLeast_iff] using hlen
      refine ⟨hfine, r.rest.take n, by simp, ?_, rfl, hn⟩
      have := reads_take (r.rest.take n)
      rwa [hn] at this
    · have hkept := Accepts.fail .endOfInput id r _ _ rfl (by
        rw [← hgood]
        exact congrArg (·.2.failure) hrun)
      exact absurd hkept.2 (by simp)

lemma conveys_take (n : Nat) :
    Conveys (Reader.take n) id fun o cs => o = some cs ∧ cs.length = n :=
  .ofExact (by rintro _ cs ⟨rfl, rfl⟩; exact reads_take cs) (accepts_take n)

/-- The byte that one byte is. -/
def theByte : Option Bytes → UInt8
  | some [b] => b
  | _ => 0

lemma byte_eq : Reader.byte = Reader.take 1 >>= fun o => pure (theByte o) := by
  unfold Reader.byte
  congr 1
  funext o
  match o with
  | some [_] | some [] | some (_ :: _ :: _) | none => rfl

lemma accepts_byte : Accepts Reader.byte id fun b bs => bs = [b] := by
  rw [byte_eq]
  refine ((accepts_take 1).bind fun o => .pure (theByte o)).mono ?_
  rintro b _ ⟨_, bs, _, ⟨rfl, hlen⟩, ⟨rfl, rfl⟩, rfl⟩
  obtain ⟨b, rfl⟩ := List.length_eq_one_iff.1 hlen
  rfl

lemma reads_byte (b : UInt8) : Reads Reader.byte id [b] b := by
  rw [byte_eq]
  exact (reads_take [b]).bind (g := fun o => pure (theByte o)) (Reads.pure b)

lemma conveys_byte : Conveys Reader.byte id fun b cs => cs = [b] :=
  .ofExact (by rintro b _ rfl; exact reads_byte b) accepts_byte

/-- The writer's bytes of a number, read as a number. -/
lemma littleEndian_littleEndian (size n : Nat) :
    Reader.littleEndian (Writer.littleEndian size n) = n % 256 ^ size := by
  induction size generalizing n with
  | zero => simp [Writer.littleEndian, Reader.littleEndian, Nat.mod_one]
  | succ size ih =>
    rw [Writer.littleEndian, Reader.littleEndian, ih, pow_succ', Nat.mod_mul]
    simp

/-- Bytes are the writer's bytes of the number that they denote, whatever its higher bits are. -/
lemma littleEndian_of_mod (bs : Bytes) (n : Nat)
    (h : Reader.littleEndian bs = n % 256 ^ bs.length) : Writer.littleEndian bs.length n = bs := by
  induction bs generalizing n with
  | nil => rfl
  | cons b bs ih =>
    have hb := b.toNat_lt
    rw [List.length_cons, pow_succ', Nat.mod_mul, Reader.littleEndian] at h
    have hrest : Reader.littleEndian bs = n / 256 % 256 ^ bs.length := by omega
    have hfirst : UInt8.ofNat n = b := by
      apply UInt8.toNat_inj.1
      rw [UInt8.toNat_ofNat']
      omega
    rw [List.length_cons, Writer.littleEndian, ih _ hrest, hfirst]

@[simp] lemma length_littleEndian (size n : Nat) : (Writer.littleEndian size n).length = size := by
  induction size generalizing n with
  | zero => rfl
  | succ size ih => simp [Writer.littleEndian, ih]

lemma littleEndian_lt (bs : Bytes) : Reader.littleEndian bs < 256 ^ bs.length := by
  induction bs with
  | nil => simp [Reader.littleEndian]
  | cons b bs ih =>
    have hb := b.toNat_lt
    rw [Reader.littleEndian, List.length_cons, pow_succ']
    omega

/-- The word that four bytes are. -/
def theWord : Option Bytes → UInt32
  | some bs => UInt32.ofNat (Reader.littleEndian bs)
  | none => 0

lemma fixed32_eq : Reader.fixed32 = Reader.take 4 >>= fun o => pure (theWord o) := by
  unfold Reader.fixed32
  congr 1
  funext o
  cases o <;> rfl

lemma conveys_fixed32 : Conveys Reader.fixed32 id fun v cs => cs = Writer.fixed32 v := by
  rw [fixed32_eq]
  refine (conveys_take 4).map.congr fun v cs => ?_
  constructor
  · rintro rfl
    refine ⟨_, ⟨rfl, length_littleEndian 4 _⟩, ?_⟩
    have hv : v.toNat < 256 ^ 4 := v.toNat_lt
    rw [theWord, Writer.fixed32, littleEndian_littleEndian, Nat.mod_eq_of_lt hv,
      UInt32.ofNat_toNat]
  · rintro ⟨_, ⟨rfl, hlen⟩, rfl⟩
    have hlt := littleEndian_lt cs
    rw [theWord, Writer.fixed32, ← hlen]
    refine (littleEndian_of_mod cs _ ?_).symm
    rw [hlen] at hlt ⊢
    rw [UInt32.toNat_ofNat']
    omega

/-- Eight bytes are two words. -/
lemma fixed64_eq (lo hi : UInt32) :
    Writer.fixed64 (UInt64.ofNat (lo.toNat + hi.toNat * 4294967296)) =
      Writer.fixed32 lo ++ Writer.fixed32 hi := by
  have hlo := lo.toNat_lt
  have hhi := hi.toNat_lt
  have hn : (UInt64.ofNat (lo.toNat + hi.toNat * 4294967296)).toNat =
      lo.toNat + hi.toNat * 4294967296 := by
    rw [UInt64.toNat_ofNat', Nat.mod_eq_of_lt (by omega)]
  simp only [Writer.fixed64, Writer.fixed32, hn, Writer.littleEndian, List.cons_append,
    List.nil_append, List.cons.injEq, ← UInt8.toNat_inj, UInt8.toNat_ofNat', and_true]
  omega

lemma exists_fixed64 (v : UInt64) :
    ∃ lo hi : UInt32, v = UInt64.ofNat (lo.toNat + hi.toNat * 4294967296) := by
  have hv := v.toNat_lt
  refine ⟨UInt32.ofNat (v.toNat % 4294967296), UInt32.ofNat (v.toNat / 4294967296), ?_⟩
  rw [UInt32.toNat_ofNat', UInt32.toNat_ofNat', ← UInt64.toNat_inj, UInt64.toNat_ofNat']
  omega

lemma conveys_fixed64 : Conveys Reader.fixed64 id fun v cs => cs = Writer.fixed64 v := by
  refine (conveys_fixed32.bind fun lo => conveys_fixed32.map).congr fun v cs => ?_
  constructor
  · rintro rfl
    obtain ⟨lo, hi, rfl⟩ := exists_fixed64 v
    exact ⟨lo, _, _, rfl, ⟨hi, rfl, rfl⟩, fixed64_eq lo hi⟩
  · rintro ⟨lo, _, _, rfl, ⟨hi, rfl, rfl⟩, rfl⟩
    exact (fixed64_eq lo hi).symm

/-! ## Numbers -/

/-- A read that first looks whether a failure is kept. -/
def unlessFailed (x : α) (f : Read α) : Read α := do
  let r ← get
  if r.failure.isSome then return x else f

lemma Reads.unlessFailed {bs : Bytes} {x : α} (h : Reads f δ bs x) (y : α) :
    Reads (unlessFailed y f) δ bs x := fun rest position sections => h rest position sections

lemma Accepts.unlessFailed {P : α → Bytes → Prop} (hf : Accepts f δ P) (x : α) :
    Accepts (unlessFailed x f) δ P := by
  intro r r' y hrun hgood
  have hrun' : (if r.failure.isSome then Pure.pure x else f : Read α) r = (y, r') := hrun
  split at hrun'
  · next hfail =>
    obtain ⟨-, rfl⟩ := Prod.mk.inj hrun'
    simp [hgood] at hfail
  · obtain ⟨hfine, bs, hrest, hreads, hP⟩ := hf r r' y hrun' hgood
    exact ⟨hfine, bs, hrest, hreads.unlessFailed x, hP⟩

/-- One round of reading groups. -/
lemma lebGroups_succ (fuel shift acc : Nat) :
    Reader.lebGroups (fuel + 1) shift acc = Reader.byte >>= fun b => unlessFailed none
      (if b < 0x80 then pure (some (acc + (b.toNat % 128) * 2 ^ shift, shift + 7, b))
        else Reader.lebGroups fuel (shift + 7) (acc + (b.toNat % 128) * 2 ^ shift)) := rfl

lemma reads_lebGroups {bs : Bytes} {n : Nat} {last : UInt8} (h : Groups bs n last)
    (fuel shift acc : Nat) (hlen : bs.length ≤ fuel) :
    Reads (Reader.lebGroups fuel shift acc) id bs
      (some (acc + n * 2 ^ shift, shift + 7 * bs.length, last)) := by
  induction h generalizing fuel shift acc with
  | @last b hb =>
    obtain ⟨fuel, rfl⟩ : ∃ k, fuel = k + 1 := ⟨fuel - 1, by simp at hlen; omega⟩
    have hlt : b < 0x80 := hb
    rw [lebGroups_succ]
    refine (reads_byte b).bind (ε := id) (c := []) (Reads.unlessFailed ?_ none)
    rw [if_pos hlt, Nat.mod_eq_of_lt hb]
    exact Reads.pure _
  | @more b bs n last hb rest ih =>
    obtain ⟨fuel, rfl⟩ : ∃ k, fuel = k + 1 := ⟨fuel - 1, by simp at hlen; omega⟩
    have hlt : ¬ b < 0x80 := fun h => absurd (show b.toNat < 128 from h) (by omega)
    rw [lebGroups_succ]
    refine (reads_byte b).bind (ε := id) (c := bs) (Reads.unlessFailed ?_ none)
    rw [if_neg hlt]
    have := ih fuel (shift + 7) (acc + (b.toNat % 128) * 2 ^ shift) (by simpa using hlen)
    have hvalue : acc + b.toNat % 128 * 2 ^ shift + n * 2 ^ (shift + 7) =
        acc + (b.toNat % 128 + 128 * n) * 2 ^ shift := by ring
    have hshift : shift + 7 + 7 * bs.length = shift + 7 * (b :: bs).length := by
      simp only [List.length_cons]
      ring
    rwa [hvalue, hshift] at this

lemma accepts_lebGroups (fuel shift acc : Nat) :
    Accepts (Reader.lebGroups fuel shift acc) id fun o bs => ∃ n last, Groups bs n last ∧
      bs.length ≤ fuel ∧ o = some (acc + n * 2 ^ shift, shift + 7 * bs.length, last) := by
  induction fuel generalizing shift acc with
  | zero =>
    refine ((Accepts.fail .overflow id).bind fun _ => Accepts.pure none).mono ?_
    rintro o _ ⟨_, _, _, h, -⟩
    exact h.elim
  | succ fuel ih =>
    rw [lebGroups_succ]
    refine (accepts_byte.bind (ε := id) (Q := fun b o bs => ∃ n last, Groups (b :: bs) n last ∧
      (b :: bs).length ≤ fuel + 1 ∧
      o = some (acc + n * 2 ^ shift, shift + 7 * (b :: bs).length, last)) fun b => ?_).mono ?_
    · refine Accepts.unlessFailed ?_ none
      split
      · next hlt =>
        have hb : b.toNat < 128 := hlt
        refine (Accepts.pure _).mono ?_
        rintro _ _ ⟨rfl, rfl⟩
        refine ⟨_, _, .last hb, by simp, ?_⟩
        rw [Nat.mod_eq_of_lt hb]
        rfl
      · next hlt =>
        have hb : 128 ≤ b.toNat := not_lt.1 fun h => hlt h
        refine (ih (shift + 7) _).mono ?_
        rintro _ bs ⟨n, last, hg, hlen, rfl⟩
        refine ⟨_, _, .more hb hg, by simpa using hlen, ?_⟩
        simp only [List.length_cons, Option.some.injEq, Prod.mk.injEq, and_true]
        constructor <;> ring
    · rintro o _ ⟨b, _, bs, rfl, h, rfl⟩
      exact h

/-- A number that groups make, `none` if they could not be read. -/
def theNumber (x : α) (F : Nat → Nat → UInt8 → α) : Option (Nat × Nat × UInt8) → α
  | some (v, shift, last) => F v shift last
  | none => x

/-- **A number is read from any of its spellings and written in one.** -/
lemma conveys_leb {fuel : Nat} (x : α) {F : Nat → Nat → UInt8 → α} {w : α → Bytes}
    (hw : ∀ v, ∃ n last, Groups (w v) n last ∧ (w v).length ≤ fuel ∧ v = F n (7 * (w v).length) last)
    (hsp : ∀ bs n last, Groups bs n last → bs.length ≤ fuel →
      Respelled bs (w (F n (7 * bs.length) last))) :
    Conveys (Reader.lebGroups fuel 0 0 >>= fun o => pure (theNumber x F o)) id
      fun v cs => cs = w v where
  reads := by
    rintro v _ rfl
    obtain ⟨n, last, hg, hlen, hv⟩ := hw v
    have hpure : Reads (pure (theNumber x F (some (n, 7 * (w v).length, last)))) id [] v := by
      rw [theNumber, ← hv]
      exact Reads.pure v
    have hgroups := reads_lebGroups hg fuel 0 0 hlen
    simp only [pow_zero, mul_one, zero_add] at hgroups
    simpa using hgroups.bind (g := fun o => pure (theNumber x F o)) hpure
  accepts := by
    refine ((accepts_lebGroups fuel 0 0).bind fun o => .pure _).mono ?_
    rintro _ _ ⟨_, bs, _, ⟨n, last, hg, hlen, rfl⟩, ⟨rfl, rfl⟩, rfl⟩
    exact ⟨_, rfl, by simpa [theNumber] using hsp bs n last hg hlen⟩

lemma u32_eq : Reader.u32 =
    Reader.lebGroups 5 0 0 >>= fun o => pure (theNumber 0 (fun v _ _ => UInt32.ofNat v) o) := by
  unfold Reader.u32
  congr 1
  funext o
  rcases o with _ | ⟨v, shift, last⟩ <;> rfl

lemma s32_eq : Reader.s32 = Reader.lebGroups 5 0 0 >>= fun o =>
    pure (theNumber 0 (fun v s l => Int32.ofInt (Reader.signedValue v s l)) o) := by
  unfold Reader.s32
  congr 1
  funext o
  rcases o with _ | ⟨v, shift, last⟩ <;> rfl

lemma s64_eq : Reader.s64 = Reader.lebGroups 10 0 0 >>= fun o =>
    pure (theNumber 0 (fun v s l => Int64.ofInt (Reader.signedValue v s l)) o) := by
  unfold Reader.s64
  congr 1
  funext o
  rcases o with _ | ⟨v, shift, last⟩ <;> rfl

lemma conveys_u32 : Conveys Reader.u32 id fun v cs => cs = Writer.u32 v := by
  rw [u32_eq]
  refine conveys_leb 0 spells_u32 fun bs n last hg hlen => ?_
  simpa using Respelled.u32 ⟨n, last, hg, hlen, rfl⟩ .nil

lemma conveys_s32 : Conveys Reader.s32 id fun v cs => cs = Writer.s32 v := by
  rw [s32_eq]
  refine conveys_leb 0 spells_s32 fun bs n last hg hlen => ?_
  simpa using Respelled.s32 ⟨n, last, hg, hlen, rfl⟩ .nil

lemma conveys_s64 : Conveys Reader.s64 id fun v cs => cs = Writer.s64 v := by
  rw [s64_eq]
  refine conveys_leb 0 spells_s64 fun bs n last hg hlen => ?_
  simpa using Respelled.s64 ⟨n, last, hg, hlen, rfl⟩ .nil

/-! ## Vectors -/

lemma toNat_count {n : Nat} (h : n < 2 ^ 32) : (UInt32.ofNat n).toNat = n := by
  rw [UInt32.toNat_ofNat', Nat.mod_eq_of_lt h]

/-- What reading a length does after its number. -/
lemma count_of_u32 {r r' : Reader} {v : UInt32} (least : Nat) (h : Reader.u32 r = (v, r')) :
    Reader.count least r = (if r'.failure.isSome then pure 0
      else if Reader.hasAtLeast (v.toNat * least) r'.rest then pure v.toNat
      else Reader.fail .tooLong >>= fun _ => pure 0 : Read Nat) r' := by
  unfold Reader.count
  rw [Read.bind_apply, h]
  rfl

/-- A length that is accepted is the number in front. -/
lemma u32_of_count {r r' : Reader} {least n : Nat} (h : Reader.count least r = (n, r'))
    (hgood : r'.failure = none) : ∃ v, Reader.u32 r = (v, r') ∧ n = v.toNat := by
  rw [count_of_u32 least (Prod.mk.eta (p := Reader.u32 r)).symm] at h
  refine ⟨(Reader.u32 r).1, ?_⟩
  split at h
  · next hfail =>
    obtain ⟨-, rfl⟩ := Prod.mk.inj h
    simp [hgood] at hfail
  · split at h
    · obtain ⟨rfl, rfl⟩ := Prod.mk.inj h
      exact ⟨rfl, rfl⟩
    · have hfail := (Accepts.fail .tooLong id).bind (fun _ => Accepts.pure 0)
      obtain ⟨-, _, -, -, _, _, _, hfalse, -⟩ := hfail _ _ _ h hgood
      exact hfalse.elim

/-- A length is read from any of its spellings when enough bytes follow. -/
lemma reads_count {g : Nat → Read β} {least : Nat} {a b : Bytes} {v : UInt32} {y : β}
    (ha : Reads Reader.u32 id a v) (hb : Reads (g v.toNat) δ b y)
    (hleast : v.toNat * least ≤ b.length) : Reads (Reader.count least >>= g) δ (a ++ b) y := by
  intro rest position sections
  have henough : Reader.hasAtLeast (v.toNat * least) (b ++ rest) = true := by
    rw [hasAtLeast_iff, List.length_append]
    omega
  rw [Read.bind_apply, List.append_assoc, count_of_u32 least (ha _ _ _)]
  simp only [Option.isSome_none, Bool.false_eq_true, if_false, henough, if_true]
  refine (hb rest (position + a.length) sections).trans ?_
  rw [List.length_append, Nat.add_assoc]

/-- **A vector's length and what depends on it.**  The guard never refuses what the writer wrote, nor
makes a difference behind a vector that could be read, because its elements have the guarded size. -/
lemma Conveys.count {g : Nat → Read β} {least : Nat} {W' : Nat → β → Bytes → Prop}
    (hg : ∀ n, Conveys (g n) δ (W' n)) (hleast : ∀ n y cs, W' n y cs → n * least ≤ cs.length) :
    Conveys (Reader.count least >>= g) δ
      fun y cs => ∃ n b, n < 2 ^ 32 ∧ W' n y b ∧ cs = Writer.count n ++ b where
  reads := by
    rintro y _ ⟨n, b, hn, hb, rfl⟩
    have htoNat := toNat_count hn
    refine reads_count (conveys_u32.reads rfl) ?_ ?_
    · rw [htoNat]
      exact (hg n).reads hb
    · rw [htoNat]
      exact hleast n y b hb
  accepts := by
    intro r r'' y hrun hgood
    obtain ⟨n, r', hcount, hgr⟩ : ∃ n r', Reader.count least r = (n, r') ∧ g n r' = (y, r'') :=
      ⟨_, _, rfl, hrun⟩
    obtain ⟨hfine', b, hrest', hreads', b', hW', hsp'⟩ := (hg n).accepts r' r'' y hgr hgood
    obtain ⟨v, hv, rfl⟩ := u32_of_count hcount hfine'
    obtain ⟨hfine, a, hrest, hreads, a', rfl, hsp⟩ := conveys_u32.accepts r r' v hv hfine'
    have hlen := le_trans (hleast _ _ _ hW') hsp'.length_le
    refine ⟨hfine, a ++ b, ?_, reads_count hreads hreads' hlen, Writer.u32 v ++ b',
      ⟨v.toNat, b', v.toNat_lt, hW', ?_⟩, hsp.append hsp'⟩
    · rw [hrest, hrest', List.append_assoc]
    · rw [Writer.count, UInt32.ofNat_toNat]

/-- The written forms of several values one after another. -/
def EachWritten (W : α → Bytes → Prop) : List α → Bytes → Prop
  | [], cs => cs = []
  | x :: xs, cs => ∃ a b, W x a ∧ EachWritten W xs b ∧ cs = a ++ b

section Vectors

variable {W : α → Bytes → Prop} {least : Nat}

lemma EachWritten.length_le (hleast : ∀ x cs, W x cs → least ≤ cs.length) {xs : List α} {cs : Bytes}
    (h : EachWritten W xs cs) : xs.length * least ≤ cs.length := by
  induction xs generalizing cs with
  | nil => simp
  | cons x xs ih =>
    obtain ⟨a, b, ha, hb, rfl⟩ := h
    have := hleast x a ha
    have := ih hb
    rw [List.length_cons, List.length_append, Nat.add_mul]
    omega

lemma EachWritten.written {x : α} {xs : List α} {cs : Bytes} (h : EachWritten W xs cs) (hx : x ∈ xs) :
    ∃ a, W x a := by
  induction xs generalizing cs with
  | nil => cases hx
  | cons y xs ih =>
    obtain ⟨a, b, ha, hb, -⟩ := h
    rcases List.mem_cons.mp hx with rfl | hx
    · exact ⟨a, ha⟩
    · exact ih hb hx

lemma eachWritten_and {P : α → Prop} {xs : List α} {cs : Bytes} :
    EachWritten (fun x cs => P x ∧ W x cs) xs cs ↔ (∀ x ∈ xs, P x) ∧ EachWritten W xs cs := by
  induction xs generalizing cs with
  | nil => simp [EachWritten]
  | cons x xs ih =>
    simp only [EachWritten, ih, List.forall_mem_cons]
    constructor
    · rintro ⟨a, b, ⟨hx, ha⟩, ⟨hxs, hb⟩, rfl⟩
      exact ⟨⟨hx, hxs⟩, a, b, ha, hb, rfl⟩
    · rintro ⟨⟨hx, hxs⟩, a, b, ha, hb, rfl⟩
      exact ⟨a, b, ⟨hx, ha⟩, ⟨hxs, hb⟩, rfl⟩

lemma eachWritten_flatMap {w : α → Bytes} {xs : List α} {cs : Bytes} :
    EachWritten (fun x cs => cs = w x) xs cs ↔ cs = xs.flatMap w := by
  induction xs generalizing cs with
  | nil => simp [EachWritten]
  | cons x xs ih => simp [EachWritten, ih]

/-- The written form of a vector: its length, then its elements. -/
def VectorWritten (W : α → Bytes → Prop) (xs : List α) (cs : Bytes) : Prop :=
  xs.length < 2 ^ 32 ∧ ∃ b, EachWritten W xs b ∧ cs = Writer.count xs.length ++ b

lemma vectorWritten_iff {P : α → Prop} {w : α → Bytes} {xs : List α} {cs : Bytes} :
    VectorWritten (fun x cs => P x ∧ cs = w x) xs cs ↔
      (xs.length < 2 ^ 32 ∧ ∀ x ∈ xs, P x) ∧ cs = Writer.vector w xs := by
  simp only [VectorWritten, eachWritten_and, eachWritten_flatMap, Writer.vector]
  constructor
  · rintro ⟨hlen, _, ⟨hxs, rfl⟩, rfl⟩
    exact ⟨⟨hlen, hxs⟩, rfl⟩
  · rintro ⟨⟨hlen, hxs⟩, rfl⟩
    exact ⟨hlen, _, ⟨hxs, rfl⟩, rfl⟩

lemma conveys_times (hf : Conveys f id W) (n : Nat) :
    Conveys (Reader.times n f) id fun xs cs => xs.length = n ∧ EachWritten W xs cs := by
  induction n with
  | zero =>
    refine (Conveys.pure []).congr fun xs cs => ?_
    constructor
    · rintro ⟨hlen, h⟩
      obtain rfl := List.length_eq_zero_iff.1 hlen
      exact ⟨rfl, h⟩
    · rintro ⟨rfl, rfl⟩
      exact ⟨rfl, rfl⟩
  | succ n ih =>
    refine (hf.bind fun x => ih.map).congr fun xs cs => ?_
    constructor
    · rintro ⟨hlen, h⟩
      match xs with
      | x :: xs =>
        obtain ⟨a, b, ha, hb, rfl⟩ := h
        exact ⟨x, a, b, ha, ⟨xs, ⟨by simpa using hlen, hb⟩, rfl⟩, rfl⟩
    · rintro ⟨x, a, b, ha, ⟨xs, ⟨hlen, hb⟩, rfl⟩, rfl⟩
      exact ⟨by simpa using hlen, a, b, ha, hb, rfl⟩

/-- Elements in sections of their own are read like others. -/
lemma conveys_itemsFrom (hf : Conveys f id W) (name : Text) (n i : Nat) :
    Conveys (Reader.itemsFrom name f n i) id
      fun xs cs => xs.length = n ∧ EachWritten W xs cs := by
  induction n generalizing i with
  | zero => exact conveys_times hf 0
  | succ n ih =>
    refine ((Conveys.enterItem name i).bind fun _ => hf.bind fun x => Conveys.leave.bind
      fun _ => (ih (i + 1)).map).congr fun xs cs => ?_
    constructor
    · rintro ⟨hlen, h⟩
      match xs with
      | x :: xs =>
        obtain ⟨a, b, ha, hb, rfl⟩ := h
        exact ⟨(), _, _, rfl, ⟨x, a, b, ha, ⟨(), _, _, rfl,
          ⟨xs, ⟨by simpa using hlen, hb⟩, rfl⟩, rfl⟩, rfl⟩, rfl⟩
    · rintro ⟨_, _, _, rfl, ⟨x, a, b, ha, ⟨_, _, _, rfl, ⟨xs, ⟨hlen, hb⟩, rfl⟩, rfl⟩, rfl⟩, rfl⟩
      exact ⟨by simpa using hlen, a, _, ha, hb, rfl⟩

/-- What a length and so many elements make is the vector. -/
lemma conveys_counted {g : Nat → Read (List α)} (hleast : ∀ x cs, W x cs → least ≤ cs.length)
    (hg : ∀ n, Conveys (g n) id fun xs cs => xs.length = n ∧ EachWritten W xs cs) :
    Conveys (Reader.count least >>= g) id (VectorWritten W) := by
  refine (Conveys.count hg ?_).congr fun xs cs => ?_
  · rintro n xs cs ⟨rfl, h⟩
    exact h.length_le hleast
  · constructor
    · rintro ⟨hlen, b, h, rfl⟩
      exact ⟨_, b, hlen, ⟨rfl, h⟩, rfl⟩
    · rintro ⟨_, b, hlen, ⟨rfl, h⟩, rfl⟩
      exact ⟨hlen, b, h, rfl⟩

lemma conveys_vector (hf : Conveys f id W) (hleast : ∀ x cs, W x cs → least ≤ cs.length) :
    Conveys (Reader.vector least f) id (VectorWritten W) :=
  conveys_counted hleast (conveys_times hf)

lemma conveys_items (hf : Conveys f id W) (name : Text)
    (hleast : ∀ x cs, W x cs → least ≤ cs.length) :
    Conveys (Reader.items name least f) id (VectorWritten W) :=
  conveys_counted hleast fun n => conveys_itemsFrom hf name n 0

end Vectors

/-! ## Names -/

/-- **A text that the container can hold**: well-formed UTF-8 whose length is a word. -/
def Text.Holdable (t : Text) : Prop := Utf8.valid t = true ∧ t.length < 2 ^ 32

instance (t : Text) : Decidable (Text.Holdable t) := inferInstanceAs (Decidable (_ ∧ _))

/-- The text in some bytes, `none` if there were not enough. -/
def theText : Option Bytes → Read Text
  | none => return []
  | some t => do
    if Utf8.valid t then return t
    Reader.fail .invalidName
    return []

lemma conveys_theText (o : Option Bytes) :
    Conveys (theText o) id fun t cs => (∀ u, o = some u → Utf8.valid u = true ∧ t = u) ∧
      (o = none → t = []) ∧ cs = [] := by
  match o with
  | none => exact (Conveys.pure []).congr fun t cs => by simp
  | some u =>
    by_cases hu : Utf8.valid u = true
    · simp only [theText, hu, if_true]
      exact (Conveys.pure u).congr fun t cs => by simp [hu]
    · simp only [theText, hu]
      refine ((Conveys.fail .invalidName id).bind fun _ => Conveys.pure []).congr fun t cs => ?_
      simp [hu]

lemma name_eq : Reader.name = Reader.count 1 >>= fun n => Reader.take n >>= theText := rfl

lemma conveys_name : Conveys Reader.name id fun t cs => Text.Holdable t ∧ cs = Writer.name t := by
  have hbody (n : Nat) : Conveys (Reader.take n >>= theText) id
      fun t cs => Utf8.valid t = true ∧ t.length = n ∧ cs = t := by
    refine ((conveys_take n).bind conveys_theText).congr fun t cs => ?_
    constructor
    · rintro ⟨hvalid, hlen, rfl⟩
      exact ⟨some cs, cs, [], ⟨rfl, hlen⟩, ⟨by simp [hvalid], by simp, rfl⟩, by simp⟩
    · rintro ⟨_, u, _, ⟨rfl, hlen⟩, ⟨hu, -, rfl⟩, rfl⟩
      obtain ⟨hvalid, rfl⟩ := hu u rfl
      exact ⟨hvalid, hlen, by simp⟩
  rw [name_eq]
  refine (Conveys.count hbody ?_).congr fun t cs => ?_
  · rintro n t cs ⟨-, rfl, rfl⟩
    omega
  · constructor
    · rintro ⟨⟨hvalid, hlen⟩, rfl⟩
      exact ⟨t.length, t, hlen, ⟨hvalid, rfl, rfl⟩, rfl⟩
    · rintro ⟨_, b, hlen, ⟨hvalid, rfl, rfl⟩, rfl⟩
      exact ⟨⟨hvalid, hlen⟩, rfl⟩

/-- Several texts that the container can hold. -/
def Text.AllHoldable (ts : List Text) : Prop := ts.length < 2 ^ 32 ∧ ∀ t ∈ ts, Text.Holdable t

instance (ts : List Text) : Decidable (Text.AllHoldable ts) := inferInstanceAs (Decidable (_ ∧ _))

lemma length_u32_pos (v : UInt32) : 1 ≤ (Writer.u32 v).length :=
  let ⟨_, _, hg, _⟩ := spells_u32 v
  hg.length_pos

lemma length_name_pos (t : Text) : 1 ≤ (Writer.name t).length := by
  have := length_u32_pos (UInt32.ofNat t.length)
  simp only [Writer.name, Writer.count, List.length_append]
  omega

lemma length_vector_pos (w : α → Bytes) (xs : List α) : 1 ≤ (Writer.vector w xs).length := by
  have := length_u32_pos (UInt32.ofNat xs.length)
  simp only [Writer.vector, Writer.count, List.length_append]
  omega

lemma conveys_names :
    Conveys Reader.names id fun ts cs => Text.AllHoldable ts ∧ cs = Writer.names ts := by
  refine (conveys_vector conveys_name ?_).congr fun ts cs => vectorWritten_iff.symm
  rintro t _ ⟨-, rfl⟩
  exact length_name_pos t

end Suspension
