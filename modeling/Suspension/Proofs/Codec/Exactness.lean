import Mathlib.Tactic
import Suspension.Proofs.Codec.Reading

/-!
# How exact the reading of a number is

A LEB128 number has no bound of its own, a word has one, and the readers of words bound something
else: the number of bytes.  Five groups hold 35 bits and ten groups 70, so between the two bounds
there are numbers that a reader takes without failure and that no word holds.

This module says for every reader what the read of a number comes to.  There are four ends, and they
exclude each other: a failure is kept, the bytes end inside the number, the number goes on behind the
last byte allowed, or it is taken whole.  In the last end **the result is the number modulo the width
of the word**, so it is the number if and only if the number fits; a number that does not fit loses
its high bits without a failure.

* `LebFormat` — the three kinds of numbers; `LebFormat.Denotes` and `LebFormat.Fits` are about
  integers and bytes only.
* `LebFormat.Ends` — the four ends.
* `Reader.leb_ends` — every read of a number comes to one of them.
* `Reader.Canonical`, `Reader.leb_canonical` — numbers that the writer has written are read back exactly,
  and nothing shorter is read as them.
-/

namespace Suspension

/-- **A kind of LEB128 numbers**: the width of its word, how many bytes are allowed, and whether bit 6
of the last byte is the sign. -/
structure LebFormat where
  bits : Nat
  most : Nat
  signed : Bool

namespace LebFormat

/-- Unsigned words of 32 bits. -/
def word32 : LebFormat := ⟨32, 5, false⟩

/-- Signed words of 32 bits. -/
def int32 : LebFormat := ⟨32, 5, true⟩

/-- Signed words of 64 bits. -/
def int64 : LebFormat := ⟨64, 10, true⟩

/-- **The integer that a string of groups denotes**, however large: with a sign, the groups are a
two's complement of seven bits each. -/
def Denotes (k : LebFormat) (bs : Bytes) (v : Int) : Prop :=
  ∃ n last, Groups bs n last ∧
    v = if k.signed = true ∧ 64 ≤ last.toNat then (n : Int) - 128 ^ bs.length else n

/-- The integers that the word holds. -/
def Fits (k : LebFormat) (v : Int) : Prop :=
  if k.signed then -2 ^ (k.bits - 1) ≤ v ∧ v < 2 ^ (k.bits - 1) else 0 ≤ v ∧ v < 2 ^ k.bits

/-- The reader behind the next bytes, of which `rest` are left. -/
def advanced (r : Reader) (taken : Nat) (rest : Bytes) : Reader :=
  { r with rest := rest, position := r.position + taken }

/-- **What reading a number comes to**: the value that is given and the reader afterwards. -/
inductive Ends (k : LebFormat) (r : Reader) : Int → Reader → Prop
  /-- A failure is kept: nothing is read. -/
  | kept (hfail : r.failure.isSome = true) : Ends k r 0 r
  /-- The bytes end inside the number. -/
  | endOfInput (hfine : r.failure = none) (hshort : r.rest.length < k.most)
      (hmore : ∀ b ∈ r.rest, 128 ≤ b.toNat) :
      Ends k r 0 (Reader.fail .endOfInput (advanced r r.rest.length [])).2
  /-- The number goes on behind the last byte allowed. -/
  | overflow {bs rest : Bytes} (hfine : r.failure = none) (hrest : r.rest = bs ++ rest)
      (hlen : bs.length = k.most) (hmore : ∀ b ∈ bs, 128 ≤ b.toNat) :
      Ends k r 0 (Reader.fail .overflow (advanced r bs.length rest)).2
  /-- The number is taken whole, and what the word holds of it is given. -/
  | number {bs rest : Bytes} {v x : Int} (hfine : r.failure = none) (hrest : r.rest = bs ++ rest)
      (hlen : bs.length ≤ k.most) (hv : k.Denotes bs v) (hfits : k.Fits x)
      (hlow : x ≡ v [ZMOD 2 ^ k.bits]) (hexact : x = v ↔ k.Fits v) :
      Ends k r x (advanced r bs.length rest)

/-- Two integers of the word with the same low bits are equal. -/
lemma Fits.eq_of_modEq {k : LebFormat} {x v : Int} (hbits : 0 < k.bits) (hx : k.Fits x)
    (hv : k.Fits v) (h : x ≡ v [ZMOD 2 ^ k.bits]) : x = v := by
  obtain ⟨bits, hsucc⟩ : ∃ n, k.bits = n + 1 := ⟨k.bits - 1, by omega⟩
  have hpow : (2 : Int) ^ k.bits = 2 * 2 ^ (k.bits - 1) := by
    rw [hsucc, Nat.add_sub_cancel, pow_succ']
  have hsmall : |v - x| < 2 ^ k.bits := by
    unfold Fits at hx hv
    rw [abs_lt]
    split at hx <;> split at hv <;> first | contradiction | constructor <;> omega
  have := Int.eq_zero_of_abs_lt_dvd h.dvd hsmall
  omega

/-- What a word holds of an integer is the integer if and only if it fits. -/
lemma Fits.exact_iff {k : LebFormat} {x v : Int} (hbits : 0 < k.bits) (hx : k.Fits x)
    (h : x ≡ v [ZMOD 2 ^ k.bits]) : x = v ↔ k.Fits v :=
  ⟨fun hxv => hxv ▸ hx, fun hv => hx.eq_of_modEq hbits hv h⟩

end LebFormat

/-! ## Where the groups end -/

/-- A string of groups makes one number. -/
lemma Groups.unique {bs : Bytes} {n n' : Nat} {last last' : UInt8} (h : Groups bs n last)
    (h' : Groups bs n' last') : n' = n ∧ last' = last := by
  induction h generalizing n' with
  | last h =>
    cases h' with
    | last => exact ⟨rfl, rfl⟩
    | more _ rest => exact absurd rest.length_pos (by simp)
  | more h rest ih =>
    cases h' with
    | last => exact absurd rest.length_pos (by simp)
    | more _ rest' =>
      obtain ⟨rfl, rfl⟩ := ih rest'
      exact ⟨rfl, rfl⟩

/-- **Some groups are all there, or they go on** — as far as is allowed, or to the end. -/
lemma exists_groups_or_more (fuel : Nat) (bs : Bytes) :
    (∃ gs rest n last, bs = gs ++ rest ∧ gs.length ≤ fuel ∧ Groups gs n last) ∨
      (∃ gs rest, bs = gs ++ rest ∧ gs.length = fuel ∧ ∀ b ∈ gs, 128 ≤ b.toNat) ∨
      (bs.length < fuel ∧ ∀ b ∈ bs, 128 ≤ b.toNat) := by
  induction fuel generalizing bs with
  | zero => exact .inr (.inl ⟨[], bs, rfl, rfl, by simp⟩)
  | succ fuel ih =>
    cases bs with
    | nil => exact .inr (.inr ⟨by simp, by simp⟩)
    | cons b bs =>
      by_cases hb : b.toNat < 128
      · exact .inl ⟨[b], bs, _, _, rfl, by simp, .last hb⟩
      · have hmore : 128 ≤ b.toNat := not_lt.1 hb
        obtain ⟨gs, rest, n, last, rfl, hlen, hg⟩ | ⟨gs, rest, rfl, hlen, hall⟩ | ⟨hlen, hall⟩ := ih bs
        · exact .inl ⟨b :: gs, rest, _, _, rfl, by simpa using hlen, .more hmore hg⟩
        · exact .inr (.inl ⟨b :: gs, rest, rfl, by simpa using hlen, by simpa [hmore] using hall⟩)
        · exact .inr (.inr ⟨by simpa using hlen, by simpa [hmore] using hall⟩)

/-- Groups without a bit, and then a last one. -/
lemma groups_zeros (k : Nat) (b : UInt8) (hb : b.toNat < 128) :
    Groups (List.replicate k 0x80 ++ [b]) (b.toNat * 128 ^ k) b := by
  induction k with
  | zero => simpa using Groups.last hb
  | succ k ih =>
    have hmore := Groups.more (b := 0x80) (by decide) ih
    rw [List.replicate_succ, List.cons_append]
    convert hmore using 1
    have hzero : (0x80 : UInt8).toNat % 128 = 0 := rfl
    rw [hzero, pow_succ']
    ring

/-- Groups of which every bit is set. -/
lemma groups_ones (k : Nat) : Groups (List.replicate k 0xff ++ [0x7f]) (128 ^ (k + 1) - 1) 0x7f := by
  induction k with
  | zero => exact Groups.last (b := 0x7f) (by decide)
  | succ k ih =>
    have hmore := Groups.more (b := 0xff) (by decide) ih
    rw [List.replicate_succ, List.cons_append]
    convert hmore using 1
    have hdigit : (0xff : UInt8).toNat % 128 = 127 := rfl
    have hpos : 0 < 128 ^ (k + 1) := by positivity
    rw [hdigit, pow_succ' 128 (k + 1)]
    omega

/-- One byte that is not the last of a number. -/
lemma lebGroups_more {b : UInt8} (hb : 128 ≤ b.toNat) (fuel shift acc : Nat) (rest : Bytes)
    (position : Nat) (sections : List Section) :
    Reader.lebGroups (fuel + 1) shift acc ⟨b :: rest, position, sections, none⟩ =
      Reader.lebGroups fuel (shift + 7) (acc + (b.toNat % 128) * 2 ^ shift)
        ⟨rest, position + 1, sections, none⟩ := by
  have hlt : ¬ b < 0x80 := fun h => absurd (show b.toNat < 128 from h) (by omega)
  have hbyte : Reader.byte ⟨b :: rest, position, sections, none⟩ =
      (b, ⟨rest, position + 1, sections, none⟩) := reads_byte b rest position sections
  rw [lebGroups_succ, Read.bind_apply, hbyte, if_neg hlt]
  rfl

lemma lebGroups_overflow {bs : Bytes} (hall : ∀ b ∈ bs, 128 ≤ b.toNat) (shift acc : Nat)
    (rest : Bytes) (position : Nat) (sections : List Section) :
    Reader.lebGroups bs.length shift acc ⟨bs ++ rest, position, sections, none⟩ =
      (none, (Reader.fail .overflow ⟨rest, position + bs.length, sections, none⟩).2) := by
  induction bs generalizing shift acc position with
  | nil => rfl
  | cons b bs ih =>
    rw [List.length_cons, List.cons_append, lebGroups_more (hall b (by simp)),
      ih fun b hb => hall b (by simp [hb]), Nat.add_right_comm, Nat.add_assoc]

lemma lebGroups_endOfInput {bs : Bytes} (hall : ∀ b ∈ bs, 128 ≤ b.toNat) (fuel shift acc : Nat)
    (hshort : bs.length < fuel) (position : Nat) (sections : List Section) :
    Reader.lebGroups fuel shift acc ⟨bs, position, sections, none⟩ =
      (none, (Reader.fail .endOfInput ⟨[], position + bs.length, sections, none⟩).2) := by
  induction bs generalizing fuel shift acc position with
  | nil =>
    obtain ⟨fuel, rfl⟩ : ∃ k, fuel = k + 1 := ⟨fuel - 1, by simp at hshort; omega⟩
    rfl
  | cons b bs ih =>
    obtain ⟨fuel, rfl⟩ : ∃ k, fuel = k + 1 := ⟨fuel - 1, by simp at hshort; omega⟩
    rw [lebGroups_more (hall b (by simp)),
      ih (fun b hb => hall b (by simp [hb])) _ _ _ (by simpa using hshort), List.length_cons,
      Nat.add_right_comm, Nat.add_assoc]

lemma lebGroups_kept {r : Reader} (hfail : r.failure.isSome = true) (fuel shift acc : Nat) :
    Reader.lebGroups fuel shift acc r = (none, r) := by
  obtain ⟨rest, position, sections, failure⟩ := r
  obtain ⟨f, rfl⟩ := Option.isSome_iff_exists.1 hfail
  cases fuel <;> rfl

/-! ## The three kinds of numbers -/

namespace LebFormat

/-- **A number read by groups comes to one of the four ends**, when `F` keeps the low bits of the
integer that its groups denote. -/
lemma ends_of_lebGroups {k : LebFormat} {α : Type} {zero : α} {F : Nat → Nat → UInt8 → α}
    (toInt : α → Int) (hbits : 0 < k.bits) (hzero : toInt zero = 0)
    (hfits : ∀ x, k.Fits (toInt x))
    (hlow : ∀ bs n last v, Groups bs n last → bs.length ≤ k.most → k.Denotes bs v →
      toInt (F n (7 * bs.length) last) ≡ v [ZMOD 2 ^ k.bits]) (r : Reader) :
    k.Ends r
      (toInt ((Reader.lebGroups k.most 0 0 >>= fun o => pure (theNumber zero F o) : Read α) r).1)
      ((Reader.lebGroups k.most 0 0 >>= fun o => pure (theNumber zero F o) : Read α) r).2 := by
  have hrun : (Reader.lebGroups k.most 0 0 >>= fun o => pure (theNumber zero F o) : Read α) r =
      (theNumber zero F (Reader.lebGroups k.most 0 0 r).1, (Reader.lebGroups k.most 0 0 r).2) := rfl
  rw [hrun]
  by_cases hfail : r.failure.isSome = true
  · rw [lebGroups_kept hfail]
    simpa [theNumber, hzero] using Ends.kept hfail
  have hfine : r.failure = none := by simpa using hfail
  obtain ⟨bytes, position, sections, failure⟩ := r
  obtain rfl : failure = none := hfine
  obtain ⟨gs, rest, n, last, rfl, hlen, hg⟩ | ⟨gs, rest, rfl, hlen, hall⟩ | ⟨hshort, hall⟩ :=
    exists_groups_or_more k.most bytes
  · rw [reads_lebGroups hg k.most 0 0 hlen]
    simp only [theNumber, zero_add, pow_zero, mul_one, id]
    have hv : k.Denotes gs _ := ⟨n, last, hg, rfl⟩
    have hmod := hlow gs n last _ hg hlen hv
    exact .number rfl rfl hlen hv (hfits _) hmod ((hfits _).exact_iff hbits hmod)
  · rw [← hlen, lebGroups_overflow hall]
    simpa [theNumber, hzero, advanced] using
      Ends.overflow (k := k) (r := ⟨gs ++ rest, position, sections, none⟩) rfl rfl hlen hall
  · rw [lebGroups_endOfInput hall k.most 0 0 hshort]
    simpa [theNumber, hzero, advanced] using
      Ends.endOfInput (k := k) (r := ⟨bytes, position, sections, none⟩) rfl hshort hall

/-- The signed value that a reader works out, up to a multiple of what so many groups can hold. -/
lemma signedValue_modEq {k : LebFormat} (hsigned : k.signed = true) {bs : Bytes} {n : Nat}
    {last : UInt8} {v : Int} (hg : Groups bs n last) (hv : k.Denotes bs v)
    (hfull : bs.length ≤ 9 ∨ (2 : Int) ^ k.bits ∣ 128 ^ bs.length) :
    Reader.signedValue n (7 * bs.length) last ≡ v [ZMOD 2 ^ k.bits] := by
  obtain ⟨n', last', hg', rfl⟩ := hv
  obtain ⟨rfl, rfl⟩ := hg'.unique hg
  have hlast := hg.bounds.1
  have hpow : (2 : Int) ^ (7 * bs.length) = 128 ^ bs.length := by
    rw [pow_mul]
    norm_num
  simp only [Reader.signedValue, hsigned, true_and, Nat.mod_eq_of_lt hlast, Nat.pow_eq,
    Nat.cast_pow, Nat.cast_ofNat, hpow, Bool.and_eq_true, decide_eq_true_eq]
  by_cases hsign : 64 ≤ last.toNat
  · by_cases hlen : 7 * bs.length < 64
    · simp [hsign, hlen]
    · -- ten groups: the reader leaves the sign out, which only shows above the word
      have hdvd := hfull.resolve_left (by omega)
      simp only [hlen, hsign, false_and, if_false, if_true]
      exact (Int.modEq_iff_dvd.2 (by simpa using hdvd)).symm
  · simp [hsign]

lemma word32_ends (r : Reader) :
    word32.Ends r ((Reader.u32 r).1.toNat : Int) (Reader.u32 r).2 := by
  rw [u32_eq]
  refine ends_of_lebGroups (k := word32) (fun x : UInt32 => (x.toNat : Int)) (by decide) rfl
    (fun x => ⟨by positivity, by exact_mod_cast x.toNat_lt⟩) ?_ r
  rintro bs n last v hg - ⟨n', last', hg', rfl⟩
  obtain ⟨rfl, rfl⟩ := hg'.unique hg
  simp only [word32, Bool.false_eq_true, false_and, if_false]
  rw [UInt32.toNat_ofNat']
  exact_mod_cast Nat.mod_modEq n (2 ^ 32)

lemma int32_ends (r : Reader) : int32.Ends r (Reader.s32 r).1.toInt (Reader.s32 r).2 := by
  rw [s32_eq]
  refine ends_of_lebGroups (k := int32) Int32.toInt (by decide) rfl
    (fun x => ⟨x.le_toInt, x.toInt_lt⟩) ?_ r
  intro bs n last v hg hlen hv
  have hword := signedValue_modEq rfl hg hv (.inl (le_trans hlen (by decide)))
  rw [Int32.toInt_ofInt]
  exact (Int.bmod_emod).trans hword

lemma int64_ends (r : Reader) : int64.Ends r (Reader.s64 r).1.toInt (Reader.s64 r).2 := by
  rw [s64_eq]
  refine ends_of_lebGroups (k := int64) Int64.toInt (by decide) rfl
    (fun x => ⟨x.le_toInt, x.toInt_lt⟩) ?_ r
  intro bs n last v hg hlen hv
  have hfull : bs.length ≤ 9 ∨ (2 : Int) ^ int64.bits ∣ 128 ^ bs.length := by
    rcases Nat.lt_or_ge bs.length 10 with h | h
    · exact .inl (by omega)
    · have : bs.length = 10 := le_antisymm hlen h
      rw [this]
      exact .inr (by norm_num [int64])
  have hword := signedValue_modEq rfl hg hv hfull
  rw [Int64.toInt_ofInt]
  exact (Int.bmod_emod).trans hword

end LebFormat

/-- **Every read of a number has one of four ends**: a failure is kept, or one is recorded because
the bytes end or too many groups follow, or the number is taken whole.  Then the word's share of it is
given, which is the number exactly when the number fits: a number of the allowed length that does not
fit is not reported. -/
theorem Reader.leb_ends (r : Reader) :
    LebFormat.word32.Ends r ((Reader.u32 r).1.toNat : Int) (Reader.u32 r).2 ∧
      LebFormat.int32.Ends r (Reader.s32 r).1.toInt (Reader.s32 r).2 ∧
      LebFormat.int64.Ends r (Reader.s64 r).1.toInt (Reader.s64 r).2 :=
  ⟨LebFormat.word32_ends r, LebFormat.int32_ends r, LebFormat.int64_ends r⟩

/-- **Numbers that lose their high bits silently**, one for each kind: 2^35 - 1, 2^31 and 2^64 are
spelled in as many bytes as are allowed, and read without failure as 2^32 - 1, -2^31 and 0. -/
theorem Reader.leb_not_exact :
    (LebFormat.word32.Denotes [0xff, 0xff, 0xff, 0xff, 0x7f] 34359738367 ∧
      (Reader.u32 (Reader.ofBytes [0xff, 0xff, 0xff, 0xff, 0x7f])).1 = 4294967295 ∧
      (Reader.u32 (Reader.ofBytes [0xff, 0xff, 0xff, 0xff, 0x7f])).2 =
        { rest := [], position := 5 }) ∧
    (LebFormat.int32.Denotes [0x80, 0x80, 0x80, 0x80, 0x08] 2147483648 ∧
      (Reader.s32 (Reader.ofBytes [0x80, 0x80, 0x80, 0x80, 0x08])).1 = -2147483648 ∧
      (Reader.s32 (Reader.ofBytes [0x80, 0x80, 0x80, 0x80, 0x08])).2 =
        { rest := [], position := 5 }) ∧
    (LebFormat.int64.Denotes (List.replicate 9 0x80 ++ [0x02]) 18446744073709551616 ∧
      (Reader.s64 (Reader.ofBytes (List.replicate 9 0x80 ++ [0x02]))).1 = 0 ∧
      (Reader.s64 (Reader.ofBytes (List.replicate 9 0x80 ++ [0x02]))).2 =
        { rest := [], position := 10 }) := by
  refine ⟨⟨⟨34359738367, 0x7f, ?_, by decide⟩, by decide, by decide⟩,
    ⟨⟨2147483648, 0x08, ?_, by decide⟩, by decide, by decide⟩,
    ⟨⟨18446744073709551616, 0x02, ?_, by decide⟩, by decide +kernel, by decide +kernel⟩⟩
  · exact groups_ones 4
  · exact groups_zeros 4 0x08 (by decide)
  · exact groups_zeros 9 0x02 (by decide)

/-! ## What the writer writes -/

/-- **An encoding that is exact, self-delimiting and minimal.**  The encoding of a value has at most
`most` bytes, and whatever follows it, a read gives the value and takes these bytes and no more.  Any read
that gives the value without failure takes at least as many. -/
structure Reader.Canonical {α : Type} (read : Read α) (write : α → Bytes) (most : Nat) : Prop where
  reads : ∀ v, Reads read id (write v) v
  bounded : ∀ v, (write v).length ≤ most
  minimal : ∀ (r r' : Reader) (v : α), read r = (v, r') → r'.failure = none →
    ∃ bs, r.rest = bs ++ r'.rest ∧ (write v).length ≤ bs.length

/-- A read that takes respellings of what is written, of which none is shorter. -/
lemma Conveys.canonical {α : Type} {read : Read α} {write : α → Bytes} {most : Nat}
    (h : Conveys read id fun v cs => cs = write v) (hmost : ∀ v, (write v).length ≤ most) :
    Reader.Canonical read write most where
  reads := fun v => h.reads rfl
  bounded := hmost
  minimal := by
    intro r r' v hrun hfine
    obtain ⟨-, bs, hrest, -, cs, rfl, hspelt⟩ := h.accepts r r' v hrun hfine
    exact ⟨bs, hrest, hspelt.length_le⟩

/-- **The coding of numbers is canonical**: words of 32 bits take up to five bytes, signed ones too, and
signed words of 64 bits up to ten. -/
theorem Reader.leb_canonical :
    Reader.Canonical Reader.u32 Writer.u32 5 ∧ Reader.Canonical Reader.s32 Writer.s32 5 ∧
      Reader.Canonical Reader.s64 Writer.s64 10 := by
  refine ⟨conveys_u32.canonical fun v => ?_, conveys_s32.canonical fun v => ?_,
    conveys_s64.canonical fun v => ?_⟩
  · obtain ⟨_, _, _, hlen, _⟩ := spells_u32 v
    exact hlen
  · obtain ⟨_, _, _, hlen, _⟩ := spells_s32 v
    exact hlen
  · obtain ⟨_, _, _, hlen, _⟩ := spells_s64 v
    exact hlen

/-- The least signed word needs the tenth byte, which holds its sign only. -/
example : Writer.s64 (-9223372036854775808) = List.replicate 9 0x80 ++ [0x7f] := by decide +kernel

end Suspension
