import Mathlib.Tactic.Common
import Suspension.Text.Utf8

/-!
# Encoding and decoding UTF-8

**Encoded characters are found again, and decoding loses no byte.**  The characters of an encoded text
are those that were encoded; and the items of any text, well formed or not, have the bytes of the text.

* `Utf8.chars_encode` — decoding undoes encoding.
* `Utf8.bytes_items` — the bytes of the items of a text.
* `Utf8.valid_iff`, `Utf8.valid_append`, `Utf8.valid_cut` — texts that are well formed, and their parts.
-/

namespace Suspension

namespace Utf8

variable {b c d e : UInt8} {t : Text}

lemma isContinuation_iff : isContinuation b = true ↔ 0x80 ≤ b.toNat ∧ b.toNat ≤ 0xbf := by
  simp [isContinuation, UInt8.le_iff_toNat_le]

/-! ## The first item, by the number of its bytes -/

lemma first_one (hb : b.toNat < 0x80) : first b t = (.char (Char.ofNat b.toNat), 0) := by
  have h : b < 0x80 := hb
  simp [first, h]

lemma first_two (hb : 0xc2 ≤ b.toNat ∧ b.toNat ≤ 0xdf) (hc : isContinuation c = true) :
    first b (c :: t) = (.char (Char.ofNat (b.toNat % 32 * 64 + payload c)), 1) := by
  have h₁ : ¬ b < 0x80 := by
    simp only [UInt8.lt_iff_toNat_lt, UInt8.toNat_ofNat]
    omega
  have h₂ : 0xc2 ≤ b ∧ b ≤ 0xdf := hb
  simp [first, h₁, h₂, hc]

lemma first_three (hb : 0xe0 ≤ b.toNat ∧ b.toNat ≤ 0xef)
    (hc : (if b.toNat = 0xe0 then 0xa0 else 0x80) ≤ c.toNat
      ∧ c.toNat ≤ if b.toNat = 0xed then 0x9f else 0xbf) (hd : isContinuation d = true) :
    first b (c :: d :: t)
      = (.char (Char.ofNat (b.toNat % 16 * 4096 + payload c * 64 + payload d)), 2) := by
  have h₁ : ¬ b < 0x80 := by
    simp only [UInt8.lt_iff_toNat_lt, UInt8.toNat_ofNat]
    omega
  have h₂ : ¬ b ≤ 0xdf := by
    simp only [UInt8.le_iff_toNat_le, UInt8.toNat_ofNat]
    omega
  have h₃ : 0xe0 ≤ b ∧ b ≤ 0xef := hb
  have hlo : b = 0xe0 ↔ b.toNat = 0xe0 := UInt8.toNat_inj.symm
  have hhi : b = 0xed ↔ b.toNat = 0xed := UInt8.toNat_inj.symm
  have hc' : (if b = 0xe0 then 0xa0 else 0x80) ≤ c ∧ c ≤ if b = 0xed then 0x9f else 0xbf := by
    simp only [UInt8.le_iff_toNat_le, hlo, hhi]
    constructor <;> split <;> simp_all
  simp [first, h₁, h₂, h₃, hc', hd]

lemma first_four (hb : 0xf0 ≤ b.toNat ∧ b.toNat ≤ 0xf4)
    (hc : (if b.toNat = 0xf0 then 0x90 else 0x80) ≤ c.toNat
      ∧ c.toNat ≤ if b.toNat = 0xf4 then 0x8f else 0xbf) (hd : isContinuation d = true)
    (he : isContinuation e = true) :
    first b (c :: d :: e :: t) = (.char (Char.ofNat
      (b.toNat % 8 * 262144 + payload c * 4096 + payload d * 64 + payload e)), 3) := by
  have h₁ : ¬ b < 0x80 := by
    simp only [UInt8.lt_iff_toNat_lt, UInt8.toNat_ofNat]
    omega
  have h₂ : ¬ b ≤ 0xdf := by
    simp only [UInt8.le_iff_toNat_le, UInt8.toNat_ofNat]
    omega
  have h₃ : ¬ b ≤ 0xef := by
    simp only [UInt8.le_iff_toNat_le, UInt8.toNat_ofNat]
    omega
  have h₄ : 0xf0 ≤ b ∧ b ≤ 0xf4 := hb
  have hlo : b = 0xf0 ↔ b.toNat = 0xf0 := UInt8.toNat_inj.symm
  have hhi : b = 0xf4 ↔ b.toNat = 0xf4 := UInt8.toNat_inj.symm
  have hc' : (if b = 0xf0 then 0x90 else 0x80) ≤ c ∧ c ≤ if b = 0xf4 then 0x8f else 0xbf := by
    simp only [UInt8.le_iff_toNat_le, hlo, hhi]
    constructor <;> split <;> simp_all
  simp [first, h₁, h₂, h₃, h₄, hc', hd, he]

/-! ## Encoding and decoding -/

/-- Decoding finds an encoded character. -/
lemma items_encodeChar (x : Char) (t : Text) :
    items (String.utf8EncodeChar x ++ t) = .char x :: items t := by
  have hvalid : x.val.toNat < 0xd800 ∨ 0xdfff < x.val.toNat ∧ x.val.toNat < 0x110000 := x.valid
  have hx : ∀ {n : Nat}, n = x.val.toNat → Char.ofNat n = x := by
    rintro _ rfl
    exact Char.ofNat_toNat x
  unfold String.utf8EncodeChar
  generalize x.val.toNat = v at hvalid hx
  have hbyte : ∀ {n : Nat}, n < 256 → (UInt8.ofNat n).toNat = n :=
    fun h => UInt8.toNat_ofNat_of_lt' h
  have hcont : ∀ n, isContinuation (UInt8.ofNat (n % 64 + 128)) = true := by
    intro n
    rw [isContinuation_iff, hbyte (by omega)]
    omega
  dsimp only
  split
  · -- one byte
    have hb := hbyte (n := v) (by omega)
    have hfirst := first_one (b := UInt8.ofNat v) (t := t) (by omega)
    simp only [items, List.cons_append, List.nil_append, itemsFrom, hfirst, hb, hx rfl]
  split
  · have hb := hbyte (n := v / 64 % 32 + 192) (by omega)
    have hc := hbyte (n := v % 64 + 128) (by omega)
    have hfirst := first_two (b := UInt8.ofNat (v / 64 % 32 + 192)) (t := t) (by omega) (hcont v)
    simp only [items, List.cons_append, List.nil_append, itemsFrom, hfirst]
    rw [hx (by unfold payload; omega)]
  split
  · have hb := hbyte (n := v / 4096 % 16 + 224) (by omega)
    have hc := hbyte (n := v / 64 % 64 + 128) (by omega)
    have hd := hbyte (n := v % 64 + 128) (by omega)
    have hfirst := first_three (b := UInt8.ofNat (v / 4096 % 16 + 224))
      (c := UInt8.ofNat (v / 64 % 64 + 128)) (t := t) (by omega)
      (by constructor <;> split <;> omega) (hcont v)
    simp only [items, List.cons_append, List.nil_append, itemsFrom, hfirst]
    rw [hx (by unfold payload; omega)]
  · have hb := hbyte (n := v / 262144 % 8 + 240) (by omega)
    have hc := hbyte (n := v / 4096 % 64 + 128) (by omega)
    have hd := hbyte (n := v / 64 % 64 + 128) (by omega)
    have he := hbyte (n := v % 64 + 128) (by omega)
    have hfirst := first_four (b := UInt8.ofNat (v / 262144 % 8 + 240))
      (c := UInt8.ofNat (v / 4096 % 64 + 128)) (t := t) (by omega)
      (by constructor <;> split <;> omega) (hcont (v / 64)) (hcont v)
    simp only [items, List.cons_append, List.nil_append, itemsFrom, hfirst]
    rw [hx (by unfold payload; omega)]

lemma encode_append (xs ys : List Char) : encode (xs ++ ys) = encode xs ++ encode ys := by
  simp [encode]

/-- **Decoding undoes encoding.** -/
theorem chars_encode (xs : List Char) : chars (encode xs) = xs := by
  induction xs with
  | nil => rfl
  | cons x xs ih =>
      have hcons : encode (x :: xs) = String.utf8EncodeChar x ++ encode xs := rfl
      unfold chars at ih ⊢
      rw [hcons, items_encodeChar, List.map_cons, ih]
      rfl

/-! ## The bytes of the items -/

/-- The items of a text, after the first one. -/
lemma itemsFrom_eq_drop (n : Nat) (t : Text) : itemsFrom n t = items (t.drop n) := by
  induction n generalizing t with
  | zero => rfl
  | succ n ih =>
      cases t with
      | nil => rfl
      | cons b t => exact ih t

/-- The bytes of a character by its number. -/
lemma encodeChar_ofNat {n : Nat} (h : n.isValidChar) :
    String.utf8EncodeChar (Char.ofNat n) =
      if n ≤ 0x7f then [UInt8.ofNat n]
      else if n ≤ 0x7ff then [UInt8.ofNat (n / 64 % 32 + 192), UInt8.ofNat (n % 64 + 128)]
      else if n ≤ 0xffff then
        [UInt8.ofNat (n / 4096 % 16 + 224), UInt8.ofNat (n / 64 % 64 + 128),
          UInt8.ofNat (n % 64 + 128)]
      else
        [UInt8.ofNat (n / 262144 % 8 + 240), UInt8.ofNat (n / 4096 % 64 + 128),
          UInt8.ofNat (n / 64 % 64 + 128), UInt8.ofNat (n % 64 + 128)] := by
  have hn : (Char.ofNat n).val.toNat = n := by
    rw [Char.ofNat, dif_pos h]
    rfl
  simp only [String.utf8EncodeChar, hn]

lemma toNat_ite (b k x y : UInt8) : (if b == k then x else y : UInt8).toNat
    = if b.toNat = k.toNat then x.toNat else y.toNat := by
  simp only [beq_iff_eq, ← UInt8.toNat_inj, apply_ite UInt8.toNat]

/-- The first item has the bytes that it takes. -/
lemma bytes_first (b : UInt8) (t : Text) :
    (first b t).1.bytes ++ t.drop (first b t).2 = b :: t := by
  have hbyte : ∀ {n : Nat} {x : UInt8}, n = x.toNat → UInt8.ofNat n = x := by
    rintro _ x rfl
    exact UInt8.ofNat_toNat
  unfold first
  split
  · next hb =>
      have hb : b.toNat < 0x80 := hb
      simp only [Item.bytes, List.drop_zero]
      rw [encodeChar_ofNat (Or.inl (by omega)), if_pos (by omega), hbyte rfl]
      rfl
  split
  · next hb =>
      split
      case h_2 => rfl
      next c t =>
      split
      case isFalse => rfl
      next hc =>
      simp only [Bool.and_eq_true, decide_eq_true_eq, UInt8.le_iff_toNat_le, UInt8.toNat_ofNat,
        isContinuation_iff] at hb hc
      simp only [Item.bytes, List.drop_succ_cons, List.drop_zero, payload]
      rw [encodeChar_ofNat (Or.inl (by omega)), if_neg (by omega), if_pos (by omega),
        hbyte (x := b) (by omega), hbyte (x := c) (by omega)]
      rfl
  split
  · next hb =>
      split
      case h_2 => rfl
      next c d t =>
      dsimp only
      generalize hlo : (if b == 0xe0 then 0xa0 else 0x80 : UInt8) = lo
      generalize hhi : (if b == 0xed then 0x9f else 0xbf : UInt8) = hi
      have hlo := (toNat_ite b 0xe0 0xa0 0x80).symm.trans (congrArg UInt8.toNat hlo)
      have hhi := (toNat_ite b 0xed 0x9f 0xbf).symm.trans (congrArg UInt8.toNat hhi)
      split
      case isFalse => rfl
      next hc =>
      simp only [Bool.and_eq_true, decide_eq_true_eq, UInt8.le_iff_toNat_le, UInt8.toNat_ofNat,
        isContinuation_iff] at hb hc hlo hhi
      have hvalid : b.toNat % 16 * 4096 + c.toNat % 64 * 64 + d.toNat % 64 < 0xd800
          ∨ 0xdfff < b.toNat % 16 * 4096 + c.toNat % 64 * 64 + d.toNat % 64 := by
        split at hlo <;> split at hhi <;> omega
      have hlow : 0x7ff < b.toNat % 16 * 4096 + c.toNat % 64 * 64 + d.toNat % 64 := by
        split at hlo <;> split at hhi <;> omega
      have hc' : 0x80 ≤ c.toNat ∧ c.toNat ≤ 0xbf := by
        split at hlo <;> split at hhi <;> omega
      simp only [Item.bytes, List.drop_succ_cons, List.drop_zero, payload]
      rw [encodeChar_ofNat (by unfold Nat.isValidChar; omega), if_neg (by omega),
        if_neg (by omega), if_pos (by omega), hbyte (x := b) (by omega), hbyte (x := c) (by omega),
        hbyte (x := d) (by omega)]
      rfl
  split
  · next hb =>
      split
      case h_2 => rfl
      next c d e t =>
      dsimp only
      generalize hlo : (if b == 0xf0 then 0x90 else 0x80 : UInt8) = lo
      generalize hhi : (if b == 0xf4 then 0x8f else 0xbf : UInt8) = hi
      have hlo := (toNat_ite b 0xf0 0x90 0x80).symm.trans (congrArg UInt8.toNat hlo)
      have hhi := (toNat_ite b 0xf4 0x8f 0xbf).symm.trans (congrArg UInt8.toNat hhi)
      split
      case isFalse => rfl
      next hc =>
      simp only [Bool.and_eq_true, decide_eq_true_eq, UInt8.le_iff_toNat_le, UInt8.toNat_ofNat,
        isContinuation_iff] at hb hc hlo hhi
      have hvalid : b.toNat % 8 * 262144 + c.toNat % 64 * 4096 + d.toNat % 64 * 64 + e.toNat % 64
          < 0x110000 := by
        split at hlo <;> split at hhi <;> omega
      have hlow : 0xffff
          < b.toNat % 8 * 262144 + c.toNat % 64 * 4096 + d.toNat % 64 * 64 + e.toNat % 64 := by
        split at hlo <;> split at hhi <;> omega
      have hc' : 0x80 ≤ c.toNat ∧ c.toNat ≤ 0xbf := by
        split at hlo <;> split at hhi <;> omega
      simp only [Item.bytes, List.drop_succ_cons, List.drop_zero, payload]
      rw [encodeChar_ofNat (by unfold Nat.isValidChar; omega), if_neg (by omega),
        if_neg (by omega), if_neg (by omega), hbyte (x := b) (by omega), hbyte (x := c) (by omega),
        hbyte (x := d) (by omega), hbyte (x := e) (by omega)]
      rfl
  · rfl

/-- **Decoding loses no byte.** -/
theorem bytes_items (t : Text) : (items t).flatMap Item.bytes = t := by
  induction h : t.length using Nat.strongRecOn generalizing t with
  | ind n ih =>
      cases t with
      | nil => rfl
      | cons b t =>
          have hitems : items (b :: t) = (first b t).1 :: items (t.drop (first b t).2) := by
            rw [← itemsFrom_eq_drop]
            rfl
          have hrest := ih (t.drop (first b t).2).length (by simp at h ⊢; omega) _ rfl
          rw [hitems, List.flatMap_cons, hrest, bytes_first]

/-! ## Well-formed texts -/

lemma items_encode_append (xs : List Char) (t : Text) :
    items (encode xs ++ t) = xs.map .char ++ items t := by
  induction xs with
  | nil => rfl
  | cons x xs ih =>
      have hcons : encode (x :: xs) ++ t = String.utf8EncodeChar x ++ (encode xs ++ t) :=
        List.append_assoc _ _ _
      rw [hcons, items_encodeChar, ih]
      rfl

/-- **A text is well formed if it encodes characters.** -/
lemma valid_iff : valid t = true ↔ ∃ xs, t = encode xs := by
  constructor
  · intro h
    refine ⟨chars t, (bytes_items t).symm.trans ?_⟩
    unfold encode chars
    rw [List.flatMap_map, List.flatMap_def, List.flatMap_def]
    refine congrArg List.flatten (List.map_congr_left fun item hitem => ?_)
    have hchar := List.all_eq_true.mp h item hitem
    cases item with
    | char x => rfl
    | stray b => cases hchar
  · rintro ⟨xs, rfl⟩
    have hitems := items_encode_append xs []
    rw [List.append_nil] at hitems
    rw [valid, hitems]
    simp [items, itemsFrom, Item.isChar]

/-- Behind a well-formed text the next one begins. -/
lemma valid_append {s : Text} (hs : valid s = true) : valid (s ++ t) = valid t := by
  obtain ⟨xs, rfl⟩ := valid_iff.mp hs
  unfold valid
  rw [items_encode_append, List.all_append]
  simp [Item.isChar]

/-- A byte of ASCII is a character of its own. -/
lemma encodeChar_of_mem {x : Char} (hb : b.toNat < 0x80) (h : b ∈ String.utf8EncodeChar x) :
    String.utf8EncodeChar x = [b] := by
  unfold String.utf8EncodeChar at h ⊢
  generalize x.val.toNat = v at h ⊢
  have hbyte : ∀ {n : Nat}, n < 256 → 0x80 ≤ n → b ≠ UInt8.ofNat n := by
    rintro n hn hle rfl
    rw [UInt8.toNat_ofNat_of_lt' hn] at hb
    omega
  dsimp only at h ⊢
  split
  · next hv =>
      rw [if_pos hv, List.mem_singleton] at h
      rw [h]
  next hv =>
  rw [if_neg hv] at h
  exfalso
  split at h
  · simp only [List.mem_cons, List.not_mem_nil, or_false] at h
    rcases h with h | h <;> exact hbyte (by omega) (by omega) h
  split at h
  · simp only [List.mem_cons, List.not_mem_nil, or_false] at h
    rcases h with h | h | h <;> exact hbyte (by omega) (by omega) h
  · simp only [List.mem_cons, List.not_mem_nil, or_false] at h
    rcases h with h | h | h | h <;> exact hbyte (by omega) (by omega) h

lemma valid_encode (xs : List Char) : valid (encode xs) = true := valid_iff.mpr ⟨xs, rfl⟩

/-- **A well-formed text can be cut at a byte of ASCII.** -/
lemma valid_cut {s : Text} (hb : b.toNat < 0x80) (h : valid (s ++ b :: t) = true) :
    valid s = true ∧ valid t = true := by
  obtain ⟨xs, hxs⟩ := valid_iff.mp h
  clear h
  induction xs generalizing s with
  | nil => simp [encode] at hxs
  | cons x xs ih =>
      have hx : valid (String.utf8EncodeChar x) = true := by simpa [encode] using valid_encode [x]
      have hcons : s ++ b :: t = String.utf8EncodeChar x ++ encode xs := hxs
      rcases List.append_eq_append_iff.mp hcons with ⟨l, hchar, hbt⟩ | ⟨l, rfl, hrest⟩
      · cases l with
        | nil =>
            obtain ⟨-, ht⟩ := ih (s := []) hbt
            rw [List.append_nil] at hchar
            exact ⟨hchar ▸ hx, ht⟩
        | cons b' l =>
            -- the byte belongs to the first character, so it is all of it
            obtain ⟨rfl, rfl⟩ := List.cons.inj hbt
            have hone := encodeChar_of_mem (x := x) hb (by rw [hchar]; simp)
            rw [hone] at hchar
            obtain ⟨rfl, rfl⟩ : s = [] ∧ l = [] := by
              have := congrArg List.length hchar
              simp only [List.length_append, List.length_cons, List.length_nil] at this
              exact ⟨List.length_eq_zero_iff.mp (by omega), List.length_eq_zero_iff.mp (by omega)⟩
            exact ⟨rfl, valid_encode xs⟩
      · obtain ⟨hl, ht⟩ := ih hrest.symm
        exact ⟨(valid_append hx).trans hl, ht⟩

/-- Bytes below 128 are characters. -/
lemma valid_of_ascii (h : ∀ b ∈ t, b.toNat < 0x80) : valid t = true := by
  induction t with
  | nil => rfl
  | cons b t ih =>
      obtain ⟨hb, ht⟩ := List.forall_mem_cons.mp h
      have hitems : items (b :: t) = .char (Char.ofNat b.toNat) :: items t := by
        simp only [items, itemsFrom, first_one hb]
      rw [valid, hitems, List.all_cons]
      exact ih ht

end Utf8

end Suspension
