import Mathlib.Data.List.Infix
import Suspension.Proofs.Codec.Exactness

/-!
# The first failure sticks

A class is read without looking at failures in between: elements are read one after the other, vectors
element by element, and only at the end it is asked whether all went well.  So most of what is read after a
failure is read by code that does not know of it.  **Nothing happens there**: from the first failure on the
reader stands still, whatever it is used for, and every element is zero.

* `Goes` — what a use does to a reader without a failure: it takes bytes from the front, and a failure is
  recorded where the reader stands then, with the sections that are open.
* `Sticky`, `Sticky.bind` — a read that goes on and sticks, and reads put together.
* `Op`, `Visit`, `Op.course` — the uses of a reader, one after the other; a section can only be closed when
  one is open.
* `Op.course_sticks` — every course of uses, seen as a whole.
-/

namespace Suspension

namespace Reader

variable {α β : Type} {f : Read α} {g : α → Read β} {x : α} {z : α → β} {causes more : List ReadCause}
  {r r' r'' : Reader}

/-- The chain of sections as failures show it, outermost first. -/
def chain (sections : List Section) : Text :=
  Text.join (Text.ofString ": ") (sections.reverse.map Section.label)

/-! ## Reads that stick -/

/-- **What a read does to a reader without a failure.**  It takes bytes from the front; a failure that it
records has one of `causes`, and names the open sections and the position where the reader stays. -/
structure Goes (causes : List ReadCause) (r r' : Reader) : Prop where
  sections : r'.sections = r.sections
  taken : ∃ bs, r.rest = bs ++ r'.rest ∧ r'.position = r.position + bs.length
  recorded : ∀ e, r'.failure = some e →
    e.cause ∈ causes ∧ e.section_ = chain r.sections ∧ e.position = r'.position

lemma Goes.refl (h : r.failure = none) : Goes causes r r :=
  ⟨rfl, ⟨[], rfl, rfl⟩, fun e he => by simp [h] at he⟩

lemma Goes.trans (h : Goes causes r r') (h' : Goes causes r' r'') : Goes causes r r'' := by
  obtain ⟨bs, hrest, hposition⟩ := h.taken
  obtain ⟨cs, hrest', hposition'⟩ := h'.taken
  refine ⟨h'.sections.trans h.sections, ⟨bs ++ cs, ?_, ?_⟩, fun e he => ?_⟩
  · rw [hrest, hrest', List.append_assoc]
  · rw [hposition', hposition, List.length_append, Nat.add_assoc]
  · have hrecorded := h'.recorded e he
    rwa [h.sections] at hrecorded

lemma Goes.mono (h : Goes causes r r') (hmore : causes ⊆ more) : Goes more r r' :=
  ⟨h.sections, h.taken, fun e he => ⟨hmore (h.recorded e he).1, (h.recorded e he).2⟩⟩

/-- Failing where the reader stands. -/
lemma Goes.fail {cause : ReadCause} (h : r.failure = none) (hcause : cause ∈ causes) :
    Goes causes r (Reader.fail cause r).2 := by
  obtain ⟨rest, position, sections, failure⟩ := r
  obtain rfl : failure = none := h
  refine ⟨rfl, ⟨[], rfl, rfl⟩, ?_⟩
  rintro _ ⟨⟩
  exact ⟨hcause, rfl, rfl⟩

/-- **A read that sticks**: behind a failure it gives `zero` and leaves the reader as it is. -/
structure Sticky (causes : List ReadCause) (f : Read α) (zero : α) : Prop where
  kept : ∀ r : Reader, r.failure.isSome = true → f r = (zero, r)
  goes : ∀ r : Reader, r.failure = none → Goes causes r (f r).2

namespace Sticky

lemma mono (h : Sticky causes f x) (hmore : causes ⊆ more) : Sticky more f x :=
  ⟨h.kept, fun r hr => (h.goes r hr).mono hmore⟩

lemma pure (x : α) : Sticky causes (pure x) x := ⟨fun _ _ => rfl, fun _ hr => .refl hr⟩

/-- **Reads put together stick**, when what follows sticks whatever has been read before: a failure in the
middle leaves the rest of the read without effect. -/
lemma bind (hf : Sticky causes f x) (hg : ∀ y, Sticky causes (g y) (z y)) :
    Sticky causes (f >>= g) (z x) where
  kept r hr := by rw [Read.bind_apply, hf.kept r hr, (hg x).kept r hr]
  goes r hr := by
    rw [Read.bind_apply]
    have hfirst := hf.goes r hr
    cases hfailure : (f r).2.failure with
    | none => exact hfirst.trans ((hg _).goes _ hfailure)
    | some e =>
        rw [(hg _).kept _ (by rw [hfailure]; rfl)]
        exact hfirst

lemma fail (cause : ReadCause) : Sticky [cause] (Reader.fail cause) () where
  kept := by
    rintro ⟨rest, position, sections, _ | e⟩ hr
    · cases hr
    · rfl
  goes _ hr := .fail hr (List.mem_singleton.mpr rfl)

lemma unlessFailed (hf : ∀ r : Reader, r.failure = none → Goes causes r (f r).2) :
    Sticky causes (unlessFailed x f) x where
  kept r hr := by
    change (if r.failure.isSome then Pure.pure x else f : Read α) r = (x, r)
    rw [if_pos hr]
    rfl
  goes r hr := by
    change Goes causes r ((if r.failure.isSome then Pure.pure x else f : Read α) r).2
    rw [hr]
    exact hf r hr

lemma take (n : Nat) : Sticky [.endOfInput] (Reader.take n) none where
  kept := by
    rintro ⟨rest, position, sections, _ | e⟩ hr
    · cases hr
    · rfl
  goes r hr := by
    unfold Reader.take
    rw [hr]
    split
    · cases ‹none = some _›
    · split
      · next hlen =>
          refine ⟨rfl, ⟨r.rest.take n, (List.take_append_drop n r.rest).symm, ?_⟩, fun e he => ?_⟩
          · have hn := (hasAtLeast_iff n r.rest).mp hlen
            simp [hn]
          · cases he
      · exact .fail hr (List.mem_singleton.mpr rfl)

lemma byte : Sticky [.endOfInput] Reader.byte 0 := by
  rw [byte_eq]
  exact (take 1).bind fun o => .pure (theByte o)

lemma fixed32 : Sticky [.endOfInput] Reader.fixed32 0 := by
  rw [fixed32_eq]
  exact (take 4).bind fun o => .pure (theWord o)

lemma fixed64 : Sticky [.endOfInput] Reader.fixed64 0 := by
  have hword (lo : UInt32) : Sticky [.endOfInput]
      (Reader.fixed32 >>= fun hi => Pure.pure (UInt64.ofNat (lo.toNat + hi.toNat * 4294967296)))
      (UInt64.ofNat lo.toNat) := by
    have hhigh (hi : UInt32) : Sticky [.endOfInput]
        (Pure.pure (UInt64.ofNat (lo.toNat + hi.toNat * 4294967296)) : Read UInt64) _ := pure _
    simpa only [UInt32.toNat_zero, Nat.zero_mul, Nat.add_zero] using fixed32.bind hhigh
  exact fixed32.bind hword

/-- The groups of a number; the induction follows the bytes that are still allowed. -/
lemma lebGroups (fuel shift acc : Nat) :
    Sticky [.endOfInput, .overflow] (Reader.lebGroups fuel shift acc) none := by
  induction fuel generalizing shift acc with
  | zero => exact ((fail .overflow).mono (by simp)).bind fun _ => .pure none
  | succ fuel ih =>
      rw [lebGroups_succ]
      refine (byte.mono (by simp)).bind (z := fun _ => none) fun b => .unlessFailed fun r hr => ?_
      split
      · exact .refl hr
      · exact (ih _ _).goes r hr

/-- A number that is read by its groups. -/
lemma leb {most : Nat} (x : α) (F : Nat → Nat → UInt8 → α) :
    Sticky [.endOfInput, .overflow] (Reader.lebGroups most 0 0 >>= fun o => Pure.pure (theNumber x F o)) x :=
  (lebGroups most 0 0).bind (z := theNumber x F) fun _ => .pure _

lemma u32 : Sticky [.endOfInput, .overflow] Reader.u32 0 := by
  rw [u32_eq]
  exact leb _ _

lemma s32 : Sticky [.endOfInput, .overflow] Reader.s32 0 := by
  rw [s32_eq]
  exact leb _ _

lemma s64 : Sticky [.endOfInput, .overflow] Reader.s64 0 := by
  rw [s64_eq]
  exact leb _ _

lemma count (least : Nat) : Sticky [.endOfInput, .overflow, .tooLong] (Reader.count least) 0 where
  kept r hr := by
    rw [count_of_u32 least (u32.kept r hr), if_pos hr]
    rfl
  goes r hr := by
    have hnumber : Goes [.endOfInput, .overflow, .tooLong] r (Reader.u32 r).2 :=
      (u32.goes r hr).mono (by simp)
    rw [count_of_u32 least (Prod.mk.eta (p := Reader.u32 r)).symm]
    cases hfailure : (Reader.u32 r).2.failure with
    | some e =>
        rw [if_pos (by rfl)]
        exact hnumber
    | none =>
        rw [if_neg (by simp)]
        split
        · exact hnumber
        · exact hnumber.trans (.fail hfailure (by simp))

/-- The same read several times over. -/
lemma times (hf : Sticky causes f x) (n : Nat) :
    Sticky causes (Reader.times n f) (List.replicate n x) := by
  induction n with
  | zero => exact .pure []
  | succ n ih =>
      exact hf.bind (z := fun y => y :: List.replicate n x) fun y => ih.bind fun ys => .pure (y :: ys)

lemma theText (o : Option Bytes) :
    Sticky [.invalidName] (theText o) ((o.filter Utf8.valid).getD []) := by
  match o with
  | none => exact .pure []
  | some t =>
      by_cases ht : Utf8.valid t = true
      · simp only [Suspension.theText, Option.filter, ht, if_true]
        exact .pure t
      · simp only [Suspension.theText, Option.filter, ht]
        exact (fail .invalidName).bind fun _ => .pure []

lemma name : Sticky [.endOfInput, .overflow, .tooLong, .invalidName] Reader.name [] := by
  rw [name_eq]
  refine ((count 1).mono (by simp)).bind (z := fun _ => []) fun n => ?_
  exact ((take n).mono (by simp)).bind fun o => (theText o).mono (by simp)

lemma names : Sticky [.endOfInput, .overflow, .tooLong, .invalidName] Reader.names [] :=
  ((count 1).mono (by simp)).bind fun n => name.times n

lemma finish : Sticky [.trailing] Reader.finish () where
  kept r hr := by
    have hfail := (fail .trailing).kept r hr
    unfold Reader.finish
    change (if r.rest.isEmpty then Pure.pure () else Reader.fail .trailing : Read Unit) r = ((), r)
    split
    · rfl
    · exact hfail
  goes r hr := by
    change Goes [.trailing] r ((if r.rest.isEmpty then Pure.pure () else Reader.fail .trailing : Read Unit) r).2
    split
    · exact .refl hr
    · exact .fail hr (List.mem_singleton.mpr rfl)

end Sticky

/-- **A length that is accepted fits in what is left.** -/
lemma count_le {least n : Nat} (h : Reader.count least r = (n, r')) (hfine : r'.failure = none) :
    n * least ≤ r'.rest.length := by
  rw [count_of_u32 least (Prod.mk.eta (p := Reader.u32 r)).symm] at h
  split at h
  · obtain ⟨rfl, -⟩ := Prod.mk.inj h
    simp
  · split at h
    · next hlen =>
        obtain ⟨rfl, rfl⟩ := Prod.mk.inj h
        exact (hasAtLeast_iff _ _).mp hlen
    · obtain ⟨rfl, -⟩ := Prod.mk.inj h
      simp

/-! ## Uses of a reader -/

/-- **A use of a reader.**  An element of a vector with a negative index is a section without one, and a
least size that is not positive asks for nothing. -/
inductive Op where
  | enter (name : Text)
  | enterItem (name : Text) (i : Int)
  | leave
  | fail (cause : ReadCause)
  | finish
  | byte
  | fixed32
  | fixed64
  | u32
  | s32
  | s64
  | count (least : Int)
  | name
  | names
deriving DecidableEq

/-- What a use gives. -/
inductive Answer where
  | nothing
  | byte (b : UInt8)
  | word32 (v : UInt32)
  | word64 (v : UInt64)
  | int32 (v : Int32)
  | int64 (v : Int64)
  | length (n : Nat)
  | text (t : Text)
  | texts (ts : List Text)
deriving DecidableEq

/-- **Zero values**, one for each kind of element. -/
def Answer.zeros : List Answer :=
  [.nothing, .byte 0, .word32 0, .word64 0, .int32 0, .int64 0, .length 0, .text [], .texts []]

namespace Op

/-- The section of a vector's element. -/
def openItem (t : Text) (i : Int) : Read Unit :=
  if i < 0 then Reader.enter t else Reader.enterItem t i.toNat

lemma openItem_eq (t : Text) (i : Int) :
    ∃ s : Section, openItem t i = modify fun r => { r with sections := s :: r.sections } := by
  unfold openItem
  split <;> exact ⟨_, rfl⟩

/-- What a use does when it is possible. -/
def read : Op → Read Answer
  | .enter t => do Reader.enter t; return .nothing
  | .enterItem t i => do openItem t i; return .nothing
  | .leave => do Reader.leave; return .nothing
  | .fail cause => do Reader.fail cause; return .nothing
  | .finish => do Reader.finish; return .nothing
  | .byte => return .byte (← Reader.byte)
  | .fixed32 => return .word32 (← Reader.fixed32)
  | .fixed64 => return .word64 (← Reader.fixed64)
  | .u32 => return .word32 (← Reader.u32)
  | .s32 => return .int32 (← Reader.s32)
  | .s64 => return .int64 (← Reader.s64)
  | .count least => return .length (← Reader.count least.toNat)
  | .name => return .text (← Reader.name)
  | .names => return .texts (← Reader.names)

/-- The failures that a use may record. -/
def records : Op → List ReadCause
  | .enter _ | .enterItem _ _ | .leave => []
  | .fail cause => [cause]
  | .finish => [.trailing]
  | .byte | .fixed32 | .fixed64 => [.endOfInput]
  | .u32 | .s32 | .s64 => [.endOfInput, .overflow]
  | .count _ => [.endOfInput, .overflow, .tooLong]
  | .name | .names => [.endOfInput, .overflow, .tooLong, .invalidName]

/-- Uses that open a section. -/
def opens : Op → Bool
  | .enter _ | .enterItem _ _ => true
  | _ => false

/-- The use that closes a section. -/
def closes (op : Op) : Bool := op = .leave

/-- **No more sections are closed than are opened**, up to any moment, where `n` are open at first. -/
def Nested (n : Nat) (ops : List Op) : Prop :=
  ∀ before, before <+: ops → before.countP closes ≤ n + before.countP opens

instance (n : Nat) (ops : List Op) : Decidable (Nested n ops) :=
  decidable_of_iff (∀ before ∈ ops.inits, before.countP closes ≤ n + before.countP opens) (by
    simp only [List.mem_inits, Nested])

/-- A use with the reader in front of it and behind it. -/
structure Visit where
  op : Op
  before : Reader
  answer : Answer
  after : Reader

/-- **Uses one after the other.**  There is no such course when a section is closed and none is open. -/
def course : List Op → Reader → Option (List Visit)
  | [], _ => some []
  | op :: ops, r =>
    if op = .leave ∧ r.sections = [] then none
    else (course ops (op.read r).2).map (⟨op, r, (op.read r).1, (op.read r).2⟩ :: ·)

/-! ## Courses -/

/-- **A reader within some data**: what is left is what stands behind its position. -/
structure Within (data : Bytes) (r : Reader) : Prop where
  position : r.position ≤ data.length
  rest : r.rest = data.drop r.position

/-- **What a single use does**, when `data` is read.  The reader stays within the data and never goes back;
a failure that there is, is kept; a failure that is recorded is the use's own, in the sections that are open
then and at the position where the reader stays; and a length that is accepted fits in what is left. -/
structure Visit.Sound (data : Bytes) (v : Visit) : Prop where
  within : Within data v.after
  forward : v.before.position ≤ v.after.position
  kept : v.before.failure ≠ none → v.after.failure = v.before.failure
    ∧ v.after.position = v.before.position ∧ v.answer ∈ Answer.zeros
  recorded : v.before.failure = none → ∀ e, v.after.failure = some e →
    e.cause ∈ v.op.records ∧ e.section_ = chain v.before.sections ∧ e.position = v.after.position
  fits : ∀ least, v.op = .count least → 0 < least → v.after.failure = none →
    ∃ n : Nat, v.answer = .length n ∧ (n : Int) ≤ v.after.rest.length / least

/-- **What an earlier use means for a later one**: the reader has not gone back, and from the first failure
on it stands still and all is zero. -/
structure Visit.Sticks (u v : Visit) : Prop where
  forward : u.after.position ≤ v.after.position
  kept : ∀ e, u.after.failure = some e →
    v.after.failure = some e ∧ v.after.position = u.after.position ∧ v.answer ∈ Answer.zeros

variable {data : Bytes} {r r' : Reader} {op : Op} {ops : List Op} {vs : List Visit} {n : Nat}

lemma Within.goes (h : Within data r) {causes : List ReadCause} (hgoes : Goes causes r r') :
    Within data r' := by
  obtain ⟨bs, hrest, hposition⟩ := hgoes.taken
  have hdrop : data.drop r.position = bs ++ r'.rest := h.rest.symm.trans hrest
  have hlength := congrArg List.length hdrop
  rw [List.length_drop, List.length_append] at hlength
  have hle := h.position
  refine ⟨by omega, ?_⟩
  rw [hposition, ← List.drop_drop, hdrop, List.drop_left]

/-- **What is no use of the sections is a read that sticks**, with a zero value. -/
lemma sticky (hopens : op.opens = false) (hcloses : op.closes = false) :
    ∃ a ∈ Answer.zeros, Sticky op.records op.read a := by
  cases op with
  | enter | enterItem => cases hopens
  | leave => cases hcloses
  | fail cause => exact ⟨.nothing, by decide, (Sticky.fail cause).bind fun _ => .pure _⟩
  | finish => exact ⟨.nothing, by decide, Sticky.finish.bind fun _ => .pure _⟩
  | byte => exact ⟨.byte 0, by decide, Sticky.byte.bind fun _ => .pure _⟩
  | fixed32 => exact ⟨.word32 0, by decide, Sticky.fixed32.bind fun _ => .pure _⟩
  | fixed64 => exact ⟨.word64 0, by decide, Sticky.fixed64.bind fun _ => .pure _⟩
  | u32 => exact ⟨.word32 0, by decide, Sticky.u32.bind fun _ => .pure _⟩
  | s32 => exact ⟨.int32 0, by decide, Sticky.s32.bind fun _ => .pure _⟩
  | s64 => exact ⟨.int64 0, by decide, Sticky.s64.bind fun _ => .pure _⟩
  | count least => exact ⟨.length 0, by decide, (Sticky.count _).bind fun _ => .pure _⟩
  | name => exact ⟨.text [], by decide, Sticky.name.bind fun _ => .pure _⟩
  | names => exact ⟨.texts [], by decide, Sticky.names.bind fun _ => .pure _⟩

/-- **A use of the sections** changes nothing else. -/
lemma touches (h : op.opens = true ∨ op.closes = true) (r : Reader) :
    ∃ sections, op.read r = (.nothing, { r with sections }) := by
  cases op with
  | enter | leave => exact ⟨_, rfl⟩
  | enterItem t i =>
      obtain ⟨s, hs⟩ := openItem_eq t i
      simp only [read, hs]
      exact ⟨_, rfl⟩
  | _ => simp [opens, closes] at h

/-- The open sections behind a use. -/
lemma length_sections (r : Reader) (op : Op) (h : op = .leave → r.sections ≠ []) :
    (op.read r).2.sections.length + op.closes.toNat = r.sections.length + op.opens.toNat := by
  by_cases hplain : op.opens = false ∧ op.closes = false
  · obtain ⟨a, -, hsticky⟩ := sticky hplain.1 hplain.2
    rw [hplain.1, hplain.2]
    cases hfailure : r.failure with
    | none => rw [(hsticky.goes r hfailure).sections]
    | some e => rw [hsticky.kept r (by rw [hfailure]; rfl)]
  · cases op with
    | enter => rfl
    | leave =>
        obtain ⟨s, sections, hs⟩ := List.exists_cons_of_ne_nil (h rfl)
        change (r.sections.drop 1).length + 1 = _
        simp [hs, opens]
    | enterItem t i =>
        obtain ⟨s, hs⟩ := openItem_eq t i
        simp only [read, hs]
        rfl
    | _ => simp [opens, closes] at hplain

/-- **Every use is sound.** -/
lemma sound (hr : Within data r) (op : Op) :
    Visit.Sound data ⟨op, r, (op.read r).1, (op.read r).2⟩ := by
  by_cases hplain : op.opens = false ∧ op.closes = false
  · obtain ⟨a, ha, hsticky⟩ := sticky hplain.1 hplain.2
    cases hfailure : r.failure with
    | none =>
        have hgoes := hsticky.goes r hfailure
        obtain ⟨bs, -, hposition⟩ := hgoes.taken
        refine ⟨hr.goes hgoes, ?_, fun hne => absurd hfailure hne, fun _ => hgoes.recorded, ?_⟩
        · simp only [hposition, Nat.le_add_right]
        · rintro least rfl hpos hfine
          refine ⟨_, rfl, ?_⟩
          have hle := count_le (Prod.mk.eta (p := Reader.count least.toNat r)).symm hfine
          rw [Int.le_ediv_iff_mul_le hpos, ← Int.toNat_of_nonneg hpos.le]
          exact_mod_cast hle
    | some e =>
        have hkept := hsticky.kept r (by rw [hfailure]; rfl)
        simp only [hkept]
        refine ⟨hr, Nat.le_refl _, fun _ => ⟨rfl, rfl, ha⟩, fun hnone => ?_, fun least _ _ hnone => ?_⟩
        · simp [hfailure] at hnone
        · simp [hfailure] at hnone
  · have huse : op.opens = true ∨ op.closes = true := by
      cases ho : op.opens <;> cases hc : op.closes <;> simp_all
    obtain ⟨sections, htouches⟩ := touches huse r
    simp only [htouches]
    refine ⟨⟨hr.position, hr.rest⟩, Nat.le_refl _, fun _ => ⟨rfl, rfl, .head _⟩, fun hnone e he => ?_, ?_⟩
    · exact absurd (he.symm.trans hnone) (by simp)
    · rintro least rfl
      simp [opens, closes] at hplain

/-- **A reader that stands within the data is used**: all its uses are sound, and what it has in front of
them is still so behind them. -/
lemma sound_course (hr : Within data r) (h : course ops r = some vs) :
    (∀ v ∈ vs, Visit.Sound data v ∧ r.position ≤ v.after.position
        ∧ ∀ e, r.failure = some e →
          v.after.failure = some e ∧ v.after.position = r.position ∧ v.answer ∈ Answer.zeros)
      ∧ vs.Pairwise Visit.Sticks := by
  induction ops generalizing r vs with
  | nil =>
      cases h
      simp
  | cons op ops ih =>
      unfold course at h
      split at h
      · cases h
      · obtain ⟨vs, hvs, rfl⟩ := Option.map_eq_some_iff.mp h
        have hsound := sound hr op
        obtain ⟨hall, hpairs⟩ := ih hsound.within hvs
        refine ⟨fun v hv => ?_, List.pairwise_cons.mpr ⟨fun v hv => ?_, hpairs⟩⟩
        · rcases List.mem_cons.mp hv with rfl | hv
          · refine ⟨hsound, hsound.forward, fun e he => ?_⟩
            obtain ⟨hfailure, hrest⟩ := hsound.kept (by rw [he]; simp)
            exact ⟨hfailure.trans he, hrest⟩
          · obtain ⟨hv, hforward, hkept⟩ := hall v hv
            refine ⟨hv, hsound.forward.trans hforward, fun e he => ?_⟩
            obtain ⟨hfailure, hposition, -⟩ := hsound.kept (by rw [he]; simp)
            obtain ⟨hlater, hlast, hzero⟩ := hkept e (hfailure.trans he)
            exact ⟨hlater, hlast.trans hposition, hzero⟩
        · obtain ⟨-, hforward, hkept⟩ := hall v hv
          exact ⟨hforward, hkept⟩

lemma Nested.head (h : Nested n (op :: ops)) (hop : op = .leave) : 0 < n := by
  subst hop
  have hle := h [.leave] (List.prefix_append [Op.leave] ops)
  simpa [closes, opens, Nat.one_le_iff_ne_zero, Nat.pos_iff_ne_zero] using hle

lemma Nested.tail {m : Nat} (h : Nested n (op :: ops)) (hm : m + op.closes.toNat = n + op.opens.toNat) :
    Nested m ops := by
  intro before hbefore
  have hle := h (op :: before) (List.cons_prefix_cons.mpr ⟨rfl, hbefore⟩)
  rw [List.countP_cons, List.countP_cons] at hle
  cases hc : op.closes <;> cases ho : op.opens <;> simp [hc, ho] at hle hm <;> omega

/-- **As long as sections are nested, every use is possible.** -/
lemma exists_course (h : Nested r.sections.length ops) :
    ∃ vs, course ops r = some vs ∧ vs.map Visit.op = ops := by
  induction ops generalizing r with
  | nil => exact ⟨[], rfl, rfl⟩
  | cons op ops ih =>
      have hopen : op = .leave → r.sections ≠ [] := fun hop hnil =>
        absurd (h.head hop) (by simp [hnil])
      obtain ⟨vs, hvs, hops⟩ := ih (h.tail (length_sections r op hopen))
      refine ⟨⟨op, r, (op.read r).1, (op.read r).2⟩ :: vs, ?_, by rw [List.map_cons, hops]⟩
      unfold course
      rw [if_neg fun hleave => hopen hleave.1 hleave.2, hvs]
      rfl

/-- **The first failure sticks.**  Whatever bytes are read, and however a reader is used as long as no more
sections are closed than are open: every use is possible; the reader stays within the data and never goes
back; a failure is recorded once, with its cause, the sections that are open and the position; and behind it
the reader stands still and every element is zero.  A length that is accepted is at most what is left,
divided by the least size of an element. -/
theorem course_sticks (data : Bytes) (ops : List Op) (h : Nested 0 ops) :
    ∃ vs, course ops (.ofBytes data) = some vs ∧ vs.map Visit.op = ops
      ∧ (∀ v ∈ vs, Visit.Sound data v) ∧ vs.Pairwise Visit.Sticks := by
  obtain ⟨vs, hvs, hops⟩ := exists_course (r := .ofBytes data) h
  have hwithin : Within data (.ofBytes data) := ⟨Nat.zero_le _, rfl⟩
  obtain ⟨hall, hpairs⟩ := sound_course hwithin hvs
  exact ⟨vs, hvs, hops, fun v hv => (hall v hv).1, hpairs⟩

/-- Uses that go on behind a failure: the second word of eight bytes is cut off. -/
def interrupted : List Op :=
  [.enter "class", .names, .enterItem "field" 0, .fixed64, .u32, .leave, .fail .trailing, .count 3, .leave,
    .names, .finish]

/-- The failure of the interrupted word is the one that is kept, although the section has been closed and
another failure was to be recorded; four bytes of the word are taken. -/
theorem interrupted_sticks :
    Nested 0 interrupted ∧ ∃ vs, course interrupted (.ofBytes [1, 1, 65, 1, 2, 3, 4, 5]) = some vs
      ∧ vs.map Visit.op = interrupted
      ∧ (∀ v ∈ vs, Visit.Sound [1, 1, 65, 1, 2, 3, 4, 5] v) ∧ vs.Pairwise Visit.Sticks
      ∧ vs.getLast?.bind (·.after.failure) = some ⟨.endOfInput, "class: field 0", 7⟩ := by
  have hnested : Nested 0 interrupted := by decide
  obtain ⟨vs, hvs, hops, hsound, hsticks⟩ := course_sticks [1, 1, 65, 1, 2, 3, 4, 5] interrupted hnested
  refine ⟨hnested, vs, hvs, hops, hsound, hsticks, ?_⟩
  have hlast : (course interrupted (.ofBytes [1, 1, 65, 1, 2, 3, 4, 5])).bind
      (fun vs => vs.getLast?.bind (·.after.failure)) = some ⟨.endOfInput, "class: field 0", 7⟩ := by
    decide +kernel
  rwa [hvs] at hlast

end Op

end Reader

end Suspension
