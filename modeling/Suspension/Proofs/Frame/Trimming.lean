import Suspension.Proofs.Frame.Moving
import Suspension.Proofs.Frame.Thinning

/-!
# Frames without locals that end up unusable

While an analysis goes on, a local may hold something that its position will not be known for in the end.
Such locals are trimmed from a frame before it is compared with one of another method.  **What two frames come
to where they meet is below whatever both are below**, also when the frames are trimmed, stacks are thinned
and constructions have moved.

* `Frame.trim`, `Frame.Transition.trim` — a frame without those locals.
* `Frame.Below.trim_left`, `Frame.Below.trim_mono` — how it compares.
* `Frame.Below.thin`, `Frame.Spares.of_below` — stacks that compare lack the same slots.
* `Frame.image`, `Frame.Joins.image_least` — thinned, and moved.
-/

namespace Suspension

/-- A slot, unless another one is unusable. -/
def SlotType.trim (t u : SlotType) : SlotType := if u = .unusable then .unusable else t

/-- **A frame without the locals that are unusable in another one.** -/
def Frame.trim (f g : Frame) : Frame := ⟨Array.zipWith SlotType.trim f.locals g.locals, f.stack⟩

/-- An instruction reads a local. -/
inductive Instruction.Reads (instr : Instruction) (n : UInt32) : Prop where
  | load {k : Kind} (hop : instr.opcode = .load k) (ho : instr.operand = .slot n)
  | increment {delta : Int32} (hop : instr.opcode = .increment) (ho : instr.operand = .increment n delta)

namespace SlotType

variable {t u : SlotType} {n : Nat}

@[simp] lemma trim_self (t : SlotType) : t.trim t = t := by
  unfold trim
  split
  · next h => exact h.symm
  · rfl

lemma trim_of_ne (h : u ≠ .unusable) : t.trim u = t := if_neg h

lemma completed_eq_unusable : Frame.completed n u = .unusable ↔ u = .unusable := by
  cases u with
  | pending m cls copied =>
      simp only [Frame.completed]
      split <;> simp
  | _ => simp [Frame.completed]

@[simp] lemma trim_completed (n : Nat) (t u : SlotType) : t.trim (Frame.completed n u) = t.trim u := by
  unfold trim
  simp only [completed_eq_unusable]

@[simp] lemma completed_trim (n : Nat) (t u : SlotType) :
    Frame.completed n (t.trim u) = (Frame.completed n t).trim u := by
  unfold trim
  split <;> rfl

end SlotType

namespace Frame

open SlotType

variable {sites sites' : List Site} {position : Nat} {instr : Instruction} {f f' g g' : Frame}

@[simp] lemma trim_self (f : Frame) : f.trim f = f := by
  unfold Frame.trim
  rw [Array.zipWith_self]
  simp

@[simp] lemma trim_stack (f g : Frame) : (f.trim g).stack = f.stack := rfl

/-! ## Instructions -/

/-- What an instruction takes and puts depends on the locals that it reads. -/
lemma Shape.congr {L L' : Array SlotType} {used put : List SlotType} (h : Shape instr L used put)
    (hreads : ∀ n t, instr.Reads n → L[n.toNat]? = some t → L'[n.toNat]? = some t) :
    Shape instr L' used put := by
  cases h with
  | load hop ho ht hk => exact .load hop ho (hreads _ _ (.load hop ho) ht) hk
  | increment hop ho ht hk => exact .increment hop ho (hreads _ _ (.increment hop ho) ht) hk
  | idle hop => exact .idle hop
  | null hop => exact .null hop
  | text hop => exact .text hop
  | element hop hi ha => exact .element hop hi ha
  | array hop ho hn => exact .array hop ho hn
  | refArray hop ho hn => exact .refArray hop ho hn
  | cast hop ho ht => exact .cast hop ho ht
  | pop hop => exact .pop hop
  | pop2 hop => exact .pop2 hop
  | dup hop => exact .dup hop
  | dupX1 hop => exact .dupX1 hop
  | dupX2 hop => exact .dupX2 hop
  | dup2 hop => exact .dup2 hop
  | swap hop => exact .swap hop
  | getStatic hop ho => exact .getStatic hop ho
  | putStatic hop ho ht => exact .putStatic hop ho ht
  | getField hop ho hobj => exact .getField hop ho hobj
  | putField hop ho ht hobj => exact .putField hop ho ht hobj
  | call hop ho hd hargs hrecv => exact .call hop ho hd hargs hrecv
  | fixed hop he hused => exact .fixed hop he hused

/-- **What an instruction reads is usable.** -/
lemma Transition.reads (h : Transition sites position instr g g') {n : UInt32} (hn : instr.Reads n) :
    ∃ u, g.locals[n.toNat]? = some u ∧ u ≠ .unusable := by
  cases h with
  | plain hs shape free =>
      cases shape with
      | load hop ho ht hk =>
          rcases hn with ⟨hop', ho'⟩ | ⟨hop', -⟩
          · rw [ho] at ho'
            cases ho'
            exact ⟨_, ht, usable_of_kind? hk⟩
          · rw [hop] at hop'
            cases hop'
      | increment hop ho ht hk =>
          rcases hn with ⟨hop', -⟩ | ⟨hop', ho'⟩
          · rw [hop] at hop'
            cases hop'
          · rw [ho] at ho'
            cases ho'
            exact ⟨_, ht, usable_of_kind? hk⟩
      | fixed hop =>
          rcases hn with ⟨hop', -⟩ | ⟨hop', -⟩
          all_goals
            rw [hop'] at hop
            cases hop
      | idle hop => rcases hn with ⟨hop', -⟩ | ⟨hop', -⟩ <;> simp [hop'] at hop
      | _ => rcases hn with ⟨hop', -⟩ | ⟨hop', -⟩ <;> simp_all
  | store hop | begin hop | copy hop | construct hop =>
      rcases hn with ⟨hop', -⟩ | ⟨hop', -⟩
      all_goals
        rw [hop] at hop'
        cases hop'

/-- Which locals are unusable changes by storing only. -/
lemma Transition.trim_locals (h : Transition sites position instr g g') (hop : ∀ k, instr.opcode ≠ .store k)
    (L : Array SlotType) :
    Array.zipWith SlotType.trim L g'.locals = Array.zipWith SlotType.trim L g.locals := by
  cases h with
  | store hop' => exact absurd hop' (hop _)
  | construct => simp [Array.zipWith_map_right]
  | _ => rfl

/-- **An instruction on a trimmed frame.** -/
lemma Transition.trim (h : Transition sites position instr f f') (h' : Transition sites' position instr g g') :
    Transition sites position instr (f.trim g) (f'.trim g') := by
  cases h with
  | @plain used put rest hs shape free =>
      unfold Frame.trim
      rw [h'.trim_locals shape.opcode_ne.1]
      refine .plain (f := f.trim g) hs (shape.congr fun n t hn ht => ?_) free
      obtain ⟨u, hu, hne⟩ := h'.reads hn
      simp [Frame.trim, Array.getElem?_zipWith, ht, hu, trim_of_ne hne]
  | @store k n t rest hop ho hs hn hk free =>
      cases h' with
      | @store k' n' u rest' hop' ho' hs' hn' hk' =>
          rw [ho] at ho'
          cases ho'
          have hlocals : Array.zipWith SlotType.trim (f.locals.set! n.toNat t) (g.locals.set! n.toNat u)
              = (f.trim g).locals.set! n.toNat t := by
            refine Array.ext_getElem? fun l => ?_
            simp only [Frame.trim, Array.set!_eq_setIfInBounds, Array.getElem?_zipWith,
              Array.getElem?_setIfInBounds, hn, hn', Array.size_zipWith, if_true]
            by_cases hl : n.toNat = l
            · simp [hl ▸ hn, hl ▸ hn', hl, trim_of_ne (usable_of_kind? hk')]
            · simp [hl]
          change Transition _ _ _ _ ⟨Array.zipWith SlotType.trim (f.locals.set! n.toNat t)
            (g.locals.set! n.toNat u), rest⟩
          rw [hlocals]
          exact .store hop ho hs (by simpa [Frame.trim] using ⟨hn, hn'⟩) hk free
      | plain _ shape => exact absurd hop (shape.opcode_ne.1 _)
      | begin hop' | copy hop' | construct hop' =>
          rw [hop] at hop'
          cases hop'
  | begin hop ho =>
      unfold Frame.trim
      rw [h'.trim_locals (by simp [hop])]
      exact .begin (f := f.trim g) hop ho
  | copy hop hs hc =>
      unfold Frame.trim
      rw [h'.trim_locals (by simp [hop])]
      exact .copy (f := f.trim g) hop hs hc
  | @construct m d args rest n cls copied hop ho hname hd hs hargs free hpair =>
      have hlocals : Array.zipWith SlotType.trim (f.locals.map (completed n)) g'.locals
          = (f.trim g).locals.map (completed n) := by
        rw [h'.trim_locals (by simp [hop])]
        simp [Frame.trim, Array.zipWith_map_left, Array.map_zipWith]
      change Transition _ _ _ _ ⟨Array.zipWith SlotType.trim (f.locals.map (completed n)) g'.locals, _⟩
      rw [hlocals]
      exact .construct hop ho hname hd hs hargs free hpair

/-! ## Comparing trimmed frames -/

namespace Below

variable {O O' : SlotOrder} {A : Frame}

/-- A trimmed frame is below what the frame itself is below. -/
lemma trim_left (h : f.Below O g) : (f.trim g).Below O g where
  stack := h.stack
  locals := by
    have hlocals := h.locals
    simp only [Frame.trim, Array.toList_zipWith]
    generalize f.locals.toList = ts at hlocals
    generalize g.locals.toList = us at hlocals
    induction hlocals with
    | nil => exact .nil
    | @cons t u ts us htu _ ih =>
        refine .cons ?_ ih
        unfold SlotType.trim
        split
        · next hu => exact hu ▸ .below (.same _)
        · exact htu

/-- **What is trimmed more is below**, where unusable locals are below all others. -/
lemma trim_mono (h : A.Below O g) (hlow : ¬ O.low) (hlow' : O'.low) (f : Frame) :
    (f.trim g).Below O' (f.trim A) where
  stack := List.forall₂_same.mpr fun t _ => .same t
  locals := by
    have hlocals := h.locals
    simp only [Frame.trim, Array.toList_zipWith]
    generalize f.locals.toList = ts
    generalize A.locals.toList = us at hlocals
    generalize g.locals.toList = ws at hlocals
    induction hlocals generalizing ts with
    | nil => simp
    | @cons u w us ws huw _ ih =>
        cases ts with
        | nil => exact .nil
        | cons t ts =>
            refine .cons ?_ (ih ts)
            unfold SlotType.trim
            split
            · exact .lower hlow'
            · next hw =>
                have hu : u ≠ .unusable := by
                  rintro rfl
                  cases huw with
                  | below h => exact hw h.unusable_left
                  | lower h => exact hlow h
                  | upper => exact hw rfl
                rw [if_neg hu]
                exact .below (.same t)

end Below

/-! ## Thinned frames -/

section Thin

variable {O : SlotOrder} {out : Nat → Bool} {t u : SlotType} {ts us : List SlotType}

/-- Slots that compare are missing together. -/
lemma absent?_eq (h : SlotType.Below O t u) (hout : ∀ n, out n = true → O.held n) :
    t.absent? out = u.absent? out := by
  have hnone : ∀ {t : SlotType}, t.Loose O.held → t.absent? out = none := by
    intro t ht
    cases t with
    | pending n cls copied =>
        by_cases hn : out n = true
        · exact absurd (hout n hn) ht
        · exact absent?_pending_none (by simpa using hn)
    | _ => rfl
  cases h with
  | same => rfl
  | ref _ _ _ ht hu => rw [hnone ht, hnone hu]

lemma present_below (h : List.Forall₂ (SlotType.Below O) ts us) (hout : ∀ n, out n = true → O.held n) :
    List.Forall₂ (SlotType.Below O) (present out ts) (present out us) := by
  induction h with
  | nil => exact .nil
  | @cons t u ts us htu _ ih =>
      unfold present at ih ⊢
      rw [List.filter_cons, List.filter_cons, absent?_eq htu hout]
      split
      · exact .cons htu ih
      · exact ih

/-- **Frames that compare do so when they are thinned**, if what is missing is held. -/
lemma Below.thin (h : f.Below O g) (hout : ∀ n, out n = true → O.held n) :
    (f.thin out).Below O (g.thin out) where
  stack := present_below h.stack hout
  locals := h.locals

/-- What spares the missing slots of a frame spares those of a frame below it. -/
lemma Spares.of_below (hs : Spares out sites position instr g) (h : f.Below O g)
    (hout : ∀ n, out n = true → O.held n) : Spares out sites position instr f where
  free := hs.free
  begins := hs.begins
  copies := hs.copies
  completes := by
    intro m n cls copied below hm hdrop
    by_contra hn
    have hn : out n = true := by simpa using hn
    have hstack := List.forall₂_drop (Descriptor.argCount m.desc).toNat h.stack
    rw [hdrop] at hstack
    generalize hus : g.stack.drop (Descriptor.argCount m.desc).toNat = us at hstack
    cases hstack with
    | @cons _ u _ us htu _ =>
        obtain rfl := htu.eq_of_not_loose fun hloose => hloose (hout n hn)
        simp [hs.completes m n cls copied us hm hus] at hn

end Thin

/-! ## Images -/

/-- **A frame in code that is laid out anew**: some slots of its stack are missing, its constructions have
moved, and there are more locals. -/
def image (out : Nat → Bool) (dest : Nat → Option Nat) (more : Array SlotType) (f : Frame) : Frame :=
  (f.thin out).moved dest more

section Image

variable {O P : SlotOrder} {out : Nat → Bool} {dest : Nat → Option Nat} {more : Array SlotType}
  {src : ClassSource} {V : ClassView} {U : ClassOrder src V} {held : Nat → Prop}
  {ts us rs ws ks : List SlotType} {t u r w x : SlotType}

/-- **An instruction that spares what is missing does to the image of a frame what it does to the frame.** -/
lemma Transition.image {S : List Site} {target : Nat} (h : Transition sites position instr f f')
    (hs : Spares out sites position instr f) (hlocals : ∀ t ∈ f.locals.toList, Site.Free sites t)
    (hdest : Moves dest held sites S instr position target) (hmore : ∀ t ∈ more.toList, Analysis.settle t = t)
    (hbuilds : U.Builds f) : ∃ g', Transition S target instr (f.image out dest more) g'
      ∧ g'.Below (.level U held) (f'.image out dest more) :=
  (h.thin hs hlocals).moved hdest hmore fun t ht => hbuilds t (List.mem_of_mem_filter ht)

/-- **Frames that compare have images that compare.** -/
lemma Below.image (h : f.Below P g) (hout : ∀ n, out n = true → P.held n)
    (hdest : ∀ n, Tracked dest n → P.held n) (hle : ∀ {c d}, P.le c d → O.le c d) (hlow : P.low → O.low)
    (hhigh : P.high → O.high) (more : Array SlotType) :
    (f.image out dest more).Below O (g.image out dest more) :=
  have hthin : (f.thin out).Below ⟨P.le, Tracked dest, P.low, P.high⟩ (g.thin out) :=
    (h.thin hout).mono id hdest id id
  hthin.moved rfl hle hlow hhigh more

/-- What slots come to has moved below whatever both have moved below. -/
lemma joins_moved {onStack : Bool} (h : SlotType.Joins src V onStack t u r) (htw : SlotType.Below P t w)
    (huw : SlotType.Below P u w) (hdest : ∀ n, Tracked dest n → P.held n) :
    SlotType.Joins src V onStack (t.moved dest) (u.moved dest) (r.moved dest) :=
  h.moved (fun hne => (SlotType.Joins.loose_of_ne hne htw huw).1.mono hdest)
    fun hne => (SlotType.Joins.loose_of_ne hne htw huw).2.1.mono hdest

lemma present_least (hP : P.le = U.le) (hO : O.le = U.le) (hout : ∀ n, out n = true → P.held n)
    (hdest : ∀ n, Tracked dest n → P.held n)
    (h : List.Forall₂ (fun tu r => SlotType.Joins src V true tu.1 tu.2 r) (ts.zip us) rs)
    (hts : List.Forall₂ (SlotType.Below P) ts ws) (hus : List.Forall₂ (SlotType.Below P) us ws)
    (ht : List.Forall₂ (SlotType.Below O) ((present out ts).map (·.moved dest)) ks)
    (hu : List.Forall₂ (SlotType.Below O) ((present out us).map (·.moved dest)) ks) :
    List.Forall₂ (SlotType.Below O) ((present out rs).map (·.moved dest)) ks := by
  induction hts generalizing us rs ks with
  | nil =>
      cases h
      exact ht
  | @cons t w ts ws htw _ ih =>
      cases hus with
      | @cons u _ us _ huw hus =>
          cases h with
          | @cons _ r _ rs hj h =>
              have htr := (absent?_eq htw hout).trans (absent?_eq (hj.least U hP htw huw) hout).symm
              have htu := (absent?_eq htw hout).trans (absent?_eq huw hout).symm
              unfold present at ih ht hu ⊢
              rw [List.filter_cons] at ht hu ⊢
              rw [← htr]
              rw [← htu] at hu
              split at ht
              · next hsome =>
                  rw [if_pos hsome] at hu ⊢
                  cases ht with
                  | cons ht hts =>
                      cases hu with
                      | cons hu hus' =>
                          exact .cons ((joins_moved hj htw huw hdest).least U hO ht hu) (ih h hus hts hus')
              · next hsome =>
                  rw [if_neg hsome] at hu ⊢
                  exact ih h hus ht hu

lemma trimmed_least (hO : O.le = U.le) (hlow : ¬ P.low) (hdest : ∀ n, Tracked dest n → P.held n)
    (h : List.Forall₂ (fun tu r => SlotType.Joins src V false tu.1 tu.2 r) (ts.zip us) rs)
    (hts : List.Forall₂ (SlotType.LocalBelow P) ts ws) (hus : List.Forall₂ (SlotType.LocalBelow P) us ws)
    (ht : List.Forall₂ (SlotType.LocalBelow O) ((List.zipWith SlotType.trim ts ws).map
      (·.moved dest) ++ more.toList) ks)
    (hu : List.Forall₂ (SlotType.LocalBelow O) ((List.zipWith SlotType.trim us ws).map
      (·.moved dest) ++ more.toList) ks) :
    List.Forall₂ (SlotType.LocalBelow O) ((List.zipWith SlotType.trim rs ws).map
      (·.moved dest) ++ more.toList) ks := by
  have hbelow : ∀ {t w : SlotType}, SlotType.LocalBelow P t w → w ≠ .unusable → SlotType.Below P t w := by
    intro t w htw hw
    cases htw with
    | below h => exact h
    | lower h => exact absurd h hlow
    | upper => exact absurd rfl hw
  induction hts generalizing us rs ks with
  | nil =>
      cases h
      exact ht
  | @cons t w ts ws htw _ ih =>
      cases hus with
      | @cons u _ us _ huw hus =>
          cases h with
          | @cons _ r _ rs hj h =>
              cases ht with
              | cons ht hts =>
                  cases hu with
                  | cons hu hus' =>
                      refine .cons ?_ (ih h hus hts hus')
                      by_cases hw : w = .unusable
                      · subst hw
                        exact ht
                      · rw [trim_of_ne hw] at ht hu ⊢
                        exact (joins_moved hj (hbelow htw hw) (hbelow huw hw) hdest).least_local U hO ht hu

/-- **What frames come to where they meet has its image below whatever theirs are below.** -/
lemma Joins.image_least {k : Frame} (h : Joins src V f g g') (hf : f.Below (.rising U held) f')
    (hg : g.Below (.rising U held) f') (hO : O.le = U.le) (hout : ∀ n, out n = true → held n)
    (hdest : ∀ n, Tracked dest n → held n) (hfk : ((f.trim f').image out dest more).Below O k)
    (hgk : ((g.trim f').image out dest more).Below O k) : ((g'.trim f').image out dest more).Below O k where
  stack := by
    have hreverse : ∀ ts : List SlotType,
        ((present out ts).map (·.moved dest)).reverse = (present out ts.reverse).map (·.moved dest) := by
      intro ts
      rw [← List.map_reverse, present, present, List.filter_reverse]
    have hfs := List.forall₂_reverse_iff.mpr hfk.stack
    have hgs := List.forall₂_reverse_iff.mpr hgk.stack
    refine List.forall₂_reverse_iff.mp ?_
    change List.Forall₂ _ ((present out _).map _).reverse _ at hfs hgs
    change List.Forall₂ _ ((present out _).map _).reverse _
    rw [hreverse] at hfs hgs ⊢
    exact present_least (P := .rising U held) rfl hO hout hdest h.stack
      (List.forall₂_reverse_iff.mpr hf.stack) (List.forall₂_reverse_iff.mpr hg.stack) hfs hgs
  locals := by
    have hfl := hfk.locals
    have hgl := hgk.locals
    simp only [image, Frame.thin, Frame.moved, Frame.trim, Array.toList_append, Array.toList_map,
      Array.toList_zipWith]
      at hfl hgl ⊢
    exact trimmed_least (P := .rising U held) hO id hdest h.locals hf.locals hg.locals hfl hgl

end Image

end Frame

end Suspension
