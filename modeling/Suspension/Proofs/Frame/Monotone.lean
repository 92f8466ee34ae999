import Suspension.Proofs.Frame.Order

/-!
# Instructions keep the order of frames

An instruction that is executed on two frames, one below the other, **leaves one below the other**.  There is
one exception to what the order of classes has to be for this: the elements of an array of which nothing is
known but that it is null are taken to be of any class, while those of a known array are of a known one.  So
arrays that are loaded from have to be such that loading keeps the order.

* `ClassOrder.LoadsFrom`, `ClassOrder.Builds` — the arrays that an instruction loads from, and the classes of
  pending constructions, are such.
* `Frame.Shape.below` — what is put on the stack.
* `Frame.Transition.below` — the effect on a whole frame.
-/

namespace Suspension

/-- **Loading keeps the order**: what an instruction loads elements from is among the arrays in question. -/
def ClassOrder.LoadsFrom {src : ClassSource} {V : ClassView} (U : ClassOrder src V) (instr : Instruction)
    (f : Frame) : Prop :=
  instr.opcode = .arrayLoad .ref → ∀ i array rest, f.stack = i :: array :: rest → U.loads array.typeName

/-- The construction of a slot, if it is pending, is of one of the classes that may be constructed. -/
def ClassOrder.BuildsSlot {src : ClassSource} {V : ClassView} (U : ClassOrder src V) (t : SlotType) : Prop :=
  ∀ n cls copied, t = .pending n cls copied → U.builds cls

/-- **All constructions pending on a stack are of classes that may be constructed.** -/
def ClassOrder.Builds {src : ClassSource} {V : ClassView} (U : ClassOrder src V) (f : Frame) : Prop :=
  ∀ t ∈ f.stack, U.BuildsSlot t

namespace Frame

variable {src : ClassSource} {V : ClassView} {U : ClassOrder src V} {O : SlotOrder} {instr : Instruction}
  {position : Nat}

lemma elementType_eq (t : SlotType) : elementType t = .ref (ClassName.element t.typeName) := by
  unfold elementType ClassName.element SlotType.ofDesc
  simp only
  split
  · next h => simp [show Descriptor.kind? (Descriptor.element t.typeName) = some Kind.ref by simpa using h]
  · rfl

/-- What a cast makes of a slot. -/
def castTo (cls : Text) (t : SlotType) : SlotType := if t.isNull then t else .ref cls

/-- What a cast makes of a reference that is no construction named like the null constant. -/
lemma castTo_eq {t : SlotType} {c cls : Text} (ht : Analysis.settle t = .ref c)
    (hne : ∀ n copied, t ≠ .pending n ClassName.null copied) :
    castTo cls t = .ref (if c = ClassName.null then ClassName.null else cls) := by
  unfold castTo
  cases t with
  | ref =>
      cases ht
      by_cases hc : c = ClassName.null
      · simp [SlotType.isNull, SlotType.null, hc]
      · simp [SlotType.isNull, SlotType.null, hc]
  | pending n d copied =>
      cases ht
      have hc : c ≠ ClassName.null := fun hc => hne n copied (hc ▸ rfl)
      simp [SlotType.isNull, SlotType.null, hc]
  | _ => cases ht

/-- **What an instruction puts on the stack**, from what it takes; what it loads from a local is apart. -/
def Shape.made (instr : Instruction) (used : List SlotType) : List SlotType :=
  match instr.opcode, instr.operand with
  | .pushNull, _ => [.null]
  | .ldc, _ => [.ref ClassName.string]
  | .arrayLoad .ref, _ => (used.drop 1).map elementType
  | .newArray, .type elem => [.ref (Text.ofString "[" ++ elem)]
  | .newRefArray, .type cls => [.ref (Text.ofString "[" ++ Descriptor.ofClass cls)]
  | .checkCast, .type cls => used.map (castTo cls)
  | .dup, _ | .dup2, _ => used ++ used
  | .dupX1, _ | .dupX2, _ => used ++ used.take 1
  | .swap, _ => used.reverse
  | .getStatic, .member m | .getField, .member m => [.ofDesc m.desc]
  | .invoke _, .member m =>
      match Descriptor.parseMethod m.desc with
      | .ok d => if d.isVoid then [] else [.ofDesc d.result]
      | .error _ => []
  | op, _ => (((op.effect?.map (·.pushes)).getD []).map SlotType.ofKind).reverse

lemma Shape.put_eq {locals : Array SlotType} {used put : List SlotType} (h : Shape instr locals used put)
    (hload : ∀ k, instr.opcode ≠ .load k) : put = made instr used := by
  obtain ⟨op, operand⟩ := instr
  cases h with
  | load hop => exact absurd hop (hload _)
  | idle hop => rcases hop with rfl | rfl <;> rfl
  | fixed hop he hused =>
      unfold made
      split <;> simp_all [Opcode.hasFixedEffect]
  | call hop ho hd =>
      obtain rfl := hop
      obtain rfl := ho
      simp [made, hd]
  | array hop ho | refArray hop ho | cast hop ho | getStatic hop ho | putStatic hop ho | getField hop ho
  | putField hop ho =>
      obtain rfl := hop
      obtain rfl := ho
      rfl
  | increment hop | element hop | null hop | text hop | pop hop | pop2 hop | dup hop | dupX1 hop
  | dupX2 hop | dup2 hop | swap hop =>
      obtain rfl := hop
      rfl

/-- Elements compare as their arrays do. -/
lemma below_elementType (hle : O.le = U.le) {t u : SlotType} (h : SlotType.Below O t u)
    (hloads : U.loads t.typeName) : SlotType.Below O (elementType t) (elementType u) := by
  cases h with
  | same => exact .same _
  | ref ht hu hcd =>
      rw [SlotType.typeName_of_settle ht] at hloads
      rw [elementType_eq, elementType_eq, SlotType.typeName_of_settle ht, SlotType.typeName_of_settle hu]
      rw [hle] at hcd
      exact .ref rfl rfl (hle ▸ U.element hloads hcd) trivial trivial

/-- What is cast is a reference. -/
lemma castTo_ref {t : SlotType} {cls : Text} : ∃ c, castTo cls t = .ref c := by
  unfold castTo
  split
  · next h => exact ⟨ClassName.null, eq_of_beq h⟩
  · exact ⟨cls, rfl⟩

/-- What is cast compares as before. -/
lemma below_castTo (hle : O.le = U.le) {t u : SlotType} {cls : Text} (h : SlotType.Below O t u)
    (ht : U.BuildsSlot t) (hu : U.BuildsSlot u) : SlotType.Below O (castTo cls t) (castTo cls u) := by
  cases h with
  | same => exact .same _
  | ref hct hcu hcd =>
      by_cases hnull : U.builds ClassName.null
      · obtain ⟨c, hc⟩ : ∃ c, castTo cls t = .ref c := castTo_ref
        obtain ⟨d, hd⟩ : ∃ d, castTo cls u = .ref d := castTo_ref
        rw [hc, hd]
        exact .ref rfl rfl (hle ▸ U.alike hnull c d) trivial trivial
      · rw [castTo_eq hct fun n copied h => hnull (ht n _ copied h),
          castTo_eq hcu fun n copied h => hnull (hu n _ copied h)]
        rw [hle] at hcd
        exact .ref rfl rfl (hle ▸ U.cast cls hcd) trivial trivial

/-- **What is put on the stack compares** as what is taken does. -/
lemma Shape.made_below (hle : O.le = U.le) {used used' : List SlotType}
    (h : List.Forall₂ (SlotType.Below O) used used')
    (hloads : instr.opcode = .arrayLoad .ref → ∀ t ∈ used.drop 1, U.loads t.typeName)
    (hbuilds : ∀ t ∈ used, U.BuildsSlot t) (hbuilds' : ∀ t ∈ used', U.BuildsSlot t) :
    List.Forall₂ (SlotType.Below O) (made instr used) (made instr used') := by
  have hsame : ∀ ts, List.Forall₂ (SlotType.Below O) ts ts :=
    fun ts => List.forall₂_same.mpr fun t _ => .same t
  unfold made
  split
  case h_3 hop =>
    have hrest := List.forall₂_drop 1 h
    have hloads := hloads hop
    generalize used.drop 1 = ts at hrest hloads
    generalize used'.drop 1 = us at hrest
    induction hrest with
    | nil => exact .nil
    | cons htu _ ih =>
        exact .cons (below_elementType hle htu (hloads _ (by simp))) (ih fun t ht => hloads t (by simp [ht]))
  case h_6 cls _ _ =>
    clear hloads
    induction h with
    | nil => exact .nil
    | cons htu _ ih =>
        exact .cons (below_castTo hle htu (hbuilds _ (by simp)) (hbuilds' _ (by simp)))
          (ih (fun t ht => hbuilds t (by simp [ht])) fun t ht => hbuilds' t (by simp [ht]))
  case h_7 | h_8 => exact List.rel_append h h
  case h_9 | h_10 => exact List.rel_append h (List.forall₂_take 1 h)
  case h_11 => exact List.rel_reverse h
  all_goals exact hsame _

/-- What an instruction loads from a local. -/
lemma Shape.of_load {locals : Array SlotType} {used put : List SlotType} {k : Kind}
    (h : Shape instr locals used put) (hop : instr.opcode = .load k) :
    ∃ n t, instr.operand = .slot n ∧ locals[n.toNat]? = some t ∧ t.kind? = some k ∧ used = [] ∧ put = [t] := by
  cases h with
  | @load k' n t hop' ho ht hk =>
      rw [hop] at hop'
      cases hop'
      exact ⟨n, t, ho, ht, hk, rfl, rfl⟩
  | _ => simp_all [Opcode.hasFixedEffect]

lemma usable_of_kind? {t : SlotType} {k : Kind} (h : t.kind? = some k) : t ≠ .unusable := by
  rintro rfl
  cases h

/-- **What an instruction puts on the stack compares**, if what it takes and the locals do. -/
lemma Shape.below (hle : O.le = U.le) {f g : Frame} {used used' put put' : List SlotType}
    (h : Shape instr f.locals used put) (h' : Shape instr g.locals used' put')
    (hlocals : List.Forall₂ (SlotType.LocalBelow O) f.locals.toList g.locals.toList)
    (hused : List.Forall₂ (SlotType.Below O) used used')
    (hloads : instr.opcode = .arrayLoad .ref → ∀ t ∈ used.drop 1, U.loads t.typeName)
    (hbuilds : ∀ t ∈ used, U.BuildsSlot t) (hbuilds' : ∀ t ∈ used', U.BuildsSlot t) :
    List.Forall₂ (SlotType.Below O) put put' := by
  by_cases hload : ∃ k, instr.opcode = .load k
  · obtain ⟨k, hop⟩ := hload
    obtain ⟨n, t, ho, ht, hk, -, rfl⟩ := h.of_load hop
    obtain ⟨n', u, ho', hu, hk', -, rfl⟩ := h'.of_load hop
    obtain rfl : n = n' := by
      rw [ho] at ho'
      cases ho'
      rfl
    have htu : SlotType.LocalBelow O t u := by
      obtain ⟨hlt, rfl⟩ := Array.getElem?_eq_some_iff.mp ht
      obtain ⟨hlt', rfl⟩ := Array.getElem?_eq_some_iff.mp hu
      simpa using (List.forall₂_iff_get.mp hlocals).2 n.toNat (by simpa using hlt) (by simpa using hlt')
    exact .cons (htu.below_of_usable (usable_of_kind? hk) (usable_of_kind? hk')) .nil
  · have hload : ∀ k, instr.opcode ≠ .load k := fun k hk => hload ⟨k, hk⟩
    rw [h.put_eq hload, h'.put_eq hload]
    exact made_below hle hused hloads hbuilds hbuilds'

/-! ## Whole frames -/

/-- Lists that compare do so piece by piece. -/
lemma forall₂_split {R : SlotType → SlotType → Prop} {ts us rest rest' : List SlotType}
    (h : List.Forall₂ R (ts ++ rest) (us ++ rest')) (hlen : ts.length = us.length) :
    List.Forall₂ R ts us ∧ List.Forall₂ R rest rest' := by
  have htake := List.forall₂_take us.length h
  have hdrop := List.forall₂_drop us.length h
  rw [← hlen, List.take_left, hlen, List.take_left] at htake
  rw [← hlen, List.drop_left, hlen, List.drop_left] at hdrop
  exact ⟨htake, hdrop⟩

lemma forall₂_map {R S : SlotType → SlotType → Prop} {F G : SlotType → SlotType} {ts us : List SlotType}
    (h : List.Forall₂ R ts us) (hmap : ∀ t u, R t u → S (F t) (G u)) :
    List.Forall₂ S (ts.map F) (us.map G) :=
  List.forall₂_map_left_iff.mpr (List.forall₂_map_right_iff.mpr (h.imp hmap))

/-- Setting one local on both sides. -/
lemma forall₂_set_each {R : SlotType → SlotType → Prop} {ts us : List SlotType} {t u : SlotType} (n : Nat)
    (h : List.Forall₂ R ts us) (htu : R t u) : List.Forall₂ R (ts.set n t) (us.set n u) := by
  induction h generalizing n with
  | nil => exact .nil
  | cons hab _ ih =>
      cases n with
      | zero => exact .cons htu ‹_›
      | succ n => exact .cons hab (ih n)

/-- Storing and beginning a construction are no taking and putting of slots. -/
lemma Shape.opcode_ne {locals : Array SlotType} {used put : List SlotType} (h : Shape instr locals used put) :
    (∀ k, instr.opcode ≠ .store k) ∧ instr.opcode ≠ .new := by
  cases h with
  | fixed hop =>
      refine ⟨fun k hk => ?_, fun hn => ?_⟩
      · rw [hk] at hop
        cases hop
      · rw [hn] at hop
        cases hop
  | idle hop => rcases hop with hop | hop <;> simp [hop]
  | _ => simp_all

/-- A reference that is below a pending construction, or above it, is so whether or not that is copied. -/
lemma below_copied {n : Nat} {cls : Text} {copied copied' : Bool} {t : SlotType} (hrefl : ∀ c, O.le c c)
    (ht : t.Loose O.held) (h : SlotType.Below O t (.pending n cls copied)) :
    SlotType.Below O t (.pending n cls copied') := by
  have hn := h.loose_iff.mp ht
  cases h with
  | same => exact .ref rfl rfl (hrefl _) hn hn
  | ref hc hd hcd => cases hd; exact .ref hc rfl hcd ht hn

lemma copied_below {n : Nat} {cls : Text} {copied copied' : Bool} {t : SlotType} (hrefl : ∀ c, O.le c c)
    (ht : t.Loose O.held) (h : SlotType.Below O (.pending n cls copied) t) :
    SlotType.Below O (.pending n cls copied') t := by
  have hn := h.loose_iff.mpr ht
  cases h with
  | same => exact .ref rfl rfl (hrefl _) hn hn
  | ref hc hd hcd => cases hc; exact .ref rfl hd hcd hn ht

/-- Two pending constructions that compare are the same, or none of them is held. -/
lemma eq_or_loose {n n' : Nat} {cls cls' : Text} {copied copied' : Bool}
    (h : SlotType.Below O (.pending n cls copied) (.pending n' cls' copied')) :
    n = n' ∨ (¬ O.held n ∧ ¬ O.held n') := by
  cases h with
  | same => exact Or.inl rfl
  | ref _ _ _ hn hn' => exact Or.inr ⟨hn, hn'⟩

/-- Completing a construction that is not held leaves locals where they are. -/
lemma below_completed_right {n : Nat} (hrefl : ∀ c, O.le c c) (hn : ¬ O.held n) (t u : SlotType)
    (h : SlotType.LocalBelow O t u) : SlotType.LocalBelow O t (completed n u) :=
  h.map (f := id) rfl rfl (fun _ ht => ht) fun h => h.completed_right hrefl hn

lemma below_completed_left {n : Nat} (hrefl : ∀ c, O.le c c) (hn : ¬ O.held n) (t u : SlotType)
    (h : SlotType.LocalBelow O t u) : SlotType.LocalBelow O (completed n t) u :=
  h.map (g := id) rfl rfl (fun _ ht => ht.completed n) fun h => h.completed_left hrefl hn

/-- What a `dup` takes and puts. -/
lemma Shape.of_dup {locals : Array SlotType} {used put : List SlotType} (h : Shape instr locals used put)
    (hop : instr.opcode = .dup) : ∃ t, used = [t] ∧ put = [t, t] := by
  cases h with
  | dup => exact ⟨_, rfl, rfl⟩
  | idle hop' => rcases hop' with hop' | hop' <;> simp [hop] at hop'
  | fixed hop' =>
      rw [hop] at hop'
      cases hop'
  | _ => simp_all

/-- A load of an element takes two slots. -/
lemma Shape.of_arrayLoad {locals : Array SlotType} {used put : List SlotType}
    (h : Shape instr locals used put) (hop : instr.opcode = .arrayLoad .ref) :
    ∃ i array, used = [i, array] := by
  have hdelta := h.delta
  obtain ⟨op, operand⟩ := instr
  obtain rfl : op = _ := hop
  have hlen : used.length = 2 := (congrArg Prod.fst (Except.ok.inj hdelta)).symm
  exact List.length_eq_two.mp hlen

/-- What a call of a constructor takes and puts. -/
lemma Shape.of_special {locals : Array SlotType} {used put : List SlotType} {m : Member}
    {d : Descriptor.Method} (h : Shape instr locals used put) (hop : instr.opcode = .invoke .special)
    (ho : instr.operand = .member m) (hd : Descriptor.parseMethod m.desc = .ok d) :
    ∃ args t, used = args ++ [t] ∧ args.length = d.params.length
      ∧ put = if d.isVoid then [] else [.ofDesc d.result] := by
  obtain ⟨m', d', args, recv, ho', hd', rfl, hlen, hrecv, rfl⟩ := h.of_invoke hop
  rw [ho] at ho'
  cases ho'
  rw [hd] at hd'
  cases hd'
  obtain ⟨t, rfl⟩ := List.length_eq_one_iff.mp hrecv
  exact ⟨args, t, rfl, hlen, rfl⟩

section Transition

variable {sites sites' : List Site} {f g f' g' : Frame}

/-- What is taken and put on both sides. -/
lemma Shape.below_plain (hle : O.le = U.le) {used used' put put' rest rest' : List SlotType}
    (hs : f.stack = used ++ rest) (hs' : g.stack = used' ++ rest') (h : Shape instr f.locals used put)
    (h' : Shape instr g.locals used' put') (hfg : f.Below O g) (hloads : U.LoadsFrom instr f)
    (hbuilds : U.Builds f) (hbuilds' : U.Builds g) :
    Frame.Below O ⟨f.locals, put ++ rest⟩ ⟨g.locals, put' ++ rest'⟩ := by
  have hlen : used.length = used'.length := by
    have := Except.ok.inj (h.delta.symm.trans h'.delta)
    exact congrArg Prod.fst this
  have hstack := hfg.stack
  rw [hs, hs'] at hstack
  obtain ⟨hused, hrest⟩ := forall₂_split hstack hlen
  refine ⟨List.rel_append (h.below hle h' hfg.locals hused (fun hop t ht => ?_) ?_ ?_) hrest, hfg.locals⟩
  · obtain ⟨i, array, rfl⟩ := h.of_arrayLoad hop
    obtain rfl : t = array := by simpa using ht
    exact hloads hop i t rest hs
  · exact fun t ht => hbuilds t (by simp [hs, ht])
  · exact fun t ht => hbuilds' t (by simp [hs', ht])

/-- A constructor call and a plain one, or two of either kind: the receivers apart. -/
lemma below_call {d : Descriptor.Method} {args args' rest rest' : List SlotType} {t u : SlotType}
    {F G : SlotType → SlotType} (hs : f.stack = args ++ t :: rest) (hs' : g.stack = args' ++ u :: rest')
    (hlen : args.length = args'.length) (hfg : f.Below O g)
    (hstack : SlotType.Below O t u → ∀ t u, SlotType.Below O t u → SlotType.Below O (F t) (G u))
    (hlocals : SlotType.Below O t u → ∀ t u, SlotType.LocalBelow O t u → SlotType.LocalBelow O (F t) (G u)) :
    Frame.Below O ⟨f.locals.map F, (if d.isVoid then [] else [.ofDesc d.result]) ++ rest.map F⟩
      ⟨g.locals.map G, (if d.isVoid then [] else [.ofDesc d.result]) ++ rest'.map G⟩ := by
  have hall := hfg.stack
  rw [hs, hs'] at hall
  obtain ⟨-, hrest⟩ := forall₂_split hall hlen
  cases hrest with
  | cons htu hrest =>
      refine ⟨List.rel_append (List.forall₂_same.mpr fun _ _ => .same _) (forall₂_map hrest (hstack htu)), ?_⟩
      simpa using forall₂_map hfg.locals (hlocals htu)

/-- **What an instruction does to two frames, one below the other, leaves one below the other.**  The
constructions that are held are pinned neither here nor there. -/
theorem Transition.below (hle : O.le = U.le) (h : Transition sites position instr f f')
    (h' : Transition sites' position instr g g') (hfg : f.Below O g)
    (hheld : ∀ n, O.held n → ¬ Site.Pinned sites n) (hheld' : ∀ n, O.held n → ¬ Site.Pinned sites' n)
    (hloads : U.LoadsFrom instr f) (hbuilds : U.Builds f) (hbuilds' : U.Builds g) : f'.Below O g' := by
  have hrefl : ∀ c, O.le c c := fun c => hle ▸ U.refl c
  cases h with
  | @plain used put rest hs shape free =>
      cases h' with
      | plain hs' shape' => exact shape.below_plain hle hs hs' shape' hfg hloads hbuilds hbuilds'
      | store hop => exact absurd hop (shape.opcode_ne.1 _)
      | begin hop => exact absurd hop shape.opcode_ne.2
      | @copy n cls rest' hop hs' =>
          obtain ⟨t, rfl, rfl⟩ := shape.of_dup hop
          have hstack := hfg.stack
          rw [hs, hs'] at hstack
          cases hstack with
          | cons ht hrest =>
              have hloose := SlotType.loose_of_free hheld (free t (by simp))
              refine ⟨?_, hfg.locals⟩
              rw [hs']
              exact .cons (below_copied hrefl hloose ht) (.cons ht hrest)
      | @construct m d args' rest' n cls copied hop ho hm hd hs' hargs' =>
          obtain ⟨args, t, rfl, hlen, rfl⟩ := shape.of_special hop ho hd
          have hs : f.stack = args ++ t :: rest := by simp [hs]
          have hlen' := congrArg List.length hargs'
          have hloose := SlotType.loose_of_free hheld (free t (by simp))
          have hn : SlotType.Below O t (.pending n cls copied) → ¬ O.held n := fun h => h.loose_iff.mp hloose
          have := below_call (d := d) (F := id) hs hs' (by simpa [hlen] using hlen'.symm) hfg
            (fun h _ _ htu => htu.completed_right hrefl (hn h)) (fun h => below_completed_right hrefl (hn h))
          simpa using this
  | store hop ho hs hn hk free =>
      cases h' with
      | plain _ shape => exact absurd hop (shape.opcode_ne.1 _)
      | store hop' ho' hs' =>
          rw [ho] at ho'
          cases ho'
          have hstack := hfg.stack
          rw [hs, hs'] at hstack
          cases hstack with
          | cons ht hrest =>
              refine ⟨hrest, ?_⟩
              simpa using forall₂_set_each _ hfg.locals (.below ht)
      | begin hop' | copy hop' | construct hop' => simp [hop] at hop'
  | begin hop ho =>
      cases h' with
      | plain _ shape => exact absurd hop shape.opcode_ne.2
      | begin hop' ho' =>
          rw [ho] at ho'
          cases ho'
          exact ⟨.cons (.same _) hfg.stack, hfg.locals⟩
      | store hop' | copy hop' | construct hop' => simp [hop] at hop'
  | @copy n cls rest hop hs =>
      cases h' with
      | @plain used' put' rest' hs' shape' free' =>
          obtain ⟨t, rfl, rfl⟩ := shape'.of_dup hop
          have hstack := hfg.stack
          rw [hs, hs'] at hstack
          cases hstack with
          | cons ht hrest =>
              have hloose := SlotType.loose_of_free hheld' (free' t (by simp))
              refine ⟨?_, hfg.locals⟩
              rw [hs]
              exact .cons (copied_below hrefl hloose ht) (.cons ht hrest)
      | @copy n' cls' rest' hop' hs' =>
          have hstack := hfg.stack
          rw [hs, hs'] at hstack
          cases hstack with
          | cons ht hrest =>
              refine ⟨?_, hfg.locals⟩
              rw [hs, hs']
              refine .cons ?_ (.cons ht hrest)
              cases ht with
              | same => exact .same _
              | ref hc hd hcd hn hn' =>
                  cases hc
                  cases hd
                  exact .ref rfl rfl hcd hn hn'
      | store hop' | begin hop' | construct hop' => simp [hop] at hop'
  | @construct m d args rest n cls copied hop ho hm hd hs hargs free =>
      cases h' with
      | @plain used' put' rest' hs' shape' free' =>
          obtain ⟨args', u, rfl, hlen, rfl⟩ := shape'.of_special hop ho hd
          have hs' : g.stack = args' ++ u :: rest' := by simp [hs']
          have hlen' := congrArg List.length hargs
          have hloose := SlotType.loose_of_free hheld' (free' u (by simp))
          have hn : SlotType.Below O (.pending n cls copied) u → ¬ O.held n := fun h => h.loose_iff.mpr hloose
          have := below_call (d := d) (G := id) hs hs' (by simpa [hlen] using hlen') hfg
            (fun h _ _ htu => htu.completed_left hrefl (hn h)) (fun h => below_completed_left hrefl (hn h))
          simpa using this
      | construct hop' ho' hm' hd' hs' hargs' free' =>
          rw [ho] at ho'
          cases ho'
          rw [hd] at hd'
          cases hd'
          have hlen := congrArg List.length (hargs.trans hargs'.symm)
          simp only [List.length_map] at hlen
          refine below_call hs hs' hlen hfg (fun h t u htu => ?_) fun h t u htu => ?_
          · rcases eq_or_loose h with rfl | ⟨hn, hn'⟩
            · exact htu.completed _
            · exact (htu.completed_right hrefl hn').completed_left hrefl hn
          · rcases eq_or_loose h with rfl | ⟨hn, hn'⟩
            · exact htu.map rfl rfl (fun _ ht => ht.completed _) fun h => h.completed _
            · exact below_completed_left hrefl hn _ _ (below_completed_right hrefl hn' _ _ htu)
      | store hop' | begin hop' | copy hop' => simp [hop] at hop'

end Transition

end Frame

end Suspension
