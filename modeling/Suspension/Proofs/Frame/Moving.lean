import Suspension.Proofs.Frame.Settling

/-!
# Constructions that have moved

Where the code of a method is laid out anew, its constructions stand at other positions, and some of them are
not told from ordinary references any more.  **An instruction does to a frame whose constructions have moved
what it does to the frame itself**, up to what is known of a reference that is pending here and ordinary
there.

* `SlotType.moved`, `Frame.moved` — slots and frames whose constructions have moved.
* `SlotOrder.level` — what makes no difference to a comparison.
* `Frame.Transition.moved` — every instruction.
* `Frame.Below.moved` — frames that compare.
-/

namespace Suspension

/-- **A slot whose construction has moved**: it is pending where the construction is now, or an ordinary
reference if it is nowhere. -/
def SlotType.moved (dest : Nat → Option Nat) : SlotType → SlotType
  | .pending n cls copied =>
    match dest n with
    | some q => .pending q cls copied
    | none => .ref cls
  | t => t

/-- **A frame whose constructions have moved**, with more locals behind its own. -/
def Frame.moved (dest : Nat → Option Nat) (more : Array SlotType) (f : Frame) : Frame :=
  ⟨f.locals.map (·.moved dest) ++ more, f.stack.map (·.moved dest)⟩

/-- **What makes no difference**: classes that are below each other. -/
def SlotOrder.level {src : ClassSource} {V : ClassView} (U : ClassOrder src V) (held : Nat → Prop) :
    SlotOrder :=
  ⟨fun c d => U.le c d ∧ U.le d c, held, False, False⟩

namespace SlotType

variable {dest : Nat → Option Nat} {held : Nat → Prop} {src : ClassSource} {V : ClassView}
  {U : ClassOrder src V}
  {O O' : SlotOrder} {t u r : SlotType} {n q : Nat} {cls : Text} {copied : Bool}

lemma moved_pending (h : dest n = some q) : (pending n cls copied).moved dest = pending q cls copied := by
  simp [moved, h]

lemma moved_pending_none (h : dest n = none) : (pending n cls copied).moved dest = ref cls := by simp [moved, h]

@[simp] lemma moved_ofDesc (desc : Text) : (ofDesc desc).moved dest = ofDesc desc := by
  unfold ofDesc
  split <;> rfl

@[simp] lemma moved_ofKind (k : Kind) : (ofKind k).moved dest = ofKind k := by cases k <;> rfl

@[simp] lemma moved_settle (t : SlotType) : (Analysis.settle t).moved dest = Analysis.settle t := by
  cases t <;> rfl

@[simp] lemma kind?_moved (t : SlotType) : (t.moved dest).kind? = t.kind? := by
  cases t with
  | pending n cls copied => cases h : dest n <;> simp [moved, h, kind?]
  | _ => rfl

@[simp] lemma typeName_moved (t : SlotType) : (t.moved dest).typeName = t.typeName := by
  cases t with
  | pending n cls copied => cases h : dest n <;> simp [moved, h, typeName]
  | _ => rfl

@[simp] lemma settle_moved (t : SlotType) : Analysis.settle (t.moved dest) = Analysis.settle t := by
  cases t with
  | pending n cls copied => cases h : dest n <;> simp [moved, h, Analysis.settle]
  | _ => rfl

lemma settle_settle (t : SlotType) : Analysis.settle (Analysis.settle t) = Analysis.settle t := by
  cases t <;> rfl

/-- The constructions that are still told from ordinary references. -/
def Tracked (dest : Nat → Option Nat) (n : Nat) : Prop := (dest n).isSome

/-- The positions of constructions that have moved. -/
def Target (dest : Nat → Option Nat) (q : Nat) : Prop := ∃ n, dest n = some q

/-- **A slot that is not tracked** is an ordinary reference. -/
lemma moved_of_loose (h : t.Loose (Tracked dest)) : t.moved dest = Analysis.settle t := by
  cases t with
  | pending n cls copied => exact moved_pending_none (by simpa [Loose, Tracked] using h)
  | _ => rfl

lemma loose_moved (h : t.Loose (Tracked dest)) : (t.moved dest).Loose held := by
  rw [moved_of_loose h]
  exact loose_settle t

/-- Completing a construction and moving it. -/
lemma completed_moved (hinj : ∀ n n' q, dest n = some q → dest n' = some q → n = n') (hn : dest n = some q)
    (t : SlotType) : Frame.completed q (t.moved dest) = (Frame.completed n t).moved dest := by
  cases t with
  | pending m cls copied =>
      by_cases hmn : m = n
      · subst hmn
        simp [moved, hn, Frame.completed]
      · cases hm : dest m with
        | none => simp [moved, hm, Frame.completed, hmn]
        | some q' =>
            have hne : q' ≠ q := fun heq => hmn (hinj m n q (heq ▸ hm) hn)
            simp [moved, hm, Frame.completed, hmn, hne]
  | _ => rfl

lemma moved_completed (hn : dest n = none) (t : SlotType) :
    (Frame.completed n t).moved dest = t.moved dest := by
  cases t with
  | pending m cls copied =>
      by_cases hmn : m = n
      · subst hmn
        simp [moved, hn, Frame.completed]
      · simp [Frame.completed, hmn]
  | _ => rfl

lemma completed_settle (n : Nat) (t : SlotType) :
    Frame.completed n (Analysis.settle t) = Analysis.settle t := by
  cases t <;> rfl

/-- **Slots that compare do so when constructions have moved.** -/
lemma Below.moved (h : Below O t u) (hO : O.held = Tracked dest) (hle : ∀ {c d}, O.le c d → O'.le c d) :
    Below O' (t.moved dest) (u.moved dest) := by
  cases h with
  | same => exact .same _
  | ref ht hu hcd hlt hlu =>
      exact .ref ((settle_moved t).trans ht) ((settle_moved u).trans hu) (hle hcd) (loose_moved (hO ▸ hlt))
        (loose_moved (hO ▸ hlu))

lemma LocalBelow.moved (h : LocalBelow O t u) (hO : O.held = Tracked dest) (hle : ∀ {c d}, O.le c d → O'.le c d)
    (hlow : O.low → O'.low) (hhigh : O.high → O'.high) : LocalBelow O' (t.moved dest) (u.moved dest) := by
  cases h with
  | below h => exact .below (h.moved hO hle)
  | lower h => exact .lower (hlow h)
  | upper h ht => exact .upper (hhigh h) (loose_moved (hO ▸ ht))

/-- **Slots that meet do so when constructions have moved**, as long as different ones are not tracked. -/
lemma Joins.moved {onStack : Bool} (h : Joins src V onStack t u r) (ht : t ≠ u → t.Loose (Tracked dest))
    (hu : t ≠ u → u.Loose (Tracked dest)) :
    Joins src V onStack (t.moved dest) (u.moved dest) (r.moved dest) := by
  cases h with
  | same => exact .same _
  | settled hne h =>
      rw [moved_of_loose (ht hne), moved_of_loose (hu hne), moved_settle, ← h]
      exact .same _
  | @left _ _ _ d hne hn hd =>
      rw [moved_of_loose (ht hne), moved_of_loose (hu hne), hn, hd]
      by_cases hnull : SlotType.null = .ref d
      · rw [hnull]
        exact .same _
      · exact .left hnull rfl rfl
  | @right _ _ _ c hne hc hn =>
      rw [moved_of_loose (ht hne), moved_of_loose (hu hne), hn, hc]
      by_cases hnull : SlotType.ref c = .null
      · rw [hnull]
        exact .same _
      · exact .right hnull rfl rfl
  | @refs _ _ _ c d h hne hc hd hnc hnd hh =>
      rw [moved_of_loose (ht hne), moved_of_loose (hu hne), hc, hd]
      by_cases hcd : c = d
      · subst hcd
        rw [Hierarchy.joined, Hierarchy.run_commonSuper_self]
        exact .same _
      · exact .refs (fun heq => hcd (SlotType.ref.inj heq)) rfl rfl hnc hnd hh
  | clash hne hnot =>
      have hne' : t ≠ u := fun heq => hne (heq ▸ rfl)
      rw [moved_of_loose (ht hne'), moved_of_loose (hu hne')]
      exact .clash (by simpa only [settle_settle] using hne) fun c d => by
        simpa only [settle_settle] using hnot c d

end SlotType

/-! ## Instructions -/

namespace Frame

open SlotType

variable {dest : Nat → Option Nat} {src : ClassSource} {V : ClassView} {U : ClassOrder src V}
  {held : Nat → Prop}
  {sites S : List Site} {instr : Instruction} {f g r : Frame} {more : Array SlotType} {position target : Nat}

@[simp] lemma moved_elementType (t : SlotType) : (elementType t).moved dest = elementType t := by
  unfold elementType
  simp only
  split
  · exact moved_ofDesc _
  · rfl

lemma elementType_moved (t : SlotType) : elementType (t.moved dest) = elementType t := by
  simp [elementType]

lemma getElem?_moved {l : Nat} {t : SlotType} (h : f.locals[l]? = some t) :
    (f.moved dest more).locals[l]? = some (t.moved dest) := by
  obtain ⟨hl, rfl⟩ := Array.getElem?_eq_some_iff.mp h
  rw [Frame.moved, Array.getElem?_append_left (by simpa using hl)]
  simp [hl]


/-- **What an instruction takes and puts** when constructions have moved. -/
lemma Shape.moved (U : ClassOrder src V) (held : Nat → Prop) (more : Array SlotType) {used put : List SlotType}
    (h : Shape instr f.locals used put)
    (hloose : ∀ t ∈ used, t.Loose (Tracked dest)) (hbuilds : ∀ t ∈ used, U.BuildsSlot t) :
    ∃ put', Shape instr (f.moved dest more).locals (used.map (·.moved dest)) put'
      ∧ List.Forall₂ (SlotType.Below (.level U held)) put' (put.map (·.moved dest)) := by
  have hsame : ∀ ts : List SlotType, List.Forall₂ (SlotType.Below (.level U held)) ts ts :=
    fun ts => List.forall₂_same.mpr fun t _ => .same t
  have hone : ∀ {put' : List SlotType}, Shape instr (f.moved dest more).locals (used.map (·.moved dest)) put' →
      put' = put.map (·.moved dest) → ∃ put', Shape instr (f.moved dest more).locals
        (used.map (·.moved dest)) put'
        ∧ List.Forall₂ (SlotType.Below (.level U held)) put' (put.map (·.moved dest)) := by
    rintro put' h rfl
    exact ⟨_, h, hsame _⟩
  cases h with
  | idle hop => exact hone (.idle hop) rfl
  | null hop => exact hone (.null hop) rfl
  | text hop => exact hone (.text hop) rfl
  | load hop ho ht hk => exact hone (.load hop ho (getElem?_moved ht) (by simpa using hk)) rfl
  | increment hop ho ht hk => exact hone (.increment hop ho (getElem?_moved ht) (by simpa using hk)) rfl
  | element hop hi ha =>
      exact hone (.element hop (by simpa using hi) (by simpa using ha)) (by simp [elementType_moved])
  | array hop ho hn => exact hone (.array hop ho (by simpa using hn)) rfl
  | refArray hop ho hn => exact hone (.refArray hop ho (by simpa using hn)) rfl
  | @cast t cls hop ho ht =>
      have hloose := hloose t (by simp)
      obtain ⟨c, hc⟩ := settle_eq_ref ht
      have hmoved : t.moved dest = .ref c := (moved_of_loose hloose).trans hc
      refine ⟨_, .cast hop ho (by simpa using ht), .cons ?_ .nil⟩
      change SlotType.Below _ (castTo cls (t.moved dest)) ((castTo cls t).moved dest)
      obtain ⟨d, hd⟩ : ∃ d, castTo cls t = .ref d := castTo_ref
      obtain ⟨e, he⟩ : ∃ e, castTo cls (t.moved dest) = .ref e := castTo_ref
      by_cases hnull : U.builds ClassName.null
      · rw [hd, he]
        exact .ref rfl rfl ⟨U.alike hnull _ _, U.alike hnull _ _⟩ trivial trivial
      · rw [castTo_eq hc fun n copied ht => hnull (hbuilds t (by simp) n _ copied ht), hmoved,
          castTo_eq (c := c) rfl (by simp)]
        exact .same _
  | pop hop => exact hone (.pop hop) rfl
  | pop2 hop => exact hone (.pop2 hop) rfl
  | dup hop => exact hone (.dup hop) rfl
  | dupX1 hop => exact hone (.dupX1 hop) rfl
  | dupX2 hop => exact hone (.dupX2 hop) rfl
  | dup2 hop => exact hone (.dup2 hop) rfl
  | swap hop => exact hone (.swap hop) rfl
  | getStatic hop ho => exact hone (.getStatic hop ho) (by simp)
  | putStatic hop ho ht => exact hone (.putStatic hop ho (by simpa using ht)) rfl
  | getField hop ho hobj => exact hone (.getField hop ho (by simpa using hobj)) (by simp)
  | putField hop ho ht hobj => exact hone (.putField hop ho (by simpa using ht) (by simpa using hobj)) rfl
  | @call mode m d args recv hop ho hd hargs hrecv =>
      have hkinds : ∀ ts : List SlotType, (ts.map (·.moved dest)).map SlotType.kind? = ts.map
        SlotType.kind? := by
        intro ts
        rw [List.map_map]
        exact List.map_congr_left fun t _ => kind?_moved t
      rw [List.map_append]
      refine ⟨_, .call hop ho hd ((hkinds args).trans hargs) ((hkinds recv).trans hrecv), ?_⟩
      split
      · exact .nil
      · rw [List.map_singleton, moved_ofDesc]
        exact hsame _
  | @fixed e used hop he hused =>
      refine ⟨_, .fixed hop he ?_, ?_⟩
      · rw [List.map_map, ← hused]
        exact List.map_congr_left fun t _ => kind?_moved t
      · have hpushed : (e.pushes.map SlotType.ofKind).reverse.map (·.moved dest)
            = (e.pushes.map SlotType.ofKind).reverse := by simp
        rw [hpushed]
        exact hsame _

/-- **Where constructions have moved to**: a position tells one that is not pinned, the `new` and the `dup` of
one are where it is. -/
structure Moves (dest : Nat → Option Nat) (held : Nat → Prop) (sites S : List Site) (instr : Instruction)
    (position target : Nat) : Prop where
  unpinned : ∀ n, Tracked dest n → ¬ Site.Pinned sites n
  inj : ∀ n n' q, dest n = some q → dest n' = some q → n = n'
  begins : instr.opcode = .new → dest position = some target ∨ dest position = none ∧ ¬ held target
  copies : instr.opcode = .dup → ∀ n q, dest n = some q → Site.CopiedAt sites n position
    → Site.CopiedAt S q target

/-- Moving constructions keeps kinds. -/
lemma map_kind?_moved (dest : Nat → Option Nat) (ts : List SlotType) :
    (ts.map (·.moved dest)).map SlotType.kind? = ts.map SlotType.kind? := by
  rw [List.map_map]
  exact List.map_congr_left fun t _ => kind?_moved t

/-- Completing a construction that has moved. -/
lemma moved_map_completed {n q : Nat} (hinj : ∀ n n' q, dest n = some q → dest n' = some q → n = n')
    (hn : dest n = some q) (hmore : ∀ t ∈ more.toList, Analysis.settle t = t) :
    (f.moved dest more).locals.map (completed q) = (f.locals.map (completed n)).map (·.moved dest) ++ more := by
  have hmore : more.map (completed q) = more := by
    refine Array.ext (by simp) fun k hk hk' => ?_
    rw [Array.getElem_map, ← hmore more[k] (Array.getElem_mem_toList hk'), completed_settle]
  simp only [Frame.moved, Array.map_append, hmore, Array.map_map]
  congr 2
  funext t
  exact completed_moved hinj hn t

/-- **An instruction on a frame whose constructions have moved.** -/
theorem Transition.moved (h : Transition sites position instr f g)
    (hdest : Moves dest held sites S instr position target) (hmore : ∀ t ∈ more.toList, Analysis.settle t = t)
    (hbuilds : U.Builds f) :
    ∃ g', Transition S target instr (f.moved dest more) g' ∧ g'.Below (.level U held) (g.moved dest more) := by
  have hloose : ∀ {ts : List SlotType}, (∀ t ∈ ts, Site.Free sites t) → ∀ t ∈ ts, t.Loose (Tracked dest) :=
    fun hfree t ht => loose_of_free hdest.unpinned (hfree t ht)
  have hfree : ∀ ts : List SlotType, (∀ t ∈ ts, Site.Free sites t) →
      ∀ t ∈ ts.map (·.moved dest), Site.Free S t := by
    intro ts hts t ht
    obtain ⟨u, hu, rfl⟩ := List.mem_map.mp ht
    rw [moved_of_loose (hloose hts u hu)]
    cases u <;> trivial
  have hsame : ∀ ts : List SlotType, List.Forall₂ (SlotType.Below (.level U held)) ts ts :=
    fun ts => List.forall₂_same.mpr fun t _ => .same t
  have hlocals : ∀ L : Array SlotType, List.Forall₂ (LocalBelow (.level U held)) L.toList L.toList :=
    fun L => List.forall₂_same.mpr fun t _ => .below (.same t)
  cases h with
  | @plain used put rest hs shape free =>
      obtain ⟨put', hshape, hput⟩ := shape.moved U held more (hloose free)
        fun t ht => hbuilds t (by simp [hs, ht])
      have hstack : (f.moved dest more).stack = used.map (·.moved dest) ++ rest.map (·.moved dest) := by
        simp [Frame.moved, hs]
      refine ⟨_, .plain hstack hshape (hfree _ free), ?_, hlocals _⟩
      change List.Forall₂ _ _ ((put ++ rest).map (·.moved dest))
      rw [List.map_append]
      exact List.rel_append hput (hsame _)
  | @store k n t rest hop ho hs hn hk free =>
      have hstored : (f.moved dest more).locals.set! n.toNat (t.moved dest)
          = (f.locals.set! n.toNat t).map (·.moved dest) ++ more := by
        simp [Frame.moved, Array.set!_eq_setIfInBounds, hn]
      have hstack : (f.moved dest more).stack = t.moved dest :: rest.map (·.moved dest) := by
        simp [Frame.moved, hs]
      have hlt : n.toNat < (f.moved dest more).locals.size := by
        simp only [Frame.moved, Array.size_append, Array.size_map]
        omega
      refine ⟨_, .store hop ho hstack hlt (by simpa using hk)
        (hfree [t] (by simpa using free) _ (by simp)), ?_⟩
      rw [hstored]
      exact .refl _ _
  | @begin cls hop ho =>
      refine ⟨_, .begin hop ho, .cons ?_ (hsame _), hlocals _⟩
      change SlotType.Below _ _ ((SlotType.pending position cls false).moved dest)
      rcases hdest.begins hop with hd | ⟨hd, hnot⟩
      · rw [moved_pending hd]
        exact .same _
      · rw [moved_pending_none hd]
        exact .ref rfl rfl ⟨U.refl _, U.refl _⟩ hnot trivial
  | @copy n cls rest hop hs hc =>
      cases hd : dest n with
      | some q =>
          have hstack : (f.moved dest more).stack = .pending q cls false :: rest.map (·.moved dest) := by
            simp [Frame.moved, hs, moved_pending hd]
          refine ⟨_, .copy hop hstack (hdest.copies hop n q hd hc), .cons ?_ (hsame _), hlocals _⟩
          change SlotType.Below _ _ ((SlotType.pending n cls true).moved dest)
          rw [moved_pending hd]
          exact .same _
      | none =>
          have hstack : (f.moved dest more).stack = [.ref cls] ++ rest.map (·.moved dest) := by
            simp [Frame.moved, hs, moved_pending_none hd]
          refine ⟨_, .plain hstack (.dup hop) (by simp [Site.Free]), ?_, hlocals _⟩
          change List.Forall₂ _ _ ((SlotType.pending n cls true).moved dest :: f.stack.map (·.moved dest))
          rw [hs, List.map_cons, moved_pending_none hd, moved_pending_none hd]
          exact hsame _
  | @construct m d args rest n cls copied hop ho hname hd hs hargs free hpair =>
      have hkinds := (map_kind?_moved dest args).trans hargs
      have hresult : (if d.isVoid then [] else [SlotType.ofDesc d.result]).map (·.moved dest)
          = if d.isVoid then [] else [.ofDesc d.result] := by
        split <;> simp
      cases hn : dest n with
      | some q =>
          have hpair := hpair.resolve_left (hdest.unpinned n (by simp [Tracked, hn]))
          have hstack : (f.moved dest more).stack
              = args.map (·.moved dest) ++ .pending q cls copied :: rest.map (·.moved dest) := by
            simp [Frame.moved, hs, moved_pending hn]
          have hhead : (rest.map (·.moved dest)).head? = some (.pending q cls false) := by
            obtain ⟨rest', rfl⟩ := List.head?_eq_some_iff.mp hpair.2
            simp [moved_pending hn]
          refine ⟨_, .construct hop ho hname hd hstack hkinds (hfree _ free) (Or.inr ⟨hpair.1, hhead⟩), ?_, ?_⟩
          · change List.Forall₂ _ _ (((if d.isVoid then [] else [SlotType.ofDesc d.result])
              ++ rest.map (completed n)).map (·.moved dest))
            rw [List.map_append, hresult, List.map_map, List.map_map, show (SlotType.moved dest) ∘ completed n
              = completed q ∘ SlotType.moved dest from funext fun t => (completed_moved hdest.inj hn t).symm]
            exact hsame _
          · change List.Forall₂ _ ((f.moved dest more).locals.map (completed q)).toList
              ((f.locals.map (completed n)).map (·.moved dest) ++ more).toList
            rw [moved_map_completed hdest.inj hn hmore]
            exact hlocals _
      | none =>
          have hstack : (f.moved dest more).stack
              = (args.map (·.moved dest) ++ [.ref cls]) ++ rest.map (·.moved dest) := by
            simp [Frame.moved, hs, moved_pending_none hn]
          refine ⟨_, .plain hstack (.call hop ho hd hkinds rfl) ?_, ?_, ?_⟩
          · intro t ht
            rcases List.mem_append.mp ht with ht | ht
            · exact hfree _ free t ht
            · obtain rfl := List.mem_singleton.mp ht
              trivial
          · change List.Forall₂ _ _ (((if d.isVoid then [] else [SlotType.ofDesc d.result])
              ++ rest.map (completed n)).map (·.moved dest))
            rw [List.map_append, hresult, List.map_map, show (SlotType.moved dest) ∘ completed n
              = SlotType.moved dest from funext fun t => moved_completed hn t]
            exact hsame _
          · change List.Forall₂ _ (f.locals.map (·.moved dest) ++ more).toList
              ((f.locals.map (completed n)).map (·.moved dest) ++ more).toList
            rw [Array.map_map, show (SlotType.moved dest) ∘ completed n = SlotType.moved dest from
              funext fun t => moved_completed hn t]
            exact hlocals _

/-- **Frames that compare do so when constructions have moved.** -/
lemma Below.moved {O O' : SlotOrder} (h : f.Below O g) (hO : O.held = Tracked dest)
    (hle : ∀ {c d}, O.le c d → O'.le c d) (hlow : O.low → O'.low) (hhigh : O.high → O'.high)
    (more : Array SlotType) : (f.moved dest more).Below O' (g.moved dest more) where
  stack := forall₂_map h.stack fun _ _ h => h.moved hO hle
  locals := by
    simp only [Frame.moved, Array.toList_append, Array.toList_map]
    exact List.rel_append (forall₂_map h.locals fun _ _ h => h.moved hO hle hlow hhigh)
      (List.forall₂_same.mpr fun t _ => .below (.same t))

end Frame

end Suspension
