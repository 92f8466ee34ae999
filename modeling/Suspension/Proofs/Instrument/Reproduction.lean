import Suspension.Proofs.Instrument.Explanation

/-!
# What is seen of a method is seen of its transformed body

A transformed method can do whatever the method does: **it is answered as the method is**, its calls are put
off as those of the method are, and the object that it makes for a construction that has been put off is the
one that the method has made.

* `Running.Reproduces` — what is seen of the method is seen of the transformed method.
* `Running.Standing.reproduces`, `Running.AtCall.reproduces`, `Running.reproduces`.
-/

namespace Suspension

namespace Running

variable {E : Environment} {p : Plan} {nm : Method} {args : List Value} {d n i j : Nat} {out : Nat → Bool}
  {obj : Nat → ObjectId} {f after : Frame} {c c' : Running} {a b : Activation} {instr img : Instruction}
  {pt : SuspensionPoint} {es : List Seen} {o : Option Ending}

/-- **All that is seen of the method in `n` moves is seen of the transformed method**, from the beginning of any
segment. -/
def Reproduces (E : Environment) (p : Plan) (nm : Method) (args : List Value) (d n : Nat) : Prop :=
  ∀ j f c obj a es o, Level E p args d j f c → E.Supplies obj (Frame.gaps p.isOmitted f.stack) → a.pc = j →
    Completes p.isOmitted obj f c.act a → (p.original E).Shows n a es o →
      (p.instrumented E nm args d).Behaves c es o

/-- Nothing is seen on the way. -/
lemma behaves_along (hrun : Relation.ReflTransGen (Proceeds E.toClasses E.surroundings p nm) c c')
    (hb : (p.instrumented E nm args d).Behaves c' es o) : (p.instrumented E nm args d).Behaves c es o := by
  have hpath : (p.instrumented E nm args d).Path c [] c' := .quiet (fun h => .proceeds h) hrun
  exact hpath.behaves hb

/-! ## Instructions -/

variable {r r' : Request} {v : Option Value} {a' b' : Activation} {es' : List Seen} {x : ObjectId}

/-- **What stands for an instruction asks for what the instruction asks for**, and is answered alike. -/
structure Matched (E : Environment) (p : Plan) (args : List Value) (d : Nat) (out : Nat → Bool)
    (obj : Nat → ObjectId) (instr img : Instruction) (after : Frame) (c : Running) (j : Nat)
    (r r' : Request) (a' b' : Activation) : Prop where
  pc : b'.pc = c.act.pc
  locals : b'.locals = c.act.locals
  seen : r'.seen = r.seen
  brings : ∀ u es, E.Brings img r' u es ↔ E.Brings instr r u es
  answered : ∀ v es, E.Brings instr r (.answer v) es → p.subject.types.Reaches E.toClasses after (j + 1)
    ∧ Mirrors E p args d out after ⟨b'.answered v, c.stack⟩
    ∧ Completes out obj after (b'.answered v) (a'.answered v)

lemma Standing.matched (hs : Standing E p nm args d out j instr img f after c) (hpc : a.pc = j)
    (hc : Completes out obj f c.act a) (hasks : a.step (.ofMethod p.subject.method) = .asks r a') :
    ∃ r' b', c.act.step (.ofMethod nm) = .asks r' b' ∧ a'.pc = j ∧ a'.locals = a.locals
      ∧ Matched E p args d out obj instr img after c j r r' a' b' := by
  have houtcome := hs.outcome
  generalize c.act.step (.ofMethod nm) = w at houtcome
  cases houtcome with
  | next _ _ _ hwhole =>
      obtain ⟨_, hother, -⟩ := hwhole obj a hpc hc
      rw [hasks] at hother
      cases hother
  | returns hwhole =>
      have hother := hwhole obj a hpc hc
      rw [hasks] at hother
      cases hother
  | asks hpc' hlocals hseen hsame hanswer hwhole =>
      obtain ⟨_, hother, hpc₁, hlocals₁, hanswered⟩ := hwhole obj a hpc hc
      rw [hasks] at hother
      cases hother
      refine ⟨_, _, rfl, hpc₁, hlocals₁, hpc', hlocals, hseen, hsame, fun v es hbrings => ?_⟩
      obtain ⟨hreach, hmirrors⟩ := hanswer v es hbrings
      exact ⟨hreach, hmirrors c.stack rfl (Nat.le_refl _), hanswered v es hbrings⟩

/-- **The same answer** leads to the same. -/
lemma Standing.reproduces_answer (hs : Standing E p nm args d out j instr img f after c)
    (h : p.Faithful E nm args) (ih : Reproduces E p nm args d n)
    (hsupplies : E.Supplies obj (Frame.gaps p.isOmitted after.stack)) (hpc : a'.pc = j)
    (hstep : c.act.step (.ofMethod nm) = .asks r' b')
    (hmatched : Matched E p args d out obj instr img after c j r r' a' b')
    (hbrings : E.Brings instr r (.answer v) es)
    (hrest : (p.original E).Shows n (a'.answered v) es' o) :
    (p.instrumented E nm args d).Behaves c (es ++ es') o := by
  have hfree : ∀ t, Site.Free p.subject.types.sites t → t.absent? p.isOmitted = none := fun _ =>
    h.founded.absent?_of_free
  obtain ⟨hreach, hmirrors, hcompletes⟩ := hmatched.answered v es hbrings
  have hplace : (b'.answered v).pc = p.place (j + 1) := by
    rw [← hs.next, ← hmatched.pc]
    rfl
  obtain ⟨g, hl, hle⟩ := Level.of_reaches h (hmirrors.congr hs.gaps) hplace hreach
  have hmove : (p.instrumented E nm args d).Moves c es ⟨b'.answered v, c.stack⟩ :=
    .answered hstep hs.image_at (fun hown => absurd hown (hs.asks _ _ hstep).2)
      ((hmatched.brings _ _).mpr hbrings) (.refl _ _)
  refine .moves hmove (ih (j + 1) g _ obj _ _ _ hl (Frame.gaps_of_le hfree hle.stack ▸ hsupplies) ?_
    ((hcompletes.congr hs.gaps).le hfree hle) hrest)
  rw [← hpc]
  rfl

/-- **The same exception** comes to the same handler. -/
lemma Standing.reproduces_exception (hs : Standing E p nm args d out j instr img f after c)
    (h : p.Faithful E nm args) (ih : Reproduces E p nm args d n) (hc : Completes out obj f c.act a)
    (hlocals : a'.locals = a.locals) (hstep : c.act.step (.ofMethod nm) = .asks r' b')
    (hmatched : Matched E p args d out obj instr img after c j r r' a' b')
    (hbrings : E.Brings instr r (.exception x) es) {q : Nat}
    (hcaught : (Body.ofMethod p.subject.method).handlerFor (E.surroundings.isA x) j = some q)
    (hrest : (p.original E).Shows n (a'.caught q x) es' o) :
    (p.instrumented E nm args d).Behaves c (es ++ es') o := by
  have hbrings := (hmatched.brings _ _).mpr hbrings
  obtain ⟨hw, hforeign⟩ := hs.asks _ _ hstep
  have hraises : E.raises r'.seen x := by
    cases hbrings with
    | raised hraises => exact hraises
  rcases lands h hs.toMirrors hw hs.frame hraises rfl (Nat.le_refl _) hmatched.locals with
    ⟨hnone, -⟩ | ⟨k, g, hsome, hland, hl, hwhole⟩
  · rw [hnone] at hcaught
    cases hcaught
  · rw [hsome] at hcaught
    cases hcaught
    obtain ⟨obj', hobj'⟩ := h.exists_supplies
    have hmove : (p.instrumented E nm args d).Moves c es ⟨b'.caught (p.place q) x, c.stack⟩ :=
      .caught hstep hs.image_at hforeign hbrings (.refl _ _) hland
    exact .moves hmove (ih q g _ obj' _ _ _ hl (hobj' hl.frame) rfl (hwhole obj obj' a a' hc hlocals) hrest)

/-- **What is not caught** is thrown again when the record is popped. -/
lemma Standing.reproduces_uncaught (hs : Standing E p nm args d out j instr img f after c)
    (h : p.Faithful E nm args) (hstep : c.act.step (.ofMethod nm) = .asks r' b')
    (hmatched : Matched E p args d out obj instr img after c j r r' a' b')
    (hbrings : E.Brings instr r (.exception x) es)
    (huncaught : (Body.ofMethod p.subject.method).handlerFor (E.surroundings.isA x) j = none)
    (ho : o = none ∨ o = some (.outcome (.threw x))) : (p.instrumented E nm args d).Behaves c es o := by
  have hbrings := (hmatched.brings _ _).mpr hbrings
  obtain ⟨hw, hforeign⟩ := hs.asks _ _ hstep
  have hraises : E.raises r'.seen x := by
    cases hbrings with
    | raised hraises => exact hraises
  rcases lands h hs.toMirrors hw hs.frame hraises rfl (Nat.le_refl _) hmatched.locals with
    ⟨-, hland⟩ | ⟨k, g, hsome, -⟩
  · have hmove : (p.instrumented E nm args d).Moves c es ⟨b'.caught (p.place p.code.size + 1) x, c.stack⟩ :=
      .caught hstep hs.image_at hforeign hbrings (.refl _ _) hland
    have hhandle : b'.locals[p.stackVar.toNat]? = some (.object E.surroundings.handle) := by
      rw [hmatched.locals]
      exact hs.handle
    obtain ⟨hrun, hthrow, hown, hnone⟩ := rethrows (s := c.stack) (o := x) h hhandle
    have hend : (p.instrumented E nm args d).Behaves
        ⟨⟨p.place p.code.size + 5, b'.locals, [.object x]⟩, c.stack.pop⟩ [] o :=
      .ends (.rethrew hthrow hown hnone) ho
    have hbehaves := System.Behaves.moves hmove (behaves_along hrun hend)
    rwa [List.append_nil] at hbehaves
  · rw [hsome] at huncaught
    cases huncaught

/-- **What is seen from an instruction on is seen of what stands for it**, if that is so from where the
instruction leads, and where a call is put off. -/
lemma Standing.reproduces (hs : Standing E p nm args d out j instr img f after c) (h : p.Faithful E nm args)
    (ih : ∀ m < n, Reproduces E p nm args d m)
    (hagain : ∀ m < n, ∀ mode k vs isVoid a' es', a.step (.ofMethod p.subject.method)
      = .asks (.invoke mode k vs isVoid) a' → p.MaySuspend j → (p.original E).Shows m a es' o →
        (p.instrumented E nm args d).Behaves c (.suspended (Request.invoke mode k vs isVoid).seen :: es') o)
    (hsupplies : E.Supplies obj (Frame.gaps out f.stack)) (hpc : a.pc = j)
    (hc : Completes out obj f c.act a) (hshows : (p.original E).Shows n a es o) :
    (p.instrumented E nm args d).Behaves c es o := by
  have hafter := (hs.supplies obj).mp hsupplies
  have hcode : p.code[a.pc]? = some instr := hpc ▸ hs.code_at
  cases hshows with
  | stops => exact .stops
  | ends hend ho =>
      cases hend with
      | returned hreturns =>
          have houtcome := hs.outcome
          generalize hstep : c.act.step (.ofMethod nm) = w at houtcome
          cases houtcome with
          | next _ _ _ hwhole | asks _ _ _ _ _ hwhole =>
              obtain ⟨_, hother, -⟩ := hwhole obj a hpc hc
              rw [hreturns] at hother
              cases hother
          | returns hwhole =>
              have hother := hwhole obj a hpc hc
              rw [hreturns] at hother
              cases hother
              exact .ends (.returned hstep) ho
      | threw hasks hat hbrings huncaught =>
          obtain rfl := Option.some.inj (hcode.symm.trans hat)
          obtain ⟨r', b', hstep, -, -, hmatched⟩ := hs.matched hpc hc hasks
          exact hs.reproduces_uncaught h hstep hmatched hbrings (hpc ▸ huncaught) ho
      | waits hasks hsilent =>
          obtain ⟨r', b', hstep, -, -, hmatched⟩ := hs.matched hpc hc hasks
          rw [← hmatched.seen] at ho
          refine .ends (.waits hstep (hs.asks _ _ hstep).2 ?_) ho
          rw [← Request.isSilent_seen, hmatched.seen, Request.isSilent_seen, hsilent]
  | moves hmove hrest =>
      cases hmove with
      | next hnext =>
          have houtcome := hs.outcome
          generalize hstep : c.act.step (.ofMethod nm) = w at houtcome
          cases houtcome with
          | next hreach hplace hm hwhole =>
              obtain ⟨_, hother, hpc₁, hc₁⟩ := hwhole obj a hpc hc
              rw [hnext] at hother
              cases hother
              have hfree : ∀ t, Site.Free p.subject.types.sites t → t.absent? p.isOmitted = none := fun _ =>
                h.founded.absent?_of_free
              obtain ⟨g, hl, hle⟩ := Level.of_reaches h (hm.congr hs.gaps) hplace hreach
              refine .quietly (.proceeds (.advances (.next hstep))) ?_
              exact ih _ (Nat.lt_succ_self _) _ g _ obj _ _ _ hl (Frame.gaps_of_le hfree hle.stack ▸ hafter)
                hpc₁
                ((hc₁.congr hs.gaps).le hfree hle) hrest
          | returns hwhole =>
              have hother := hwhole obj a hpc hc
              rw [hnext] at hother
              cases hother
          | asks _ _ _ _ _ hwhole =>
              obtain ⟨_, hother, -⟩ := hwhole obj a hpc hc
              rw [hnext] at hother
              cases hother
      | answered hasks hat hbrings =>
          obtain rfl := Option.some.inj (hcode.symm.trans hat)
          obtain ⟨r', b', hstep, hpc', -, hmatched⟩ := hs.matched hpc hc hasks
          exact hs.reproduces_answer h (ih _ (Nat.lt_succ_self _)) hafter hpc' hstep hmatched hbrings hrest
      | caught hasks hat hbrings hcaught =>
          obtain rfl := Option.some.inj (hcode.symm.trans hat)
          obtain ⟨r', b', hstep, -, hlocals, hmatched⟩ := hs.matched hpc hc hasks
          exact hs.reproduces_exception h (ih _ (Nat.lt_succ_self _)) hc hlocals hstep hmatched hbrings
            (hpc ▸ hcaught) hrest
      | suspended hasks hmay => exact hagain _ (Nat.lt_succ_self _) _ _ _ _ _ _ hasks (hpc ▸ hmay) hrest

/-! ## Points -/

/-- **A call that may be put off is put off in the same way.** -/
lemma AtCall.reproduces (hc : AtCall E p args d pt c) (h : p.Faithful E nm args) (hpt : p.points[i]? = some pt)
    (hyield : pt.isYield = false) (ih : ∀ m < n, Reproduces E p nm args d m)
    (hsupplies : E.Supplies obj (Frame.gaps p.isOmitted pt.frame.stack)) (hpc : a.pc = pt.position)
    (hcomplete : Completes p.isOmitted obj pt.frame c.act a) (hshows : (p.original E).Shows n a es o) :
    (p.instrumented E nm args d).Behaves c es o := by
  induction n using Nat.strongRecOn generalizing c es with
  | ind n ihn =>
  obtain ⟨instr, img, after, hs⟩ := hc.standing h hpt hyield
  refine hs.reproduces h ih ?_ hsupplies hpc hcomplete hshows
  intro m hm mode k vs isVoid a' es' hasks hmay hrest
  obtain ⟨r', b', hstep, -, -, hmatched⟩ := hs.matched hpc hcomplete hasks
  obtain ⟨mode', k', vs', isVoid', rfl⟩ := Request.eq_invoke_of_seen hmatched.seen
  have hmem := List.mem_of_getElem? hpt
  obtain ⟨hw, hforeign⟩ := hs.asks _ _ hstep
  have hpoint : p.SuspendsAt E.surroundings c.act.pc (.invoke mode' k' vs' isVoid')
      (.suspended (Request.invoke mode k vs isVoid).seen) := by
    rw [← hmatched.seen]
    exact .call hmem hyield hc.pc
  have hraises : Raises E.surroundings p nm c E.surroundings.signal b' c.stack :=
    .mk hstep (fun hserved => hforeign hserved.1) ⟨by simp, by simp, fun _ => rfl, fun _ => rfl⟩
  have hsignal : E.surroundings.IsSignal E.surroundings.signal := E.surroundings.signal_isA
  have hpassed := passed_of_raises h.ready hmem hw.low hw.high hraises hsignal
  have hrecord : FrameStack.record? { c.stack with depth := d } d = some (c.stack.recordAt d) :=
    if_pos hc.room
  obtain ⟨c', hrun, hc', hsame⟩ := hc.again h hpt hyield hraises hsignal rfl hrecord
  have hmove : (p.instrumented E nm args d).Moves c [.suspended (Request.invoke mode k vs isVoid).seen]
      ⟨Activation.enter nm args, { c.stack with depth := d }⟩ :=
    .suspended hstep hpoint hraises hsignal hpassed rfl hrecord
  refine .moves hmove (behaves_along hrun ?_)
  exact ihn m hm hc' (fun m' hm' => ih m' (by omega)) (hcomplete.same hsame) hrest

/-- **A request to suspend throws the signal**, and is answered when the method is entered again. -/
lemma Level.reproduces_yield (hl : Level E p args d pt.position pt.frame c) (h : p.Faithful E nm args)
    (hpt : p.points[i]? = some pt) (hyield : pt.isYield = true) (ih : ∀ m < n, Reproduces E p nm args d m)
    (hsupplies : E.Supplies obj (Frame.gaps p.isOmitted pt.frame.stack)) (hpc : a.pc = pt.position)
    (hc : Completes p.isOmitted obj pt.frame c.act a) (hshows : (p.original E).Shows n a es o) :
    (p.instrumented E nm args d).Behaves c es o := by
  obtain ⟨q, L, s, hrun, hthrow, hown, ⟨hlow, hhigh⟩, hst, hdepth, hroom⟩ := hl.yields h hpt hyield
  obtain ⟨instr, hat, hreads, hstep, hreach⟩ := step_yield h (List.mem_of_getElem? hpt) hyield
  have hmem := List.mem_of_getElem? hpt
  have hstep := hstep a hpc
  cases hshows with
  | stops => exact .stops
  | ends hend ho =>
      cases hend with
      | returned hother =>
          rw [hstep] at hother
          cases hother
      | threw hasks _ hbrings _ =>
          rw [hstep] at hasks
          cases hasks
          cases hbrings with
          | raised hraises => exact absurd hraises (h.conforms.yields _ _ _ _ rfl)
      | waits hasks _ =>
          rw [hstep] at hasks
          cases hasks
          have hend : (p.instrumented E nm args d).Behaves ⟨⟨q, L, [.object E.surroundings.signal]⟩, s⟩ [] o :=
            .ends (.yields hthrow hown) ho
          exact behaves_along hrun hend
  | moves hmove hrest =>
      cases hmove with
      | next hother =>
          rw [hstep] at hother
          cases hother
      | answered hasks _ hbrings =>
          rw [hstep] at hasks
          cases hasks
          cases hbrings with
          | answered _ _ hadmits =>
              obtain rfl := hadmits
              have hraises : Raises E.surroundings p nm ⟨⟨q, L, [.object E.surroundings.signal]⟩, s⟩
                  E.surroundings.signal ⟨q, L, []⟩ s := by
                refine .mk hthrow ?_ ⟨by simp, ?_, fun _ => rfl, fun _ => rfl⟩
                · rintro ⟨-, hserve⟩
                  cases hserve
                · rintro x hx
                  cases hx
                  exact ⟨rfl, rfl⟩
              have hsignal : E.surroundings.IsSignal E.surroundings.signal := E.surroundings.signal_isA
              have hpassed := passed_of_raises h.ready hmem hlow hhigh hraises hsignal
              have hrecord : FrameStack.record? { s with depth := d } d = some (s.recordAt d) := if_pos hroom
              have hdepth' : ({ s with depth := d } : FrameStack Value).depth = d := rfl
              obtain ⟨b, hback, hplace, hmirrors, hsame, -⟩ :=
                hst.reenters h hpt hl.toMirrors hdepth' hrecord
              have hplace : b.pc = p.place (pt.position + 1) := by
                have hnext := (Plan.pointCode h.ready.lays h.ready.sound hpt).next
                rw [hyield, if_pos rfl] at hnext
                omega
              obtain ⟨g, hl', hle⟩ := Level.of_reaches h hmirrors hplace hreach
              have hfree : ∀ t, Site.Free p.subject.types.sites t → t.absent? p.isOmitted = none := fun _ =>
                h.founded.absent?_of_free
              have hnow : Completes p.isOmitted obj pt.frame b (a.answered none) :=
                ⟨(hc.same hsame).stack, hc.size, (hc.same hsame).locals⟩
              have hrest' : (p.instrumented E nm args d).Behaves _ _ o :=
                ih _ (Nat.lt_succ_self _) _ g _ obj _ _ _ hl' (Frame.gaps_of_le hfree hle.stack ▸ hsupplies)
                  (by rw [← hpc]; rfl) (hnow.le hfree hle) hrest
              have hmove : (p.instrumented E nm args d).Moves ⟨⟨q, L, [.object E.surroundings.signal]⟩, s⟩
                  [.answered .yield none] ⟨Activation.enter nm args, { s with depth := d }⟩ :=
                .suspended hthrow (.yield hown) hraises hsignal hpassed rfl hrecord
              exact behaves_along hrun (.moves hmove (behaves_along hback hrest'))
      | caught hasks _ hbrings _ =>
          rw [hstep] at hasks
          cases hasks
          cases hbrings with
          | raised hraises => exact absurd hraises (h.conforms.yields _ _ _ _ rfl)
      | suspended _ hmay =>
          obtain ⟨pt', hmem', hpos, hno⟩ := hmay
          obtain ⟨i', hpt'⟩ := List.getElem?_of_mem hmem'
          obtain ⟨-, rfl⟩ := h.ready.sound.point_unique hpt' hpt (hpos.trans hpc)
          rw [hyield] at hno
          cases hno

/-! ## Segments -/

/-- The return of the method is one of the transformed method. -/
lemma reproduces_return {v : Value} (hstep : c.act.step (.ofMethod nm) = .returns v)
    (hreturns : a.step (.ofMethod p.subject.method) = .returns v) (hshows : (p.original E).Shows n a es o) :
    (p.instrumented E nm args d).Behaves c es o := by
  cases hshows with
  | stops => exact .stops
  | ends hend ho =>
      cases hend with
      | returned hother =>
          rw [hreturns] at hother
          cases hother
          exact .ends (.returned hstep) ho
      | threw hother | waits hother =>
          rw [hreturns] at hother
          cases hother
  | moves hmove _ =>
      cases hmove with
      | next hother | answered hother | caught hother | suspended hother =>
          rw [hreturns] at hother
          cases hother

/-- **Whatever is seen of the method from the beginning of a segment is seen of the transformed method.** -/
lemma reproduces (h : p.Faithful E nm args) (n : Nat) : Reproduces E p nm args d n := by
  induction n using Nat.strongRecOn with
  | ind n ih =>
  intro j f c obj a es o hl hsupplies hpc hc hshows
  cases hl.way h with
  | drops hl' hdrops =>
      cases hshows with
      | stops => exact .stops
      | ends hend _ => exact absurd hend (hdrops.lasts obj a hpc hc _ _)
      | moves hmove hrest =>
          obtain ⟨rfl, hpc', obj', hsupplies', hc'⟩ := hdrops.went obj a hsupplies hpc hc _ _ hmove
          exact ih _ (Nat.lt_succ_self _) _ _ _ obj' _ _ _ hl' hsupplies' hpc' hc' hrest
  | calls hpt hyield hpos hframe hrun hcall hsame =>
      subst hpos hframe
      exact behaves_along hrun (hcall.reproduces h hpt hyield ih hsupplies hpc (hc.same hsame) hshows)
  | yields hpt hyield hpos hframe =>
      subst hpos hframe
      exact hl.reproduces_yield h hpt hyield ih hsupplies hpc hc hshows
  | returns hrun hstep hwhole =>
      exact behaves_along hrun (reproduces_return hstep (hwhole obj a hpc hc) hshows)
  | stands hnone hs =>
      refine hs.reproduces h ih ?_ hsupplies hpc hc hshows
      intro m hm mode k vs isVoid a' es' hasks hmay
      obtain ⟨pt, hmem, hpos, -⟩ := hmay
      exact absurd hpos (hnone pt hmem)
  | @redoes c' n' cls hnone hrun hown hat hmissing hrest =>
      have hmade := hsupplies n' cls hmissing
      obtain ⟨c'', instr, img, after, hback, hs, hwhole⟩ := hrest _ c'.stack hmade rfl (Nat.le_refl _)
      have hcreate : c'.act.step (.ofMethod nm) = .asks (.create cls) c'.act := by
        obtain ⟨⟨q, L, vs⟩, s⟩ := c'
        rw [step_eq hat]
        rfl
      have hmove : (p.instrumented E nm args d).Moves c' []
          ⟨c'.act.answered (some (.object (obj n'))), c'.stack⟩ :=
        .answered hcreate hat (fun _ => ⟨cls, rfl⟩) (.made hmade) (.refl _ _)
      refine behaves_along hrun (.quietly hmove (behaves_along hback ?_))
      refine hs.reproduces h ih ?_ ?_ hpc (hwhole obj a rfl hc) hshows
      · intro m hm mode k vs isVoid a' es' hasks hmay
        obtain ⟨pt, hmem, hpos, -⟩ := hmay
        exact absurd hpos (hnone pt hmem)
      · exact fun k cls' hk => hsupplies k cls' (hs.covers k cls' hk)

end Running

end Suspension
