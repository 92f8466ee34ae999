import Suspension.Proofs.Instrument.Ways

/-!
# What is seen of a transformed method is explained

Whatever is seen of a transformed method is seen of the method as well, **for some choice of the objects of the
constructions that are put off**: for each of them the one that is made when the construction is redone.  The
induction is on the number of moves; a segment that is empty is crossed at once.

* `Running.Explained` — what is seen from a place is seen of the method, too.
* `Running.Standing.explains`, `Running.AtCall.explains`, `Running.Level.explains`.
-/

namespace Suspension

namespace Running

variable {E : Environment} {p : Plan} {nm : Method} {args : List Value} {d n i j : Nat} {out : Nat → Bool}
  {f after : Frame} {c c' : Running} {b : Activation} {instr img : Instruction} {pt : SuspensionPoint}
  {es : List Seen} {o : Option Ending}

/-- **What is seen is explained**: it is seen of the method, with some objects for what is missing. -/
def Explained (E : Environment) (p : Plan) (out : Nat → Bool) (f : Frame) (j : Nat) (b : Activation)
    (es : List Seen) (o : Option Ending) : Prop :=
  ∃ obj, E.Supplies obj (Frame.gaps out f.stack) ∧
    ∀ a, a.pc = j → Completes out obj f b a → (p.original E).Behaves a es o

/-- **All that is seen in `n` moves is explained**, from the beginning of any segment. -/
def Explains (E : Environment) (p : Plan) (nm : Method) (args : List Value) (d n : Nat) : Prop :=
  ∀ j f c es o, Level E p args d j f c → (p.instrumented E nm args d).Shows n c es o →
    Explained E p p.isOmitted f j c.act es o

/-- Where nothing is seen there is nothing to explain. -/
lemma Explained.nothing (h : p.Faithful E nm args) (hf : p.subject.types.frames[j]? = some (some f))
    (hcovers : ∀ n cls, some (n, cls) ∈ Frame.gaps out f.stack →
      some (n, cls) ∈ Frame.gaps p.isOmitted f.stack) : Explained E p out f j b [] none := by
  obtain ⟨obj, hobj⟩ := h.exists_supplies
  exact ⟨obj, fun n cls hn => hobj hf n cls (hcovers n cls hn), fun _ _ _ => .stops⟩

/-- Only the values that the frame speaks of count. -/
lemma Explained.same (h : Explained E p out f j c'.act es o) (hsame : Same f c.act c'.act) :
    Explained E p out f j c.act es o := by
  obtain ⟨obj, hobj, hwhole⟩ := h
  exact ⟨obj, hobj, fun a hpc hc => hwhole a hpc (hc.same hsame)⟩

/-- **A run goes on as the classes alone decide**, as long as there is one way to go. -/
lemma shows_along (h : p.Faithful E nm args)
    (hrun : Relation.ReflTransGen (Proceeds E.toClasses E.surroundings p nm) c c')
    (hshows : (p.instrumented E nm args d).Shows n c es o) :
    (es = [] ∧ o = none) ∨ ∃ k ≤ n, (p.instrumented E nm args d).Shows k c' es o :=
  hshows.after (hrun.lift id fun _ _ hstep => only_of_proceeds h.ready h.conforms hstep)

/-! ## What the transformation put in -/

variable {r : Request} {a : Activation} {x : ObjectId} {cls : Text}

/-- **The moves where the transformation makes an object or throws one**: the object is made, or the signal
leaves the method, which is entered again. -/
lemma own_moves (hown : p.Own c.act.pc) (hstep : c.act.step (.ofMethod nm) = .asks r a)
    (hr : (∃ cls, r = .create cls) ∨ ∃ x, r = .throw x) (hmove : (p.instrumented E nm args d).Moves c es c') :
    (es = [] ∧ ∃ cls x s', r = .create cls ∧ E.made x cls ∧ s'.depth = c.stack.depth
        ∧ c.stack.room ≤ s'.room ∧ c' = ⟨a.answered (some (.object x)), s'⟩) ∨
    (r = .throw E.surroundings.signal ∧ es = [.answered .yield none] ∧ ∃ s', s'.depth = d
      ∧ s'.record? d = some (c.stack.recordAt d) ∧ c' = ⟨Activation.enter nm args, s'⟩) := by
  cases hmove with
  | proceeds hgo =>
      exfalso
      cases hgo with
      | advances hadv =>
          rcases hadv with hother | ⟨-, hother, hserve⟩
          · rw [hstep] at hother
            cases hother
          · rw [hstep] at hother
            cases hother
            rcases hr with ⟨_, rfl⟩ | ⟨_, rfl⟩ <;> cases hserve
      | cast hother _ =>
          rw [hstep] at hother
          cases hother
          rcases hr with ⟨_, hr⟩ | ⟨_, hr⟩ <;> cases hr
  | answered hasks _ hcreate hbrings hkeeps =>
      rw [hstep] at hasks
      cases hasks
      obtain ⟨cls, rfl⟩ := hcreate hown
      cases hbrings with
      | made hmade => exact Or.inl ⟨rfl, cls, _, _, rfl, hmade, hkeeps.depth, hkeeps.room, rfl⟩
      | answered hsilent _ _ => cases hsilent
  | caught _ _ hforeign => exact absurd hown hforeign
  | suspended hasks hpoint hraises _ _ hdepth hrecord =>
      rw [hstep] at hasks
      cases hasks
      cases hpoint with
      | call => rcases hr with ⟨_, hr⟩ | ⟨_, hr⟩ <;> cases hr
      | yield =>
          obtain ⟨hthrow, -, hthrows⟩ := hraises
          rw [hstep] at hthrow
          cases hthrow
          obtain ⟨-, rfl⟩ := hthrows.thrown _ rfl
          exact Or.inr ⟨rfl, rfl, _, hdepth, hrecord, rfl⟩

/-- **And the ends there**: what is thrown leaves the method, or the method is not entered again. -/
lemma own_ends {out : Ending} (hown : p.Own c.act.pc) (hstep : c.act.step (.ofMethod nm) = .asks r a)
    (hend : (p.instrumented E nm args d).Ends c es out) : es = [] ∧ ∃ x, r = .throw x ∧
      ((out = .outcome (.threw x) ∧ (Body.ofMethod nm).handlerFor (E.surroundings.isA x) c.act.pc = none)
        ∨ out = .waits .yield ∧ x = E.surroundings.signal) := by
  cases hend with
  | returned hother =>
      rw [hstep] at hother
      cases hother
  | rethrew hother _ huncaught =>
      rw [hstep] at hother
      cases hother
      exact ⟨rfl, _, rfl, Or.inl ⟨rfl, huncaught⟩⟩
  | yields hother =>
      rw [hstep] at hother
      cases hother
      exact ⟨rfl, _, rfl, Or.inr ⟨rfl, rfl⟩⟩
  | threw _ _ hforeign | waits _ hforeign => exact absurd hown hforeign

/-- **A `new` that the transformation put in** is answered, and nothing is seen of it. -/
lemma shows_create (hown : p.Own c.act.pc) (hat : nm.code[c.act.pc]? = some ⟨.new, .type cls⟩)
    (hshows : (p.instrumented E nm args d).Shows n c es o) :
    (es = [] ∧ o = none) ∨ ∃ k < n, ∃ y s', E.made y cls ∧ s'.depth = c.stack.depth
      ∧ c.stack.room ≤ s'.room
      ∧ (p.instrumented E nm args d).Shows k ⟨c.act.answered (some (.object y)), s'⟩ es o := by
  have hstep : c.act.step (.ofMethod nm) = .asks (.create cls) c.act := by
    obtain ⟨⟨q, L, vs⟩, s⟩ := c
    rw [step_eq hat]
    rfl
  cases hshows with
  | stops => exact Or.inl ⟨rfl, rfl⟩
  | ends hend _ =>
      obtain ⟨-, x, hx, -⟩ := own_ends hown hstep hend
      cases hx
  | moves hmove hrest =>
      rcases own_moves hown hstep (Or.inl ⟨cls, rfl⟩) hmove with
        ⟨rfl, _, y, s', hr, hmade, hdepth, hroom, rfl⟩ | ⟨hr, -⟩
      · cases hr
        exact Or.inr ⟨_, Nat.lt_succ_self _, y, s', hmade, hdepth, hroom, hrest⟩
      · cases hr

/-- **What is thrown again** once the record is popped leaves the method. -/
lemma shows_rethrow (hown : p.Own c.act.pc) (hstep : c.act.step (.ofMethod nm) = .asks (.throw x) a)
    (hne : x ≠ E.surroundings.signal) (hshows : (p.instrumented E nm args d).Shows n c es o) :
    es = [] ∧ (o = none ∨ o = some (.outcome (.threw x))) := by
  cases hshows with
  | stops => exact ⟨rfl, Or.inl rfl⟩
  | ends hend ho =>
      obtain ⟨rfl, y, hy, ⟨rfl, -⟩ | ⟨-, rfl⟩⟩ := own_ends hown hstep hend
      · cases hy
        exact ⟨rfl, ho⟩
      · cases hy
        exact absurd rfl hne
  | moves hmove hrest =>
      exfalso
      rcases own_moves hown hstep (Or.inr ⟨x, rfl⟩) hmove with ⟨-, _, _, _, hr, -⟩ | ⟨hr, -⟩
      · cases hr
      · cases hr
        exact hne rfl

/-- **A signal that a request raises leaves the method**: no handler of the method comes to see it, and
nothing else is seen. -/
lemma shows_signal (hr : p.Ready E.toClasses nm) (hE : E.Conforms) (hx : E.surroundings.IsSignal x)
    (hne : x ≠ E.surroundings.signal) (hshows : (p.instrumented E nm args d).Shows n c es o)
    (hraised : Seen.raised r x ∈ es) : o = none ∨ o = some (.outcome (.threw x)) := by
  induction hshows with
  | stops => cases hraised
  | ends hend ho =>
      cases hend with
      | threw _ _ _ hbrings _ =>
          cases hbrings with
          | raised =>
              cases List.mem_singleton.mp hraised
              exact ho
      | _ => cases hraised
  | moves hmove hrest ih =>
      refine (List.mem_append.mp hraised).elim (fun hraised => ?_) ih
      cases hmove with
      | proceeds => cases hraised
      | answered _ _ _ hbrings _ =>
          cases hbrings with
          | made | passed => cases hraised
          | answered => cases List.mem_singleton.mp hraised
      | suspended _ hpoint => cases hpoint <;> cases List.mem_singleton.mp hraised
      | caught _ _ hown hbrings _ hcaught =>
          cases hbrings with
          | raised =>
              cases List.mem_singleton.mp hraised
              obtain ⟨hlow, hhigh⟩ := Plan.bounds_of_not_own hr.lays hr.sound hown
              rw [hr.lands_signal (by omega) hhigh hx] at hcaught
              cases hcaught
              have hmark : nm.code[p.place p.code.size + 4]? = some (.mark p.catchSignalLabel) :=
                hr.lays.epilogue 4 (by simp)
              have hown : p.Own (p.place p.code.size + 4 + 1) :=
                Plan.own_epilogue hr.lays hr.sound (by omega)
              rcases hrest.after (.single (only_of_proceeds hr hE (.advances (advances_mark hmark)))) with
                ⟨-, rfl⟩ | ⟨k, -, hrest⟩
              · exact Or.inl rfl
              · exact (shows_rethrow hown (step_rethrow hr _ _) hne hrest).2

/-- **The signal that a request to suspend throws** leaves the method, and the method waits to be entered
again. -/
lemma shows_yield (hown : p.Own c.act.pc)
    (hstep : c.act.step (.ofMethod nm) = .asks (.throw E.surroundings.signal) a)
    (hcaught : (Body.ofMethod nm).handlerFor (E.surroundings.isA E.surroundings.signal) c.act.pc ≠ none)
    (hshows : (p.instrumented E nm args d).Shows n c es o) :
    (es = [] ∧ (o = none ∨ o = some (.waits .yield))) ∨ ∃ k < n, ∃ s' es', s'.depth = d
      ∧ s'.record? d = some (c.stack.recordAt d) ∧ es = .answered .yield none :: es'
      ∧ (p.instrumented E nm args d).Shows k ⟨Activation.enter nm args, s'⟩ es' o := by
  cases hshows with
  | stops => exact Or.inl ⟨rfl, Or.inl rfl⟩
  | ends hend ho =>
      obtain ⟨rfl, y, hy, ⟨-, huncaught⟩ | ⟨rfl, -⟩⟩ := own_ends hown hstep hend
      · cases hy
        exact absurd huncaught hcaught
      · exact Or.inl ⟨rfl, ho⟩
  | moves hmove hrest =>
      rcases own_moves hown hstep (Or.inr ⟨_, rfl⟩) hmove with
        ⟨-, _, _, _, hr, -⟩ | ⟨-, rfl, s', hdepth, hrecord, rfl⟩
      · cases hr
      · exact Or.inr ⟨_, Nat.lt_succ_self _, s', _, hdepth, hrecord, rfl, hrest⟩

/-! ## Instructions -/

variable {v : Option Value} {es' : List Seen} {s' : FrameStack Value}

/-- **An answer is explained** by the answer that the instruction gets. -/
lemma Standing.explains_answer (hs : Standing E p nm args d out j instr img f after c)
    (h : p.Faithful E nm args) (ih : Explains E p nm args d n) (hstep : c.act.step (.ofMethod nm) = .asks r b)
    (hbrings : E.Brings img r (.answer v) es) (hdepth : s'.depth = c.stack.depth)
    (hroom : c.stack.room ≤ s'.room)
    (hrest : (p.instrumented E nm args d).Shows n ⟨b.answered v, s'⟩ es' o) :
    Explained E p out f j c.act (es ++ es') o := by
  have houtcome := hs.outcome
  rw [hstep] at houtcome
  cases houtcome with
  | asks hpc hlocals hseen hsame hanswer hwhole =>
      have hbrings := (hsame _ _).mp hbrings
      obtain ⟨hreach, hmirrors⟩ := hanswer v es hbrings
      have hplace : (b.answered v).pc = p.place (j + 1) := by
        rw [← hs.next, ← hpc]
        rfl
      obtain ⟨g, hl, hle⟩ := Level.of_reaches h ((hmirrors s' hdepth hroom).congr hs.gaps) hplace hreach
      obtain ⟨obj, hobj, hexplains⟩ := ih _ g _ _ _ hl hrest
      have hgaps := Frame.gaps_of_le (fun _ => h.founded.absent?_of_free) hle.stack
      refine ⟨obj, (hs.supplies obj).mpr (hgaps ▸ hobj), fun a hpc hc => ?_⟩
      obtain ⟨a', hasks, hpc', -, hanswered⟩ := hwhole obj a hpc hc
      refine .moves (.answered hasks (hpc ▸ hs.code_at) hbrings) (hexplains _ ?_ ?_)
      · rw [← hpc']
        rfl
      · exact ((hanswered v es hbrings).congr hs.gaps).le (fun _ => h.founded.absent?_of_free) hle

/-- **An exception is explained** by the exception that comes of the instruction. -/
lemma Standing.explains_exception (hs : Standing E p nm args d out j instr img f after c)
    (h : p.Faithful E nm args) (ih : Explains E p nm args d n) (hstep : c.act.step (.ofMethod nm) = .asks r b)
    (hbrings : E.Brings img r (.exception x) es) {q : Nat}
    (hcaught : (Body.ofMethod nm).handlerFor (E.surroundings.isA x) c.act.pc = some q)
    (hdepth : s'.depth = c.stack.depth) (hroom : c.stack.room ≤ s'.room)
    (hrest : (p.instrumented E nm args d).Shows n ⟨b.caught q x, s'⟩ es' o) :
    Explained E p out f j c.act (es ++ es') o := by
  have houtcome := hs.outcome
  rw [hstep] at houtcome
  cases houtcome with
  | asks hpc hlocals hseen hsame hanswer hwhole =>
      obtain ⟨hraises, rfl⟩ : E.raises r.seen x ∧ es = [.raised r.seen x] := by
        cases hbrings with
        | raised hraises => exact ⟨hraises, rfl⟩
      have hbrings := (hsame _ _).mp hbrings
      rcases lands h hs.toMirrors (hs.asks _ _ hstep).1 hs.frame hraises hdepth hroom hlocals with
        ⟨hnone, hland⟩ | ⟨k, g, hsome, hland, hl, hwholes⟩
      · -- the record is popped, and the exception leaves the method
        rw [hland] at hcaught
        cases hcaught
        have hhandle : b.locals[p.stackVar.toNat]? = some (.object E.surroundings.handle) := by
          rw [hlocals]
          exact hs.handle
        obtain ⟨hrun, hthrow, hown, -⟩ := rethrows (s := s') (o := x) h hhandle
        have hsignal := h.signals _ _ hraises
        obtain ⟨rfl, ho⟩ : es' = [] ∧ (o = none ∨ o = some (.outcome (.threw x))) := by
          rcases shows_along h hrun hrest with ⟨rfl, rfl⟩ | ⟨k, -, hshows⟩
          · exact ⟨rfl, Or.inl rfl⟩
          · exact shows_rethrow hown hthrow (fun heq => hsignal (heq ▸ E.surroundings.signal_isA)) hshows
        obtain ⟨obj, hobj⟩ := h.exists_supplies
        refine ⟨obj, fun n cls hn => hobj hs.frame n cls (hs.covers n cls hn), fun a hpc hc => ?_⟩
        obtain ⟨a', hasks, -⟩ := hwhole obj a hpc hc
        exact .ends (.threw hasks (hpc ▸ hs.code_at) hbrings (hpc ▸ hnone)) ho
      · rw [hland] at hcaught
        cases hcaught
        obtain ⟨obj, hobj, hexplains⟩ := ih k g _ _ _ hl hrest
        obtain ⟨obj₀, hobj₀⟩ := h.exists_supplies
        refine ⟨obj₀, fun n cls hn => hobj₀ hs.frame n cls (hs.covers n cls hn), fun a hpc hc => ?_⟩
        obtain ⟨a', hasks, -, hlocals', -⟩ := hwhole obj₀ a hpc hc
        refine .moves (.caught hasks (hpc ▸ hs.code_at) hbrings (hpc ▸ hsome)) (hexplains _ rfl ?_)
        exact hwholes obj₀ obj a a' hc hlocals'

/-- **What is seen from an instruction on is explained**, if it is explained from where the instruction leads,
and from where the method comes to when the suspend signal leaves it there. -/
lemma Standing.explains (hs : Standing E p nm args d out j instr img f after c) (h : p.Faithful E nm args)
    (ih : ∀ m < n, Explains E p nm args d m)
    (hagain : ∀ m < n, ∀ r a x s s' e es', c.act.step (.ofMethod nm) = .asks r a →
      p.SuspendsAt E.surroundings c.act.pc r e → Raises E.surroundings p nm c x a s →
      E.surroundings.IsSignal x → s'.depth = d → s'.record? d = some (s.recordAt d) →
      (p.instrumented E nm args d).Shows m ⟨Activation.enter nm args, s'⟩ es' o →
        Explained E p out f j c.act (e :: es') o)
    (hshows : (p.instrumented E nm args d).Shows n c es o) : Explained E p out f j c.act es o := by
  have houtcome := hs.outcome
  obtain ⟨obj, hobj⟩ := h.exists_supplies
  have hsupplies : E.Supplies obj (Frame.gaps out f.stack) := fun n cls hn =>
    hobj hs.frame n cls (hs.covers n cls hn)
  cases hshows with
  | stops => exact .nothing h hs.frame hs.covers
  | ends hend ho =>
      cases hend with
      | returned hstep =>
          rw [hstep] at houtcome
          cases houtcome with
          | returns hwhole => exact ⟨obj, hsupplies, fun a hpc hc => .ends (.returned (hwhole obj a hpc hc)) ho⟩
      | threw hstep _ _ hbrings huncaught =>
          -- whatever is raised in the method is caught, if only to pop the record
          exfalso
          cases hbrings with
          | raised hraises =>
              rcases lands h hs.toMirrors (hs.asks _ _ hstep).1 hs.frame hraises rfl (Nat.le_refl _) rfl with
                ⟨-, hland⟩ | ⟨_, _, -, hland, -⟩ <;> rw [hland] at huncaught <;> cases huncaught
      | waits hstep _ hsilent =>
          rw [hstep] at houtcome
          cases houtcome with
          | @asks r _ _ hpc hlocals hseen hsame hanswer hwhole =>
              refine ⟨obj, hsupplies, fun a hpc hc => ?_⟩
              obtain ⟨a', hasks, -⟩ := hwhole obj a hpc hc
              rw [hseen] at ho
              refine .ends (.waits hasks ?_) ho
              rw [← Request.isSilent_seen, ← hseen, Request.isSilent_seen, hsilent]
      | rethrew hstep hown | yields hstep hown => exact absurd hown (hs.asks _ _ hstep).2
  | moves hmove hrest =>
      cases hmove with
      | proceeds hgo =>
          cases hgo with
          | advances hadv =>
              rcases hadv with hstep | ⟨hown, hstep, -⟩
              · rw [hstep] at houtcome
                cases houtcome with
                | next hreach hpc hm hwhole =>
                    obtain ⟨g, hl, hle⟩ := Level.of_reaches h (hm.congr hs.gaps) hpc hreach
                    obtain ⟨obj, hobj, hexplains⟩ := ih _ (Nat.lt_succ_self _) _ g _ _ _ hl hrest
                    have hgaps := Frame.gaps_of_le (fun _ => h.founded.absent?_of_free) hle.stack
                    refine ⟨obj, (hs.supplies obj).mpr (hgaps ▸ hobj), fun a hpc hc => ?_⟩
                    obtain ⟨a', hnext, hpc', hc'⟩ := hwhole obj a hpc hc
                    refine .quietly (.next hnext) (hexplains a' hpc' ?_)
                    exact (hc'.congr hs.gaps).le (fun _ => h.founded.absent?_of_free) hle
              · exact absurd hown (hs.asks _ _ hstep).2
          | cast hstep hv =>
              exact hs.explains_answer h (ih _ (Nat.lt_succ_self _)) hstep (.passed hv) rfl
                (Nat.le_refl _) hrest
      | answered hstep hat _ hbrings hkeeps =>
          obtain rfl := Option.some.inj (hs.image_at.symm.trans hat)
          exact hs.explains_answer h (ih _ (Nat.lt_succ_self _)) hstep hbrings hkeeps.depth hkeeps.room hrest
      | caught hstep hat _ hbrings hkeeps hcaught =>
          obtain rfl := Option.some.inj (hs.image_at.symm.trans hat)
          exact hs.explains_exception h (ih _ (Nat.lt_succ_self _)) hstep hbrings hcaught hkeeps.depth
            hkeeps.room hrest
      | suspended hstep hpoint hraises hsignal _ hdepth hrecord =>
          exact hagain _ (Nat.lt_succ_self _) _ _ _ _ _ _ _ hstep hpoint hraises hsignal hdepth hrecord hrest

/-- **Only a call that may be put off is left by the signal.** -/
lemma Standing.not_suspends (hs : Standing E p nm args d out j instr img f after c) (h : p.Faithful E nm args)
    (hnone : ∀ pt ∈ p.points, pt.position ≠ j) (hstep : c.act.step (.ofMethod nm) = .asks r b) {e : Seen} :
    ¬ p.SuspendsAt E.surroundings c.act.pc r e := by
  obtain ⟨hw, hforeign⟩ := hs.asks r b hstep
  intro hpoint
  generalize hq : c.act.pc = q at hpoint hw hforeign
  cases hpoint with
  | @call pt mode m vs isVoid hpt hyield hat =>
      obtain ⟨i, hi⟩ := List.getElem?_of_mem hpt
      obtain ⟨instr, -, hcode, -⟩ := h.ready.sound.point_call hi
      obtain ⟨hwithin, -⟩ := (Plan.survives_point h.ready.sound hi hyield hcode).image h.ready.lays
        h.ready.sound
      subst hat
      exact hnone pt hpt (Plan.segment_unique hwithin.low hwithin.high hw.low hw.high)
  | yield hown => exact hforeign hown

/-- **What is seen from a call on that may be put off is explained.**  The call is made again whenever the
signal has left the method there. -/
lemma AtCall.explains (hc : AtCall E p args d pt c) (h : p.Faithful E nm args) (hpt : p.points[i]? = some pt)
    (hyield : pt.isYield = false) (ih : ∀ m < n, Explains E p nm args d m)
    (hshows : (p.instrumented E nm args d).Shows n c es o) :
    Explained E p p.isOmitted pt.frame pt.position c.act es o := by
  induction n using Nat.strongRecOn generalizing c es with
  | ind n ihn =>
  obtain ⟨instr, img, after, hs⟩ := hc.standing h hpt hyield
  refine hs.explains h ih ?_ hshows
  intro m hm r a x s s' e es' hstep hpoint hraises hsignal hdepth hrecord hrest
  have hforeign := (hs.asks _ _ hstep).2
  obtain ⟨c', hrun, hc', hsame⟩ := hc.again h hpt hyield hraises hsignal hdepth hrecord
  have hback : Explained E p p.isOmitted pt.frame pt.position c.act es' o := by
    rcases shows_along h hrun hrest with ⟨rfl, rfl⟩ | ⟨k, hk, hshows'⟩
    · exact .nothing h hs.frame fun _ _ hn => hn
    · exact (ihn k (by omega) hc' (fun m' hm' => ih m' (by omega)) hshows').same hsame
  obtain ⟨obj, hobj, hexplains⟩ := hback
  have houtcome := hs.outcome
  rw [hstep] at houtcome
  generalize c.act.pc = q at hpoint hforeign
  cases hpoint with
  | call hmem hno hq =>
      cases houtcome with
      | asks _ _ hseen _ _ hwhole =>
          refine ⟨obj, hobj, fun a hpc hcomplete => ?_⟩
          obtain ⟨a', hasks, -⟩ := hwhole obj a hpc hcomplete
          obtain ⟨mode, m, vs, isVoid, rfl⟩ := Request.eq_invoke_of_seen hseen.symm
          have hmay : p.MaySuspend a.pc := ⟨pt, List.mem_of_getElem? hpt, hpc.symm, hyield⟩
          have hmove : (p.original E).Moves a [.suspended (Request.invoke mode m vs isVoid).seen] a :=
            .suspended hasks hmay
          rw [hseen]
          exact .moves hmove (hexplains a hpc hcomplete)
  | yield hown => exact absurd hown hforeign

/-! ## Segments -/

/-- **A request to suspend is explained** by its answer, which comes when the method is entered again. -/
lemma Level.explains_yield (hl : Level E p args d pt.position pt.frame c) (h : p.Faithful E nm args)
    (hpt : p.points[i]? = some pt) (hyield : pt.isYield = true) (ih : ∀ m < n, Explains E p nm args d m)
    (hshows : (p.instrumented E nm args d).Shows n c es o) :
    Explained E p p.isOmitted pt.frame pt.position c.act es o := by
  obtain ⟨q, L, s, hrun, hthrow, hown, ⟨hlow, hhigh⟩, hst, hdepth, hroom⟩ := hl.yields h hpt hyield
  obtain ⟨instr, hat, hreads, hstep, hreach⟩ := step_yield h (List.mem_of_getElem? hpt) hyield
  obtain ⟨obj₀, hobj₀⟩ := h.exists_supplies
  have hcaught : (Body.ofMethod nm).handlerFor (E.surroundings.isA E.surroundings.signal) q
      = some (p.place p.code.size + 4) := by
    have hfrom : 6 ≤ p.place pt.position := p.place_mono (Nat.zero_le _)
    have hupto := p.place_mono
      (show pt.position + 1 ≤ p.code.size from (h.ready.sound.segmentAt_point hpt).1)
    exact h.ready.lands_signal (by omega) (by omega) E.surroundings.signal_isA
  rcases shows_along h hrun hshows with ⟨rfl, rfl⟩ | ⟨k, hk, hshows'⟩
  · exact .nothing h hl.frame fun _ _ hn => hn
  rcases shows_yield hown hthrow (by rw [hcaught]; simp) hshows' with
    ⟨rfl, ho⟩ | ⟨m, hm, s', es', hdepth', hrecord, rfl, hrest⟩
  · exact ⟨obj₀, hobj₀ hl.frame, fun a hpc _ => .ends (.waits (hstep a hpc) rfl) ho⟩
  · obtain ⟨b, hback, hpc', hmirrors, hsame, -⟩ :=
      hst.reenters h hpt hl.toMirrors hdepth' hrecord
    have hplace : b.pc = p.place (pt.position + 1) := by
      have hnext := (Plan.pointCode h.ready.lays h.ready.sound hpt).next
      rw [hyield, if_pos rfl] at hnext
      omega
    obtain ⟨g, hl', hle⟩ := Level.of_reaches h hmirrors hplace hreach
    have hgaps := Frame.gaps_of_le (fun _ => h.founded.absent?_of_free) hle.stack
    have hexplained : Explained E p p.isOmitted g (pt.position + 1) b es' o := by
      rcases shows_along h hback hrest with ⟨rfl, rfl⟩ | ⟨k', hk', hshows''⟩
      · exact .nothing h hl'.frame fun _ _ hn => hn
      · exact ih k' (by omega) _ g _ _ _ hl' hshows''
    obtain ⟨obj, hobj, hexplains⟩ := hexplained
    refine ⟨obj, hgaps ▸ hobj, fun a hpc hc => ?_⟩
    have hbrings : E.Brings instr .yield (.answer none) [.answered .yield none] :=
      .answered rfl hreads rfl
    have hmove : (p.original E).Moves a [.answered .yield none] (a.answered none) :=
      .answered (hstep a hpc) (hpc ▸ hat) hbrings
    refine .moves hmove (hexplains _ ?_ ?_)
    · rw [← hpc]
      rfl
    · have hnow : Completes p.isOmitted obj pt.frame b (a.answered none) :=
        ⟨(hc.same hsame).stack, hc.size, (hc.same hsame).locals⟩
      exact hnow.le (fun _ => h.founded.absent?_of_free) hle

/-- A return is explained by the return of the method. -/
lemma explains_return (h : p.Faithful E nm args) (hf : p.subject.types.frames[j]? = some (some f)) {v : Value}
    (hstep : c'.act.step (.ofMethod nm) = .returns v)
    (hwhole : ∀ obj a, a.pc = j → Completes p.isOmitted obj f b a →
      a.step (.ofMethod p.subject.method) = .returns v)
    (hshows : (p.instrumented E nm args d).Shows n c' es o) : Explained E p p.isOmitted f j b es o := by
  obtain ⟨obj, hobj⟩ := h.exists_supplies
  cases hshows with
  | stops => exact .nothing h hf fun _ _ hn => hn
  | ends hend ho =>
      cases hend with
      | returned hother =>
          rw [hstep] at hother
          cases hother
          exact ⟨obj, hobj hf, fun a hpc hc => .ends (.returned (hwhole obj a hpc hc)) ho⟩
      | threw hother | rethrew hother | waits hother | yields hother =>
          rw [hstep] at hother
          cases hother
  | moves hmove hrest =>
      exfalso
      cases hmove with
      | proceeds hgo =>
          cases hgo with
          | advances hadv =>
              rcases hadv with hother | ⟨-, hother, -⟩ <;> rw [hstep] at hother <;> cases hother
          | cast hother _ =>
              rw [hstep] at hother
              cases hother
      | answered hother | caught hother | suspended hother =>
          rw [hstep] at hother
          cases hother

/-- **The object of a construction that is redone** is the one that was missing. -/
lemma Explained.redone {k : Nat} {b' : Activation} (h : Explained E p (p.without k) f j b' es o)
    (hcls : ∀ cls', some (k, cls') ∈ Frame.gaps p.isOmitted f.stack → cls' = cls) (hmade : E.made x cls)
    (hwhole : ∀ obj a, obj k = x → Completes p.isOmitted obj f b a → Completes (p.without k) obj f b' a) :
    Explained E p p.isOmitted f j b es o := by
  obtain ⟨obj, hobj, hexplains⟩ := h
  have hself : Function.update obj k x k = x := Function.update_self _ _ _
  have hother : ∀ n, n ≠ k → Function.update obj k x n = obj n := fun n hn => Function.update_of_ne hn _ _
  refine ⟨Function.update obj k x, fun n cls' hn => ?_, fun a hpc hc => hexplains a hpc ?_⟩
  · by_cases hk : n = k
    · subst hk
      rw [hself, hcls cls' hn]
      exact hmade
    · rw [hother n hk]
      exact hobj n cls' (Plan.mem_gaps_without.mpr ⟨hn, hk⟩)
  · have hnow := hwhole _ a hself hc
    refine { hnow with stack := hnow.stack.trans (Frame.thicken_congr fun n cls' hn => ?_) }
    exact hother n (Plan.mem_gaps_without.mp hn).2

/-- **Whatever is seen of a transformed method from the beginning of a segment is explained.** -/
lemma explains (h : p.Faithful E nm args) (n : Nat) : Explains E p nm args d n := by
  induction n using Nat.strongRecOn with
  | ind n ih =>
  intro j
  have hsize := h.ready.certified.size
  induction hleft : p.code.size - j generalizing j with
  | zero =>
      intro f c es o hl
      have := (Array.getElem?_eq_some_iff.mp hl.frame).1
      unfold Plan.code at hleft
      omega
  | succ k ihk =>
      intro f c es o hl hshows
      cases hl.way h with
      | drops hl' hdrops =>
          obtain ⟨obj, hobj, hexplains⟩ := ihk (j + 1) (by omega) _ _ _ _ hl' hshows
          obtain ⟨hsupplies, hgoes⟩ := hdrops.goes obj hobj
          refine ⟨obj, hsupplies, fun a hpc hc => ?_⟩
          obtain ⟨a', hmove, hpc', hc'⟩ := hgoes a hpc hc
          exact .quietly hmove (hexplains a' hpc' hc')
      | calls hpt hyield hpos hframe hrun hc hsame =>
          subst hpos hframe
          rcases shows_along h hrun hshows with ⟨rfl, rfl⟩ | ⟨m, hm, hshows'⟩
          · exact .nothing h hl.frame fun _ _ hn => hn
          · exact (hc.explains h hpt hyield (fun m' hm' => ih m' (by omega)) hshows').same hsame
      | yields hpt hyield hpos hframe =>
          subst hpos hframe
          exact hl.explains_yield h hpt hyield ih hshows
      | returns hrun hstep hwhole =>
          rcases shows_along h hrun hshows with ⟨rfl, rfl⟩ | ⟨m, -, hshows'⟩
          · exact .nothing h hl.frame fun _ _ hn => hn
          · exact explains_return h hl.frame hstep hwhole hshows'
      | stands hnone hs =>
          refine hs.explains h ih ?_ hshows
          intro m hm r a x s s' e es' hstep hpoint
          exact absurd hpoint (hs.not_suspends h hnone hstep)
      | redoes hnone hrun hown hat hmissing hrest =>
          rename_i c' n' cls
          rcases shows_along h hrun hshows with ⟨rfl, rfl⟩ | ⟨m, hm, hshows'⟩
          · exact .nothing h hl.frame fun _ _ hn => hn
          rcases shows_create hown hat hshows' with
            ⟨rfl, rfl⟩ | ⟨m', hm', x, s', hmade, hdepth, hroom, hshows''⟩
          · exact .nothing h hl.frame fun _ _ hn => hn
          obtain ⟨c'', instr, img, after, hback, hs, hwhole⟩ := hrest x s' hmade hdepth hroom
          rcases shows_along h hback hshows'' with ⟨rfl, rfl⟩ | ⟨m'', hm'', hshows₃⟩
          · exact .nothing h hl.frame fun _ _ hn => hn
          have hexplained : Explained E p (p.without n') f j c''.act es o := by
            refine hs.explains h (fun m hm => ih m (by omega)) ?_ hshows₃
            intro m hm r a x s s' e es' hstep hpoint
            exact absurd hpoint (hs.not_suspends h hnone hstep)
          exact hexplained.redone (fun _ => h.founded.gap_class hl.frame hmissing) hmade hwhole

end Running

end Suspension
