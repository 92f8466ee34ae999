import Suspension.Proofs.Code.Deepest

/-!
# The depth of a body is exact

The pass over depths keeps the first depth that it finds for a position.  What it reports is nevertheless a
statement about **all paths of the control flow**: it succeeds exactly if no path meets an obstacle and no
two paths disagree, and then it reports the deepest stack on any of them.

* `StackDepth.Reachable` — control may come to a position, whatever is on the stack.
* `StackDepth.Path` — a path of control, with the depth that it reaches its end with.
* `StackDepth.Consistent` — the labels are there, the effects are known, the paths agree and none
  underflows.
* `Method.stackNeed_eq_ok_iff` — the depth that a method needs.

The depth on a path is an integer here, so that a path that takes too much off the stack shows it.  The
depths of `StackDepth.Arrives` are natural numbers; where nothing underflows the two are the same,
`StackDepth.Consistent.steady`.
-/

namespace Suspension

namespace StackDepth

/-- **Control may come to a position**: at the entry, at a handler, at the target of a jump, and behind an
instruction that does not end its block. -/
inductive Reachable (code : Code) (ranges : List ExceptionRange) : Nat → Prop where
  | entry (hlt : 0 < code.size) : Reachable code ranges 0
  | handler {r : ExceptionRange} {i : Nat} (hr : r ∈ ranges)
      (hi : code.labelAt? r.handler = some i) : Reachable code ranges i
  | target {i t : Nat} {instr : Instruction} {id : Label} (h : Reachable code ranges i)
      (hcode : code[i]? = some instr) (hid : id ∈ instr.targets) (ht : code.labelAt? id = some t) :
      Reachable code ranges t
  | next {i : Nat} {instr : Instruction} (h : Reachable code ranges i) (hcode : code[i]? = some instr)
      (hends : instr.opcode.endsBlock = false) (hlt : i + 1 < code.size) :
      Reachable code ranges (i + 1)

/-- **A path of control**, from the entry with an empty stack or from a handler with an exception, and the
depth that it reaches its end with. -/
inductive Path (code : Code) (ranges : List ExceptionRange) : Nat → Int → Prop where
  | entry (hlt : 0 < code.size) : Path code ranges 0 0
  | handler {r : ExceptionRange} {i : Nat} (hr : r ∈ ranges)
      (hi : code.labelAt? r.handler = some i) : Path code ranges i 1
  | target {i pops pushes t : Nat} {d : Int} {instr : Instruction} {id : Label}
      (h : Path code ranges i d) (hcode : code[i]? = some instr)
      (hdelta : instr.delta = .ok (pops, pushes)) (hid : id ∈ instr.targets)
      (ht : code.labelAt? id = some t) : Path code ranges t (d - pops + pushes)
  | next {i pops pushes : Nat} {d : Int} {instr : Instruction} (h : Path code ranges i d)
      (hcode : code[i]? = some instr) (hdelta : instr.delta = .ok (pops, pushes))
      (hends : instr.opcode.endsBlock = false) (hlt : i + 1 < code.size) :
      Path code ranges (i + 1) (d - pops + pushes)

/-- **A body whose depths are consistent**: every handler and every target of a reachable instruction is
there, every reachable instruction has a known effect, all paths to an instruction reach it with the same
depth, and no path underflows. -/
structure Consistent (code : Code) (ranges : List ExceptionRange) : Prop where
  handlers : ∀ r ∈ ranges, ∃ i, code.labelAt? r.handler = some i
  targets : ∀ {i : Nat} {instr : Instruction}, Reachable code ranges i → code[i]? = some instr →
    ∀ id ∈ instr.targets, ∃ t, code.labelAt? id = some t
  effect : ∀ {i : Nat} {instr : Instruction}, Reachable code ranges i → code[i]? = some instr →
    ∃ pops pushes, instr.delta = .ok (pops, pushes)
  agree : ∀ {i : Nat} {d e : Int}, Path code ranges i d → Path code ranges i e → d = e
  enough : ∀ {i pops pushes : Nat} {d : Int} {instr : Instruction}, Path code ranges i d →
    code[i]? = some instr → instr.delta = .ok (pops, pushes) → (pops : Int) ≤ d

/-- **A depth that a path has behind an instruction.** -/
def Behind (code : Code) (ranges : List ExceptionRange) (n : Nat) : Prop :=
  ∃ i d instr pops pushes, Path code ranges i d ∧ code[i]? = some instr
    ∧ instr.delta = .ok (pops, pushes) ∧ (n : Int) = d - pops + pushes

variable {code : Code} {ranges : List ExceptionRange} {p : Pass} {i n : Nat} {d : Int}

/-- A path goes where control may come. -/
lemma Path.reachable (h : Path code ranges i d) : Reachable code ranges i := by
  induction h with
  | entry hlt => exact .entry hlt
  | handler hr hi => exact .handler hr hi
  | target _ hcode _ hid ht ih => exact .target ih hcode hid ht
  | next _ hcode _ hends hlt ih => exact .next ih hcode hends hlt

/-! ## Paths that do not underflow -/

namespace Consistent

variable (hc : Consistent code ranges)

include hc in
/-- Control arrives on paths. -/
lemma path_of_arrives (h : Arrives code ranges i n) : Path code ranges i n := by
  have hcast : ∀ {i d pops pushes : Nat} {instr : Instruction}, Path code ranges i d →
      code[i]? = some instr → instr.delta = .ok (pops, pushes) →
      ((d - pops + pushes : Nat) : Int) = (d : Int) - pops + pushes := by
    intro i d pops pushes instr hpath hcode hdelta
    have := hc.enough hpath hcode hdelta
    omega
  induction h with
  | entry hlt => exact .entry hlt
  | handler hr hi => exact .handler hr hi
  | target _ hcode hdelta hid ht ih => exact hcast ih hcode hdelta ▸ .target ih hcode hdelta hid ht
  | next _ hcode hdelta hends hlt ih => exact hcast ih hcode hdelta ▸ .next ih hcode hdelta hends hlt

include hc in
/-- **A consistent body is steady.** -/
lemma steady : Steady code ranges where
  handlers := hc.handlers
  agree := by
    intro i d e hd he
    exact_mod_cast hc.agree (hc.path_of_arrives hd) (hc.path_of_arrives he)
  effect := by
    intro i d instr h hcode
    have hpath := hc.path_of_arrives h
    obtain ⟨pops, pushes, hdelta⟩ := hc.effect hpath.reachable hcode
    exact ⟨pops, pushes, hdelta, by exact_mod_cast hc.enough hpath hcode hdelta⟩
  targets := fun h hcode => hc.targets (hc.path_of_arrives h).reachable hcode

end Consistent

namespace Steady

variable (hs : Steady code ranges)

include hs in
/-- Where nothing underflows, a path has a depth with which control arrives. -/
lemma arrives_of_path (h : Path code ranges i d) : ∃ n : Nat, d = n ∧ Arrives code ranges i n := by
  induction h with
  | entry hlt => exact ⟨0, rfl, .entry hlt⟩
  | handler hr hi => exact ⟨1, rfl, .handler hr hi⟩
  | @target i pops pushes t d instr id _ hcode hdelta hid ht ih =>
      obtain ⟨n, rfl, harrives⟩ := ih
      obtain ⟨_, _, hdelta', hle⟩ := hs.effect harrives hcode
      cases hdelta.symm.trans hdelta'
      exact ⟨n - pops + pushes, by omega, .target harrives hcode hdelta hid ht⟩
  | @next i pops pushes d instr _ hcode hdelta hends hlt ih =>
      obtain ⟨n, rfl, harrives⟩ := ih
      obtain ⟨_, _, hdelta', hle⟩ := hs.effect harrives hcode
      cases hdelta.symm.trans hdelta'
      exact ⟨n - pops + pushes, by omega, .next harrives hcode hdelta hends hlt⟩

include hs in
/-- Wherever control may come, it arrives. -/
lemma arrives_of_reachable (h : Reachable code ranges i) : ∃ n, Arrives code ranges i n := by
  induction h with
  | entry hlt => exact ⟨0, .entry hlt⟩
  | handler hr hi => exact ⟨1, .handler hr hi⟩
  | target _ hcode hid ht ih =>
      obtain ⟨n, harrives⟩ := ih
      obtain ⟨pops, pushes, hdelta, -⟩ := hs.effect harrives hcode
      exact ⟨_, .target harrives hcode hdelta hid ht⟩
  | next _ hcode hends hlt ih =>
      obtain ⟨n, harrives⟩ := ih
      obtain ⟨pops, pushes, hdelta, -⟩ := hs.effect harrives hcode
      exact ⟨_, .next harrives hcode hdelta hends hlt⟩

include hs in
/-- **A steady body is consistent.** -/
lemma consistent : Consistent code ranges where
  handlers := hs.handlers
  targets := by
    intro i instr h hcode
    obtain ⟨n, harrives⟩ := hs.arrives_of_reachable h
    exact hs.targets harrives hcode
  effect := by
    intro i instr h hcode
    obtain ⟨n, harrives⟩ := hs.arrives_of_reachable h
    obtain ⟨pops, pushes, hdelta, -⟩ := hs.effect harrives hcode
    exact ⟨pops, pushes, hdelta⟩
  agree := by
    intro i d e hd he
    obtain ⟨n, rfl, hn⟩ := hs.arrives_of_path hd
    obtain ⟨k, rfl, hk⟩ := hs.arrives_of_path he
    exact_mod_cast hs.agree hn hk
  enough := by
    intro i pops pushes d instr h hcode hdelta
    obtain ⟨n, rfl, harrives⟩ := hs.arrives_of_path h
    obtain ⟨_, _, hdelta', hle⟩ := hs.effect harrives hcode
    cases hdelta.symm.trans hdelta'
    exact_mod_cast hle

end Steady

/-! ## What the pass reports -/

/-- A body without instructions has no handler, so it has no range either. -/
lemma run_empty (h : run #[] ranges = .ok p) : ranges = [] := by
  obtain ⟨p₁, p₂, -, hhandlers, -⟩ := run_cases h
  cases ranges with
  | nil => rfl
  | cons r rest =>
      have hnone : Code.labelAt? #[] r.handler = none :=
        Option.eq_none_iff_forall_ne_some.mpr fun i hi => absurd (Code.labelAt?_lt hi) (Nat.not_lt_zero i)
      simp [Pass.visitHandlers, Pass.visitLabel, hnone] at hhandlers

/-- **A pass that succeeds has met no obstacle.** -/
lemma steady_of_run (h : run code ranges = .ok p) : Steady code ranges := by
  rcases Nat.eq_zero_or_pos code.size with hzero | hne
  · obtain rfl := Array.eq_empty_of_size_eq_zero hzero
    obtain rfl := run_empty h
    have hnot : ∀ {i n : Nat}, ¬ Arrives #[] [] i n := by
      intro i n harrives
      induction harrives with
      | entry hlt => exact absurd hlt (Nat.lt_irrefl 0)
      | handler hr => cases hr
      | target _ _ _ _ _ ih => exact ih
      | next _ _ _ _ _ ih => exact ih
    exact ⟨by simp, fun h => absurd h hnot, fun h => absurd h hnot, fun h => absurd h hnot⟩
  · exact (run_labelling h hne).1.steady

/-- What is behind an instruction in the pass is what a path has behind it. -/
lemma behind_iff (h : run code ranges = .ok p) : p.Behind code n ↔ Behind code ranges n := by
  have hs := steady_of_run h
  obtain ⟨p', hp', hfound⟩ := run_steady hs
  cases h.symm.trans hp'
  constructor
  · rintro ⟨i, d, instr, pops, pushes, hf, hcode, hdelta, rfl⟩
    have hpath := hs.consistent.path_of_arrives (hfound.mp hf)
    have hle := hs.consistent.enough hpath hcode hdelta
    exact ⟨i, d, instr, pops, pushes, hpath, hcode, hdelta, by omega⟩
  · rintro ⟨i, d, instr, pops, pushes, hpath, hcode, hdelta, hn⟩
    have hle := hs.consistent.enough hpath hcode hdelta
    obtain ⟨k, rfl, harrives⟩ := hs.arrives_of_path hpath
    exact ⟨i, k, instr, pops, pushes, hfound.mpr harrives, hcode, hdelta, by omega⟩

end StackDepth

open StackDepth

/-- **The depth that a method needs** is known exactly if its depths are consistent.  It is the greatest
depth that a path has behind an instruction, at least one if the method has a protected range and zero
for an empty body, as a number of 32 bits; and it is at most twice the number of instructions. -/
theorem Method.stackNeed_eq_ok_iff (m : Method) (n : Nat) :
    m.stackNeed = .ok n ↔ Consistent m.code m.ranges ∧ ∃ deepest,
      IsGreatest ({d | Behind m.code m.ranges d} ∪ {floor m.ranges}) deepest
        ∧ n = (UInt32.ofNat deepest).toNat ∧ deepest ≤ 2 * m.code.size := by
  constructor
  · intro h
    unfold Method.stackNeed at h
    split at h
    · next p hp =>
        cases h
        refine ⟨(steady_of_run hp).consistent, p.deepest, ?_, rfl, run_deepest_le hp⟩
        have hset : {d | p.Behind m.code d} = {d | Behind m.code m.ranges d} :=
          Set.ext fun d => behind_iff hp
        exact hset ▸ run_deepest hp
    · cases h
  · rintro ⟨hc, deepest, hgreatest, rfl, -⟩
    obtain ⟨p, hp, -⟩ := run_steady hc.steady
    have hset : {d | p.Behind m.code d} = {d | Behind m.code m.ranges d} :=
      Set.ext fun d => behind_iff hp
    have hsame : p.deepest = deepest := (hset ▸ run_deepest hp).unique hgreatest
    simp only [Method.stackNeed, hp, hsame]

/-- A loop that leaves a value on the stack at each turn has no depth. -/
example : (StackDepth.run #[.mark 0, .plain .pushNull, .jump .goto 0] []).toOption.isNone := by
  decide +kernel

end Suspension
