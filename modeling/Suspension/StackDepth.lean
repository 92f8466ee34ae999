import Suspension.StackEffect

/-!
# Stack depth of a body

**How deep a body makes the operand stack.**  The depth at each instruction is found by following the
control flow from the entry at depth 0 and from every handler at depth 1; all paths to an
instruction must agree on it.

* `StackDepth.Pass` — depths found so far, the positions still to follow, the deepest stack.
* `StackDepth.run` — the pass over a whole body.
* `Method.stackNeed` — the depth that a method needs.
-/

namespace Suspension

namespace StackDepth

/-- Why a body has no consistent depth. -/
inductive Failure where
  | effect (position : Nat) (cause : DeltaError)
  | underflow (position : Nat)
  | inconsistent (position found expected : Nat)
  | undefinedLabel (id : Label)
deriving DecidableEq, Repr

/-- The wording of a failed pass. -/
def Failure.message : Failure → Text
  | effect i e =>
    Text.ofString "instruction " ++ Text.ofNat i ++ Text.ofString ": " ++ e.message
  | underflow i =>
    Text.ofString "instruction " ++ Text.ofNat i ++ Text.ofString ": stack underflow"
  | inconsistent i a b =>
    Text.ofString "inconsistent stack depth at " ++ Text.ofNat i ++ Text.ofString ": "
      ++ Text.ofNat a ++ Text.ofString " vs " ++ Text.ofNat b
  | undefinedLabel id => Text.ofString "undefined label " ++ Text.ofNat id.toNat

/-- The state of the pass.  A position is pending once, when its depth is first found. -/
structure Pass where
  depths : Array (Option Nat)
  pending : List Nat := []
  deepest : Nat := 0
deriving Repr

/-- Control reaches a position with a stack of the given depth.  Running past the end is not the
business of this pass. -/
def Pass.visit (p : Pass) (i d : Nat) : Except Failure Pass :=
  match p.depths[i]? with
  | none => .ok p
  | some none => .ok { p with depths := p.depths.set! i (some d), pending := i :: p.pending }
  | some (some found) => if found == d then .ok p else .error (.inconsistent i found d)

/-- Control reaches a label. -/
def Pass.visitLabel (code : Code) (p : Pass) (id : Label) (d : Nat) : Except Failure Pass :=
  match code.labelAt? id with
  | none => .error (.undefinedLabel id)
  | some i => p.visit i d

/-- Control reaches each of some labels. -/
def Pass.visitLabels (code : Code) (d : Nat) : List Label → Pass → Except Failure Pass
  | [], p => .ok p
  | id :: rest, p =>
    match p.visitLabel code id d with
    | .error e => .error e
    | .ok p => p.visitLabels code d rest

/-- Every handler is entered with the exception on the stack. -/
def Pass.visitHandlers (code : Code) : List ExceptionRange → Pass → Except Failure Pass
  | [], p => .ok p
  | r :: rest, p =>
    match p.visitLabel code r.handler 1 with
    | .error e => .error e
    | .ok p => Pass.visitHandlers code rest { p with deepest := max p.deepest 1 }

/-- Where control goes from one instruction. -/
def Pass.follow (code : Code) (p : Pass) (i : Nat) : Except Failure Pass :=
  match code[i]?, p.depths[i]? with
  | some instr, some (some d) =>
    match instr.delta with
    | .error e => .error (.effect i e)
    | .ok (pops, pushes) =>
      if d < pops then .error (.underflow i)
      else
        let after := d - pops + pushes
        match ({ p with deepest := max p.deepest after }).visitLabels code after instr.targets with
        | .error e => .error e
        | .ok p => if instr.opcode.endsBlock then .ok p else p.visit (i + 1) after
  | _, _ => .ok p

/-- Following pending positions, the latest first, until none is left.  Each position becomes
pending at most once, so as many rounds as there are instructions suffice. -/
def Pass.loop (code : Code) : Nat → Pass → Except Failure Pass
  | 0, p => .ok p
  | fuel + 1, p =>
    match p.pending with
    | [] => .ok p
    | i :: rest =>
      match ({ p with pending := rest }).follow code i with
      | .error e => .error e
      | .ok p => Pass.loop code fuel p

/-- The pass before anything is followed: entry and handlers. -/
def start (code : Code) (ranges : List ExceptionRange) : Except Failure Pass :=
  match ({ depths := Array.replicate code.size none } : Pass).visit 0 0 with
  | .error e => .error e
  | .ok p => p.visitHandlers code ranges

/-- **The depths of a whole body.** -/
def run (code : Code) (ranges : List ExceptionRange) : Except Failure Pass :=
  match start code ranges with
  | .error e => .error e
  | .ok p => p.loop code (code.size + 1)

end StackDepth

/-- The deepest operand stack that a method's body needs, as a number of 32 bits. -/
def Method.stackNeed (m : Method) : Except StackDepth.Failure Nat :=
  match StackDepth.run m.code m.ranges with
  | .ok p => .ok (UInt32.ofNat p.deepest).toNat
  | .error e => .error e

end Suspension
