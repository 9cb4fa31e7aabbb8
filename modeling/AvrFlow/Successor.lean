import AvrFlow.GraphError
import AvrFlow.Result

namespace AvrFlow

/-- An offset that control reaches, with the return addresses of the open calls, innermost first. -/
structure Target where
  entry : Int
  stack : List Int
  deriving DecidableEq, Repr

namespace Instruction

def operand (i : Instruction) (n : Nat) : Except GraphError Int :=
  match i.operands[n]? with
  | some v => .ok v
  | none => .error .missingOperand

/-- Where control goes after an instruction, in order; nowhere in particular if it does not
branch. -/
def targets (i : Instruction) (stack : List Int) : Except GraphError (List Target) :=
  match i.kind with
  | none => .ok []
  | some .jmp => (i.operand 0).map fun v => [⟨v, stack⟩]
  | some .rjmp => (i.operand 0).map fun v => [⟨i.next + v, stack⟩]
  | some .brbs | some .brbc =>
    (i.operand 1).map fun v => [⟨i.next + v, stack⟩, ⟨i.next, stack⟩]
  -- A call pushes the offset after it, and a return pops the one to go back to.
  | some .call => (i.operand 0).map fun v => [⟨v, i.next :: stack⟩]
  | some .rcall => (i.operand 0).map fun v => [⟨i.next + v, i.next :: stack⟩]
  | some .ret =>
    match stack with
    | [] => .error (.unbalancedReturn i.offset)
    | back :: outer => .ok [⟨back, outer⟩]
  | some (.other name) => .error (.unknownKind name)

theorem length_targets_le {i : Instruction} {stack : List Int} {ts : List Target}
    (h : i.targets stack = .ok ts) : ts.length ≤ 2 := by
  unfold targets at h
  split at h
  case h_1 =>
    cases h
    simp
  case h_8 =>
    split at h
    · cases h
    · cases h
      simp
  case h_9 => cases h
  all_goals
    obtain ⟨v, -, rfl⟩ := exists_of_map_eq_ok h
    simp

end Instruction

end AvrFlow
