import AvrFlow.Instruction
import AvrFlow.Text.Hexadecimal

namespace AvrFlow

open AvrFlow.Text

/-- One or more instructions in a row. -/
structure Run where
  first : Instruction
  rest : List Instruction
  deriving DecidableEq, Repr

namespace Run

def instrs (r : Run) : List Instruction :=
  r.first :: r.rest

def ofList? : List Instruction → Option Run
  | [] => none
  | i :: is => some ⟨i, is⟩

def cons (i : Instruction) (r : Run) : Run :=
  ⟨i, r.instrs⟩

def last (r : Run) : Instruction :=
  r.rest.getLast?.getD r.first

def firstOffset (r : Run) : Int :=
  r.first.offset

def lastOffset (r : Run) : Int :=
  r.last.offset

def size (r : Run) : Nat :=
  r.instrs.length

def offsets (r : Run) : List Int :=
  r.instrs.map (·.offset)

/-- Whether the closed ranges from first to last offset meet. -/
def overlaps (r s : Run) : Bool :=
  r.firstOffset ≤ s.lastOffset && s.firstOffset ≤ r.lastOffset

def below? (r : Run) (offset : Int) : Option Run :=
  ofList? (r.instrs.filter (·.offset < offset))

@[simp] theorem instrs_cons (i : Instruction) (r : Run) : (r.cons i).instrs = i :: r.instrs := rfl

theorem instrs_ne_nil (r : Run) : r.instrs ≠ [] := by
  simp [instrs]

theorem getLast?_instrs (r : Run) : r.instrs.getLast? = some r.last := by
  simp [instrs, last, List.getLast?_cons]

theorem last_mem_instrs (r : Run) : r.last ∈ r.instrs :=
  List.mem_of_getLast? r.getLast?_instrs

@[simp] theorem last_cons (i : Instruction) (r : Run) : (r.cons i).last = r.last := by
  have h := (r.cons i).getLast?_instrs
  rw [instrs_cons, List.getLast?_cons, r.getLast?_instrs] at h
  simpa using h.symm

theorem ofList?_eq_some_iff {is : List Instruction} {r : Run} :
    ofList? is = some r ↔ r.instrs = is := by
  cases is with
  | nil => simp [ofList?, instrs]
  | cons i is =>
    obtain ⟨first, rest⟩ := r
    simp [ofList?, instrs, eq_comm]

end Run

/-- A basic block: a run with a number. -/
structure Block extends Run where
  id : Int
  deriving DecidableEq, Repr

namespace Block

def shrink? (b : Block) (offset : Int) : Option Block :=
  (b.below? offset).map (⟨·, b.id⟩)

def describe (b : Block) : String :=
  s!"BB {b.id}: @{hex8 b.firstOffset}->@{hex8 b.lastOffset} ({b.size} instrs)"

end Block

end AvrFlow
