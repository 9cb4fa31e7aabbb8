namespace AvrFlow

/-- How an instruction transfers control. A kind outside the seven that are understood keeps its
name. -/
inductive Kind where
  | jmp
  | rjmp
  | brbs
  | brbc
  | call
  | rcall
  | ret
  | other (name : String)
  deriving DecidableEq, Repr

namespace Kind

def name : Kind → String
  | jmp => "jmp"
  | rjmp => "rjmp"
  | brbs => "brbs"
  | brbc => "brbc"
  | call => "call"
  | rcall => "rcall"
  | ret => "ret"
  | other name => name

def all : List Kind :=
  [jmp, rjmp, brbs, brbc, call, rcall, ret]

def ofName? (name : String) : Option Kind :=
  all.find? (·.name = name)

def ofName (name : String) : Kind :=
  (ofName? name).getD (other name)

def arity : Kind → Nat
  | jmp | rjmp | call | rcall => 1
  | brbs | brbc => 2
  | ret | other _ => 0

end Kind

/-- One instruction. It does not branch when its `kind` is `none`. -/
structure Instruction where
  offset : Int
  kind : Option Kind
  mnemonic : String
  operands : List Int
  length : Int
  text : String
  deriving DecidableEq, Repr

namespace Instruction

def next (i : Instruction) : Int :=
  i.offset + i.length

def branches (i : Instruction) : Bool :=
  i.kind.isSome

end Instruction

end AvrFlow
