import AvrFlow.Image
import AvrFlow.Input
import AvrFlow.Text.Quoted

/-!
The reader of executables that the program itself is run with. It looks at the identification and at
the header, and at nothing after them. What the program does is stated for every reader.
-/

namespace AvrFlow.Executable

open AvrFlow.Text

def badMagic : HeaderFault :=
  ⟨"ELFError", "Magic number does not match"⟩

def badClass (found : List UInt8) : HeaderFault :=
  ⟨"ELFError", s!"Invalid EI_CLASS {quotedBytes found}"⟩

def badData (found : List UInt8) : HeaderFault :=
  ⟨"ELFError", s!"Invalid EI_DATA {quotedBytes found}"⟩

def truncated (expected found : Nat) : HeaderFault :=
  ⟨"ELFParseError", s!"expected {expected}, found {found}"⟩

/-- How numbers are laid out: the size of an address, and whether the least significant byte comes
first. -/
structure Layout where
  addressSize : Nat
  leastFirst : Bool
  deriving DecidableEq, Repr

/-- The number that bytes stand for, the least significant one first. -/
def numberOfBytes : List UInt8 → Nat
  | [] => 0
  | b :: more => b.toNat + 256 * numberOfBytes more

def Layout.number (l : Layout) (bytes : List UInt8) : Nat :=
  numberOfBytes (if l.leastFirst then bytes else bytes.reverse)

def Layout.readFields (l : Layout) : List Nat → List UInt8 → Except HeaderFault (List Nat)
  | [], _ => .ok []
  | size :: more, content =>
    let field := content.take size
    if field.length < size then .error (truncated size field.length)
    else (l.readFields more (content.drop size)).map (l.number field :: ·)

def layout (content : List UInt8) : Except HeaderFault Layout :=
  let cls := (content.drop 4).take 1
  let data := (content.drop 5).take 1
  if content.take 4 ≠ Image.magic then .error badMagic
  else if cls ≠ [1] ∧ cls ≠ [2] then .error (badClass cls)
  else if data ≠ [1] ∧ data ≠ [2] then .error (badData data)
  else .ok ⟨if cls = [1] then 4 else 8, data = [1]⟩

def Layout.headerSizes (l : Layout) : List Nat :=
  -- identification and padding; type, machine and version; entry and the two tables; flags
  List.replicate 9 1 ++ [7, 2, 2, 4, l.addressSize, l.addressSize, l.addressSize, 4] ++
    -- sizes and counts
    List.replicate 6 2

/-- The place of the machine among the fields. -/
def machineField : Nat := 11

def avrNumber : Nat := 83

/-- The name of the machine in a header. Only the one that programs are checked for has a name. -/
def machineOf (content : List UInt8) : Except HeaderFault (Option String) := do
  let l ← layout content
  let fields ← l.readFields l.headerSizes content
  return if fields[machineField]? = some avrNumber then some Input.avrMachine else none

end AvrFlow.Executable
