import AvrFlow.Instruction
import AvrFlow.Operand
import AvrFlow.Text.Pieces

namespace AvrFlow

open AvrFlow.Text

/-- A decoder takes the address, the mnemonic, the operand text and the length. -/
abbrev Decoder :=
  (address : Int) → (mnemonic operands : String) → (length : Int) → Except DecodeError Instruction

namespace Decoder

def undefined : Decoder :=
  fun _ _ _ _ => .error .undefinedDecoder

/-- A branch name that stands for a general branch on a fixed status bit. -/
structure Alias where
  name : String
  kind : Kind
  bit : Int
  deriving DecidableEq, Repr

def aliases : List Alias :=
  [⟨"brcs", .brbs, 0⟩, ⟨"brlo", .brbs, 0⟩, ⟨"brcc", .brbc, 0⟩, ⟨"brsh", .brbc, 0⟩,
    ⟨"breq", .brbs, 1⟩, ⟨"brne", .brbc, 1⟩, ⟨"brmi", .brbs, 2⟩, ⟨"brpl", .brbc, 2⟩,
    ⟨"brvs", .brbs, 3⟩, ⟨"brvc", .brbc, 3⟩, ⟨"brlt", .brbs, 4⟩, ⟨"brge", .brbc, 4⟩,
    ⟨"brhs", .brbs, 5⟩, ⟨"brhc", .brbc, 5⟩, ⟨"brts", .brbs, 6⟩, ⟨"brtc", .brbc, 6⟩,
    ⟨"brie", .brbs, 7⟩, ⟨"brid", .brbc, 7⟩]

def alias? (mnemonic : String) : Option Alias :=
  aliases.find? (·.name = mnemonic)

/-- The operand texts between the commas, trimmed; an empty text has none. -/
def operandTexts (operands : String) : List (List Char) :=
  if operands = "" then [] else (pieces ',' operands.toList).map trim

def operandValues (operands : String) : Except DecodeError (List Int) :=
  ((operandTexts operands).mapM Operand.decode).map (·.filterMap id)

/-- The kind of a mnemonic and its operands, a fixed status bit put in front. -/
def kindAndOperands (mnemonic : String) (values : List Int) : Option Kind × List Int :=
  match alias? mnemonic with
  | some a => (some a.kind, a.bit :: values)
  | none => (Kind.ofName? mnemonic, values)

def shownText (mnemonic operands : String) : String :=
  trimmed (mnemonic ++ " " ++ operands)

/-- The decoder of AVR instructions. A branch must have the operands that its kind needs. -/
def avr : Decoder := fun address mnemonic operands length =>
  match operandValues operands with
  | .error e => .error e
  | .ok values =>
    let (kind, values) := kindAndOperands mnemonic values
    if kind.all (·.arity = values.length) then
      .ok ⟨address, kind, mnemonic, values, length, shownText mnemonic operands⟩
    else .error (.wrongOperands mnemonic operands address)

end Decoder

end AvrFlow
