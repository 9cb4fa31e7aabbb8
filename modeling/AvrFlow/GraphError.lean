import AvrFlow.Block
import AvrFlow.Text.IntegerLiteral

namespace AvrFlow

open AvrFlow.Text

inductive GraphError where
  | duplicateOffset (offset : Int)
  | missingInstruction (offset : Int)
  /-- An instruction that does not branch does not lead to a later offset. -/
  | stalled (offset : Int)
  | unbalancedReturn (offset : Int)
  | missingOperand
  | unknownKind (name : String)
  | unsupportedOverlap (block other : Block)
  | emptyBlock
  | noSuchBlock
  | duplicateEntry (block : Block)
  | resolutionTooLong
  deriving DecidableEq, Repr

def GraphError.message : GraphError → String
  | duplicateOffset offset => s!"Duplicate instruction at offset 0x{hex8 offset}"
  | missingInstruction offset => s!"Unable to find instruction at offset 0x{hex8 offset}"
  | stalled offset => s!"Instruction at offset 0x{hex8 offset} does not advance"
  | unbalancedReturn offset => s!"Return at offset 0x{hex8 offset} with an empty call stack"
  | missingOperand => "tuple index out of range"
  | unknownKind name => s!"Unknown control flow kind {name}"
  | unsupportedOverlap block other =>
    s!"Unsupported overlap between {block.describe} and {other.describe}"
  | emptyBlock => "Empty basic block"
  | noSuchBlock => "list index out of range"
  | duplicateEntry block => s!"Duplicate block entry {block.describe}"
  | resolutionTooLong =>
    s!"Exceeds the limit ({digitLimit} digits) for integer string conversion; " ++
      "use sys.set_int_max_str_digits() to increase the limit"

end AvrFlow
