import AvrFlow.Graph

namespace AvrFlow

open AvrFlow.Text

inductive Severity where
  | debug
  | info
  | warning
  | error
  deriving DecidableEq, Repr

namespace Severity

def rank : Severity → Nat
  | debug => 0
  | info => 1
  | warning => 2
  | error => 3

def name : Severity → String
  | debug => "DEBUG"
  | info => "INFO"
  | warning => "WARNING"
  | error => "ERROR"

end Severity

inductive Event where
  | started
  | disassembling (path : String)
  | formatDetected (path format : String)
  | lineSkipped (line : String)
  | addressTaken (address : Int)
  | disassembled (instrs : List Instruction)
  | highestOffset (offset : Int)
  | discovering (start : Int)
  | visiting (entry : Int)
  | fellOff (entry : Int)
  | transferMet (kind : Kind) (text : String)
  | blockAdded (block : Block)
  | relationAdded (source target : Int)
  | discovered (blocks : Nat)
  | resolving
  | overlapFound (block other : Block)
  | resolved (splits : Nat)
  | writing (path : String)
  | failed (message : String)
  deriving DecidableEq, Repr

namespace Event

def severity : Event → Severity
  | started | disassembling _ | highestOffset _ | discovering _ | discovered _ | resolving
  | resolved _ | writing _ => .info
  | lineSkipped _ => .warning
  | failed _ => .error
  | _ => .debug

def reporter : Event → String
  | started | disassembling _ | disassembled _ | writing _ | failed _ => "avrcfg"
  | formatDetected .. | lineSkipped _ | addressTaken _ => "avrcfg.arch.arch"
  | overlapFound .. => "avrcfg.analyze.overlap"
  | _ => "avrcfg.analyze.cfg"

def disassemblyLine (i : Instruction) : String :=
  s!"{hex8 i.offset}: {i.text}"

def message : Event → String
  | started => "Generating CFG..."
  | disassembling path => s!"Disassembling '{path}'..."
  | formatDetected path format => s!"Detected input format of '{path}': {format}"
  | lineSkipped line => s!"Unable to decode textdump line: {line}"
  | addressTaken address => s!"Ignoring second instruction at 0x{hex address}"
  | disassembled instrs => "Disassembly:\n" ++ "\n".intercalate (instrs.map disassemblyLine)
  | highestOffset offset => s!"Highest offset: 0x{hex8 offset}"
  | discovering start => s!"First pass (traversing from 0x{hex8 start})..."
  | visiting entry => s!"Visiting 0x{hex8 entry}"
  | fellOff entry => s!"Block at 0x{hex8 entry} falls off the end of memory"
  | transferMet kind text => s!"Encountered {kind.name}: {text}"
  | blockAdded block => s!"Adding <{block.describe}>"
  | relationAdded source target => s!"Adding relation 0x{hex8 source} -> 0x{hex8 target}"
  | discovered blocks => s!"Number of basic blocks found: {blocks}"
  | resolving => "Second pass (splitting overlapping blocks)..."
  | overlapFound block other =>
    s!"Overlapping blocks found: {block.describe} - {other.describe}"
  | resolved splits => s!"Overlapping blocks split: {splits}"
  | writing path => s!"Writing '{path}'..."
  | failed message => s!"Unexpected runtime error: {message}"

end Event

end AvrFlow
