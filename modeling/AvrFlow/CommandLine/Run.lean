import AvrFlow.CommandLine.Arguments
import AvrFlow.CommandLine.Usage
import AvrFlow.Dot
import AvrFlow.Input
import AvrFlow.Recovery

namespace AvrFlow.CommandLine

open AvrFlow.Text

inductive Failure where
  | input (error : InputError)
  | graph (error : GraphError)
  | output (path : Value String) (fault : FileFault)
  deriving DecidableEq, Repr

def Failure.message : Failure → String
  | input error => error.message
  | graph error => error.message
  | output path fault => fault.message path

structure Progress where
  tree : FileTree
  skipped : List String
  commands : List (List (Value String))
  deriving DecidableEq, Repr

structure Numbers where
  start : Int
  dpi : Int
  deriving DecidableEq, Repr

def drawInstrs (o : Options) (n : Numbers) (p : Progress) (instrs : List Instruction) :
    Outcome Progress Failure Unit :=
  match AddressIndex.ofList instrs with
  | .error e => ⟨p, [.disassembled instrs], .error (.graph e)⟩
  | .ok index =>
    let r := Exploration.recover index n.start true
    let drawn := .disassembled instrs :: r.events
    match r.result with
    | .error e => ⟨p, drawn, .error (.graph e)⟩
    | .ok () =>
      -- All that can fail in the drawing comes before the file is opened; its lines are joined and
      -- encoded when it is open, and no line is refused then.
      let events := drawn ++ [.writing o.output.text]
      match Dot.render r.state.toGraph (.number n.dpi) with
      | .error e => ⟨p, events, .error (.graph e)⟩
      | .ok text =>
        match p.tree.write o.output (encodeUtf8 text.toList) with
        | .error fault => ⟨p, events, .error (.output o.output fault)⟩
        | .ok tree => ⟨{ p with tree := tree }, events, .ok ()⟩

def drawInput (o : Options) (n : Numbers) (w : Workspace) (skipped : List String) (input : Input) :
    Outcome Progress Failure Unit :=
  let r := input.readInstrs w skipped
  let p : Progress := ⟨w.tree, r.state, input.commands⟩
  match r.result with
  | .error e => ⟨p, r.events, .error (.input e)⟩
  | .ok instrs =>
    let d := drawInstrs o n p instrs
    { d with events := r.events ++ d.events }

def draw (o : Options) (n : Numbers) (w : Workspace) (skipped : List String) :
    Outcome Progress Failure Unit :=
  let intro := [.started, .disassembling o.input.text]
  let (events, opened) := Input.openFile w o.input o.format o.objdump
  match opened with
  | .error e => ⟨⟨w.tree, skipped, []⟩, intro ++ events, .error (.input e)⟩
  | .ok input =>
    let d := drawInput o n w skipped input
    { d with events := intro ++ events ++ d.events }

/-- The time that log lines carry; it is fixed, so that equal runs give equal reports. -/
def timeStamp : String := "00:00:00"

def severityColumn (s : Severity) : String :=
  String.ofList ((s.name.toList ++ List.replicate 5 ' ').take 5)

def logLine (e : Event) : String :=
  s!"{timeStamp} [{severityColumn e.severity}] {e.reporter}: {e.message}\n"

def threshold : Nat → Severity
  | 0 => .warning
  | 1 => .info
  | _ => .debug

def logText (verbosity : Nat) (events : List Event) : String :=
  String.join ((events.filter fun e =>
    decide ((threshold verbosity).rank ≤ e.severity.rank)).map logLine)

structure Report where
  exitCode : Nat
  stdout : String
  stderr : String
  after : Progress
  deriving DecidableEq, Repr

def exitSuccess : Nat := 0

def exitBadArguments : Nat := 1

def exitFailure : Nat := 2

def rangeMessage : String :=
  "Error: start offset must be >= 0 and DPI > 0\n"

/-- A number that was left blank, so that a run cannot tell whether it is in range. -/
inductive BlankNumber where
  | start
  | dpi
  deriving DecidableEq, Repr

def BlankNumber.message : BlankNumber → String
  | start => "'<' not supported between instances of 'list' and 'int'"
  | dpi => "'<=' not supported between instances of 'list' and 'int'"

/-- The numbers of the options, or none when one is out of range. The resolution is looked at only
when the start is in range. -/
def numbersInRange (o : Options) : Except BlankNumber (Option Numbers) :=
  match o.start, o.dpi with
  | .blank, _ => .error .start
  | .given start, .blank => if start < 0 then .ok none else .error .dpi
  | .given start, .given dpi => .ok (if start < 0 ∨ dpi ≤ 0 then none else some ⟨start, dpi⟩)

def runInRange (o : Options) (n : Numbers) (w : Workspace) (skipped : List String) : Report :=
  let d := draw o n w skipped
  match d.result with
  | .ok () => ⟨exitSuccess, "", logText o.verbosity d.events, d.state⟩
  | .error e =>
    ⟨exitFailure, "", logText o.verbosity (d.events ++ [.failed e.message]), d.state⟩

def runOptions (o : Options) (w : Workspace) (skipped : List String) : Except BlankNumber Report :=
  match numbersInRange o with
  | .error b => .error b
  | .ok none => .ok ⟨exitBadArguments, "", usage ++ rangeMessage, ⟨w.tree, skipped, []⟩⟩
  | .ok (some n) => .ok (runInRange o n w skipped)

/-- Runs the program. The lines in `skipped` have been warned about in earlier runs. A run that
needs a number and finds it blank breaks off without a report, before it has looked at any file. -/
def run (arguments : List String) (w : Workspace) (skipped : List String) :
    Except BlankNumber Report :=
  match parse arguments with
  | .help => .ok ⟨exitSuccess, helpText, "", ⟨w.tree, skipped, []⟩⟩
  | .refused e =>
    .ok ⟨exitBadArguments, "", usage ++ s!"{programName}: error: {e.message}\n",
      ⟨w.tree, skipped, []⟩⟩
  | .accepted o => runOptions o w skipped

end AvrFlow.CommandLine
