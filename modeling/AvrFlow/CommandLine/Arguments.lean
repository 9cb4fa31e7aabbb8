import AvrFlow.CommandLine.Flag
import AvrFlow.Image
import AvrFlow.Text.IntegerLiteral
import AvrFlow.Text.Lines
import AvrFlow.Value

namespace AvrFlow.CommandLine

open AvrFlow.Text

inductive ArgumentError where
  | ambiguous (argument : String) (candidates : List Flag)
  | valueExpected (flag : Flag)
  | valueIgnored (flag : Flag) (value : String)
  | notNumber (flag : Flag) (value : String)
  | notChoice (flag : Flag) (value : String)
  | missing (flags : List Flag)
  | unrecognized (arguments : List String)
  deriving DecidableEq, Repr

def numberWord : Flag → String
  | .start => "<lambda>"
  | _ => "int"

def ArgumentError.message : ArgumentError → String
  | ambiguous argument candidates =>
    let spellings := candidates.map fun f => String.ofList f.long
    s!"ambiguous option: {argument} could match " ++ ", ".intercalate spellings
  | valueExpected flag => s!"argument {flag.label}: expected one argument"
  | valueIgnored flag value =>
    s!"argument {flag.label}: ignored explicit argument {quoted value}"
  | notNumber flag value =>
    s!"argument {flag.label}: invalid {numberWord flag} value: {quoted value}"
  | notChoice flag value =>
    s!"argument {flag.label}: invalid choice: {quoted value} (choose from " ++
      ", ".intercalate (Format.choices.map quoted) ++ ")"
  | missing flags =>
    "the following arguments are required: " ++ ", ".intercalate (flags.map Flag.label)
  | unrecognized arguments => "unrecognized arguments: " ++ " ".intercalate arguments

inductive Word where
  /-- An option in its short form or not, with a value written in the same argument. -/
  | flag (flag : Flag) (short : Bool) (value : Option (List Char))
  /-- It looks like an option and is none. -/
  | unknown (text : List Char)
  | plain (text : List Char)
  /-- The mark after which no argument is an option. -/
  | separator
  deriving DecidableEq, Repr

def splitEquals (s : List Char) : List Char × Option (List Char) :=
  match s.dropWhile (· ≠ '=') with
  | [] => (s, none)
  | _ :: value => (s.takeWhile (· ≠ '='), some value)

def isDigits (s : List Char) : Bool :=
  s != [] && s.all isDecimalDigit

/-- Whether an argument looks like a negative number: a minus and digits, with an optional point
before the last of them. -/
def isNegativeNumber (s : List Char) : Bool :=
  match dropNewline s with
  | '-' :: rest =>
    isDigits rest ||
      match rest.dropWhile isDecimalDigit with
      | '.' :: fraction => isDigits fraction
      | _ => false
  | _ => false

def classifyOther (s : List Char) : Word :=
  if isNegativeNumber s || s.contains ' ' then .plain s else .unknown s

def classifyLong (s : List Char) : Except ArgumentError Word :=
  let (spelling, value) := splitEquals s
  match Flag.abbreviated spelling with
  | [] => .ok (classifyOther s)
  | [f] => .ok (.flag f false value)
  | candidates => .error (.ambiguous (String.ofList s) candidates)

def classifyShort (s : List Char) : Word :=
  match s with
  | '-' :: c :: value =>
    match Flag.ofLetter? c with
    | some f => .flag f true (some value)
    | none => classifyOther s
  | _ => .plain s

def isShortSpelling : List Char → Bool
  | '-' :: '-' :: _ => false
  | _ => true

def exactFlag? (s : List Char) : Option Word :=
  match Flag.ofSpelling? s with
  | some f => some (.flag f (isShortSpelling s) none)
  | none =>
    match splitEquals s with
    | (spelling, some value) =>
      (Flag.ofSpelling? spelling).map fun f => .flag f (isShortSpelling s) (some value)
    | _ => none

def classify (s : List Char) : Except ArgumentError Word :=
  match exactFlag? s with
  | some w => .ok w
  | none =>
    match s with
    | '-' :: '-' :: _ => classifyLong s
    | '-' :: _ :: _ => .ok (classifyShort s)
    | _ => .ok (.plain s)

def separatorText : List Char := ['-', '-']

def classifyAll : List (List Char) → Except ArgumentError (List Word)
  | [] => .ok []
  | s :: rest =>
    if s = separatorText then .ok (.separator :: rest.map .plain)
    else
      match classify s with
      | .error e => .error e
      | .ok w => (classifyAll rest).map (w :: ·)

structure Setting where
  flag : Flag
  value : Option (List Char)
  deriving DecidableEq, Repr

/-- What an option is given. The separator in place of a value leaves the option blank. -/
def Setting.content (s : Setting) : Value (List Char) :=
  let text := s.value.getD []
  if text = separatorText then .blank else .given text

/-- The options that are joined in one argument: the settings that it completes, and the option at
its end that takes its value from the next argument. -/
structure Cluster where
  complete : List Setting
  pending : Option Flag
  deriving DecidableEq, Repr

def bareCluster (f : Flag) : Cluster :=
  if f.takesValue then ⟨[], some f⟩ else ⟨[⟨f, none⟩], none⟩

/-- An option with more text in its argument. After a short option that takes no value, the text is
read as further short options. -/
def cluster (short : Bool) (f : Flag) : List Char → Except ArgumentError Cluster
  | [] => if f.takesValue then .ok ⟨[⟨f, some []⟩], none⟩ else .error (.valueIgnored f "")
  | c :: rest =>
    if f.takesValue then .ok ⟨[⟨f, some (c :: rest)⟩], none⟩
    else if !short then .error (.valueIgnored f (String.ofList (c :: rest)))
    else
      match Flag.ofLetter? c with
      | none => .error (.valueIgnored f (String.ofList (c :: rest)))
      | some g =>
        let joined := if rest = [] then .ok (bareCluster g) else cluster short g rest
        joined.map fun k => { k with complete := ⟨f, none⟩ :: k.complete }

structure Options where
  input : Value String
  output : Value String
  start : Value Int
  dpi : Value Int
  format : Value String
  objdump : Value String
  verbosity : Nat
  deriving DecidableEq, Repr

/-- The options so far; the two files have to be given. -/
structure Draft where
  input : Option (Value String)
  output : Option (Value String)
  start : Value Int
  dpi : Value Int
  format : Value String
  objdump : Value String
  verbosity : Nat
  deriving DecidableEq, Repr

def defaults : Draft :=
  ⟨none, none, .given 0, .given 200, .given Format.automatic, .given "avr-objdump", 0⟩

inductive Request where
  | help
  | refused (error : ArgumentError)
  | accepted (options : Options)
  deriving DecidableEq, Repr

inductive Stop where
  | help
  | refused (error : ArgumentError)
  deriving DecidableEq, Repr

def textOf : Value (List Char) → Value String
  | .given s => .given (String.ofList s)
  | .blank => .blank

def numberOf (flag : Flag) (base : LiteralBase) : Value (List Char) → Except Stop (Value Int)
  | .given s =>
    match readInteger base s with
    | .ok n => .ok (.given n)
    | .error _ => .error (.refused (.notNumber flag (String.ofList s)))
  | .blank => .ok .blank

def choiceOf (flag : Flag) (choices : List String) : Value (List Char) → Except Stop (Value String)
  | .given s =>
    let name := String.ofList s
    if name ∈ choices then .ok (.given name) else .error (.refused (.notChoice flag name))
  | .blank => .ok .blank

def Draft.take (p : Draft) (s : Setting) : Except Stop Draft :=
  match s.flag with
  | .help => .error .help
  | .input => .ok { p with input := some (textOf s.content) }
  | .output => .ok { p with output := some (textOf s.content) }
  | .start => (numberOf .start .spelled s.content).map fun n => { p with start := n }
  | .dpi => (numberOf .dpi .ten s.content).map fun n => { p with dpi := n }
  | .format => (choiceOf .format Format.choices s.content).map fun f => { p with format := f }
  | .objdump => .ok { p with objdump := textOf s.content }
  | .verbose => .ok { p with verbosity := p.verbosity + 1 }

def Draft.takeAll (p : Draft) (settings : List Setting) : Except Stop Draft :=
  settings.foldlM Draft.take p

def clusterOf (short : Bool) (f : Flag) : Option (List Char) → Except Stop Cluster
  | none => .ok (bareCluster f)
  | some value => (cluster short f value).mapError .refused

/-- Takes the arguments from left to right; the second part of the result holds those that nothing
takes. -/
def takeWords (p : Draft) : List Word → Except Stop (Draft × List (List Char))
  | [] => .ok (p, [])
  | .plain s :: rest | .unknown s :: rest => do
    let (p, left) ← takeWords p rest
    return (p, s :: left)
  | .separator :: rest => do
    let (p, left) ← takeWords p rest
    return (p, separatorText :: left)
  | .flag f short value :: rest => do
    let k ← clusterOf short f value
    match k.pending, rest with
    -- A value is looked for before any option of the argument takes effect.
    | none, rest => takeWords (← p.takeAll k.complete) rest
    | some g, .plain s :: rest => takeWords (← p.takeAll (k.complete ++ [⟨g, some s⟩])) rest
    | some g, _ => throw (.refused (.valueExpected g))

def Draft.finish (p : Draft) (left : List (List Char)) : Request :=
  match p.input, p.output with
  | some input, some output =>
    if left = [] then
      .accepted ⟨input, output, p.start, p.dpi, p.format, p.objdump, p.verbosity⟩
    else .refused (.unrecognized (left.map String.ofList))
  | input, output =>
    .refused (.missing ((if input.isNone then [.input] else []) ++
      (if output.isNone then [.output] else [])))

def parse (arguments : List String) : Request :=
  -- All arguments are classified before any of them takes effect, a call for help included.
  match classifyAll (arguments.map String.toList) with
  | .error e => .refused e
  | .ok words =>
    match takeWords defaults words with
    | .error .help => .help
    | .error (.refused e) => .refused e
    | .ok (p, left) => p.finish left

end AvrFlow.CommandLine
