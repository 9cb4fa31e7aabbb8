namespace AvrFlow.CommandLine

inductive Flag where
  | help
  | input
  | output
  | start
  | dpi
  | format
  | objdump
  | verbose
  deriving DecidableEq, Repr

namespace Flag

def all : List Flag :=
  [help, input, output, start, dpi, format, objdump, verbose]

def letter? : Flag → Option Char
  | help => some 'h'
  | input => some 'i'
  | output => some 'o'
  | start => some 's'
  | dpi => some 'd'
  | format => some 'f'
  | objdump => none
  | verbose => some 'v'

def word : Flag → String
  | help => "help"
  | input => "input"
  | output => "output"
  | start => "start"
  | dpi => "dpi"
  | format => "format"
  | objdump => "objdump"
  | verbose => "verbose"

def short? (f : Flag) : Option (List Char) :=
  f.letter?.map fun c => ['-', c]

def long (f : Flag) : List Char :=
  '-' :: '-' :: f.word.toList

def takesValue : Flag → Bool
  | help | verbose => false
  | _ => true

def label (f : Flag) : String :=
  match f.short? with
  | some short => String.ofList (short ++ '/' :: f.long)
  | none => String.ofList f.long

def ofLetter? (c : Char) : Option Flag :=
  all.find? (·.letter? = some c)

def ofSpelling? (s : List Char) : Option Flag :=
  all.find? fun f => f.short? = some s ∨ f.long = s

def abbreviated (s : List Char) : List Flag :=
  all.filter fun f => s.isPrefixOf f.long

end Flag

end AvrFlow.CommandLine
