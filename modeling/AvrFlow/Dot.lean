import AvrFlow.Event
import AvrFlow.GraphError
import AvrFlow.Text.Lines

namespace AvrFlow.Dot

open AvrFlow.Text

def keywords : List (List Char) :=
  ["node".toList, "edge".toList, "graph".toList, "digraph".toList, "subgraph".toList,
    "strict".toList]

def isNameStart (c : Char) : Bool :=
  c.isAlpha || c == '_'

def isNameChar (c : Char) : Bool :=
  c.isAlphanum || c == '_'

def isName : List Char → Bool
  | [] => false
  | c :: rest => isNameStart c && rest.all isNameChar

/-- Whether a text is a number without a sign: digits with an optional point among or before
them. -/
def isUnsigned (s : List Char) : Bool :=
  let whole := s.takeWhile Char.isDigit
  match s.dropWhile Char.isDigit with
  | [] => whole != []
  | '.' :: fraction => fraction.all Char.isDigit && (whole != [] || fraction != [])
  | _ => false

def isNumber : List Char → Bool
  | '-' :: rest => isUnsigned rest
  | s => isUnsigned s

/-- Whether a text is markup in angle brackets, which is written as it is. -/
def isMarkup (s : List Char) : Bool :=
  match dropNewline s with
  | '<' :: rest => rest.getLast? == some '>'
  | _ => false

def isBare (s : List Char) : Bool :=
  (isName (dropNewline s) || isNumber (dropNewline s)) && !keywords.contains (s.map Char.toLower)

/-- Escapes the quotation marks that are not escaped yet. The flag tells whether the characters
before end in an odd number of backslashes. -/
def escapeQuotes (odd : Bool) : List Char → List Char
  | [] => []
  | c :: rest =>
    if c = '"' then (if odd then ['"'] else ['\\', '"']) ++ escapeQuotes false rest
    else c :: escapeQuotes (c = '\\' && !odd) rest

def inQuotes (s : List Char) : List Char :=
  '"' :: escapeQuotes false s ++ ['"']

def quote (s : List Char) : List Char :=
  if isMarkup s || isBare s then s else inQuotes s

/-- The resolution of the drawing: a number, or a text that is taken as it is. -/
inductive Resolution where
  | number (n : Int)
  | text (s : String)
  deriving DecidableEq, Repr

def Resolution.spell : Resolution → Except GraphError String
  | number n =>
    if digitLimit < (Nat.toDigits 10 n.natAbs).length then .error .resolutionTooLong
    else .ok (toString n)
  | text s => .ok s

def nodeId (entry : Int) : String :=
  "Block_" ++ hex8 entry

/-- The mark that ends a line of a label and aligns it to the left. -/
def labelBreak : List Char :=
  ['\\', 'l']

def label (instrs : List Instruction) : String :=
  String.ofList (instrs.flatMap fun i => (Event.disassemblyLine i).toList ++ labelBreak)

def nodeStatement (b : Block) : List Char :=
  quote (nodeId b.firstOffset).toList ++ " [label=".toList ++ quote (label b.instrs).toList ++ [']']

def edgeStatement (r : Relation) : List Char :=
  quote (nodeId r.source).toList ++ " -> ".toList ++ quote (nodeId r.target).toList

def styleStatements (resolution : String) : List (List Char) :=
  ["graph [bgcolor=\"#333333\" dpi=".toList ++ quote resolution.toList ++
      " fontcolor=white]".toList,
    ("node [color=white fillcolor=\"#006699\" fontcolor=white fontname=Consolas " ++
      "shape=box style=filled]").toList,
    "edge [arrowhead=open color=white style=dashed]".toList]

def statementLine (s : List Char) : List Char :=
  '\t' :: s ++ ['\n']

def opening : List Char :=
  "// Control Flow Graph\ndigraph G \x7b\n".toList

def closing : List Char :=
  "\x7d\n".toList

def document (statements : List (List Char)) : String :=
  String.ofList (opening ++ statements.flatMap statementLine ++ closing)

def inEntryOrder (blocks : List Block) : List Block :=
  sortBy (fun a b => decide (a.firstOffset ≤ b.firstOffset)) blocks

/-- The first block whose entry occurs before it or among those seen. -/
def repeatedEntry? (seen : List Int) : List Block → Option Block
  | [] => none
  | b :: rest =>
    if b.firstOffset ∈ seen then some b else repeatedEntry? (b.firstOffset :: seen) rest

/-- The DOT text of a graph. The entries of its blocks have to differ. -/
def render (g : Graph) (resolution : Resolution) : Except GraphError String :=
  match resolution.spell with
  | .error e => .error e
  | .ok dpi =>
    let blocks := inEntryOrder g.blocks
    match repeatedEntry? [] blocks with
    | some b => .error (.duplicateEntry b)
    | none =>
      .ok (document (styleStatements dpi ++ blocks.map nodeStatement ++
        g.sortedRelations.map edgeStatement))

end AvrFlow.Dot
