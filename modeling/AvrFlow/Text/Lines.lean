/-!
Lines of text. A line ends at any of ten break characters or at the pair CR LF, and a text whose
last character ends a line has no empty line after it.
-/

namespace AvrFlow.Text

def isLineBreak (c : Char) : Bool :=
  let n := c.toNat
  (0x0A ≤ n && n ≤ 0x0D) || (0x1C ≤ n && n ≤ 0x1E) || n == 0x85 || n == 0x2028 || n == 0x2029

def lines : List Char → List (List Char)
  | [] => []
  | '\r' :: '\n' :: rest => [] :: lines rest
  | c :: rest =>
    if isLineBreak c then [] :: lines rest
    else
      match lines rest with
      | [] => [[c]]
      | line :: more => (c :: line) :: more

/-- Writes every CR LF and every lone CR as one LF. -/
def unifyNewlines : List Char → List Char
  | [] => []
  | '\r' :: '\n' :: rest => '\n' :: unifyNewlines rest
  | c :: rest => (if c = '\r' then '\n' else c) :: unifyNewlines rest

def dropNewline (s : List Char) : List Char :=
  if s.getLast? = some '\n' then s.dropLast else s

def linesOf (s : String) : List String :=
  (lines s.toList).map String.ofList

end AvrFlow.Text
