import AvrFlow.Text.Blank
import AvrFlow.Text.DecimalDigit
import AvrFlow.Text.Hexadecimal

namespace AvrFlow.Text

/-- How the base of a literal is chosen: fixed, or taken from the literal's own prefix. -/
inductive LiteralBase where
  | ten
  | sixteen
  | spelled
  deriving DecidableEq, Repr

inductive LiteralFault where
  | malformed
  | tooManyDigits (count : Nat)
  deriving DecidableEq, Repr

def digitLimit : Nat := 4300

/-- The plain form of a character: foreign digits and blanks become ASCII ones. -/
def plainChar (c : Char) : Char :=
  if c.toNat < 127 then c
  else if isBlank c then ' '
  else
    match digitValue? c with
    | some d => Char.ofNat (0x30 + d)
    | none => c

def digitIn? (base : Nat) (c : Char) : Option Nat :=
  (hexDigitValue? c).filter (· < base)

/-- The values of a row of digits in which a single underscore may stand between two digits. -/
def digitRow? (base : Nat) : List Char → Option (List Nat)
  | [] => none
  | [c] => (digitIn? base c).map ([·])
  | c :: '_' :: rest => (digitIn? base c).bind fun d => (digitRow? base rest).map (d :: ·)
  | c :: rest => (digitIn? base c).bind fun d => (digitRow? base rest).map (d :: ·)

def takeSign : List Char → Bool × List Char
  | '-' :: rest => (true, rest)
  | '+' :: rest => (false, rest)
  | s => (false, s)

/-- Drops one underscore at the start, as is allowed right after a prefix. -/
def dropUnderscore : List Char → List Char
  | '_' :: rest => rest
  | s => s

def prefixBase? (c : Char) : Option Nat :=
  if c = 'x' ∨ c = 'X' then some 16
  else if c = 'o' ∨ c = 'O' then some 8
  else if c = 'b' ∨ c = 'B' then some 2
  else none

/-- The base of an unsigned literal, its row of digits, and whether it may only denote zero. -/
def takeBase (base : LiteralBase) (s : List Char) : Nat × List Char × Bool :=
  match base, s with
  | .ten, s => (10, s, false)
  | .sixteen, '0' :: c :: rest =>
    if prefixBase? c = some 16 then (16, dropUnderscore rest, false) else (16, s, false)
  | .sixteen, s => (16, s, false)
  | .spelled, '0' :: c :: rest =>
    match prefixBase? c with
    | some b => (b, dropUnderscore rest, false)
    -- A leading zero without a prefix is left to the number zero.
    | none => (10, s, true)
  | .spelled, s => (10, s, false)

def trimAscii (s : List Char) : List Char :=
  ((s.dropWhile isAsciiBlank).reverse.dropWhile isAsciiBlank).reverse

def rowValue (base : Nat) (zeroOnly : Bool) (digits : List Nat) : Except LiteralFault Nat :=
  if base = 10 ∧ digitLimit < digits.length then .error (.tooManyDigits digits.length)
  else if zeroOnly ∧ ofDigits base digits ≠ 0 then .error .malformed
  else .ok (ofDigits base digits)

/-- Reads an integer literal. It may have blanks around it, a sign, a base prefix and single
underscores between its digits; digits and blanks of any script count as the plain ones. -/
def readInteger (base : LiteralBase) (s : List Char) : Except LiteralFault Int :=
  let (negative, unsigned) := takeSign (trimAscii (s.map plainChar))
  let (radix, row, zeroOnly) := takeBase base unsigned
  match digitRow? radix row with
  | none => .error .malformed
  | some digits =>
    (rowValue radix zeroOnly digits).map fun n => if negative then -(n : Int) else n

end AvrFlow.Text
