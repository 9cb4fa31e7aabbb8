import AvrFlow.DecodeError
import AvrFlow.Text.Lines

/-!
Operands that denote numbers. There are four spellings: a signed displacement after a dot, a
hexadecimal number, a decimal number and a register. Each may end in one line feed, and all but the
hexadecimal one take digits of any script.
-/

namespace AvrFlow.Operand

open AvrFlow.Text

/-- A spelled number: its sign, its base and its digits, most significant first. -/
structure Numeral where
  negative : Bool
  base : Nat
  digits : List Nat
  deriving DecidableEq, Repr

def Numeral.toInt (n : Numeral) : Int :=
  if n.negative then -(ofDigits n.base n.digits : Int) else ofDigits n.base n.digits

def row? (value? : Char → Option Nat) (s : List Char) : Option (List Nat) :=
  if s = [] then none else s.mapM value?

def decimalRow? (negative : Bool) (s : List Char) : Option Numeral :=
  (row? digitValue? s).map (⟨negative, 10, ·⟩)

def hexRow? (negative : Bool) (s : List Char) : Option Numeral :=
  (row? hexDigitValue? s).map (⟨negative, 16, ·⟩)

/-- A displacement: a dot, a sign and decimal digits. -/
def displacement? (s : List Char) : Option Numeral :=
  match dropNewline s with
  | '.' :: '+' :: row => decimalRow? false row
  | '.' :: '-' :: row => decimalRow? true row
  | _ => none

/-- A hexadecimal number: an optional minus, `0x` and hexadecimal digits. -/
def hexadecimal? (s : List Char) : Option Numeral :=
  match dropNewline s with
  | '-' :: '0' :: 'x' :: row => hexRow? true row
  | '0' :: 'x' :: row => hexRow? false row
  | _ => none

/-- A decimal number: an optional minus and decimal digits. -/
def decimal? (s : List Char) : Option Numeral :=
  match dropNewline s with
  | '-' :: row => decimalRow? true row
  | row => decimalRow? false row

/-- A register: the letter `r` and decimal digits. -/
def register? (s : List Char) : Option Numeral :=
  match dropNewline s with
  | 'r' :: row => decimalRow? false row
  | _ => none

def numeral? (s : List Char) : Option Numeral :=
  displacement? s <|> hexadecimal? s <|> decimal? s <|> register? s

/-- The value of an operand: nothing for an operand that is not a number, such as a pointer
register. A number in base ten may be too long. -/
def decode (s : List Char) : Except DecodeError (Option Int) :=
  match numeral? s with
  | none => .ok none
  | some n =>
    if n.base = 10 ∧ digitLimit < n.digits.length then .error (.tooManyDigits n.digits.length)
    else .ok (some n.toInt)

end AvrFlow.Operand
