import AvrFlow.Text.Hexadecimal
import AvrFlow.Text.Printable

/-!
Quoted text for messages. Single quotes are used, or double ones around a text that has a single
quote and no double one. Characters that do not print are written as escapes.
-/

namespace AvrFlow.Text

def quotationMark (s : List Char) : Char :=
  if s.contains '\'' && !s.contains '"' then '"' else '\''

/-- A numeric escape: a letter that tells the width, then the code point in hexadecimal. -/
def numericEscape (letter : Char) (width : Nat) (n : Nat) : List Char :=
  '\\' :: letter :: zeroFill width (hexDigits n)

def commonEscape? (mark c : Char) : Option (List Char) :=
  if c = '\\' ∨ c = mark then some ['\\', c]
  else if c = '\n' then some ['\\', 'n']
  else if c = '\r' then some ['\\', 'r']
  else if c = '\t' then some ['\\', 't']
  else none

def escapeChar (mark c : Char) : List Char :=
  match commonEscape? mark c with
  | some e => e
  | none =>
    if isPrintable c then [c]
    else if c.toNat < 0x100 then numericEscape 'x' 2 c.toNat
    else if c.toNat < 0x10000 then numericEscape 'u' 4 c.toNat
    else numericEscape 'U' 8 c.toNat

def escapeByte (mark : Char) (b : UInt8) : List Char :=
  let c := Char.ofNat b.toNat
  match commonEscape? mark c with
  | some e => e
  | none => if b < 0x20 || 0x7F ≤ b then numericEscape 'x' 2 b.toNat else [c]

def quoted (s : String) : String :=
  let mark := quotationMark s.toList
  String.ofList (mark :: s.toList.flatMap (escapeChar mark) ++ [mark])

/-- Bytes in quotation marks, after the letter that tells them from text. -/
def quotedBytes (bytes : List UInt8) : String :=
  let mark := quotationMark (bytes.map fun b => Char.ofNat b.toNat)
  String.ofList ('b' :: mark :: bytes.flatMap (escapeByte mark) ++ [mark])

end AvrFlow.Text
