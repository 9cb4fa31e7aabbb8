import AvrFlow.Text.IntegerLiteral

namespace AvrFlow

open AvrFlow.Text

inductive DecodeError where
  | tooManyDigits (count : Nat)
  | wrongOperands (mnemonic operands : String) (address : Int)
  | undefinedDecoder
  deriving DecidableEq, Repr

def DecodeError.message : DecodeError → String
  | tooManyDigits count =>
    s!"Exceeds the limit ({digitLimit} digits) for integer string conversion: value has {count} " ++
      "digits; use sys.set_int_max_str_digits() to increase the limit"
  | wrongOperands mnemonic operands address =>
    s!"Unable to decode operands of {mnemonic} {operands} at 0x{hex address}"
  | undefinedDecoder => "Not implemented"

end AvrFlow
