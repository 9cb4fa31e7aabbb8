import AvrFlow.Text.Quoted

/-!
Values of options. An option that takes a value has one, or it is there and was left blank.
-/

namespace AvrFlow

open AvrFlow.Text

inductive Value (α : Type) where
  | given (value : α)
  | blank
  deriving DecidableEq, Repr

namespace Value

def get? {α : Type} : Value α → Option α
  | given a => some a
  | blank => none

def blankText : String := "[]"

def text : Value String → String
  | given s => s
  | blank => blankText

/-- A value in quotation marks; a blank one has none. -/
def inQuotes : Value String → String
  | given s => quoted s
  | blank => blankText

end Value

end AvrFlow
