import AvrFlow.Event

namespace AvrFlow

/-- What a step leaves behind: the state it reached, what it reported, and its result. -/
structure Outcome (σ ε α : Type) where
  state : σ
  events : List Event
  result : Except ε α

end AvrFlow
