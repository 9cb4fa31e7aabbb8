import AvrFlow.Exploration
import AvrFlow.Overlap

namespace AvrFlow.Exploration

def resolve (x : Exploration) : Outcome Exploration GraphError Nat :=
  let o := x.toGraph.resolve
  ⟨{ x with toGraph := o.state }, o.events, o.result⟩

def secondPass (x : Exploration) (wanted : Bool) : Outcome Exploration GraphError Unit :=
  if wanted then
    let o := x.resolve
    match o.result with
    | .error e => ⟨o.state, .resolving :: o.events, .error e⟩
    | .ok splits => ⟨o.state, .resolving :: o.events ++ [.resolved splits], .ok ()⟩
  else ⟨x, [], .ok ()⟩

def recover (index : AddressIndex) (start : Int) (wanted : Bool) :
    Outcome Exploration GraphError Unit :=
  let intro := [.highestOffset index.highest, .discovering start]
  let o := empty.discover index start
  match o.result with
  | .error e => ⟨o.state, intro ++ o.events, .error e⟩
  | .ok _ =>
    let second := o.state.secondPass wanted
    ⟨second.state,
      intro ++ o.events ++ .discovered o.state.blocks.length :: second.events, second.result⟩

end AvrFlow.Exploration
