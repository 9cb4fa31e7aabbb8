import AvrFlow.Outcome
import AvrFlow.Successor
import AvrFlow.Walk

namespace AvrFlow

/-- A graph under construction, with the entry offsets visited so far, newest first. -/
structure Exploration extends Graph where
  visited : List Int
  deriving DecidableEq, Repr

namespace Exploration

def empty : Exploration := ⟨Graph.empty, []⟩

def mark (x : Exploration) (entry : Int) : Exploration :=
  { x with visited := entry :: x.visited }

def nextBlock (x : Exploration) (r : Run) : Block :=
  ⟨r, x.blocks.length⟩

def store (x : Exploration) (b : Block) : Exploration :=
  { x with blocks := x.blocks ++ [b] }

def relate (x : Exploration) (entry : Int) (targets : List Target) : Exploration :=
  { x with
    relations := addRelations (targets.map fun t => ⟨entry, t.entry⟩) x.relations }

def walkEvent (entry : Int) (last : Instruction) : Event :=
  match last.kind with
  | none => .fellOff entry
  | some kind => .transferMet kind last.text

/-- Visits an entry: marks it, walks and stores its block, and relates it to its targets. -/
def visit (index : AddressIndex) (x : Exploration) (t : Target) :
    Outcome Exploration GraphError (Block × List Target) :=
  match index.walk t.entry with
  | .error e => ⟨x.mark t.entry, [.visiting t.entry], .error e⟩
  | .ok r =>
    let b := x.nextBlock r
    let stored := (x.mark t.entry).store b
    let walked := [.visiting t.entry, walkEvent t.entry r.last]
    match r.last.targets t.stack with
    | .error e => ⟨stored, walked, .error e⟩
    | .ok targets =>
      ⟨stored.relate t.entry targets,
        walked ++ .blockAdded b :: targets.map fun s => .relationAdded t.entry s.entry,
        .ok (b, targets)⟩

def fresh (x : Exploration) (targets : List Target) : List Target :=
  targets.filter (·.entry ∉ x.visited)

theorem length_fresh_le (x : Exploration) (targets : List Target) :
    (x.fresh targets).length ≤ targets.length :=
  List.length_filter_le _ _

def unvisited (index : AddressIndex) (x : Exploration) : List Int :=
  index.offsets.filter (· ∉ x.visited)

/-- Visiting an entry adds it to the visited offsets, whatever else happens. -/
theorem visited_visit (index : AddressIndex) (x : Exploration) (t : Target) :
    (x.visit index t).state.visited = t.entry :: x.visited := by
  unfold visit
  split
  · rfl
  · dsimp only
    split <;> rfl

theorem mem_offsets_of_visit {index : AddressIndex} {x : Exploration} {t : Target}
    {found : Block × List Target} (h : (x.visit index t).result = .ok found) :
    t.entry ∈ index.offsets := by
  unfold visit at h
  split at h
  · exact absurd h (by simp)
  · next r hr => exact AddressIndex.mem_offsets_of_walk hr

theorem length_targets_visit_le {index : AddressIndex} {x : Exploration} {t : Target} {b : Block}
    {targets : List Target} (h : (x.visit index t).result = .ok (b, targets)) :
    targets.length ≤ 2 := by
  unfold visit at h
  split at h
  · cases h
  · dsimp only at h
    split at h
    · cases h
    · next ts hts =>
      cases h
      exact Instruction.length_targets_le hts

/-- A successful visit of a new entry leaves fewer offsets to visit. -/
theorem length_unvisited_visit_lt {index : AddressIndex} {x : Exploration} {t : Target}
    {found : Block × List Target} (hnew : t.entry ∉ x.visited)
    (h : (x.visit index t).result = .ok found) :
    (unvisited index (x.visit index t).state).length < (unvisited index x).length := by
  have hmem := mem_offsets_of_visit h
  have hsub : unvisited index (x.visit index t).state =
      (unvisited index x).filter (· ≠ t.entry) := by
    simp only [unvisited, visited_visit, List.filter_filter]
    refine List.filter_congr fun o _ => ?_
    simp only [List.mem_cons, not_or]
    exact Bool.eq_iff_iff.2 (by simp)
  rw [hsub]
  refine Nat.lt_of_le_of_ne (List.length_filter_le _ _) fun heq => ?_
  have hall := List.length_filter_eq_length_iff.1 heq
  have hin : t.entry ∈ unvisited index x := by simp [unvisited, hmem, hnew]
  simpa using hall _ hin

/-- Explores the targets of a worklist, the first one first; the result is the list of new blocks
in order of discovery. What has been found before an error stays. -/
def explore (index : AddressIndex) (x : Exploration) :
    List Target → Outcome Exploration GraphError (List Block)
  | [] => ⟨x, [], .ok []⟩
  | t :: work =>
    if t.entry ∈ x.visited then explore index x work
    else
      let o := x.visit index t
      match _hvisit : o.result with
      | .error e => ⟨o.state, o.events, .error e⟩
      | .ok (b, targets) =>
        let later := explore index o.state (o.state.fresh targets ++ work)
        ⟨later.state, o.events ++ later.events, later.result.map (b :: ·)⟩
-- A visit uses up one unvisited offset and adds at most two targets to the worklist.
termination_by work => 3 * (unvisited index x).length + work.length
decreasing_by
  · simp
  · have hlt := length_unvisited_visit_lt ‹t.entry ∉ x.visited› _hvisit
    have htwo := length_targets_visit_le _hvisit
    have hfresh := length_fresh_le (x.visit index t).state targets
    simp only [List.length_append, List.length_cons]
    omega

@[simp] theorem explore_nil (index : AddressIndex) (x : Exploration) :
    explore index x [] = ⟨x, [], .ok []⟩ := by
  rw [explore]

theorem explore_cons_of_mem {index : AddressIndex} {x : Exploration} {t : Target}
    {work : List Target} (h : t.entry ∈ x.visited) :
    explore index x (t :: work) = explore index x work := by
  rw [explore, if_pos h]

theorem explore_cons_of_error {index : AddressIndex} {x : Exploration} {t : Target}
    {work : List Target} {e : GraphError} (hnew : t.entry ∉ x.visited)
    (h : (x.visit index t).result = .error e) :
    explore index x (t :: work) =
      ⟨(x.visit index t).state, (x.visit index t).events, .error e⟩ := by
  rw [explore, if_neg hnew]
  dsimp only
  split
  · next e' he' =>
    rw [h] at he'
    cases he'
    rfl
  · next hok =>
    rw [h] at hok
    cases hok

theorem explore_cons_of_ok {index : AddressIndex} {x : Exploration} {t : Target}
    {work : List Target} {b : Block} {targets : List Target} (hnew : t.entry ∉ x.visited)
    (h : (x.visit index t).result = .ok (b, targets)) :
    explore index x (t :: work) =
      let o := x.visit index t
      let later := explore index o.state (o.state.fresh targets ++ work)
      ⟨later.state, o.events ++ later.events, later.result.map (b :: ·)⟩ := by
  rw [explore, if_neg hnew]
  dsimp only
  split
  · next he =>
    rw [h] at he
    cases he
  · next hok =>
    rw [h] at hok
    cases hok
    rfl

def discover (index : AddressIndex) (x : Exploration) (entry : Int) :
    Outcome Exploration GraphError (List Block) :=
  explore index x [⟨entry, []⟩]

end Exploration

end AvrFlow
