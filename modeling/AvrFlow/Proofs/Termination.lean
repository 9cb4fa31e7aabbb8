import AvrFlow.Proofs.Session
import Mathlib.Data.List.Perm.Subperm

/-!
Discovery comes to an end. A walk and an exploration are loops: each round of them leads to the next
one or ends the loop, and neither a stack of open calls nor a target bounds them. A walk climbs
through the offsets of the program, and an exploration uses up an unvisited offset for every two
targets that it adds to its worklist. So both stop after a number of rounds that depends only on the
number of instructions, and a whole session walks from no offset twice and stores no more blocks
than there are instructions.
-/

namespace AvrFlow

/-- The states of a loop after a number of rounds. -/
inductive Rounds {α : Type} (next : α → α → Prop) (a : α) : Nat → α → Prop where
  | zero : Rounds next a 0 a
  | succ {n : Nat} {b c : α} (hbefore : Rounds next a n b) (hround : next b c) :
      Rounds next a (n + 1) c

namespace Rounds

variable {α : Type} {next : α → α → Prop} {a b c : α} {n : Nat}

theorem head (hround : next a b) (h : Rounds next b n c) : Rounds next a (n + 1) c := by
  induction h with
  | zero => exact Rounds.zero.succ hround
  | succ _ hlast ih => exact ih.succ hlast

/-- Where every round lowers a measure, there are no more rounds than the measure at the start. -/
theorem add_measure_le {f : α → Nat} (hlower : ∀ b c, next b c → f c < f b)
    (h : Rounds next a n b) : n + f b ≤ f a := by
  induction h with
  | zero => omega
  | succ _ hround ih =>
    have hlt := hlower _ _ hround
    omega

end Rounds

namespace AddressIndex

variable {index : AddressIndex} {o p : Int}

/-- Every instruction that does not branch leads to a later offset. Nothing is asked of those that
branch. -/
def Advances (index : AddressIndex) : Prop :=
  ∀ i ∈ index.instrs, i.kind = none → 1 ≤ i.length

instance (index : AddressIndex) : Decidable index.Advances :=
  inferInstanceAs (Decidable (∀ i ∈ index.instrs, _))

def PassesTo (index : AddressIndex) (o p : Int) : Prop :=
  ∃ i, index.lookup? o = some i ∧ i.kind = none ∧ i.next ≤ index.highest ∧ i.next = p

structure WalkEnds (index : AddressIndex) (o : Int) : Prop where
  bounded : ∀ n p, Rounds index.PassesTo o n p → n ≤ index.size
  ascending : ∀ n p q, Rounds index.PassesTo o n p → index.PassesTo p q → p < q
  ended :
    (∃ r, index.walk o = .ok r ∧ r.Ascending ∧
      Rounds index.PassesTo o r.rest.length r.lastOffset ∧ ∀ q, ¬ index.PassesTo r.lastOffset q) ∨
    ∃ n m, index.walk o = .error (.missingInstruction m) ∧ Rounds index.PassesTo o n m ∧
      index.lookup? m = none

theorem length_offsets (index : AddressIndex) : index.offsets.length = index.size :=
  List.length_map _

theorem PassesTo.lt (hadv : index.Advances) (h : index.PassesTo o p) : o < p := by
  obtain ⟨i, hi, hkind, -, rfl⟩ := h
  have hlength := hadv i (mem_of_lookup? hi) hkind
  have hoffset := offset_of_lookup? hi
  rw [Instruction.next]
  omega

/-- A round leaves the offset behind that it stands at, so fewer offsets lie ahead after it. -/
theorem PassesTo.length_ahead_lt (hadv : index.Advances) (h : index.PassesTo o p) :
    (index.offsets.filter (p ≤ ·)).length < (index.offsets.filter (o ≤ ·)).length := by
  have hlt := h.lt hadv
  obtain ⟨i, hi, -⟩ := h
  have hahead : index.offsets.filter (p ≤ ·) =
      (index.offsets.filter (o ≤ ·)).filter (p ≤ ·) := by
    rw [List.filter_filter]
    apply List.filter_congr
    intro q _
    simp only [← Bool.decide_and, decide_eq_decide]
    omega
  rw [hahead]
  apply List.length_filter_lt_length_iff_exists.2
  refine ⟨o, ?_, ?_⟩
  · simpa using offset_mem_of_lookup? hi
  · simpa using hlt

theorem rounds_le_size (hadv : index.Advances) {n : Nat} (h : Rounds index.PassesTo o n p) :
    n ≤ index.size := by
  have hahead := h.add_measure_le fun _ _ hround => PassesTo.length_ahead_lt hadv hround
  have hall : (index.offsets.filter (o ≤ ·)).length ≤ index.offsets.length :=
    List.length_filter_le _ _
  rw [length_offsets] at hall
  omega

theorem walk_stops {r : Run} (h : index.walk o = .ok r) (q : Int) :
    ¬ index.PassesTo r.lastOffset q := by
  rintro ⟨i, hi, hkind, hend, -⟩
  have hline := line_of_walk h
  obtain rfl : r.last = i :=
    Option.some.inj ((hline.lookup?_mem r.last_mem_instrs).symm.trans hi)
  rw [r.instrs_eq_dropLast_append] at hline
  exact not_stops_iff.2 ⟨hkind, List.not_mem_nil, hend⟩ hline.stops_last

theorem passesTo_next {i : Instruction} (hi : index.lookup? o = some i)
    (hbranch : ¬ i.branches = true) (hend : ¬ index.highest < i.next) :
    index.PassesTo o i.next := by
  have hkind : i.kind = none := not_ne_iff.1 (mt Instruction.branches_iff.2 hbranch)
  exact ⟨i, hi, hkind, by omega, rfl⟩

/-- The rounds of a walk, whichever way it ends. -/
theorem walk_rounds (hadv : index.Advances) (o : Int) :
    (∃ r, index.walk o = .ok r ∧ Rounds index.PassesTo o r.rest.length r.lastOffset) ∨
      ∃ n m, index.walk o = .error (.missingInstruction m) ∧ Rounds index.PassesTo o n m ∧
        index.lookup? m = none := by
  fun_induction walk index o with
  | case1 o hnone => exact Or.inr ⟨0, o, rfl, Rounds.zero, hnone⟩
  | case2 o i hi | case3 o i hi =>
    refine Or.inl ⟨⟨i, []⟩, rfl, ?_⟩
    rw [show (⟨i, []⟩ : Run).lastOffset = o from offset_of_lookup? hi]
    exact Rounds.zero
  | case4 o i hi hbranch hend hlt ih =>
    have hround := passesTo_next hi hbranch hend
    rcases ih with ⟨r, hr, hrounds⟩ | ⟨n, m, hm, hrounds, hnone⟩
    · refine Or.inl ⟨r.cons i, by rw [hr]; rfl, ?_⟩
      rw [Run.lastOffset, Run.last_cons]
      exact hrounds.head hround
    · exact Or.inr ⟨n + 1, m, by rw [hm]; rfl, hrounds.head hround, hnone⟩
  | case5 o i hi hbranch hend hle =>
    -- Here the loop would stay at its offset or go back, which no instruction that advances does.
    exact absurd ((passesTo_next hi hbranch hend).lt hadv) hle

theorem walkEnds (hadv : index.Advances) (o : Int) : WalkEnds index o where
  bounded := fun _ _ h => rounds_le_size hadv h
  ascending := fun _ _ _ _ hround => hround.lt hadv
  ended := by
    rcases walk_rounds hadv o with ⟨r, hr, hrounds⟩ | hmissing
    · exact Or.inl ⟨r, hr, ascending_of_walk hr, hrounds, walk_stops hr⟩
    · exact Or.inr hmissing

theorem walk_ne_stalled (hadv : index.Advances) (m : Int) :
    index.walk o ≠ .error (.stalled m) := by
  rcases walk_rounds hadv o with ⟨r, hr, -⟩ | ⟨n, m', hm, -⟩
  · simp [hr]
  · simp [hm]

end AddressIndex

namespace Exploration

open AddressIndex

variable {index : AddressIndex} {x y : Exploration} {t : Target} {work rest : List Target} {n : Nat}

/-- A round of an exploration that goes on: it passes over a target that has been visited, or visits
it and puts its new targets before the others. -/
inductive Turn (index : AddressIndex) :
    Exploration × List Target → Exploration × List Target → Prop where
  | skip {x : Exploration} {t : Target} {work : List Target} (hmem : t.entry ∈ x.visited) :
      Turn index (x, t :: work) (x, work)
  | visit {x : Exploration} {t : Target} {work : List Target} {b : Block} {targets : List Target}
      (hnew : t.entry ∉ x.visited) (hok : (x.visit index t).result = .ok (b, targets)) :
      Turn index (x, t :: work)
        ((x.visit index t).state, (x.visit index t).state.fresh targets ++ work)

/-- How an exploration from one entry comes to an end: the number of rounds is bounded, no round
stores more blocks than there are instructions, and the last one finds an empty worklist or a visit
that fails, but never one that would not end. -/
structure DiscoveryEnds (index : AddressIndex) (x : Exploration) (entry : Int) : Prop where
  bounded : ∀ n c, Rounds (Turn index) (x, [⟨entry, []⟩]) n c → n ≤ 2 * index.size + 1
  blocks_le : ∀ n y rest, Rounds (Turn index) (x, [⟨entry, []⟩]) n (y, rest) →
    y.blocks.length ≤ index.size
  ended :
    (∃ n found, (x.discover index entry).result = .ok found ∧
      Rounds (Turn index) (x, [⟨entry, []⟩]) n ((x.discover index entry).state, [])) ∨
    ∃ n y t rest e, Rounds (Turn index) (x, [⟨entry, []⟩]) n (y, t :: rest) ∧
      t.entry ∉ y.visited ∧ (y.visit index t).result = .error e ∧ (∀ m, e ≠ .stalled m) ∧
      (x.discover index entry).state = (y.visit index t).state ∧
      (x.discover index entry).result = .error e

/-- A visit uses up an unvisited offset and adds at most two targets in place of its own; passing
over a target takes it off the worklist. -/
theorem Turn.measure_lt {c d : Exploration × List Target} (h : Turn index c d) :
    2 * (unvisited index d.1).length + d.2.length <
      2 * (unvisited index c.1).length + c.2.length := by
  cases h with
  | skip => simp
  | @visit x t work b targets hnew hok =>
    have hused := length_unvisited_visit_lt hnew hok
    have htwo := length_targets_visit_le hok
    have hfresh := length_fresh_le (x.visit index t).state targets
    simp only [List.length_append, List.length_cons]
    omega

theorem turns_le (h : Rounds (Turn index) (x, work) n (y, rest)) :
    n ≤ 2 * index.size + work.length := by
  have hmeasure := h.add_measure_le
    (f := fun c => 2 * (unvisited index c.1).length + c.2.length)
    fun _ _ hturn => hturn.measure_lt
  have hall : (unvisited index x).length ≤ index.offsets.length := List.length_filter_le _ _
  rw [length_offsets] at hall
  dsimp only at hmeasure
  omega

theorem Consistent.rounds (hx : Consistent index x) {c : Exploration × List Target}
    (h : Rounds (Turn index) (x, work) n c) : Consistent index c.1 := by
  induction h with
  | zero => exact hx
  | succ _ hturn ih =>
    cases hturn with
    | skip => exact ih
    | visit hnew => exact ih.visit hnew

/-- Different blocks have different entries, and every entry is the offset of an instruction. -/
theorem Consistent.length_blocks_le (h : Consistent index x) : x.blocks.length ≤ index.size := by
  have hsub : x.blocks.map (·.firstOffset) ⊆ index.offsets := by
    intro o ho
    obtain ⟨b, hb, rfl⟩ := List.mem_map.1 ho
    obtain ⟨line, hline, -⟩ := h.begins b hb
    exact mem_offsets_of_walk hline
  have hle := (h.entries_nodup.subperm hsub).length_le
  rwa [List.length_map, length_offsets] at hle

theorem visit_ne_stalled (hadv : index.Advances) {e : GraphError}
    (h : (x.visit index t).result = .error e) (m : Int) : e ≠ .stalled m := by
  rintro rfl
  rcases (visit_error h).1 with hwalk | ⟨r, -, htargets⟩
  · exact walk_ne_stalled hadv m hwalk
  · rcases targets_error htargets with ⟨he, -⟩ | he | ⟨name, he⟩ <;> cases he

theorem discoveryEnds (hadv : index.Advances) (hx : Consistent index x) (entry : Int) :
    DiscoveryEnds index x entry where
  bounded := fun _ _ h => turns_le h
  blocks_le := fun _ _ _ h => (hx.rounds h).length_blocks_le
  ended := by
    -- The states that an exploration goes through are those after some number of rounds.
    rcases explore_invariant
      (P := fun y rest => ∃ n, Rounds (Turn index) (x, [⟨entry, []⟩]) n (y, rest))
      (fun _ _ _ ⟨n, hn⟩ hmem => ⟨n + 1, hn.succ (Turn.skip hmem)⟩)
      (fun _ _ _ _ _ ⟨n, hn⟩ hnew hok => ⟨n + 1, hn.succ (Turn.visit hnew hok)⟩)
      ⟨0, Rounds.zero⟩ with
      ⟨found, hresult, n, hrounds⟩ | ⟨y, t, rest, e, ⟨n, hrounds⟩, hnew, he, hstate, hresult⟩
    · exact Or.inl ⟨n, found, hresult, hrounds⟩
    · exact Or.inr
        ⟨n, y, t, rest, e, hrounds, hnew, he, visit_ne_stalled hadv he, hstate, hresult⟩

end Exploration

def Event.walk? : Event → Option Int
  | visiting entry => some entry
  | _ => none

namespace Exploration

variable {index : AddressIndex} {x : Exploration} {t : Target} {work : List Target}

theorem walks_visit (index : AddressIndex) (x : Exploration) (t : Target) :
    (x.visit index t).events.filterMap Event.walk? = [t.entry] := by
  have hend (last : Instruction) : (walkEvent t.entry last).walk? = none := by
    unfold walkEvent
    split <;> rfl
  unfold visit
  split
  · rfl
  · dsimp only
    split
    · simp only [List.filterMap_cons, hend, List.filterMap_nil]
      rfl
    · simp only [List.cons_append, List.nil_append, List.filterMap_cons, hend, List.filterMap_map]
      simp [Event.walk?]

/-- An exploration walks from the offsets that it adds to the visited ones, in this order. -/
theorem visited_explore (index : AddressIndex) (x : Exploration) (work : List Target) :
    (explore index x work).state.visited.reverse =
      x.visited.reverse ++ (explore index x work).events.filterMap Event.walk? := by
  fun_induction explore index x work with
  | case1 x => simp
  | case2 x t work hmem ih => exact ih
  | case3 x t work hnew o e he =>
    simp only [o, visited_visit, walks_visit, List.reverse_cons]
  | case4 x t work hnew o b targets hok later ih =>
    simp only [o, visited_visit, List.reverse_cons] at ih
    simp only [o, List.filterMap_append, walks_visit, ← List.append_assoc]
    exact ih

theorem nodup_visited_explore (h : x.visited.Nodup) (work : List Target) :
    (explore index x work).state.visited.Nodup := by
  apply state_explore_invariant (P := fun y => y.visited.Nodup)
  · intro y t hy hnew
    rw [visited_visit]
    exact List.nodup_cons.2 ⟨hnew, hy⟩
  · exact h

end Exploration

theorem Graph.walks_split (g : Graph) (i j : Nat) :
    (g.split i j).events.filterMap Event.walk? = [] := by
  unfold split
  split
  · dsimp only
    split
    · rfl
    · split <;> rfl
  · rfl

theorem Graph.walks_resolve (g : Graph) : g.resolve.events.filterMap Event.walk? = [] := by
  fun_induction resolve g with
  | case1 => rfl
  | case2 g i j _ o e _ => exact walks_split g i j
  | case3 g i j _ o _ later ih =>
    rw [List.filterMap_append, ih, walks_split]
    rfl

namespace Exploration

theorem walks_secondPass (x : Exploration) (wanted : Bool) :
    (x.secondPass wanted).events.filterMap Event.walk? = [] := by
  have hresolve : x.resolve.events.filterMap Event.walk? = [] := x.toGraph.walks_resolve
  cases wanted with
  | false => rfl
  | true =>
    simp only [secondPass, if_true]
    split
    · exact hresolve
    · simp only [List.cons_append, List.filterMap_cons, List.filterMap_append, hresolve]
      rfl

theorem visited_recover (index : AddressIndex) (start : Int) (wanted : Bool) :
    (recover index start wanted).state.visited = (empty.discover index start).state.visited := by
  rcases state_recover index start wanted with hstate | hstate
  · rw [hstate]
  · rw [hstate]
    rfl

theorem walks_recover (index : AddressIndex) (start : Int) (wanted : Bool) :
    (recover index start wanted).events.filterMap Event.walk? =
      (recover index start wanted).state.visited.reverse := by
  have hdiscover : (empty.discover index start).state.visited.reverse =
      (empty.discover index start).events.filterMap Event.walk? :=
    visited_explore index empty [⟨start, []⟩]
  rw [visited_recover, hdiscover]
  unfold recover
  dsimp only
  split
  · rfl
  · simp only [List.cons_append, List.nil_append, List.filterMap_cons, List.filterMap_append,
      walks_secondPass]
    exact List.append_nil _

end Exploration

theorem Action.visited_perform (index : AddressIndex) (x : Exploration) (a : Action) :
    (a.perform index x).state.visited.reverse =
      x.visited.reverse ++ (a.perform index x).events.filterMap Event.walk? := by
  cases a with
  | discover entry => exact x.visited_explore index [⟨entry, []⟩]
  | resolve =>
    have hresolve : x.resolve.events.filterMap Event.walk? = [] := x.toGraph.walks_resolve
    simp only [perform, hresolve, List.append_nil]
    rfl
  | findOverlap => exact (List.append_nil _).symm
  | render resolution => exact (List.append_nil _).symm

theorem Action.nodup_visited_perform {index : AddressIndex} {x : Exploration}
    (h : x.visited.Nodup) (a : Action) : (a.perform index x).state.visited.Nodup := by
  cases a with
  | discover entry => exact Exploration.nodup_visited_explore h [⟨entry, []⟩]
  | resolve => exact h
  | findOverlap => exact h
  | render resolution => exact h

namespace Session

open Exploration

def walks (index : AddressIndex) : Session → List Int
  | opened start wanted => (recover index start wanted).events.filterMap Event.walk?
  | later before action =>
    before.walks index ++
      (action.perform index (before.state index)).events.filterMap Event.walk?

theorem walks_eq (index : AddressIndex) (s : Session) :
    s.walks index = (s.state index).visited.reverse := by
  induction s with
  | opened start wanted => exact walks_recover index start wanted
  | later before a ih => rw [walks, state, ih, a.visited_perform]

theorem nodup_visited (index : AddressIndex) (s : Session) : (s.state index).visited.Nodup := by
  induction s with
  | opened start wanted =>
    rw [state, visited_recover]
    exact nodup_visited_explore List.nodup_nil [⟨start, []⟩]
  | later before a ih => exact a.nodup_visited_perform ih

/-- Where every instruction that does not branch advances, discovery comes to an end after every
session and from every entry: each walk ends, over ascending offsets, and so does the exploration.
No session walks from an offset twice or stores more blocks than there are instructions. -/
theorem discovery_ends (index : AddressIndex) (h : index.Advances) (s : Session) (entry : Int) :
    (∀ o, index.WalkEnds o) ∧ DiscoveryEnds index (s.state index) entry ∧
      (s.walks index).Nodup ∧ (s.state index).blocks.length ≤ index.size := by
  have hstate := consistent_state index s
  refine ⟨AddressIndex.walkEnds h, discoveryEnds h hstate entry, ?_, hstate.length_blocks_le⟩
  rw [walks_eq, List.nodup_reverse]
  exact nodup_visited index s

/-- Two calls that lead to each other in a circle, so that open calls pile up without end. Neither
call leads to a later offset when it returns. -/
def endlessCalls : AddressIndex :=
  AddressIndex.ofNodup
    [⟨0, none, "nop", [], 1, "nop"⟩, ⟨1, some .call, "call", [4], 0, "call 4"⟩,
      ⟨4, some .rcall, "rcall", [-3], -1, "rcall .-3"⟩]
    (by decide)

theorem discovery_ends_endlessCalls :
    endlessCalls.Advances ∧
      let s := ((Session.opened 0 false).later (.discover 7)).later .resolve
      (∀ o, endlessCalls.WalkEnds o) ∧ DiscoveryEnds endlessCalls (s.state endlessCalls) 1 ∧
        (s.walks endlessCalls).Nodup ∧
        (s.state endlessCalls).blocks.length ≤ endlessCalls.size :=
  ⟨by decide, discovery_ends endlessCalls (by decide) _ 1⟩

end Session

end AvrFlow
