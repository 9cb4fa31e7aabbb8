import AvrFlow.Proofs.Termination

/-!
Discovery as a recursion. The worklist holds what a recursion would still have to come back to: to
explore a worklist is to descend from its members one after the other. A member that was visited
when it was put there is passed over by the recursion as well, because nothing is ever unvisited.
-/

namespace AvrFlow

open AddressIndex

variable {i : Instruction} {stack : List Int} {result : Except GraphError (List Target)}

/-- The table of successors, row by row: where control goes after an instruction, in order, and with
which return addresses. -/
inductive Instruction.Leads (i : Instruction) : List Int → Except GraphError (List Target) → Prop
    where
  | straight {s : List Int} (hkind : i.kind = none) : Leads i s (.ok [])
  | jmp {s : List Int} {v : Int} (hkind : i.kind = some .jmp) (hv : i.operands[0]? = some v) :
      Leads i s (.ok [⟨v, s⟩])
  | rjmp {s : List Int} {v : Int} (hkind : i.kind = some .rjmp) (hv : i.operands[0]? = some v) :
      Leads i s (.ok [⟨i.next + v, s⟩])
  -- The branch that is taken stands first.
  | branch {s : List Int} {v : Int} (hkind : i.kind = some .brbs ∨ i.kind = some .brbc)
      (hv : i.operands[1]? = some v) : Leads i s (.ok [⟨i.next + v, s⟩, ⟨i.next, s⟩])
  | call {s : List Int} {v : Int} (hkind : i.kind = some .call) (hv : i.operands[0]? = some v) :
      Leads i s (.ok [⟨v, i.next :: s⟩])
  | rcall {s : List Int} {v : Int} (hkind : i.kind = some .rcall) (hv : i.operands[0]? = some v) :
      Leads i s (.ok [⟨i.next + v, i.next :: s⟩])
  | ret {back : Int} {s : List Int} (hkind : i.kind = some .ret) :
      Leads i (back :: s) (.ok [⟨back, s⟩])
  | unbalanced (hkind : i.kind = some .ret) : Leads i [] (.error (.unbalancedReturn i.offset))
  | lacksFirst {s : List Int} (hkind : i.kind = some .jmp ∨ i.kind = some .rjmp ∨
      i.kind = some .call ∨ i.kind = some .rcall) (hv : i.operands[0]? = none) :
      Leads i s (.error .missingOperand)
  | lacksSecond {s : List Int} (hkind : i.kind = some .brbs ∨ i.kind = some .brbc)
      (hv : i.operands[1]? = none) : Leads i s (.error .missingOperand)
  | unknown {s : List Int} {name : String} (hkind : i.kind = some (.other name)) :
      Leads i s (.error (.unknownKind name))

theorem operand_eq_error {n : Nat} (h : i.operands[n]? = none) :
    i.operand n = .error .missingOperand := by
  rw [Instruction.operand, h]

/-- A row that reads an operand has a second one beside it for the case that there is none. -/
theorem leads_map_operand (n : Nat) (f : Int → List Target)
    (hsome : ∀ v, i.operands[n]? = some v → i.Leads stack (.ok (f v)))
    (hnone : i.operands[n]? = none → i.Leads stack (.error .missingOperand)) :
    i.Leads stack ((i.operand n).map f) := by
  cases hv : i.operands[n]? with
  | some v =>
    rw [operand_eq_ok_iff.2 hv]
    exact hsome v hv
  | none =>
    rw [operand_eq_error hv]
    exact hnone hv

theorem leads_targets (i : Instruction) (stack : List Int) : i.Leads stack (i.targets stack) := by
  unfold Instruction.targets
  split
  case h_1 hkind => exact .straight hkind
  case h_2 hkind =>
    exact leads_map_operand 0 _ (fun _ => .jmp hkind) (.lacksFirst (Or.inl hkind))
  case h_3 hkind =>
    exact leads_map_operand 0 _ (fun _ => .rjmp hkind) (.lacksFirst (Or.inr (Or.inl hkind)))
  case h_4 hkind =>
    exact leads_map_operand 1 _ (fun _ => .branch (Or.inl hkind)) (.lacksSecond (Or.inl hkind))
  case h_5 hkind =>
    exact leads_map_operand 1 _ (fun _ => .branch (Or.inr hkind)) (.lacksSecond (Or.inr hkind))
  case h_6 hkind =>
    exact leads_map_operand 0 _ (fun _ => .call hkind)
      (.lacksFirst (Or.inr (Or.inr (Or.inl hkind))))
  case h_7 hkind =>
    exact leads_map_operand 0 _ (fun _ => .rcall hkind)
      (.lacksFirst (Or.inr (Or.inr (Or.inr hkind))))
  case h_8 hkind =>
    -- A return looks at the stack and at no operand.
    cases stack with
    | nil => exact .unbalanced hkind
    | cons back outer => exact .ret hkind
  case h_9 name hkind => exact .unknown hkind

theorem Instruction.Leads.targets_eq (h : i.Leads stack result) : i.targets stack = result := by
  cases h with
  | straight hkind | unbalanced hkind | unknown hkind | ret hkind =>
    simp only [Instruction.targets, hkind]
  | jmp hkind hv | rjmp hkind hv | call hkind hv | rcall hkind hv =>
    simp only [Instruction.targets, hkind, operand_eq_ok_iff.2 hv]
    rfl
  | branch hkind hv =>
    rcases hkind with hkind | hkind <;>
    · simp only [Instruction.targets, hkind, operand_eq_ok_iff.2 hv]
      rfl
  | lacksFirst hkind hv =>
    rcases hkind with hkind | hkind | hkind | hkind <;>
    · simp only [Instruction.targets, hkind, operand_eq_error hv]
      rfl
  | lacksSecond hkind hv =>
    rcases hkind with hkind | hkind <;>
    · simp only [Instruction.targets, hkind, operand_eq_error hv]
      rfl

namespace AddressIndex

variable {index : AddressIndex} {o p : Int} {n : Nat}

theorem walk_of_not_stops (hadv : index.Advances) (hi : index.lookup? o = some i)
    (hgo : ¬ index.Stops [] i) : index.walk o = (index.walk i.next).map (Run.cons i) := by
  obtain ⟨hkind, -, hend⟩ := not_stops_iff.1 hgo
  have hlength := hadv i (mem_of_lookup? hi) hkind
  have hoffset := offset_of_lookup? hi
  have hlater : o < i.next := by
    rw [Instruction.next]
    omega
  have hbranch : ¬ i.branches = true := by simp [Instruction.branches, hkind]
  rw [walk, hi]
  dsimp only
  rw [if_neg hbranch, if_neg (by omega), if_pos hlater]

theorem walk_of_line (hadv : index.Advances) {is : List Instruction} (h : index.Line [] o is) :
    ∀ r : Run, r.instrs = is → index.walk o = .ok r := by
  induction h with
  | @last o i hi hstop =>
    rintro ⟨first, rest⟩ hr
    cases hr
    rw [walk, hi]
    rcases hstop with hkind | hmem | hend
    · simp [Instruction.branches_iff.2 hkind]
    · exact absurd hmem List.not_mem_nil
    · simp [hend]
  | @cons o i is hi hgo hrest ih =>
    cases is with
    | nil => exact absurd rfl hrest.ne_nil
    | cons j js =>
      rintro ⟨first, rest⟩ hr
      cases hr
      rw [walk_of_not_stops hadv hi hgo, ih ⟨j, js⟩ rfl]
      rfl

theorem walk_error_of_rounds (hadv : index.Advances) {e : GraphError}
    (h : Rounds index.PassesTo o n p) (he : index.walk p = .error e) : index.walk o = .error e := by
  induction h with
  | zero => exact he
  | succ _ hround ih =>
    obtain ⟨i, hi, hkind, hend, rfl⟩ := hround
    apply ih
    rw [walk_of_not_stops hadv hi (not_stops_iff.2 ⟨hkind, List.not_mem_nil, hend⟩), he]
    rfl

end AddressIndex

namespace Exploration

variable {index : AddressIndex} {x y : Exploration}

mutual

/-- The recursion from a target: what it leaves, and the new blocks in order. A target that has been
visited is passed over. Another one is marked, its straight line is walked and stored under the next
number, it is related to its successors, and the recursion goes on from each of them. -/
inductive Descends (index : AddressIndex) :
    Exploration → Target → Exploration → Except GraphError (List Block) → Prop where
  | again {x : Exploration} {t : Target} (hmem : t.entry ∈ x.visited) :
      Descends index x t x (.ok [])
  | lost {x : Exploration} {t : Target} {n : Nat} {m : Int} (hnew : t.entry ∉ x.visited)
      (hpassed : Rounds index.PassesTo t.entry n m) (hnone : index.lookup? m = none) :
      Descends index x t { x with visited := t.entry :: x.visited }
        (.error (.missingInstruction m))
  -- The block is there when the end of its line turns out to lead nowhere.
  | stuck {x : Exploration} {t : Target} {r : Run} {e : GraphError} (hnew : t.entry ∉ x.visited)
      (hline : index.Line [] t.entry r.instrs) (hleads : r.last.Leads t.stack (.error e)) :
      Descends index x t
        ⟨⟨x.blocks ++ [⟨r, x.blocks.length⟩], x.relations⟩, t.entry :: x.visited⟩ (.error e)
  | onward {x y : Exploration} {t : Target} {r : Run} {successors : List Target}
      {found : Except GraphError (List Block)} (hnew : t.entry ∉ x.visited)
      (hline : index.Line [] t.entry r.instrs) (hleads : r.last.Leads t.stack (.ok successors))
      (hall : DescendsAll index
        ⟨⟨x.blocks ++ [⟨r, x.blocks.length⟩],
          successors.foldl (fun set s => set.insert ⟨t.entry, s.entry⟩) x.relations⟩,
          t.entry :: x.visited⟩ successors y found) :
      Descends index x t y (found.map (⟨r, x.blocks.length⟩ :: ·))

inductive DescendsAll (index : AddressIndex) :
    Exploration → List Target → Exploration → Except GraphError (List Block) → Prop where
  | nil {x : Exploration} : DescendsAll index x [] x (.ok [])
  | failed {x y : Exploration} {t : Target} {ts : List Target} {e : GraphError}
      (hfirst : Descends index x t y (.error e)) : DescendsAll index x (t :: ts) y (.error e)
  | cons {x y z : Exploration} {t : Target} {ts : List Target} {found : List Block}
      {later : Except GraphError (List Block)} (hfirst : Descends index x t y (.ok found))
      (hrest : DescendsAll index y ts z later) :
      DescendsAll index x (t :: ts) z (later.map (found ++ ·))

end

theorem visited_subset_visit (index : AddressIndex) (x : Exploration) (t : Target) :
    x.visited ⊆ (x.visit index t).state.visited := by
  rw [visited_visit]
  exact List.subset_cons_self _ _

theorem length_unvisited_le (hsub : x.visited ⊆ y.visited) :
    (unvisited index y).length ≤ (unvisited index x).length := by
  apply List.Sublist.length_le
  apply List.monotone_filter_right
  intro o ho
  simp only [decide_eq_true_eq] at ho ⊢
  exact fun hx => ho (hsub hx)

def after (events : List Event) (found : List Block)
    (o : Outcome Exploration GraphError (List Block)) :
    Outcome Exploration GraphError (List Block) :=
  ⟨o.state, events ++ o.events, o.result.map (found ++ ·)⟩

def goOn (o : Outcome Exploration GraphError (List Block))
    (next : Exploration → Outcome Exploration GraphError (List Block)) :
    Outcome Exploration GraphError (List Block) :=
  match o.result with
  | .error e => ⟨o.state, o.events, .error e⟩
  | .ok found => after o.events found (next o.state)

theorem after_nil (o : Outcome Exploration GraphError (List Block)) : after [] [] o = o := by
  obtain ⟨y, events, result⟩ := o
  cases result <;> rfl

theorem after_after (events events' : List Event) (found found' : List Block)
    (o : Outcome Exploration GraphError (List Block)) :
    after events found (after events' found' o) =
      after (events ++ events') (found ++ found') o := by
  obtain ⟨y, reported, result⟩ := o
  cases result <;> simp [after, Except.map]

theorem goOn_after (events : List Event) (found : List Block)
    (o : Outcome Exploration GraphError (List Block))
    (next : Exploration → Outcome Exploration GraphError (List Block)) :
    goOn (after events found o) next = after events found (goOn o next) := by
  obtain ⟨y, reported, result⟩ := o
  cases result with
  | error e => rfl
  | ok later => exact (after_after events reported found later (next y)).symm

theorem goOn_congr {o : Outcome Exploration GraphError (List Block)}
    {next next' : Exploration → Outcome Exploration GraphError (List Block)}
    (h : next o.state = next' o.state) : goOn o next = goOn o next' := by
  unfold goOn
  rw [h]

/-- To explore a worklist is to explore its first part and to go on with the rest. -/
theorem explore_append (index : AddressIndex) (x : Exploration) (ts work : List Target) :
    explore index x (ts ++ work) = goOn (explore index x ts) fun y => explore index y work := by
  fun_induction explore index x ts with
  | case1 x => exact (after_nil _).symm
  | case2 x t ts hmem ih => rw [List.cons_append, explore_cons_of_mem hmem, ih]
  | case3 x t ts hnew o e he =>
    rw [List.cons_append, explore_cons_of_error hnew he]
    rfl
  | case4 x t ts hnew o b targets hok later ih =>
    -- The new targets stand in front of both parts, so they belong to the first one.
    rw [List.append_assoc] at ih
    have hlater := congrArg (after o.events [b]) ih
    rw [← goOn_after] at hlater
    rw [List.cons_append, explore_cons_of_ok hnew hok]
    exact hlater

theorem explore_cons (index : AddressIndex) (x : Exploration) (t : Target) (work : List Target) :
    explore index x (t :: work) = goOn (explore index x [t]) fun y => explore index y work :=
  explore_append index x [t] work

theorem visited_subset_explore (index : AddressIndex) (x : Exploration) (work : List Target) :
    x.visited ⊆ (explore index x work).state.visited := by
  apply state_explore_invariant (P := fun y => x.visited ⊆ y.visited)
  · intro y t hy _
    exact List.Subset.trans hy (visited_subset_visit index y t)
  · exact List.Subset.refl _

/-- What was visited when a worklist was made is passed over whenever it is met. -/
theorem explore_fresh (hsub : x.visited ⊆ y.visited) (ts : List Target) :
    explore index y (x.fresh ts) = explore index y ts := by
  induction ts generalizing y with
  | nil => rfl
  | cons t ts ih =>
    by_cases ht : t.entry ∈ x.visited
    · have hdrop : x.fresh (t :: ts) = x.fresh ts := by simp [fresh, ht]
      rw [hdrop, explore_cons_of_mem (hsub ht)]
      exact ih hsub
    · have hkeep : x.fresh (t :: ts) = t :: x.fresh ts := by simp [fresh, ht]
      rw [hkeep, explore_cons, explore_cons index y t ts]
      apply goOn_congr
      exact ih (List.Subset.trans hsub (visited_subset_explore index y [t]))

/-- What a visit leaves, written out, if its line and the end of its line lead on. -/
theorem visit_of_targets {t : Target} {r : Run} {targets : List Target}
    (hwalk : index.walk t.entry = .ok r) (htargets : r.last.targets t.stack = .ok targets) :
    (x.visit index t).state =
        ⟨⟨x.blocks ++ [⟨r, x.blocks.length⟩],
          targets.foldl (fun set s => set.insert ⟨t.entry, s.entry⟩) x.relations⟩,
          t.entry :: x.visited⟩ ∧
      (x.visit index t).result = .ok (⟨r, x.blocks.length⟩, targets) := by
  have hrelated : addRelations (targets.map fun s => ⟨t.entry, s.entry⟩) x.relations =
      targets.foldl (fun set s => set.insert ⟨t.entry, s.entry⟩) x.relations := by
    rw [addRelations, List.foldl_map]
  rw [← hrelated]
  simp only [visit, hwalk, nextBlock, htargets, and_true]
  rfl

theorem visit_of_targets_error {t : Target} {r : Run} {e : GraphError}
    (hwalk : index.walk t.entry = .ok r) (htargets : r.last.targets t.stack = .error e) :
    (x.visit index t).state =
        ⟨⟨x.blocks ++ [⟨r, x.blocks.length⟩], x.relations⟩, t.entry :: x.visited⟩ ∧
      (x.visit index t).result = .error e := by
  simp only [visit, hwalk, nextBlock, htargets, and_true]
  rfl

theorem visit_of_walk_error {t : Target} {e : GraphError} (hwalk : index.walk t.entry = .error e) :
    (x.visit index t).state = { x with visited := t.entry :: x.visited } ∧
      (x.visit index t).result = .error e := by
  simp only [visit, hwalk, and_true]
  rfl

/-- After a visit that succeeds, the exploration of one target goes on with all its own targets. -/
theorem explore_singleton {t : Target} {b : Block} {targets : List Target}
    (hnew : t.entry ∉ x.visited) (hok : (x.visit index t).result = .ok (b, targets)) :
    (explore index x [t]).state = (explore index (x.visit index t).state targets).state ∧
      (explore index x [t]).result =
        (explore index (x.visit index t).state targets).result.map (b :: ·) := by
  rw [explore_cons_of_ok hnew hok]
  dsimp only
  rw [List.append_nil, explore_fresh (List.Subset.refl _)]
  exact ⟨rfl, rfl⟩

mutual

theorem Descends.explore_eq (hadv : index.Advances) : ∀ {x y : Exploration} {t : Target}
    {found : Except GraphError (List Block)}, Descends index x t y found →
    (explore index x [t]).state = y ∧ (explore index x [t]).result = found
  | _, _, _, _, .again hmem => by
    rw [explore_cons_of_mem hmem, explore_nil]
    exact ⟨rfl, rfl⟩
  | x, _, _, _, .lost (m := m) hnew hpassed hnone => by
    -- The walk takes the rounds that lead to the gap, and breaks off there.
    have hmissing : index.walk m = .error (.missingInstruction m) := by rw [walk, hnone]
    obtain ⟨hstate, hresult⟩ :=
      visit_of_walk_error (x := x) (walk_error_of_rounds hadv hpassed hmissing)
    rw [explore_cons_of_error hnew hresult]
    exact ⟨hstate, rfl⟩
  | x, _, _, _, .stuck hnew hline hleads => by
    obtain ⟨hstate, hresult⟩ :=
      visit_of_targets_error (x := x) (walk_of_line hadv hline _ rfl) hleads.targets_eq
    rw [explore_cons_of_error hnew hresult]
    exact ⟨hstate, rfl⟩
  | x, _, _, _, .onward hnew hline hleads hall => by
    -- The worklist has no other member, so all that follows comes from the successors.
    have hlater := hall.explore_eq hadv
    obtain ⟨hstate, hresult⟩ :=
      visit_of_targets (x := x) (walk_of_line hadv hline _ rfl) hleads.targets_eq
    obtain ⟨hsame, hfound⟩ := explore_singleton hnew hresult
    rw [hsame, hfound, hstate, hlater.1, hlater.2]
    exact ⟨rfl, rfl⟩

theorem DescendsAll.explore_eq (hadv : index.Advances) : ∀ {x y : Exploration} {ts : List Target}
    {found : Except GraphError (List Block)}, DescendsAll index x ts y found →
    (explore index x ts).state = y ∧ (explore index x ts).result = found
  | _, _, _, _, .nil => by
    rw [explore_nil]
    exact ⟨rfl, rfl⟩
  | _, _, _, _, .failed hfirst => by
    obtain ⟨hstate, hresult⟩ := hfirst.explore_eq hadv
    rw [explore_cons, goOn, hresult]
    exact ⟨hstate, rfl⟩
  | _, _, _, _, .cons hfirst hrest => by
    obtain ⟨hstate, hresult⟩ := hfirst.explore_eq hadv
    obtain ⟨hlast, hfound⟩ := hrest.explore_eq hadv
    rw [explore_cons, goOn, hresult]
    dsimp only [after]
    rw [hstate, hlast, hfound]
    exact ⟨rfl, rfl⟩

end

theorem descendsAll_explore
    (h : ∀ y t, x.visited ⊆ y.visited →
      Descends index y t (explore index y [t]).state (explore index y [t]).result)
    (ts : List Target) :
    DescendsAll index x ts (explore index x ts).state (explore index x ts).result := by
  induction ts generalizing x with
  | nil =>
    rw [explore_nil]
    exact DescendsAll.nil
  | cons t ts ih =>
    have hfirst := h x t (List.Subset.refl _)
    -- What the first target has visited stays visited for the others.
    have hkept := visited_subset_explore index x [t]
    have hrest := ih fun y u hy => h y u (List.Subset.trans hkept hy)
    rw [explore_cons, goOn]
    split
    · next e hresult =>
      rw [hresult] at hfirst
      exact DescendsAll.failed hfirst
    · next found hresult =>
      rw [hresult] at hfirst
      exact DescendsAll.cons hfirst hrest

theorem descends_explore (hadv : index.Advances) (x : Exploration) (t : Target) :
    Descends index x t (explore index x [t]).state (explore index x [t]).result := by
  -- Each visit that succeeds leaves fewer offsets to visit, and no later step adds to them.
  induction hn : (unvisited index x).length using Nat.strong_induction_on generalizing x t with
  | _ n ih =>
    subst hn
    by_cases hmem : t.entry ∈ x.visited
    · rw [explore_cons_of_mem hmem, explore_nil]
      exact Descends.again hmem
    · rcases walk_rounds hadv t.entry with ⟨r, hwalk, -⟩ | ⟨n, m, hwalk, hpassed, hnone⟩
      · have hline := line_of_walk hwalk
        have hleads := leads_targets r.last t.stack
        cases htargets : r.last.targets t.stack with
        | error e =>
          obtain ⟨hstate, hresult⟩ := visit_of_targets_error (x := x) hwalk htargets
          rw [explore_cons_of_error hmem hresult, hstate]
          exact Descends.stuck hmem hline (htargets ▸ hleads)
        | ok targets =>
          obtain ⟨hstate, hresult⟩ := visit_of_targets (x := x) hwalk htargets
          have hlt := length_unvisited_visit_lt hmem hresult
          have hall : DescendsAll index (x.visit index t).state targets
              (explore index (x.visit index t).state targets).state
              (explore index (x.visit index t).state targets).result := by
            apply descendsAll_explore
            intro y u hy
            exact ih _ (Nat.lt_of_le_of_lt (length_unvisited_le hy) hlt) y u rfl
          obtain ⟨hsame, hfound⟩ := explore_singleton hmem hresult
          rw [hsame, hfound]
          exact Descends.onward hmem hline (htargets ▸ hleads) (hstate ▸ hall)
      · obtain ⟨hstate, hresult⟩ := visit_of_walk_error (x := x) hwalk
        rw [explore_cons_of_error hmem hresult, hstate]
        exact Descends.lost hmem hpassed hnone

/-- A discovery leaves what the recursion from its entry leaves and nothing else: the same new
blocks in the same order, the same relations and visited offsets, and the same error if there is
one. -/
theorem discover_iff_descends (hadv : index.Advances) (x : Exploration) (entry : Int)
    (found : Except GraphError (List Block)) :
    (x.discover index entry).state = y ∧ (x.discover index entry).result = found ↔
      Descends index x ⟨entry, []⟩ y found := by
  constructor
  · rintro ⟨rfl, rfl⟩
    exact descends_explore hadv x ⟨entry, []⟩
  · exact fun h => h.explore_eq hadv

/-- The callee returns twice to one offset, and from there control runs in a circle. -/
theorem descends_forkedCallee :
    forkedCallee.Advances ∧ ∃ y found, Descends forkedCallee empty ⟨0, []⟩ y (.ok found) ∧
      found.map (fun b => (b.id, b.offsets)) =
        [(0, [0]), (1, [6]), (2, [10]), (3, [2, 4]), (4, [8, 10])] ∧
      y.blocks = found ∧ y.visited = [8, 2, 10, 6, 0] ∧
      y.relations = [⟨8, 2⟩, ⟨2, 2⟩, ⟨10, 2⟩, ⟨6, 8⟩, ⟨6, 10⟩, ⟨0, 6⟩] := by
  have hadv : forkedCallee.Advances := by decide
  let o := empty.discover forkedCallee 0
  have hresult : o.result = .ok o.state.blocks := by decide +kernel
  have hdescends := (discover_iff_descends hadv empty 0 _).1 ⟨rfl, hresult⟩
  exact ⟨hadv, o.state, o.state.blocks, hdescends, by decide +kernel, rfl, by decide +kernel,
    by decide +kernel⟩

end Exploration

end AvrFlow
