import AvrFlow.Recovery
import AvrFlow.Proofs.Alike
import AvrFlow.Proofs.Admission

/-!
What instructions are called. No step between a list of instructions and its graph looks at the
mnemonic or at the text of an instruction: to take them away and then to work is the same as to work
and then to take them away.
-/

namespace AvrFlow

def Instruction.bare (i : Instruction) : Instruction :=
  { i with mnemonic := "", text := "" }

def Run.bare (r : Run) : Run :=
  ⟨r.first.bare, r.rest.map Instruction.bare⟩

def Block.bare (b : Block) : Block :=
  ⟨b.toRun.bare, b.id⟩

def Graph.bare (g : Graph) : Graph :=
  ⟨g.blocks.map Block.bare, g.relations⟩

def Exploration.bare (x : Exploration) : Exploration :=
  ⟨x.toGraph.bare, x.visited⟩

def GraphError.bare : GraphError → GraphError
  | unsupportedOverlap b s => unsupportedOverlap b.bare s.bare
  | duplicateEntry b => duplicateEntry b.bare
  | e => e

theorem map_offset_bare (instrs : List Instruction) :
    (instrs.map Instruction.bare).map (·.offset) = instrs.map (·.offset) := by
  rw [List.map_map]
  rfl

def AddressIndex.bare (index : AddressIndex) : AddressIndex :=
  ofNodup (index.instrs.map Instruction.bare) (by rw [map_offset_bare]; exact index.nodup)

variable {index : AddressIndex} {o : Int}

theorem AddressIndex.lookup?_bare :
    index.bare.lookup? o = (index.lookup? o).map Instruction.bare := by
  rw [lookup?_eq_find?, lookup?_eq_find?]
  exact List.find?_map

theorem AddressIndex.highest_bare : index.bare.highest = index.highest := by
  rw [index.bare.highest_eq, index.highest_eq, largestOffset, largestOffset]
  exact congrArg (fun offsets => offsets.max?.getD (-1)) (map_offset_bare index.instrs)

theorem Run.instrs_bare (r : Run) : r.bare.instrs = r.instrs.map Instruction.bare := rfl

theorem Run.last_bare (r : Run) : r.bare.last = r.last.bare := by
  have h := r.bare.getLast?_instrs
  rw [instrs_bare, List.getLast?_map, r.getLast?_instrs] at h
  exact (Option.some.inj h).symm

theorem Run.lastOffset_bare (r : Run) : r.bare.lastOffset = r.lastOffset := by
  rw [lastOffset, last_bare]
  rfl

theorem Run.overlaps_bare (r s : Run) : r.bare.overlaps s.bare = r.overlaps s := by
  rw [overlaps, lastOffset_bare, lastOffset_bare]
  rfl

theorem Run.below?_bare (r : Run) (o : Int) : r.bare.below? o = (r.below? o).map Run.bare := by
  rw [below?, below?, instrs_bare, List.filter_map]
  change ofList? ((r.instrs.filter (·.offset < o)).map Instruction.bare) = _
  cases r.instrs.filter (·.offset < o) <;> rfl

theorem Block.shrink?_bare (b : Block) (o : Int) :
    b.bare.shrink? o = (b.shrink? o).map Block.bare := by
  have hbelow : b.bare.below? o = (b.below? o).map Run.bare := b.toRun.below?_bare o
  rw [shrink?, shrink?, hbelow, Option.map_map, Option.map_map]
  rfl

def bareResult {α β : Type} (f : α → β) (r : Except GraphError α) : Except GraphError β :=
  (r.map f).mapError GraphError.bare

theorem Instruction.targets_bare (i : Instruction) (stack : List Int) :
    i.bare.targets stack = bareResult id (i.targets stack) := by
  have hoperand (n : Nat) (f : Int → List Target) :
      (i.operand n).map f = bareResult id ((i.operand n).map f) := by
    unfold operand
    split <;> rfl
  change i.targets stack = bareResult id (i.targets stack)
  unfold targets
  split
  case h_1 => rfl
  case h_8 => split <;> rfl
  case h_9 => rfl
  all_goals exact hoperand _ _

theorem AddressIndex.walk_bare : index.bare.walk o = bareResult Run.bare (index.walk o) := by
  -- The walk goes by kinds, offsets and lengths, and these are as they were.
  have hbranches (i : Instruction) : i.bare.branches = i.branches := rfl
  have hnext (i : Instruction) : i.bare.next = i.next := rfl
  fun_induction walk index o with
  | case1 o hnone =>
    rw [walk, lookup?_bare, hnone]
    rfl
  | case2 o i hi hbranch =>
    rw [walk, lookup?_bare, hi]
    simp only [Option.map_some, hbranches, hbranch, if_true]
    rfl
  | case3 o i hi hbranch hend =>
    rw [walk, lookup?_bare, hi]
    simp only [Option.map_some, hbranches, hnext, highest_bare, hbranch, hend, if_true]
    rfl
  | case4 o i hi hbranch hend hlt ih =>
    rw [walk, lookup?_bare, hi]
    simp only [Option.map_some, hbranches, hnext, highest_bare, hbranch, hend, hlt, if_true, ih]
    cases index.walk i.next <;> rfl
  | case5 o i hi hbranch hend hle =>
    rw [walk, lookup?_bare, hi]
    simp only [Option.map_some, hbranches, hnext, highest_bare, hbranch, hend, hle]
    rfl

namespace Graph

theorem inEntryOrder_bare (blocks : List Block) :
    inEntryOrder (blocks.map Block.bare) = (inEntryOrder blocks).map (Prod.map Block.bare id) := by
  rw [inEntryOrder, List.zipIdx_map]
  exact sortBy_map (fun _ _ => rfl) _

theorem findOverlap?_bare (blocks : List Block) :
    findOverlap? (blocks.map Block.bare) = findOverlap? blocks := by
  rw [findOverlap?, inEntryOrder_bare, neighbours_map, List.findSome?_map, findOverlap?]
  congr 1
  funext p
  change (if p.1.1.toRun.bare.overlaps p.2.1.toRun.bare then _ else _) = _
  rw [Run.overlaps_bare]
  rfl

theorem split_bare (g : Graph) (i j : Nat) :
    (g.bare.split i j).state = (g.split i j).state.bare ∧
      (g.bare.split i j).result = bareResult id (g.split i j).result := by
  have hget (k : Nat) : g.bare.blocks[k]? = g.blocks[k]?.map Block.bare := List.getElem?_map
  unfold split
  rw [hget, hget]
  cases hb : g.blocks[i]? with
  | none => exact ⟨rfl, rfl⟩
  | some b =>
    cases hs : g.blocks[j]? with
    | none => exact ⟨rfl, rfl⟩
    | some s =>
      have hlast (b : Block) : b.bare.lastOffset = b.lastOffset := b.toRun.lastOffset_bare
      have hfirst (b : Block) : b.bare.firstOffset = b.firstOffset := rfl
      simp only [Option.map_some, hlast, hfirst, Block.shrink?_bare]
      split
      · exact ⟨rfl, rfl⟩
      · cases b.shrink? s.firstOffset with
        | none => exact ⟨rfl, rfl⟩
        | some b' =>
          refine ⟨?_, rfl⟩
          simp [bare]

theorem resolve_bare (g : Graph) :
    g.bare.resolve.state = g.resolve.state.bare ∧
      g.bare.resolve.result = bareResult id g.resolve.result := by
  have hfind (g : Graph) : findOverlap? g.bare.blocks = findOverlap? g.blocks :=
    findOverlap?_bare g.blocks
  fun_induction resolve g with
  | case1 g hnone =>
    rw [resolve_of_none ((hfind g).trans hnone)]
    exact ⟨rfl, rfl⟩
  | case2 g i j hfound o e he =>
    obtain ⟨hstate, hresult⟩ := split_bare g i j
    have he' : (g.bare.split i j).result = .error e.bare := by
      rw [hresult, he]
      rfl
    rw [resolve_of_error ((hfind g).trans hfound) he']
    exact ⟨hstate, rfl⟩
  | case3 g i j hfound o hok later ih =>
    obtain ⟨hstate, hresult⟩ := split_bare g i j
    have hok' : (g.bare.split i j).result = .ok () := by
      rw [hresult, hok]
      rfl
    rw [resolve_of_ok ((hfind g).trans hfound) hok']
    dsimp only
    rw [hstate]
    refine ⟨ih.1, ?_⟩
    rw [ih.2]
    cases later.result <;> rfl

end Graph

namespace Exploration

theorem visit_bare (index : AddressIndex) (x : Exploration) (t : Target) :
    (x.bare.visit index.bare t).state = (x.visit index t).state.bare ∧
      (x.bare.visit index.bare t).result =
        bareResult (Prod.map Block.bare id) (x.visit index t).result := by
  unfold visit
  rw [AddressIndex.walk_bare]
  cases index.walk t.entry with
  | error e => exact ⟨rfl, rfl⟩
  | ok r =>
    have htargets : r.bare.last.targets t.stack = bareResult id (r.last.targets t.stack) := by
      rw [Run.last_bare, Instruction.targets_bare]
    have hblock : x.bare.nextBlock r.bare = (x.nextBlock r).bare := by
      simp [nextBlock, bare, Graph.bare, Block.bare]
    have hstore : (x.bare.mark t.entry).store (x.nextBlock r).bare =
        ((x.mark t.entry).store (x.nextBlock r)).bare := by
      simp [store, mark, bare, Graph.bare]
    cases hlast : r.last.targets t.stack with
    | error e =>
      rw [hlast] at htargets
      simp only [bareResult, Except.map, Except.mapError] at htargets ⊢
      simp only [htargets, hlast, hblock, hstore, and_self]
    | ok targets =>
      rw [hlast] at htargets
      simp only [bareResult, Except.map, Except.mapError] at htargets ⊢
      simp only [htargets, hlast, hblock, hstore]
      exact ⟨rfl, rfl⟩

theorem explore_bare (index : AddressIndex) (x : Exploration) (work : List Target) :
    (x.bare.explore index.bare work).state = (x.explore index work).state.bare ∧
      (x.bare.explore index.bare work).result =
        bareResult (List.map Block.bare) (x.explore index work).result := by
  fun_induction explore index x work with
  | case1 x =>
    rw [explore_nil]
    exact ⟨rfl, rfl⟩
  | case2 x t work hmem ih =>
    rw [explore_cons_of_mem (x := x.bare) hmem]
    exact ih
  | case3 x t work hnew o e he =>
    obtain ⟨hstate, hresult⟩ := visit_bare index x t
    have he' : (x.bare.visit index.bare t).result = .error e.bare := by
      rw [hresult, he]
      rfl
    rw [explore_cons_of_error (x := x.bare) hnew he']
    exact ⟨hstate, rfl⟩
  | case4 x t work hnew o b targets hok later ih =>
    obtain ⟨hstate, hresult⟩ := visit_bare index x t
    have hok' : (x.bare.visit index.bare t).result = .ok (b.bare, targets) := by
      rw [hresult, hok]
      rfl
    have hfresh : o.state.bare.fresh targets = o.state.fresh targets := rfl
    rw [explore_cons_of_ok (x := x.bare) hnew hok']
    dsimp only
    rw [hstate, hfresh]
    refine ⟨ih.1, ?_⟩
    rw [ih.2]
    cases later.result <;> rfl

theorem secondPass_bare (x : Exploration) (wanted : Bool) :
    (x.bare.secondPass wanted).state = (x.secondPass wanted).state.bare ∧
      (x.bare.secondPass wanted).result = bareResult id (x.secondPass wanted).result := by
  cases wanted with
  | false => exact ⟨rfl, rfl⟩
  | true =>
    obtain ⟨hstate, hresult⟩ := Graph.resolve_bare x.toGraph
    have hstate' : x.bare.resolve.state = x.resolve.state.bare := by
      change Exploration.mk x.toGraph.bare.resolve.state x.visited = _
      rw [hstate]
      rfl
    have hresult' : x.bare.resolve.result = bareResult id x.resolve.result := hresult
    simp only [secondPass, if_true, hstate', hresult']
    cases x.resolve.result with
    | error e => exact ⟨rfl, rfl⟩
    | ok splits => exact ⟨rfl, rfl⟩

/-- A recovery without names is the recovery of the instructions without names. -/
theorem recover_bare (index : AddressIndex) (start : Int) (wanted : Bool) :
    (recover index.bare start wanted).state = (recover index start wanted).state.bare ∧
      (recover index.bare start wanted).result =
        bareResult id (recover index start wanted).result := by
  obtain ⟨hstate, hresult⟩ := explore_bare index empty [⟨start, []⟩]
  have hstate' : (empty.discover index.bare start).state =
    (empty.discover index start).state.bare := hstate
  have hresult' : (empty.discover index.bare start).result =
    bareResult (List.map Block.bare) (empty.discover index start).result := hresult
  simp only [recover, hstate', hresult']
  cases (empty.discover index start).result with
  | error e => exact ⟨rfl, rfl⟩
  | ok found => exact secondPass_bare _ wanted

end Exploration

/-- Instructions that differ at most in their mnemonics and texts. -/
structure Instruction.SameEffect (i j : Instruction) : Prop where
  offset : i.offset = j.offset
  kind : i.kind = j.kind
  operands : i.operands = j.operands
  length : i.length = j.length

theorem Instruction.SameEffect.bare_eq {i j : Instruction} (h : i.SameEffect j) :
    i.bare = j.bare := by
  simp only [bare, h.offset, h.kind, h.operands, h.length]

structure Block.SameRange (b c : Block) : Prop where
  id : b.id = c.id
  firstOffset : b.firstOffset = c.firstOffset
  lastOffset : b.lastOffset = c.lastOffset

theorem Block.sameRange_of_bare_eq {b c : Block} (h : b.bare = c.bare) : b.SameRange c where
  id := (congrArg Block.id h :)
  firstOffset := (congrArg (·.firstOffset) h :)
  lastOffset := by
    have hlast := congrArg (·.lastOffset) h
    exact b.toRun.lastOffset_bare.symm.trans (hlast.trans c.toRun.lastOffset_bare)

/-- The same cause: about the same offset, or about blocks with the same numbers and ranges. -/
def GraphError.SameCause : GraphError → GraphError → Prop
  | unsupportedOverlap b s, unsupportedOverlap c d => b.SameRange c ∧ s.SameRange d
  | duplicateEntry b, duplicateEntry c => b.SameRange c
  | e, e' => e = e'

theorem GraphError.sameCause_of_bare_eq {e e' : GraphError} (h : e.bare = e'.bare) :
    e.SameCause e' := by
  cases e <;> cases e' <;> simp only [bare, reduceCtorEq] at h
  case unsupportedOverlap.unsupportedOverlap b s c d =>
    injection h with hb hs
    exact ⟨Block.sameRange_of_bare_eq hb, Block.sameRange_of_bare_eq hs⟩
  case duplicateEntry.duplicateEntry b c =>
    injection h with hb
    exact Block.sameRange_of_bare_eq hb
  all_goals
    cases h
    rfl

namespace Exploration

structure SameOutline (x y : Exploration) : Prop where
  blocks : x.blocks.map (fun b => (b.id, b.offsets)) = y.blocks.map fun b => (b.id, b.offsets)
  relations : x.relations = y.relations
  visited : x.visited = y.visited

theorem sameOutline_of_bare_eq {x y : Exploration} (h : x.bare = y.bare) : SameOutline x y where
  blocks := by
    have hbare (z : Exploration) :
        z.blocks.map (fun b => (b.id, b.offsets)) =
          z.bare.blocks.map fun b => (b.id, b.offsets) := by
      change _ = (z.blocks.map Block.bare).map fun b => (b.id, b.offsets)
      rw [List.map_map]
      apply List.map_congr_left
      intro b _
      exact congrArg (b.id, ·) (map_offset_bare b.instrs).symm
    rw [hbare x, h, ← hbare y]
  relations := (congrArg (·.relations) h :)
  visited := (congrArg (·.visited) h :)

def SameResult : Except GraphError Unit → Except GraphError Unit → Prop
  | .ok (), .ok () => True
  | .error e, .error e' => e.SameCause e'
  | _, _ => False

theorem sameResult_of_bareResult_eq {r r' : Except GraphError Unit}
    (h : bareResult id r = bareResult id r') : SameResult r r' := by
  cases r with
  | ok u =>
    cases r' with
    | ok u' => trivial
    | error e' => cases h
  | error e =>
    cases r' with
    | ok u' => cases h
    | error e' => exact GraphError.sameCause_of_bare_eq (Except.error.inj h)

/-- Two lists of instructions lead to the same graph: both cannot be indexed, for the same repeated
offset, or both are recovered to the same outline with the same result. -/
def SameRecovery (instrs instrs' : List Instruction) (start : Int) (wanted : Bool) : Prop :=
  (∃ e, AddressIndex.ofList instrs = .error e ∧ AddressIndex.ofList instrs' = .error e) ∨
    ∃ index index', AddressIndex.ofList instrs = .ok index ∧
      AddressIndex.ofList instrs' = .ok index' ∧
      SameOutline (recover index start wanted).state (recover index' start wanted).state ∧
      SameResult (recover index start wanted).result (recover index' start wanted).result

end Exploration

theorem repeatedOffset?_congr {instrs instrs' : List Instruction} (seen : List Int)
    (h : instrs.map (·.offset) = instrs'.map (·.offset)) :
    repeatedOffset? seen instrs = repeatedOffset? seen instrs' := by
  induction instrs generalizing instrs' seen with
  | nil =>
    obtain rfl : instrs' = [] := by simpa using h.symm
    rfl
  | cons i is ih =>
    cases instrs' with
    | nil => simp at h
    | cons j js =>
      obtain ⟨hoffset, hrest⟩ := List.cons.inj h
      dsimp only at hoffset
      rw [repeatedOffset?, repeatedOffset?, hoffset, ih _ hrest]

theorem AddressIndex.ofList_eq_error {instrs : List Instruction} {offset : Int}
    (h : repeatedOffset? [] instrs = some offset) :
    ofList instrs = .error (.duplicateOffset offset) := by
  unfold ofList
  split
  · next o ho =>
    rw [h] at ho
    cases ho
    rfl
  · next hnone =>
    rw [h] at hnone
    cases hnone

/-- What instructions are called has no influence on their graph. -/
theorem sameRecovery_of_sameEffect {instrs instrs' : List Instruction}
    (h : List.Forall₂ Instruction.SameEffect instrs instrs') (start : Int) (wanted : Bool) :
    Exploration.SameRecovery instrs instrs' start wanted := by
  have hbare : instrs.map Instruction.bare = instrs'.map Instruction.bare := by
    rw [← List.forall₂_eq_eq_eq, List.forall₂_map_left_iff, List.forall₂_map_right_iff]
    exact h.imp fun _ _ hij => hij.bare_eq
  have hoffsets : instrs.map (·.offset) = instrs'.map (·.offset) := by
    rw [← map_offset_bare, hbare, map_offset_bare]
  have hrepeated := repeatedOffset?_congr [] hoffsets
  cases hinstrs : repeatedOffset? [] instrs with
  | some offset =>
    rw [hinstrs] at hrepeated
    exact Or.inl ⟨_, AddressIndex.ofList_eq_error hinstrs,
      AddressIndex.ofList_eq_error hrepeated.symm⟩
  | none =>
    have hnodup : (instrs.map (·.offset)).Nodup := (nodup_of_repeatedOffset?_eq_none hinstrs).1
    have hnodup' : (instrs'.map (·.offset)).Nodup := hoffsets ▸ hnodup
    have hindex : (AddressIndex.ofNodup instrs hnodup).bare =
        (AddressIndex.ofNodup instrs' hnodup').bare := by
      simp only [AddressIndex.bare, AddressIndex.ofNodup, hbare]
    obtain ⟨hstate, hresult⟩ :=
      Exploration.recover_bare (AddressIndex.ofNodup instrs hnodup) start wanted
    obtain ⟨hstate', hresult'⟩ :=
      Exploration.recover_bare (AddressIndex.ofNodup instrs' hnodup') start wanted
    rw [hindex] at hstate hresult
    right
    refine ⟨_, _, AddressIndex.ofList_eq_ok hnodup, AddressIndex.ofList_eq_ok hnodup', ?_, ?_⟩
    · exact Exploration.sameOutline_of_bare_eq (hstate.symm.trans hstate')
    · exact Exploration.sameResult_of_bareResult_eq (hresult.symm.trans hresult')

end AvrFlow
