import AvrFlow.GraphError
import AvrFlow.Outcome

namespace AvrFlow.Graph

/-- The blocks with their places in the arena, in ascending order of their entries; blocks with
equal entries keep their order. -/
def inEntryOrder (blocks : List Block) : List (Block × Nat) :=
  sortBy (fun a b => decide (a.1.firstOffset ≤ b.1.firstOffset)) blocks.zipIdx

def neighbours {α : Type} (xs : List α) : List (α × α) :=
  xs.zip xs.tail

def findOverlap? (blocks : List Block) : Option (Nat × Nat) :=
  (neighbours (inEntryOrder blocks)).findSome? fun (a, b) =>
    if a.1.overlaps b.1.toRun then some (a.2, b.2) else none

/-- The relations after a cut: those of the longer block now leave the shorter one, and the longer
one falls through. -/
def moveRelations (long short : Int) (relations : List Relation) : List Relation :=
  let moved := relations.filter (·.source = long)
  let kept := relations.filter (·.source ≠ long)
  addRelations (moved.map (fun r => ⟨short, r.target⟩) ++ [⟨long, short⟩]) kept

/-- Cuts the block at one place where the block at another place begins. Both have to end at one
offset and begin at different ones. -/
def split (g : Graph) (long short : Nat) : Outcome Graph GraphError Unit :=
  match g.blocks[long]?, g.blocks[short]? with
  | some b, some s =>
    let found := [.overlapFound b s]
    if b.lastOffset ≠ s.lastOffset ∨ b.firstOffset = s.firstOffset then
      ⟨g, found, .error (.unsupportedOverlap b s)⟩
    else
      match b.shrink? s.firstOffset with
      | none => ⟨g, found, .error .emptyBlock⟩
      | some b' =>
        ⟨⟨g.blocks.set long b', moveRelations b.firstOffset s.firstOffset g.relations⟩, found,
          .ok ()⟩
  | _, _ => ⟨g, [], .error .noSuchBlock⟩

theorem overlaps_of_findOverlap? {blocks : List Block} {i j : Nat}
    (h : findOverlap? blocks = some (i, j)) :
    ∃ b s, blocks[i]? = some b ∧ blocks[j]? = some s ∧ b.overlaps s.toRun = true := by
  obtain ⟨⟨⟨b, i'⟩, ⟨s, j'⟩⟩, hmem, hif⟩ := List.exists_of_findSome?_eq_some h
  dsimp only at hif
  split at hif
  · next hover =>
    obtain ⟨rfl, rfl⟩ : i' = i ∧ j' = j := by simpa using hif
    obtain ⟨hb, hs⟩ := List.of_mem_zip hmem
    have hs := List.mem_of_mem_tail hs
    rw [inEntryOrder, mem_sortBy, List.mem_zipIdx_iff_getElem?] at hb hs
    exact ⟨b, s, hb, hs, hover⟩
  · exact absurd hif (by simp)

theorem size_lt_of_shrink? {b b' : Block} {offset : Int} (h : b.shrink? offset = some b')
    (hlast : offset ≤ b.lastOffset) : b'.size < b.size := by
  obtain ⟨r, hr, rfl⟩ := Option.map_eq_some_iff.1 h
  have hinstrs : r.instrs = b.instrs.filter (·.offset < offset) := Run.ofList?_eq_some_iff.1 hr
  simp only [Run.size, hinstrs]
  refine Nat.lt_of_le_of_ne (List.length_filter_le _ _) fun heq => ?_
  have hall := List.length_filter_eq_length_iff.1 heq b.last b.last_mem_instrs
  simp only [decide_eq_true_eq] at hall
  simp only [Run.lastOffset] at hlast
  omega

theorem totalSize_set_lt {blocks : List Block} {i : Nat} {b b' : Block} (h : blocks[i]? = some b)
    (hlt : b'.size < b.size) :
    totalSize (blocks.set i b') < totalSize blocks := by
  induction blocks generalizing i with
  | nil => exact absurd h (by simp)
  | cons c rest ih =>
    cases i with
    | zero =>
      obtain rfl : c = b := by simpa using h
      simp only [List.set_cons_zero, totalSize, List.foldr_cons]
      omega
    | succ i =>
      have := ih (i := i) (by simpa using h)
      simp only [List.set_cons_succ, totalSize, List.foldr_cons] at this ⊢
      omega

/-- A split of two overlapping blocks leaves fewer instructions in the arena. -/
theorem size_split_lt {g : Graph} {i j : Nat} (hfound : findOverlap? g.blocks = some (i, j))
    (hok : (g.split i j).result = .ok ()) : (g.split i j).state.size < g.size := by
  obtain ⟨b, s, hb, hs, hover⟩ := overlaps_of_findOverlap? hfound
  -- The last instruction of the longer block stands at or after the entry of the shorter one.
  simp only [split, hb, hs] at hok ⊢
  split at hok
  · exact absurd hok (by simp)
  · next hguard =>
    split at hok
    · exact absurd hok (by simp)
    · next b' hb' =>
      rw [if_neg hguard]
      simp only [size]
      refine totalSize_set_lt hb (size_lt_of_shrink? hb' ?_)
      simp only [Run.overlaps, Bool.and_eq_true, decide_eq_true_eq] at hover
      exact hover.2

/-- Splits overlapping blocks until none are left; the result is the number of splits. Splits
before an error stay. -/
def resolve (g : Graph) : Outcome Graph GraphError Nat :=
  match _hfound : findOverlap? g.blocks with
  | none => ⟨g, [], .ok 0⟩
  | some (i, j) =>
    let o := g.split i j
    match hok : o.result with
    | .error e => ⟨o.state, o.events, .error e⟩
    | .ok () =>
      let later := resolve o.state
      ⟨later.state, o.events ++ later.events, later.result.map (· + 1)⟩
termination_by g.size
decreasing_by exact size_split_lt _hfound hok

theorem resolve_of_none {g : Graph} (h : findOverlap? g.blocks = none) :
    g.resolve = ⟨g, [], .ok 0⟩ := by
  rw [resolve]
  split
  · rfl
  · next hsome =>
    rw [h] at hsome
    cases hsome

theorem resolve_of_error {g : Graph} {i j : Nat} {e : GraphError}
    (h : findOverlap? g.blocks = some (i, j)) (he : (g.split i j).result = .error e) :
    g.resolve = ⟨(g.split i j).state, (g.split i j).events, .error e⟩ := by
  rw [resolve]
  split
  · next hnone =>
    rw [h] at hnone
    cases hnone
  · next hsome =>
    rw [h] at hsome
    cases hsome
    dsimp only
    split
    · next e' he' =>
      rw [he] at he'
      cases he'
      rfl
    · next hok =>
      rw [he] at hok
      cases hok

theorem resolve_of_ok {g : Graph} {i j : Nat} (h : findOverlap? g.blocks = some (i, j))
    (hok : (g.split i j).result = .ok ()) :
    g.resolve =
      let o := g.split i j
      let later := o.state.resolve
      ⟨later.state, o.events ++ later.events, later.result.map (· + 1)⟩ := by
  rw [resolve]
  split
  · next hnone =>
    rw [h] at hnone
    cases hnone
  · next hsome =>
    rw [h] at hsome
    cases hsome
    dsimp only
    split
    · next he =>
      rw [hok] at he
      cases he
    · rfl

end AvrFlow.Graph
