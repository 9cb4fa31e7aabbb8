import AvrFlow.Block
import AvrFlow.Sorting

/-!
Control flow graphs: an arena of blocks and a set of relations between entry offsets. The set is a
list without repetitions whose order carries no meaning.
-/

namespace AvrFlow

/-- Control may go from the block entered at `source` to the one entered at `target`. -/
structure Relation where
  source : Int
  target : Int
  deriving DecidableEq, Repr

def Relation.le (r s : Relation) : Bool :=
  r.source < s.source || (r.source == s.source && r.target ≤ s.target)

structure Graph where
  blocks : List Block
  relations : List Relation
  deriving DecidableEq, Repr

namespace Graph

def empty : Graph := ⟨[], []⟩

def sortedRelations (g : Graph) : List Relation :=
  sortBy Relation.le g.relations

def totalSize (blocks : List Block) : Nat :=
  blocks.foldr (fun b n => b.size + n) 0

def size (g : Graph) : Nat :=
  totalSize g.blocks

end Graph

def addRelations (added : List Relation) (relations : List Relation) : List Relation :=
  added.foldl (fun set r => set.insert r) relations

theorem mem_addRelations {r : Relation} {added relations : List Relation} :
    r ∈ addRelations added relations ↔ r ∈ added ∨ r ∈ relations := by
  induction added generalizing relations with
  | nil => simp [addRelations]
  | cons a added ih =>
    simp only [addRelations, List.foldl_cons] at ih ⊢
    rw [ih, List.mem_insert_iff, List.mem_cons]
    grind

end AvrFlow
