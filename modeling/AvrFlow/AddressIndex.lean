import AvrFlow.GraphError
import Std.Data.TreeMap

namespace AvrFlow

/-- The first offset that occurs a second time, counting those seen before. -/
def repeatedOffset? (seen : List Int) : List Instruction → Option Int
  | [] => none
  | i :: is => if i.offset ∈ seen then some i.offset else repeatedOffset? (i.offset :: seen) is

theorem nodup_of_repeatedOffset?_eq_none {seen : List Int} {instrs : List Instruction}
    (h : repeatedOffset? seen instrs = none) :
    (instrs.map (·.offset)).Nodup ∧ ∀ i ∈ instrs, i.offset ∉ seen := by
  induction instrs generalizing seen with
  | nil => simp
  | cons i is ih =>
    unfold repeatedOffset? at h
    split at h
    · exact absurd h (by simp)
    · next hi =>
      obtain ⟨hnodup, hseen⟩ := ih h
      refine ⟨?_, ?_⟩
      · rw [List.map_cons, List.nodup_cons]
        refine ⟨fun hmem => ?_, hnodup⟩
        obtain ⟨j, hj, hji⟩ := List.mem_map.1 hmem
        exact hseen j hj (by simp [hji])
      · intro j hj
        rcases List.mem_cons.1 hj with rfl | hj
        · exact hi
        · exact fun hmem => hseen j hj (List.mem_cons_of_mem _ hmem)

/-- The instructions of a list by their offsets; the first one of an offset counts. -/
def offsetTable (instrs : List Instruction) : Std.TreeMap Int Instruction :=
  instrs.foldr (fun i table => table.insert i.offset i) ∅

theorem getElem?_offsetTable (instrs : List Instruction) (offset : Int) :
    (offsetTable instrs)[offset]? = instrs.find? (·.offset = offset) := by
  induction instrs with
  | nil => simp [offsetTable]
  | cons i is ih =>
    simp only [offsetTable, List.foldr_cons] at ih ⊢
    rw [Std.TreeMap.getElem?_insert, ih, List.find?_cons]
    by_cases h : i.offset = offset <;> simp [h]

/-- The largest offset in a list, or -1 in the empty list. -/
def largestOffset (instrs : List Instruction) : Int :=
  (instrs.map (·.offset)).max?.getD (-1)

structure AddressIndex where
  instrs : List Instruction
  -- Both are computed once and kept beside the list that they come from.
  table : Std.TreeMap Int Instruction
  highest : Int
  nodup : (instrs.map (·.offset)).Nodup
  table_eq : table = offsetTable instrs
  highest_eq : highest = largestOffset instrs

namespace AddressIndex

def ofNodup (instrs : List Instruction) (h : (instrs.map (·.offset)).Nodup) : AddressIndex :=
  ⟨instrs, offsetTable instrs, largestOffset instrs, h, rfl, rfl⟩

def ofList (instrs : List Instruction) : Except GraphError AddressIndex :=
  match h : repeatedOffset? [] instrs with
  | some offset => .error (.duplicateOffset offset)
  | none => .ok (ofNodup instrs (nodup_of_repeatedOffset?_eq_none h).1)

def offsets (index : AddressIndex) : List Int :=
  index.instrs.map (·.offset)

def lookup? (index : AddressIndex) (offset : Int) : Option Instruction :=
  index.table[offset]?

def lookup (index : AddressIndex) (offset : Int) : Except GraphError Instruction :=
  match index.lookup? offset with
  | some i => .ok i
  | none => .error (.missingInstruction offset)

def contains (index : AddressIndex) (offset : Int) : Bool :=
  index.offsets.contains offset

def size (index : AddressIndex) : Nat :=
  index.instrs.length

theorem lookup?_eq_find? (index : AddressIndex) (offset : Int) :
    index.lookup? offset = index.instrs.find? (·.offset = offset) := by
  rw [lookup?, index.table_eq, getElem?_offsetTable]

theorem mem_of_lookup? {index : AddressIndex} {offset : Int} {i : Instruction}
    (h : index.lookup? offset = some i) : i ∈ index.instrs :=
  List.mem_of_find?_eq_some (index.lookup?_eq_find? offset ▸ h)

theorem offset_of_lookup? {index : AddressIndex} {offset : Int} {i : Instruction}
    (h : index.lookup? offset = some i) : i.offset = offset := by
  rw [lookup?_eq_find?] at h
  simpa using List.find?_some h

theorem offset_mem_of_lookup? {index : AddressIndex} {offset : Int} {i : Instruction}
    (h : index.lookup? offset = some i) : offset ∈ index.offsets :=
  List.mem_map.2 ⟨i, mem_of_lookup? h, offset_of_lookup? h⟩

end AddressIndex

end AvrFlow
