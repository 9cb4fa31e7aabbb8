import AvrFlow.AddressIndex
import AvrFlow.Result

namespace AvrFlow.AddressIndex

/-- The instructions from an offset up to the first that branches, or up to the first after which
no instruction can follow. -/
def walk (index : AddressIndex) (offset : Int) : Except GraphError Run :=
  match index.lookup? offset with
  | none => .error (.missingInstruction offset)
  | some i =>
    if i.branches then .ok ⟨i, []⟩
    else if index.highest < i.next then .ok ⟨i, []⟩
    else if offset < i.next then (index.walk i.next).map (Run.cons i)
    else .error (.stalled offset)
-- Offsets ascend along a walk and stay at or below the highest one.
termination_by (index.highest + 1 - offset).toNat
decreasing_by omega

theorem lookup?_of_walk {index : AddressIndex} {offset : Int} {r : Run}
    (h : index.walk offset = .ok r) : index.lookup? offset = some r.first := by
  rw [walk] at h
  split at h
  · exact absurd h (by simp)
  · next i hi =>
    rw [hi]
    split at h
    · cases h
      rfl
    · split at h
      · cases h
        rfl
      · split at h
        · obtain ⟨s, -, rfl⟩ := exists_of_map_eq_ok h
          rfl
        · exact absurd h (by simp)

theorem mem_offsets_of_walk {index : AddressIndex} {offset : Int} {r : Run}
    (h : index.walk offset = .ok r) : offset ∈ index.offsets :=
  offset_mem_of_lookup? (lookup?_of_walk h)

end AvrFlow.AddressIndex
