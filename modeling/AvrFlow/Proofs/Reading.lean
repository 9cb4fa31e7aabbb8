import AvrFlow.Listing
import Mathlib.Data.List.Nodup

namespace AvrFlow

open AvrFlow.Text

/-- An instruction of at least one byte which, if it branches, is of an understood kind and has as
many operands as that kind needs. -/
structure Instruction.Usable (i : Instruction) : Prop where
  length_pos : 1 ≤ i.length
  kind_mem : ∀ k ∈ i.kind, k ∈ Kind.all
  operands_length : ∀ k ∈ i.kind, i.operands.length = k.arity

structure Admissible (instrs : List Instruction) : Prop where
  ascending : instrs.Pairwise fun i j => i.offset < j.offset
  usable : ∀ i ∈ instrs, i.Usable

namespace Decoder

theorem mem_all_of_kindAndOperands {mnemonic : String} {values : List Int} {k : Kind}
    (h : (kindAndOperands mnemonic values).1 = some k) : k ∈ Kind.all := by
  unfold kindAndOperands at h
  split at h
  · next a ha =>
    have hkinds : ∀ a ∈ aliases, a.kind ∈ Kind.all := by decide
    obtain rfl := Option.some.inj h
    exact hkinds a (List.mem_of_find?_eq_some ha)
  · have hname : Kind.ofName? mnemonic = some k := h
    exact List.mem_of_find?_eq_some hname

/-- What is decoded stands where it was read, with the bytes that were read. -/
theorem avr_ok {address length : Int} {mnemonic operands : String} {i : Instruction}
    (h : avr address mnemonic operands length = .ok i) (hlength : 1 ≤ length) :
    i.offset = address ∧ i.Usable := by
  unfold avr at h
  split at h
  · cases h
  · next values _ =>
    dsimp only at h
    split at h
    · next hall =>
      cases h
      refine ⟨rfl, hlength, fun k hk => mem_all_of_kindAndOperands hk, ?_⟩
      intro k hk
      rw [Option.mem_def] at hk
      dsimp only at hk ⊢
      rw [hk, Option.all_some, decide_eq_true_eq] at hall
      exact hall.symm
    · cases h

end Decoder

namespace Listing

theorem length_pos_of_lineOfFields {text : List Char} {fields : List (List Char)} {address : Int}
    {mnemonic operands : String} {length : Nat}
    (h : lineOfFields text fields = .entry address mnemonic operands length) : 1 ≤ length := by
  unfold lineOfFields at h
  split at h
  · split at h
    · cases h
    · split at h
      · cases h
        exact Nat.succ_pos _
      · cases h
  · cases h

/-- A line without opcode bytes is no entry. -/
theorem Line.length_pos {line : String} {address : Int} {mnemonic operands : String} {length : Nat}
    (h : Line.ofText line = .entry address mnemonic operands length) : 1 ≤ length := by
  unfold Line.ofText at h
  dsimp only at h
  split at h
  · cases h
  · split at h
    · cases h
    · exact length_pos_of_lineOfFields h

def Line.Keeps (decode : Decoder) (P : List Instruction → Prop) : Line → Prop
  | noise | unreadable _ => True
  | entry address mnemonic operands length =>
    ∀ found i, P found → address ∉ found.map (·.offset) →
      decode address mnemonic operands length = .ok i → P (i :: found)

/-- What every line keeps holds of all that is found. -/
theorem readFrom_invariant {decode : Decoder} {P : List Instruction → Prop} {lines : List Line}
    (hlines : ∀ line ∈ lines, line.Keeps decode P) {skipped : List String}
    {found instrs : List Instruction} (h : P found)
    (hok : (readFrom decode skipped found lines).result = .ok instrs) :
    ∃ all, P all ∧ instrs = sortByOffset all.reverse := by
  -- Along the lines: only an entry of a new address adds to what has been found.
  fun_induction readFrom decode skipped found lines with
  | case1 skipped found =>
    cases hok
    exact ⟨found, h, rfl⟩
  | case2 _ _ _ ih | case3 _ _ _ _ _ ih | case4 _ _ _ _ _ _ ih | case5 _ _ _ _ _ _ _ _ _ ih =>
    exact ih (List.forall_mem_cons.1 hlines).2 h hok
  | case6 => cases hok
  | case7 skipped found address mnemonic operands length rest hnew i hi ih =>
    obtain ⟨hline, hrest⟩ := List.forall_mem_cons.1 hlines
    have hfresh : address ∉ found.map (·.offset) := by simpa using hnew
    exact ih hrest (hline found i h hfresh hi) hok

theorem ascending_sortByOffset {instrs : List Instruction} (h : (instrs.map (·.offset)).Nodup) :
    (sortByOffset instrs).Pairwise fun i j => i.offset < j.offset :=
  pairwise_lt_sortBy_key Instruction.offset h

structure Collected (found : List Instruction) : Prop where
  nodup : (found.map (·.offset)).Nodup
  usable : ∀ i ∈ found, i.Usable

theorem Line.keeps_collected (text : String) : (Line.ofText text).Keeps Decoder.avr Collected := by
  cases hline : Line.ofText text with
  | noise | unreadable => trivial
  | entry address mnemonic operands length =>
    intro found i hfound hfresh hi
    have hlength := Line.length_pos hline
    obtain ⟨rfl, hnew⟩ := Decoder.avr_ok hi (by omega)
    exact ⟨List.nodup_cons.2 ⟨hfresh, hfound.nodup⟩, List.forall_mem_cons.2 ⟨hnew, hfound.usable⟩⟩

theorem Collected.admissible {found : List Instruction} (h : Collected found) :
    Admissible (sortByOffset found.reverse) := by
  refine ⟨ascending_sortByOffset ?_, ?_⟩
  · rw [List.map_reverse, List.nodup_reverse]
    exact h.nodup
  · intro i hi
    exact h.usable i (List.mem_reverse.1 (mem_sortBy.1 hi))

/-- Whatever the lines are, the instructions that are read from them are admissible. -/
theorem admissible_of_read {skipped lines : List String} {instrs : List Instruction}
    (h : (read Decoder.avr skipped lines).result = .ok instrs) : Admissible instrs := by
  have hlines : ∀ line ∈ lines.map Line.ofText, line.Keeps Decoder.avr Collected := by
    intro line hline
    obtain ⟨text, -, rfl⟩ := List.mem_map.1 hline
    exact Line.keeps_collected text
  have hnone : Collected [] := ⟨List.nodup_nil, fun i hi => absurd hi List.not_mem_nil⟩
  obtain ⟨all, hall, rfl⟩ := readFrom_invariant hlines hnone h
  exact hall.admissible

end Listing

end AvrFlow
