import AvrFlow.Proofs.Reading
import AvrFlow.Proofs.Session

namespace AvrFlow

open AddressIndex AvrFlow.Text

def GraphError.OfProgram : GraphError → Prop
  | missingInstruction _ | unbalancedReturn _ | unsupportedOverlap _ _ => True
  | _ => False

theorem repeatedOffset?_eq_none {seen : List Int} {instrs : List Instruction}
    (hnodup : (instrs.map (·.offset)).Nodup) (hseen : ∀ i ∈ instrs, i.offset ∉ seen) :
    repeatedOffset? seen instrs = none := by
  induction instrs generalizing seen with
  | nil => rfl
  | cons i is ih =>
    obtain ⟨hi, hnodup⟩ := List.nodup_cons.1 hnodup
    obtain ⟨hfresh, hseen⟩ := List.forall_mem_cons.1 hseen
    rw [repeatedOffset?, if_neg hfresh]
    apply ih hnodup
    intro j hj hmem
    rcases List.mem_cons.1 hmem with heq | hmem
    · exact hi (List.mem_map.2 ⟨j, hj, heq⟩)
    · exact hseen j hj hmem

theorem AddressIndex.ofList_eq_ok {instrs : List Instruction}
    (h : (instrs.map (·.offset)).Nodup) : ofList instrs = .ok (ofNodup instrs h) := by
  have hnone : repeatedOffset? [] instrs = none :=
    repeatedOffset?_eq_none h fun i _ => List.not_mem_nil
  unfold ofList
  split
  · next offset hsome =>
    rw [hnone] at hsome
    cases hsome
  · rfl

/-- A walk that does not come to an end has met an instruction that does not branch and leads to no
later offset. -/
theorem AddressIndex.exists_of_walk_stalled {index : AddressIndex} {o m : Int}
    (h : index.walk o = .error (.stalled m)) : ∃ i ∈ index.instrs, i.length < 1 := by
  fun_induction walk index o with
  | case1 | case2 | case3 => cases h
  | case4 o i hi hbranch hend hlt ih => exact ih (eq_error_of_map_eq_error h)
  | case5 o i hi hbranch hend hle =>
    have hoffset := offset_of_lookup? hi
    refine ⟨i, mem_of_lookup? hi, ?_⟩
    rw [Instruction.next] at hle
    omega

namespace Instruction.Usable

variable {i : Instruction} {stack : List Int} {e : GraphError}

theorem operand_ne_error (h : i.Usable) {k : Kind} {n : Nat} (hk : i.kind = some k)
    (hn : n < k.arity) : i.operand n ≠ .error e := by
  have hlength := h.operands_length k hk
  intro herror
  unfold operand at herror
  split at herror
  · cases herror
  · next hnone =>
    have := List.getElem?_eq_none_iff.1 hnone
    omega

/-- A usable instruction has targets, except for a return without a call. -/
theorem targets_error (h : i.Usable) (he : i.targets stack = .error e) :
    e = .unbalancedReturn i.offset := by
  unfold targets at he
  split at he
  case h_1 => cases he
  case h_8 hk =>
    cases stack with
    | nil =>
      cases he
      rfl
    | cons back outer => cases he
  case h_9 name hk => exact absurd (h.kind_mem _ hk) (by simp [Kind.all])
  all_goals
    next hk =>
    exact absurd (eq_error_of_map_eq_error he) (h.operand_ne_error hk (by decide))

end Instruction.Usable

namespace Exploration

variable {index : AddressIndex} {x : Exploration} {t : Target} {start : Int} {e : GraphError}

theorem ofProgram_of_visit (husable : ∀ i ∈ index.instrs, i.Usable)
    (he : (x.visit index t).result = .error e) : e.OfProgram := by
  obtain ⟨hwalk | ⟨r, hwalk, htargets⟩, -⟩ := visit_error he
  · rcases walk_error hwalk [] with ⟨m, rfl, -⟩ | ⟨m, rfl⟩
    · trivial
    · obtain ⟨i, hi, hlength⟩ := exists_of_walk_stalled hwalk
      exact absurd (husable i hi).length_pos (by omega)
  · have hlast := (line_of_walk hwalk).lookup?_mem r.last_mem_instrs
    rw [(husable r.last (mem_of_lookup? hlast)).targets_error htargets]
    trivial

/-- A recovery of usable instructions fails only for a fault of the program. -/
theorem ofProgram_of_recover (husable : ∀ i ∈ index.instrs, i.Usable) {wanted : Bool}
    (he : (recover index start wanted).result = .error e) : e.OfProgram := by
  rcases recover_error he with hdiscover | hresolve
  · rcases discover_cases index start with
      ⟨found, hok, -⟩ | ⟨y, t, rest, e', -, -, hvisit, -, hresult⟩
    · rw [hok] at hdiscover
      cases hdiscover
    · rw [hresult] at hdiscover
      cases hdiscover
      exact ofProgram_of_visit husable hvisit
  · have hasc := ((consistent_empty index).explore [⟨start, []⟩]).1.ascending
    obtain ⟨b, s, rfl⟩ := Graph.unsupportedOverlap_of_resolve hasc hresolve
    trivial

end Exploration

namespace Dot

/-- Entries are compared as the offsets of first instructions are. -/
theorem repeatedEntry?_eq_none_iff {seen : List Int} {blocks : List Block} :
    repeatedEntry? seen blocks = none ↔ repeatedOffset? seen (blocks.map (·.first)) = none := by
  induction blocks generalizing seen with
  | nil => exact iff_of_true rfl rfl
  | cons b bs ih =>
    rw [List.map_cons, repeatedEntry?, repeatedOffset?, Run.firstOffset]
    split
    · simp
    · exact ih

theorem nodup_entries_iff {blocks : List Block} :
    (blocks.map (·.firstOffset)).Nodup ↔ repeatedEntry? [] blocks = none := by
  have hentries : (blocks.map (·.first)).map (·.offset) = blocks.map (·.firstOffset) := by
    rw [List.map_map]
    rfl
  rw [repeatedEntry?_eq_none_iff, ← hentries]
  constructor
  · intro h
    exact repeatedOffset?_eq_none h fun i _ => List.not_mem_nil
  · intro h
    exact (nodup_of_repeatedOffset?_eq_none h).1

/-- The drawing of a graph with different entries. -/
theorem render_of_spell {g : Graph} {resolution : Resolution} {dpi : String}
    (hnodup : (g.blocks.map (·.firstOffset)).Nodup) (hdpi : resolution.spell = .ok dpi) :
    render g resolution = .ok (document (styleStatements dpi ++
      (inEntryOrder g.blocks).map nodeStatement ++ g.sortedRelations.map edgeStatement)) := by
  have hsorted : ((inEntryOrder g.blocks).map (·.firstOffset)).Nodup :=
    ((perm_sortBy _ g.blocks).map _).nodup_iff.2 hnodup
  have hnone : repeatedEntry? [] (inEntryOrder g.blocks) = none :=
    nodup_entries_iff.1 hsorted
  simp only [render, hdpi, hnone]

theorem Resolution.spell_number {n : Int}
    (h : (Nat.toDigits 10 n.natAbs).length ≤ digitLimit) :
    (Resolution.number n).spell = .ok (toString n) := by
  rw [spell, if_neg (by omega)]

end Dot

/-- Instructions that can be indexed, whose graph can be recovered from every start unless the
program is at fault, and drawn once it is recovered, at every resolution of at most `digitLimit`
digits. -/
structure Analysable (instrs : List Instruction) (index : AddressIndex) : Prop where
  ofList_eq : AddressIndex.ofList instrs = .ok index
  ofProgram : ∀ start wanted e, (Exploration.recover index start wanted).result = .error e →
    e.OfProgram
  drawn : ∀ start wanted, (Exploration.recover index start wanted).result = .ok () →
    ∀ n : Int, (Nat.toDigits 10 n.natAbs).length ≤ digitLimit →
      ∃ text, Dot.render (Exploration.recover index start wanted).state.toGraph (.number n) =
        .ok text

theorem Admissible.nodup {instrs : List Instruction} (h : Admissible instrs) :
    (instrs.map (·.offset)).Nodup :=
  List.pairwise_map.2 (h.ascending.imp Int.ne_of_lt)

theorem Admissible.analysable {instrs : List Instruction} (h : Admissible instrs) :
    Analysable instrs (ofNodup instrs h.nodup) where
  ofList_eq := ofList_eq_ok h.nodup
  ofProgram := fun _ _ _ he => Exploration.ofProgram_of_recover h.usable he
  drawn := by
    intro start wanted _ n hn
    exact ⟨_, Dot.render_of_spell (Exploration.consistent_recover _ start wanted).entries_nodup
      (Dot.Resolution.spell_number hn)⟩

namespace Listing

/-- Whatever the lines of a listing are, the instructions that are read from it are admissible, and
they can be analysed. -/
theorem read_admitted {skipped lines : List String} {instrs : List Instruction}
    (h : (read Decoder.avr skipped lines).result = .ok instrs) :
    Admissible instrs ∧ ∃ index, Analysable instrs index := by
  have hadmissible := admissible_of_read h
  exact ⟨hadmissible, ofNodup instrs hadmissible.nodup, hadmissible.analysable⟩

/-- A call and its return in descending order, with a header, a line without opcode bytes, an
address that occurs twice and a comment. -/
def descendingListing : List String :=
  ["00000000 <main>:", "   4:\t08 95\tret", "   2:\tfe cf\trjmp\t.-2\t; 0x2 <main+0x2>",
    "   2:\tword\tret", "   2:\t08 95\tret", "   0:\t01 d0\trcall\t.+2"]

def descendingInstrs : List Instruction :=
  [⟨0, some .rcall, "rcall", [2], 2, "rcall .+2"⟩, ⟨2, some .rjmp, "rjmp", [-2], 2, "rjmp .-2"⟩,
    ⟨4, some .ret, "ret", [], 2, "ret"⟩]

theorem admitted_descendingListing :
    (read Decoder.avr [] descendingListing).result = .ok descendingInstrs ∧
      Admissible descendingInstrs ∧ ∃ index, Analysable descendingInstrs index := by
  have hread : (read Decoder.avr [] descendingListing).result = .ok descendingInstrs := by
    decide +kernel
  exact ⟨hread, read_admitted hread⟩

end Listing

end AvrFlow
