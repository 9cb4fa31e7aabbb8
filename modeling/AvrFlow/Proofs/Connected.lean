import AvrFlow.Proofs.WellFormed

namespace AvrFlow

open AddressIndex

/-- What the table of successors says of the offsets that an instruction is related to: none if it
does not branch, the operand or the operand past the next offset after a jump or a call, two offsets
after a conditional branch, and one after a return. -/
structure Instruction.FollowsTable (i : Instruction) (related : Int → Prop) : Prop where
  fallen : i.kind = none → ∀ t, ¬ related t
  absolute : i.kind = some .jmp ∨ i.kind = some .call →
    ∃ v, i.operands[0]? = some v ∧ ∀ t, related t ↔ t = v
  relative : i.kind = some .rjmp ∨ i.kind = some .rcall →
    ∃ v, i.operands[0]? = some v ∧ ∀ t, related t ↔ t = i.next + v
  conditional : i.kind = some .brbs ∨ i.kind = some .brbc →
    ∃ v, i.operands[1]? = some v ∧ ∀ t, related t ↔ t = i.next + v ∨ t = i.next
  returned : i.kind = some .ret → ∃! t, related t
  understood : ∀ name, i.kind ≠ some (.other name)

theorem Instruction.followsTable_of_targets {i : Instruction} {stack : List Int}
    {targets : List Target} (h : i.targets stack = .ok targets) :
    i.FollowsTable fun t => ∃ d ∈ targets, d.entry = t := by
  -- A row of the table that reads an operand is there only if the operand is.
  have hrow {n : Nat} {f : Int → List Target} (h : (i.operand n).map f = .ok targets) :
      ∃ v, i.operands[n]? = some v ∧
        ∀ t, (∃ d ∈ targets, d.entry = t) ↔ t ∈ (f v).map (·.entry) := by
    obtain ⟨v, hv, rfl⟩ := exists_of_map_eq_ok h
    exact ⟨v, operand_eq_ok_iff.1 hv, fun t => List.mem_map.symm⟩
  refine ⟨?_, ?_, ?_, ?_, ?_, ?_⟩
  · intro hkind
    simp only [Instruction.targets, hkind] at h
    cases h
    simp
  · rintro (hkind | hkind) <;>
    · simp only [Instruction.targets, hkind] at h
      simpa using hrow h
  · rintro (hkind | hkind) <;>
    · simp only [Instruction.targets, hkind] at h
      simpa using hrow h
  · rintro (hkind | hkind) <;>
    · simp only [Instruction.targets, hkind] at h
      simpa using hrow h
  · intro hkind
    simp only [Instruction.targets, hkind] at h
    cases stack with
    | nil => cases h
    | cons back outer =>
      cases h
      simp
  · intro name hkind
    simp only [Instruction.targets, hkind] at h
    cases h

theorem AddressIndex.Line.stops_iff_last {index : AddressIndex} {leaders : List Int} {o : Int}
    {r : Run} {i : Instruction} (h : index.Line leaders o r.instrs) (hi : i ∈ r.instrs) :
    index.Stops leaders i ↔ i = r.last := by
  constructor
  · exact fun hstop => (h.last_eq hi hstop).symm
  · intro heq
    rw [r.instrs_eq_dropLast_append] at h
    exact heq ▸ h.stops_last

namespace Exploration

variable {index : AddressIndex} {x : Exploration} {t : Target} {work : List Target}
  {start o : Int}

def LedTo (x : Exploration) (start : Int) : Int → Prop :=
  Relation.ReflTransGen (fun a b => ⟨a, b⟩ ∈ x.relations) start

/-- Relations lead from the start to whatever has been visited or waits to be. -/
def Connected (start : Int) (x : Exploration) (work : List Target) : Prop :=
  ∀ o, Known x work o → x.LedTo start o

theorem LedTo.visit {b : Block} {targets : List Target} (h : x.LedTo start o)
    (hv : Visit index x t b targets) : (x.visit index t).state.LedTo start o := by
  have hgrows : ∀ a b, ⟨a, b⟩ ∈ x.relations → ⟨a, b⟩ ∈ (x.visit index t).state.relations :=
    fun a b hr => hv.mem_relations_iff.2 (Or.inr hr)
  exact Relation.ReflTransGen.mono hgrows start o h

theorem known_visit_cases {targets : List Target}
    (ho : Known (x.visit index t).state ((x.visit index t).state.fresh targets ++ work) o) :
    Known x (t :: work) o ∨ ∃ d ∈ targets, d.entry = o := by
  rcases ho with ho | ⟨c, hc, rfl⟩
  · rw [visited_visit] at ho
    rcases List.mem_cons.1 ho with rfl | ho
    · exact Or.inl (Or.inr ⟨t, List.mem_cons_self .., rfl⟩)
    · exact Or.inl (Or.inl ho)
  · rcases List.mem_append.1 hc with hc | hc
    · exact Or.inr ⟨c, List.mem_of_mem_filter hc, rfl⟩
    · exact Or.inl (Or.inr ⟨c, List.mem_cons_of_mem t hc, rfl⟩)

namespace Connected

theorem skip (h : Connected start x (t :: work)) : Connected start x work := by
  intro o ho
  apply h
  rcases ho with ho | ⟨c, hc, rfl⟩
  · exact Or.inl ho
  · exact Or.inr ⟨c, List.mem_cons_of_mem t hc, rfl⟩

theorem visit (h : Connected start x (t :: work)) {b : Block} {targets : List Target}
    (hok : (x.visit index t).result = .ok (b, targets)) :
    Connected start (x.visit index t).state
      ((x.visit index t).state.fresh targets ++ work) := by
  have hv := visit_ok hok
  intro o ho
  rcases known_visit_cases ho with hknown | ⟨d, hd, rfl⟩
  · exact (h o hknown).visit hv
  · -- A new target is one relation further than the entry that has been visited.
    have hentry : x.LedTo start t.entry := h t.entry (Or.inr ⟨t, List.mem_cons_self .., rfl⟩)
    have hrelated : ⟨t.entry, d.entry⟩ ∈ (x.visit index t).state.relations :=
      hv.mem_relations_iff.2 (Or.inl ⟨rfl, d, hd, rfl⟩)
    exact (hentry.visit hv).tail hrelated

theorem empty (start : Int) : Connected start empty [⟨start, []⟩] := by
  intro o ho
  rcases ho with ho | ⟨c, hc, rfl⟩
  · exact absurd ho List.not_mem_nil
  · obtain rfl := List.mem_singleton.1 hc
    exact Relation.ReflTransGen.refl

end Connected

theorem connected_of_ok {found : List Block}
    (h : (empty.discover index start).result = .ok found) :
    Connected start (empty.discover index start).state [] := by
  rcases explore_invariant (fun _ _ _ h _ => h.skip)
    (fun x t _ b targets h _ (hok : (x.visit index t).result = .ok (b, targets)) => h.visit hok)
    (Connected.empty start) with ⟨-, -, hend⟩ | ⟨-, -, -, e, -, -, -, -, he⟩
  · exact hend
  · exact absurd (he.symm.trans h) (by simp)

/-- The visited offsets are closed under the relations. -/
theorem Discovered.mem_of_ledTo (h : Discovered index [start] x []) (ho : x.LedTo start o) :
    o ∈ x.visited := by
  induction ho with
  | refl => exact (h.root_known start (List.mem_singleton_self _)).visited
  | tail _ hr _ => exact (h.target_known _ hr).visited

theorem Discovered.entry_count {roots : List Int} (h : Discovered index roots x []) (o : Int) :
    (x.blocks.map (·.firstOffset)).count o = if o ∈ x.visited then 1 else 0 := by
  rw [h.entries_nodup.count, h.entries_eq]
  simp only [List.mem_reverse]

/-- What a discovery leaves: the visited offsets are those that relations lead to from the start,
each is the entry of one block, its block ends at the first instruction that branches or that
nothing can follow, and it is related to what the table of successors says. -/
structure Exact (index : AddressIndex) (start : Int) (x : Exploration) : Prop where
  mem_visited_iff : ∀ o, o ∈ x.visited ↔ x.LedTo start o
  closed : ∀ r ∈ x.relations, r.source ∈ x.visited ∧ r.target ∈ x.visited
  entry_count : ∀ o,
    (x.blocks.map (·.firstOffset)).count o = if o ∈ x.visited then 1 else 0
  instrs_mem : ∀ b ∈ x.blocks, ∀ i ∈ b.instrs, i ∈ index.instrs
  instrs_isChain : ∀ b ∈ x.blocks, b.instrs.IsChain fun i j => j.offset = i.next
  ends_iff : ∀ b ∈ x.blocks, ∀ i ∈ b.instrs,
    i.kind ≠ none ∨ index.highest < i.next ↔ i = b.last
  table : ∀ b ∈ x.blocks, b.last.FollowsTable fun t => ⟨b.firstOffset, t⟩ ∈ x.relations

theorem Discovered.exact (h : Discovered index [start] x []) (hconnected : Connected start x []) :
    Exact index start x where
  mem_visited_iff := fun o => ⟨fun ho => hconnected o (Or.inl ho), h.mem_of_ledTo⟩
  closed := fun r hr => ⟨h.source_mem r hr, (h.target_known r hr).visited⟩
  entry_count := h.entry_count
  instrs_mem := by
    intro b hb i hi
    exact mem_of_lookup? ((line_of_walk (h.walked b hb)).lookup?_mem hi)
  instrs_isChain := fun b hb => (line_of_walk (h.walked b hb)).isChain
  ends_iff := by
    intro b hb i hi
    rw [← (line_of_walk (h.walked b hb)).stops_iff_last hi]
    simp [Stops]
  table := by
    intro b hb
    obtain ⟨stack, targets, hleft⟩ := h.left_for b hb
    have hrelated : (fun t => ⟨b.firstOffset, t⟩ ∈ x.relations) =
        fun t => ∃ d ∈ targets, d.entry = t :=
      funext fun t => propext (hleft.mem_relations_iff t)
    rw [hrelated]
    exact Instruction.followsTable_of_targets hleft.targets_eq

/-- A recovery of the first pass alone that succeeds leaves a closed, exact and connected graph. -/
theorem recover_exact (index : AddressIndex) (start : Int)
    (h : (recover index start false).result = .ok ()) :
    Exact index start (recover index start false).state := by
  obtain ⟨found, hfound⟩ := discover_ok_of_recover h
  rw [state_recover_false]
  exact (discovered_of_ok hfound).exact (connected_of_ok hfound)

theorem exact_forkedCallee :
    (recover forkedCallee 0 false).result = .ok () ∧
      Exact forkedCallee 0 (recover forkedCallee 0 false).state :=
  ⟨by decide +kernel, recover_exact forkedCallee 0 (by decide +kernel)⟩

end Exploration

end AvrFlow
