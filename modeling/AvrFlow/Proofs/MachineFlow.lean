import AvrFlow.Proofs.Flow
import AvrFlow.Proofs.Soundness

namespace AvrFlow

open AddressIndex

namespace Exploration.Discovered

variable {index : AddressIndex} {x : Exploration} {roots : List Int} {b : Block}
  {i : Instruction} {o t : Int}

theorem nested (h : Discovered index roots x []) (htails : Graph.SharedTails x.blocks) :
    x.toGraph.Nested where
  nodup := h.entries_nodup
  ascending := fun b hb => ascending_of_walk (h.walked b hb)
  tails := htails

/-- Where no instruction begins inside another one, blocks that end together share their tails. -/
theorem sharedTails (h : Discovered index roots x []) (hbytes : index.BytesDisjoint) :
    Graph.SharedTails x.blocks := by
  intro b hb c hc hlast hlt
  have hbline := line_of_walk (h.walked b hb)
  have hcline := line_of_walk (h.walked c hc)
  have hrange := (ascending_of_walk (h.walked c hc)).firstOffset_le_lastOffset
  apply hbline.suffix_of_between hbytes hcline (Int.le_of_lt hlt)
  exact Int.le_trans hrange (Int.le_of_eq hlast.symm)

theorem flow_iff_of_not_stops (h : Discovered index roots x []) (hb : b ∈ x.blocks)
    (hi : i ∈ b.instrs) (hgo : ¬ index.Stops [] i) : x.toGraph.Flow i.offset t ↔ t = i.next := by
  have hline := line_of_walk (h.walked b hb)
  constructor
  · intro hflow
    rcases hflow with ⟨c, hc, hpair⟩ | ⟨c, hc, hlast, -⟩
    · have hcline := line_of_walk (h.walked c hc)
      obtain ⟨j, hj, heq, -, rfl⟩ := hcline.exists_of_pair_infix hpair
      rw [hcline.eq_of_offset_eq hline hj hi heq]
    · have hcline := line_of_walk (h.walked c hc)
      obtain rfl := hcline.eq_of_offset_eq hline c.last_mem_instrs hi hlast
      rw [c.instrs_eq_dropLast_append] at hcline
      exact absurd hcline.stops_last hgo
  · intro heq
    subst heq
    exact Or.inl ⟨b, hb, hline.pair_infix_of_mem hi hgo⟩

theorem flow_iff_of_stops (h : Discovered index roots x []) (hb : b ∈ x.blocks)
    (hi : i ∈ b.instrs) (hstop : index.Stops [] i) :
    x.toGraph.Flow i.offset t ↔
      ∃ c ∈ x.blocks, c.last = i ∧ ⟨c.firstOffset, t⟩ ∈ x.relations := by
  have hline := line_of_walk (h.walked b hb)
  constructor
  · intro hflow
    rcases hflow with ⟨c, hc, hpair⟩ | ⟨c, hc, hlast, hr⟩
    · have hcline := line_of_walk (h.walked c hc)
      obtain ⟨j, hj, heq, hgo, -⟩ := hcline.exists_of_pair_infix hpair
      exact absurd (hcline.eq_of_offset_eq hline hj hi heq ▸ hstop) hgo
    · have hcline := line_of_walk (h.walked c hc)
      exact ⟨c, hc, hcline.eq_of_offset_eq hline c.last_mem_instrs hi hlast, hr⟩
  · intro hrelated
    obtain ⟨c, hc, rfl, hr⟩ := hrelated
    exact Or.inr ⟨c, hc, rfl, hr⟩

theorem mem_relations_iff_step (h : Discovered index roots x []) (hb : b ∈ x.blocks)
    (hret : b.last.kind ≠ some .ret) (s : List Int) :
    ⟨b.firstOffset, t⟩ ∈ x.relations ↔ ∃ u, index.Step ⟨b.last.offset, s⟩ ⟨t, u⟩ := by
  have hwalk := h.walked b hb
  have hlast := (line_of_walk hwalk).lookup?_mem b.last_mem_instrs
  obtain ⟨stack, targets, hleft⟩ := h.left_for b hb
  rw [hleft.mem_relations_iff]
  constructor
  · intro htarget
    obtain ⟨⟨t, u⟩, hd, rfl⟩ := htarget
    exact ((step_last_iff hwalk hleft.targets_eq).2 hd).any_stack hlast hret s
  · intro ⟨u, hstep⟩
    obtain ⟨u', hstep'⟩ := hstep.any_stack hlast hret stack
    exact ⟨⟨t, u'⟩, (step_last_iff hwalk hleft.targets_eq).1 hstep', rfl⟩

/-- The flow from an instruction that is no return is where the machine steps from it. -/
theorem flow_iff_step (h : Discovered index roots x []) (hb : b ∈ x.blocks) (hi : i ∈ b.instrs)
    (hret : i.kind ≠ some .ret) (s : List Int) :
    x.toGraph.Flow i.offset t ↔ ∃ u, index.Step ⟨i.offset, s⟩ ⟨t, u⟩ := by
  by_cases hstop : index.Stops [] i
  · obtain rfl := (line_of_walk (h.walked b hb)).last_eq hi hstop
    rw [h.flow_iff_of_stops hb hi hstop, ← h.mem_relations_iff_step hb hret s]
    constructor
    · intro ⟨c, hc, hlast, hr⟩
      rw [h.mem_relations_iff_step hc (hlast ▸ hret) s, hlast] at hr
      exact (h.mem_relations_iff_step hb hret s).2 hr
    · exact fun hr => ⟨b, hb, rfl, hr⟩
  · obtain ⟨hkind, -, hend⟩ := not_stops_iff.1 hstop
    have hlookup := (line_of_walk (h.walked b hb)).lookup?_mem hi
    rw [h.flow_iff_of_not_stops hb hi hstop]
    simp [step_iff_of_kind_none hlookup hkind, hend]

/-- From a return the flow goes somewhere, and wherever it goes is the offset after a call that ends
a block and the innermost return address of some run that meets the return. -/
theorem flow_ret (h : Discovered index roots x []) (hb : b ∈ x.blocks)
    (hret : b.last.kind = some .ret) :
    (∃ t, x.toGraph.Flow b.last.offset t) ∧
      ∀ t, x.toGraph.Flow b.last.offset t →
        (∃ c ∈ x.blocks, Calls c.last ∧ t = c.last.next) ∧
          ∃ s, FromRoots index roots ⟨b.last.offset, t :: s⟩ := by
  constructor
  · obtain ⟨stack, targets, hleft⟩ := h.left_for b hb
    obtain ⟨back, outer, rfl, rfl⟩ := hleft.of_ret hret
    refine ⟨back, Or.inr ⟨b, hb, rfl, (hleft.mem_relations_iff back).2 ?_⟩⟩
    exact ⟨_, List.mem_singleton_self _, rfl⟩
  · intro t hflow
    have hstop : index.Stops [] b.last := Or.inl (by simp [hret])
    obtain ⟨c, hc, hlast, hr⟩ := (h.flow_iff_of_stops hb b.last_mem_instrs hstop).1 hflow
    obtain ⟨stack, targets, hleft⟩ := h.left_for c hc
    obtain ⟨back, outer, rfl, rfl⟩ := hleft.of_ret (hlast ▸ hret)
    obtain ⟨d, hd, rfl⟩ := (hleft.mem_relations_iff t).1 hr
    obtain rfl := List.mem_singleton.1 hd
    obtain ⟨root, hroot, hreach⟩ := hleft.reached
    have hfall := (line_of_walk (h.walked c hc)).reaches_mem c.last_mem_instrs (back :: outer)
    refine ⟨hleft.returns back (List.mem_cons_self ..), outer, root, hroot, ?_⟩
    exact hlast ▸ hreach.trans hfall

end Exploration.Discovered

end AvrFlow
