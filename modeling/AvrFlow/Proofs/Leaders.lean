import AvrFlow.Proofs.Connected
import AvrFlow.Proofs.MachineFlow

namespace AvrFlow.Exploration

open AddressIndex

variable {index : AddressIndex} {x : Exploration} {start t : Int} {roots : List Int} {n : Nat}
  {b : Block} {i j : Instruction}

/-- A graph with the visited offsets as leaders: one block for each leader, which is the line from
there, related to the successors of its last instruction. A return goes back to the offset after a
call that ends a block, with which some run meets the return. -/
structure LeaderGraph (index : AddressIndex) (start : Int) (x : Exploration) : Prop where
  start_mem : start ∈ x.visited
  closed : ∀ r ∈ x.relations, r.source ∈ x.visited ∧ r.target ∈ x.visited
  entry_count : ∀ e, (x.blocks.map (·.firstOffset)).count e = if e ∈ x.visited then 1 else 0
  line : ∀ b ∈ x.blocks, index.Line x.visited b.firstOffset b.instrs
  falls : ∀ b ∈ x.blocks, b.last.kind = none → ∀ t,
    (⟨b.firstOffset, t⟩ ∈ x.relations ↔ t = b.last.next ∧ b.last.next ≤ index.highest)
  transfers : ∀ b ∈ x.blocks, b.last.kind ≠ none → b.last.kind ≠ some .ret →
    b.last.FollowsTable fun t => ⟨b.firstOffset, t⟩ ∈ x.relations
  returns_somewhere : ∀ b ∈ x.blocks, b.last.kind = some .ret →
    ∃ t, ⟨b.firstOffset, t⟩ ∈ x.relations
  returns_to_call : ∀ b ∈ x.blocks, b.last.kind = some .ret → ∀ t,
    ⟨b.firstOffset, t⟩ ∈ x.relations →
      (∃ c ∈ x.blocks, Calls c.last ∧ t = c.last.next) ∧
        ∃ s, index.Reaches ⟨start, []⟩ ⟨b.last.offset, t :: s⟩

namespace Discovered

/-- After the repair, the relations of a block are the discovered flow from its end. -/
theorem mem_relations_resolve_iff (h : Discovered index roots x [])
    (htails : Graph.SharedTails x.blocks) (hn : x.toGraph.resolve.result = .ok n)
    (hb : b ∈ x.toGraph.resolve.state.blocks) :
    ⟨b.firstOffset, t⟩ ∈ x.toGraph.resolve.state.relations ↔
      x.toGraph.Flow b.last.offset t := by
  rw [← Graph.flow_lastOffset_iff (fun b hb => h.arranged.resolve.ascending hb)
    (h.arranged.pairwise_resolve hn) hb]
  exact (h.nested htails).resolve.1 _ _

theorem exists_beginning (h : Discovered index roots x [])
    (hb : b ∈ x.toGraph.resolve.state.blocks) :
    ∃ c ∈ x.blocks, c.firstOffset = b.firstOffset ∧ b.instrs <+: c.instrs := by
  obtain ⟨line, hline, hbegin⟩ := h.arranged.resolve.walked b hb
  have hentry : b.firstOffset ∈ x.blocks.map (·.firstOffset) := by
    rw [h.entries_eq, ← h.arranged.resolve.entries_eq]
    exact List.mem_map_of_mem hb
  obtain ⟨c, hc, hfirst⟩ := List.mem_map.1 hentry
  have hsame : c.toRun = line := Except.ok.inj ((h.walked c hc).symm.trans (hfirst ▸ hline))
  exact ⟨c, hc, hfirst, hsame ▸ hbegin⟩

theorem stops_last_of_resolve (h : Discovered index roots x [])
    (htails : Graph.SharedTails x.blocks) (hn : x.toGraph.resolve.result = .ok n)
    (hb : b ∈ x.toGraph.resolve.state.blocks) : index.Stops x.visited b.last := by
  obtain ⟨c, hc, -, hbegin⟩ := h.exists_beginning hb
  by_cases hstop : index.Stops [] b.last
  · rcases hstop with hkind | hmem | hend
    · exact Or.inl hkind
    · exact absurd hmem List.not_mem_nil
    · exact Or.inr (Or.inr hend)
  · -- The discovered line goes on here, so the flow of the repaired graph takes a relation.
    have hflow := (h.flow_iff_of_not_stops hc (hbegin.subset b.last_mem_instrs) hstop).2 rfl
    have hr := (h.mem_relations_resolve_iff htails hn hb).2 hflow
    exact Or.inr (Or.inl (List.mem_reverse.1 (h.arranged.resolve.joined _ hr).2))

theorem not_stops_of_resolve (h : Discovered index roots x [])
    (hn : x.toGraph.resolve.result = .ok n) (hb : b ∈ x.toGraph.resolve.state.blocks)
    {pre post : List Instruction} (heq : b.instrs = pre ++ i :: j :: post) :
    ¬ index.Stops x.visited i := by
  obtain ⟨c, hc, -, rest, hrest⟩ := h.exists_beginning hb
  have hline := line_of_walk (h.walked c hc)
  rw [← hrest, heq, List.append_assoc] at hline
  obtain ⟨hgo, hnext⟩ := hline.leads_on
  obtain ⟨hkind, -, hend⟩ := not_stops_iff.1 hgo
  apply not_stops_iff.2
  refine ⟨hkind, ?_, hend⟩
  intro hvisited
  -- A visited offset is the entry of a block, and no other block has an offset of this one.
  have hentry : i.next ∈ x.toGraph.resolve.state.blocks.map (·.firstOffset) := by
    rw [h.arranged.resolve.entries_eq, List.mem_reverse]
    exact hvisited
  obtain ⟨d, hd, hfirst⟩ := List.mem_map.1 hentry
  have hasc := h.arranged.resolve.ascending hb
  have hj : j ∈ b.instrs := by simp [heq]
  have hi := hasc.firstOffset_le (i := i) (by simp [heq])
  have hlast := hasc.le_lastOffset hj
  have hlt : i.offset < j.offset := by
    rw [Run.Ascending, heq] at hasc
    exact (List.pairwise_cons.1 (List.pairwise_append.1 hasc).2.1).1 j (by simp)
  have hrange := (h.arranged.resolve.ascending hd).firstOffset_le_lastOffset
  have hsame := Graph.eq_of_apart (h.arranged.pairwise_resolve hn) hb hd (o := j.offset)
    ⟨by omega, hlast⟩ ⟨by omega, by omega⟩
  rw [← hsame] at hfirst
  omega

/-- After the repair, a block is the line from its entry up to the next visited offset. -/
theorem line_of_resolve (h : Discovered index roots x []) (htails : Graph.SharedTails x.blocks)
    (hn : x.toGraph.resolve.result = .ok n) (hb : b ∈ x.toGraph.resolve.state.blocks) :
    index.Line x.visited b.firstOffset b.instrs := by
  obtain ⟨c, hc, hfirst, rest, hrest⟩ := h.exists_beginning hb
  have hline := line_of_walk (h.walked c hc)
  rw [hfirst, ← hrest, b.instrs_eq_dropLast_append, List.append_assoc] at hline
  rw [b.instrs_eq_dropLast_append]
  apply hline.cut ?_ (h.stops_last_of_resolve htails hn hb)
  intro k hk
  obtain ⟨pre, post, hpre⟩ := List.append_of_mem hk
  have heq : b.instrs = pre ++ k :: (post ++ [b.last]) := by
    rw [b.instrs_eq_dropLast_append, hpre]
    simp
  cases post with
  | nil => exact h.not_stops_of_resolve hn hb heq
  | cons m post => exact h.not_stops_of_resolve hn hb heq

theorem exists_last_eq (h : Discovered index roots x [])
    (hb : b ∈ x.toGraph.resolve.state.blocks) (hkind : b.last.kind ≠ none) :
    ∃ c ∈ x.blocks, c.last = b.last := by
  obtain ⟨c, hc, -, hbegin⟩ := h.exists_beginning hb
  have hline := line_of_walk (h.walked c hc)
  exact ⟨c, hc, hline.last_eq (hbegin.subset b.last_mem_instrs) (Or.inl hkind)⟩

theorem exists_resolve_last_eq (h : Discovered index roots x [])
    (htails : Graph.SharedTails x.blocks) (hn : x.toGraph.resolve.result = .ok n) {c : Block}
    (hc : c ∈ x.blocks) (hkind : c.last.kind ≠ none) :
    ∃ b ∈ x.toGraph.resolve.state.blocks, b.last = c.last := by
  -- Splits keep what is covered, and the instruction ends the line that holds it.
  have hcovers : x.toGraph.Covers c.last.offset :=
    ⟨c, hc, List.mem_map_of_mem c.last_mem_instrs⟩
  obtain ⟨b, hb, ho⟩ := ((h.nested htails).resolve.2 _).2 hcovers
  obtain ⟨k, hk, hoffset⟩ := List.mem_map.1 ho
  have hline := h.line_of_resolve htails hn hb
  have hsame := hline.eq_of_offset_eq (line_of_walk (h.walked c hc)) hk c.last_mem_instrs hoffset
  exact ⟨b, hb, hsame ▸ hline.last_eq hk (Or.inl (hsame ▸ hkind))⟩

theorem mem_relations_iff_of_kind_none (h : Discovered index roots x [])
    (htails : Graph.SharedTails x.blocks) (hn : x.toGraph.resolve.result = .ok n)
    (hb : b ∈ x.toGraph.resolve.state.blocks) (hkind : b.last.kind = none) :
    ⟨b.firstOffset, t⟩ ∈ x.toGraph.resolve.state.relations ↔
      t = b.last.next ∧ b.last.next ≤ index.highest := by
  obtain ⟨c, hc, -, hbegin⟩ := h.exists_beginning hb
  have hlast : b.last ∈ c.instrs := hbegin.subset b.last_mem_instrs
  have hlookup := (line_of_walk (h.walked c hc)).lookup?_mem hlast
  rw [h.mem_relations_resolve_iff htails hn hb, h.flow_iff_step hc hlast (by simp [hkind]) []]
  simp [step_iff_of_kind_none hlookup hkind]

theorem followsTable_of_kind_ne (h : Discovered index roots x [])
    (htails : Graph.SharedTails x.blocks) (hn : x.toGraph.resolve.result = .ok n)
    (hb : b ∈ x.toGraph.resolve.state.blocks) (hkind : b.last.kind ≠ none)
    (hret : b.last.kind ≠ some .ret) :
    b.last.FollowsTable fun t => ⟨b.firstOffset, t⟩ ∈ x.toGraph.resolve.state.relations := by
  obtain ⟨c, hc, hlast⟩ := h.exists_last_eq hb hkind
  have hmem : b.last ∈ c.instrs := hlast ▸ c.last_mem_instrs
  have hlookup := (line_of_walk (h.walked c hc)).lookup?_mem hmem
  -- Without a return the targets do not depend on the stack, so any one will do.
  obtain ⟨stack, targets, hleft⟩ := h.left_for c hc
  obtain ⟨ts, hts⟩ := targets_any_stack (hlast ▸ hleft.targets_eq) hret []
  have hstep {d : Target} : index.Step ⟨b.last.offset, []⟩ d ↔ d ∈ ts :=
    step_iff_mem_targets (c := ⟨b.last.offset, []⟩) hlookup hkind hts
  have hrelated (t : Int) : ⟨b.firstOffset, t⟩ ∈ x.toGraph.resolve.state.relations ↔
      ∃ d ∈ ts, d.entry = t := by
    rw [h.mem_relations_resolve_iff htails hn hb, h.flow_iff_step hc hmem hret []]
    constructor
    · intro ⟨u, hu⟩
      exact ⟨⟨t, u⟩, hstep.1 hu, rfl⟩
    · intro htarget
      obtain ⟨⟨t, u⟩, hd, rfl⟩ := htarget
      exact ⟨u, hstep.2 hd⟩
  simp only [hrelated]
  exact Instruction.followsTable_of_targets hts

end Discovered

/-- Where no instruction begins inside another one, a recovery of both passes that succeeds leaves
the graph of its leaders. -/
theorem recover_leaderGraph (index : AddressIndex) (start : Int) (hbytes : index.BytesDisjoint)
    (h : (recover index start true).result = .ok ()) :
    LeaderGraph index start (recover index start true).state := by
  obtain ⟨hdiscovered, ⟨hwanted, -⟩ | ⟨-, n, hn, hstate⟩⟩ := recover_ok h
  · cases hwanted
  have htails := hdiscovered.sharedTails hbytes
  have hrelated {b : Block} {t : Int} hb :=
    hdiscovered.mem_relations_resolve_iff (b := b) (t := t) htails hn hb
  rw [hstate]
  refine ⟨(hdiscovered.root_known start (List.mem_singleton_self _)).visited, ?_, ?_,
    fun b hb => hdiscovered.line_of_resolve htails hn hb,
    fun b hb hkind t => hdiscovered.mem_relations_iff_of_kind_none htails hn hb hkind,
    fun b hb hkind hret => hdiscovered.followsTable_of_kind_ne htails hn hb hkind hret,
    ?_, ?_⟩
  · intro r hr
    have hjoined := hdiscovered.arranged.resolve.joined r hr
    rwa [List.mem_reverse, List.mem_reverse] at hjoined
  · intro e
    rw [hdiscovered.arranged.resolve.entries_eq, List.count_reverse]
    exact hdiscovered.nodup.count
  · -- The block was cut from one that the discovery left through the same return.
    intro b hb hret
    obtain ⟨c, hc, hlast⟩ := hdiscovered.exists_last_eq hb (by simp [hret])
    obtain ⟨⟨t, hflow⟩, -⟩ := hdiscovered.flow_ret hc (hlast ▸ hret)
    exact ⟨t, (hrelated hb).2 (hlast ▸ hflow)⟩
  · intro b hb hret t hr
    obtain ⟨c, hc, hlast⟩ := hdiscovered.exists_last_eq hb (by simp [hret])
    obtain ⟨-, hback⟩ := hdiscovered.flow_ret hc (hlast ▸ hret)
    obtain ⟨⟨d, hd, hcalls, rfl⟩, s, hreach⟩ := hback t (hlast ▸ (hrelated hb).1 hr)
    have hkind : d.last.kind ≠ none := by rcases hcalls with hk | hk <;> simp [hk]
    -- The call ended a discovered block, and a block of the repaired graph ends with it as well.
    obtain ⟨e, he, heq⟩ := hdiscovered.exists_resolve_last_eq htails hn hd hkind
    exact ⟨⟨e, he, heq ▸ hcalls, heq ▸ rfl⟩, s, hlast ▸ fromRoots_singleton.1 hreach⟩

theorem leaderGraph_forkedCallee :
    (recover forkedCallee 0 true).result = .ok () ∧
      LeaderGraph forkedCallee 0 (recover forkedCallee 0 true).state :=
  ⟨by decide +kernel, recover_leaderGraph forkedCallee 0 (by decide) (by decide +kernel)⟩

end AvrFlow.Exploration
