import AvrFlow.Proofs.Discovery

namespace AvrFlow.Exploration

open AddressIndex

variable {index : AddressIndex} {x : Exploration} {work : List Target} {start : Int}

/-- A run from the start reaches the source of a relation, executes the block there and goes on to
the target. If it returns to the target, it does so from the innermost call that is open. -/
structure Followed (index : AddressIndex) (start : Int) (r : Relation) (b : Block)
    (before after : List Int) : Prop where
  reached : index.Reaches ⟨start, []⟩ ⟨r.source, before⟩
  walked : index.walk r.source = .ok b.toRun
  executed : index.Trace ⟨r.source, before⟩ b.instrs ⟨r.target, after⟩
  returned : b.last.kind = some .ret → ∃ call, call.next = r.target ∧
    index.Reaches ⟨start, []⟩ ⟨call.offset, after⟩ ∧
    index.OpenCall call after ⟨b.last.offset, r.target :: after⟩

theorem fromRoots_singleton {c : Target} :
    FromRoots index [start] c ↔ index.Reaches ⟨start, []⟩ c := by
  simp [FromRoots]

namespace Discovered

theorem exists_reaches (h : Discovered index [start] x work) {e : Int} (he : e ∈ x.visited) :
    ∃ s, index.Reaches ⟨start, []⟩ ⟨e, s⟩ := by
  obtain ⟨b, hb, rfl⟩ := h.mem_visited_iff.1 he
  obtain ⟨stack, targets, hleft⟩ := h.left_for b hb
  exact ⟨stack, fromRoots_singleton.1 hleft.reached⟩

theorem exists_followed (h : Discovered index [start] x work) {r : Relation}
    (hr : r ∈ x.relations) : ∃ b ∈ x.blocks, ∃ s u, Followed index start r b s u := by
  obtain ⟨source, target⟩ := r
  obtain ⟨b, hb, rfl⟩ := h.mem_visited_iff.1 (h.source_mem _ hr)
  obtain ⟨stack, targets, hleft⟩ := h.left_for b hb
  obtain ⟨⟨target, u⟩, hd, rfl⟩ := (hleft.mem_relations_iff target).1 hr
  have hwalk := h.walked b hb
  have hreach := fromRoots_singleton.1 hleft.reached
  refine ⟨b, hb, stack, u, hreach, hwalk, trace_of_walk hwalk hleft.targets_eq hd, fun hret => ?_⟩
  obtain ⟨back, outer, rfl, rfl⟩ := hleft.of_ret hret
  cases List.mem_singleton.1 hd
  have hlast := hreach.trans ((line_of_walk hwalk).reaches_mem b.last_mem_instrs (target :: u))
  -- The return address on top of the stack belongs to the innermost call that is open.
  obtain ⟨call, rfl, hcall, hopen⟩ := exists_openCall (fun _ _ hstep => hstep) hlast
    (List.suffix_refl _)
  exact ⟨call, rfl, hcall, hopen⟩

/-- A visit that fails for want of an instruction has been led to its offset by a run. -/
theorem missing_of_visit {t : Target} {o : Int} (h : Discovered index [start] x (t :: work))
    (he : (x.visit index t).result = .error (.missingInstruction o)) :
    index.lookup? o = none ∧ ∃ s, index.Reaches ⟨start, []⟩ ⟨o, s⟩ := by
  have hreach := fromRoots_singleton.1 (h.pending t (List.mem_cons_self ..)).1
  rcases (visit_error he).1 with hwalk | ⟨r, -, hts⟩
  · rcases walk_error hwalk t.stack with ⟨m, hm, hnone, hfall⟩ | ⟨m, hm⟩
    · cases hm
      exact ⟨hnone, t.stack, hreach.trans hfall⟩
    · cases hm
  · rcases targets_error hts with ⟨hm, -, -⟩ | hm | ⟨name, hm⟩ <;> cases hm

/-- A visit that fails at a return has been led to it by a run with no calls open. -/
theorem unbalanced_of_visit {t : Target} {o : Int} (h : Discovered index [start] x (t :: work))
    (he : (x.visit index t).result = .error (.unbalancedReturn o)) :
    ∃ i, index.lookup? o = some i ∧ i.kind = some .ret ∧
      index.Reaches ⟨start, []⟩ ⟨o, []⟩ := by
  have hreach := fromRoots_singleton.1 (h.pending t (List.mem_cons_self ..)).1
  rcases (visit_error he).1 with hwalk | ⟨r, hwalk, hts⟩
  · rcases walk_error hwalk t.stack with ⟨m, hm, -, -⟩ | ⟨m, hm⟩ <;> cases hm
  · rcases targets_error hts with ⟨hm, hret, hempty⟩ | hm | ⟨name, hm⟩
    · cases hm
      have hline := line_of_walk hwalk
      have hlast := hline.reaches_mem r.last_mem_instrs t.stack
      refine ⟨r.last, hline.lookup?_mem r.last_mem_instrs, hret, ?_⟩
      rw [hempty] at hlast
      obtain ⟨e, stack⟩ := t
      obtain rfl : stack = [] := hempty
      exact hreach.trans hlast
    · cases hm
    · cases hm

end Discovered

/-- Discovery is sound, also when it fails. -/
theorem discover_sound (index : AddressIndex) (start : Int) :
    (∀ e ∈ (empty.discover index start).state.visited,
      ∃ s, index.Reaches ⟨start, []⟩ ⟨e, s⟩) ∧
    (∀ r ∈ (empty.discover index start).state.relations,
      ∃ b ∈ (empty.discover index start).state.blocks,
        ∃ s u, Followed index start r b s u) ∧
    (∀ o, (empty.discover index start).result = .error (.missingInstruction o) →
      index.lookup? o = none ∧ ∃ s, index.Reaches ⟨start, []⟩ ⟨o, s⟩) ∧
    (∀ o, (empty.discover index start).result = .error (.unbalancedReturn o) →
      ∃ i, index.lookup? o = some i ∧ i.kind = some .ret ∧
        index.Reaches ⟨start, []⟩ ⟨o, []⟩) := by
  rcases discover_cases index start with
    ⟨found, hresult, h⟩ | ⟨y, t, rest, e, h, -, he, hstate, hresult⟩
  · refine ⟨fun e he => h.exists_reaches he, fun r hr => h.exists_followed hr, ?_, ?_⟩
    · intro o ho
      rw [hresult] at ho
      cases ho
    · intro o ho
      rw [hresult] at ho
      cases ho
  · obtain ⟨-, hrelations, hblocks⟩ := visit_error he
    -- The visit that fails adds its offset and perhaps a block, but no relation.
    rw [hstate, hresult]
    refine ⟨?_, ?_, ?_, ?_⟩
    · intro e he
      rw [visited_visit] at he
      rcases List.mem_cons.1 he with rfl | he
      · exact ⟨t.stack, fromRoots_singleton.1 (h.pending t (List.mem_cons_self ..)).1⟩
      · exact h.exists_reaches he
    · intro r hr
      rw [hrelations] at hr
      obtain ⟨b, hb, s, u, hfollowed⟩ := h.exists_followed hr
      exact ⟨b, hblocks.subset hb, s, u, hfollowed⟩
    · intro o ho
      cases ho
      exact h.missing_of_visit he
    · intro o ho
      cases ho
      exact h.unbalanced_of_visit he

end AvrFlow.Exploration
