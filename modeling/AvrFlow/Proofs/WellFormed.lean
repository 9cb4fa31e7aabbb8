import AvrFlow.Recovery
import AvrFlow.Proofs.Discovery
import AvrFlow.Proofs.Overlap

namespace AvrFlow

open AddressIndex

/-- The blocks have the given entries, each is the beginning of the walk from its entry, and
relations join entries. -/
structure Graph.Arranged (index : AddressIndex) (entries : List Int) (g : Graph) : Prop where
  id_eq : ∀ (k : Nat) (b : Block), g.blocks[k]? = some b → b.id = k
  entries_eq : g.blocks.map (·.firstOffset) = entries
  walked : ∀ b ∈ g.blocks, ∃ line, index.walk b.firstOffset = .ok line ∧ b.instrs <+: line.instrs
  joined : ∀ r ∈ g.relations, r.source ∈ entries ∧ r.target ∈ entries

theorem Block.ascending_of_begins {index : AddressIndex} {b : Block}
    (h : ∃ line, index.walk b.firstOffset = .ok line ∧ b.instrs <+: line.instrs) :
    b.Ascending := by
  obtain ⟨line, hline, hbegin⟩ := h
  exact (ascending_of_walk hline).sublist hbegin.sublist

theorem Graph.Cut.begins_split {index : AddressIndex} {g : Graph} {i j : Nat} {b s c : Block}
    (hcut : Cut g i j b s c)
    (h : ∀ b ∈ g.blocks, ∃ line, index.walk b.firstOffset = .ok line ∧ b.instrs <+: line.instrs) :
    ∀ d ∈ (g.split i j).state.blocks,
      ∃ line, index.walk d.firstOffset = .ok line ∧ d.instrs <+: line.instrs := by
  intro d hd
  rcases hcut.mem_split_iff.1 hd with rfl | ⟨k, -, hk⟩
  · -- What is kept of a block that ascends is its beginning.
    have hasc := Block.ascending_of_begins (h b hcut.long_mem)
    obtain ⟨line, hline, hbegin⟩ := h b hcut.long_mem
    refine ⟨line, hcut.firstOffset_eq ▸ hline, ?_⟩
    rw [hcut.instrs_eq]
    exact (hasc.filter_below _).trans hbegin
  · exact h d (List.mem_of_getElem? hk)

namespace Graph.Arranged

variable {index : AddressIndex} {entries : List Int} {g : Graph}

theorem ascending (h : g.Arranged index entries) {b : Block} (hb : b ∈ g.blocks) :
    b.Ascending :=
  Block.ascending_of_begins (h.walked b hb)

theorem last_eq (h : g.Arranged index entries) {b : Block} {i : Instruction} (hb : b ∈ g.blocks)
    (hi : i ∈ b.instrs) (hstop : index.Stops [] i) : b.last = i := by
  obtain ⟨line, hwalk, hbegin⟩ := h.walked b hb
  have hline := line_of_walk hwalk
  have hmem := hbegin.subset b.last_mem_instrs
  have hlast : line.lastOffset = i.offset :=
    congrArg Instruction.offset (hline.last_eq (hbegin.subset hi) hstop)
  apply hline.eq_of_offset_eq hline hmem (hbegin.subset hi)
  have hle : b.last.offset ≤ line.lastOffset := (ascending_of_walk hwalk).le_lastOffset hmem
  have hge : i.offset ≤ b.last.offset := (h.ascending hb).le_lastOffset hi
  omega

/-- A split of overlapping neighbours keeps the arrangement. -/
theorem split {i j : Nat} (h : g.Arranged index entries)
    (hfound : findOverlap? g.blocks = some (i, j)) (hok : (g.split i j).result = .ok ()) :
    (g.split i j).state.Arranged index entries := by
  obtain ⟨b, s, c, hcut⟩ := exists_cut (fun b hb => h.ascending hb) hfound hok
  have hb : b ∈ g.blocks := hcut.long_mem
  have hentry {d : Block} (hd : d ∈ g.blocks) : d.firstOffset ∈ entries :=
    h.entries_eq ▸ List.mem_map_of_mem hd
  refine ⟨hcut.id_eq_split h.id_eq, hcut.map_firstOffset.trans h.entries_eq,
    hcut.begins_split h.walked, ?_⟩
  intro r hr
  rw [hcut.mem_relations_iff] at hr
  have hs : s ∈ g.blocks := List.mem_of_getElem? hcut.short
  rcases hr with ⟨-, hr⟩ | ⟨hsource, hr⟩ | rfl
  · exact h.joined r hr
  · exact ⟨hsource ▸ hentry hs, (h.joined _ hr).2⟩
  · exact ⟨hentry hb, hentry hs⟩

theorem resolve (h : g.Arranged index entries) : g.resolve.state.Arranged index entries :=
  (resolve_invariant (fun _ _ _ h hfound hok => h.split hfound hok) h).1

theorem pairwise_resolve (h : g.Arranged index entries) {n : Nat}
    (hok : g.resolve.result = .ok n) : g.resolve.state.blocks.Pairwise Block.Apart :=
  Graph.pairwise_resolve (fun _ hb => h.ascending hb) hok

end Graph.Arranged

namespace Exploration

variable {index : AddressIndex} {x : Exploration} {start : Int} {roots : List Int}

theorem Discovered.arranged (h : Discovered index roots x []) :
    x.toGraph.Arranged index x.visited.reverse where
  id_eq := h.id_eq
  entries_eq := h.entries_eq
  walked := fun b hb => ⟨b.toRun, h.walked b hb, List.prefix_rfl⟩
  joined := by
    intro r hr
    rw [List.mem_reverse, List.mem_reverse]
    exact ⟨h.source_mem r hr, (h.target_known r hr).visited⟩

/-- A recovery that succeeds is a discovery that succeeds, and if it is wanted a repair that
succeeds. -/
theorem recover_ok {wanted : Bool} (h : (recover index start wanted).result = .ok ()) :
    Discovered index [start] (empty.discover index start).state [] ∧
      ((wanted = false ∧
        (recover index start wanted).state = (empty.discover index start).state) ∨
      (wanted = true ∧ ∃ n, (empty.discover index start).state.toGraph.resolve.result = .ok n ∧
        (recover index start wanted).state =
          { (empty.discover index start).state with
            toGraph := (empty.discover index start).state.toGraph.resolve.state })) := by
  rcases discover_cases index start with
    ⟨found, hfound, hdiscovered⟩ | ⟨y, t, rest, e, -, -, -, -, he⟩
  · refine ⟨hdiscovered, ?_⟩
    simp only [recover, hfound] at h ⊢
    cases wanted with
    | false => exact Or.inl ⟨rfl, rfl⟩
    | true =>
      refine Or.inr ⟨rfl, ?_⟩
      simp only [secondPass, Exploration.resolve, if_true] at h ⊢
      split at h
      · cases h
      · next n hn => exact ⟨n, hn, rfl⟩
  · simp only [recover, he] at h
    cases h

theorem recover_error {wanted : Bool} {e : GraphError}
    (h : (recover index start wanted).result = .error e) :
    (empty.discover index start).result = .error e ∨
      (empty.discover index start).state.toGraph.resolve.result = .error e := by
  unfold recover at h
  dsimp only at h
  split at h
  · next e' he =>
    cases h
    exact Or.inl he
  · right
    cases wanted with
    | false => cases h
    | true =>
      simp only [secondPass, Exploration.resolve, if_true] at h
      split at h
      · next e' he =>
        cases h
        exact he
      · cases h

/-- A recovery goes no further than its discovery if that fails or no repair is wanted, and no
further than the repair after it. -/
theorem state_recover (index : AddressIndex) (start : Int) (wanted : Bool) :
    (recover index start wanted).state = (empty.discover index start).state ∨
      (recover index start wanted).state = (empty.discover index start).state.resolve.state := by
  unfold recover
  dsimp only
  split
  · exact Or.inl rfl
  · cases wanted with
    | false => exact Or.inl rfl
    | true =>
      right
      simp only [secondPass, if_true]
      split <;> rfl

theorem state_recover_false (index : AddressIndex) (start : Int) :
    (recover index start false).state = (empty.discover index start).state := by
  unfold recover
  dsimp only
  split <;> rfl

theorem discover_ok_of_recover {wanted : Bool} (h : (recover index start wanted).result = .ok ()) :
    ∃ found, (empty.discover index start).result = .ok found := by
  cases hdiscover : (empty.discover index start).result with
  | error e =>
    simp only [recover, hdiscover] at h
    cases h
  | ok found => exact ⟨found, rfl⟩

/-- A recovery with both passes is the repair of what it discovered, if the discovery succeeds. -/
theorem recover_eq_resolve {found : List Block}
    (h : (empty.discover index start).result = .ok found) :
    (recover index start true).state.toGraph =
        (empty.discover index start).state.toGraph.resolve.state ∧
      (recover index start true).result =
        (empty.discover index start).state.toGraph.resolve.result.map (fun _ => ()) := by
  simp only [recover, h, secondPass, Exploration.resolve, if_true]
  cases (empty.discover index start).state.toGraph.resolve.result <;> exact ⟨rfl, rfl⟩

/-- What holds of a recovered graph: blocks are numbered by their places, entries are distinct and
are the visited offsets, relations join entries and lead into no block but at its entry, blocks are
apart, and each block is a row of instructions of the program, every one right after the one
before. -/
structure WellFormed (index : AddressIndex) (start : Int) (x : Exploration) : Prop where
  id_eq : ∀ (k : Nat) (b : Block), x.blocks[k]? = some b → b.id = k
  entries_nodup : (x.blocks.map (·.firstOffset)).Nodup
  mem_entries_iff : ∀ o, o ∈ x.blocks.map (·.firstOffset) ↔ o ∈ x.visited
  start_mem : start ∈ x.visited
  joined : ∀ r ∈ x.relations,
    r.source ∈ x.blocks.map (·.firstOffset) ∧ r.target ∈ x.blocks.map (·.firstOffset)
  apart : x.blocks.Pairwise Block.Apart
  target_at_entry : ∀ r ∈ x.relations, ∀ b ∈ x.blocks,
    b.firstOffset ≤ r.target → r.target ≤ b.lastOffset → r.target = b.firstOffset
  instrs_ne_nil : ∀ b ∈ x.blocks, b.instrs ≠ []
  instrs_mem : ∀ b ∈ x.blocks, ∀ i ∈ b.instrs, i ∈ index.instrs
  instrs_isChain : ∀ b ∈ x.blocks, b.instrs.IsChain fun i j => j.offset = i.next

/-- A recovery of both passes that succeeds leaves a well-formed graph. -/
theorem recover_wellFormed (index : AddressIndex) (start : Int)
    (h : (recover index start true).result = .ok ()) :
    WellFormed index start (recover index start true).state := by
  obtain ⟨hdiscovered, ⟨hwanted, -⟩ | ⟨-, n, hn, hstate⟩⟩ := recover_ok h
  · cases hwanted
  have harranged := hdiscovered.arranged.resolve
  have hapart := hdiscovered.arranged.pairwise_resolve hn
  have hentries := harranged.entries_eq
  rw [hstate]
  refine ⟨harranged.id_eq, ?_, ?_, ?_, ?_, hapart, ?_, fun b _ => b.instrs_ne_nil, ?_, ?_⟩
  · rw [hentries, ← hdiscovered.entries_eq]
    exact hdiscovered.entries_nodup
  · intro o
    rw [hentries, List.mem_reverse]
  · exact (hdiscovered.root_known start (List.mem_singleton_self _)).visited
  · intro r hr
    rw [hentries]
    exact harranged.joined r hr
  · -- The block that is entered at the target is the only one with the target in its range.
    intro r hr b hb hlow hhigh
    obtain ⟨c, hc, hfirst⟩ := List.mem_map.1 (hentries ▸ (harranged.joined r hr).2)
    have hrange := (harranged.ascending hc).firstOffset_le_lastOffset
    rw [Graph.eq_of_apart hapart hb hc ⟨hlow, hhigh⟩ ⟨by omega, by omega⟩, hfirst]
  · intro b hb i hi
    obtain ⟨line, hline, hbegin⟩ := harranged.walked b hb
    exact mem_of_lookup? ((line_of_walk hline).lookup?_mem (hbegin.subset hi))
  · intro b hb
    obtain ⟨line, hline, hbegin⟩ := harranged.walked b hb
    exact List.IsChain.prefix (line_of_walk hline).isChain hbegin

/-- A call of a routine with two ways to its return, one of them through the other. -/
def forkedCallee : AddressIndex :=
  ofNodup
    [⟨0, some .call, "call", [6], 2, "call 6"⟩, ⟨2, none, "nop", [], 2, "nop"⟩,
      ⟨4, some .jmp, "jmp", [2], 2, "jmp 2"⟩, ⟨6, some .brbs, "brbs", [1, 2], 2, "brbs 1, 2"⟩,
      ⟨8, none, "nop", [], 2, "nop"⟩, ⟨10, some .ret, "ret", [], 2, "ret"⟩]
    (by decide)

theorem wellFormed_forkedCallee :
    (recover forkedCallee 0 true).result = .ok () ∧
      WellFormed forkedCallee 0 (recover forkedCallee 0 true).state :=
  ⟨by decide +kernel, recover_wellFormed forkedCallee 0 (by decide +kernel)⟩

end Exploration

end AvrFlow
