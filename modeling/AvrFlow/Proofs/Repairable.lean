import AvrFlow.Proofs.Flow
import AvrFlow.Proofs.Session

/-!
Where a repair cannot fail. If no instruction begins inside another one, a walk that begins within
the range of another walk joins it and ends with it. So of two discovered blocks that overlap one is
a tail of the other, whatever they were discovered from, and every split leaves only such pairs.
-/

namespace AvrFlow

open AddressIndex

namespace Graph

variable {g : Graph} {i j : Nat} {b s c : Block}

def EndTogether (blocks : List Block) : Prop :=
  ∀ b ∈ blocks, ∀ c ∈ blocks, b.firstOffset ≤ c.firstOffset → c.firstOffset ≤ b.lastOffset →
    b.lastOffset = c.lastOffset

/-- What is kept of the longer block overlaps no other block, so a split leaves no pair of blocks
that end apart. -/
theorem EndTogether.split (h : EndTogether g.blocks) (hasc : ∀ b ∈ g.blocks, b.Ascending)
    (hcut : Cut g i j b s c) : EndTogether (g.split i j).state.blocks := by
  have hfirst := hcut.firstOffset_eq
  have hlast := hcut.lastOffset_lt
  have hlong := hcut.first_lt
  have hmem {k : Nat} {d : Block} (hk : g.blocks[k]? = some d) : d ∈ g.blocks :=
    List.mem_of_getElem? hk
  intro d hd e he hle hmeet
  rcases hcut.mem_split_iff.1 hd with rfl | ⟨k, hki, hk⟩
  · rcases hcut.mem_split_iff.1 he with rfl | ⟨l, hli, hl⟩
    · rfl
    · have herange := (hasc e (hmem hl)).firstOffset_le_lastOffset
      rcases hcut.apart l e hl hli with hbefore | hafter <;> omega
  · rcases hcut.mem_split_iff.1 he with rfl | ⟨l, hli, hl⟩
    · rcases hcut.apart k d hk hki with hbefore | hafter <;> omega
    · exact h d (hmem hk) e (hmem hl) hle hmeet

end Graph

namespace Exploration

variable {index : AddressIndex} {x : Exploration} {t : Target}

def Whole (index : AddressIndex) (x : Exploration) : Prop :=
  ∀ b ∈ x.blocks, index.walk b.firstOffset = .ok b.toRun

theorem Whole.visit (h : Whole index x) (t : Target) : Whole index (x.visit index t).state := by
  rcases state_visit_cases index x t with hstate | ⟨r, added, hwalk, -, hstate⟩
  · rw [hstate]
    exact h
  · rw [hstate]
    intro b hb
    rcases List.mem_append.1 hb with hb | hb
    · exact h b hb
    · obtain rfl := List.mem_singleton.1 hb
      have hfirst : (x.nextBlock r).firstOffset = t.entry := firstOffset_of_walk hwalk
      exact hfirst.symm ▸ hwalk

/-- A discovery stores whole walks and changes no block, wherever it ends. -/
theorem Whole.discover (h : Whole index x) (entry : Int) :
    Whole index (x.discover index entry).state :=
  state_explore_invariant (fun _ t hy _ => hy.visit t) h

/-- Where no instruction begins inside another one, whole walks that overlap end together. -/
theorem Whole.endTogether (h : Whole index x) (hbytes : index.BytesDisjoint) :
    Graph.EndTogether x.blocks := by
  intro b hb c hc hle hmeet
  have hbline := line_of_walk (h b hb)
  have hcline := line_of_walk (h c hc)
  have htail : c.instrs <:+ b.instrs := hbline.suffix_of_between hbytes hcline hle hmeet
  exact congrArg Instruction.offset (Run.last_eq_of_suffix htail).symm

/-- Blocks that end together if they overlap can be repaired: no split on the way fails. -/
theorem Consistent.resolve_ok (h : Consistent index x) (hends : Graph.EndTogether x.blocks) :
    ∃ n, x.resolve.result = .ok n := by
  cases hresult : x.resolve.result with
  | ok n => exact ⟨n, rfl⟩
  | error e =>
    have hkept (g : Graph) (i j : Nat)
        (hg : Consistent index ⟨g, x.visited⟩ ∧ Graph.EndTogether g.blocks)
        (hfound : Graph.findOverlap? g.blocks = some (i, j))
        (hok : (g.split i j).result = .ok ()) :
        Consistent index ⟨(g.split i j).state, x.visited⟩ ∧
          Graph.EndTogether (g.split i j).state.blocks := by
      obtain ⟨b, s, c, hcut⟩ := Graph.exists_cut hg.1.ascending hfound hok
      exact ⟨hg.1.split hfound hok, hg.2.split hg.1.ascending hcut⟩
    obtain ⟨g, i, j, ⟨hg, hends⟩, hfound, he⟩ := Graph.resolve_error hkept ⟨h, hends⟩ hresult
    -- The split that fails has two blocks that overlap. They end together and begin apart.
    obtain ⟨b, s, hb, hs, -, hle, hmeet, hguard⟩ := Graph.split_error hg.ascending hfound he
    have hlast := hends b (List.mem_of_getElem? hb) s (List.mem_of_getElem? hs) hle hmeet
    rcases hguard with hne | hfirst
    · exact absurd hlast hne
    · have hplace := Graph.place_eq (g := g) hg.entries_nodup hb hs hfirst
      exact absurd hplace (Graph.place_ne_of_findOverlap? hfound)

end Exploration

namespace Session

open Exploration

variable {index : AddressIndex}

def discoversOnly : Session → Bool
  | opened _ wanted => !wanted
  | later before (.discover _) => before.discoversOnly
  | later _ _ => false

theorem whole_state {s : Session} (h : s.discoversOnly = true) : Whole index (s.state index) := by
  induction s with
  | opened start wanted =>
    obtain rfl : wanted = false := by simpa [discoversOnly] using h
    rw [state, state_recover_false]
    exact Whole.discover (fun b hb => absurd hb List.not_mem_nil) start
  | later before a ih =>
    cases a with
    | discover entry => exact (ih h).discover entry
    | resolve | findOverlap | render => cases h

/-- Where no instruction begins inside another one, a repair after any number of discoveries, also
of some that have failed, succeeds, and no blocks overlap after it. -/
theorem resolve_discovered (hbytes : index.BytesDisjoint) (s : Session)
    (hs : s.discoversOnly = true) :
    (∃ n, (s.state index).resolve.result = .ok n) ∧
      (s.state index).resolve.state.blocks.Pairwise Block.Apart := by
  have hconsistent := consistent_state index s
  obtain ⟨n, hn⟩ := hconsistent.resolve_ok ((whole_state hs).endTogether hbytes)
  exact ⟨⟨n, hn⟩, Graph.pairwise_resolve hconsistent.ascending hn⟩

/-- Both discoveries leave a block that is a tail of another one. -/
theorem repairable_forkedCallee :
    let s := (opened 0 false).later (.discover 4)
    forkedCallee.BytesDisjoint ∧ s.discoversOnly = true ∧ s.allDiscovered forkedCallee = true ∧
      Graph.findOverlap? (s.state forkedCallee).blocks ≠ none ∧
      (∃ n, (s.state forkedCallee).resolve.result = .ok n) ∧
      (s.state forkedCallee).resolve.state.blocks.Pairwise Block.Apart :=
  ⟨by decide, rfl, by decide +kernel, by decide +kernel,
    resolve_discovered (by decide) ((opened 0 false).later (.discover 4)) rfl⟩

end Session

end AvrFlow
