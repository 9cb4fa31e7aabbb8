import AvrFlow.Proofs.Overlap
import Mathlib.Data.List.Nodup
import Mathlib.Data.List.Perm.Basic

/-!
Graphs that differ only in the places and the numbers of their blocks. The repair looks at blocks in
the order of their entries, so two such graphs meet the same overlaps in the same order: the same
runs are cut, and a split that fails in one fails in the other.
-/

namespace AvrFlow

/-- The same runs in some order, whatever their numbers, and the same relations. -/
structure Graph.Alike (g g' : Graph) : Prop where
  runs : (g.blocks.map (·.toRun)).Perm (g'.blocks.map (·.toRun))
  relations : ∀ r, r ∈ g.relations ↔ r ∈ g'.relations

theorem set_perm_set {α : Type} {xs ys : List α} {i k : Nat} {a : α} (hperm : xs.Perm ys)
    (hx : xs[i]? = some a) (hy : ys[k]? = some a) (c : α) : (xs.set i c).Perm (ys.set k c) := by
  obtain ⟨hi, hxi⟩ := List.getElem?_eq_some_iff.1 hx
  obtain ⟨hk, hyk⟩ := List.getElem?_eq_some_iff.1 hy
  have hrest : (xs.eraseIdx i).Perm (ys.eraseIdx k) := by
    apply List.Perm.cons_inv (a := a)
    calc (a :: xs.eraseIdx i).Perm xs := hxi ▸ List.getElem_cons_eraseIdx_perm hi
      _ |>.Perm ys := hperm
      _ |>.Perm (a :: ys.eraseIdx k) := hyk ▸ (List.getElem_cons_eraseIdx_perm hk).symm
  calc (xs.set i c).Perm (c :: xs.eraseIdx i) := List.set_perm_cons_eraseIdx hi c
    _ |>.Perm (c :: ys.eraseIdx k) := hrest.cons c
    _ |>.Perm (ys.set k c) := (List.set_perm_cons_eraseIdx hk c).symm

namespace Graph

variable {g g' : Graph} {i j k l : Nat} {b s c d : Block}

theorem findOverlap?_eq_find? (blocks : List Block) :
    findOverlap? blocks =
      ((neighbours (inEntryOrder blocks)).find? fun p => p.1.1.overlaps p.2.1.toRun).map
        fun p => (p.1.2, p.2.2) := by
  rw [List.find?_eq_findSome?_guard, List.map_findSome?, findOverlap?]
  congr 1
  funext ⟨a, b⟩
  by_cases hover : a.1.overlaps b.1.toRun <;> simp [Option.guard, hover]

theorem neighbours_map {α β : Type} (f : α → β) (xs : List α) :
    neighbours (xs.map f) = (neighbours xs).map (Prod.map f f) := by
  rw [neighbours, neighbours, ← List.map_tail, List.zip_map]

namespace Alike

theorem symm (h : g.Alike g') : g'.Alike g :=
  ⟨h.runs.symm, fun r => (h.relations r).symm⟩

theorem entries (h : g.Alike g') :
    (g.blocks.map (·.firstOffset)).Perm (g'.blocks.map (·.firstOffset)) := by
  have hperm := h.runs.map Run.firstOffset
  rwa [List.map_map, List.map_map] at hperm

theorem ascending (h : g.Alike g') (hasc : ∀ b ∈ g.blocks, b.Ascending) :
    ∀ c ∈ g'.blocks, c.Ascending := by
  intro c hc
  obtain ⟨b, hb, hrun⟩ := List.mem_map.1 (h.runs.mem_iff.2 (List.mem_map_of_mem hc))
  exact hrun ▸ hasc b hb

/-- Entries differ, so there is one way only to put the runs in their order. -/
theorem inEntryOrder_eq (h : g.Alike g') (hnodup : (g.blocks.map (·.firstOffset)).Nodup) :
    (inEntryOrder g.blocks).map (·.1.toRun) = (inEntryOrder g'.blocks).map (·.1.toRun) := by
  have hperm (blocks : List Block) :
      ((inEntryOrder blocks).map (·.1.toRun)).Perm (blocks.map (·.toRun)) := by
    have hsorted := (perm_sortBy (fun a b => decide (a.1.firstOffset ≤ b.1.firstOffset))
      blocks.zipIdx).map fun a => a.1.toRun
    have hplain : blocks.zipIdx.map (fun a => a.1.toRun) = blocks.map (·.toRun) := by
      rw [← List.zipIdx_map_fst 0 blocks, List.map_map, List.zipIdx_map_fst]
      rfl
    exact hplain ▸ hsorted
  have hsorted (blocks : List Block) :
      ((inEntryOrder blocks).map (·.1.toRun)).Pairwise fun r s => r.firstOffset ≤ s.firstOffset :=
    List.pairwise_map.2 (pairwise_inEntryOrder blocks)
  have hruns : ((g.blocks.map (·.toRun)).map Run.firstOffset).Nodup := by
    rw [List.map_map]
    exact hnodup
  apply List.Perm.eq_of_pairwise ?_ (hsorted _) (hsorted _)
  · exact (hperm _).trans (h.runs.trans (hperm _).symm)
  · intro r s hr hs hle hge
    apply List.inj_on_of_nodup_map hruns ((hperm _).mem_iff.1 hr)
    · exact h.runs.mem_iff.2 ((hperm _).mem_iff.1 hs)
    · exact Int.le_antisymm hle hge

/-- The first overlapping neighbours are the same runs in both graphs. -/
theorem findOverlap? (h : g.Alike g') (hnodup : (g.blocks.map (·.firstOffset)).Nodup)
    (hfound : findOverlap? g.blocks = some (i, j)) :
    ∃ b s k l c d, g.blocks[i]? = some b ∧ g.blocks[j]? = some s ∧
      Graph.findOverlap? g'.blocks = some (k, l) ∧ g'.blocks[k]? = some c ∧ g'.blocks[l]? = some d ∧
      b.toRun = c.toRun ∧ s.toRun = d.toRun := by
  let pair := Prod.map (fun a : Block × Nat => a.1.toRun) (fun a : Block × Nat => a.1.toRun)
  have hplaces {blocks : List Block} {p : (Block × Nat) × (Block × Nat)}
      (hp : (neighbours (inEntryOrder blocks)).find?
        (fun p => p.1.1.overlaps p.2.1.toRun) = some p) :
      blocks[p.1.2]? = some p.1.1 ∧ blocks[p.2.2]? = some p.2.1 := by
    obtain ⟨hfirst, hsecond⟩ := List.of_mem_zip (List.mem_of_find?_eq_some hp)
    exact ⟨mem_inEntryOrder.1 hfirst, mem_inEntryOrder.1 (List.mem_of_mem_tail hsecond)⟩
  -- Whether neighbours overlap is up to their runs, which stand in one order in both graphs.
  have hruns (blocks : List Block) :
      ((neighbours (inEntryOrder blocks)).find? fun p => p.1.1.overlaps p.2.1.toRun).map pair =
        (neighbours ((inEntryOrder blocks).map (·.1.toRun))).find? fun p => p.1.overlaps p.2 := by
    rw [neighbours_map, List.find?_map]
    rfl
  rw [findOverlap?_eq_find?] at hfound
  obtain ⟨p, hp, hij⟩ := Option.map_eq_some_iff.1 hfound
  obtain ⟨rfl, rfl⟩ := Prod.mk.inj hij
  have hsame := (hruns g'.blocks).trans (h.inEntryOrder_eq hnodup ▸ (hruns g.blocks).symm)
  rw [hp, Option.map_some] at hsame
  obtain ⟨q, hq, hpq⟩ := Option.map_eq_some_iff.1 hsame
  obtain ⟨hb, hs⟩ := hplaces hp
  obtain ⟨hc, hd⟩ := hplaces hq
  refine ⟨p.1.1, p.2.1, q.1.2, q.2.2, q.1.1, q.2.1, hb, hs, ?_, hc, hd, ?_, ?_⟩
  · rw [findOverlap?_eq_find?, hq, Option.map_some]
  · exact (congrArg Prod.fst hpq).symm
  · exact (congrArg Prod.snd hpq).symm

theorem findOverlap?_eq_none (h : g.Alike g') (hnodup : (g.blocks.map (·.firstOffset)).Nodup)
    (hnone : Graph.findOverlap? g.blocks = none) : Graph.findOverlap? g'.blocks = none := by
  rw [← Option.not_isSome_iff_eq_none]
  intro hsome
  obtain ⟨⟨k, l⟩, hkl⟩ := Option.isSome_iff_exists.1 hsome
  obtain ⟨-, -, i, j, -, -, -, -, hij, -⟩ :=
    h.symm.findOverlap? (h.entries.nodup_iff.1 hnodup) hkl
  rw [hnone] at hij
  cases hij

/-- Splits at the same runs fail together, and leave graphs that are alike. -/
theorem split (h : g.Alike g') (hb : g.blocks[i]? = some b) (hs : g.blocks[j]? = some s)
    (hc : g'.blocks[k]? = some c) (hd : g'.blocks[l]? = some d) (hbc : b.toRun = c.toRun)
    (hsd : s.toRun = d.toRun) :
    (g.split i j).state.Alike (g'.split k l).state ∧
      ((g.split i j).result = .ok () ↔ (g'.split k l).result = .ok ()) := by
  simp only [Graph.split, hb, hs, hc, hd, Block.shrink?, hbc, hsd]
  by_cases hguard : c.lastOffset ≠ d.lastOffset ∨ c.firstOffset = d.firstOffset
  · rw [if_pos hguard, if_pos hguard]
    exact ⟨h, by simp⟩
  · rw [if_neg hguard, if_neg hguard]
    cases c.below? d.firstOffset with
    | none => exact ⟨h, by simp⟩
    | some r =>
      refine ⟨⟨?_, ?_⟩, by simp⟩
      · simp only [Option.map_some, List.map_set]
        apply set_perm_set h.runs (a := c.toRun)
        · rw [List.getElem?_map, hb, Option.map_some, hbc]
        · rw [List.getElem?_map, hc, Option.map_some]
      · intro r
        simp only [Option.map_some, mem_moveRelations, h.relations]

/-- The repair of graphs that are alike makes as many splits in both, or fails in both, and leaves
graphs that are alike. -/
theorem resolve (h : g.Alike g') (hnodup : (g.blocks.map (·.firstOffset)).Nodup)
    (hasc : ∀ b ∈ g.blocks, b.Ascending) :
    g.resolve.state.Alike g'.resolve.state ∧
      ∀ n, g.resolve.result = .ok n ↔ g'.resolve.result = .ok n := by
  -- Along the repair of `g`: each of its splits has a counterpart in the repair of `g'`.
  revert g'
  fun_induction Graph.resolve g with
  | case1 g hnone =>
    intro g' h
    rw [resolve_of_none (h.findOverlap?_eq_none hnodup hnone)]
    exact ⟨h, fun n => Iff.rfl⟩
  | case2 g i j hfound o e he =>
    intro g' h
    obtain ⟨b, s, k, l, c, d, hb, hs, hfound', hc, hd, hbc, hsd⟩ := h.findOverlap? hnodup hfound
    obtain ⟨halike, hresult⟩ := h.split hb hs hc hd hbc hsd
    cases hresult' : (g'.split k l).result with
    | ok u =>
      rw [hresult.2 hresult'] at he
      cases he
    | error e' =>
      rw [resolve_of_error hfound' hresult']
      exact ⟨halike, by simp⟩
  | case3 g i j hfound o hok later ih =>
    intro g' h
    obtain ⟨b, s, k, l, c, d, hb, hs, hfound', hc, hd, hbc, hsd⟩ := h.findOverlap? hnodup hfound
    obtain ⟨halike, hresult⟩ := h.split hb hs hc hd hbc hsd
    obtain ⟨b', s', c', hcut⟩ := exists_cut hasc hfound hok
    obtain ⟨hlater, hcount⟩ := ih (hcut.map_firstOffset ▸ hnodup) (hcut.ascending_split hasc) halike
    rw [resolve_of_ok hfound' (hresult.1 hok)]
    refine ⟨hlater, ?_⟩
    intro n
    have hmap {r r' : Except GraphError Nat} (hiff : ∀ m, r = .ok m ↔ r' = .ok m) :
        r.map (· + 1) = .ok n → r'.map (· + 1) = .ok n := by
      intro hr
      obtain ⟨m, hm, rfl⟩ := exists_of_map_eq_ok hr
      rw [(hiff m).1 hm]
      rfl
    exact ⟨hmap hcount, hmap fun m => (hcount m).symm⟩

end Alike

end Graph

end AvrFlow
