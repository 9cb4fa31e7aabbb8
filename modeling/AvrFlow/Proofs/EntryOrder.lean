import AvrFlow.Proofs.Alike

/-!
The search for overlapping blocks. It looks at neighbours in entry order only, and a split puts the
shortened block back at the place that the whole one had in that order. Where every block has its
entry at or below its last offset, the search finds what a search through all pairs finds, and a
repair leaves no overlap behind, although what it keeps of a block may well end below its entry.
-/

namespace AvrFlow.Graph

variable {g : Graph} {blocks : List Block} {order pre post : List (Block × Nat)} {i j : Nat}
  {b s c : Block}

theorem overlaps_eq_false_iff : b.overlaps c.toRun = false ↔ b.Apart c := by
  simp only [Run.overlaps, Block.Apart, Bool.and_eq_false_iff, decide_eq_false_iff_not]
  omega

/-- The blocks with their places, in ascending order of their entries. Of blocks with one entry the
one at the smaller place comes first. -/
structure StableOrder (blocks : List Block) (order : List (Block × Nat)) : Prop where
  perm : order.Perm blocks.zipIdx
  ascending : order.Pairwise fun a b =>
    a.1.firstOffset < b.1.firstOffset ∨ (a.1.firstOffset = b.1.firstOffset ∧ a.2 < b.2)

theorem stableOrder_inEntryOrder (blocks : List Block) :
    StableOrder blocks (inEntryOrder blocks) := by
  have hplaces : blocks.zipIdx.Pairwise fun a b => a.2 < b.2 := by
    apply List.pairwise_map.1
    rw [List.zipIdx_map_snd]
    exact List.pairwise_lt_range'
  refine ⟨perm_sortBy _ _, ?_⟩
  exact pairwise_sortBy_stable (fun a : Block × Nat => a.1.firstOffset) hplaces

theorem StableOrder.eq (h : StableOrder blocks order) : order = inEntryOrder blocks := by
  have hsorted := stableOrder_inEntryOrder blocks
  have hperm : order.Perm (inEntryOrder blocks) := h.perm.trans hsorted.perm.symm
  -- No two blocks can come before each other, so the order leaves no choice.
  refine hperm.eq_of_pairwise ?_ h.ascending hsorted.ascending
  intro a b _ _ hab hba
  omega

/-- A block that is replaced by one with the same entry hands over its place in the order. -/
theorem inEntryOrder_set (horder : inEntryOrder blocks = pre ++ (b, i) :: post)
    (hfirst : c.firstOffset = b.firstOffset) :
    inEntryOrder (blocks.set i c) = pre ++ (c, i) :: post := by
  have hstable := stableOrder_inEntryOrder blocks
  rw [horder] at hstable
  have hb : blocks[i]? = some b := mem_inEntryOrder.1 (horder ▸ List.mem_append_right _
    (List.mem_cons_self ..))
  symm
  apply StableOrder.eq
  constructor
  · have hold : (pre ++ (b, i) :: post)[pre.length]? = some (b, i) := by simp
    have hplace : blocks.zipIdx[i]? = some (b, i) := by simp [hb]
    have hswap := set_perm_set hstable.perm hold hplace (c, i)
    have hnew : (pre ++ (b, i) :: post).set pre.length (c, i) = pre ++ (c, i) :: post := by simp
    have hset : blocks.zipIdx.set i (c, i) = (blocks.set i c).zipIdx := by
      apply List.ext_getElem?
      intro k
      simp only [List.getElem?_set, List.getElem?_zipIdx, List.length_zipIdx]
      split
      · next hk =>
        subst hk
        split <;> simp
      · rfl
    rw [← hnew, ← hset]
    exact hswap
  · -- The order goes by entries and places, and both are as they were.
    have hkeys : (pre ++ (c, i) :: post).map (fun a => (a.1.firstOffset, a.2)) =
        (pre ++ (b, i) :: post).map fun a => (a.1.firstOffset, a.2) := by
      simp [hfirst]
    have hold := List.pairwise_map (f := fun a : Block × Nat => (a.1.firstOffset, a.2))
      (R := fun p q => p.1 < q.1 ∨ (p.1 = q.1 ∧ p.2 < q.2)) |>.2 hstable.ascending
    rw [← hkeys] at hold
    exact List.pairwise_map.1 hold

theorem neighbours_append {α : Type} (pre post : List α) (a b : α) :
    neighbours (pre ++ a :: b :: post) =
      neighbours (pre ++ [a]) ++ (a, b) :: neighbours (b :: post) := by
  induction pre with
  | nil => rfl
  | cons p pre ih =>
    cases pre with
    | nil => rfl
    | cons q pre =>
      have hcons (xs : List α) : neighbours (p :: q :: xs) = (p, q) :: neighbours (q :: xs) := rfl
      simp only [List.cons_append, hcons] at ih ⊢
      rw [ih]

theorem findSome?_neighbours_eq_none {α β : Type} {f : α × α → Option β} {xs : List α}
    (h : xs.IsChain fun a b => f (a, b) = none) : (neighbours xs).findSome? f = none := by
  induction h with
  | nil | singleton => rfl
  | @cons_cons a b xs hab _ ih =>
    change ((a, b) :: neighbours (b :: xs)).findSome? f = none
    rw [List.findSome?_cons, hab]
    exact ih

theorem findOverlap?_eq_some_of_order
    (horder : inEntryOrder blocks = pre ++ (b, i) :: (s, j) :: post)
    (hbefore : (pre ++ [(b, i)]).IsChain fun a b => a.1.overlaps b.1.toRun = false)
    (hover : b.overlaps s.toRun = true) : findOverlap? blocks = some (i, j) := by
  rw [findOverlap?, horder, neighbours_append, List.findSome?_append,
    findSome?_neighbours_eq_none (hbefore.imp fun a b hab => by simp [hab])]
  simp [hover]

theorem findOverlap?_eq_none_iff :
    findOverlap? blocks = none ↔
      (inEntryOrder blocks).IsChain fun a b => a.1.overlaps b.1.toRun = false := by
  constructor
  · intro hnone
    exact (isChain_of_findSome?_eq_none hnone).imp fun a b hab => by simpa using hab
  · intro hchain
    exact findSome?_neighbours_eq_none (hchain.imp fun a b hab => by simp [hab])

/-- All that a split of neighbours can do. It refuses blocks that end apart or begin together, and
changes nothing then. Otherwise what is kept of the first one stands where the first one stood. -/
theorem split_neighbours (horder : inEntryOrder g.blocks = pre ++ (b, i) :: (s, j) :: post) :
    ((b.lastOffset ≠ s.lastOffset ∨ b.firstOffset = s.firstOffset) ∧
      g.split i j = ⟨g, [.overlapFound b s], .error (.unsupportedOverlap b s)⟩) ∨
    (¬ (b.lastOffset ≠ s.lastOffset ∨ b.firstOffset = s.firstOffset) ∧
      ∃ c, b.shrink? s.firstOffset = some c ∧ c.firstOffset = b.firstOffset ∧
        c.lastOffset < s.firstOffset ∧
        g.split i j = ⟨⟨g.blocks.set i c, moveRelations b.firstOffset s.firstOffset g.relations⟩,
          [.overlapFound b s], .ok ()⟩ ∧
        inEntryOrder (g.blocks.set i c) = pre ++ (c, i) :: (s, j) :: post) := by
  have hb : g.blocks[i]? = some b := mem_inEntryOrder.1 (by simp [horder])
  have hs : g.blocks[j]? = some s := mem_inEntryOrder.1 (by simp [horder])
  by_cases hguard : b.lastOffset ≠ s.lastOffset ∨ b.firstOffset = s.firstOffset
  · exact Or.inl ⟨hguard, by simp only [split, hb, hs, if_pos hguard]⟩
  · right
    have hsorted := pairwise_inEntryOrder g.blocks
    rw [horder] at hsorted
    have hle : b.firstOffset ≤ s.firstOffset :=
      (List.pairwise_cons.1 (List.pairwise_append.1 hsorted).2.1).1 (s, j) (List.mem_cons_self ..)
    have hlt : b.firstOffset < s.firstOffset := by omega
    obtain ⟨c, hc, hfirst, hlast⟩ := shrink?_of_lt hlt
    refine ⟨hguard, c, hc, hfirst, hlast, ?_, inEntryOrder_set horder hfirst⟩
    simp only [split, hb, hs, if_neg hguard, hc]

/-- A split of the first overlapping neighbours leaves no block that ends below its entry in reach
of a block before it. -/
theorem ranged_split (h : Ranged (inEntryOrder g.blocks))
    (hfound : findOverlap? g.blocks = some (i, j)) (hok : (g.split i j).result = .ok ()) :
    Ranged (inEntryOrder (g.split i j).state.blocks) := by
  obtain ⟨pre, b, s, post, horder, -, hchain⟩ := exists_order_of_findOverlap? hfound
  rcases split_neighbours horder with ⟨-, heq⟩ | ⟨-, c, -, hfirst, hlast, heq, horder'⟩
  · rw [heq] at hok
    cases hok
  have hsorted := pairwise_inEntryOrder g.blocks
  rw [horder] at h hsorted
  have hsub : (pre ++ [(b, i)]).Sublist (pre ++ (b, i) :: (s, j) :: post) := by simp
  -- No neighbours overlap up to the block that is cut, so the blocks before it end before it.
  have hbefore := pairwise_of_isChain (hsorted.sublist hsub) (h.sublist hsub) hchain
  have hcut (p : Block × Nat) (hp : p ∈ pre) : p.1.lastOffset < c.firstOffset := by
    rw [hfirst]
    exact (List.pairwise_append.1 hbefore).2.2 p hp (b, i) (List.mem_singleton_self _)
  obtain ⟨hpre, htail, hcross⟩ := List.pairwise_append.1 h
  obtain ⟨-, hrest⟩ := List.pairwise_cons.1 htail
  obtain ⟨-, hsortedRest, -⟩ := List.pairwise_append.1 hsorted
  obtain ⟨-, hafter⟩ := List.pairwise_cons.1 hsortedRest
  rw [heq, Ranged, horder']
  refine List.pairwise_append.2 ⟨hpre, List.pairwise_cons.2 ⟨?_, hrest⟩, ?_⟩
  · -- Whatever comes after the cut begins at the cut or later.
    intro q hq
    left
    rcases List.mem_cons.1 hq with rfl | hq
    · exact hlast
    · exact Int.lt_of_lt_of_le hlast ((List.pairwise_cons.1 hafter).1 q hq)
  · intro p hp q hq
    rcases List.mem_cons.1 hq with rfl | hq
    · exact Or.inl (hcut p hp)
    · exact hcross p hp q (List.mem_cons_of_mem _ hq)

/-- The pairs of members of a list, the earlier member first. They come in the order of their first
members, and those with one first member in the order of their second ones. -/
def pairs {α : Type} : List α → List (α × α)
  | [] => []
  | a :: rest => rest.map (a, ·) ++ pairs rest

def firstOverlap? (order : List (Block × Nat)) : Option (Nat × Nat) :=
  (pairs order).findSome? fun (a, b) =>
    if a.1.overlaps b.1.toRun then some (a.2, b.2) else none

/-- A block that overlaps a later one overlaps its neighbour, so that a search through all pairs
stops at neighbours. -/
theorem findSome?_neighbours_eq_pairs {β : Type} {f : (Block × Nat) × (Block × Nat) → Option β}
    (hf : ∀ a b, f (a, b) = none ↔ a.1.overlaps b.1.toRun = false)
    (hsorted : order.Pairwise fun a b => a.1.firstOffset ≤ b.1.firstOffset)
    (hrange : ∀ a ∈ order, a.1.firstOffset ≤ a.1.lastOffset) :
    (neighbours order).findSome? f = (pairs order).findSome? f := by
  induction order with
  | nil => rfl
  | cons a rest ih =>
    obtain ⟨hle, hsorted⟩ := List.pairwise_cons.1 hsorted
    have hrest : ∀ b ∈ rest, b.1.firstOffset ≤ b.1.lastOffset :=
      fun b hb => hrange b (List.mem_cons_of_mem a hb)
    have ih := ih hsorted hrest
    cases rest with
    | nil => rfl
    | cons b rest =>
      change ((a, b) :: neighbours (b :: rest)).findSome? f =
        ((a, b) :: (rest.map (a, ·) ++ pairs (b :: rest))).findSome? f
      rw [List.findSome?_cons, List.findSome?_cons]
      cases hab : f (a, b) with
      | some v => rfl
      | none =>
        -- The neighbour begins after the end of `a`, and so does everything behind it.
        have hafter : a.1.lastOffset < b.1.firstOffset := by
          have hab := overlaps_eq_false_iff.1 ((hf a b).1 hab)
          have hfirst := hle b (List.mem_cons_self ..)
          have hb := hrest b (List.mem_cons_self ..)
          simp only [Block.Apart] at hab
          omega
        have hnone : (rest.map (a, ·)).findSome? f = none := by
          apply List.findSome?_eq_none_iff.2
          intro p hp
          obtain ⟨c, hc, rfl⟩ := List.mem_map.1 hp
          have hbc := (List.pairwise_cons.1 hsorted).1 c hc
          exact (hf a c).2 (overlaps_eq_false_iff.2 (Or.inl (Int.lt_of_lt_of_le hafter hbc)))
        rw [List.findSome?_append, hnone]
        exact ih

theorem findOverlap?_eq_firstOverlap? (hrange : ∀ b ∈ blocks, b.firstOffset ≤ b.lastOffset) :
    findOverlap? blocks = firstOverlap? (inEntryOrder blocks) := by
  apply findSome?_neighbours_eq_pairs
  · intro a b
    simp
  · exact pairwise_inEntryOrder blocks
  · intro a ha
    exact hrange a.1 (List.mem_of_getElem? (mem_inEntryOrder.1 ha))

theorem apart_of_places (h : blocks.Pairwise Block.Apart) (hb : blocks[i]? = some b)
    (hc : blocks[j]? = some c) (hne : i ≠ j) : b.Apart c := by
  obtain ⟨hi, rfl⟩ := List.getElem?_eq_some_iff.1 hb
  obtain ⟨hj, rfl⟩ := List.getElem?_eq_some_iff.1 hc
  have hordered := List.pairwise_iff_getElem.1 h
  rcases Nat.lt_or_gt_of_ne hne with hlt | hgt
  · exact hordered i j hi hj hlt
  · exact (hordered j i hj hi hgt).symm

theorem findOverlap?_eq_none_iff_forall (hrange : ∀ b ∈ blocks, b.firstOffset ≤ b.lastOffset) :
    findOverlap? blocks = none ↔
      ∀ (i j : Nat) (b c : Block), blocks[i]? = some b → blocks[j]? = some c → i ≠ j →
        b.overlaps c.toRun = false := by
  constructor
  · intro hnone i j b c hb hc hne
    have hapart := pairwise_of_findOverlap?_eq_none hrange hnone
    exact overlaps_eq_false_iff.2 (apart_of_places hapart hb hc hne)
  · intro hall
    cases hfound : findOverlap? blocks with
    | none => rfl
    | some p =>
      obtain ⟨b, c, hb, hc, hover⟩ := overlaps_of_findOverlap? hfound
      have hnot := hall p.1 p.2 b c hb hc (place_ne_of_findOverlap? hfound)
      rw [hover] at hnot
      cases hnot

/-- Where no block ends below its entry, the search among neighbours is a search through all pairs,
and a repair that succeeds leaves nothing for a second one to do. -/
theorem search_exact (hrange : ∀ b ∈ g.blocks, b.firstOffset ≤ b.lastOffset)
    (horder : StableOrder g.blocks order) :
    (findOverlap? g.blocks = none ↔
      ∀ (i j : Nat) (b c : Block), g.blocks[i]? = some b → g.blocks[j]? = some c → i ≠ j →
        b.overlaps c.toRun = false) ∧
    findOverlap? g.blocks = firstOverlap? order ∧
    ∀ n, g.resolve.result = .ok n →
      g.resolve.state.blocks.Pairwise Block.Apart ∧
        g.resolve.state.resolve = ⟨g.resolve.state, [], .ok 0⟩ := by
  obtain rfl := horder.eq
  refine ⟨findOverlap?_eq_none_iff_forall hrange, findOverlap?_eq_firstOverlap? hrange, ?_⟩
  intro n hn
  obtain ⟨hend, hdone⟩ := resolve_invariant (P := fun g => Ranged (inEntryOrder g.blocks))
    (fun _ _ _ => ranged_split) (ranged_inEntryOrder hrange)
  have hnone := hdone n hn
  exact ⟨pairwise_of_ranged hend hnone, resolve_of_none hnone⟩

/-- The first block has its instructions out of order, so that what is kept of it ends below its
entry. -/
def shuffledTail : Graph :=
  let nop (o : Int) : Instruction := ⟨o, none, "nop", [], 2, "nop"⟩
  ⟨[⟨⟨nop 7, [nop 10]⟩, 0⟩, ⟨⟨nop 20, [nop 26]⟩, 1⟩, ⟨⟨nop 5, [nop 1, nop 10]⟩, 2⟩],
    [⟨5, 20⟩, ⟨7, 5⟩]⟩

theorem search_exact_shuffledTail :
    (∀ b ∈ shuffledTail.blocks, b.firstOffset ≤ b.lastOffset) ∧
      findOverlap? shuffledTail.blocks = some (2, 0) ∧
      findOverlap? shuffledTail.blocks = firstOverlap? (inEntryOrder shuffledTail.blocks) ∧
      shuffledTail.resolve.result = .ok 1 ∧
      shuffledTail.resolve.state.blocks.map (·.offsets) = [[7, 10], [20, 26], [5, 1]] ∧
      shuffledTail.resolve.state.blocks.Pairwise Block.Apart ∧
      shuffledTail.resolve.state.resolve = ⟨shuffledTail.resolve.state, [], .ok 0⟩ := by
  have hrange : ∀ b ∈ shuffledTail.blocks, b.firstOffset ≤ b.lastOffset := by decide
  have hok : shuffledTail.resolve.result = .ok 1 := by decide +kernel
  obtain ⟨-, hsame, hdone⟩ := search_exact hrange (stableOrder_inEntryOrder _)
  exact ⟨hrange, by decide +kernel, hsame, hok, by decide +kernel, hdone 1 hok⟩

end AvrFlow.Graph
