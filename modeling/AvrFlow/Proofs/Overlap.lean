import AvrFlow.Overlap
import AvrFlow.Proofs.StraightLine
import Mathlib.Data.List.Pairwise

namespace AvrFlow

def Block.Apart (b c : Block) : Prop :=
  b.lastOffset < c.firstOffset ∨ c.lastOffset < b.firstOffset

instance : Std.Symm Block.Apart :=
  ⟨fun _ _ => Or.symm⟩

namespace Graph

variable {blocks : List Block} {g : Graph} {i j : Nat}

theorem isChain_of_findSome?_eq_none {α β : Type} {f : α × α → Option β} {xs : List α}
    (h : (neighbours xs).findSome? f = none) : xs.IsChain fun a b => f (a, b) = none := by
  induction xs with
  | nil => exact List.IsChain.nil
  | cons a xs ih =>
    cases xs with
    | nil => exact List.isChain_singleton a
    | cons b xs =>
      have hall := List.findSome?_eq_none_iff.1 h
      apply List.isChain_cons_cons.2
      refine ⟨hall (a, b) (List.mem_cons_self ..), ?_⟩
      apply ih
      apply List.findSome?_eq_none_iff.2
      intro p hp
      exact hall p (List.mem_cons_of_mem _ hp)

theorem exists_of_findSome?_neighbours {α β : Type} {f : α × α → Option β} {xs : List α} {v : β}
    (h : (neighbours xs).findSome? f = some v) :
    ∃ pre a b post, xs = pre ++ a :: b :: post ∧ f (a, b) = some v ∧
      (pre ++ [a]).IsChain fun a b => f (a, b) = none := by
  induction xs with
  | nil => cases h
  | cons a xs ih =>
    cases xs with
    | nil => cases h
    | cons b xs =>
      change ((a, b) :: neighbours (b :: xs)).findSome? f = some v at h
      cases hab : f (a, b) with
      | some w =>
        rw [List.findSome?_cons, hab] at h
        exact ⟨[], a, b, xs, rfl, hab.trans h, List.isChain_singleton a⟩
      | none =>
        rw [List.findSome?_cons, hab] at h
        obtain ⟨pre, c, d, post, heq, hcd, hchain⟩ := ih h
        refine ⟨a :: pre, c, d, post, by rw [heq]; rfl, hcd, ?_⟩
        cases pre with
        | nil =>
          obtain ⟨rfl, -⟩ := List.cons.inj heq
          exact List.isChain_cons_cons.2 ⟨hab, hchain⟩
        | cons p pre =>
          obtain ⟨rfl, -⟩ := List.cons.inj heq
          exact List.isChain_cons_cons.2 ⟨hab, hchain⟩

theorem mem_inEntryOrder {b : Block} : (b, i) ∈ inEntryOrder blocks ↔ blocks[i]? = some b := by
  rw [inEntryOrder, mem_sortBy, List.mem_zipIdx_iff_getElem?]

theorem pairwise_inEntryOrder (blocks : List Block) :
    (inEntryOrder blocks).Pairwise fun a b => a.1.firstOffset ≤ b.1.firstOffset :=
  pairwise_sortBy_key (fun a : Block × Nat => a.1.firstOffset) blocks.zipIdx

/-- In entry order, each block has its entry at or below its last offset, or else begins after the
end of every block before it. -/
def Ranged (xs : List (Block × Nat)) : Prop :=
  xs.Pairwise fun a b => a.1.lastOffset < b.1.firstOffset ∨ b.1.firstOffset ≤ b.1.lastOffset

/-- In entry order, blocks that do not overlap their neighbour end before every later one begins. -/
theorem pairwise_of_isChain {xs : List (Block × Nat)}
    (hsorted : xs.Pairwise fun a b => a.1.firstOffset ≤ b.1.firstOffset) (hrange : Ranged xs)
    (hchain : xs.IsChain fun a b => a.1.overlaps b.1.toRun = false) :
    xs.Pairwise fun a b => a.1.lastOffset < b.1.firstOffset := by
  induction xs with
  | nil => exact List.Pairwise.nil
  | cons a xs ih =>
    obtain ⟨hle, hsorted⟩ := List.pairwise_cons.1 hsorted
    obtain ⟨hbehind, hrest⟩ := List.pairwise_cons.1 hrange
    cases xs with
    | nil => exact List.pairwise_singleton ..
    | cons b xs =>
      obtain ⟨hab, hchain⟩ := List.isChain_cons_cons.1 hchain
      -- The neighbour comes after `a`, and nothing later begins before the neighbour.
      have hlt : a.1.lastOffset < b.1.firstOffset := by
        have hb := hbehind b (List.mem_cons_self ..)
        have := hle b (List.mem_cons_self ..)
        simp only [Run.overlaps, Bool.and_eq_false_iff, decide_eq_false_iff_not] at hab
        omega
      apply List.pairwise_cons.2
      refine ⟨?_, ih hsorted hrest hchain⟩
      intro c hc
      rcases List.mem_cons.1 hc with rfl | hc
      · exact hlt
      · have := (List.pairwise_cons.1 hsorted).1 c hc
        omega

theorem pairwise_of_ranged (hrange : Ranged (inEntryOrder blocks))
    (h : findOverlap? blocks = none) : blocks.Pairwise Block.Apart := by
  have hchain := (isChain_of_findSome?_eq_none h).imp (S := fun a b =>
    a.1.overlaps b.1.toRun = false) fun a b hab => by simpa using hab
  have hpairs := pairwise_of_isChain (pairwise_inEntryOrder blocks) hrange hchain
  have hsymm : blocks.zipIdx.Pairwise fun a b => a.1.Apart b.1 :=
    ((perm_sortBy _ _).pairwise_iff fun h => h.symm).1 (hpairs.imp Or.inl)
  rw [← List.zipIdx_map_fst 0 blocks]
  exact List.pairwise_map.2 hsymm

theorem ranged_inEntryOrder (hrange : ∀ b ∈ blocks, b.firstOffset ≤ b.lastOffset) :
    Ranged (inEntryOrder blocks) := by
  apply List.pairwise_of_forall_mem_list
  intro _ _ a ha
  exact Or.inr (hrange a.1 (List.mem_of_getElem? (mem_inEntryOrder.1 ha)))

theorem pairwise_of_findOverlap?_eq_none (hrange : ∀ b ∈ blocks, b.firstOffset ≤ b.lastOffset)
    (h : findOverlap? blocks = none) : blocks.Pairwise Block.Apart :=
  pairwise_of_ranged (ranged_inEntryOrder hrange) h

theorem eq_of_apart (h : blocks.Pairwise Block.Apart) {b c : Block} (hb : b ∈ blocks)
    (hc : c ∈ blocks) {o : Int} (hbo : b.firstOffset ≤ o ∧ o ≤ b.lastOffset)
    (hco : c.firstOffset ≤ o ∧ o ≤ c.lastOffset) : b = c := by
  by_contra hne
  rcases h.forall hb hc hne with hlt | hlt <;> omega

/-- The search stops at two neighbours that overlap, and none before them do. -/
theorem exists_order_of_findOverlap? (h : findOverlap? blocks = some (i, j)) :
    ∃ pre b s post, inEntryOrder blocks = pre ++ (b, i) :: (s, j) :: post ∧
      b.overlaps s.toRun = true ∧
      (pre ++ [(b, i)]).IsChain fun a b => a.1.overlaps b.1.toRun = false := by
  obtain ⟨pre, ⟨b, i'⟩, ⟨s, j'⟩, post, heq, hfound, hchain⟩ := exists_of_findSome?_neighbours h
  dsimp only at hfound
  split at hfound
  · next hover =>
    obtain ⟨rfl, rfl⟩ : i' = i ∧ j' = j := by simpa using hfound
    exact ⟨pre, b, s, post, heq, hover, hchain.imp fun a b hab => by simpa using hab⟩
  · cases hfound

/-- The first overlapping neighbours: the first one overlaps the second, and every other block ends
before the first one or begins at or after the second one. -/
theorem exists_of_findOverlap?_eq_some (hrange : ∀ b ∈ blocks, b.firstOffset ≤ b.lastOffset)
    (h : findOverlap? blocks = some (i, j)) :
    ∃ b s, blocks[i]? = some b ∧ blocks[j]? = some s ∧ b.firstOffset ≤ s.firstOffset ∧
      s.firstOffset ≤ b.lastOffset ∧
      ∀ k c, blocks[k]? = some c → k ≠ i →
        c.lastOffset < b.firstOffset ∨ s.firstOffset ≤ c.firstOffset := by
  obtain ⟨pre, b, s, post, heq, hover, hchain⟩ := exists_order_of_findOverlap? h
  have hmem {a : Block × Nat} (ha : a ∈ pre ++ (b, i) :: (s, j) :: post) :
      blocks[a.2]? = some a.1 := mem_inEntryOrder.1 (heq ▸ ha)
  have hsorted := heq ▸ pairwise_inEntryOrder blocks
  have hsub : (pre ++ [(b, i)]).Sublist (pre ++ (b, i) :: (s, j) :: post) := by simp
  -- Up to the first of the two no neighbours overlap, so all blocks before it end before it.
  have hranged := heq ▸ ranged_inEntryOrder hrange
  have hbefore := pairwise_of_isChain (hsorted.sublist hsub) (hranged.sublist hsub) hchain
  obtain ⟨-, hpair, -⟩ := List.pairwise_append.1 hsorted
  obtain ⟨hfirst, hpair⟩ := List.pairwise_cons.1 hpair
  simp only [Run.overlaps, Bool.and_eq_true, decide_eq_true_eq] at hover
  refine ⟨b, s, hmem (a := (b, i)) (by simp), hmem (a := (s, j)) (by simp),
    hfirst (s, j) (by simp), hover.2, ?_⟩
  intro k c hc hk
  have hcmem : (c, k) ∈ pre ++ (b, i) :: (s, j) :: post := heq ▸ mem_inEntryOrder.2 hc
  rcases List.mem_append.1 hcmem with hpre | hrest
  · exact Or.inl ((List.pairwise_append.1 hbefore).2.2 _ hpre _ (List.mem_singleton_self _))
  · rcases List.mem_cons.1 hrest with heq | hrest
    · cases heq
      exact absurd rfl hk
    · rcases List.mem_cons.1 hrest with heq | hrest
      · cases heq
        exact Or.inr (Int.le_refl _)
      · exact Or.inr ((List.pairwise_cons.1 hpair).1 _ hrest)

theorem nodup_places (blocks : List Block) : ((inEntryOrder blocks).map Prod.snd).Nodup := by
  -- Sorting permutes the places, and no place occurs twice.
  have hperm := (perm_sortBy (fun a b => decide (a.1.firstOffset ≤ b.1.firstOffset))
    blocks.zipIdx).map Prod.snd
  apply hperm.nodup_iff.2
  rw [List.zipIdx_map_snd]
  exact List.nodup_range'

theorem place_ne_of_findOverlap? (h : findOverlap? blocks = some (i, j)) : i ≠ j := by
  obtain ⟨pre, b, s, post, heq, -, -⟩ := exists_order_of_findOverlap? h
  have hplaces := nodup_places blocks
  rw [heq, List.map_append] at hplaces
  have hpair := (List.nodup_append.1 hplaces).2.1
  intro hsame
  exact (List.nodup_cons.1 hpair).1 (by simp [hsame])

theorem mem_moveRelations {long short : Int} {relations : List Relation} {r : Relation} :
    r ∈ moveRelations long short relations ↔
      (r.source ≠ long ∧ r ∈ relations) ∨ (r.source = short ∧ ⟨long, r.target⟩ ∈ relations) ∨
        r = ⟨long, short⟩ := by
  obtain ⟨source, target⟩ := r
  simp only [moveRelations, mem_addRelations, List.mem_append, List.mem_map, List.mem_filter,
    List.mem_singleton, decide_eq_true_eq, ne_eq, decide_not, Bool.not_eq_true']
  constructor
  · intro hr
    rcases hr with (⟨⟨s, t⟩, ⟨hmem, rfl⟩, heq⟩ | hnew) | ⟨hmem, hne⟩
    · cases heq
      exact Or.inr (Or.inl ⟨rfl, hmem⟩)
    · exact Or.inr (Or.inr hnew)
    · exact Or.inl ⟨by simpa using hne, hmem⟩
  · intro hr
    rcases hr with ⟨hne, hmem⟩ | ⟨rfl, hmem⟩ | hnew
    · exact Or.inr ⟨hmem, by simpa using hne⟩
    · exact Or.inl (Or.inl ⟨⟨long, target⟩, ⟨hmem, rfl⟩, rfl⟩)
    · exact Or.inl (Or.inr hnew)

theorem split_ok (h : (g.split i j).result = .ok ()) :
    ∃ b s r, g.blocks[i]? = some b ∧ g.blocks[j]? = some s ∧ b.lastOffset = s.lastOffset ∧
      b.firstOffset ≠ s.firstOffset ∧
      r.instrs = b.instrs.filter (·.offset < s.firstOffset) ∧
      (g.split i j).state =
        ⟨g.blocks.set i ⟨r, b.id⟩, moveRelations b.firstOffset s.firstOffset g.relations⟩ := by
  unfold split at h ⊢
  split at h
  · next b s hb hs =>
    dsimp only at h ⊢
    split at h
    · cases h
    · next hguard =>
      rw [if_neg hguard]
      rw [not_or, not_ne_iff] at hguard
      split at h
      · cases h
      · next b' hb' =>
        obtain ⟨r, hr, rfl⟩ := Option.map_eq_some_iff.1 hb'
        exact ⟨b, s, r, hb, hs, hguard.1, hguard.2, Run.ofList?_eq_some_iff.1 hr, rfl⟩
  · cases h

/-- A split of the first overlapping neighbours: the longer block `b` becomes `c`, which ends before
the shorter one `s` begins. -/
structure Cut (g : Graph) (i j : Nat) (b s c : Block) : Prop where
  long : g.blocks[i]? = some b
  short : g.blocks[j]? = some s
  last_eq : b.lastOffset = s.lastOffset
  first_lt : b.firstOffset < s.firstOffset
  id_eq : c.id = b.id
  instrs_eq : c.instrs = b.instrs.filter (·.offset < s.firstOffset)
  apart : ∀ k d, g.blocks[k]? = some d → k ≠ i →
    d.lastOffset < b.firstOffset ∨ s.firstOffset ≤ d.firstOffset
  state_eq : (g.split i j).state =
    ⟨g.blocks.set i c, moveRelations b.firstOffset s.firstOffset g.relations⟩

theorem exists_cut (hasc : ∀ b ∈ g.blocks, b.Ascending)
    (hfound : findOverlap? g.blocks = some (i, j)) (hok : (g.split i j).result = .ok ()) :
    ∃ b s c, Cut g i j b s c := by
  obtain ⟨b, s, r, hb, hs, hlast, hfirst, hr, hstate⟩ := split_ok hok
  obtain ⟨b', s', hb', hs', hle, -, hapart⟩ := exists_of_findOverlap?_eq_some
    (fun b hb => (hasc b hb).firstOffset_le_lastOffset) hfound
  obtain rfl : b = b' := Option.some.inj (hb.symm.trans hb')
  obtain rfl : s = s' := Option.some.inj (hs.symm.trans hs')
  exact ⟨b, s, ⟨r, b.id⟩, hb, hs, hlast, by omega, rfl, hr, hapart, hstate⟩

namespace Cut

variable {b s c d : Block}

theorem firstOffset_eq (h : Cut g i j b s c) : c.firstOffset = b.firstOffset := by
  -- The first instruction of the longer block stands below the cut.
  have hfilter := Run.filter_below_of_lt h.first_lt
  exact congrArg Instruction.offset (List.cons.inj (h.instrs_eq.trans hfilter)).1

theorem lastOffset_lt (h : Cut g i j b s c) : c.lastOffset < s.firstOffset := by
  have hlast := c.last_mem_instrs
  rw [h.instrs_eq] at hlast
  exact of_decide_eq_true (List.mem_filter.1 hlast).2

theorem map_firstOffset (h : Cut g i j b s c) :
    (g.split i j).state.blocks.map (·.firstOffset) = g.blocks.map (·.firstOffset) := by
  have hlt : i < g.blocks.length := (List.getElem?_eq_some_iff.1 h.long).1
  rw [h.state_eq]
  apply List.ext_getElem?
  intro k
  rw [List.getElem?_map, List.getElem?_map, List.getElem?_set]
  split
  · next hk =>
    subst hk
    rw [h.long, Option.map_some, Option.map_some, h.firstOffset_eq]
  · rfl

theorem place_ne (h : Cut g i j b s c) : j ≠ i := by
  intro heq
  subst heq
  obtain rfl := Option.some.inj (h.long.symm.trans h.short)
  exact absurd h.first_lt (Int.lt_irrefl _)

theorem mem_iff (h : Cut g i j b s c) :
    d ∈ g.blocks ↔ d = b ∨ ∃ k, k ≠ i ∧ g.blocks[k]? = some d := by
  constructor
  · intro hd
    obtain ⟨k, hk⟩ := List.mem_iff_getElem?.1 hd
    rcases eq_or_ne k i with rfl | hne
    · exact Or.inl (Option.some.inj (hk.symm.trans h.long))
    · exact Or.inr ⟨k, hne, hk⟩
  · intro hd
    rcases hd with rfl | ⟨k, -, hk⟩
    · exact List.mem_of_getElem? h.long
    · exact List.mem_of_getElem? hk

theorem mem_split_iff (h : Cut g i j b s c) :
    d ∈ (g.split i j).state.blocks ↔ d = c ∨ ∃ k, k ≠ i ∧ g.blocks[k]? = some d := by
  have hlt : i < g.blocks.length := (List.getElem?_eq_some_iff.1 h.long).1
  rw [h.state_eq]
  constructor
  · intro hd
    obtain ⟨k, hk⟩ := List.mem_iff_getElem?.1 hd
    rcases eq_or_ne k i with rfl | hne
    · rw [List.getElem?_set_self hlt] at hk
      exact Or.inl (Option.some.inj hk).symm
    · rw [List.getElem?_set_ne hne.symm] at hk
      exact Or.inr ⟨k, hne, hk⟩
  · intro hd
    rcases hd with rfl | ⟨k, hne, hk⟩
    · exact List.mem_set hlt _
    · exact List.mem_of_getElem? ((List.getElem?_set_ne hne.symm).trans hk)

theorem ascending_split (h : Cut g i j b s c) (hasc : ∀ b ∈ g.blocks, b.Ascending) :
    ∀ d ∈ (g.split i j).state.blocks, d.Ascending := by
  intro d hd
  rcases h.mem_split_iff.1 hd with rfl | ⟨k, -, hk⟩
  · rw [Run.Ascending, h.instrs_eq]
    exact (hasc b (List.mem_of_getElem? h.long)).filter _
  · exact hasc d (List.mem_of_getElem? hk)

theorem id_eq_split (h : Cut g i j b s c)
    (hid : ∀ (k : Nat) (b : Block), g.blocks[k]? = some b → b.id = k) :
    ∀ (k : Nat) (d : Block), (g.split i j).state.blocks[k]? = some d → d.id = k := by
  intro k d hd
  rw [h.state_eq, List.getElem?_set] at hd
  split at hd
  · next hk =>
    subst hk
    split at hd
    · obtain rfl := Option.some.inj hd
      exact h.id_eq.trans (hid i b h.long)
    · cases hd
  · exact hid k d hd

theorem long_mem (h : Cut g i j b s c) : b ∈ g.blocks :=
  List.mem_of_getElem? h.long

theorem kept_mem (h : Cut g i j b s c) : c ∈ (g.split i j).state.blocks :=
  h.mem_split_iff.2 (Or.inl rfl)

theorem short_mem (h : Cut g i j b s c) : s ∈ (g.split i j).state.blocks :=
  h.mem_split_iff.2 (Or.inr ⟨j, h.place_ne, h.short⟩)

/-- The relations after a split: those of the block that is cut have moved to the shorter block, and
it is followed by the shorter block alone. -/
theorem mem_relations_iff {r : Relation} (h : Cut g i j b s c) :
    r ∈ (g.split i j).state.relations ↔
      (r.source ≠ b.firstOffset ∧ r ∈ g.relations) ∨
        (r.source = s.firstOffset ∧ ⟨b.firstOffset, r.target⟩ ∈ g.relations) ∨
        r = ⟨b.firstOffset, s.firstOffset⟩ := by
  rw [h.state_eq]
  exact mem_moveRelations

end Cut

theorem state_split_of_error {e : GraphError} (h : (g.split i j).result = .error e) :
    (g.split i j).state = g := by
  unfold split at h ⊢
  split at h
  · dsimp only at h ⊢
    split at h
    · next hguard => rw [if_pos hguard]
    · next hguard =>
      rw [if_neg hguard]
      split at h
      · rfl
      · cases h
  · rfl

/-- What every split of overlapping neighbours keeps holds after the repair; and after a repair that
succeeds no neighbours overlap. -/
theorem resolve_invariant {P : Graph → Prop}
    (hsplit : ∀ g i j, P g → findOverlap? g.blocks = some (i, j) →
      (g.split i j).result = .ok () → P (g.split i j).state) (h : P g) :
    P g.resolve.state ∧
      ∀ n, g.resolve.result = .ok n → findOverlap? g.resolve.state.blocks = none := by
  fun_induction resolve g with
  | case1 g hnone => exact ⟨h, fun n _ => hnone⟩
  | case2 g i j hfound o e he =>
    refine ⟨?_, fun n hn => by cases hn⟩
    exact state_split_of_error he ▸ h
  | case3 g i j hfound o hok later ih =>
    obtain ⟨hP, hdone⟩ := ih (hsplit g i j h hfound hok)
    refine ⟨hP, fun n hn => ?_⟩
    obtain ⟨m, hm, -⟩ := exists_of_map_eq_ok hn
    exact hdone m hm

theorem ascending_split (hasc : ∀ b ∈ g.blocks, b.Ascending)
    (hfound : findOverlap? g.blocks = some (i, j)) (hok : (g.split i j).result = .ok ()) :
    ∀ b ∈ (g.split i j).state.blocks, b.Ascending := by
  obtain ⟨b, s, c, hcut⟩ := exists_cut hasc hfound hok
  exact hcut.ascending_split hasc

/-- After a repair that succeeds no blocks overlap. -/
theorem pairwise_resolve (hasc : ∀ b ∈ g.blocks, b.Ascending) {n : Nat}
    (hok : g.resolve.result = .ok n) : g.resolve.state.blocks.Pairwise Block.Apart := by
  obtain ⟨hresolved, hdone⟩ := resolve_invariant (fun _ _ _ => ascending_split) hasc
  exact pairwise_of_findOverlap?_eq_none
    (fun b hb => (hresolved b hb).firstOffset_le_lastOffset) (hdone n hok)

/-- What is kept of a block, if its entry lies below the cut: the entry stays, and the last
instruction is below the cut as well. -/
theorem shrink?_of_lt {b : Block} {o : Int} (hlt : b.firstOffset < o) :
    ∃ c, b.shrink? o = some c ∧ c.firstOffset = b.firstOffset ∧ c.lastOffset < o := by
  have hkept := Run.filter_below_of_lt hlt
  refine ⟨⟨⟨b.first, b.rest.filter (·.offset < o)⟩, b.id⟩, ?_, rfl, ?_⟩
  · rw [Block.shrink?, Run.below?, hkept]
    rfl
  · have hlast := Run.last_mem_instrs ⟨b.first, b.rest.filter (·.offset < o)⟩
    rw [Run.instrs, ← hkept] at hlast
    exact of_decide_eq_true (List.mem_filter.1 hlast).2

/-- A split of overlapping neighbours fails only if they end apart or begin together. -/
theorem split_error (hasc : ∀ b ∈ g.blocks, b.Ascending)
    (hfound : findOverlap? g.blocks = some (i, j)) {e : GraphError}
    (he : (g.split i j).result = .error e) :
    ∃ b s, g.blocks[i]? = some b ∧ g.blocks[j]? = some s ∧ e = .unsupportedOverlap b s ∧
      b.firstOffset ≤ s.firstOffset ∧ s.firstOffset ≤ b.lastOffset ∧
      (b.lastOffset ≠ s.lastOffset ∨ b.firstOffset = s.firstOffset) := by
  obtain ⟨b, s, hb, hs, hle, hmeet, -⟩ := exists_of_findOverlap?_eq_some
    (fun b hb => (hasc b hb).firstOffset_le_lastOffset) hfound
  refine ⟨b, s, hb, hs, ?_⟩
  simp only [split, hb, hs] at he
  split at he
  · next hguard =>
    cases he
    exact ⟨rfl, hle, hmeet, hguard⟩
  · next hguard =>
    -- The first instruction of the longer block is below the cut, so something is kept.
    have hlt : b.firstOffset < s.firstOffset := by
      rw [not_or, not_ne_iff] at hguard
      omega
    obtain ⟨c, hc, -, -⟩ := shrink?_of_lt hlt
    rw [hc] at he
    cases he

/-- What every split of overlapping neighbours keeps holds before the split that fails. -/
theorem resolve_error {P : Graph → Prop}
    (hsplit : ∀ g i j, P g → findOverlap? g.blocks = some (i, j) →
      (g.split i j).result = .ok () → P (g.split i j).state) (h : P g) {e : GraphError}
    (he : g.resolve.result = .error e) :
    ∃ g' i j, P g' ∧ findOverlap? g'.blocks = some (i, j) ∧ (g'.split i j).result = .error e := by
  fun_induction resolve g with
  | case1 => cases he
  | case2 g i j hfound o e' he' =>
    cases he
    exact ⟨g, i, j, h, hfound, he'⟩
  | case3 g i j hfound o hok later ih =>
    exact ih (hsplit g i j h hfound hok) (eq_error_of_map_eq_error he)

theorem unsupportedOverlap_of_resolve (hasc : ∀ b ∈ g.blocks, b.Ascending) {e : GraphError}
    (he : g.resolve.result = .error e) : ∃ b s, e = .unsupportedOverlap b s := by
  obtain ⟨g', i, j, hasc', hfound, herror⟩ := resolve_error (fun _ _ _ => ascending_split) hasc he
  obtain ⟨b, s, -, -, rfl, -⟩ := split_error hasc' hfound herror
  exact ⟨b, s, rfl⟩

end Graph

end AvrFlow
