import AvrFlow.Proofs.Overlap

/-!
The flow of control between instructions. Inside a block it goes from each instruction to the next,
and from the last one along the relations of the block. Where blocks that end together are tails of
each other, splitting them changes neither the flow nor the instructions in blocks, and in the end
every offset that is covered is in one block only.
-/

namespace AvrFlow

namespace Graph

/-- Control goes from one offset to another: to the next instruction of a block, or along a relation
from the end of a block. -/
def Flow (g : Graph) (a t : Int) : Prop :=
  (∃ b ∈ g.blocks, [a, t] <:+: b.offsets) ∨
    ∃ b ∈ g.blocks, b.lastOffset = a ∧ ⟨b.firstOffset, t⟩ ∈ g.relations

def Covers (g : Graph) (o : Int) : Prop :=
  ∃ b ∈ g.blocks, o ∈ b.offsets

instance (g : Graph) (o : Int) : Decidable (g.Covers o) :=
  inferInstanceAs (Decidable (∃ b ∈ g.blocks, _))

def Holds (g : Graph) (i : Instruction) : Prop :=
  ∃ b ∈ g.blocks, i ∈ b.instrs

/-- Of two blocks that end at one offset, the one that begins later is a tail of the other. -/
def SharedTails (blocks : List Block) : Prop :=
  ∀ b ∈ blocks, ∀ c ∈ blocks, b.lastOffset = c.lastOffset → b.firstOffset < c.firstOffset →
    c.instrs <:+ b.instrs

instance (blocks : List Block) : Decidable (SharedTails blocks) :=
  inferInstanceAs (Decidable (∀ b ∈ blocks, ∀ c ∈ blocks, _))

structure Nested (g : Graph) : Prop where
  nodup : (g.blocks.map (·.firstOffset)).Nodup
  ascending : ∀ b ∈ g.blocks, b.Ascending
  tails : SharedTails g.blocks

end Graph

namespace Run

theorem singleton_suffix_offsets {r : Run} {a : Int} : [a] <:+ r.offsets ↔ a = r.lastOffset := by
  rw [offsets, r.instrs_eq_dropLast_append, List.map_append, List.map_singleton,
    List.singleton_suffix_append_singleton_iff]
  rfl

theorem singleton_prefix_offsets {r : Run} {t : Int} : [t] <+: r.offsets ↔ t = r.firstOffset := by
  simp [offsets, instrs, firstOffset]

theorem pair_infix_append {r s : Run} {a t : Int} :
    [a, t] <:+: r.offsets ++ s.offsets ↔
      [a, t] <:+: r.offsets ∨ [a, t] <:+: s.offsets ∨ (a = r.lastOffset ∧ t = s.firstOffset) := by
  rw [List.infix_append_iff_ne_nil, ← singleton_suffix_offsets, ← singleton_prefix_offsets]
  apply or_congr_right
  apply or_congr_right
  constructor
  · intro ⟨l, m, hl, hm, heq, hsuffix, hbegin⟩
    match l, m, heq with
    | [_], [_], rfl => exact ⟨hsuffix, hbegin⟩
    | [_, _], [], _ => exact absurd rfl hm
    | [], _, _ => exact absurd rfl hl
  · intro ⟨ha, ht⟩
    exact ⟨[a], [t], by simp, by simp, rfl, ha, ht⟩

end Run

namespace Graph

variable {g : Graph} {i j k : Nat} {b s c d : Block} {a t o : Int}

/-- In a graph whose blocks are apart, the flow from the end of a block follows its relations. -/
theorem flow_lastOffset_iff (hasc : ∀ b ∈ g.blocks, b.Ascending)
    (hapart : g.blocks.Pairwise Block.Apart) (hb : b ∈ g.blocks) :
    g.Flow b.lastOffset t ↔ ⟨b.firstOffset, t⟩ ∈ g.relations := by
  have hrange := (hasc b hb).firstOffset_le_lastOffset
  constructor
  · intro hflow
    rcases hflow with ⟨c, hc, hpair⟩ | ⟨c, hc, hlast, hr⟩
    · -- Offsets ascend, so nothing comes after the last offset of a block in the block itself.
      obtain ⟨before, after, heq⟩ := hpair
      have hsorted : c.offsets.Pairwise (· < ·) := List.pairwise_map.2 (hasc c hc)
      have hmem {o : Int} (ho : o ∈ c.offsets) : c.firstOffset ≤ o ∧ o ≤ c.lastOffset := by
        obtain ⟨i, hi, rfl⟩ := List.mem_map.1 ho
        exact ⟨(hasc c hc).firstOffset_le hi, (hasc c hc).le_lastOffset hi⟩
      obtain rfl := eq_of_apart hapart hb hc ⟨hrange, Int.le_refl _⟩ (hmem (by simp [← heq]))
      have ht : t ≤ b.lastOffset := (hmem (by simp [← heq])).2
      rw [← heq, List.append_assoc] at hsorted
      have hlt : b.lastOffset < t :=
        (List.pairwise_cons.1 (List.pairwise_append.1 hsorted).2.1).1 t (by simp)
      omega
    · have hcrange := (hasc c hc).firstOffset_le_lastOffset
      obtain rfl := eq_of_apart hapart hb hc ⟨hrange, Int.le_refl _⟩ ⟨by omega, by omega⟩
      exact hr
  · exact fun hr => Or.inr ⟨b, hb, rfl, hr⟩

theorem place_eq (h : (g.blocks.map (·.firstOffset)).Nodup) (hb : g.blocks[i]? = some b)
    (hd : g.blocks[k]? = some d) (heq : b.firstOffset = d.firstOffset) : i = k := by
  have hlt : i < (g.blocks.map (·.firstOffset)).length := by
    rw [List.length_map]
    exact (List.getElem?_eq_some_iff.1 hb).1
  apply (List.getElem?_inj hlt h).1
  rw [List.getElem?_map, List.getElem?_map, hb, hd, Option.map_some, Option.map_some, heq]

/-- If the shorter block of a cut is a tail of the longer one, the longer one is what is kept of it,
followed by the shorter one. -/
theorem Cut.instrs_append (hcut : Cut g i j b s c) (hasc : ∀ b ∈ g.blocks, b.Ascending)
    (htail : s.instrs <:+ b.instrs) : b.instrs = c.instrs ++ s.instrs := by
  have hs := List.mem_of_getElem? hcut.short
  obtain ⟨pre, hpre⟩ := htail
  have hbelow : pre.filter (·.offset < s.firstOffset) = pre := by
    apply List.filter_eq_self.2
    intro i hi
    apply decide_eq_true
    have hlong : (pre ++ s.instrs).Pairwise fun i j => i.offset < j.offset :=
      hpre ▸ hasc b hcut.long_mem
    exact (List.pairwise_append.1 hlong).2.2 i hi s.first s.first_mem_instrs
  have habove : s.instrs.filter (·.offset < s.firstOffset) = [] := by
    apply List.filter_eq_nil_iff.2
    intro i hi
    have := (hasc s hs).firstOffset_le hi
    rw [decide_eq_true_eq]
    omega
  rw [hcut.instrs_eq, ← hpre, List.filter_append, hbelow, habove, List.append_nil]

theorem covers_iff_holds : g.Covers o ↔ ∃ m, g.Holds m ∧ m.offset = o := by
  constructor
  · intro ⟨b, hb, ho⟩
    obtain ⟨m, hm, rfl⟩ := List.mem_map.1 ho
    exact ⟨m, ⟨b, hb, hm⟩, rfl⟩
  · intro ⟨m, ⟨b, hb, hm⟩, hoffset⟩
    exact ⟨b, hb, List.mem_map.2 ⟨m, hm, hoffset⟩⟩

/-- Where blocks are apart, each offset lies in one block or in none. -/
theorem countP_offsets {blocks : List Block} (hasc : ∀ b ∈ blocks, b.Ascending)
    (hapart : blocks.Pairwise Block.Apart) (o : Int) :
    blocks.countP (fun b => decide (o ∈ b.offsets)) =
      if ∃ b ∈ blocks, o ∈ b.offsets then 1 else 0 := by
  induction blocks with
  | nil => simp
  | cons b bs ih =>
    obtain ⟨hb, hbs⟩ := List.pairwise_cons.1 hapart
    obtain ⟨hbasc, hbsasc⟩ := List.forall_mem_cons.1 hasc
    have hrest := ih hbsasc hbs
    by_cases ho : o ∈ b.offsets
    · -- The offset lies in the range of `b`, so no later block has it.
      have hnone : ¬ ∃ c ∈ bs, o ∈ c.offsets := by
        intro ⟨c, hc, hoc⟩
        obtain ⟨i, hi, rfl⟩ := List.mem_map.1 ho
        obtain ⟨j, hj, hij⟩ := List.mem_map.1 hoc
        have hilow := hbasc.firstOffset_le hi
        have hihigh := hbasc.le_lastOffset hi
        have hjlow := (hbsasc c hc).firstOffset_le hj
        have hjhigh := (hbsasc c hc).le_lastOffset hj
        rcases hb c hc with hlt | hlt <;> omega
      rw [if_neg hnone] at hrest
      rw [List.countP_cons_of_pos (by simpa using ho), hrest,
        if_pos ⟨b, List.mem_cons_self .., ho⟩]
    · rw [List.countP_cons_of_neg (by simpa using ho), hrest]
      simp [ho]

namespace Nested

theorem instrs_append (h : g.Nested) (hcut : Cut g i j b s c) :
    b.instrs = c.instrs ++ s.instrs := by
  have hs := List.mem_of_getElem? hcut.short
  exact hcut.instrs_append h.ascending (h.tails b hcut.long_mem s hs hcut.last_eq hcut.first_lt)

theorem offsets_append (h : g.Nested) (hcut : Cut g i j b s c) :
    b.offsets = c.offsets ++ s.offsets := by
  rw [Run.offsets, h.instrs_append hcut, List.map_append]
  rfl

theorem lastOffset_ne (h : g.Nested) (hcut : Cut g i j b s c) (hd : g.blocks[k]? = some d)
    (hk : k ≠ i) : c.lastOffset ≠ d.lastOffset := by
  have hc := (hcut.ascending_split h.ascending c hcut.kept_mem).firstOffset_le_lastOffset
  have hdr := (h.ascending d (List.mem_of_getElem? hd)).firstOffset_le_lastOffset
  have hfirst := hcut.firstOffset_eq
  have hlast := hcut.lastOffset_lt
  rcases hcut.apart k d hd hk with hlt | hle <;> omega

theorem split (h : g.Nested) (hcut : Cut g i j b s c) : (g.split i j).state.Nested := by
  refine ⟨hcut.map_firstOffset ▸ h.nodup, hcut.ascending_split h.ascending, ?_⟩
  intro d hd e he hlast hlt
  rcases hcut.mem_split_iff.1 hd with rfl | ⟨k, hki, hk⟩
  · rcases hcut.mem_split_iff.1 he with rfl | ⟨l, hli, hl⟩
    · exact absurd hlt (Int.lt_irrefl _)
    · exact absurd hlast (h.lastOffset_ne hcut hl hli)
  · rcases hcut.mem_split_iff.1 he with rfl | ⟨l, hli, hl⟩
    · exact absurd hlast.symm (h.lastOffset_ne hcut hk hki)
    · exact h.tails d (List.mem_of_getElem? hk) e (List.mem_of_getElem? hl) hlast hlt

theorem holds_split (h : g.Nested) (hcut : Cut g i j b s c) {m : Instruction} :
    (g.split i j).state.Holds m ↔ g.Holds m := by
  have happend := h.instrs_append hcut
  constructor
  · intro ⟨d, hd, hm⟩
    rcases hcut.mem_split_iff.1 hd with rfl | hother
    · refine ⟨b, hcut.long_mem, ?_⟩
      rw [happend]
      exact List.mem_append_left _ hm
    · exact ⟨d, hcut.mem_iff.2 (Or.inr hother), hm⟩
  · intro ⟨d, hd, hm⟩
    rcases hcut.mem_iff.1 hd with rfl | hother
    · rw [happend] at hm
      rcases List.mem_append.1 hm with hm | hm
      · exact ⟨c, hcut.kept_mem, hm⟩
      · exact ⟨s, hcut.short_mem, hm⟩
    · exact ⟨d, hcut.mem_split_iff.2 (Or.inr hother), hm⟩

theorem firstOffset_ne (h : g.Nested) (hcut : Cut g i j b s c) (hk : k ≠ i)
    (hd : g.blocks[k]? = some d) : d.firstOffset ≠ b.firstOffset := by
  intro heq
  exact hk (place_eq h.nodup hd hcut.long heq)

theorem flow_of_flow_split (h : g.Nested) (hcut : Cut g i j b s c)
    (hflow : (g.split i j).state.Flow a t) : g.Flow a t := by
  have happend := h.offsets_append hcut
  have hlong (hpair : [a, t] <:+: c.offsets ++ s.offsets) : g.Flow a t :=
    Or.inl ⟨b, hcut.long_mem, happend ▸ hpair⟩
  rcases hflow with ⟨d, hd, hpair⟩ | ⟨d, hd, hlast, hr⟩
  · rcases hcut.mem_split_iff.1 hd with rfl | hother
    · exact hlong (Run.pair_infix_append.2 (Or.inl hpair))
    · exact Or.inl ⟨d, hcut.mem_iff.2 (Or.inr hother), hpair⟩
  · rw [hcut.mem_relations_iff] at hr
    rcases hcut.mem_split_iff.1 hd with rfl | ⟨k, hk, hplace⟩
    · -- What is kept of the longer block has no relation but the one to the shorter block.
      have hfirst := hcut.firstOffset_eq
      rcases hr with ⟨hne, -⟩ | ⟨heq, -⟩ | heq
      · exact absurd hfirst hne
      · exact absurd (hfirst.symm.trans heq) (Int.ne_of_lt hcut.first_lt)
      · have hmeet : a = d.lastOffset ∧ t = s.firstOffset :=
          ⟨hlast.symm, (Relation.mk.inj heq).2⟩
        exact hlong (Run.pair_infix_append.2 (Or.inr (Or.inr hmeet)))
    · rcases hr with ⟨-, hr⟩ | ⟨heq, hr⟩ | heq
      · exact Or.inr ⟨d, List.mem_of_getElem? hplace, hlast, hr⟩
      · -- The relations of the longer block have moved to the shorter one, which ends with it.
        obtain rfl : k = j := place_eq h.nodup hplace hcut.short heq
        obtain rfl := Option.some.inj (hplace.symm.trans hcut.short)
        exact Or.inr ⟨b, hcut.long_mem, hcut.last_eq.trans hlast, hr⟩
      · exact absurd (Relation.mk.inj heq).1 (h.firstOffset_ne hcut hk hplace)

theorem flow_split_of_flow (h : g.Nested) (hcut : Cut g i j b s c) (hflow : g.Flow a t) :
    (g.split i j).state.Flow a t := by
  rcases hflow with ⟨d, hd, hpair⟩ | ⟨d, hd, hlast, hr⟩
  · rcases hcut.mem_iff.1 hd with rfl | hother
    · rw [h.offsets_append hcut, Run.pair_infix_append] at hpair
      rcases hpair with hpair | hpair | ⟨rfl, rfl⟩
      · exact Or.inl ⟨c, hcut.kept_mem, hpair⟩
      · exact Or.inl ⟨s, hcut.short_mem, hpair⟩
      · -- Where the two runs meet, the flow now takes the new relation.
        refine Or.inr ⟨c, hcut.kept_mem, rfl, ?_⟩
        rw [hcut.mem_relations_iff, hcut.firstOffset_eq]
        exact Or.inr (Or.inr rfl)
    · exact Or.inl ⟨d, hcut.mem_split_iff.2 (Or.inr hother), hpair⟩
  · rcases hcut.mem_iff.1 hd with rfl | ⟨k, hk, hplace⟩
    · refine Or.inr ⟨s, hcut.short_mem, hcut.last_eq.symm.trans hlast, ?_⟩
      exact hcut.mem_relations_iff.2 (Or.inr (Or.inl ⟨rfl, hr⟩))
    · refine Or.inr ⟨d, hcut.mem_split_iff.2 (Or.inr ⟨k, hk, hplace⟩), hlast, ?_⟩
      exact hcut.mem_relations_iff.2 (Or.inl ⟨h.firstOffset_ne hcut hk hplace, hr⟩)

/-- What every cut of a nested graph keeps holds after the repair. -/
theorem keeps_resolve {Q : Graph → Prop}
    (hcut : ∀ g i j b s c, g.Nested → Cut g i j b s c → Q g → Q (g.split i j).state)
    (h : g.Nested) (hQ : Q g) : Q g.resolve.state := by
  refine (resolve_invariant (P := fun g' => g'.Nested ∧ Q g') ?_ ⟨h, hQ⟩).1.2
  intro g' i j ⟨hnested, hQ'⟩ hfound hok
  obtain ⟨b, s, c, hsplit⟩ := exists_cut hnested.ascending hfound hok
  exact ⟨hnested.split hsplit, hcut g' i j b s c hnested hsplit hQ'⟩

theorem holds_resolve (h : g.Nested) (m : Instruction) : g.resolve.state.Holds m ↔ g.Holds m := by
  apply h.keeps_resolve (Q := fun g' => g'.Holds m ↔ g.Holds m)
  · intro g' i j b s c hnested hsplit hholds
    exact (hnested.holds_split hsplit).trans hholds
  · exact Iff.rfl

/-- The repair keeps the flow and the offsets that are covered. -/
theorem resolve (h : g.Nested) :
    (∀ a t, g.resolve.state.Flow a t ↔ g.Flow a t) ∧
      ∀ o, g.resolve.state.Covers o ↔ g.Covers o := by
  constructor
  · intro a t
    apply h.keeps_resolve (Q := fun g' => g'.Flow a t ↔ g.Flow a t)
    · intro g' i j b s c hnested hsplit hflow
      rw [← hflow]
      exact ⟨hnested.flow_of_flow_split hsplit, hnested.flow_split_of_flow hsplit⟩
    · exact Iff.rfl
  · intro o
    simp only [covers_iff_holds, h.holds_resolve]

end Nested

/-- A repair of nested blocks that succeeds changes neither the flow nor the instructions, and each
offset that was covered lies in one block after it. -/
theorem resolve_flow_preserved (h : g.Nested) {n : Nat} (hok : g.resolve.result = .ok n) :
    (∀ a t, g.resolve.state.Flow a t ↔ g.Flow a t) ∧
      (∀ m, g.resolve.state.Holds m ↔ g.Holds m) ∧
      ∀ o, g.resolve.state.blocks.countP (fun b => decide (o ∈ b.offsets)) =
        if g.Covers o then 1 else 0 := by
  have hasc := (resolve_invariant (fun _ _ _ => ascending_split) h.ascending).1
  refine ⟨h.resolve.1, h.holds_resolve, ?_⟩
  intro o
  rw [countP_offsets hasc (pairwise_resolve h.ascending hok) o]
  simp only [← h.resolve.2 o]
  rfl

/-- Three ways into one return, each with targets of its own. The longest block has a loop to itself
and a relation to the next one. -/
def sharedReturn : Graph :=
  let nop (o : Int) : Instruction := ⟨o, none, "nop", [], 2, "nop"⟩
  let ret : Instruction := ⟨6, some .ret, "ret", [], 2, "ret"⟩
  ⟨[⟨⟨nop 0, [nop 2, nop 4, ret]⟩, 0⟩, ⟨⟨ret, []⟩, 1⟩, ⟨⟨nop 4, [ret]⟩, 2⟩],
    [⟨0, 0⟩, ⟨0, 4⟩, ⟨4, 20⟩, ⟨6, 6⟩]⟩

theorem nested_sharedReturn : sharedReturn.Nested :=
  ⟨by decide, by decide, by decide⟩

theorem flow_preserved_sharedReturn :
    sharedReturn.Nested ∧ sharedReturn.resolve.result = .ok 2 ∧
      (∀ a t, sharedReturn.resolve.state.Flow a t ↔ sharedReturn.Flow a t) ∧
      (∀ m, sharedReturn.resolve.state.Holds m ↔ sharedReturn.Holds m) ∧
      ∀ o, sharedReturn.resolve.state.blocks.countP (fun b => decide (o ∈ b.offsets)) =
        if sharedReturn.Covers o then 1 else 0 := by
  have hok : sharedReturn.resolve.result = .ok 2 := by decide +kernel
  exact ⟨nested_sharedReturn, hok, resolve_flow_preserved nested_sharedReturn hok⟩

end Graph

end AvrFlow
