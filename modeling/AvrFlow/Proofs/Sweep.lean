import AvrFlow.Proofs.EntryOrder

/-!
A repair is one sweep. After every split the repair sorts the blocks again and starts over, but a
split changes neither the order nor what will be decided about the blocks behind it: it ends where
one pass over the neighbours of the first order ends, which looks at the blocks as they were before
any split. This holds of all blocks, whatever the order of their instructions and their entries.
-/

namespace AvrFlow.Graph

variable {g : Graph} {order pre rest : List (Block × Nat)} {i j k n : Nat} {b s c : Block}

instance (b c : Block) : Decidable (b.Apart c) :=
  inferInstanceAs (Decidable (_ ∨ _))

theorem overlaps_iff_not_apart : b.overlaps s.toRun = true ↔ ¬ b.Apart s := by
  rw [← overlaps_eq_false_iff, Bool.not_eq_false]

/-- One pass over blocks in a given order. Neighbours that lie apart are left as they are. Others
end the pass if they end apart or begin together; if not, the first one keeps the instructions below
the entry of the second, the relations that leave it are handed over to the second, and it leads on
to the second. -/
def sweep (g : Graph) : List (Block × Nat) → Outcome Graph GraphError Nat
  | (b, i) :: (s, j) :: rest =>
    if b.Apart s then sweep g ((s, j) :: rest)
    else if b.lastOffset ≠ s.lastOffset ∨ b.firstOffset = s.firstOffset then
      ⟨g, [.overlapFound b s], .error (.unsupportedOverlap b s)⟩
    else
      match b.instrs.filter (·.offset < s.firstOffset) with
      | [] => ⟨g, [.overlapFound b s], .error .emptyBlock⟩
      | k :: kept =>
        let staying := g.relations.filter (·.source ≠ b.firstOffset)
        let leaving := g.relations.filter (·.source = b.firstOffset)
        let added := leaving.map (fun r => ⟨s.firstOffset, r.target⟩) ++
          [⟨b.firstOffset, s.firstOffset⟩]
        let later := sweep ⟨g.blocks.set i ⟨⟨k, kept⟩, b.id⟩,
          added.foldl (fun set r => set.insert r) staying⟩ ((s, j) :: rest)
        ⟨later.state, .overlapFound b s :: later.events, later.result.map (· + 1)⟩
  | _ => ⟨g, [], .ok 0⟩

theorem sweep_of_apart (hapart : b.Apart s) :
    g.sweep ((b, i) :: (s, j) :: rest) = g.sweep ((s, j) :: rest) := by
  rw [sweep, if_pos hapart]

theorem sweep_of_cut (hmeet : ¬ b.Apart s)
    (hguard : ¬ (b.lastOffset ≠ s.lastOffset ∨ b.firstOffset = s.firstOffset))
    (hc : b.shrink? s.firstOffset = some c) :
    g.sweep ((b, i) :: (s, j) :: rest) =
      let later := sweep ⟨g.blocks.set i c,
        moveRelations b.firstOffset s.firstOffset g.relations⟩ ((s, j) :: rest)
      ⟨later.state, .overlapFound b s :: later.events, later.result.map (· + 1)⟩ := by
  obtain ⟨r, hr, rfl⟩ := Option.map_eq_some_iff.1 hc
  have hkept : b.instrs.filter (·.offset < s.firstOffset) = r.first :: r.rest :=
    (Run.ofList?_eq_some_iff.1 hr).symm
  rw [sweep, if_neg hmeet, if_neg hguard, hkept]
  rfl

def SplitsTo (g later : Graph) : Prop :=
  ∃ i j, findOverlap? g.blocks = some (i, j) ∧ (g.split i j).result = .ok () ∧
    (g.split i j).state = later

theorem acc_splitsTo (g : Graph) : Acc (fun later earlier => SplitsTo earlier later) g := by
  have hsmaller : Subrelation (fun later earlier : Graph => SplitsTo earlier later)
      (InvImage (· < ·) Graph.size) := by
    intro later earlier ⟨i, j, hfound, hok, hstate⟩
    subst hstate
    exact size_split_lt hfound hok
  exact (hsmaller.wf (InvImage.wf Graph.size Nat.lt_wfRel.wf)).apply g

/-- What is kept of a block is out of reach of the block before it. That one ends before the entry
of the whole block, which has not moved: it cannot begin after the end of a block that reaches into
a later one. -/
theorem isChain_cut (horder : inEntryOrder g.blocks = pre ++ (b, i) :: (s, j) :: rest)
    (hsettled : (pre ++ [(b, i)]).IsChain fun a b => a.1.overlaps b.1.toRun = false)
    (hover : b.overlaps s.toRun = true) (hfirst : c.firstOffset = b.firstOffset) :
    (pre ++ [(c, i)]).IsChain fun a b => a.1.overlaps b.1.toRun = false := by
  have hsorted := pairwise_inEntryOrder g.blocks
  rw [horder] at hsorted
  obtain ⟨-, hbehind, hcross⟩ := List.pairwise_append.1 hsorted
  have hbs : b.firstOffset ≤ s.firstOffset :=
    (List.pairwise_cons.1 hbehind).1 (s, j) (List.mem_cons_self ..)
  have hreach : s.firstOffset ≤ b.lastOffset := by
    simp only [Run.overlaps, Bool.and_eq_true, decide_eq_true_eq] at hover
    exact hover.2
  obtain ⟨hpre, -, hlast⟩ := List.isChain_append.1 hsettled
  refine List.isChain_append.2 ⟨hpre, List.isChain_singleton _, ?_⟩
  intro p hp q hq
  obtain rfl : (c, i) = q := by simpa using hq
  have hpb : p.1.firstOffset ≤ b.firstOffset :=
    hcross p (List.mem_of_mem_getLast? hp) (b, i) (List.mem_cons_self ..)
  have happart := overlaps_eq_false_iff.1 (hlast p hp (b, i) (by simp))
  apply overlaps_eq_false_iff.2
  simp only [Block.Apart] at happart ⊢
  omega

/-- What is left of a repair once no neighbours overlap up to some block: a sweep from that block
on. -/
theorem resolve_eq_sweep_of_settled {a : Block × Nat}
    (horder : inEntryOrder g.blocks = pre ++ a :: rest)
    (hsettled : (pre ++ [a]).IsChain fun a b => a.1.overlaps b.1.toRun = false) :
    g.resolve = g.sweep (a :: rest) := by
  induction rest generalizing g pre a with
  | nil =>
    have hnone : findOverlap? g.blocks = none := by
      rw [findOverlap?_eq_none_iff, horder]
      exact hsettled
    rw [resolve_of_none hnone]
    rfl
  | cons next rest ih =>
    obtain ⟨b, i⟩ := a
    obtain ⟨s, j⟩ := next
    by_cases hapart : b.Apart s
    · -- These two are left alone, and the settled part grows by one block.
      have hsettled' : (pre ++ [(b, i)] ++ [(s, j)]).IsChain
          fun a b => a.1.overlaps b.1.toRun = false := by
        rw [List.append_assoc, List.singleton_append, List.isChain_append_cons_cons]
        exact ⟨hsettled, overlaps_eq_false_iff.2 hapart, List.isChain_singleton _⟩
      rw [ih (by simpa using horder) hsettled', sweep_of_apart hapart]
    have hover := overlaps_iff_not_apart.2 hapart
    have hfound := findOverlap?_eq_some_of_order horder hsettled hover
    rcases split_neighbours horder with
      ⟨hguard, heq⟩ | ⟨hguard, c, hc, hfirst, hlast, heq, horder'⟩
    · rw [resolve_of_error hfound (by rw [heq]), heq, sweep, if_neg hapart, if_pos hguard]
    · -- The kept part ends before the next block, and the block before it is out of its reach.
      have hsettled' : (pre ++ [(c, i)] ++ [(s, j)]).IsChain
          fun a b => a.1.overlaps b.1.toRun = false := by
        rw [List.append_assoc, List.singleton_append, List.isChain_append_cons_cons]
        refine ⟨isChain_cut horder hsettled hover hfirst, ?_, List.isChain_singleton _⟩
        exact overlaps_eq_false_iff.2 (Or.inl hlast)
      have hlater := ih (g := (g.split i j).state) (by rw [heq]; simpa using horder') hsettled'
      rw [resolve_of_ok hfound (by rw [heq])]
      dsimp only
      rw [hlater, heq, sweep_of_cut hapart hguard hc]
      rfl

theorem count_of_sweep (h : ∃ n, (g.sweep order).result = .ok n) :
    (g.sweep order).result =
      .ok ((order.zip order.tail).countP fun p => ¬ p.1.1.Apart p.2.1) := by
  have hcons (a b : Block × Nat) (xs : List (Block × Nat)) :
      ((a :: b :: xs).zip (b :: xs)).countP (fun p => ¬ p.1.1.Apart p.2.1) =
        ((b :: xs).zip xs).countP (fun p => ¬ p.1.1.Apart p.2.1) +
          if ¬ a.1.Apart b.1 then 1 else 0 := by
    rw [List.zip_cons_cons, List.countP_cons]
    simp only [decide_eq_true_eq]
  obtain ⟨n, hn⟩ := h
  -- Along the sweep: a cut adds one to the result where it takes a meeting pair off the order.
  fun_induction sweep g order generalizing n with
  | case1 g b i s j rest hapart ih =>
    rw [List.tail_cons, hcons, if_neg (not_not_intro hapart), Nat.add_zero]
    exact ih n hn
  | case2 | case3 => cases hn
  | case4 g b i s j rest hmeet hguard k kept hkept staying leaving added later ih =>
    obtain ⟨m, hm, -⟩ := exists_of_map_eq_ok hn
    rw [List.tail_cons, hcons, if_pos hmeet]
    change later.result.map (· + 1) = _
    rw [ih m hm]
    rfl
  | case5 order g hshort =>
    match order with
    | [] | [_] => rfl
    | (b, i) :: (s, j) :: rest => exact absurd rfl (hshort b i s j rest)

theorem getElem?_sweep (hk : k ∉ order.dropLast.map Prod.snd) :
    (g.sweep order).state.blocks[k]? = g.blocks[k]? := by
  -- Of two neighbours only the first is ever cut, so the last block of the order stays whole.
  fun_induction sweep g order with
  | case1 g b i s j rest hapart ih =>
    have hk : k ∉ i :: ((s, j) :: rest).dropLast.map Prod.snd := hk
    exact ih (List.not_mem_of_not_mem_cons hk)
  | case2 | case3 | case5 => rfl
  | case4 g b i s j rest hmeet hguard k' kept hkept staying leaving added later ih =>
    have hk : k ∉ i :: ((s, j) :: rest).dropLast.map Prod.snd := hk
    have hlater := ih (List.not_mem_of_not_mem_cons hk)
    exact hlater.trans (List.getElem?_set_ne (List.ne_of_not_mem_cons hk).symm)

/-- A sweep stops at two neighbours that meet and that no cut can set right. All that it has done
before is a sweep up to the first of them. -/
structure StopsAt (g : Graph) (pre : List (Block × Nat)) (b : Block) (i : Nat) (s : Block)
    (o : Outcome Graph GraphError Nat) : Prop where
  meet : ¬ b.Apart s
  unsupported : b.lastOffset ≠ s.lastOffset ∨ b.firstOffset = s.firstOffset
  result_eq : o.result = .error (.unsupportedOverlap b s)
  swept : ∃ m, (g.sweep (pre ++ [(b, i)])).result = .ok m
  state_eq : o.state = (g.sweep (pre ++ [(b, i)])).state

theorem exists_stopsAt (hsorted : order.Pairwise fun a b => a.1.firstOffset ≤ b.1.firstOffset)
    {e : GraphError} (h : (g.sweep order).result = .error e) :
    ∃ pre b i s j post, order = pre ++ (b, i) :: (s, j) :: post ∧
      StopsAt g pre b i s (g.sweep order) := by
  -- Where the sweep of a tail stops, the part before that begins with the head of the tail.
  have hhead {a c d : Block × Nat} {xs pre post : List (Block × Nat)}
      (heq : a :: xs = pre ++ c :: d :: post) : ∃ ys, pre ++ [c] = a :: ys := by
    cases pre with
    | nil => exact ⟨[], by rw [(List.cons.inj heq).1]; rfl⟩
    | cons p pre => exact ⟨pre ++ [c], by rw [(List.cons.inj heq).1]; rfl⟩
  fun_induction sweep g order with
  | case1 g b i s j rest hapart ih =>
    obtain ⟨pre, d, k, t, l, post, horder, hstop⟩ := ih (List.pairwise_cons.1 hsorted).2 h
    obtain ⟨ys, hys⟩ := hhead horder
    have hsweep : g.sweep ((b, i) :: pre ++ [(d, k)]) = g.sweep (pre ++ [(d, k)]) := by
      rw [List.cons_append, hys, sweep_of_apart hapart]
    refine ⟨(b, i) :: pre, d, k, t, l, post, by rw [horder]; rfl, hstop.meet,
      hstop.unsupported, hstop.result_eq, ?_, ?_⟩
    · rw [hsweep]
      exact hstop.swept
    · rw [hsweep]
      exact hstop.state_eq
  | case2 g b i s j rest hmeet hguard =>
    exact ⟨[], b, i, s, j, rest, rfl, hmeet, hguard, rfl, ⟨0, rfl⟩, rfl⟩
  | case3 g b i s j rest hmeet hguard hnone =>
    -- The entry of the first block lies below the cut, so something is kept.
    have hle : b.firstOffset ≤ s.firstOffset :=
      (List.pairwise_cons.1 hsorted).1 (s, j) (List.mem_cons_self ..)
    rw [Run.filter_below_of_lt (by omega)] at hnone
    cases hnone
  | case4 g b i s j rest hmeet hguard k kept hkept staying leaving added later ih =>
    obtain ⟨pre, d, k', t, l, post, horder, hstop⟩ :=
      ih (List.pairwise_cons.1 hsorted).2 (eq_error_of_map_eq_error h)
    obtain ⟨ys, hys⟩ := hhead horder
    obtain ⟨m, hm⟩ := hstop.swept
    have hstate := hstop.state_eq
    have hresult := hstop.result_eq
    have hc : b.shrink? s.firstOffset = some ⟨⟨k, kept⟩, b.id⟩ := by
      rw [Block.shrink?, Run.below?, hkept]
      rfl
    have hsweep : g.sweep ((b, i) :: (s, j) :: ys) = _ := sweep_of_cut hmeet hguard hc
    rw [← hys, ← List.cons_append] at hsweep
    refine ⟨(b, i) :: pre, d, k', t, l, post, by rw [horder]; rfl, hstop.meet,
      hstop.unsupported, ?_, ?_, ?_⟩
    · change later.result.map (· + 1) = _
      rw [hresult]
      rfl
    · refine ⟨m + 1, ?_⟩
      rw [hsweep]
      exact congrArg (Except.map (· + 1)) hm
    · rw [hsweep]
      exact hstate
  | case5 => cases h

/-- The repair comes to an end, and does what one sweep over the blocks as they are does: it makes
as many splits as there are neighbours that meet, or stops at two that cannot be split and leaves
both as they are. -/
structure SinglePass (g : Graph) (order : List (Block × Nat)) : Prop where
  terminates : Acc (fun later earlier => SplitsTo earlier later) g
  eq_sweep : g.resolve = g.sweep order
  count : ∀ n, g.resolve.result = .ok n →
    n = (order.zip order.tail).countP fun p => ¬ p.1.1.Apart p.2.1
  stops : ∀ e, g.resolve.result = .error e →
    ∃ pre b i s j post, order = pre ++ (b, i) :: (s, j) :: post ∧
      StopsAt g pre b i s g.resolve ∧
      g.resolve.state.blocks[i]? = some b ∧ g.resolve.state.blocks[j]? = some s

theorem resolve_eq_sweep (g : Graph) : g.resolve = g.sweep (inEntryOrder g.blocks) := by
  cases horder : inEntryOrder g.blocks with
  | nil =>
    have hnone : findOverlap? g.blocks = none := by
      rw [findOverlap?_eq_none_iff, horder]
      exact List.IsChain.nil
    rw [resolve_of_none hnone]
    rfl
  | cons a rest =>
    -- Nothing has been settled yet.
    have hnothing : inEntryOrder g.blocks = [] ++ a :: rest := horder
    exact resolve_eq_sweep_of_settled hnothing (List.isChain_singleton a)

theorem StopsAt.untouched {post : List (Block × Nat)} {o : Outcome Graph GraphError Nat}
    (h : StopsAt g pre b i s o)
    (horder : inEntryOrder g.blocks = pre ++ (b, i) :: (s, j) :: post) :
    o.state.blocks[i]? = some b ∧ o.state.blocks[j]? = some s := by
  have hplaces := nodup_places g.blocks
  rw [horder, List.map_append] at hplaces
  -- Only blocks before the two have been cut, and no place occurs twice in the order.
  have hfresh {k : Nat} (hk : k ∈ ((b, i) :: (s, j) :: post).map Prod.snd) :
      k ∉ (pre ++ [(b, i)]).dropLast.map Prod.snd := by
    rw [List.dropLast_concat]
    intro hpre
    exact (List.nodup_append.1 hplaces).2.2 k hpre k hk rfl
  have hb : g.blocks[i]? = some b := mem_inEntryOrder.1 (by simp [horder])
  have hs : g.blocks[j]? = some s := mem_inEntryOrder.1 (by simp [horder])
  rw [h.state_eq, getElem?_sweep (hfresh (by simp)), getElem?_sweep (hfresh (by simp))]
  exact ⟨hb, hs⟩

/-- A repair of any blocks is a single pass over them in entry order. -/
theorem resolve_single_pass (g : Graph) (horder : StableOrder g.blocks order) :
    SinglePass g order := by
  obtain rfl := horder.eq
  have hsweep := resolve_eq_sweep g
  refine ⟨acc_splitsTo g, hsweep, ?_, ?_⟩
  · intro n hn
    rw [hsweep] at hn
    rw [count_of_sweep ⟨n, hn⟩] at hn
    exact (Except.ok.inj hn).symm
  · intro e he
    rw [hsweep] at he
    obtain ⟨pre, b, i, s, j, post, heq, hstop⟩ :=
      exists_stopsAt (pairwise_inEntryOrder g.blocks) he
    rw [← hsweep] at hstop
    exact ⟨pre, b, i, s, j, post, heq, hstop, hstop.untouched heq⟩

def tangled : Graph :=
  let nop (o : Int) : Instruction := ⟨o, none, "nop", [], 2, "nop"⟩
  ⟨[⟨⟨nop 20, [nop 12]⟩, 0⟩, ⟨⟨nop 7, [nop 9, nop 10]⟩, 1⟩, ⟨⟨nop 20, [nop 30]⟩, 2⟩,
      ⟨⟨nop 5, [nop 1, nop 10]⟩, 3⟩, ⟨⟨nop 20, [nop 40]⟩, 4⟩, ⟨⟨nop 9, [nop 10]⟩, 5⟩],
    [⟨5, 20⟩, ⟨5, 5⟩, ⟨7, 20⟩]⟩

/-- What left the longest block is handed over twice. Of the three with one entry the first ends
before it begins and overlaps nothing, and the other two cannot be split. -/
theorem single_pass_tangled :
    (inEntryOrder tangled.blocks).map Prod.snd = [3, 1, 5, 0, 2, 4] ∧
      SinglePass tangled (inEntryOrder tangled.blocks) ∧
      tangled.resolve.state.blocks.map (·.offsets) =
        [[20, 12], [7], [20, 30], [5, 1], [20, 40], [9, 10]] ∧
      tangled.resolve.state.relations = [⟨7, 9⟩, ⟨9, 20⟩, ⟨9, 5⟩, ⟨5, 7⟩] ∧
      ∃ b s, tangled.resolve.result = .error (.unsupportedOverlap b s) ∧ b.id = 2 ∧ s.id = 4 := by
  have hpass := resolve_single_pass tangled (stableOrder_inEntryOrder _)
  exact ⟨by decide +kernel, hpass, by decide +kernel, by decide +kernel,
    tangled.blocks[2], tangled.blocks[4], by decide +kernel, rfl, rfl⟩

end AvrFlow.Graph
