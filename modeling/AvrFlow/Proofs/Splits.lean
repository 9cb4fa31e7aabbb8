import AvrFlow.Proofs.MachineFlow
import AvrFlow.Proofs.WellFormed

/-!
What splits keep. A split cuts a block where a shorter one with the same end begins, whether or not
the shorter one is a tail of it. A recovery loses no instruction and adds no relation that control
does not take exactly when every two discovered blocks that end together are tails of each other.
-/

namespace AvrFlow

open AddressIndex

/-- A run that ascends has no proper beginning that ends where it does. -/
theorem Run.Ascending.instrs_eq_of_begins {r s : Run} (h : s.Ascending)
    (hbegin : r.instrs <+: s.instrs) (hlast : r.lastOffset = s.lastOffset) :
    r.instrs = s.instrs := by
  obtain ⟨post, hpost⟩ := hbegin
  cases post with
  | nil => rw [← hpost, List.append_nil]
  | cons i post =>
    have hend : s.last ∈ i :: post := by
      have hlast? := s.getLast?_instrs
      rw [← hpost, List.getLast?_append_of_ne_nil _ (by simp)] at hlast?
      exact List.mem_of_getLast? hlast?
    have hasc : (r.instrs ++ i :: post).Pairwise fun i j => i.offset < j.offset := hpost ▸ h
    have hlt := (List.pairwise_append.1 hasc).2.2 r.last r.last_mem_instrs s.last hend
    exact absurd hlast (Int.ne_of_lt hlt)

namespace Graph

variable {index : AddressIndex} {entries : List Int} {g : Graph} {i j : Nat} {b s c : Block}

/-- The longer block of a split, cut where the shorter one begins, falls through into it. -/
def FallsInto (b s : Block) : Prop :=
  ∃ c, b.shrink? s.firstOffset = some c ∧ c.last.next = s.firstOffset

instance (b s : Block) : Decidable (FallsInto b s) :=
  match h : b.shrink? s.firstOffset with
  | none => isFalse fun ⟨c, hc, _⟩ => by simp [h] at hc
  | some c =>
    if hnext : c.last.next = s.firstOffset then isTrue ⟨c, h, hnext⟩
    else isFalse fun ⟨d, hd, hd'⟩ => hnext (Option.some.inj (h.symm.trans hd) ▸ hd')

theorem events_split (hb : g.blocks[i]? = some b) (hs : g.blocks[j]? = some s) :
    (g.split i j).events = [.overlapFound b s] := by
  simp only [split, hb, hs]
  split
  · rfl
  · split <;> rfl

theorem Cut.shrink?_eq (hcut : Cut g i j b s c) : b.shrink? s.firstOffset = some c := by
  have hkept : b.below? s.firstOffset = some c.toRun :=
    Run.ofList?_eq_some_iff.2 hcut.instrs_eq
  rw [Block.shrink?, hkept, Option.map_some, ← hcut.id_eq]

theorem Cut.fallsInto_iff (hcut : Cut g i j b s c) :
    FallsInto b s ↔ c.last.next = s.firstOffset := by
  simp [FallsInto, hcut.shrink?_eq]

namespace Arranged

/-- What is kept of the longer block falls through into the shorter one exactly if the shorter one
is a tail of the longer one. -/
theorem fallsInto_iff (h : g.Arranged index entries) (hcut : Cut g i j b s c) :
    FallsInto b s ↔ s.instrs <:+ b.instrs := by
  have hs := List.mem_of_getElem? hcut.short
  obtain ⟨bline, hbwalk, brest, hbrest⟩ := h.walked b hcut.long_mem
  obtain ⟨sline, hswalk, hsbegin⟩ := h.walked s hs
  have hbline := line_of_walk hbwalk
  rw [hcut.fallsInto_iff]
  constructor
  · intro hnext
    -- Something follows what is kept, and it stands where the shorter block begins.
    obtain ⟨post, hpost⟩ : c.instrs <+: b.instrs := by
      rw [hcut.instrs_eq]
      exact (h.ascending hcut.long_mem).filter_below _
    cases post with
    | nil =>
      have hsame : c.last = b.last := by
        apply Run.last_eq_of_suffix
        exact ⟨[], (List.append_nil c.instrs).symm.trans hpost⟩
      have hend := hcut.lastOffset_lt
      rw [Run.lastOffset, hsame, ← Run.lastOffset, hcut.last_eq] at hend
      exact absurd (h.ascending hs).firstOffset_le_lastOffset (Int.not_le.2 hend)
    | cons k post =>
      have htail : (⟨k, post⟩ : Run).instrs <:+ b.instrs := ⟨c.instrs, hpost⟩
      rw [← hbrest, ← hpost, List.append_assoc, List.cons_append] at hbline
      have hentry : k.offset = s.firstOffset := hbline.next_last.trans hnext
      -- Both the rest of the longer block and the shorter block begin the walk from there, and
      -- they end together.
      have hrest : k :: (post ++ brest) = sline.instrs := by
        apply hbline.suffix.unique
        rw [hentry]
        exact line_of_walk hswalk
      have hbegin : (⟨k, post⟩ : Run).instrs <+: sline.instrs := ⟨brest, hrest⟩
      have hlast : (⟨k, post⟩ : Run).lastOffset = s.lastOffset :=
        (congrArg Instruction.offset (Run.last_eq_of_suffix htail)).trans hcut.last_eq
      have hsame : s.instrs = (⟨k, post⟩ : Run).instrs := by
        rcases List.prefix_or_prefix_of_prefix hsbegin hbegin with hshort | hshort
        · have hasc : (⟨k, post⟩ : Run).Ascending :=
            (h.ascending hcut.long_mem).sublist htail.sublist
          exact hasc.instrs_eq_of_begins hshort hlast.symm
        · exact ((h.ascending hs).instrs_eq_of_begins hshort hlast).symm
      exact hsame ▸ htail
  · intro htail
    have happend := hcut.instrs_append (fun b hb => h.ascending hb) htail
    rw [← hbrest, happend, List.append_assoc] at hbline
    exact hbline.next_last.symm

end Arranged

theorem sharedTails_of_apart (hasc : ∀ b ∈ g.blocks, b.Ascending)
    (h : g.blocks.Pairwise Block.Apart) : SharedTails g.blocks := by
  intro b hb d hd hlast hlt
  have hbrange := (hasc b hb).firstOffset_le_lastOffset
  have hdrange := (hasc d hd).firstOffset_le_lastOffset
  have hsame := eq_of_apart h hb hd ⟨hbrange, Int.le_refl _⟩ ⟨by omega, by omega⟩
  rw [hsame] at hlt
  exact absurd hlt (Int.lt_irrefl _)

/-- Blocks share their tails before a split exactly if the split takes off a tail and they share
their tails after it. -/
theorem sharedTails_iff (hcut : Cut g i j b s c)
    (hnodup : (g.blocks.map (·.firstOffset)).Nodup) (hasc : ∀ b ∈ g.blocks, b.Ascending) :
    SharedTails g.blocks ↔
      s.instrs <:+ b.instrs ∧ SharedTails (g.split i j).state.blocks := by
  have hb := hcut.long_mem
  have hs := List.mem_of_getElem? hcut.short
  constructor
  · intro htails
    have hnested : g.Nested := ⟨hnodup, hasc, htails⟩
    exact ⟨htails b hb s hs hcut.last_eq hcut.first_lt, (hnested.split hcut).tails⟩
  · intro ⟨htail, hlater⟩ d hd e he hlast hlt
    have hbrange := (hasc b hb).firstOffset_le_lastOffset
    have hkept {d : Block} {k : Nat} (hki : k ≠ i) (hk : g.blocks[k]? = some d) :
        d ∈ (g.split i j).state.blocks := hcut.mem_split_iff.2 (Or.inr ⟨k, hki, hk⟩)
    rcases hcut.mem_iff.1 hd with rfl | ⟨k, hki, hk⟩
    · rcases hcut.mem_iff.1 he with rfl | ⟨l, hli, hl⟩
      · exact absurd hlt (Int.lt_irrefl _)
      · -- What ends together with the longer block begins with the shorter one or later.
        have hle : s.firstOffset ≤ e.firstOffset :=
          (hcut.apart l e hl hli).resolve_left (by omega)
        rcases Int.lt_or_eq_of_le hle with hlt' | heq
        · have hends : s.lastOffset = e.lastOffset := hcut.last_eq.symm.trans hlast
          exact (hlater s hcut.short_mem e (hkept hli hl) hends hlt').trans htail
        · obtain rfl := place_eq hnodup hcut.short hl heq
          exact Option.some.inj (hcut.short.symm.trans hl) ▸ htail
    · rcases hcut.mem_iff.1 he with rfl | ⟨l, hli, hl⟩
      · -- No other block that ends with the longer one begins before it.
        have hcut_lt := hcut.first_lt
        rcases hcut.apart k d hk hki with hbefore | hafter <;> omega
      · exact hlater d (hkept hki hk) e (hkept hli hl) hlast hlt

/-- In a repair that succeeds, every block that is cut falls through into the block that it is cut
for exactly if blocks that end together share their tails. -/
theorem Arranged.falls_iff (h : g.Arranged index entries) (hnodup : entries.Nodup)
    (hok : ∃ n, g.resolve.result = .ok n) :
    (∀ b s, .overlapFound b s ∈ g.resolve.events → FallsInto b s) ↔ SharedTails g.blocks := by
  -- Along the repair: each split adds one overlap to those found and takes one pair off the blocks.
  fun_induction Graph.resolve g with
  | case1 g hnone =>
    have hasc : ∀ b ∈ g.blocks, b.Ascending := fun b hb => h.ascending hb
    have hapart := pairwise_of_findOverlap?_eq_none
      (fun b hb => (hasc b hb).firstOffset_le_lastOffset) hnone
    exact iff_of_true (fun b s hfound => absurd hfound List.not_mem_nil)
      (sharedTails_of_apart hasc hapart)
  | case2 =>
    obtain ⟨n, hn⟩ := hok
    cases hn
  | case3 g i j hfound o hsplit later ih =>
    have hasc : ∀ b ∈ g.blocks, b.Ascending := fun b hb => h.ascending hb
    obtain ⟨b, s, c, hcut⟩ := exists_cut hasc hfound hsplit
    obtain ⟨n, hn⟩ := hok
    obtain ⟨m, hm, -⟩ := exists_of_map_eq_ok hn
    have hlater := ih (h.split hfound hsplit) ⟨m, hm⟩
    rw [sharedTails_iff hcut (h.entries_eq ▸ hnodup) hasc, ← h.fallsInto_iff hcut, ← hlater]
    have hevents : o.events = [.overlapFound b s] := events_split hcut.long hcut.short
    simp only [hevents, List.singleton_append, List.mem_cons, Event.overlapFound.injEq]
    constructor
    · intro hfalls
      exact ⟨hfalls b s (Or.inl ⟨rfl, rfl⟩), fun b' s' hmem => hfalls b' s' (Or.inr hmem)⟩
    · intro hfalls b' s' hmem
      rcases hmem with ⟨rfl, rfl⟩ | hmem
      · exact hfalls.1
      · exact hfalls.2 b' s' hmem

/-- Two blocks that are found to overlap end together and are split, or they are reported. -/
theorem overlapFound_cases (hasc : ∀ b ∈ g.blocks, b.Ascending)
    (hmem : .overlapFound b s ∈ g.resolve.events) :
    (b.lastOffset = s.lastOffset ∧ b.firstOffset < s.firstOffset) ∨
      g.resolve.result = .error (.unsupportedOverlap b s) := by
  fun_induction resolve g with
  | case1 => cases hmem
  | case2 g i j hfound o e he =>
    obtain ⟨b', s', hb, hs, rfl, -, -, -⟩ := split_error hasc hfound he
    have hevents : o.events = [.overlapFound b' s'] := events_split hb hs
    rw [hevents] at hmem
    cases List.mem_singleton.1 hmem
    exact Or.inr rfl
  | case3 g i j hfound o hok later ih =>
    obtain ⟨b', s', c, hcut⟩ := exists_cut hasc hfound hok
    have hevents : o.events = [.overlapFound b' s'] := events_split hcut.long hcut.short
    rw [hevents] at hmem
    rcases List.mem_append.1 hmem with hmem | hmem
    · cases List.mem_singleton.1 hmem
      exact Or.inl ⟨hcut.last_eq, hcut.first_lt⟩
    · rcases ih (hcut.ascending_split hasc) hmem with hends | herror
      · exact Or.inl hends
      · right
        simp only [later, herror]
        rfl

end Graph

namespace Exploration

variable {index : AddressIndex} {x : Exploration} {start : Int} {work : List Target} {b s : Block}

theorem overlapFound_not_mem_explore : Event.overlapFound b s ∉ (explore index x work).events := by
  have hvisit (x : Exploration) (t : Target) :
      Event.overlapFound b s ∉ (x.visit index t).events := by
    unfold visit
    split
    · simp
    · dsimp only [walkEvent]
      split <;> split <;> simp
  fun_induction explore index x work with
  | case1 => exact List.not_mem_nil
  | case2 x t work hmem ih => exact ih
  | case3 x t work hnew o e he => exact hvisit x t
  | case4 x t work hnew o b' targets hok later ih =>
    intro hmem
    rcases List.mem_append.1 hmem with hmem | hmem
    · exact hvisit x t hmem
    · exact ih hmem

theorem overlapFound_mem_recover_iff :
    .overlapFound b s ∈ (recover index start true).events ↔
      (∃ found, (empty.discover index start).result = .ok found) ∧
        .overlapFound b s ∈ (empty.discover index start).state.toGraph.resolve.events := by
  have hnone : Event.overlapFound b s ∉ (empty.discover index start).events :=
    overlapFound_not_mem_explore
  cases hdiscover : (empty.discover index start).result with
  | error e => simp [recover, hdiscover, hnone]
  | ok found =>
    simp only [recover, hdiscover, secondPass, Exploration.resolve, if_true]
    cases (empty.discover index start).state.toGraph.resolve.result <;> simp [hnone]

/-- A recovery with both passes has the instructions of one without the second pass, and every block
that it cuts falls through into the block that it is cut for. -/
structure Undamaged (index : AddressIndex) (start : Int) : Prop where
  covers_iff : ∀ o, (recover index start true).state.toGraph.Covers o ↔
    (recover index start false).state.toGraph.Covers o
  falls : ∀ b s, .overlapFound b s ∈ (recover index start true).events → Graph.FallsInto b s

/-- How a recovery with both passes treats blocks that overlap. Two of them that are found end
together, or they are reported; and if none is reported, it is undamaged exactly if discovered
blocks that end together share their tails. -/
theorem recover_splits (index : AddressIndex) (start : Int) :
    (∀ b s, .overlapFound b s ∈ (recover index start true).events →
      (b.lastOffset = s.lastOffset ∧ b.firstOffset < s.firstOffset) ∨
        (recover index start true).result = .error (.unsupportedOverlap b s)) ∧
    ((recover index start true).result = .ok () →
      (Undamaged index start ↔
        Graph.SharedTails (recover index start false).state.blocks)) := by
  rw [state_recover_false]
  constructor
  · intro b s hmem
    obtain ⟨⟨found, hfound⟩, hmem⟩ := overlapFound_mem_recover_iff.1 hmem
    have harranged := (discovered_of_ok hfound).arranged
    rcases Graph.overlapFound_cases (fun b hb => harranged.ascending hb) hmem with
      hends | herror
    · exact Or.inl hends
    · right
      rw [(recover_eq_resolve hfound).2, herror]
      rfl
  · intro hok
    obtain ⟨found, hfound⟩ := discover_ok_of_recover hok
    have hdiscovered := discovered_of_ok hfound
    obtain ⟨hstate, hresult⟩ := recover_eq_resolve hfound
    obtain ⟨n, hn, -⟩ := exists_of_map_eq_ok (hresult.symm.trans hok)
    have hfalls := hdiscovered.arranged.falls_iff (List.nodup_reverse.2 hdiscovered.nodup) ⟨n, hn⟩
    constructor
    · intro hundamaged
      apply hfalls.1
      intro b s hmem
      exact hundamaged.falls b s (overlapFound_mem_recover_iff.2 ⟨⟨found, hfound⟩, hmem⟩)
    · intro htails
      refine ⟨?_, ?_⟩
      · intro o
        rw [hstate, state_recover_false]
        exact (hdiscovered.nested htails).resolve.2 o
      · intro b s hmem
        exact hfalls.2 htails b s (overlapFound_mem_recover_iff.1 hmem).2

/-- The line from 4 passes over the entry 6, whose own line passes over 8. Both end at 10. -/
def straddledEntry : AddressIndex :=
  ofNodup
    [⟨0, some .brbs, "breq", [1, 2], 2, "breq .+2"⟩, ⟨2, some .rjmp, "rjmp", [2], 2, "rjmp .+2"⟩,
      ⟨4, none, "lds", [24, 0x9180], 4, "lds r24, 0x9180"⟩,
      ⟨6, none, "lds", [24, 0], 4, "lds r24, 0x0000"⟩,
      ⟨8, none, "nop", [], 2, "nop"⟩, ⟨10, none, "nop", [], 2, "nop"⟩]
    (by decide)

/-- A split drops the instruction at 8, and relates 4 to 6 although control goes from 4 to 8. -/
theorem not_undamaged_straddledEntry :
    (recover straddledEntry 0 true).result = .ok () ∧
      (recover straddledEntry 0 false).state.toGraph.Covers 8 ∧
      ¬ (recover straddledEntry 0 true).state.toGraph.Covers 8 ∧
      ⟨4, 6⟩ ∈ (recover straddledEntry 0 true).state.relations ∧
      (straddledEntry.lookup? 4).map (·.next) = some 8 ∧ ¬ Undamaged straddledEntry 0 := by
  have hcovered : (recover straddledEntry 0 false).state.toGraph.Covers 8 := by decide +kernel
  have hdropped : ¬ (recover straddledEntry 0 true).state.toGraph.Covers 8 := by decide +kernel
  refine ⟨by decide +kernel, hcovered, hdropped, by decide +kernel, by decide +kernel, ?_⟩
  intro hundamaged
  exact hdropped ((hundamaged.covers_iff 8).2 hcovered)

end Exploration

end AvrFlow
