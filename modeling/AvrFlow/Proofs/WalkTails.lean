import AvrFlow.Proofs.Discovery

namespace AvrFlow

namespace AddressIndex

variable {index : AddressIndex} {o : Int} {i j : Instruction} {post : List Instruction} {r : Run}

/-- A walk of more than one instruction goes on as the walk from the second one. -/
theorem walk_second (h : index.walk o = .ok ⟨i, j :: post⟩) :
    index.walk j.offset = .ok ⟨j, post⟩ := by
  revert h
  fun_cases walk index o with
  | case1 | case2 | case3 | case5 =>
    intro h
    cases h
  | case4 k hk hbranch hend hlt =>
    intro h
    obtain ⟨s, hs, hcons⟩ := exists_of_map_eq_ok h
    have hrest : s.instrs = j :: post := congrArg Run.rest hcons
    obtain rfl : s = ⟨j, post⟩ := Option.some.inj (Run.ofList?_eq_some_iff.2 hrest).symm
    have hnext : j.offset = k.next := firstOffset_of_walk hs
    rw [hnext]
    exact hs

/-- From each instruction that a walk passes, the walk is the rest of it. -/
theorem walk_tail {pre : List Instruction} (h : index.walk o = .ok r)
    (heq : r.instrs = pre ++ i :: post) : index.walk i.offset = .ok ⟨i, post⟩ := by
  obtain ⟨first, rest⟩ := r
  rw [Run.instrs] at heq
  dsimp only at heq
  -- Taking off the first instruction leaves a walk from the second one, up to `i`.
  induction pre generalizing o first rest with
  | nil =>
    obtain ⟨hfirst, hrest⟩ := List.cons.inj heq
    subst hfirst hrest
    have hoffset : first.offset = o := firstOffset_of_walk h
    rw [hoffset]
    exact h
  | cons k pre ih =>
    obtain ⟨-, hrest⟩ := List.cons.inj heq
    cases rest with
    | nil => exact absurd hrest (by simp)
    | cons second rest => exact ih second rest (walk_second h) hrest

/-- The offsets that a walk passes are those of the program between its ends, where no instruction
begins inside another one. -/
theorem mem_offsets_walk_iff (hbytes : index.BytesDisjoint) (h : index.walk o = .ok r) {p : Int}
    (hlow : r.firstOffset ≤ p) (hhigh : p ≤ r.lastOffset) :
    p ∈ r.offsets ↔ p ∈ index.offsets := by
  have hline := line_of_walk h
  constructor
  · intro hp
    obtain ⟨i, hi, rfl⟩ := List.mem_map.1 hp
    exact offset_mem_of_lookup? (hline.lookup?_mem hi)
  · intro hp
    obtain ⟨i, hi, rfl⟩ := List.mem_map.1 hp
    rw [firstOffset_of_walk h] at hlow
    exact List.mem_map_of_mem (hline.mem_instrs_of_between hbytes hi hlow hhigh)

end AddressIndex

namespace Exploration

open AddressIndex

variable {index : AddressIndex} {r : Run}

/-- After a walk, the result of a visit is up to the last instruction and the stack. -/
theorem result_visit_of_walk {t : Target} (h : index.walk t.entry = .ok r) (x : Exploration) :
    (x.visit index t).result =
      (r.last.targets t.stack).map fun targets => (x.nextBlock r, targets) := by
  simp only [visit, h]
  cases r.last.targets t.stack <;> rfl

/-- What the walk from an entry says of the walks that begin inside it. Offsets ascend along it, so
each of them marks off one tail. -/
structure WalkTails (index : AddressIndex) (entry : Int) (r : Run) : Prop where
  ascending : r.Ascending
  walked : ∀ pre i post, r.instrs = pre ++ i :: post →
    index.walk i.offset = .ok ⟨i, post⟩ ∧ Run.last ⟨i, post⟩ = r.last
  /-- A visit there finds that tail with the targets that a visit of the entry finds, or fails as
  that does. -/
  visited : ∀ pre i post, r.instrs = pre ++ i :: post → ∀ (x : Exploration) (stack : List Int),
    (x.visit index ⟨i.offset, stack⟩).result =
      (x.visit index ⟨entry, stack⟩).result.map fun found => (x.nextBlock ⟨i, post⟩, found.2)
  /-- Where no instruction begins inside another one, every offset between the ends is passed. -/
  covered : index.BytesDisjoint → ∀ o, r.firstOffset ≤ o → o ≤ r.lastOffset →
    (o ∈ r.offsets ↔ o ∈ index.offsets)

/-- A walk that succeeds settles the walks from all offsets that it passes. -/
theorem walk_walkTails (index : AddressIndex) (entry : Int) (r : Run)
    (h : index.walk entry = .ok r) : WalkTails index entry r := by
  have hlast (pre : List Instruction) (i : Instruction) (post : List Instruction)
      (heq : r.instrs = pre ++ i :: post) : Run.last ⟨i, post⟩ = r.last :=
    Run.last_eq_of_suffix ⟨pre, heq.symm⟩
  refine ⟨ascending_of_walk h, ?_, ?_, ?_⟩
  · intro pre i post heq
    exact ⟨walk_tail h heq, hlast pre i post heq⟩
  · intro pre i post heq x stack
    have htail := result_visit_of_walk (t := ⟨i.offset, stack⟩) (walk_tail h heq) x
    have hwhole := result_visit_of_walk (t := ⟨entry, stack⟩) h x
    rw [htail, hwhole, hlast pre i post heq]
    cases r.last.targets stack <;> rfl
  · intro hbytes o hlow hhigh
    exact mem_offsets_walk_iff hbytes h hlow hhigh

def unevenLine : AddressIndex :=
  ofNodup
    [⟨9, some .ret, "ret", [], 2, "ret"⟩, ⟨0, none, "nop", [], 2, "nop"⟩,
      ⟨2, none, "lds", [24, 256], 4, "lds r24, 256"⟩, ⟨11, some .jmp, "jmp", [2], 4, "jmp 2"⟩,
      ⟨6, none, "pad", [], 3, "pad"⟩]
    (by decide)

theorem walkTails_unevenLine :
    let line : Run := ⟨⟨0, none, "nop", [], 2, "nop"⟩,
      [⟨2, none, "lds", [24, 256], 4, "lds r24, 256"⟩, ⟨6, none, "pad", [], 3, "pad"⟩,
        ⟨9, some .ret, "ret", [], 2, "ret"⟩]⟩
    unevenLine.walk 0 = .ok line ∧ unevenLine.BytesDisjoint ∧
      unevenLine.walk 6 =
        .ok ⟨⟨6, none, "pad", [], 3, "pad"⟩, [⟨9, some .ret, "ret", [], 2, "ret"⟩]⟩ ∧
      (empty.visit unevenLine ⟨6, []⟩).result = .error (.unbalancedReturn 9) ∧
      ∀ o, 0 ≤ o → o ≤ 9 → (o ∈ line.offsets ↔ o ∈ unevenLine.offsets) := by
  intro line
  have hwalk : unevenLine.walk 0 = .ok line := by decide +kernel
  have hbytes : unevenLine.BytesDisjoint := by decide
  have htails := walk_walkTails unevenLine 0 line hwalk
  have hsplit : line.instrs = line.instrs.take 2 ++ ⟨6, none, "pad", [], 3, "pad"⟩ ::
      [⟨9, some .ret, "ret", [], 2, "ret"⟩] := rfl
  have hvisit : (empty.visit unevenLine ⟨0, []⟩).result = .error (.unbalancedReturn 9) := by
    decide +kernel
  refine ⟨hwalk, hbytes, (htails.walked _ _ _ hsplit).1, ?_, htails.covered hbytes⟩
  rw [htails.visited _ _ _ hsplit empty [], hvisit]
  rfl

end Exploration

end AvrFlow
