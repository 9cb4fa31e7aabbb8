import AvrFlow.Walk
import Mathlib.Data.List.Chain

namespace AvrFlow

theorem Instruction.branches_iff {i : Instruction} : i.branches = true ↔ i.kind ≠ none := by
  rw [branches, Option.isSome_iff_ne_none]

namespace Run

def Ascending (r : Run) : Prop :=
  r.instrs.Pairwise fun i j => i.offset < j.offset

instance (r : Run) : Decidable r.Ascending :=
  inferInstanceAs (Decidable (r.instrs.Pairwise _))

theorem Ascending.firstOffset_le {r : Run} (h : r.Ascending) {i : Instruction}
    (hi : i ∈ r.instrs) : r.firstOffset ≤ i.offset := by
  rcases List.mem_cons.1 hi with rfl | hi
  · exact Int.le_refl _
  · exact Int.le_of_lt ((List.pairwise_cons.1 h).1 i hi)

theorem instrs_eq_dropLast_append (r : Run) : r.instrs = r.instrs.dropLast ++ [r.last] :=
  (List.dropLast_append_getLast? r.last r.getLast?_instrs).symm

theorem Ascending.le_lastOffset {r : Run} (h : r.Ascending) {i : Instruction}
    (hi : i ∈ r.instrs) : i.offset ≤ r.lastOffset := by
  rw [Ascending, instrs_eq_dropLast_append] at h
  rw [instrs_eq_dropLast_append] at hi
  rcases List.mem_append.1 hi with hi | hi
  · exact Int.le_of_lt ((List.pairwise_append.1 h).2.2 i hi r.last (List.mem_singleton_self _))
  · rw [List.mem_singleton.1 hi]
    exact Int.le_refl _

theorem first_mem_instrs (r : Run) : r.first ∈ r.instrs :=
  List.mem_cons_self ..

theorem Ascending.firstOffset_le_lastOffset {r : Run} (h : r.Ascending) :
    r.firstOffset ≤ r.lastOffset :=
  h.le_lastOffset r.first_mem_instrs

theorem last_eq_of_suffix {r s : Run} (h : s.instrs <:+ r.instrs) : s.last = r.last := by
  obtain ⟨pre, hpre⟩ := h
  have hlast := r.getLast?_instrs
  rw [← hpre, List.getLast?_append, s.getLast?_instrs] at hlast
  exact Option.some.inj hlast

theorem filter_below_of_lt {r : Run} {o : Int} (h : r.firstOffset < o) :
    r.instrs.filter (·.offset < o) = r.first :: r.rest.filter (·.offset < o) :=
  List.filter_cons_of_pos (decide_eq_true h)

theorem Ascending.filter_below {r : Run} (h : r.Ascending) (o : Int) :
    r.instrs.filter (·.offset < o) <+: r.instrs := by
  rw [Ascending] at h
  generalize r.instrs = is at h
  induction is with
  | nil => exact List.prefix_rfl
  | cons i is ih =>
    obtain ⟨hi, his⟩ := List.pairwise_cons.1 h
    by_cases hlt : i.offset < o
    · rw [List.filter_cons_of_pos (by simpa using hlt)]
      exact (List.prefix_cons_inj i).2 (ih his)
    · -- Once an offset is not below `o`, no later one is.
      have hnone : is.filter (·.offset < o) = [] := by
        apply List.filter_eq_nil_iff.2
        intro j hj
        have := hi j hj
        simp only [decide_eq_true_eq]
        omega
      rw [List.filter_cons_of_neg (by simpa using hlt), hnone]
      exact List.nil_prefix

end Run

namespace AddressIndex

/-- No instruction begins strictly inside the bytes of another one. -/
def BytesDisjoint (index : AddressIndex) : Prop :=
  ∀ i ∈ index.instrs, ∀ j ∈ index.instrs, ¬ (i.offset < j.offset ∧ j.offset < i.next)

instance (index : AddressIndex) : Decidable index.BytesDisjoint :=
  inferInstanceAs (Decidable (∀ i ∈ index.instrs, ∀ j ∈ index.instrs, _))

def Stops (index : AddressIndex) (leaders : List Int) (i : Instruction) : Prop :=
  i.kind ≠ none ∨ i.next ∈ leaders ∨ index.highest < i.next

/-- The line from an offset, cut after the first instruction that stops it. -/
inductive Line (index : AddressIndex) (leaders : List Int) : Int → List Instruction → Prop where
  | last {o : Int} {i : Instruction} (hi : index.lookup? o = some i)
      (hstop : index.Stops leaders i) : Line index leaders o [i]
  | cons {o : Int} {i : Instruction} {is : List Instruction} (hi : index.lookup? o = some i)
      (hgo : ¬ index.Stops leaders i) (hrest : Line index leaders i.next is) :
      Line index leaders o (i :: is)

variable {index : AddressIndex} {leaders : List Int} {o a t : Int} {i j : Instruction}
  {is js : List Instruction}

theorem lookup?_of_mem (h : i ∈ index.instrs) : index.lookup? i.offset = some i := by
  rw [lookup?_eq_find?]
  have hnodup := index.nodup
  generalize index.instrs = is at h hnodup
  induction is with
  | nil => exact absurd h (by simp)
  | cons j is ih =>
    obtain ⟨hj, hnodup⟩ := List.nodup_cons.1 hnodup
    rcases List.mem_cons.1 h with rfl | h
    · simp
    · have hne : j.offset ≠ i.offset := fun heq => hj (List.mem_map.2 ⟨i, h, heq.symm⟩)
      rw [List.find?_cons_of_neg (by simpa using hne), ih h hnodup]

theorem not_stops_iff :
    ¬ index.Stops leaders i ↔ i.kind = none ∧ i.next ∉ leaders ∧ i.next ≤ index.highest := by
  simp [Stops, not_or]

/-- A walk finds the line without leaders. -/
theorem line_of_walk {r : Run} (h : index.walk o = .ok r) : index.Line [] o r.instrs := by
  fun_induction walk index o generalizing r with
  | case1 | case5 => cases h
  | case2 o i hi hbranch =>
    cases h
    exact Line.last hi (Or.inl (Instruction.branches_iff.1 hbranch))
  | case3 o i hi hbranch hend =>
    cases h
    exact Line.last hi (Or.inr (Or.inr hend))
  | case4 o i hi hbranch hend hlt ih =>
    obtain ⟨s, hs, rfl⟩ := exists_of_map_eq_ok h
    have hkind : i.kind = none := not_ne_iff.1 (mt Instruction.branches_iff.2 hbranch)
    rw [Run.instrs_cons]
    exact Line.cons hi (not_stops_iff.2 ⟨hkind, List.not_mem_nil, by omega⟩) (ih hs)

theorem firstOffset_of_walk {r : Run} (h : index.walk o = .ok r) : r.firstOffset = o :=
  offset_of_lookup? (lookup?_of_walk h)

theorem ascending_of_walk {r : Run} (h : index.walk o = .ok r) : r.Ascending := by
  fun_induction walk index o generalizing r with
  | case1 | case5 => cases h
  | case2 | case3 =>
    cases h
    exact List.pairwise_singleton ..
  | case4 o i hi hbranch hend hlt ih =>
    obtain ⟨s, hs, rfl⟩ := exists_of_map_eq_ok h
    have hfirst : s.first.offset = i.next := firstOffset_of_walk hs
    have hi := offset_of_lookup? hi
    -- The rest of the walk begins right after this instruction and ascends from there.
    rw [Run.Ascending, Run.instrs_cons]
    apply List.pairwise_cons.2
    refine ⟨?_, ih hs⟩
    intro j hj
    rcases List.mem_cons.1 hj with rfl | hj
    · omega
    · have := (List.pairwise_cons.1 (ih hs)).1 j hj
      omega

namespace Line

theorem ne_nil (h : index.Line leaders o is) : is ≠ [] := by
  cases h <;> simp

theorem lookup?_head (h : index.Line leaders o (i :: is)) : index.lookup? o = some i := by
  cases h <;> assumption

theorem offset_head (h : index.Line leaders o (i :: is)) : i.offset = o :=
  offset_of_lookup? h.lookup?_head

theorem lookup?_mem (h : index.Line leaders o is) (hi : i ∈ is) :
    index.lookup? i.offset = some i := by
  induction h with
  | last hj =>
    obtain rfl := List.mem_singleton.1 hi
    exact (offset_of_lookup? hj).symm ▸ hj
  | cons hj _ _ ih =>
    rcases List.mem_cons.1 hi with rfl | hi
    · exact (offset_of_lookup? hj).symm ▸ hj
    · exact ih hi

theorem suffix {pre : List Instruction} (h : index.Line leaders o (pre ++ i :: is)) :
    index.Line leaders i.offset (i :: is) := by
  induction pre generalizing o with
  | nil => exact h.offset_head.symm ▸ h
  | cons k pre ih =>
    cases hpre : pre ++ i :: is with
    | nil => exact absurd hpre (by simp)
    | cons k' rest =>
      rw [List.cons_append, hpre] at h
      cases h with
      | cons _ _ hrest => exact ih (hpre ▸ hrest)

/-- The line with other leaders is cut after the first instruction that stops it. -/
theorem cut {leaders' : List Int} {pre : List Instruction}
    (h : index.Line leaders o (pre ++ i :: is)) (hgo : ∀ j ∈ pre, ¬ index.Stops leaders' j)
    (hstop : index.Stops leaders' i) : index.Line leaders' o (pre ++ [i]) := by
  induction pre generalizing o with
  | nil => exact Line.last h.lookup?_head hstop
  | cons k pre ih =>
    cases hpre : pre ++ i :: is with
    | nil => exact absurd hpre (by simp)
    | cons k' rest =>
      rw [List.cons_append, hpre] at h
      cases h with
      | cons hk _ hrest =>
        have hpre' := ih (hpre ▸ hrest) fun j hj => hgo j (List.mem_cons_of_mem k hj)
        exact Line.cons hk (hgo k (List.mem_cons_self ..)) hpre'

theorem leads_on {pre : List Instruction} (h : index.Line leaders o (pre ++ i :: j :: is)) :
    ¬ index.Stops leaders i ∧ j.offset = i.next := by
  cases h.suffix with
  | cons _ hgo hrest => exact ⟨hgo, hrest.offset_head⟩

theorem next_last {r : Run} (h : index.Line leaders o (r.instrs ++ j :: is)) :
    j.offset = r.last.next := by
  rw [r.instrs_eq_dropLast_append, List.append_assoc, List.singleton_append] at h
  exact h.leads_on.2

theorem stops_last {pre : List Instruction} (h : index.Line leaders o (pre ++ [i])) :
    index.Stops leaders i := by
  cases h.suffix with
  | last _ hstop => exact hstop
  | cons _ _ hrest => exact absurd rfl hrest.ne_nil

theorem exists_next (h : index.Line leaders o is) (hi : i ∈ is) (hgo : ¬ index.Stops leaders i) :
    ∃ pre j post, is = pre ++ i :: j :: post ∧ j.offset = i.next := by
  obtain ⟨pre, post, rfl⟩ := List.append_of_mem hi
  cases post with
  | nil => exact absurd h.stops_last hgo
  | cons j post => exact ⟨pre, j, post, rfl, h.leads_on.2⟩

theorem pair_infix_of_mem (h : index.Line leaders o is) (hi : i ∈ is)
    (hgo : ¬ index.Stops leaders i) : [i.offset, i.next] <:+: is.map (·.offset) := by
  obtain ⟨pre, j, post, rfl, hnext⟩ := h.exists_next hi hgo
  rw [← hnext]
  exact ⟨pre.map (·.offset), post.map (·.offset), by simp⟩

theorem exists_of_pair_infix (h : index.Line leaders o is) (hpair : [a, t] <:+: is.map (·.offset)) :
    ∃ i ∈ is, i.offset = a ∧ ¬ index.Stops leaders i ∧ i.next = t := by
  obtain ⟨before, after, heq⟩ := hpair
  rw [List.append_assoc, eq_comm, List.map_eq_append_iff] at heq
  obtain ⟨pre, rest, rfl, -, hrest⟩ := heq
  obtain ⟨i, rest', rfl, rfl, hrest'⟩ := List.map_eq_cons_iff.1 hrest
  obtain ⟨j, rest'', rfl, rfl, -⟩ := List.map_eq_cons_iff.1 hrest'
  obtain ⟨hgo, hnext⟩ := h.leads_on
  exact ⟨i, by simp, rfl, hgo, hnext.symm⟩

theorem eq_of_offset_eq {leaders' : List Int} {o' : Int} (h : index.Line leaders o is)
    (h' : index.Line leaders' o' js) (hi : i ∈ is) (hj : j ∈ js) (heq : i.offset = j.offset) :
    i = j :=
  Option.some.inj ((h.lookup?_mem hi).symm.trans (heq ▸ h'.lookup?_mem hj))

theorem unique (h : index.Line leaders o is) (h' : index.Line leaders o js) : is = js := by
  induction h generalizing js with
  | last hi hstop =>
    cases h' with
    | last hi' _ => rw [Option.some.inj (hi.symm.trans hi')]
    | cons hi' hgo _ => exact absurd (Option.some.inj (hi.symm.trans hi') ▸ hstop) hgo
  | cons hi hgo _ ih =>
    cases h' with
    | last hi' hstop => exact absurd hstop (Option.some.inj (hi.symm.trans hi') ▸ hgo)
    | cons hi' _ hrest =>
      obtain rfl := Option.some.inj (hi.symm.trans hi')
      rw [ih hrest]

theorem isChain (h : index.Line leaders o is) : is.IsChain fun i j => j.offset = i.next := by
  induction h with
  | last => exact List.isChain_singleton _
  | @cons _ i is _ _ hrest ih =>
    cases is with
    | nil => exact List.isChain_singleton _
    | cons j is => exact List.isChain_cons_cons.2 ⟨hrest.offset_head, ih⟩

/-- Where no instruction begins inside another one, a line passes over none between its ends. -/
theorem mem_of_between (hbytes : index.BytesDisjoint) (h : index.Line leaders o is)
    (hj : j ∈ index.instrs) (hlow : o ≤ j.offset)
    (hhigh : ∀ i, is.getLast? = some i → j.offset ≤ i.offset) : j ∈ is := by
  have hsame {o : Int} {i : Instruction} (hi : index.lookup? o = some i) (heq : j.offset = o) :
      j = i := Option.some.inj ((lookup?_of_mem hj).symm.trans (heq ▸ hi))
  induction h with
  | @last o i hi hstop =>
    have := hhigh i rfl
    have := offset_of_lookup? hi
    exact List.mem_singleton.2 (hsame hi (by omega))
  | @cons o i is hi hgo hrest ih =>
    rcases eq_or_ne j.offset o with heq | hne
    · exact List.mem_cons.2 (Or.inl (hsame hi heq))
    · -- `j` does not begin inside `i`, so it stands at or after the next offset.
      have hinside := hbytes i (mem_of_lookup? hi) j hj
      have := offset_of_lookup? hi
      apply List.mem_cons_of_mem i
      apply ih (by omega)
      intro k hk
      apply hhigh k
      rw [List.getLast?_cons, hk]
      rfl

theorem mem_instrs_of_between {r : Run} (hbytes : index.BytesDisjoint)
    (h : index.Line leaders o r.instrs) (hj : j ∈ index.instrs) (hlow : o ≤ j.offset)
    (hhigh : j.offset ≤ r.lastOffset) : j ∈ r.instrs := by
  apply h.mem_of_between hbytes hj hlow
  intro i hi
  obtain rfl := Option.some.inj (r.getLast?_instrs.symm.trans hi)
  exact hhigh

/-- Where no instruction begins inside another one, a line that begins within another line is a
tail of it. -/
theorem suffix_of_between {r s : Run} {e : Int} (hbytes : index.BytesDisjoint)
    (hr : index.Line leaders o r.instrs) (hs : index.Line leaders e s.instrs) (hlow : o ≤ e)
    (hhigh : e ≤ r.lastOffset) : s.instrs <:+ r.instrs := by
  have hfirst : s.first.offset = e := hs.offset_head
  have hmem : s.first ∈ r.instrs := by
    apply hr.mem_instrs_of_between hbytes
    · exact mem_of_lookup? (hs.lookup?_mem s.first_mem_instrs)
    · omega
    · omega
  obtain ⟨pre, post, heq⟩ := List.append_of_mem hmem
  rw [heq] at hr ⊢
  rw [hs.unique (hfirst ▸ hr.suffix)]
  exact List.suffix_append _ _

theorem last_eq {r : Run} (h : index.Line leaders o r.instrs) (hi : i ∈ r.instrs)
    (hstop : index.Stops leaders i) : r.last = i := by
  obtain ⟨pre, post, heq⟩ := List.append_of_mem hi
  cases post with
  | nil =>
    have hlast := r.getLast?_instrs
    rw [heq] at hlast
    simpa using hlast.symm
  | cons j post =>
    rw [heq] at h
    exact absurd hstop h.leads_on.1

end Line

end AddressIndex

end AvrFlow
