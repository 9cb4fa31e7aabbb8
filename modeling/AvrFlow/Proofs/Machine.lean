import AvrFlow.Successor
import AvrFlow.Proofs.StraightLine
import Mathlib.Logic.Relation

/-!
A machine that executes one instruction at a time. A configuration is the offset that control has
reached and the return addresses of the open calls, innermost first. A conditional branch may go
either way; after an instruction that does not branch the machine halts past the highest offset.
-/

namespace AvrFlow.AddressIndex

inductive Step (index : AddressIndex) : Target → Target → Prop where
  | fall {o : Int} {s : List Int} {i : Instruction} (hi : index.lookup? o = some i)
      (hkind : i.kind = none) (hend : i.next ≤ index.highest) : Step index ⟨o, s⟩ ⟨i.next, s⟩
  | jmp {o v : Int} {s : List Int} {i : Instruction} (hi : index.lookup? o = some i)
      (hkind : i.kind = some .jmp) (hv : i.operands[0]? = some v) : Step index ⟨o, s⟩ ⟨v, s⟩
  | rjmp {o v : Int} {s : List Int} {i : Instruction} (hi : index.lookup? o = some i)
      (hkind : i.kind = some .rjmp) (hv : i.operands[0]? = some v) :
      Step index ⟨o, s⟩ ⟨i.next + v, s⟩
  | taken {o v : Int} {s : List Int} {i : Instruction} (hi : index.lookup? o = some i)
      (hkind : i.kind = some .brbs ∨ i.kind = some .brbc) (hv : i.operands[1]? = some v) :
      Step index ⟨o, s⟩ ⟨i.next + v, s⟩
  | passed {o v : Int} {s : List Int} {i : Instruction} (hi : index.lookup? o = some i)
      (hkind : i.kind = some .brbs ∨ i.kind = some .brbc) (hv : i.operands[1]? = some v) :
      Step index ⟨o, s⟩ ⟨i.next, s⟩
  | call {o v : Int} {s : List Int} {i : Instruction} (hi : index.lookup? o = some i)
      (hkind : i.kind = some .call) (hv : i.operands[0]? = some v) :
      Step index ⟨o, s⟩ ⟨v, i.next :: s⟩
  | rcall {o v : Int} {s : List Int} {i : Instruction} (hi : index.lookup? o = some i)
      (hkind : i.kind = some .rcall) (hv : i.operands[0]? = some v) :
      Step index ⟨o, s⟩ ⟨i.next + v, i.next :: s⟩
  | ret {o back : Int} {s : List Int} {i : Instruction} (hi : index.lookup? o = some i)
      (hkind : i.kind = some .ret) : Step index ⟨o, back :: s⟩ ⟨back, s⟩

def Reaches (index : AddressIndex) : Target → Target → Prop :=
  Relation.ReflTransGen index.Step

inductive Trace (index : AddressIndex) : Target → List Instruction → Target → Prop where
  | nil (c : Target) : Trace index c [] c
  | cons {c d e : Target} {i : Instruction} {is : List Instruction}
      (hi : index.lookup? c.entry = some i) (hstep : index.Step c d) (hrest : Trace index d is e) :
      Trace index c (i :: is) e

def Calls (i : Instruction) : Prop :=
  i.kind = some .call ∨ i.kind = some .rcall

/-- A call made over the return addresses in `base` is open as long as its own return address stays
on the stack above them. -/
inductive OpenCall (index : AddressIndex) (call : Instruction) (base : List Int) :
    Target → Prop where
  | entered {callee : Int} (hi : index.lookup? call.offset = some call) (hcalls : Calls call)
      (hstep : index.Step ⟨call.offset, base⟩ ⟨callee, call.next :: base⟩) :
      OpenCall index call base ⟨callee, call.next :: base⟩
  | kept {c d : Target} (hopen : OpenCall index call base c) (hstep : index.Step c d)
      (hkept : call.next :: base <:+ d.stack) : OpenCall index call base d

variable {index : AddressIndex} {leaders : List Int} {c d e : Target} {o : Int}
  {i : Instruction} {is js pre : List Instruction}

theorem Trace.append (h : index.Trace c is d) (h' : index.Trace d js e) :
    index.Trace c (is ++ js) e := by
  induction h with
  | nil => exact h'
  | cons hi hstep _ ih => exact Trace.cons hi hstep (ih h')

theorem Trace.reaches (h : index.Trace c is d) : index.Reaches c d := by
  induction h with
  | nil => exact Relation.ReflTransGen.refl
  | cons _ hstep _ ih => exact Relation.ReflTransGen.head hstep ih

/-- What a step does to the stack: nothing, or it pushes the return address of a call, or it takes
off the innermost return address. -/
theorem Step.stack_cases (h : index.Step c d) :
    d.stack = c.stack ∨
      (∃ i, index.lookup? c.entry = some i ∧ Calls i ∧ d.stack = i.next :: c.stack) ∨
      c.stack = d.entry :: d.stack := by
  cases h with
  | fall | jmp | rjmp | taken | passed => exact Or.inl rfl
  | call hi hkind hv => exact Or.inr (Or.inl ⟨_, hi, Or.inl hkind, rfl⟩)
  | rcall hi hkind hv => exact Or.inr (Or.inl ⟨_, hi, Or.inr hkind, rfl⟩)
  | ret => exact Or.inr (Or.inr rfl)

/-- Every return address on the stack of a run that began without open calls was pushed by a call
that is still open. The run may be one of a smaller step relation. -/
theorem exists_openCall {next : Target → Target → Prop} (hnext : ∀ c d, next c d → index.Step c d)
    {start back : Int} {base : List Int} (h : Relation.ReflTransGen next ⟨start, []⟩ c)
    (hstack : back :: base <:+ c.stack) :
    ∃ call, call.next = back ∧ Relation.ReflTransGen next ⟨start, []⟩ ⟨call.offset, base⟩ ∧
      index.OpenCall call base c := by
  induction h with
  | refl => exact absurd hstack (by simp)
  | @tail c d hreach hstep ih =>
    have hstep' := hnext c d hstep
    -- A return address that was on the stack before the step has its call still open.
    have hkept (hold : back :: base <:+ c.stack) :
        ∃ call, call.next = back ∧ Relation.ReflTransGen next ⟨start, []⟩ ⟨call.offset, base⟩ ∧
          index.OpenCall call base d := by
      obtain ⟨call, rfl, hcall, hopen⟩ := ih hold
      exact ⟨call, rfl, hcall, hopen.kept hstep' hstack⟩
    rcases hstep'.stack_cases with hsame | ⟨i, hi, hcalls, hpush⟩ | hpop
    · exact hkept (hsame ▸ hstack)
    · rw [hpush] at hstack
      rcases List.suffix_cons_iff.1 hstack with heq | hold
      · obtain ⟨rfl, rfl⟩ := List.cons.inj heq
        obtain ⟨o, base⟩ := c
        obtain rfl : i.offset = o := offset_of_lookup? hi
        obtain ⟨callee, stack⟩ := d
        obtain rfl : stack = i.next :: base := hpush
        exact ⟨i, rfl, hreach, OpenCall.entered hi hcalls hstep'⟩
      · exact hkept hold
    · exact hkept (hpop ▸ hstack.trans (List.suffix_cons _ _))

theorem operand_eq_ok_iff {n : Nat} {v : Int} :
    i.operand n = .ok v ↔ i.operands[n]? = some v := by
  unfold Instruction.operand
  split <;> simp [*]

/-- The targets of an instruction that branches are where the machine goes from it. -/
theorem step_iff_mem_targets {ts : List Target} (hi : index.lookup? c.entry = some i)
    (hkind : i.kind ≠ none) (hts : i.targets c.stack = .ok ts) : index.Step c d ↔ d ∈ ts := by
  obtain ⟨o, s⟩ := c
  have hsame {j : Instruction} (hj : index.lookup? o = some j) : j = i :=
    Option.some.inj (hj.symm.trans hi)
  constructor
  · intro hstep
    cases hstep with
    | fall hj hnone => exact absurd (hsame hj ▸ hnone) hkind
    | jmp hj hk hv | rjmp hj hk hv | call hj hk hv | rcall hj hk hv =>
      obtain rfl := hsame hj
      simp only [Instruction.targets, hk, operand_eq_ok_iff.2 hv] at hts
      cases hts
      simp
    | taken hj hk hv | passed hj hk hv =>
      obtain rfl := hsame hj
      rcases hk with hk | hk <;>
      · simp only [Instruction.targets, hk, operand_eq_ok_iff.2 hv] at hts
        cases hts
        simp
    | ret hj hk =>
      obtain rfl := hsame hj
      rw [Instruction.targets, hk] at hts
      cases hts
      simp
  · intro hmem
    unfold Instruction.targets at hts
    split at hts
    case h_1 hnone => exact absurd hnone hkind
    case h_8 hk =>
      cases s with
      | nil => cases hts
      | cons back s =>
        cases hts
        rw [List.mem_singleton.1 hmem]
        exact Step.ret hi hk
    case h_9 => cases hts
    all_goals
      next hk =>
      obtain ⟨v, hv, rfl⟩ := exists_of_map_eq_ok hts
      rw [operand_eq_ok_iff] at hv
      simp only [List.mem_cons, List.not_mem_nil, or_false] at hmem
      grind [Step]

theorem step_iff_of_kind_none {s : List Int} (hi : index.lookup? o = some i)
    (hkind : i.kind = none) :
    index.Step ⟨o, s⟩ d ↔ d = ⟨i.next, s⟩ ∧ i.next ≤ index.highest := by
  constructor
  · intro hstep
    have hsame {j : Instruction} (hj : index.lookup? o = some j) : j.kind = none :=
      Option.some.inj (hi.symm.trans hj) ▸ hkind
    cases hstep with
    | fall hj hk hend =>
      obtain rfl := Option.some.inj (hi.symm.trans hj)
      exact ⟨rfl, hend⟩
    | jmp hj hk | rjmp hj hk | call hj hk | rcall hj hk | ret hj hk | taken hj hk | passed hj hk =>
      simp [hsame hj] at hk
  · intro hfall
    obtain ⟨rfl, hend⟩ := hfall
    exact Step.fall hi hkind hend

theorem step_iff_of_kind_ret {s : List Int} (hi : index.lookup? o = some i)
    (hkind : i.kind = some .ret) : index.Step ⟨o, s⟩ d ↔ s = d.entry :: d.stack := by
  constructor
  · intro hstep
    have hsame {j : Instruction} (hj : index.lookup? o = some j) : j.kind = some .ret :=
      Option.some.inj (hi.symm.trans hj) ▸ hkind
    cases hstep with
    | ret => rfl
    | fall hj hk | jmp hj hk | rjmp hj hk | call hj hk | rcall hj hk | taken hj hk | passed hj hk =>
      simp [hsame hj] at hk
  · intro heq
    subst heq
    exact Step.ret hi hkind

theorem Step.any_stack {t : Int} {s u : List Int} (h : index.Step ⟨o, s⟩ ⟨t, u⟩)
    (hi : index.lookup? o = some i) (hkind : i.kind ≠ some .ret) (s' : List Int) :
    ∃ u', index.Step ⟨o, s'⟩ ⟨t, u'⟩ := by
  cases h with
  | fall hj hk hend => exact ⟨_, Step.fall hj hk hend⟩
  | jmp hj hk hv => exact ⟨_, Step.jmp hj hk hv⟩
  | rjmp hj hk hv => exact ⟨_, Step.rjmp hj hk hv⟩
  | taken hj hk hv => exact ⟨_, Step.taken hj hk hv⟩
  | passed hj hk hv => exact ⟨_, Step.passed hj hk hv⟩
  | call hj hk hv => exact ⟨_, Step.call hj hk hv⟩
  | rcall hj hk hv => exact ⟨_, Step.rcall hj hk hv⟩
  | ret hj hk => exact absurd (Option.some.inj (hi.symm.trans hj) ▸ hk) hkind

theorem targets_any_stack {s : List Int} {ts : List Target} (h : i.targets s = .ok ts)
    (hkind : i.kind ≠ some .ret) (s' : List Int) : ∃ ts', i.targets s' = .ok ts' := by
  unfold Instruction.targets at h ⊢
  split at h
  case h_1 => exact ⟨_, rfl⟩
  case h_8 hk => exact absurd hk hkind
  case h_9 => cases h
  all_goals
    obtain ⟨v, hv, -⟩ := exists_of_map_eq_ok h
    exact ⟨_, by rw [hv]; rfl⟩

theorem targets_error {stack : List Int} {e : GraphError} (h : i.targets stack = .error e) :
    (e = .unbalancedReturn i.offset ∧ i.kind = some .ret ∧ stack = []) ∨ e = .missingOperand ∨
      ∃ name, e = .unknownKind name := by
  have hoperand {n : Nat} {f : Int → List Target} (h : (i.operand n).map f = .error e) :
      e = .missingOperand := by
    unfold Instruction.operand at h
    split at h
    · cases h
    · cases h
      rfl
  unfold Instruction.targets at h
  split at h
  case h_1 => cases h
  case h_8 hk =>
    cases stack with
    | nil =>
      cases h
      exact Or.inl ⟨rfl, hk, rfl⟩
    | cons back outer => cases h
  case h_9 name hk =>
    cases h
    exact Or.inr (Or.inr ⟨name, rfl⟩)
  all_goals exact Or.inr (Or.inl (hoperand h))

/-- The machine runs along a line up to each of its instructions, whatever the stack. -/
theorem Line.trace (h : index.Line leaders o (pre ++ i :: is)) (s : List Int) :
    index.Trace ⟨o, s⟩ pre ⟨i.offset, s⟩ := by
  induction pre generalizing o with
  | nil => exact h.offset_head ▸ Trace.nil _
  | cons j pre ih =>
    cases hpre : pre ++ i :: is with
    | nil => exact absurd hpre (by simp)
    | cons k rest =>
      rw [List.cons_append, hpre] at h
      cases h with
      | cons hj hgo hrest =>
        obtain ⟨hkind, -, hend⟩ := not_stops_iff.1 hgo
        exact Trace.cons hj (Step.fall hj hkind hend) (ih (hpre ▸ hrest))

theorem Line.reaches_mem (h : index.Line leaders o is) (hi : i ∈ is) (s : List Int) :
    index.Reaches ⟨o, s⟩ ⟨i.offset, s⟩ := by
  obtain ⟨pre, post, rfl⟩ := List.append_of_mem hi
  exact (h.trace s).reaches

theorem step_last_iff {r : Run} {s : List Int} {ts : List Target}
    (hwalk : index.walk o = .ok r) (hts : r.last.targets s = .ok ts) :
    index.Step ⟨r.last.offset, s⟩ d ↔ d ∈ ts := by
  have hline := line_of_walk hwalk
  have hlast := hline.lookup?_mem r.last_mem_instrs
  by_cases hkind : r.last.kind = none
  · simp only [Instruction.targets, hkind] at hts
    cases hts
    -- A walk that does not end in a branch ends where nothing can follow, and the machine halts.
    refine iff_of_false (fun hstep => ?_) List.not_mem_nil
    obtain ⟨-, hend⟩ := (step_iff_of_kind_none hlast hkind).1 hstep
    rw [r.instrs_eq_dropLast_append] at hline
    exact not_stops_iff.2 ⟨hkind, List.not_mem_nil, hend⟩ hline.stops_last
  · exact step_iff_mem_targets (c := ⟨r.last.offset, s⟩) hlast hkind hts

theorem trace_of_walk {r : Run} {s : List Int} {ts : List Target}
    (hwalk : index.walk o = .ok r) (hts : r.last.targets s = .ok ts) (hd : d ∈ ts) :
    index.Trace ⟨o, s⟩ r.instrs d := by
  have hline := line_of_walk hwalk
  rw [r.instrs_eq_dropLast_append] at hline ⊢
  have hlast := hline.lookup?_mem (List.mem_append_right _ (List.mem_singleton_self r.last))
  exact (hline.trace s).append
    (Trace.cons hlast ((step_last_iff hwalk hts).2 hd) (Trace.nil d))

/-- A walk fails where the machine meets an offset without an instruction, or else at an instruction
that does not lead on to a later offset. -/
theorem walk_error {e : GraphError} (h : index.walk o = .error e) (s : List Int) :
    (∃ m, e = .missingInstruction m ∧ index.lookup? m = none ∧ index.Reaches ⟨o, s⟩ ⟨m, s⟩) ∨
      ∃ m, e = .stalled m := by
  fun_induction walk index o with
  | case1 o hnone =>
    cases h
    exact Or.inl ⟨o, rfl, hnone, Relation.ReflTransGen.refl⟩
  | case2 | case3 => cases h
  | case4 o i hi hbranch hend hlt ih =>
    have hkind : i.kind = none := not_ne_iff.1 (mt Instruction.branches_iff.2 hbranch)
    have hfall : index.Step ⟨o, s⟩ ⟨i.next, s⟩ := Step.fall hi hkind (by omega)
    rcases ih (eq_error_of_map_eq_error h) with ⟨m, rfl, hnone, hreach⟩ | hstalled
    · exact Or.inl ⟨m, rfl, hnone, hreach.head hfall⟩
    · exact Or.inr hstalled
  | case5 o =>
    cases h
    exact Or.inr ⟨o, rfl⟩

end AvrFlow.AddressIndex
