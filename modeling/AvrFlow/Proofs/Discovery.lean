import AvrFlow.Exploration
import AvrFlow.Proofs.Machine
import Mathlib.Data.List.Nodup

namespace AvrFlow.Exploration

open AddressIndex

variable {index : AddressIndex} {x : Exploration} {t : Target} {work : List Target}
  {roots : List Int}

def Known (x : Exploration) (work : List Target) (o : Int) : Prop :=
  o ∈ x.visited ∨ ∃ t ∈ work, t.entry = o

/-- Some run from a root, begun without open calls, reaches a configuration. -/
def FromRoots (index : AddressIndex) (roots : List Int) (c : Target) : Prop :=
  ∃ root ∈ roots, index.Reaches ⟨root, []⟩ c

def ReturnsToCalls (blocks : List Block) (stack : List Int) : Prop :=
  ∀ back ∈ stack, ∃ b ∈ blocks, Calls b.last ∧ back = b.last.next

structure LeftFor (index : AddressIndex) (roots : List Int) (x : Exploration) (b : Block)
    (stack : List Int) (targets : List Target) : Prop where
  reached : FromRoots index roots ⟨b.firstOffset, stack⟩
  returns : ReturnsToCalls x.blocks stack
  targets_eq : b.last.targets stack = .ok targets
  mem_relations_iff : ∀ o, ⟨b.firstOffset, o⟩ ∈ x.relations ↔ ∃ d ∈ targets, d.entry = o

theorem LeftFor.of_ret {b : Block} {stack : List Int} {targets : List Target}
    (h : LeftFor index roots x b stack targets) (hret : b.last.kind = some .ret) :
    ∃ back outer, stack = back :: outer ∧ targets = [⟨back, outer⟩] := by
  have htargets := h.targets_eq
  cases stack with
  | nil => simp [Instruction.targets, hret] at htargets
  | cons back outer =>
    simp only [Instruction.targets, hret] at htargets
    cases htargets
    exact ⟨back, outer, rfl, rfl⟩

/-- What holds between two visits, with the targets in `work` still to be explored. -/
structure Discovered (index : AddressIndex) (roots : List Int) (x : Exploration)
    (work : List Target) : Prop where
  id_eq : ∀ (k : Nat) (b : Block), x.blocks[k]? = some b → b.id = k
  visited_eq : x.visited = (x.blocks.map (·.firstOffset)).reverse
  nodup : x.visited.Nodup
  walked : ∀ b ∈ x.blocks, index.walk b.firstOffset = .ok b.toRun
  left_for : ∀ b ∈ x.blocks, ∃ stack targets, LeftFor index roots x b stack targets
  source_mem : ∀ r ∈ x.relations, r.source ∈ x.visited
  target_known : ∀ r ∈ x.relations, Known x work r.target
  root_known : ∀ o ∈ roots, Known x work o
  pending : ∀ c ∈ work, FromRoots index roots c ∧ ReturnsToCalls x.blocks c.stack

structure Visit (index : AddressIndex) (x : Exploration) (t : Target) (b : Block)
    (targets : List Target) : Prop where
  walked : index.walk t.entry = .ok b.toRun
  targets_eq : b.last.targets t.stack = .ok targets
  id_eq : b.id = x.blocks.length
  state_eq : (x.visit index t).state =
    ⟨⟨x.blocks ++ [b], addRelations (targets.map fun d => ⟨t.entry, d.entry⟩) x.relations⟩,
      t.entry :: x.visited⟩

theorem visit_ok {b : Block} {targets : List Target}
    (h : (x.visit index t).result = .ok (b, targets)) : Visit index x t b targets := by
  unfold visit at h
  split at h
  · cases h
  · next r hr =>
    dsimp only at h
    split at h
    · cases h
    · next ts hts =>
      cases h
      refine ⟨hr, hts, rfl, ?_⟩
      simp only [visit, hr, nextBlock, hts]
      rfl

theorem id_eq_append {blocks : List Block} {b : Block}
    (h : ∀ (k : Nat) (c : Block), blocks[k]? = some c → c.id = k) (hb : b.id = blocks.length) :
    ∀ (k : Nat) (c : Block), (blocks ++ [b])[k]? = some c → c.id = k := by
  intro k c hc
  rcases lt_or_ge k blocks.length with hk | hk
  · rw [List.getElem?_append_left hk] at hc
    exact h k c hc
  · rw [List.getElem?_append_right hk, List.getElem?_singleton] at hc
    split at hc
    · obtain rfl := Option.some.inj hc
      rw [hb]
      omega
    · cases hc

/-- All that a visit can do to what has been found, whatever its result: without a walk it only
marks its offset, and with one it stores the block and adds relations that leave it. -/
theorem state_visit_cases (index : AddressIndex) (x : Exploration) (t : Target) :
    (x.visit index t).state = x.mark t.entry ∨
      ∃ r added, index.walk t.entry = .ok r ∧ (∀ a ∈ added, a.source = t.entry) ∧
        (x.visit index t).state =
          ⟨⟨x.blocks ++ [x.nextBlock r], addRelations added x.relations⟩,
            t.entry :: x.visited⟩ := by
  unfold visit
  split
  · exact Or.inl rfl
  · next r hr =>
    right
    dsimp only
    split
    · exact ⟨r, [], hr, fun a ha => absurd ha List.not_mem_nil, rfl⟩
    · next targets hts =>
      refine ⟨r, targets.map fun d => ⟨t.entry, d.entry⟩, hr, ?_, rfl⟩
      intro a ha
      obtain ⟨d, -, rfl⟩ := List.mem_map.1 ha
      rfl

/-- What a visit that fails does: it relates nothing, and it keeps the blocks that it found. -/
theorem visit_error {e : GraphError} (h : (x.visit index t).result = .error e) :
    (index.walk t.entry = .error e ∨
      ∃ r, index.walk t.entry = .ok r ∧ r.last.targets t.stack = .error e) ∧
      (x.visit index t).state.relations = x.relations ∧
      x.blocks <+: (x.visit index t).state.blocks := by
  unfold visit at h ⊢
  split at h
  · next e' hw =>
    cases h
    exact ⟨Or.inl hw, rfl, List.prefix_rfl⟩
  · next r hr =>
    dsimp only at h ⊢
    split at h
    · next e' hts =>
      cases h
      exact ⟨Or.inr ⟨r, hr, hts⟩, rfl, List.prefix_append _ _⟩
    · cases h

/-- What holds at the start of an exploration and is kept by passing over a target and by a visit
that succeeds holds at its end, with nothing left to explore, or right before the visit that
fails. -/
theorem explore_invariant {P : Exploration → List Target → Prop}
    (hskip : ∀ x t work, P x (t :: work) → t.entry ∈ x.visited → P x work)
    (hvisit : ∀ x t work b targets, P x (t :: work) → t.entry ∉ x.visited →
      (x.visit index t).result = .ok (b, targets) →
      P (x.visit index t).state ((x.visit index t).state.fresh targets ++ work))
    (h : P x work) :
    (∃ found, (explore index x work).result = .ok found ∧ P (explore index x work).state []) ∨
      ∃ y t rest e, P y (t :: rest) ∧ t.entry ∉ y.visited ∧
        (y.visit index t).result = .error e ∧
        (explore index x work).state = (y.visit index t).state ∧
        (explore index x work).result = .error e := by
  -- Along the recursion of the exploration: only the last case visits an offset and goes on.
  fun_induction explore index x work with
  | case1 x => exact Or.inl ⟨[], rfl, h⟩
  | case2 x t work hmem ih => exact ih (hskip x t work h hmem)
  | case3 x t work hnew o e he => exact Or.inr ⟨x, t, work, e, h, hnew, he, rfl, rfl⟩
  | case4 x t work hnew o b targets hok later ih =>
    rcases ih (hvisit x t work b targets h hnew hok) with
      ⟨found, hfound, hP⟩ | ⟨y, u, rest, e, hP, hu, he, hstate, hresult⟩
    · exact Or.inl ⟨b :: found, by simp only [later, o, hfound]; rfl, hP⟩
    · exact Or.inr ⟨y, u, rest, e, hP, hu, he, hstate, by simp only [later, o, hresult]; rfl⟩

/-- What every visit of a new offset keeps, also one that fails, holds wherever an exploration
ends. -/
theorem state_explore_invariant {P : Exploration → Prop}
    (hvisit : ∀ x t, P x → t.entry ∉ x.visited → P (x.visit index t).state) (h : P x) :
    P (explore index x work).state := by
  rcases explore_invariant (P := fun y _ => P y) (fun _ _ _ hy _ => hy)
    (fun y t _ _ _ hy hnew _ => hvisit y t hy hnew) h with
    ⟨found, -, hend⟩ | ⟨y, t, rest, e, hy, hnew, -, hstate, -⟩
  · exact hend
  · rw [hstate]
    exact hvisit y t hy hnew

theorem ReturnsToCalls.mono {blocks blocks' : List Block} {stack : List Int}
    (h : ReturnsToCalls blocks stack) (hsub : blocks ⊆ blocks') :
    ReturnsToCalls blocks' stack := by
  intro back hback
  obtain ⟨b, hb, hcalls, rfl⟩ := h back hback
  exact ⟨b, hsub hb, hcalls, rfl⟩

theorem Known.of_cons {o : Int} (h : Known x (t :: work) o) (ht : t.entry ∈ x.visited) :
    Known x work o := by
  rcases h with hvisited | ⟨c, hc, rfl⟩
  · exact Or.inl hvisited
  · rcases List.mem_cons.1 hc with rfl | hc
    · exact Or.inl ht
    · exact Or.inr ⟨c, hc, rfl⟩

theorem Known.visited {o : Int} (h : Known x [] o) : o ∈ x.visited := by
  rcases h with hvisited | ⟨t, ht, -⟩
  · exact hvisited
  · exact absurd ht List.not_mem_nil

namespace Visit

variable {b : Block} {targets : List Target}

theorem firstOffset_eq (h : Visit index x t b targets) : b.firstOffset = t.entry :=
  firstOffset_of_walk h.walked

theorem mem_blocks_iff (h : Visit index x t b targets) {c : Block} :
    c ∈ (x.visit index t).state.blocks ↔ c ∈ x.blocks ∨ c = b := by
  rw [h.state_eq, List.mem_append, List.mem_singleton]

theorem subset (h : Visit index x t b targets) :
    x.blocks ⊆ (x.visit index t).state.blocks :=
  fun _ hc => h.mem_blocks_iff.2 (Or.inl hc)

theorem mem_relations_iff (h : Visit index x t b targets) {r : Relation} :
    r ∈ (x.visit index t).state.relations ↔
      (r.source = t.entry ∧ ∃ d ∈ targets, d.entry = r.target) ∨ r ∈ x.relations := by
  obtain ⟨source, target⟩ := r
  rw [h.state_eq, mem_addRelations]
  apply or_congr_left
  simp only [List.mem_map, Relation.mk.injEq]
  grind

theorem known (h : Visit index x t b targets) {o : Int}
    (ho : Known x (t :: work) o ∨ ∃ d ∈ targets, d.entry = o) :
    Known (x.visit index t).state ((x.visit index t).state.fresh targets ++ work) o := by
  have hvisited : (x.visit index t).state.visited = t.entry :: x.visited := visited_visit ..
  rcases ho with (ho | ⟨c, hc, rfl⟩) | ⟨d, hd, rfl⟩
  · left
    rw [hvisited]
    exact List.mem_cons_of_mem _ ho
  · rcases List.mem_cons.1 hc with rfl | hc
    · left
      rw [hvisited]
      exact List.mem_cons_self ..
    · exact Or.inr ⟨c, List.mem_append_right _ hc, rfl⟩
  · by_cases hd' : d.entry ∈ (x.visit index t).state.visited
    · exact Or.inl hd'
    · have hfresh : d ∈ (x.visit index t).state.fresh targets := by simp [fresh, hd, hd']
      exact Or.inr ⟨d, List.mem_append_left _ hfresh, rfl⟩

end Visit

namespace Discovered

theorem mem_visited_iff (h : Discovered index roots x work) {o : Int} :
    o ∈ x.visited ↔ ∃ b ∈ x.blocks, b.firstOffset = o := by
  rw [h.visited_eq, List.mem_reverse, List.mem_map]

theorem entries_eq (h : Discovered index roots x work) :
    x.blocks.map (·.firstOffset) = x.visited.reverse := by
  rw [h.visited_eq, List.reverse_reverse]

theorem entries_nodup (h : Discovered index roots x work) :
    (x.blocks.map (·.firstOffset)).Nodup := by
  rw [h.entries_eq, List.nodup_reverse]
  exact h.nodup

theorem skip (h : Discovered index roots x (t :: work)) (ht : t.entry ∈ x.visited) :
    Discovered index roots x work where
  id_eq := h.id_eq
  visited_eq := h.visited_eq
  nodup := h.nodup
  walked := h.walked
  left_for := h.left_for
  source_mem := h.source_mem
  target_known := fun r hr => (h.target_known r hr).of_cons ht
  root_known := fun o ho => (h.root_known o ho).of_cons ht
  pending := fun c hc => h.pending c (List.mem_cons_of_mem t hc)

/-- The targets of a new block are reached by runs through it, and their return addresses come after
calls that end blocks. -/
theorem pending_targets (h : Discovered index roots x (t :: work)) {b : Block}
    {targets : List Target} (hv : Visit index x t b targets) {d : Target} (hd : d ∈ targets) :
    FromRoots index roots d ∧ ReturnsToCalls (x.visit index t).state.blocks d.stack := by
  obtain ⟨⟨root, hroot, hreach⟩, hreturns⟩ := h.pending t (List.mem_cons_self ..)
  have hreturns := hreturns.mono hv.subset
  have hrun := (trace_of_walk hv.walked hv.targets_eq hd).reaches
  refine ⟨⟨root, hroot, hreach.trans hrun⟩, ?_⟩
  have hstep := (step_last_iff hv.walked hv.targets_eq).2 hd
  rcases hstep.stack_cases with hsame | ⟨i, hi, hcalls, hpush⟩ | hpop
  · exact hsame ▸ hreturns
  · -- The new return address is the one of the block that has just been stored.
    have hlast := (line_of_walk hv.walked).lookup?_mem b.last_mem_instrs
    obtain rfl : i = b.last := Option.some.inj (hi.symm.trans hlast)
    intro back hback
    rw [hpush] at hback
    rcases List.mem_cons.1 hback with rfl | hback
    · exact ⟨b, hv.mem_blocks_iff.2 (Or.inr rfl), hcalls, rfl⟩
    · exact hreturns back hback
  · intro back hback
    exact hreturns back (hpop ▸ List.mem_cons_of_mem _ hback)

theorem leftFor_visit (h : Discovered index roots x (t :: work)) (hnew : t.entry ∉ x.visited)
    {b c : Block} {targets ts : List Target} {stack : List Int} (hv : Visit index x t b targets)
    (hc : c ∈ x.blocks) (hleft : LeftFor index roots x c stack ts) :
    LeftFor index roots (x.visit index t).state c stack ts where
  reached := hleft.reached
  returns := hleft.returns.mono hv.subset
  targets_eq := hleft.targets_eq
  mem_relations_iff := by
    intro o
    have hne : c.firstOffset ≠ t.entry := by
      intro heq
      exact hnew (heq ▸ h.mem_visited_iff.2 ⟨c, hc, rfl⟩)
    rw [hv.mem_relations_iff, ← hleft.mem_relations_iff]
    simp [hne]

theorem leftFor_new (h : Discovered index roots x (t :: work)) (hnew : t.entry ∉ x.visited)
    {b : Block} {targets : List Target} (hv : Visit index x t b targets) :
    LeftFor index roots (x.visit index t).state b t.stack targets := by
  obtain ⟨hreach, hreturns⟩ := h.pending t (List.mem_cons_self ..)
  refine ⟨?_, hreturns.mono hv.subset, hv.targets_eq, ?_⟩
  · rw [hv.firstOffset_eq]
    exact hreach
  · intro o
    have hfresh : ⟨t.entry, o⟩ ∉ x.relations := fun hmem => hnew (h.source_mem _ hmem)
    rw [hv.firstOffset_eq, hv.mem_relations_iff]
    simp [hfresh]

/-- A successful visit of a new offset keeps what holds between visits. -/
theorem visit (h : Discovered index roots x (t :: work)) (hnew : t.entry ∉ x.visited)
    {b : Block} {targets : List Target} (hok : (x.visit index t).result = .ok (b, targets)) :
    Discovered index roots (x.visit index t).state
      ((x.visit index t).state.fresh targets ++ work) := by
  have hv := visit_ok hok
  have hvisited : (x.visit index t).state.visited = t.entry :: x.visited := visited_visit ..
  refine ⟨?_, ?_, ?_, ?_, ?_, ?_, ?_, ?_, ?_⟩
  · rw [hv.state_eq]
    exact id_eq_append h.id_eq hv.id_eq
  · rw [hv.state_eq, h.visited_eq]
    simp [hv.firstOffset_eq]
  · rw [hvisited]
    exact List.nodup_cons.2 ⟨hnew, h.nodup⟩
  · intro c hc
    rcases hv.mem_blocks_iff.1 hc with hc | rfl
    · exact h.walked c hc
    · rw [hv.firstOffset_eq]
      exact hv.walked
  · intro c hc
    rcases hv.mem_blocks_iff.1 hc with hc | rfl
    · obtain ⟨stack, ts, hleft⟩ := h.left_for c hc
      exact ⟨stack, ts, h.leftFor_visit hnew hv hc hleft⟩
    · exact ⟨t.stack, targets, h.leftFor_new hnew hv⟩
  · intro r hr
    rw [hvisited]
    rcases hv.mem_relations_iff.1 hr with ⟨hsource, -⟩ | hr
    · exact hsource ▸ List.mem_cons_self ..
    · exact List.mem_cons_of_mem _ (h.source_mem r hr)
  · intro r hr
    rcases hv.mem_relations_iff.1 hr with ⟨-, htarget⟩ | hr
    · exact hv.known (Or.inr htarget)
    · exact hv.known (Or.inl (h.target_known r hr))
  · intro o ho
    exact hv.known (Or.inl (h.root_known o ho))
  · intro c hc
    rcases List.mem_append.1 hc with hc | hc
    · exact h.pending_targets hv (List.mem_of_mem_filter hc)
    · obtain ⟨hreach, hreturns⟩ := h.pending c (List.mem_cons_of_mem t hc)
      exact ⟨hreach, hreturns.mono hv.subset⟩

end Discovered

theorem discovered_empty (index : AddressIndex) (start : Int) :
    Discovered index [start] empty [⟨start, []⟩] where
  id_eq := fun k b hb => absurd hb (by simp [empty, Graph.empty])
  visited_eq := rfl
  nodup := List.nodup_nil
  walked := fun b hb => absurd hb List.not_mem_nil
  left_for := fun b hb => absurd hb List.not_mem_nil
  source_mem := fun r hr => absurd hr List.not_mem_nil
  target_known := fun r hr => absurd hr List.not_mem_nil
  root_known := fun o ho => Or.inr ⟨⟨start, []⟩, List.mem_singleton_self _,
    (List.mem_singleton.1 ho).symm⟩
  pending := by
    intro c hc
    obtain rfl := List.mem_singleton.1 hc
    exact ⟨⟨start, List.mem_singleton_self _, Relation.ReflTransGen.refl⟩,
      fun back hback => absurd hback List.not_mem_nil⟩

/-- Discovery from a start ends with nothing left to explore, or right after a visit that fails. -/
theorem discover_cases (index : AddressIndex) (start : Int) :
    (∃ found, (empty.discover index start).result = .ok found ∧
      Discovered index [start] (empty.discover index start).state []) ∨
      ∃ y t rest e, Discovered index [start] y (t :: rest) ∧ t.entry ∉ y.visited ∧
        (y.visit index t).result = .error e ∧
        (empty.discover index start).state = (y.visit index t).state ∧
        (empty.discover index start).result = .error e :=
  explore_invariant (fun _ _ _ h ht => h.skip ht) (fun _ _ _ _ _ h hnew hok => h.visit hnew hok)
    (discovered_empty index start)

theorem discovered_of_ok {start : Int} {found : List Block}
    (h : (empty.discover index start).result = .ok found) :
    Discovered index [start] (empty.discover index start).state [] := by
  rcases discover_cases index start with
    ⟨found, -, hdiscovered⟩ | ⟨y, t, rest, e, -, -, -, -, he⟩
  · exact hdiscovered
  · rw [he] at h
    cases h

end AvrFlow.Exploration
