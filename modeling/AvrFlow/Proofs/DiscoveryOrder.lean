import AvrFlow.Proofs.Alike
import AvrFlow.Proofs.WellFormed

/-!
Discoveries in any order. Without returns, where control goes after a block does not depend on the
calls that are open. What a row of discoveries finds is then settled by its entries alone: they
visit what can be reached from one of them, and succeed if a block can be walked from every such
offset and left. So entries in another order give the same graph up to the numbers of its blocks,
and so do the repairs after them.
-/

namespace AvrFlow

open AddressIndex

namespace AddressIndex

variable {index : AddressIndex} {o t : Int} {i : Instruction} {r : Run} {s : List Int}
  {ts : List Target} {roots roots' : List Int}

def NoReturns (index : AddressIndex) : Prop :=
  ∀ i ∈ index.instrs, i.kind ≠ some .ret

instance (index : AddressIndex) : Decidable index.NoReturns :=
  inferInstanceAs (Decidable (∀ i ∈ index.instrs, _))

def Walkable (index : AddressIndex) (o : Int) : Prop :=
  ∃ r ts, index.walk o = .ok r ∧ r.last.targets [] = .ok ts

def LeadsTo (index : AddressIndex) (o t : Int) : Prop :=
  ∃ r ts, index.walk o = .ok r ∧ r.last.targets [] = .ok ts ∧ ∃ d ∈ ts, d.entry = t

def Reached (index : AddressIndex) (roots : List Int) (o : Int) : Prop :=
  ∃ root ∈ roots, Relation.ReflTransGen index.LeadsTo root o

theorem Reached.mono (hsub : roots ⊆ roots') (h : index.Reached roots o) :
    index.Reached roots' o := by
  obtain ⟨root, hroot, hreach⟩ := h
  exact ⟨root, hsub hroot, hreach⟩

theorem Reached.tail (h : index.Reached roots o) (hlead : index.LeadsTo o t) :
    index.Reached roots t := by
  obtain ⟨root, hroot, hreach⟩ := h
  exact ⟨root, hroot, hreach.tail hlead⟩

/-- The stack is looked at by returns only: with another one, control goes to the same offsets. -/
theorem targets_other_stack (h : i.targets s = .ok ts) (hkind : i.kind ≠ some .ret)
    (s' : List Int) :
    ∃ ts', i.targets s' = .ok ts' ∧ ∀ o, (∃ d ∈ ts, d.entry = o) ↔ ∃ d ∈ ts', d.entry = o := by
  unfold Instruction.targets at h ⊢
  split at h
  case h_1 =>
    cases h
    exact ⟨[], rfl, fun o => Iff.rfl⟩
  case h_8 hk => exact absurd hk hkind
  case h_9 => cases h
  -- In what is left, the stack goes into targets as their own, and into no entry.
  all_goals
    obtain ⟨v, hv, rfl⟩ := exists_of_map_eq_ok h
    refine ⟨_, by rw [hv]; rfl, ?_⟩
    simp

theorem NoReturns.last_kind_ne (h : index.NoReturns) (hwalk : index.walk o = .ok r) :
    r.last.kind ≠ some .ret :=
  h r.last (mem_of_lookup? ((line_of_walk hwalk).lookup?_mem r.last_mem_instrs))

theorem NoReturns.leadsTo_iff (h : index.NoReturns) (hwalk : index.walk o = .ok r)
    (hts : r.last.targets s = .ok ts) : index.LeadsTo o t ↔ ∃ d ∈ ts, d.entry = t := by
  obtain ⟨ts', hts', hentries⟩ := targets_other_stack hts (h.last_kind_ne hwalk) []
  rw [hentries]
  constructor
  · intro ⟨r', us, hr', hus, hd⟩
    obtain rfl := Except.ok.inj (hwalk.symm.trans hr')
    obtain rfl := Except.ok.inj (hts'.symm.trans hus)
    exact hd
  · exact fun hd => ⟨r, ts', hwalk, hts', hd⟩

end AddressIndex

namespace Exploration

variable {index : AddressIndex} {x y : Exploration} {t : Target} {work : List Target}
  {roots : List Int} {o : Int}

def discoverAll (index : AddressIndex) (x : Exploration) :
    List Int → Outcome Exploration GraphError (List Block)
  | [] => ⟨x, [], .ok []⟩
  | entry :: rest =>
    let o := x.discover index entry
    match o.result with
    | .error e => ⟨o.state, o.events, .error e⟩
    | .ok found =>
      let later := discoverAll index o.state rest
      ⟨later.state, o.events ++ later.events, later.result.map (found ++ ·)⟩

theorem discoverAll_of_error {entry : Int} {rest : List Int} {e : GraphError}
    (h : (x.discover index entry).result = .error e) :
    (x.discoverAll index (entry :: rest)).result = .error e := by
  simp only [discoverAll, h]

theorem discoverAll_of_ok (rest : List Int) {entry : Int} {found : List Block}
    (h : (x.discover index entry).result = .ok found) :
    (x.discoverAll index (entry :: rest)).state =
        ((x.discover index entry).state.discoverAll index rest).state ∧
      (x.discoverAll index (entry :: rest)).result =
        ((x.discover index entry).state.discoverAll index rest).result.map (found ++ ·) := by
  simp only [discoverAll, h, and_self]

/-- What holds between two visits when no instruction returns: blocks lead from the roots to
everything that is visited or waits to be. -/
structure Spread (index : AddressIndex) (roots : List Int) (x : Exploration)
    (work : List Target) : Prop extends Discovered index roots x work where
  reached : ∀ o, Known x work o → index.Reached roots o

namespace Spread

theorem skip (h : Spread index roots x (t :: work)) (ht : t.entry ∈ x.visited) :
    Spread index roots x work where
  toDiscovered := h.toDiscovered.skip ht
  reached := by
    intro o ho
    apply h.reached
    rcases ho with hvisited | ⟨c, hc, hentry⟩
    · exact Or.inl hvisited
    · exact Or.inr ⟨c, List.mem_cons_of_mem t hc, hentry⟩

theorem visit (hret : index.NoReturns) (h : Spread index roots x (t :: work))
    (hnew : t.entry ∉ x.visited) {b : Block} {targets : List Target}
    (hok : (x.visit index t).result = .ok (b, targets)) :
    Spread index roots (x.visit index t).state
      ((x.visit index t).state.fresh targets ++ work) where
  toDiscovered := h.toDiscovered.visit hnew hok
  reached := by
    have hv := visit_ok hok
    have ht : index.Reached roots t.entry :=
      h.reached t.entry (Or.inr ⟨t, List.mem_cons_self .., rfl⟩)
    intro o ho
    rcases ho with hvisited | ⟨c, hc, rfl⟩
    · rw [visited_visit] at hvisited
      rcases List.mem_cons.1 hvisited with rfl | hvisited
      · exact ht
      · exact h.reached o (Or.inl hvisited)
    · rcases List.mem_append.1 hc with hc | hc
      · have hlead := (hret.leadsTo_iff hv.walked hv.targets_eq).2
          ⟨c, List.mem_of_mem_filter hc, rfl⟩
        exact ht.tail hlead
      · exact h.reached c.entry (Or.inr ⟨c, List.mem_cons_of_mem t hc, rfl⟩)

/-- An exploration that has come to its end can go on from a further root. -/
theorem addRoot (h : Spread index roots x []) (entry : Int) :
    Spread index (roots ++ [entry]) x [⟨entry, []⟩] := by
  have hsub : roots ⊆ roots ++ [entry] := List.subset_append_left ..
  have hroot : entry ∈ roots ++ [entry] := List.mem_append_right _ (List.mem_singleton_self _)
  -- Nothing waited, so what was known is visited; what waits now is the new root alone.
  have hdiscovered : Discovered index (roots ++ [entry]) x [⟨entry, []⟩] := by
    refine ⟨h.id_eq, h.visited_eq, h.nodup, h.walked, ?_, h.source_mem, ?_, ?_, ?_⟩
    · intro b hb
      obtain ⟨stack, targets, hleft⟩ := h.left_for b hb
      obtain ⟨root, hmem, hreach⟩ := hleft.reached
      exact ⟨stack, targets, ⟨root, hsub hmem, hreach⟩, hleft.returns, hleft.targets_eq,
        hleft.mem_relations_iff⟩
    · intro r hr
      exact Or.inl (h.target_known r hr).visited
    · intro o ho
      rcases List.mem_append.1 ho with ho | ho
      · exact Or.inl (h.root_known o ho).visited
      · exact Or.inr ⟨_, List.mem_singleton_self _, (List.mem_singleton.1 ho).symm⟩
    · intro c hc
      obtain rfl := List.mem_singleton.1 hc
      exact ⟨⟨entry, hroot, Relation.ReflTransGen.refl⟩,
        fun back hback => absurd hback List.not_mem_nil⟩
  refine ⟨hdiscovered, ?_⟩
  intro o ho
  rcases ho with hvisited | ⟨c, hc, rfl⟩
  · exact (h.reached o (Or.inl hvisited)).mono hsub
  · obtain rfl := List.mem_singleton.1 hc
    exact ⟨entry, hroot, Relation.ReflTransGen.refl⟩

theorem mem_relations_iff (hret : index.NoReturns) (h : Spread index roots x []) {r : Relation} :
    r ∈ x.relations ↔ r.source ∈ x.visited ∧ index.LeadsTo r.source r.target := by
  obtain ⟨source, target⟩ := r
  have hleads {b : Block} (hb : b ∈ x.blocks) :
      ⟨b.firstOffset, target⟩ ∈ x.relations ↔ index.LeadsTo b.firstOffset target := by
    obtain ⟨stack, targets, hleft⟩ := h.left_for b hb
    rw [hleft.mem_relations_iff, hret.leadsTo_iff (h.walked b hb) hleft.targets_eq]
  constructor
  · intro hr
    have hsource := h.source_mem _ hr
    obtain ⟨b, hb, rfl⟩ := h.mem_visited_iff.1 hsource
    exact ⟨hsource, (hleads hb).1 hr⟩
  · intro ⟨hsource, hlead⟩
    obtain ⟨b, hb, rfl⟩ := h.mem_visited_iff.1 hsource
    exact (hleads hb).2 hlead

theorem mem_visited_iff_reached (hret : index.NoReturns) (h : Spread index roots x []) :
    o ∈ x.visited ↔ index.Reached roots o := by
  constructor
  · exact fun ho => h.reached o (Or.inl ho)
  · -- Along the way from the root: where a visited block leads is visited too.
    intro ⟨root, hroot, hreach⟩
    induction hreach with
    | refl => exact (h.root_known root hroot).visited
    | @tail a c _ hlead ih =>
      exact (h.target_known ⟨a, c⟩ ((h.mem_relations_iff hret).2 ⟨ih, hlead⟩)).visited

theorem walkable_of_visited (hret : index.NoReturns) (h : Spread index roots x [])
    (ho : o ∈ x.visited) : index.Walkable o := by
  obtain ⟨b, hb, rfl⟩ := h.mem_visited_iff.1 ho
  have hwalk := h.walked b hb
  obtain ⟨stack, targets, hleft⟩ := h.left_for b hb
  obtain ⟨ts, hts, -⟩ := targets_other_stack hleft.targets_eq (hret.last_kind_ne hwalk) []
  exact ⟨b.toRun, ts, hwalk, hts⟩

/-- A discovery from a further root ends with nothing left to explore, or at an offset that it has
reached and from which no block can be walked and left. -/
theorem discover_cases (hret : index.NoReturns) (h : Spread index roots x []) (entry : Int) :
    (∃ found, (x.discover index entry).result = .ok found ∧
      Spread index (roots ++ [entry]) (x.discover index entry).state []) ∨
    ∃ e o, (x.discover index entry).result = .error e ∧
      index.Reached (roots ++ [entry]) o ∧ ¬ index.Walkable o := by
  rcases explore_invariant (P := Spread index (roots ++ [entry]))
    (fun _ _ _ hy ht => hy.skip ht) (fun _ _ _ _ _ hy hnew hok => hy.visit hret hnew hok)
    (h.addRoot entry) with hend | ⟨y, t, rest, e, hy, -, hvisit, -, hresult⟩
  · exact Or.inl hend
  · -- The visit has failed with the calls that were open, and would fail without them as well.
    refine Or.inr ⟨e, t.entry, hresult, hy.reached _ (Or.inr ⟨t, List.mem_cons_self .., rfl⟩), ?_⟩
    intro ⟨r, ts, hwalk, hts⟩
    obtain ⟨us, hus, -⟩ := targets_other_stack hts (hret.last_kind_ne hwalk) t.stack
    rcases (visit_error hvisit).1 with hwalk' | ⟨r', hwalk', hts'⟩
    · rw [hwalk] at hwalk'
      cases hwalk'
    · obtain rfl := Except.ok.inj (hwalk.symm.trans hwalk')
      rw [hus] at hts'
      cases hts'

theorem discoverAll_cases (hret : index.NoReturns) (h : Spread index roots x [])
    (entries : List Int) :
    (∃ found, (x.discoverAll index entries).result = .ok found ∧
      Spread index (roots ++ entries) (x.discoverAll index entries).state []) ∨
    ∃ e o, (x.discoverAll index entries).result = .error e ∧
      index.Reached (roots ++ entries) o ∧ ¬ index.Walkable o := by
  induction entries generalizing x roots with
  | nil => exact Or.inl ⟨[], rfl, (List.append_nil roots).symm ▸ h⟩
  | cons entry rest ih =>
    have happend : roots ++ entry :: rest = roots ++ [entry] ++ rest := by simp
    rw [happend]
    rcases h.discover_cases hret entry with ⟨found, hfound, hspread⟩ | ⟨e, o, he, hreach, hstuck⟩
    · obtain ⟨hstate, hresult⟩ := discoverAll_of_ok rest hfound
      rw [hstate, hresult]
      rcases ih hspread with ⟨later, hlater, hend⟩ | ⟨e, o, he, hreach, hstuck⟩
      · exact Or.inl ⟨found ++ later, by rw [hlater]; rfl, hend⟩
      · exact Or.inr ⟨e, o, by rw [he]; rfl, hreach, hstuck⟩
    · refine Or.inr ⟨e, o, discoverAll_of_error he, ?_, hstuck⟩
      exact hreach.mono (List.subset_append_left ..)

theorem mem_runs_iff (hret : index.NoReturns) (h : Spread index roots x []) {r : Run} :
    r ∈ x.blocks.map (·.toRun) ↔ ∃ o, index.Reached roots o ∧ index.walk o = .ok r := by
  simp only [← h.mem_visited_iff_reached hret]
  constructor
  · intro hr
    obtain ⟨b, hb, rfl⟩ := List.mem_map.1 hr
    exact ⟨b.firstOffset, h.mem_visited_iff.2 ⟨b, hb, rfl⟩, h.walked b hb⟩
  · intro ⟨o, ho, hwalk⟩
    obtain ⟨b, hb, rfl⟩ := h.mem_visited_iff.1 ho
    exact List.mem_map.2 ⟨b, hb, Except.ok.inj ((h.walked b hb).symm.trans hwalk)⟩

theorem runs_nodup (h : Spread index roots x []) : (x.blocks.map (·.toRun)).Nodup := by
  apply List.Nodup.of_map Run.firstOffset
  rw [List.map_map]
  exact h.entries_nodup

/-- The same offsets can be reached from two lists of roots, so the same graph has been found, up to
the numbers of its blocks. -/
theorem alike {roots' : List Int} (hret : index.NoReturns) (h : Spread index roots x [])
    (h' : Spread index roots' y [])
    (hreach : ∀ o, index.Reached roots o ↔ index.Reached roots' o) :
    x.toGraph.Alike y.toGraph where
  runs := by
    apply (List.perm_ext_iff_of_nodup h.runs_nodup h'.runs_nodup).2
    intro r
    simp only [h.mem_runs_iff hret, h'.mem_runs_iff hret, hreach]
  relations := by
    intro r
    simp only [h.mem_relations_iff hret, h'.mem_relations_iff hret,
      h.mem_visited_iff_reached hret, h'.mem_visited_iff_reached hret, hreach]

end Spread

theorem spread_empty (index : AddressIndex) : Spread index [] empty [] where
  id_eq := fun k b hb => absurd hb (by simp [empty, Graph.empty])
  visited_eq := rfl
  nodup := List.nodup_nil
  walked := fun b hb => absurd hb List.not_mem_nil
  left_for := fun b hb => absurd hb List.not_mem_nil
  source_mem := fun r hr => absurd hr List.not_mem_nil
  target_known := fun r hr => absurd hr List.not_mem_nil
  root_known := fun o ho => absurd ho List.not_mem_nil
  pending := fun c hc => absurd hc List.not_mem_nil
  reached := fun o ho => absurd ho.visited List.not_mem_nil

/-- The same findings up to the numbers of blocks, also after a repair, which succeeds or fails on
both sides. -/
structure SameFindings (x y : Exploration) : Prop where
  mem_visited_iff : ∀ o, o ∈ x.visited ↔ o ∈ y.visited
  alike : x.toGraph.Alike y.toGraph
  repaired :
    (∃ n, x.resolve.result = .ok n ∧ y.resolve.result = .ok n ∧
      x.resolve.state.toGraph.Alike y.resolve.state.toGraph) ∨
    ∃ b s c d, x.resolve.result = .error (.unsupportedOverlap b s) ∧
      y.resolve.result = .error (.unsupportedOverlap c d)

/-- Without returns, discoveries from the same entries in another order succeed as well, and have
the same findings. The first entry may be the start of a recovery without its second pass, which
leaves what a discovery from nothing leaves (`state_recover_false`). -/
theorem discoverAll_perm (hret : index.NoReturns) {entries entries' : List Int}
    (hperm : entries.Perm entries') {found : List Block}
    (hok : (empty.discoverAll index entries).result = .ok found) :
    (∃ found', (empty.discoverAll index entries').result = .ok found') ∧
      SameFindings (empty.discoverAll index entries).state
        (empty.discoverAll index entries').state := by
  have hreach (o : Int) : index.Reached entries o ↔ index.Reached entries' o :=
    ⟨Reached.mono hperm.subset, Reached.mono hperm.symm.subset⟩
  rcases (spread_empty index).discoverAll_cases hret entries with
    ⟨-, -, hspread⟩ | ⟨e, o, he, -, -⟩
  swap
  · rw [he] at hok
    cases hok
  rw [List.nil_append] at hspread
  rcases (spread_empty index).discoverAll_cases hret entries' with
    ⟨found', hfound', hspread'⟩ | ⟨e, o, -, ho, hstuck⟩
  swap
  · -- The offset at which the other order is stuck has been visited in this one.
    have hvisited := (hspread.mem_visited_iff_reached hret).2 ((hreach o).2 ho)
    exact absurd (hspread.walkable_of_visited hret hvisited) hstuck
  rw [List.nil_append] at hspread'
  have halike := hspread.alike hret hspread' hreach
  have hasc := fun b hb => ascending_of_walk (hspread.walked b hb)
  obtain ⟨hresolved, hresult⟩ := halike.resolve hspread.entries_nodup hasc
  refine ⟨⟨found', hfound'⟩, ?_, halike, ?_⟩
  · intro o
    rw [hspread.mem_visited_iff_reached hret, hspread'.mem_visited_iff_reached hret, hreach]
  · cases hx : (empty.discoverAll index entries).state.toGraph.resolve.result with
    | ok n => exact Or.inl ⟨n, hx, (hresult n).1 hx, hresolved⟩
    | error e =>
      cases hy : (empty.discoverAll index entries').state.toGraph.resolve.result with
      | ok n =>
        rw [(hresult n).2 hy] at hx
        cases hx
      | error e' =>
        obtain ⟨b, s, rfl⟩ := Graph.unsupportedOverlap_of_resolve hasc hx
        obtain ⟨c, d, rfl⟩ := Graph.unsupportedOverlap_of_resolve (halike.ascending hasc) hy
        exact Or.inr ⟨b, s, c, d, hx, hy⟩

def calledLoop : AddressIndex :=
  ofNodup
    [⟨0, some .rcall, "rcall", [4], 2, "rcall .+4"⟩, ⟨2, none, "nop", [], 2, "nop"⟩,
      ⟨4, none, "nop", [], 2, "nop"⟩, ⟨6, none, "nop", [], 2, "nop"⟩,
      ⟨8, some .rjmp, "rjmp", [-8], 2, "rjmp .-8"⟩]
    (by decide)

/-- One order opens the call before the loop is entered. The other one enters the loop first, and
numbers its blocks in another way. -/
theorem sameFindings_calledLoop :
    calledLoop.NoReturns ∧ ([0, 4, 0] : List Int).Perm [4, 0, 0] ∧
      (empty.discoverAll calledLoop [0, 4, 0]).state.blocks.map (·.firstOffset) = [0, 6, 2, 4] ∧
      (empty.discoverAll calledLoop [4, 0, 0]).state.blocks.map (·.firstOffset) = [4, 2, 0, 6] ∧
      (empty.discoverAll calledLoop [0, 4, 0]).state.resolve.result = .ok 2 ∧
      (∃ found, (empty.discoverAll calledLoop [4, 0, 0]).result = .ok found) ∧
      SameFindings (empty.discoverAll calledLoop [0, 4, 0]).state
        (empty.discoverAll calledLoop [4, 0, 0]).state := by
  have hret : calledLoop.NoReturns := by decide
  have hperm : ([0, 4, 0] : List Int).Perm [4, 0, 0] := List.Perm.swap 4 0 [0]
  have hok : (empty.discoverAll calledLoop [0, 4, 0]).result =
      .ok (empty.discoverAll calledLoop [0, 4, 0]).state.blocks := by decide +kernel
  exact ⟨hret, hperm, by decide +kernel, by decide +kernel, by decide +kernel,
    discoverAll_perm hret hperm hok⟩

end Exploration

end AvrFlow
