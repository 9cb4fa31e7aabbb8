import AvrFlow.Dot
import AvrFlow.Proofs.WellFormed

namespace AvrFlow

open AddressIndex

inductive Action where
  | discover (entry : Int)
  | resolve
  | findOverlap
  | render (resolution : Dot.Resolution)
  deriving DecidableEq, Repr

inductive Answer where
  | found (blocks : List Block)
  | splits (count : Nat)
  | overlap (places : Option (Nat × Nat))
  | text (dot : String)
  deriving DecidableEq, Repr

/-- Performs an action. What it has done before it fails stays. -/
def Action.perform (index : AddressIndex) (x : Exploration) :
    Action → Outcome Exploration GraphError Answer
  | discover entry =>
    let o := x.discover index entry
    ⟨o.state, o.events, o.result.map .found⟩
  | resolve =>
    let o := x.resolve
    ⟨o.state, o.events, o.result.map .splits⟩
  | findOverlap => ⟨x, [], .ok (.overlap (Graph.findOverlap? x.blocks))⟩
  | render resolution => ⟨x, [], (Dot.render x.toGraph resolution).map .text⟩

/-- A recovery and the actions after it, the latest one last. -/
inductive Session where
  | opened (start : Int) (wanted : Bool)
  | later (before : Session) (action : Action)
  deriving DecidableEq, Repr

namespace Session

def state (index : AddressIndex) : Session → Exploration
  | opened start wanted => (Exploration.recover index start wanted).state
  | later before action => (action.perform index (before.state index)).state

/-- Whether every discovery of a session has succeeded, the one of its recovery included. Repairs
may have failed. -/
def allDiscovered (index : AddressIndex) : Session → Bool
  | opened start _ => (Exploration.empty.discover index start).result.isOk
  | later before (.discover entry) =>
    before.allDiscovered index && ((before.state index).discover index entry).result.isOk
  | later before _ => before.allDiscovered index

end Session

namespace Exploration

variable {index : AddressIndex} {x y z : Exploration} {t : Target} {work : List Target}
  {start : Int}

/-- Blocks are numbered by their places, their entries differ and have been visited, each block is
the beginning of the walk from its entry, and every relation leaves the entry of a block. -/
structure Consistent (index : AddressIndex) (x : Exploration) : Prop where
  id_eq : ∀ (k : Nat) (b : Block), x.blocks[k]? = some b → b.id = k
  entries_nodup : (x.blocks.map (·.firstOffset)).Nodup
  entry_visited : ∀ b ∈ x.blocks, b.firstOffset ∈ x.visited
  instrs_ne_nil : ∀ b ∈ x.blocks, b.instrs ≠ []
  begins : ∀ b ∈ x.blocks, ∃ line, index.walk b.firstOffset = .ok line ∧ b.instrs <+: line.instrs
  source_entry : ∀ r ∈ x.relations, r.source ∈ x.blocks.map (·.firstOffset)

/-- Every target of a relation is the entry of a block, and so is every visited offset and no other
one. -/
structure Closed (x : Exploration) : Prop where
  target_entry : ∀ r ∈ x.relations, r.target ∈ x.blocks.map (·.firstOffset)
  mem_visited_iff : ∀ o, o ∈ x.visited ↔ o ∈ x.blocks.map (·.firstOffset)

structure KeepsEntries (x y : Exploration) : Prop where
  entries : x.blocks.map (·.firstOffset) <+: y.blocks.map (·.firstOffset)
  visited : x.visited ⊆ y.visited

/-- Blocks and relations stay as they are. New blocks come after them, and new relations leave
offsets that had not been visited. -/
structure Extends (x y : Exploration) : Prop where
  blocks : x.blocks <+: y.blocks
  visited : x.visited ⊆ y.visited
  relations : x.relations ⊆ y.relations
  added : ∀ r ∈ y.relations, r ∈ x.relations ∨ r.source ∉ x.visited

theorem Extends.refl (x : Exploration) : Extends x x :=
  ⟨List.prefix_rfl, fun _ h => h, fun _ h => h, fun _ h => Or.inl h⟩

theorem Extends.trans (h : Extends x y) (h' : Extends y z) : Extends x z where
  blocks := h.blocks.trans h'.blocks
  visited := fun _ ho => h'.visited (h.visited ho)
  relations := fun _ hr => h'.relations (h.relations hr)
  added := by
    intro r hr
    rcases h'.added r hr with hr | hnew
    · exact h.added r hr
    · exact Or.inr fun hold => hnew (h.visited hold)

theorem Extends.keepsEntries (h : Extends x y) : KeepsEntries x y :=
  ⟨h.blocks.map _, h.visited⟩

theorem extends_visit (hnew : t.entry ∉ x.visited) : Extends x (x.visit index t).state := by
  rcases state_visit_cases index x t with hstate | ⟨r, added, -, hsource, hstate⟩
  · rw [hstate]
    exact ⟨List.prefix_rfl, List.subset_cons_self _ _, fun _ h => h, fun _ h => Or.inl h⟩
  · rw [hstate]
    refine ⟨List.prefix_append _ _, List.subset_cons_self _ _, ?_, ?_⟩
    · intro a ha
      exact mem_addRelations.2 (Or.inr ha)
    · intro a ha
      rcases mem_addRelations.1 ha with ha | ha
      · exact Or.inr (hsource a ha ▸ hnew)
      · exact Or.inl ha

namespace Consistent

theorem ascending (h : Consistent index x) : ∀ b ∈ x.blocks, b.Ascending :=
  fun b hb => Block.ascending_of_begins (h.begins b hb)

theorem mark (h : Consistent index x) (o : Int) : Consistent index (x.mark o) where
  id_eq := h.id_eq
  entries_nodup := h.entries_nodup
  entry_visited := fun b hb => List.mem_cons_of_mem o (h.entry_visited b hb)
  instrs_ne_nil := h.instrs_ne_nil
  begins := h.begins
  source_entry := h.source_entry

/-- A visit of a new offset keeps the blocks and relations consistent, also if it fails. -/
theorem visit (h : Consistent index x) (hnew : t.entry ∉ x.visited) :
    Consistent index (x.visit index t).state := by
  rcases state_visit_cases index x t with hstate | ⟨r, added, hwalk, hsource, hstate⟩
  · rw [hstate]
    exact h.mark t.entry
  rw [hstate]
  -- The new block is the whole walk from the offset, so that offset is its entry.
  have hfirst : (x.nextBlock r).firstOffset = t.entry := firstOffset_of_walk hwalk
  have hentries : (x.blocks ++ [x.nextBlock r]).map (·.firstOffset) =
      x.blocks.map (·.firstOffset) ++ [t.entry] := by
    rw [List.map_append, List.map_singleton, hfirst]
  have hfresh : t.entry ∉ x.blocks.map (·.firstOffset) := by
    intro hmem
    obtain ⟨b, hb, heq⟩ := List.mem_map.1 hmem
    exact hnew (heq ▸ h.entry_visited b hb)
  have hmem {b : Block} (hb : b ∈ x.blocks ++ [x.nextBlock r]) :
      b ∈ x.blocks ∨ b = x.nextBlock r := by
    simpa using hb
  refine ⟨id_eq_append h.id_eq rfl, ?_, ?_, fun b _ => b.instrs_ne_nil, ?_, ?_⟩
  · rw [hentries, ← List.concat_eq_append]
    exact h.entries_nodup.concat hfresh
  · intro b hb
    rcases hmem hb with hb | rfl
    · exact List.mem_cons_of_mem _ (h.entry_visited b hb)
    · exact hfirst ▸ List.mem_cons_self ..
  · intro b hb
    rcases hmem hb with hb | rfl
    · exact h.begins b hb
    · exact ⟨r, hfirst.symm ▸ hwalk, List.prefix_rfl⟩
  · intro a ha
    rw [hentries]
    rcases mem_addRelations.1 ha with ha | ha
    · exact List.mem_append_right _ (List.mem_singleton.2 (hsource a ha))
    · exact List.mem_append_left _ (h.source_entry a ha)

/-- An exploration keeps blocks and relations consistent and changes none of those before it,
wherever it ends. -/
theorem explore (h : Consistent index x) (work : List Target) :
    Consistent index (explore index x work).state ∧ Extends x (explore index x work).state := by
  apply state_explore_invariant (P := fun y => Consistent index y ∧ Extends x y)
  · intro y t hy hnew
    exact ⟨hy.1.visit hnew, hy.2.trans (extends_visit hnew)⟩
  · exact ⟨h, Extends.refl x⟩

theorem split {g : Graph} {visited : List Int} {i j : Nat} (h : Consistent index ⟨g, visited⟩)
    (hfound : Graph.findOverlap? g.blocks = some (i, j)) (hok : (g.split i j).result = .ok ()) :
    Consistent index ⟨(g.split i j).state, visited⟩ := by
  obtain ⟨b, s, c, hcut⟩ := Graph.exists_cut h.ascending hfound hok
  have hs : s ∈ g.blocks := List.mem_of_getElem? hcut.short
  have hentries := hcut.map_firstOffset
  refine ⟨hcut.id_eq_split h.id_eq, hentries ▸ h.entries_nodup, ?_, fun b _ => b.instrs_ne_nil,
    hcut.begins_split h.begins, ?_⟩
  · intro d hd
    rcases hcut.mem_split_iff.1 hd with rfl | ⟨k, -, hk⟩
    · exact hcut.firstOffset_eq ▸ h.entry_visited b hcut.long_mem
    · exact h.entry_visited d (List.mem_of_getElem? hk)
  · intro r hr
    rw [hentries]
    rcases hcut.mem_relations_iff.1 hr with ⟨-, hr⟩ | ⟨hsource, -⟩ | rfl
    · exact h.source_entry r hr
    · exact hsource ▸ List.mem_map_of_mem hs
    · exact List.mem_map_of_mem hcut.long_mem

/-- A repair keeps blocks and relations consistent and changes no entry, wherever it ends. -/
theorem resolve (h : Consistent index x) :
    Consistent index x.resolve.state ∧
      x.resolve.state.blocks.map (·.firstOffset) = x.blocks.map (·.firstOffset) := by
  refine (Graph.resolve_invariant (g := x.toGraph) (P := fun g => Consistent index ⟨g, x.visited⟩ ∧
    g.blocks.map (·.firstOffset) = x.blocks.map (·.firstOffset)) ?_ ⟨h, rfl⟩).1
  intro g i j ⟨hg, hentries⟩ hfound hok
  obtain ⟨b, s, c, hcut⟩ := Graph.exists_cut hg.ascending hfound hok
  exact ⟨hg.split hfound hok, hcut.map_firstOffset.trans hentries⟩

end Consistent

theorem consistent_empty (index : AddressIndex) : Consistent index empty where
  id_eq := fun k b hb => absurd hb (by simp [empty, Graph.empty])
  entries_nodup := List.nodup_nil
  entry_visited := fun b hb => absurd hb List.not_mem_nil
  instrs_ne_nil := fun b hb => absurd hb List.not_mem_nil
  begins := fun b hb => absurd hb List.not_mem_nil
  source_entry := fun r hr => absurd hr List.not_mem_nil

structure Closing (x : Exploration) (work : List Target) : Prop where
  visited_entry : ∀ o ∈ x.visited, o ∈ x.blocks.map (·.firstOffset)
  target_known : ∀ r ∈ x.relations, Known x work r.target

theorem Closed.closing (h : Closed x) (work : List Target) : Closing x work where
  visited_entry := fun o ho => (h.mem_visited_iff o).1 ho
  target_known := fun r hr => Or.inl ((h.mem_visited_iff r.target).2 (h.target_entry r hr))

theorem Closing.closed (h : Closing x []) (hx : Consistent index x) : Closed x where
  target_entry := fun r hr => h.visited_entry r.target (h.target_known r hr).visited
  mem_visited_iff := by
    intro o
    refine ⟨h.visited_entry o, ?_⟩
    intro ho
    obtain ⟨b, hb, rfl⟩ := List.mem_map.1 ho
    exact hx.entry_visited b hb

theorem Closing.visit (h : Closing x (t :: work)) {b : Block} {targets : List Target}
    (hok : (x.visit index t).result = .ok (b, targets)) :
    Closing (x.visit index t).state ((x.visit index t).state.fresh targets ++ work) := by
  have hv := visit_ok hok
  refine ⟨?_, ?_⟩
  · intro o ho
    rw [visited_visit] at ho
    rcases List.mem_cons.1 ho with rfl | ho
    · exact List.mem_map.2 ⟨b, hv.mem_blocks_iff.2 (Or.inr rfl), hv.firstOffset_eq⟩
    · obtain ⟨c, hc, rfl⟩ := List.mem_map.1 (h.visited_entry o ho)
      exact List.mem_map_of_mem (hv.subset hc)
  · intro r hr
    rcases hv.mem_relations_iff.1 hr with ⟨-, htarget⟩ | hr
    · exact hv.known (Or.inr htarget)
    · exact hv.known (Or.inl (h.target_known r hr))

/-- A discovery that succeeds leaves no target without a block. -/
theorem Closed.discover (h : Closed x) (hx : Consistent index x) {entry : Int}
    (hok : (x.discover index entry).result.isOk = true) :
    Closed (x.discover index entry).state := by
  rcases explore_invariant (P := Closing)
    (fun _ _ _ hy ht => ⟨hy.visited_entry, fun r hr => (hy.target_known r hr).of_cons ht⟩)
    (fun _ _ _ _ _ hy _ hok => hy.visit hok)
    (h.closing [⟨entry, []⟩]) with
    ⟨found, -, hend⟩ | ⟨y, t, rest, e, -, -, -, -, hresult⟩
  · exact hend.closed (hx.explore _).1
  · rw [Exploration.discover, hresult] at hok
    cases hok

theorem closed_empty : Closed empty where
  target_entry := fun _ hr => absurd hr List.not_mem_nil
  mem_visited_iff := fun _ => Iff.rfl

/-- A repair leaves no target without a block, wherever it ends. -/
theorem Closed.resolve (h : Closed x) (hx : Consistent index x) : Closed x.resolve.state := by
  have harranged : x.toGraph.Arranged index (x.blocks.map (·.firstOffset)) :=
    ⟨hx.id_eq, rfl, hx.begins, fun r hr => ⟨hx.source_entry r hr, h.target_entry r hr⟩⟩
  have hentries := hx.resolve.2
  refine ⟨?_, ?_⟩
  · intro r hr
    rw [hentries]
    exact (harranged.resolve.joined r hr).2
  · intro o
    rw [hentries]
    exact h.mem_visited_iff o

theorem consistent_recover (index : AddressIndex) (start : Int) (wanted : Bool) :
    Consistent index (recover index start wanted).state := by
  have hdiscovered := ((consistent_empty index).explore [⟨start, []⟩]).1
  rcases state_recover index start wanted with hstate | hstate
  · exact hstate ▸ hdiscovered
  · exact hstate ▸ hdiscovered.resolve.1

end Exploration

namespace Action

open Exploration

variable {index : AddressIndex} {x : Exploration}

theorem consistent_perform (h : Consistent index x) (a : Action) :
    Consistent index (a.perform index x).state := by
  cases a with
  | discover entry => exact (h.explore _).1
  | resolve => exact h.resolve.1
  | findOverlap => exact h
  | render resolution => exact h

theorem keepsEntries_perform (h : Consistent index x) (a : Action) :
    KeepsEntries x (a.perform index x).state := by
  cases a with
  | discover entry => exact (h.explore _).2.keepsEntries
  | resolve => exact ⟨h.resolve.2 ▸ List.prefix_rfl, fun _ ho => ho⟩
  | findOverlap => exact (Extends.refl x).keepsEntries
  | render resolution => exact (Extends.refl x).keepsEntries

end Action

namespace Session

open Exploration

variable {index : AddressIndex}

theorem consistent_state (index : AddressIndex) (s : Session) :
    Consistent index (s.state index) := by
  induction s with
  | opened start wanted => exact consistent_recover index start wanted
  | later before a ih => exact a.consistent_perform ih

theorem closed_state {s : Session} (h : s.allDiscovered index = true) :
    Closed (s.state index) := by
  induction s with
  | opened start wanted =>
    have hdiscovered : Closed (empty.discover index start).state :=
      closed_empty.discover (consistent_empty index) h
    rcases state_recover index start wanted with hstate | hstate
    · rw [state, hstate]
      exact hdiscovered
    · rw [state, hstate]
      exact hdiscovered.resolve ((consistent_empty index).explore _).1
  | later before a ih =>
    have hbefore := consistent_state index before
    cases a with
    | discover entry =>
      obtain ⟨hold, hok⟩ := Bool.and_eq_true_iff.1 h
      exact (ih hold).discover hbefore hok
    | resolve => exact (ih h).resolve hbefore
    | findOverlap => exact ih h
    | render resolution => exact ih h

/-- What holds after every session, whatever has failed in it: its blocks and relations are
consistent, whichever action comes next keeps the entries, and a discovery keeps all blocks and
relations. Until a discovery fails, the visited offsets are the entries and no relation leads
elsewhere. -/
theorem state_maintained (index : AddressIndex) (s : Session) :
    Consistent index (s.state index) ∧
      (∀ a, KeepsEntries (s.state index) ((s.later a).state index)) ∧
      (∀ entry, Extends (s.state index) ((s.later (.discover entry)).state index)) ∧
      (s.allDiscovered index = true → Closed (s.state index)) := by
  have h := consistent_state index s
  refine ⟨h, ?_, ?_, closed_state⟩
  · intro a
    exact a.keepsEntries_perform h
  · intro entry
    exact (h.explore [⟨entry, []⟩]).2

-- A discovery that fails leaves a visited offset without a block, and the session goes on.
example :
    let s := ((Session.opened 0 true).later (.discover 1)).later .resolve
    s.allDiscovered forkedCallee = false ∧ 1 ∈ (s.state forkedCallee).visited ∧
      1 ∉ (s.state forkedCallee).blocks.map (·.firstOffset) := by
  decide +kernel

end Session

end AvrFlow
