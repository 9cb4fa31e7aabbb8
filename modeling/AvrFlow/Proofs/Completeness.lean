import AvrFlow.Proofs.MachineFlow
import AvrFlow.Proofs.WellFormed

/-!
How complete a recovered graph is. An offset is visited with the stack of the first run that reaches
it, so a return is followed to the return address of that run only. The graph holds every
instruction of the runs whose returns it leads back from, and it leads back from a return of such a
run unless runs bring two return addresses to a block that ends there.
-/

namespace AvrFlow

open AddressIndex

def Graph.LeadsBack (g : Graph) (o back : Int) : Prop :=
  ∃ b ∈ g.blocks, o ∈ b.offsets ∧ ⟨b.firstOffset, back⟩ ∈ g.relations

instance (g : Graph) (o back : Int) : Decidable (g.LeadsBack o back) :=
  inferInstanceAs (Decidable (∃ b ∈ g.blocks, _))

/-- A step of the machine which, at a return, the graph leads back from. -/
def Graph.FollowedStep (index : AddressIndex) (g : Graph) (c d : Target) : Prop :=
  index.Step c d ∧ ∀ i, index.lookup? c.entry = some i → i.kind = some .ret →
    g.LeadsBack c.entry d.entry

def Graph.Follows (index : AddressIndex) (g : Graph) : Target → Target → Prop :=
  Relation.ReflTransGen (g.FollowedStep index)

theorem Graph.Arranged.leadsBack_iff {index : AddressIndex} {entries : List Int} {g : Graph}
    {i : Instruction} {o back : Int} (h : g.Arranged index entries)
    (hi : index.lookup? o = some i) (hkind : i.kind = some .ret) :
    g.LeadsBack o back ↔ g.Flow o back := by
  have hstop : index.Stops [] i := Or.inl (by simp [hkind])
  constructor
  · intro ⟨b, hb, ho, hr⟩
    obtain ⟨line, hwalk, hbegin⟩ := h.walked b hb
    obtain ⟨j, hj, rfl⟩ := List.mem_map.1 ho
    have hlookup := (line_of_walk hwalk).lookup?_mem (hbegin.subset hj)
    obtain rfl : j = i := Option.some.inj (hlookup.symm.trans hi)
    exact Or.inr ⟨b, hb, congrArg Instruction.offset (h.last_eq hb hj hstop), hr⟩
  · intro hflow
    rcases hflow with ⟨b, hb, hpair⟩ | ⟨b, hb, rfl, hr⟩
    · obtain ⟨line, hwalk, hbegin⟩ := h.walked b hb
      have hline := line_of_walk hwalk
      obtain ⟨j, hj, rfl, hgo, -⟩ :=
        hline.exists_of_pair_infix (hpair.trans (hbegin.map _).isInfix)
      exact absurd (Option.some.inj (hi.symm.trans (hline.lookup?_mem hj)) ▸ hstop) hgo
    · exact ⟨b, hb, List.mem_map_of_mem b.last_mem_instrs, hr⟩

namespace Exploration

variable {index : AddressIndex} {x : Exploration} {start o t back : Int} {c d : Target}
  {b : Block} {i : Instruction}

/-- Runs bring two return addresses to a visited offset from which the walk ends at a return, and
the graph leads back to the other one but not to this one. -/
def Contested (index : AddressIndex) (start : Int) (x : Exploration) (o back : Int) : Prop :=
  ¬ x.toGraph.LeadsBack o back ∧ ∃ e ∈ x.visited, ∃ r, index.walk e = .ok r ∧
    r.last.offset = o ∧ r.last.kind = some .ret ∧ ∃ other s s', x.toGraph.LeadsBack o other ∧
      index.Reaches ⟨start, []⟩ ⟨e, back :: s⟩ ∧ index.Reaches ⟨start, []⟩ ⟨e, other :: s'⟩

structure CoversRuns (index : AddressIndex) (start : Int) (x : Exploration) : Prop where
  covers : ∀ c, index.Reaches ⟨start, []⟩ c → x.toGraph.Covers c.entry
  leads_back : ∀ o back s i, index.Reaches ⟨start, []⟩ ⟨o, back :: s⟩ →
    index.lookup? o = some i → i.kind = some .ret →
      x.toGraph.LeadsBack o back ∧ back ∈ x.blocks.map (·.firstOffset)

def Located (index : AddressIndex) (start : Int) (x : Exploration) (c : Target) : Prop :=
  ∃ b ∈ x.blocks, ∃ i ∈ b.instrs, i.offset = c.entry ∧
    index.Reaches ⟨start, []⟩ ⟨b.firstOffset, c.stack⟩

namespace Discovered

theorem located_of_visited (h : Discovered index [start] x []) (hc : c.entry ∈ x.visited)
    (hreach : index.Reaches ⟨start, []⟩ c) : Located index start x c := by
  obtain ⟨b, hb, hfirst⟩ := h.mem_visited_iff.1 hc
  refine ⟨b, hb, b.first, b.first_mem_instrs, hfirst, ?_⟩
  rw [hfirst]
  exact hreach

theorem located_start (h : Discovered index [start] x []) : Located index start x ⟨start, []⟩ :=
  h.located_of_visited (h.root_known start (List.mem_singleton_self _)).visited
    Relation.ReflTransGen.refl

theorem reaches_of_located (h : Discovered index [start] x []) (hc : Located index start x c) :
    index.Reaches ⟨start, []⟩ c := by
  obtain ⟨o, s⟩ := c
  obtain ⟨b, hb, i, hi, rfl, hreach⟩ := hc
  exact hreach.trans ((line_of_walk (h.walked b hb)).reaches_mem hi s)

/-- A step that follows the flow from a return goes on in a block that a run enters. -/
theorem located_step (h : Discovered index [start] x []) (hc : Located index start x c)
    (hstep : index.Step c d)
    (hret : ∀ i, index.lookup? c.entry = some i → i.kind = some .ret →
      x.toGraph.Flow c.entry d.entry) : Located index start x d := by
  have hreach := (h.reaches_of_located hc).tail hstep
  obtain ⟨o, s⟩ := c
  obtain ⟨t, u⟩ := d
  obtain ⟨b, hb, i, hi, rfl, hentered⟩ := hc
  have hline := line_of_walk (h.walked b hb)
  have hlookup := hline.lookup?_mem hi
  by_cases hstop : index.Stops [] i
  · -- At the end of a block the flow goes to the entry of a block.
    have hflow : x.toGraph.Flow i.offset t := by
      by_cases hkind : i.kind = some .ret
      · exact hret i hlookup hkind
      · exact (h.flow_iff_step hb hi hkind s).2 ⟨u, hstep⟩
    obtain ⟨c, hc, -, hr⟩ := (h.flow_iff_of_stops hb hi hstop).1 hflow
    exact h.located_of_visited (h.target_known _ hr).visited hreach
  · -- Before the end of a block the machine goes on to its next instruction.
    obtain ⟨hkind, -, -⟩ := not_stops_iff.1 hstop
    obtain ⟨heq, -⟩ := (step_iff_of_kind_none hlookup hkind).1 hstep
    cases heq
    obtain ⟨pre, j, post, heq, hnext⟩ := hline.exists_next hi hstop
    exact ⟨b, hb, j, by simp [heq], hnext, hentered⟩

/-- At a return, the flow goes back to the return address, or a block that ends there has been
entered with another one and the flow goes there. -/
theorem flow_or_entered (h : Discovered index [start] x []) {s : List Int}
    (hc : Located index start x ⟨o, back :: s⟩) (hi : index.lookup? o = some i)
    (hkind : i.kind = some .ret) :
    x.toGraph.Flow o back ∨ ∃ b ∈ x.blocks, b.last.offset = o ∧ b.last.kind = some .ret ∧
      ∃ other s', x.toGraph.Flow o other ∧
        index.Reaches ⟨start, []⟩ ⟨b.firstOffset, back :: s⟩ ∧
        index.Reaches ⟨start, []⟩ ⟨b.firstOffset, other :: s'⟩ := by
  obtain ⟨b, hb, j, hj, rfl, hentered⟩ := hc
  have hline := line_of_walk (h.walked b hb)
  obtain rfl : j = i := Option.some.inj ((hline.lookup?_mem hj).symm.trans hi)
  obtain rfl := hline.last_eq hj (Or.inl (by simp [hkind]))
  -- The block is related to the return address of the run that discovered it.
  obtain ⟨stack, targets, hleft⟩ := h.left_for b hb
  obtain ⟨other, s', rfl, rfl⟩ := hleft.of_ret hkind
  have hflow : x.toGraph.Flow b.last.offset other :=
    Or.inr ⟨b, hb, rfl, (hleft.mem_relations_iff other).2 ⟨_, List.mem_singleton_self _, rfl⟩⟩
  rcases eq_or_ne other back with rfl | hne
  · exact Or.inl hflow
  · exact Or.inr ⟨b, hb, rfl, hkind, other, s', hflow, hentered,
      fromRoots_singleton.1 hleft.reached⟩

end Discovered

structure SameFlow (index : AddressIndex) (y x : Exploration) : Prop where
  visited_eq : y.visited = x.visited
  arranged : y.toGraph.Arranged index x.visited.reverse
  flow_iff : ∀ a t, y.toGraph.Flow a t ↔ x.toGraph.Flow a t
  covers_iff : ∀ o, y.toGraph.Covers o ↔ x.toGraph.Covers o

namespace SameFlow

variable {y : Exploration}

theorem leadsBack_iff (hy : SameFlow index y x) (hi : index.lookup? o = some i)
    (hkind : i.kind = some .ret) : y.toGraph.LeadsBack o back ↔ x.toGraph.Flow o back := by
  rw [hy.arranged.leadsBack_iff hi hkind, hy.flow_iff]

theorem located_of_follows (hy : SameFlow index y x) (h : Discovered index [start] x [])
    (hc : y.toGraph.Follows index ⟨start, []⟩ c) : Located index start x c := by
  induction hc with
  | refl => exact h.located_start
  | tail _ hstep ih =>
    apply h.located_step ih hstep.1
    intro i hi hkind
    exact (hy.leadsBack_iff hi hkind).1 (hstep.2 i hi hkind)

theorem covers_of_follows (hy : SameFlow index y x) (h : Discovered index [start] x [])
    (hc : y.toGraph.Follows index ⟨start, []⟩ c) : y.toGraph.Covers c.entry := by
  obtain ⟨b, hb, i, hi, hoffset, -⟩ := hy.located_of_follows h hc
  exact (hy.covers_iff _).2 ⟨b, hb, hoffset ▸ List.mem_map_of_mem hi⟩

theorem leadsBack_or_contested (hy : SameFlow index y x) (h : Discovered index [start] x [])
    {s : List Int} (hc : y.toGraph.Follows index ⟨start, []⟩ ⟨o, back :: s⟩)
    (hi : index.lookup? o = some i) (hkind : i.kind = some .ret) :
    y.toGraph.LeadsBack o back ∨ Contested index start y o back := by
  by_cases hback : y.toGraph.LeadsBack o back
  · exact Or.inl hback
  · refine Or.inr ⟨hback, ?_⟩
    rcases h.flow_or_entered (hy.located_of_follows h hc) hi hkind with
      hflow | ⟨b, hb, hlast, hret, other, s', hflow, hthis, hother⟩
    · exact absurd ((hy.leadsBack_iff hi hkind).2 hflow) hback
    · refine ⟨b.firstOffset, ?_, b.toRun, h.walked b hb, hlast, hret, other, s, s',
        (hy.leadsBack_iff hi hkind).2 hflow, hthis, hother⟩
      rw [hy.visited_eq]
      exact h.mem_visited_iff.2 ⟨b, hb, rfl⟩

theorem entry_of_leadsBack (hy : SameFlow index y x) (hback : y.toGraph.LeadsBack o back) :
    back ∈ y.blocks.map (·.firstOffset) := by
  obtain ⟨b, -, -, hr⟩ := hback
  rw [hy.arranged.entries_eq]
  exact (hy.arranged.joined _ hr).2

theorem follows_of_reaches (hy : SameFlow index y x) (h : Discovered index [start] x [])
    (hfree : ∀ o back, ¬ Contested index start y o back) (hc : index.Reaches ⟨start, []⟩ c) :
    y.toGraph.Follows index ⟨start, []⟩ c := by
  induction hc with
  | refl => exact Relation.ReflTransGen.refl
  | @tail c d _ hstep ih =>
    apply ih.tail
    refine ⟨hstep, ?_⟩
    intro i hi hkind
    obtain ⟨o, s⟩ := c
    obtain rfl := (step_iff_of_kind_ret hi hkind).1 hstep
    exact (hy.leadsBack_or_contested h ih hi hkind).resolve_right (hfree o d.entry)

/-- The graph covers every run if and only if no return is contested. -/
theorem coversRuns_iff (hy : SameFlow index y x) (h : Discovered index [start] x []) :
    CoversRuns index start y ↔ ∀ o back, ¬ Contested index start y o back := by
  constructor
  · intro hruns o back hcontested
    obtain ⟨hlost, e, -, r, hwalk, rfl, hret, -, s, -, -, hreach, -⟩ := hcontested
    have hline := line_of_walk hwalk
    have hlast := hreach.trans (hline.reaches_mem r.last_mem_instrs (back :: s))
    exact hlost (hruns.leads_back _ back s _ hlast (hline.lookup?_mem r.last_mem_instrs) hret).1
  · intro hfree
    refine ⟨fun c hc => hy.covers_of_follows h (hy.follows_of_reaches h hfree hc), ?_⟩
    intro o back s i hc hi hkind
    have hfollows := hy.follows_of_reaches h hfree hc
    have hback : y.toGraph.LeadsBack o back :=
      (hy.leadsBack_or_contested h hfollows hi hkind).resolve_right (hfree o back)
    exact ⟨hback, hy.entry_of_leadsBack hback⟩

end SameFlow

theorem sameFlow_recover {wanted : Bool} (h : (recover index start wanted).result = .ok ())
    (htails : wanted = true → Graph.SharedTails (empty.discover index start).state.blocks) :
    SameFlow index (recover index start wanted).state (empty.discover index start).state := by
  obtain ⟨hdiscovered, ⟨-, hstate⟩ | ⟨hwanted, n, -, hstate⟩⟩ := recover_ok h
  · rw [hstate]
    exact ⟨rfl, hdiscovered.arranged, fun _ _ => Iff.rfl, fun _ => Iff.rfl⟩
  · rw [hstate]
    have hkept := (hdiscovered.nested (htails hwanted)).resolve
    exact ⟨rfl, hdiscovered.arranged.resolve, hkept.1, hkept.2⟩

/-- What a graph holds of the runs from the start. It covers every run whose returns it leads back
from. Each return address of such a run belongs to an open call in a block, and the graph leads back
there to a block unless the return is contested. It covers all runs if and only if no return is
contested. -/
structure Complete (index : AddressIndex) (start : Int) (x : Exploration) : Prop where
  covers : ∀ c, x.toGraph.Follows index ⟨start, []⟩ c → x.toGraph.Covers c.entry
  open_call : ∀ o back s, x.toGraph.Follows index ⟨start, []⟩ ⟨o, back :: s⟩ →
    ∃ call, call.next = back ∧ x.toGraph.Covers call.offset ∧
      index.OpenCall call s ⟨o, back :: s⟩
  leads_back : ∀ o back s i, x.toGraph.Follows index ⟨start, []⟩ ⟨o, back :: s⟩ →
    index.lookup? o = some i → i.kind = some .ret →
      (x.toGraph.LeadsBack o back ∧ back ∈ x.blocks.map (·.firstOffset)) ∨
        Contested index start x o back
  coversRuns_iff : CoversRuns index start x ↔ ∀ o back, ¬ Contested index start x o back

/-- A recovery that succeeds leaves a complete graph, if the second pass is not wanted or blocks
that end together share their tails. -/
theorem recover_complete (index : AddressIndex) (start : Int) (wanted : Bool)
    (h : (recover index start wanted).result = .ok ())
    (htails : wanted = true → Graph.SharedTails (empty.discover index start).state.blocks) :
    Complete index start (recover index start wanted).state := by
  obtain ⟨hdiscovered, -⟩ := recover_ok h
  have hsame := sameFlow_recover h htails
  refine ⟨fun c hc => hsame.covers_of_follows hdiscovered hc, ?_, ?_,
    hsame.coversRuns_iff hdiscovered⟩
  · intro o back s hc
    obtain ⟨call, rfl, hcall, hopen⟩ :=
      exists_openCall (fun _ _ hstep => hstep.1) hc (List.suffix_refl _)
    exact ⟨call, rfl, hsame.covers_of_follows hdiscovered hcall, hopen⟩
  · intro o back s i hc hi hkind
    rcases hsame.leadsBack_or_contested hdiscovered hc hi hkind with hback | hcontested
    · exact Or.inl ⟨hback, hsame.entry_of_leadsBack hback⟩
    · exact Or.inr hcontested

theorem complete_forkedCallee :
    (recover forkedCallee 0 true).result = .ok () ∧
      Complete forkedCallee 0 (recover forkedCallee 0 true).state :=
  ⟨by decide +kernel,
    recover_complete forkedCallee 0 true (by decide +kernel) (fun _ => by decide +kernel)⟩

def twiceCalled : AddressIndex :=
  ofNodup
    [⟨0, some .call, "call", [6], 2, "call 6"⟩, ⟨2, some .call, "call", [6], 2, "call 6"⟩,
      ⟨4, some .jmp, "jmp", [4], 2, "jmp 4"⟩, ⟨6, some .ret, "ret", [], 2, "ret"⟩]
    (by decide)

def tornTail : AddressIndex :=
  ofNodup
    [⟨0, some .brbs, "brbs", [1, 2], 2, "brbs 1, 2"⟩, ⟨2, some .jmp, "jmp", [5], 2, "jmp 5"⟩,
      ⟨4, none, "nop", [], 2, "nop"⟩, ⟨5, none, "nop", [], 3, "nop"⟩,
      ⟨6, none, "nop", [], 2, "nop"⟩, ⟨8, none, "nop", [], 2, "nop"⟩]
    (by decide)

/-- The return of the second call is not followed to the offset after it, and a split of lines that
do not share their tails drops an instruction. -/
theorem not_covers_twiceCalled_tornTail :
    ((recover twiceCalled 0 true).result = .ok () ∧
      twiceCalled.Reaches ⟨0, []⟩ ⟨4, []⟩ ∧
      ¬ (recover twiceCalled 0 true).state.toGraph.Covers 4 ∧
      ∃ call, call.next = 4 ∧ (recover twiceCalled 0 true).state.toGraph.Covers call.offset ∧
        twiceCalled.OpenCall call [] ⟨6, [4]⟩ ∧
        ¬ (recover twiceCalled 0 true).state.toGraph.LeadsBack 6 4) ∧
    ((recover tornTail 0 true).result = .ok () ∧
      tornTail.Reaches ⟨0, []⟩ ⟨6, []⟩ ∧
      ¬ (recover tornTail 0 true).state.toGraph.Covers 6) := by
  have hsecond : twiceCalled.Reaches ⟨0, []⟩ ⟨2, []⟩ :=
    (Relation.ReflTransGen.single (Step.call rfl rfl rfl)).tail (Step.ret rfl rfl)
  have hcall : twiceCalled.Step ⟨2, []⟩ ⟨6, [4]⟩ :=
    Step.call (i := ⟨2, some .call, "call", [6], 2, "call 6"⟩) rfl rfl rfl
  have hopen : twiceCalled.OpenCall ⟨2, some .call, "call", [6], 2, "call 6"⟩ [] ⟨6, [4]⟩ :=
    OpenCall.entered rfl (Or.inl rfl) hcall
  have htaken : tornTail.Step ⟨0, []⟩ ⟨4, []⟩ :=
    Step.taken (i := ⟨0, some .brbs, "brbs", [1, 2], 2, "brbs 1, 2"⟩) rfl (Or.inl rfl) rfl
  have hfall : tornTail.Step ⟨4, []⟩ ⟨6, []⟩ :=
    Step.fall (i := ⟨4, none, "nop", [], 2, "nop"⟩) rfl rfl (by decide)
  refine ⟨⟨by decide +kernel, ?_, by decide +kernel, ?_⟩, by decide +kernel, ?_, by decide +kernel⟩
  · exact (hsecond.tail hcall).tail (Step.ret rfl rfl)
  · exact ⟨_, rfl, by decide +kernel, hopen, by decide +kernel⟩
  · exact (Relation.ReflTransGen.single htaken).tail hfall

end Exploration

end AvrFlow
