import AvrFlow.Proofs.Reading
import AvrFlow.Result
import Mathlib.Data.List.Forall2
import Mathlib.Data.List.Basic

namespace AvrFlow

section Results

variable {ε α β : Type} {f : α → Except ε β} {xs : List α} {ys : List β}

theorem bind_eq_ok_iff {a : Except ε α} {g : α → Except ε β} {b : β} :
    a >>= g = .ok b ↔ ∃ v, a = .ok v ∧ g v = .ok b := by
  cases a <;> simp [bind, Except.bind]

theorem bind_eq_error_iff {a : Except ε α} {g : α → Except ε β} {e : ε} :
    a >>= g = .error e ↔ a = .error e ∨ ∃ v, a = .ok v ∧ g v = .error e := by
  cases a <;> simp [bind, Except.bind]

theorem mapM_eq_ok_iff : xs.mapM f = .ok ys ↔ List.Forall₂ (fun x y => f x = .ok y) xs ys := by
  induction xs generalizing ys with
  | nil => simp [pure, Except.pure, eq_comm]
  | cons x xs ih =>
    simp only [List.mapM_cons, bind_eq_ok_iff, ih, List.forall₂_cons_left_iff]
    constructor
    · rintro ⟨y, hy, zs, hzs, heq⟩
      exact ⟨y, zs, hy, hzs, (Except.ok.inj heq).symm⟩
    · rintro ⟨y, zs, hy, hzs, rfl⟩
      exact ⟨y, hy, zs, hzs, rfl⟩

/-- The first member with an error decides. -/
theorem mapM_eq_error_iff {e : ε} :
    xs.mapM f = .error e ↔
      ∃ pre x post, xs = pre ++ x :: post ∧ (∀ y ∈ pre, ∃ b, f y = .ok b) ∧ f x = .error e := by
  induction xs with
  | nil => simp [pure, Except.pure]
  | cons x xs ih =>
    simp only [List.mapM_cons, bind_eq_error_iff, ih]
    constructor
    · rintro (hx | ⟨b, hb, ⟨pre, y, post, rfl, hpre, hy⟩ | ⟨_, -, hpure⟩⟩)
      · exact ⟨[], x, xs, rfl, by simp, hx⟩
      · exact ⟨x :: pre, y, post, rfl, List.forall_mem_cons.2 ⟨⟨b, hb⟩, hpre⟩, hy⟩
      · cases hpure
    · rintro ⟨pre, y, post, heq, hpre, hy⟩
      cases pre with
      | nil =>
        obtain ⟨rfl, -⟩ := List.cons.inj heq
        exact Or.inl hy
      | cons z pre =>
        obtain ⟨rfl, rfl⟩ := List.cons.inj heq
        obtain ⟨⟨b, hb⟩, hpre⟩ := List.forall_mem_cons.1 hpre
        exact Or.inr ⟨b, hb, Or.inl ⟨pre, y, post, rfl, hpre, hy⟩⟩

theorem eq_of_forall₂_ok {zs : List β} (hy : List.Forall₂ (fun x y => f x = .ok y) xs ys)
    (hz : List.Forall₂ (fun x z => f x = .ok z) xs zs) : ys = zs := by
  have heq := (mapM_eq_ok_iff.2 hy).symm.trans (mapM_eq_ok_iff.2 hz)
  exact Except.ok.inj heq

theorem exists_ok_iff :
    (∃ ys, List.Forall₂ (fun x y => f x = .ok y) xs ys) ↔ ∀ x ∈ xs, ∃ y, f x = .ok y := by
  induction xs with
  | nil => simp
  | cons x xs ih =>
    rw [List.forall_mem_cons, ← ih]
    constructor
    · rintro ⟨_, hy | ⟨hy, hys⟩⟩
      exact ⟨⟨_, hy⟩, _, hys⟩
    · rintro ⟨⟨y, hy⟩, ys, hys⟩
      exact ⟨y :: ys, .cons hy hys⟩

end Results

section Order

variable {α β : Type} {R : α → β → Prop} (key : α → Int) (key' : β → Int)

theorem forall₂_insertBy (hkey : ∀ a b, R a b → key a = key' b) {a : α} {b : β} {xs : List α}
    {ys : List β} (hab : R a b) (h : List.Forall₂ R xs ys) :
    List.Forall₂ R (insertBy (fun x y => decide (key x ≤ key y)) a xs)
      (insertBy (fun x y => decide (key' x ≤ key' y)) b ys) := by
  induction h with
  | nil => exact .cons hab .nil
  | @cons x y xs ys hxy hrest ih =>
    unfold insertBy
    rw [hkey a b hab, hkey x y hxy]
    split
    · exact .cons hab (.cons hxy hrest)
    · exact .cons hxy ih

/-- Members that belong together stay together when both lists are sorted by the same keys. -/
theorem forall₂_sortBy (hkey : ∀ a b, R a b → key a = key' b) {xs : List α} {ys : List β}
    (h : List.Forall₂ R xs ys) :
    List.Forall₂ R (sortBy (fun x y => decide (key x ≤ key y)) xs)
      (sortBy (fun x y => decide (key' x ≤ key' y)) ys) := by
  induction h with
  | nil => exact .nil
  | cons hxy _ ih => exact forall₂_insertBy key key' hkey hxy ih

end Order

section Firsts

variable {α : Type} (key : α → Int)

/-- The members of a list without those whose key an earlier one has. -/
def firsts : List α → List α
  | [] => []
  | x :: rest => x :: (firsts rest).filter (key · ≠ key x)

def firstsInOrder (xs : List α) : List α :=
  sortBy (fun x y => decide (key x ≤ key y)) (firsts key xs)

variable {key} {x : α} {xs : List α}

theorem mem_firsts_iff : x ∈ firsts key xs ↔ xs.find? (key · = key x) = some x := by
  induction xs with
  | nil => simp [firsts]
  | cons y rest ih =>
    simp only [firsts, List.mem_cons, List.mem_filter, ih, decide_eq_true_eq, List.find?_cons]
    by_cases h : key y = key x
    · simp [h, eq_comm]
    · have hne : x ≠ y := fun heq => h (heq ▸ rfl)
      simp [h, hne, Ne.symm h]

theorem nodup_firsts (xs : List α) : ((firsts key xs).map key).Nodup := by
  induction xs with
  | nil => exact List.nodup_nil
  | cons x rest ih =>
    rw [firsts, List.map_cons, List.nodup_cons]
    constructor
    · intro hmem
      obtain ⟨y, hy, heq⟩ := List.mem_map.1 hmem
      simp [heq] at hy
    · exact ih.sublist (List.filter_sublist.map _)

theorem pairwise_firstsInOrder (xs : List α) :
    (firstsInOrder key xs).Pairwise fun x y => key x < key y :=
  pairwise_lt_sortBy_key key (nodup_firsts xs)

theorem firsts_append (xs later : List α) :
    firsts key (xs ++ later) = firsts key xs ++ (firsts key later).filter (key · ∉ xs.map key) := by
  induction xs with
  | nil => simp [firsts]
  | cons x rest ih =>
    rw [List.cons_append, firsts, ih, firsts, List.filter_append, List.filter_filter,
      List.cons_append]
    congr 2
    apply List.filter_congr
    intro y _
    simp [not_or]

theorem filter_firsts_of_mem {seen : List Int} {rest : List α} (h : key x ∈ seen) :
    (firsts key (x :: rest)).filter (key · ∉ seen) =
      (firsts key rest).filter (key · ∉ seen) := by
  rw [firsts, List.filter_cons_of_neg (by simpa using h), List.filter_filter]
  apply List.filter_congr
  intro y _
  by_cases hy : key y = key x <;> simp [hy, h]

theorem filter_firsts_of_not_mem {seen : List Int} {rest : List α} (h : key x ∉ seen) :
    (firsts key (x :: rest)).filter (key · ∉ seen) =
      x :: (firsts key rest).filter (key · ∉ key x :: seen) := by
  rw [firsts, List.filter_cons_of_pos (by simpa using h), List.filter_filter]
  congr 1
  apply List.filter_congr
  intro y _
  by_cases hy : key y = key x <;> simp [hy]

theorem firsts_map {β : Type} (f : β → α) (ys : List β) :
    firsts key (ys.map f) = (firsts (fun y => key (f y)) ys).map f := by
  induction ys with
  | nil => rfl
  | cons y rest ih =>
    rw [List.map_cons, firsts, ih, List.filter_map, firsts, List.map_cons]
    rfl

theorem firstsInOrder_map {β : Type} (f : β → α) (ys : List β) :
    firstsInOrder key (ys.map f) = (firstsInOrder (fun y => key (f y)) ys).map f := by
  rw [firstsInOrder, firsts_map, sortBy_map fun _ _ => rfl]
  rfl

end Firsts

theorem Decoder.eq_of_avr {address length : Int} {mnemonic operands : String} {i : Instruction}
    (h : avr address mnemonic operands length = .ok i) :
    i.offset = address ∧ i.length = length ∧ i.text = shownText mnemonic operands := by
  unfold avr at h
  split at h
  · cases h
  · dsimp only at h
    split at h
    · cases h
      exact ⟨rfl, rfl, rfl⟩
    · cases h

namespace Listing

structure Entry where
  address : Int
  mnemonic : String
  operands : String
  length : Nat
  deriving DecidableEq, Repr

def Entry.decode (x : Entry) : Except DecodeError Instruction :=
  Decoder.avr x.address x.mnemonic x.operands x.length

def Line.asEntry : Line → Option Entry
  | noise | unreadable _ => none
  | entry address mnemonic operands length => some ⟨address, mnemonic, operands, length⟩

def entriesOf (lines : List String) : List Entry :=
  lines.filterMap fun line => (Line.ofText line).asEntry

abbrev firstEntries (lines : List String) : List Entry :=
  firsts Entry.address (entriesOf lines)

abbrev entriesInOrder (lines : List String) : List Entry :=
  firstsInOrder Entry.address (entriesOf lines)

variable {x : Entry} {skipped lines : List String} {i : Instruction}
  {instrs : List Instruction}

theorem Entry.offset_of_decode (h : x.decode = .ok i) : i.offset = x.address :=
  (Decoder.eq_of_avr h).1

theorem filterMap_asEntry_cons (address : Int) (mnemonic operands : String) (length : Nat)
    (rest : List Line) :
    (Line.entry address mnemonic operands length :: rest).filterMap Line.asEntry =
      ⟨address, mnemonic, operands, length⟩ :: rest.filterMap Line.asEntry :=
  rfl

/-- What has been found before counts as the first entries of its addresses. -/
theorem readFrom_eq_mapM (skipped : List String) (found : List Instruction) (lines : List Line) :
    (readFrom Decoder.avr skipped found lines).result =
      (((firsts Entry.address (lines.filterMap Line.asEntry)).filter
        (·.address ∉ found.map (·.offset))).mapM Entry.decode).map
          fun later => sortByOffset (found.reverse ++ later) := by
  fun_induction readFrom Decoder.avr skipped found lines with
  | case1 skipped found => simp [firsts, pure, Except.pure, Except.map]
  | case2 | case3 | case4 =>
    next ih =>
    rw [List.filterMap_cons_none rfl]
    exact ih
  | case5 skipped found address mnemonic operands length rest htaken o ih =>
    rw [filterMap_asEntry_cons, filter_firsts_of_mem (by simpa using htaken)]
    exact ih
  | case6 skipped found address mnemonic operands length rest hnew e he =>
    rw [filterMap_asEntry_cons, filter_firsts_of_not_mem (by simpa using hnew),
      List.mapM_cons, Entry.decode, he]
    rfl
  | case7 skipped found address mnemonic operands length rest hnew i hi ih =>
    have hoffset : i.offset = address := (Decoder.eq_of_avr hi).1
    rw [filterMap_asEntry_cons, filter_firsts_of_not_mem (by simpa using hnew),
      List.mapM_cons, Entry.decode, hi, ih, List.map_cons, hoffset, List.reverse_cons]
    generalize List.mapM Entry.decode _ = later
    cases later with
    | error e => rfl
    | ok later => simp [bind, Except.bind, pure, Except.pure, Except.map]

theorem read_eq_mapM (skipped lines : List String) :
    (read Decoder.avr skipped lines).result =
      ((firstEntries lines).mapM Entry.decode).map sortByOffset := by
  rw [read, readFrom_eq_mapM, List.filterMap_map]
  simp [firstEntries, entriesOf]

/-- What is read are the instructions of the first entries, in the order of their addresses. -/
theorem read_eq_ok_iff :
    (read Decoder.avr skipped lines).result = .ok instrs ↔
      List.Forall₂ (fun x i => x.decode = .ok i) (entriesInOrder lines) instrs := by
  have hsorted {found : List Instruction}
      (hfound : List.Forall₂ (fun x i => x.decode = .ok i) (firstEntries lines) found) :
      List.Forall₂ (fun x i => x.decode = .ok i) (entriesInOrder lines)
        (sortByOffset found) := by
    apply forall₂_sortBy Entry.address Instruction.offset _ hfound
    intro x i hi
    exact (Entry.offset_of_decode hi).symm
  rw [read_eq_mapM]
  constructor
  · intro hok
    obtain ⟨found, hfound, rfl⟩ := exists_of_map_eq_ok hok
    exact hsorted (mapM_eq_ok_iff.1 hfound)
  · intro hinstrs
    have hdecodes : ∀ x ∈ firstEntries lines, ∃ i, x.decode = .ok i := by
      intro x hx
      exact exists_ok_iff.1 ⟨instrs, hinstrs⟩ x (mem_sortBy.2 hx)
    obtain ⟨found, hfound⟩ := exists_ok_iff.2 hdecodes
    rw [mapM_eq_ok_iff.2 hfound, eq_of_forall₂_ok hinstrs (hsorted hfound)]
    rfl

/-- A decoder that refuses everything and says for which address it was asked. -/
def probe : Decoder :=
  fun address mnemonic operands _ => .error (.wrongOperands mnemonic operands address)

/-- The address that a line claims: the one for which the decoder is asked when the line is read
alone. A line that claims none is noise. -/
def claimed? (line : String) : Option Int :=
  match (read probe [] [line]).result with
  | .error (.wrongOperands _ _ address) => some address
  | _ => none

theorem claimed?_eq (line : String) :
    claimed? line = (Line.ofText line).asEntry.map Entry.address := by
  unfold claimed? read
  rw [List.map_singleton]
  cases Line.ofText line <;> rfl

/-- Every address is claimed by the same lines, which come in the same order. The lists may differ
in their noise and in how lines of different addresses are mixed. -/
def SameClaims (lines lines' : List String) : Prop :=
  ∀ address, lines.filter (claimed? · = some address) = lines'.filter (claimed? · = some address)

/-- Only the addresses that are claimed have to be looked at. -/
theorem sameClaims_iff {lines lines' : List String} :
    SameClaims lines lines' ↔ ∀ address ∈ (lines ++ lines').filterMap claimed?,
      lines.filter (claimed? · = some address) = lines'.filter (claimed? · = some address) := by
  constructor
  · intro h address _
    exact h address
  · intro h address
    by_cases hclaimed : address ∈ (lines ++ lines').filterMap claimed?
    · exact h address hclaimed
    · have hnone : ∀ line ∈ lines ++ lines', claimed? line ≠ some address :=
        fun line hline heq => hclaimed (List.mem_filterMap.2 ⟨line, hline, heq⟩)
      obtain ⟨hlines, hlines'⟩ := List.forall_mem_append.1 hnone
      rw [List.filter_eq_nil_iff.2 (by simpa using hlines),
        List.filter_eq_nil_iff.2 (by simpa using hlines')]

instance (lines lines' : List String) : Decidable (SameClaims lines lines') :=
  decidable_of_iff _ sameClaims_iff.symm

/-- The first entry of an address stands in the first line that claims the address. -/
theorem find?_entriesOf (lines : List String) (address : Int) :
    (entriesOf lines).find? (·.address = address) =
      (lines.find? (claimed? · = some address)).bind fun line => (Line.ofText line).asEntry := by
  unfold entriesOf
  induction lines with
  | nil => rfl
  | cons line rest ih =>
    rw [List.find?_cons, claimed?_eq]
    cases hline : (Line.ofText line).asEntry with
    | none => simpa [hline] using ih
    | some x =>
      by_cases hx : x.address = address
      · simp [hline, hx]
      · simpa [hline, hx] using ih

theorem entriesInOrder_eq {lines lines' : List String} (h : SameClaims lines lines') :
    entriesInOrder lines = entriesInOrder lines' := by
  have hmem (x : Entry) : x ∈ firstEntries lines ↔ x ∈ firstEntries lines' := by
    rw [mem_firsts_iff, mem_firsts_iff, find?_entriesOf, find?_entriesOf, ← List.head?_filter,
      ← List.head?_filter, h x.address]
  have hperm : (firstEntries lines).Perm (firstEntries lines') :=
    (List.perm_ext_iff_of_nodup (nodup_firsts _).of_map (nodup_firsts _).of_map).2 hmem
  -- The addresses differ, so there is one way only to put the entries in their order.
  refine List.Perm.eq_of_pairwise ?_ (pairwise_firstsInOrder _) (pairwise_firstsInOrder _) ?_
  · intro x y _ _ hxy hyx
    omega
  · exact (perm_sortBy _ _).trans (hperm.trans (perm_sortBy _ _).symm)

structure FirstClaim (before : List String) (line : String) (x : Entry) : Prop where
  entry : (Line.ofText line).asEntry = some x
  unclaimed : ∀ earlier ∈ before, claimed? earlier ≠ some x.address

theorem FirstClaim.claimed {before : List String} {line : String} (h : FirstClaim before line x) :
    claimed? line = some x.address := by
  rw [claimed?_eq, h.entry, Option.map_some]

theorem mem_firstEntries_iff :
    x ∈ firstEntries lines ↔
      ∃ before line after, lines = before ++ line :: after ∧ FirstClaim before line x := by
  rw [mem_firsts_iff, find?_entriesOf, Option.bind_eq_some_iff]
  simp only [List.find?_eq_some_iff_append, Bool.not_eq_true', decide_eq_true_eq,
    decide_eq_false_iff_not]
  constructor
  · rintro ⟨line, ⟨-, before, after, rfl, hbefore⟩, hline⟩
    exact ⟨before, line, after, rfl, hline, hbefore⟩
  · rintro ⟨before, line, after, rfl, hfirst⟩
    exact ⟨line, ⟨hfirst.claimed, before, after, rfl, hfirst.unclaimed⟩, hfirst.entry⟩

theorem firstEntries_append {before : List String} {line : String} (after : List String)
    (h : FirstClaim before line x) :
    ∃ later, firstEntries (before ++ line :: after) =
      firstEntries before ++ x :: later := by
  have hentries : entriesOf (before ++ line :: after) =
      entriesOf before ++ x :: entriesOf after := by
    simp [entriesOf, h.entry]
  have hnew : x.address ∉ (entriesOf before).map (·.address) := by
    intro hmem
    obtain ⟨y, hy, hyx⟩ := List.mem_map.1 hmem
    obtain ⟨earlier, hearlier, hentry⟩ := List.mem_filterMap.1 hy
    apply h.unclaimed earlier hearlier
    rw [claimed?_eq, hentry, Option.map_some, hyx]
  rw [firstEntries, hentries, firsts_append, filter_firsts_of_not_mem hnew]
  exact ⟨_, rfl⟩

def Rejected (before : List String) (line : String) (e : DecodeError) : Prop :=
  ∃ x, FirstClaim before line x ∧ x.decode = .error e

def FirstRejected (lines : List String) (e : DecodeError) : Prop :=
  ∃ before line after, lines = before ++ line :: after ∧ Rejected before line e ∧
    ∀ before' line' after' e', before = before' ++ line' :: after' → ¬ Rejected before' line' e'

theorem decodes_iff_not_rejected :
    (∀ x ∈ firstEntries lines, ∃ i, x.decode = .ok i) ↔
      ∀ before line after e, lines = before ++ line :: after → ¬ Rejected before line e := by
  constructor
  · rintro h before line after e heq ⟨x, hfirst, hx⟩
    obtain ⟨i, hi⟩ := h x (mem_firstEntries_iff.2 ⟨before, line, after, heq, hfirst⟩)
    rw [hx] at hi
    cases hi
  · intro h x hx
    obtain ⟨before, line, after, heq, hfirst⟩ := mem_firstEntries_iff.1 hx
    cases hdecode : x.decode with
    | ok i => exact ⟨i, rfl⟩
    | error e => exact absurd ⟨x, hfirst, hdecode⟩ (h before line after e heq)

theorem read_eq_error_iff {e : DecodeError} :
    (read Decoder.avr skipped lines).result = .error e ↔ FirstRejected lines e := by
  have hmapM : (read Decoder.avr skipped lines).result = .error e ↔
      (firstEntries lines).mapM Entry.decode = .error e := by
    rw [read_eq_mapM]
    constructor
    · exact eq_error_of_map_eq_error
    · intro h
      rw [h]
      rfl
  rw [hmapM, mapM_eq_error_iff]
  constructor
  · rintro ⟨pre, x, post, hfirsts, hpre, hx⟩
    have hmem : x ∈ firstEntries lines := hfirsts ▸ List.mem_append_cons_self
    obtain ⟨before, line, after, rfl, hfirst⟩ := mem_firstEntries_iff.1 hmem
    obtain ⟨later, hlater⟩ := firstEntries_append after hfirst
    -- An entry occurs once among the first ones, so the same entries stand before it in both.
    have hnodup : (firstEntries (before ++ line :: after)).Nodup := (nodup_firsts _).of_map
    rw [hfirsts, List.nodup_middle, List.nodup_cons, List.mem_append, not_or] at hnodup
    have hsame : pre = firstEntries before :=
      ((List.append_cons_inj_of_notMem hnodup.1.1 hnodup.1.2).1 (hfirsts ▸ hlater)).1
    refine ⟨before, line, after, rfl, ⟨x, hfirst, hx⟩, ?_⟩
    exact decodes_iff_not_rejected.1 (hsame ▸ hpre)
  · rintro ⟨before, line, after, rfl, ⟨x, hfirst, hx⟩, hbefore⟩
    obtain ⟨later, hlater⟩ := firstEntries_append after hfirst
    exact ⟨_, x, later, hlater, decodes_iff_not_rejected.2 hbefore, hx⟩

/-- What is read depends only on which line claims an address first. Lines that are noise, lines
that claim an address again and the mixture of lines of different addresses change nothing but which
of several errors comes first. -/
theorem read_firstClaims (skipped lines : List String) :
    (∀ skipped' lines', SameClaims lines lines' → ∀ instrs,
      (read Decoder.avr skipped lines).result = .ok instrs ↔
        (read Decoder.avr skipped' lines').result = .ok instrs) ∧
    (∀ e, (read Decoder.avr skipped lines).result = .error e ↔ FirstRejected lines e) ∧
    ((∃ e, (read Decoder.avr skipped lines).result = .error e) ↔
      ∃ before line after e, lines = before ++ line :: after ∧ Rejected before line e) := by
  refine ⟨?_, fun e => read_eq_error_iff, ?_⟩
  · intro skipped' lines' h instrs
    rw [read_eq_ok_iff, read_eq_ok_iff, entriesInOrder_eq h]
  · constructor
    · rintro ⟨e, he⟩
      obtain ⟨before, line, after, heq, hrejected, -⟩ := read_eq_error_iff.1 he
      exact ⟨before, line, after, e, heq, hrejected⟩
    · rintro ⟨before, line, after, e, heq, hrejected⟩
      cases hresult : (read Decoder.avr skipped lines).result with
      | error e' => exact ⟨e', rfl⟩
      | ok instrs =>
        have hdecodes : ∀ x ∈ firstEntries lines, ∃ i, x.decode = .ok i := by
          intro x hx
          exact exists_ok_iff.1 ⟨instrs, read_eq_ok_iff.1 hresult⟩ x (mem_sortBy.2 hx)
        exact absurd hrejected (decodes_iff_not_rejected.1 hdecodes before line after e heq)

/-- The address 2 is claimed a second time, without the operand that a branch needs. -/
def orderlyLines : List String :=
  ["   0:\t01 d0\trcall\t.+2", "   2:\tfe cf\trjmp\t.-2", "   2:\tf1 f7\tbrne",
    "   4:\t08 95\tret"]

def mixedLines : List String :=
  ["00000000 <main>:", "   4:\t08 95\tret", "   2:\tfe cf\trjmp\t.-2", "   6:\tword\tret",
    "   2:\tf1 f7\tbrne", "\t...", "   0:\t01 d0\trcall\t.+2"]

theorem firstClaims_mixedLines :
    SameClaims orderlyLines mixedLines ∧
      (read Decoder.avr [] mixedLines).result =
        .ok [⟨0, some .rcall, "rcall", [2], 2, "rcall .+2"⟩,
          ⟨2, some .rjmp, "rjmp", [-2], 2, "rjmp .-2"⟩, ⟨4, some .ret, "ret", [], 2, "ret"⟩] ∧
      FirstRejected ("   2:\tf1 f7\tbrne" :: orderlyLines) (.wrongOperands "brne" "" 2) := by
  have hsame : SameClaims orderlyLines mixedLines := by decide +kernel
  have hread : (read Decoder.avr [] orderlyLines).result =
      .ok [⟨0, some .rcall, "rcall", [2], 2, "rcall .+2"⟩,
        ⟨2, some .rjmp, "rjmp", [-2], 2, "rjmp .-2"⟩, ⟨4, some .ret, "ret", [], 2, "ret"⟩] := by
    decide +kernel
  refine ⟨hsame, ((read_firstClaims [] orderlyLines).1 [] mixedLines hsame _).1 hread, ?_⟩
  exact ((read_firstClaims [] _).2.1 _).1 (by decide +kernel)

end Listing

end AvrFlow
