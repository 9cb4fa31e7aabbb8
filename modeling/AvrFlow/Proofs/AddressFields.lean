import AvrFlow.Proofs.HexLiterals
import AvrFlow.Proofs.Transcript

/-!
Which address fields are read. The address of a line may be any literal of base sixteen, and no
other field gives an instruction. A disassembler writes plain digits, and from these no negative
offset comes; but a sign, a prefix, an underscore, a foreign digit or a blank before the colon is
read too. So only listings with plain fields give what the data model promises of offsets.
-/

namespace AvrFlow.Listing

open AvrFlow.Text

/-- What stands before the first tab of a line, without the blanks at the start of the line. -/
def addressField (line : String) : List Char :=
  before '\t' (trim line.toList)

def Addressed (line : String) (n : Int) : Prop :=
  ∃ literal, addressField line = literal ++ [':'] ∧ HexLiteral literal n

def PlainlyAddressed (line : String) : Prop :=
  ∃ digits, addressField line = digits ++ [':'] ∧ digits ≠ [] ∧
    ∀ c ∈ digits, isHexDigit c = true

def HasInstruction (line : String) : Prop :=
  ∃ address bytes mnemonic more,
    pieces '\t' (trim line.toList) = address :: bytes :: mnemonic :: more ∧
      trim mnemonic ≠ [] ∧ ∃ b bs, opcodeBytes? (trim bytes) = some (b :: bs)

/-- The first line that claims the offset of an instruction is decoded to it. -/
def ComesFrom (lines : List String) (line : String) (i : Instruction) : Prop :=
  lines.find? (claimed? · = some i.offset) = some line ∧
    ∃ x, (Line.ofText line).asEntry = some x ∧ x.decode = .ok i

/-- What a listing with plain addresses gives: no offset is negative, every instruction comes from
a line with a plain address, and every other line might as well be missing. -/
structure OnlyPlain (lines : List String) (instrs : List Instruction) : Prop where
  nonneg : ∀ i ∈ instrs, 0 ≤ i.offset
  plain : ∀ i ∈ instrs, ∃ line, ComesFrom lines line i ∧ PlainlyAddressed line
  skipped : ∀ before line after, lines = before ++ line :: after → ¬ PlainlyAddressed line →
    (read Decoder.avr [] (before ++ after)).result = .ok instrs

section Fields

variable {line : String} {n : Int}

theorem exists_pieces_eq_before_cons (sep : Char) (s : List Char) :
    ∃ more, pieces sep s = before sep s :: more := by
  by_cases hsep : sep ∈ s
  · obtain ⟨front, back, rfl, hfront⟩ := List.eq_append_cons_of_mem hsep
    refine ⟨pieces sep back, ?_⟩
    rw [pieces_append_cons hfront, before_append_of_not_mem hfront, before_cons_self,
      List.append_nil]
  · have hall := before_append_of_not_mem hsep []
    rw [List.append_nil] at hall
    exact ⟨[], by rw [pieces_of_not_mem hsep, hall]; simp [before]⟩

/-- An entry has an address field, bytes and a mnemonic. -/
theorem of_lineOfFields {text address : List Char} {fields : List (List Char)} {x : Entry}
    (h : (lineOfFields text (address :: fields)).asEntry = some x) :
    address.getLast? = some ':' ∧ readInteger .sixteen address.dropLast = .ok x.address ∧
      ∃ bytes mnemonic more, fields = bytes :: mnemonic :: more ∧ trim mnemonic ≠ [] ∧
        ∃ b bs, opcodeBytes? (trim bytes) = some (b :: bs) := by
  unfold lineOfFields at h
  split at h
  · next address' bytes mnemonic more heq =>
    obtain ⟨rfl, rfl⟩ := List.cons.inj heq
    split at h
    · cases h
    · next hguard =>
      rw [not_or, not_ne_iff] at hguard
      split at h
      · next a b bs ha hbytes =>
        cases h
        exact ⟨hguard.1, ha, bytes, mnemonic, more, rfl, hguard.2, b, bs, hbytes⟩
      · cases h
  · cases h

theorem asEntry_eq_some {x : Entry} (h : (Line.ofText line).asEntry = some x) :
    Addressed line x.address ∧ HasInstruction line := by
  obtain ⟨more, hpieces⟩ := exists_pieces_eq_before_cons '\t' (trim line.toList)
  have hfields : (lineOfFields (trim line.toList) (pieces '\t' (trim line.toList))).asEntry =
      some x := by
    unfold Line.ofText at h
    dsimp only at h
    split at h
    · cases h
    · split at h
      · cases h
      · exact h
  rw [hpieces] at hfields
  obtain ⟨hcolon, hread, bytes, mnemonic, later, rfl, hmnemonic, hbytes⟩ :=
    of_lineOfFields hfields
  refine ⟨⟨(addressField line).dropLast, ?_, readInteger_sixteen_iff.1 hread⟩,
    addressField line, bytes, mnemonic, later, hpieces, hmnemonic, hbytes⟩
  exact (List.dropLast_append_getLast? ':' hcolon).symm

/-- A literal holds none of the characters by which a header is told. -/
theorem not_header_of_hexLiteral {s : List Char} (h : HexLiteral s n) : 'i' ∉ s ∧ '<' ∉ s := by
  have hliteral {a : Char} (hhex : hexDigitValue? a = none) (hdigit : digitValue? a = none)
      (ha : a ∉ ['+', '-', 'x', 'X', '_']) : ¬ LiteralChar a := by
    rintro (⟨d, hd⟩ | hmem)
    · exact hd.ne hhex hdigit rfl
    · exact ha hmem
  exact ⟨h.not_mem (by decide) (hliteral (by decide) (by decide) (by decide)),
    h.not_mem (by decide) (hliteral (by decide) (by decide) (by decide))⟩

/-- The address of a line that claims one is the literal in its address field, and every literal is
taken. -/
theorem claimed?_eq_some_iff :
    claimed? line = some n ↔ Addressed line n ∧ HasInstruction line := by
  rw [claimed?_eq, Option.map_eq_some_iff]
  constructor
  · rintro ⟨x, hx, rfl⟩
    exact asEntry_eq_some hx
  · rintro ⟨⟨literal, hfield, hliteral⟩, address, bytes, mnemonic, more, hpieces, hmnemonic, b, bs,
      hbytes⟩
    -- A line that begins with a literal and a colon is no header, so it is cut into its fields.
    obtain ⟨later, hbefore⟩ := exists_pieces_eq_before_cons '\t' (trim line.toList)
    obtain rfl : address = literal ++ [':'] := by
      rw [hpieces] at hbefore
      exact (List.cons.inj hbefore).1.trans hfield
    have htext : trim line.toList =
        literal ++ ':' :: (trim line.toList).dropWhile (· ≠ '\t') := by
      have hsplit := List.takeWhile_append_dropWhile (p := (· ≠ '\t')) (l := trim line.toList)
      rw [← before, ← addressField, hfield, List.append_assoc] at hsplit
      exact hsplit.symm
    have hguard : ¬ ((literal ++ [':']).getLast? ≠ some ':' ∨ trim mnemonic = []) := by
      simp [hmnemonic]
    obtain ⟨hletter, hangle⟩ := not_header_of_hexLiteral hliteral
    rw [ofText_eq_lineOfFields hletter hangle htext, hpieces, lineOfFields, if_neg hguard,
      List.dropLast_concat, readInteger_sixteen_iff.2 hliteral, hbytes]
    exact ⟨_, rfl, rfl⟩

theorem PlainlyAddressed.minus_not_mem (h : PlainlyAddressed line) :
    '-' ∉ addressField line := by
  obtain ⟨digits, hfield, -, hdigits⟩ := h
  rw [hfield, List.mem_append, not_or]
  refine ⟨?_, by decide⟩
  intro hmem
  exact absurd (hdigits '-' hmem) (by decide)

theorem Addressed.minus_mem (h : Addressed line n) (hn : n < 0) : '-' ∈ addressField line := by
  obtain ⟨literal, hfield, hliteral⟩ := h
  rw [hfield]
  exact List.mem_append_left _ (hliteral.minus_mem hn)

end Fields

section Lines

variable {lines skipped : List String} {line : String} {instrs : List Instruction}
  {i : Instruction}

theorem ComesFrom.addressed (h : ComesFrom lines line i) : Addressed line i.offset := by
  obtain ⟨-, x, hx, hdecode⟩ := h
  rw [Entry.offset_of_decode hdecode]
  exact (asEntry_eq_some hx).1

theorem ComesFrom.unique {other : String} (h : ComesFrom lines line i)
    (h' : ComesFrom lines other i) : line = other :=
  Option.some.inj (h.1.symm.trans h'.1)

theorem exists_mem_of_forall₂ {α β : Type} {R : α → β → Prop} {xs : List α} {ys : List β}
    (h : List.Forall₂ R xs ys) {y : β} (hy : y ∈ ys) : ∃ x ∈ xs, R x y := by
  induction h with
  | nil => cases hy
  | @cons x z xs ys hxz _ ih =>
    rcases List.mem_cons.1 hy with rfl | hy
    · exact ⟨x, by simp, hxz⟩
    · obtain ⟨x, hx, hxy⟩ := ih hy
      exact ⟨x, List.mem_cons_of_mem _ hx, hxy⟩

theorem exists_comesFrom (h : (read Decoder.avr skipped lines).result = .ok instrs)
    (hi : i ∈ instrs) : ∃ line, ComesFrom lines line i := by
  obtain ⟨x, hx, hdecode⟩ := exists_mem_of_forall₂ (read_eq_ok_iff.1 h) hi
  have hfirst := mem_firsts_iff.1 (mem_sortBy.1 hx)
  rw [find?_entriesOf, Option.bind_eq_some_iff] at hfirst
  obtain ⟨line, hline, hentry⟩ := hfirst
  refine ⟨line, ?_, x, hentry, hdecode⟩
  rw [Entry.offset_of_decode hdecode]
  exact hline

/-- Where reading succeeds, an instruction comes of every line that claims its address first. -/
theorem exists_of_firstClaim {before after : List String} {x : Entry}
    (h : (read Decoder.avr skipped (before ++ line :: after)).result = .ok instrs)
    (hx : FirstClaim before line x) :
    ∃ i ∈ instrs, ComesFrom (before ++ line :: after) line i := by
  have hmem : x ∈ entriesInOrder (before ++ line :: after) :=
    mem_sortBy.2 (mem_firstEntries_iff.2 ⟨before, line, after, rfl, hx⟩)
  obtain ⟨i, hi, hdecode⟩ := exists_mem_of_forall₂ (read_eq_ok_iff.1 h).flip hmem
  refine ⟨i, hi, ?_, x, hx.entry, hdecode⟩
  rw [List.find?_eq_some_iff_append, Entry.offset_of_decode hdecode]
  refine ⟨by simpa using hx.claimed, before, after, rfl, ?_⟩
  intro earlier hearlier
  simpa using hx.unclaimed earlier hearlier

/-- A line that claims no address, or one that has been claimed before it, might as well be
missing. -/
theorem firstEntries_erase {before : List String} (after : List String)
    (h : ∀ x, ¬ FirstClaim before line x) :
    firstEntries (before ++ line :: after) = firstEntries (before ++ after) := by
  unfold firstEntries entriesOf
  rw [List.filterMap_append, List.filterMap_append, List.filterMap_cons]
  cases hentry : (Line.ofText line).asEntry with
  | none => rfl
  | some x =>
    have hclaimed : x.address ∈ (entriesOf before).map (·.address) := by
      by_contra hnew
      refine h x ⟨hentry, ?_⟩
      intro earlier hearlier heq
      rw [claimed?_eq, Option.map_eq_some_iff] at heq
      obtain ⟨y, hy, heq⟩ := heq
      exact hnew (List.mem_map.2 ⟨y, List.mem_filterMap.2 ⟨earlier, hearlier, hy⟩, heq⟩)
    rw [firsts_append, firsts_append, ← entriesOf]
    congr 1
    exact filter_firsts_of_mem hclaimed

theorem read_erase {before after : List String}
    (h : (read Decoder.avr skipped (before ++ line :: after)).result = .ok instrs)
    (hfirst : ∀ x, ¬ FirstClaim before line x) (skipped' : List String) :
    (read Decoder.avr skipped' (before ++ after)).result = .ok instrs := by
  rw [read_eq_mapM, firstEntries_erase after hfirst] at h
  rw [read_eq_mapM]
  exact h

/-- Instructions come from lines whose address field is a literal of base sixteen, which denotes
their offset, and a negative offset has a minus sign there. Every other line might as well be
missing. A listing gives what plain addresses give exactly if the lines that its instructions come
from have plain addresses. -/
theorem read_addressFields (skipped lines : List String) (instrs : List Instruction)
    (h : (read Decoder.avr skipped lines).result = .ok instrs) :
    (∀ i ∈ instrs, ∃ line, ComesFrom lines line i ∧ Addressed line i.offset ∧
      (i.offset < 0 → '-' ∈ addressField line)) ∧
    (∀ before line after, lines = before ++ line :: after → (∀ n, ¬ Addressed line n) →
      (read Decoder.avr [] (before ++ after)).result = .ok instrs) ∧
    (∀ line n, claimed? line = some n ↔ Addressed line n ∧ HasInstruction line) ∧
    (OnlyPlain lines instrs ↔
      ∀ i ∈ instrs, ∀ line, ComesFrom lines line i → PlainlyAddressed line) := by
  refine ⟨?_, ?_, fun _ _ => claimed?_eq_some_iff, ?_⟩
  · intro i hi
    obtain ⟨line, hline⟩ := exists_comesFrom h hi
    exact ⟨line, hline, hline.addressed, hline.addressed.minus_mem⟩
  · rintro before line after rfl hnone
    apply read_erase h
    intro x hx
    exact hnone x.address (asEntry_eq_some hx.entry).1
  · constructor
    · intro honly i hi line hline
      obtain ⟨other, hother, hplain⟩ := honly.plain i hi
      exact hline.unique hother ▸ hplain
    · intro hplain
      refine ⟨?_, ?_, ?_⟩
      · -- A negative offset would need a sign among the plain digits.
        intro i hi
        obtain ⟨line, hline⟩ := exists_comesFrom h hi
        by_contra hneg
        exact (hplain i hi line hline).minus_not_mem (hline.addressed.minus_mem (by omega))
      · intro i hi
        obtain ⟨line, hline⟩ := exists_comesFrom h hi
        exact ⟨line, hline, hplain i hi line hline⟩
      · -- An address that was claimed before needs no plain field: the line is not decoded.
        rintro before line after rfl hnot
        apply read_erase h
        intro x hx
        obtain ⟨i, hi, hline⟩ := exists_of_firstClaim h hx
        exact hnot (hplain i hi line hline)

end Lines

/-- Addresses with a prefix, an underscore and a blank, a digit of another script and a sign. -/
def oddLines : List String :=
  ["0x_4:\t00 00\tnop", "1_0 :\t08 95\tret", "\u0663:\t00\tnop", "  -2:\t00 00\tnop"]

theorem read_addressFields_oddLines :
    (read Decoder.avr [] oddLines).result =
        .ok [⟨-2, none, "nop", [], 2, "nop"⟩, ⟨3, none, "nop", [], 1, "nop"⟩,
          ⟨4, none, "nop", [], 2, "nop"⟩, ⟨16, some .ret, "ret", [], 2, "ret"⟩] ∧
      ∃ line, ComesFrom oddLines line ⟨-2, none, "nop", [], 2, "nop"⟩ ∧ Addressed line (-2) ∧
        '-' ∈ addressField line := by
  have hread : (read Decoder.avr [] oddLines).result =
      .ok [⟨-2, none, "nop", [], 2, "nop"⟩, ⟨3, none, "nop", [], 1, "nop"⟩,
        ⟨4, none, "nop", [], 2, "nop"⟩, ⟨16, some .ret, "ret", [], 2, "ret"⟩] := by
    decide +kernel
  obtain ⟨line, hline, haddressed, hminus⟩ :=
    (read_addressFields [] oddLines _ hread).1 _ List.mem_cons_self
  exact ⟨hread, line, hline, haddressed, hminus (by decide)⟩

/-- One signed address is enough for a negative offset. -/
theorem not_onlyPlain_signedLine :
    (read Decoder.avr [] ["  -2:\t00 00\tnop"]).result = .ok [⟨-2, none, "nop", [], 2, "nop"⟩] ∧
      ¬ PlainlyAddressed "  -2:\t00 00\tnop" ∧
      ¬ OnlyPlain ["  -2:\t00 00\tnop"] [⟨-2, none, "nop", [], 2, "nop"⟩] := by
  refine ⟨by decide +kernel, ?_, ?_⟩
  · intro hplain
    exact hplain.minus_not_mem (by decide +kernel)
  · intro honly
    exact absurd (honly.nonneg _ List.mem_cons_self) (by decide)

end AvrFlow.Listing
