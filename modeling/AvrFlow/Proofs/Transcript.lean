import AvrFlow.Proofs.FirstEntries
import AvrFlow.Proofs.Numerals
import Mathlib.Data.List.TakeWhile

namespace AvrFlow.Listing

open AvrFlow.Text

structure Record where
  address : Nat
  bytes : List UInt8
  mnemonic : String
  operands : Option String
  comment : Option String
  bytes_ne_nil : bytes ≠ []
  mnemonic_ne_empty : mnemonic ≠ ""
  tab_not_mem : '\t' ∉ mnemonic.toList
  trimmed_mnemonic : trimmed mnemonic = mnemonic
  semicolon_not_mem : ∀ s ∈ operands, ';' ∉ s.toList
  trimmed_operands : ∀ s ∈ operands, trimmed s = s

def spaces (n : Nat) : List Char :=
  List.replicate n ' '

inductive ByteRow : List UInt8 → List Char → Prop
  | single {b : UInt8} {s : List Char} (hb : HexText 2 b.toNat s) : ByteRow [b] s
  | cons {b : UInt8} {s : List Char} {bytes : List UInt8} {row : List Char}
      (hb : HexText 2 b.toNat s) (n : Nat) (hrest : ByteRow bytes row) :
      ByteRow (b :: bytes) (s ++ spaces (n + 1) ++ row)

/-- A way to print a record: the padding, and how its numbers are written. -/
structure Layout (r : Record) where
  indent : Nat
  width : Nat
  address : List Char
  bytes : List Char
  gap : Nat
  trail : Nat
  hexText_address : HexText width r.address address
  byteRow : ByteRow r.bytes bytes

namespace Record

def operandPart (r : Record) (trail : Nat) : List Char :=
  match r.operands with
  | none => []
  | some s => '\t' :: (s.toList ++ spaces trail)

def commentPart (r : Record) : List Char :=
  match r.comment with
  | none => []
  | some s => '\t' :: ';' :: ' ' :: s.toList

def remainder (r : Record) (trail : Nat) : List Char :=
  r.operandPart trail ++ r.commentPart

def print (r : Record) (l : Layout r) : String :=
  String.ofList (spaces l.indent ++ l.address ++ ':' :: '\t' ::
    (l.bytes ++ spaces l.gap ++ '\t' :: (r.mnemonic.toList ++ r.remainder l.trail)))

/-- The operands as one text, which is empty if there are none. -/
def operandText (r : Record) : String :=
  r.operands.getD ""

def entry (r : Record) : Entry :=
  ⟨r.address, r.mnemonic, r.operandText, r.bytes.length⟩

end Record

theorem isBlank_spaces {n : Nat} : ∀ c ∈ spaces n, isBlank c = true := by
  intro c hc
  rw [List.eq_of_mem_replicate hc]
  decide

theorem not_mem_spaces {c : Char} {n : Nat} (hc : c ≠ ' ') : c ∉ spaces n := by
  intro hmem
  exact hc (List.eq_of_mem_replicate hmem)

theorem trim_eq_of_trimmed {s : String} (h : trimmed s = s) : trim s.toList = s.toList := by
  have hlist := congrArg String.toList h
  rwa [trimmed, String.toList_ofList] at hlist

theorem opcodeBytes?_append {b : UInt8} {s : List Char} (h : HexText 2 b.toNat s)
    (rest : List Char) : opcodeBytes? (s ++ rest) = (opcodeBytes? rest).map (b.toNat :: ·) := by
  obtain ⟨c, d, high, low, rfl, hc, hd, hb⟩ := h.exists_pair
  have hblank := isAsciiBlank_of_isHexDigit (h.isHexDigit c (by simp))
  simp [opcodeBytes?, hblank, hc, hd, hb]

theorem opcodeBytes?_spaces (n : Nat) (rest : List Char) :
    opcodeBytes? (spaces n ++ rest) = opcodeBytes? rest := by
  induction n with
  | zero => rfl
  | succ n ih =>
    rw [spaces, List.replicate_succ, List.cons_append, opcodeBytes?.eq_def]
    exact ih

namespace ByteRow

variable {bytes : List UInt8} {row : List Char}

theorem opcodeBytes?_eq (h : ByteRow bytes row) :
    opcodeBytes? row = some (bytes.map UInt8.toNat) := by
  induction h with
  | @single b s hb =>
    have hone := opcodeBytes?_append hb []
    rwa [List.append_nil] at hone
  | cons hb n _ ih =>
    rw [List.append_assoc, opcodeBytes?_append hb, opcodeBytes?_spaces, ih]
    rfl

theorem ne_nil (h : ByteRow bytes row) : row ≠ [] := by
  cases h with
  | single hb => exact hb.ne_nil
  | cons hb => simp [hb.ne_nil]

theorem trim_eq (h : ByteRow bytes row) : trim row = row := by
  induction h with
  | single hb => exact hb.trim_eq
  | cons hb n hrest ih =>
    exact trim_between (trim_eq_self_iff.1 hb.trim_eq).1 hb.ne_nil
      (trim_eq_self_iff.1 ih).2 hrest.ne_nil _

theorem tab_not_mem (h : ByteRow bytes row) : '\t' ∉ row := by
  induction h with
  | single hb => exact hb.tab_not_mem
  | cons hb n _ ih => simp [hb.tab_not_mem, not_mem_spaces, ih]

end ByteRow

theorem exists_trimEnd_append (s : List Char) :
    ∃ post, (∀ c ∈ post, isBlank c = true) ∧ s = trimEnd s ++ post := by
  refine ⟨(s.reverse.takeWhile isBlank).reverse, ?_, ?_⟩
  · intro c hc
    exact List.mem_takeWhile_imp (List.mem_reverse.1 hc)
  · rw [trimEnd, ← List.reverse_append, List.takeWhile_append_dropWhile, List.reverse_reverse]

/-- Blanks at the end are gone whether a comment is cut off before or after them. -/
theorem trim_before_trimEnd (s : List Char) :
    trim (before ';' (trimEnd s)) = trim (before ';' s) := by
  obtain ⟨post, hpost, hs⟩ := exists_trimEnd_append s
  generalize trimEnd s = t at hs
  subst hs
  -- The blanks stand behind the first semicolon, or else at the end of what is kept.
  by_cases hmem : ';' ∈ t
  · obtain ⟨front, back, rfl, hfront⟩ := List.eq_append_cons_of_mem hmem
    rw [List.append_assoc, before_append_of_not_mem hfront, before_append_of_not_mem hfront]
    simp [before_cons_self]
  · have hblank : ∀ c ∈ before ';' post, isBlank c = true :=
      fun c hc => hpost c ((List.takeWhile_prefix _).subset hc)
    have ht := before_append_of_not_mem hmem []
    rw [List.append_nil] at ht
    rw [before_append_of_not_mem hmem, trim_append_right hblank, ht]
    simp [before]

/-- The fields from the mnemonic on, and the operands that come of them. -/
theorem exists_fields {m rest : List Char} (hm : '\t' ∉ m)
    (hrest : rest = [] ∨ ∃ t, rest = '\t' :: t) :
    ∃ more, pieces '\t' (m ++ trimEnd rest) = m :: more ∧
      operandField more = String.ofList (trim (before ';' rest)) := by
  obtain ⟨post, -, hsplit⟩ := exists_trimEnd_append rest
  rw [← trim_before_trimEnd rest]
  cases ht : trimEnd rest with
  | nil => exact ⟨[], by rw [List.append_nil, pieces_of_not_mem hm], rfl⟩
  | cons c t =>
    -- Only a tab can follow the mnemonic.
    have hc : c = '\t' := by
      rcases hrest with hnil | ⟨t', htab⟩
      · rw [hnil] at ht
        cases ht
      · rw [ht, htab, List.cons_append] at hsplit
        exact (List.cons.inj hsplit).1.symm
    subst hc
    have htab : before ';' ('\t' :: t) = '\t' :: before ';' t :=
      before_append_of_not_mem (s := ['\t']) (by decide) t
    refine ⟨pieces '\t' t, pieces_append_cons hm t, ?_⟩
    rw [operandField, intercalate_pieces, htab, trim_cons_of_isBlank (by decide)]

namespace Record

theorem remainder_eq_nil_or (r : Record) (trail : Nat) :
    r.remainder trail = [] ∨ ∃ t, r.remainder trail = '\t' :: t := by
  unfold remainder operandPart commentPart
  cases r.operands with
  | none =>
    cases r.comment with
    | none => exact Or.inl rfl
    | some s => exact Or.inr ⟨_, rfl⟩
  | some s => exact Or.inr ⟨_, rfl⟩

theorem semicolon_not_mem_operandPart (r : Record) (trail : Nat) :
    ';' ∉ r.operandPart trail := by
  unfold operandPart
  split
  · simp
  · next s hs =>
    have hspaces : ';' ∉ spaces trail := not_mem_spaces (by decide)
    simp [r.semicolon_not_mem s hs, hspaces]

theorem trim_operandPart (r : Record) (trail : Nat) :
    trim (r.operandPart trail) = r.operandText.toList := by
  unfold operandPart operandText
  cases hs : r.operands with
  | none => rfl
  | some s =>
    calc trim ('\t' :: (s.toList ++ spaces trail))
        = trim (s.toList ++ spaces trail) := trim_cons_of_isBlank (by decide) _
      _ = trim s.toList := trim_append_right isBlank_spaces _
      _ = s.toList := trim_eq_of_trimmed (r.trimmed_operands s hs)

theorem isBlank_before_commentPart (r : Record) :
    ∀ c ∈ before ';' r.commentPart, isBlank c = true := by
  unfold commentPart
  split
  · simp [before]
  · next s hs =>
    have htab : before ';' ('\t' :: ';' :: ' ' :: s.toList) = ['\t'] := by simp [before]
    rw [htab, List.forall_mem_singleton]
    decide

/-- The operands are left when comment and padding have been cut off. -/
theorem trim_before_remainder (r : Record) (trail : Nat) :
    trim (before ';' (r.remainder trail)) = r.operandText.toList := by
  rw [remainder, before_append_of_not_mem (r.semicolon_not_mem_operandPart trail),
    trim_append_right r.isBlank_before_commentPart, trim_operandPart]

end Record

theorem dropWhile_append_colon {p : Char → Bool} (hp : p ':' = false) (s rest : List Char) :
    (s ++ ':' :: rest).dropWhile p = s.dropWhile p ++ ':' :: rest := by
  rw [List.dropWhile_append, List.dropWhile_cons_of_neg (by simp [hp])]
  split
  · next hnil => rw [List.isEmpty_iff.1 hnil, List.nil_append]
  · rfl

/-- A header of a section has the letter `i` near its start and a header of a symbol an angle
bracket; neither stands before a colon. -/
theorem isHeader_eq_false {address : List Char} (hletter : 'i' ∉ address)
    (hangle : '<' ∉ address) (rest : List Char) :
    (isSectionHeader (address ++ ':' :: rest) || isSymbolHeader (address ++ ':' :: rest)) =
      false := by
  rw [Bool.or_eq_false_iff]
  constructor
  · have hintro : sectionIntro.isPrefixOf (address ++ ':' :: rest) = false := by
      have hletters : sectionIntro = 'D' :: 'i' :: sectionIntro.drop 2 := by decide
      rw [hletters]
      cases address with
      | nil => simp [List.isPrefixOf]
      | cons c address =>
        cases address with
        | nil => simp [List.isPrefixOf]
        | cons d address =>
          have hd : 'i' ≠ d := fun heq => hletter (by simp [← heq])
          simp [List.isPrefixOf, hd]
    simp [isSectionHeader, hintro]
  · unfold isSymbolHeader
    dsimp only
    rw [dropWhile_append_colon (by decide), dropWhile_append_colon (by decide)]
    split
    · next name heq =>
      -- The bracket would be the colon or belong to the address.
      cases hdrop : (address.dropWhile isHexDigit).dropWhile isBlank with
      | nil =>
        rw [hdrop] at heq
        cases heq
      | cons c later =>
        rw [hdrop] at heq
        obtain ⟨rfl, -⟩ := List.cons.inj heq
        have hsuffix : (address.dropWhile isHexDigit).dropWhile isBlank <:+ address :=
          (List.dropWhile_suffix isBlank).trans (List.dropWhile_suffix isHexDigit)
        exact absurd (hsuffix.subset (hdrop ▸ List.mem_cons_self)) hangle
    · rfl

/-- A line that starts with an address is cut into its fields. -/
theorem ofText_eq_lineOfFields {line : String} {address rest : List Char}
    (hletter : 'i' ∉ address) (hangle : '<' ∉ address)
    (h : trim line.toList = address ++ ':' :: rest) :
    Line.ofText line = lineOfFields (trim line.toList) (pieces '\t' (trim line.toList)) := by
  have hcolon : ':' ∈ trim line.toList := by simp [h]
  have hbegin : ¬ (trim line.toList = [] ∨ trim line.toList = ['.', '.', '.']) := by
    rintro (hnil | hdots)
    · simp [hnil] at hcolon
    · simp [hdots] at hcolon
  have hheader := isHeader_eq_false hletter hangle rest
  unfold Line.ofText
  dsimp only
  rw [if_neg hbegin, h, hheader]
  rfl

namespace Record

theorem mnemonic_toList_ne_nil (r : Record) : r.mnemonic.toList ≠ [] := by
  intro hnil
  exact r.mnemonic_ne_empty (String.toList_eq_nil_iff.1 hnil)

theorem trim_mnemonic (r : Record) : trim r.mnemonic.toList = r.mnemonic.toList :=
  trim_eq_of_trimmed r.trimmed_mnemonic

/-- Trimming takes away the indentation and what is blank after the mnemonic. -/
theorem trim_print (r : Record) (l : Layout r) :
    trim (r.print l).toList = l.address ++ ':' :: '\t' ::
      (l.bytes ++ spaces l.gap ++ '\t' ::
        (r.mnemonic.toList ++ trimEnd (r.remainder l.trail))) := by
  -- The address holds the start of the text, and the mnemonic all that stands before it.
  have haddress : trimStart l.address = l.address :=
    (trim_eq_self_iff.1 l.hexText_address.trim_eq).1
  have hstart (post : List Char) : trimStart (l.address ++ post) = l.address ++ post := by
    rw [trimStart_append_of_ne_nil, haddress]
    rw [haddress]
    exact l.hexText_address.ne_nil
  have hmnemonic : trimEnd r.mnemonic.toList = r.mnemonic.toList :=
    (trim_eq_self_iff.1 r.trim_mnemonic).2
  have hend (pre : List Char) : trimEnd (pre ++ (r.mnemonic.toList ++ r.remainder l.trail)) =
      pre ++ (r.mnemonic.toList ++ trimEnd (r.remainder l.trail)) := by
    have hpre : trimEnd (pre ++ r.mnemonic.toList) = pre ++ r.mnemonic.toList := by
      rw [trimEnd_append_of_ne_nil, hmnemonic]
      rw [hmnemonic]
      exact r.mnemonic_toList_ne_nil
    rw [← List.append_assoc, trimEnd_append_of_eq_self hpre, List.append_assoc]
  rw [print, String.toList_ofList, List.append_assoc, trim_append_left isBlank_spaces, trim, hstart]
  have hsplit := hend (l.address ++ ':' :: '\t' :: (l.bytes ++ spaces l.gap ++ ['\t']))
  simpa using hsplit

theorem pieces_trim_print (r : Record) (l : Layout r) :
    pieces '\t' (trim (r.print l).toList) =
      (l.address ++ [':']) :: (l.bytes ++ spaces l.gap) ::
        pieces '\t' (r.mnemonic.toList ++ trimEnd (r.remainder l.trail)) := by
  have haddress : '\t' ∉ l.address ++ [':'] := by
    simp [l.hexText_address.tab_not_mem]
  have hbytes : '\t' ∉ l.bytes ++ spaces l.gap := by
    simp [l.byteRow.tab_not_mem, not_mem_spaces]
  rw [trim_print, ← pieces_append_cons hbytes, ← pieces_append_cons haddress]
  simp

/-- A record is read back from its line. -/
theorem ofText_print (r : Record) (l : Layout r) :
    Line.ofText (r.print l) =
      .entry r.address r.mnemonic r.operandText r.bytes.length := by
  obtain ⟨b, bytes, hbytes⟩ := List.exists_cons_of_ne_nil r.bytes_ne_nil
  obtain ⟨more, hmore, hfield⟩ :=
    exists_fields r.tab_not_mem (r.remainder_eq_nil_or l.trail)
  have hguard : ¬ ((l.address ++ [':']).getLast? ≠ some ':' ∨ trim r.mnemonic.toList = []) := by
    simp [r.trim_mnemonic, r.mnemonic_toList_ne_nil]
  have hopcode : opcodeBytes? (trim (l.bytes ++ spaces l.gap)) =
      some (b.toNat :: bytes.map UInt8.toNat) := by
    rw [trim_append_right isBlank_spaces, l.byteRow.trim_eq, l.byteRow.opcodeBytes?_eq, hbytes,
      List.map_cons]
  rw [ofText_eq_lineOfFields (l.hexText_address.not_mem (by decide))
    (l.hexText_address.not_mem (by decide)) (r.trim_print l), pieces_trim_print, hmore,
    lineOfFields, if_neg hguard]
  simp only [List.dropLast_concat, hopcode, readInteger_of_hexText l.hexText_address, hfield,
    r.trim_before_remainder, r.trim_mnemonic, String.ofList_toList, hbytes, List.length_cons,
    List.length_map]

end Record

/-- The lines that say nothing of an instruction, without the blanks around them. -/
inductive FillerText : List Char → Prop
  | blank : FillerText []
  | dots : FillerText ['.', '.', '.']
  | sectionHeader {name : List Char} (hne : name ≠ []) (hcolon : ':' ∉ name) :
      FillerText (sectionIntro ++ (name ++ [':']))
  | symbolHeader {address blanks name : List Char} (haddress : address ≠ [])
      (hdigits : ∀ c ∈ address, isHexDigit c = true) (hblanks : blanks ≠ [])
      (hblank : ∀ c ∈ blanks, isBlank c = true) (hname : name ≠ []) (hangle : '>' ∉ name) :
      FillerText (address ++ (blanks ++ '<' :: (name ++ ['>', ':'])))

def Filler (line : String) : Prop :=
  ∃ pre text post, FillerText text ∧ (∀ c ∈ pre, isBlank c = true) ∧
    (∀ c ∈ post, isBlank c = true) ∧ line.toList = pre ++ (text ++ post)

theorem isSectionHeader_intro {name : List Char} (hne : name ≠ []) (hcolon : ':' ∉ name) :
    isSectionHeader (sectionIntro ++ (name ++ [':'])) = true := by
  have hprefix : sectionIntro.isPrefixOf (sectionIntro ++ (name ++ [':'])) = true :=
    List.isPrefixOf_iff_prefix.2 (List.prefix_append _ _)
  simp [isSectionHeader, hprefix, hne, hcolon]

theorem isSymbolHeader_address {address blanks name : List Char} (haddress : address ≠ [])
    (hdigits : ∀ c ∈ address, isHexDigit c = true) (hblanks : blanks ≠ [])
    (hblank : ∀ c ∈ blanks, isBlank c = true) (hname : name ≠ []) (hangle : '>' ∉ name) :
    isSymbolHeader (address ++ (blanks ++ '<' :: (name ++ ['>', ':']))) = true := by
  obtain ⟨a, address, rfl⟩ := List.exists_cons_of_ne_nil haddress
  obtain ⟨b, blanks, rfl⟩ := List.exists_cons_of_ne_nil hblanks
  obtain ⟨c, name, rfl⟩ := List.exists_cons_of_ne_nil hname
  have ha : isHexDigit a = true := hdigits a (by simp)
  have hb : isBlank b = true := hblank b (by simp)
  have hb' : isHexDigit b = false := by
    by_contra hdigit
    rw [Bool.not_eq_false] at hdigit
    rw [isBlank_of_isHexDigit hdigit] at hb
    cases hb
  have hangles : ∀ d ∈ c :: name, decide (d ≠ '>') = true :=
    fun d hd => decide_eq_true fun heq => hangle (heq ▸ hd)
  have hafterAddress (rest : List Char) :
      (a :: address ++ (b :: blanks ++ rest)).dropWhile isHexDigit = b :: blanks ++ rest := by
    rw [List.dropWhile_append_of_pos hdigits, List.cons_append,
      List.dropWhile_cons_of_neg (by simp [hb'])]
  have hafterBlanks (rest : List Char) :
      (b :: blanks ++ '<' :: rest).dropWhile isBlank = '<' :: rest := by
    rw [List.dropWhile_append_of_pos hblank]
    rfl
  have hafterName : (c :: name ++ ['>', ':']).dropWhile (· ≠ '>') = ['>', ':'] := by
    rw [List.dropWhile_append_of_pos hangles]
    rfl
  have hc : c ≠ '>' := of_decide_eq_true (hangles c (by simp))
  unfold isSymbolHeader
  simp only [hafterAddress, hafterBlanks, hafterName]
  simp [ha, hb, hc]

theorem trim_of_fillerText {text : List Char} (h : FillerText text) : trim text = text := by
  cases h with
  | blank => rfl
  | dots => rfl
  | @sectionHeader name hne hcolon =>
    have hintro : trimStart sectionIntro = sectionIntro ∧ sectionIntro ≠ [] := by decide
    rw [← List.append_assoc]
    exact trim_between hintro.1 hintro.2 (by decide) (by decide) name
  | @symbolHeader address blanks name haddress hdigits hblanks hblank hname hangle =>
    have hstart : trimStart address = address :=
      trimStart_of_forall fun c hc => isBlank_of_isHexDigit (hdigits c hc)
    have htrim := trim_between (t := ['>', ':']) hstart haddress (by decide) (by decide)
      (blanks ++ '<' :: name)
    simpa using htrim

theorem ofText_of_filler {line : String} (h : Filler line) : Line.ofText line = .noise := by
  obtain ⟨pre, text, post, htext, hpre, hpost, hline⟩ := h
  have htrim : trim line.toList = text := by
    rw [hline, trim_append_left hpre, trim_append_right hpost, trim_of_fillerText htext]
  unfold Line.ofText
  rw [htrim]
  cases htext with
  | blank => rfl
  | dots => rfl
  | sectionHeader hne hcolon =>
    simp [isSectionHeader_intro hne hcolon]
  | symbolHeader haddress hdigits hblanks hblank hname hangle =>
    simp [isSymbolHeader_address haddress hdigits hblanks hblank hname hangle]

/-- The lines of the records in their order, with fillers anywhere between them. -/
inductive Transcript : List Record → List String → Prop
  | nil : Transcript [] []
  | filler {records : List Record} {lines : List String} {line : String} (hline : Filler line)
      (hrest : Transcript records lines) : Transcript records (line :: lines)
  | record {records : List Record} {lines : List String} (r : Record) (l : Layout r)
      (hrest : Transcript records lines) : Transcript (r :: records) (r.print l :: lines)

variable {records : List Record} {lines : List String}

theorem entriesOf_transcript (h : Transcript records lines) :
    entriesOf lines = records.map Record.entry := by
  unfold entriesOf
  induction h with
  | nil => rfl
  | filler hline _ ih =>
    rw [List.filterMap_cons_none (by rw [ofText_of_filler hline]; rfl), ih]
  | record r l _ ih =>
    rw [List.filterMap_cons_some (by rw [r.ofText_print l]; rfl), ih]
    rfl

namespace Record

def text (r : Record) : String :=
  if r.operandText = "" then r.mnemonic else r.mnemonic ++ " " ++ r.operandText

theorem trim_operandText (r : Record) : trim r.operandText.toList = r.operandText.toList := by
  unfold operandText
  cases hs : r.operands with
  | none => rfl
  | some s => exact trim_eq_of_trimmed (r.trimmed_operands s hs)

theorem shownText_eq (r : Record) :
    Decoder.shownText r.mnemonic r.operandText = r.text := by
  have hchars : (r.mnemonic ++ " " ++ r.operandText).toList =
      r.mnemonic.toList ++ [' '] ++ r.operandText.toList := by
    simp
  unfold Decoder.shownText text trimmed
  rw [hchars]
  split
  · next hempty =>
    have hblank : ∀ c ∈ [' '], isBlank c = true := List.forall_mem_singleton.2 (by decide)
    rw [hempty, String.toList_empty, List.append_nil, trim_append_right hblank, r.trim_mnemonic,
      String.ofList_toList]
  · next hne =>
    have hstart := (trim_eq_self_iff.1 r.trim_mnemonic).1
    have hend := (trim_eq_self_iff.1 r.trim_operandText).2
    have hne' : r.operandText.toList ≠ [] := fun hnil => hne (String.toList_eq_nil_iff.1 hnil)
    rw [trim_between hstart r.mnemonic_toList_ne_nil hend hne', ← hchars, String.ofList_toList]

def decode (r : Record) : Except DecodeError Instruction :=
  Decoder.avr r.address r.mnemonic r.operandText r.bytes.length

end Record

/-- Instructions that are decoded from the first record of each address, in the order of the
addresses. Their lengths count the bytes, and their texts have neither padding nor comments. -/
def InstructionsOf (records : List Record) (instrs : List Instruction) : Prop :=
  ∃ firsts : List Record,
    (∀ r, r ∈ firsts ↔ records.find? (·.address = r.address) = some r) ∧
    firsts.Pairwise (fun r s => r.address < s.address) ∧
    List.Forall₂ (fun r i => r.decode = .ok i ∧ i.length = r.bytes.length ∧ i.text = r.text)
      firsts instrs

/-- A transcript of records that can be decoded is read back: every line between them is passed over
and every record of a new address becomes its instruction. -/
theorem read_transcript (h : Transcript records lines)
    (hdecode : ∀ r ∈ records, ∃ i, r.decode = .ok i) (skipped : List String) :
    ∃ instrs, (read Decoder.avr skipped lines).result = .ok instrs ∧
      InstructionsOf records instrs := by
  let key (r : Record) : Int := r.address
  have hmem (r : Record) : r ∈ firstsInOrder key records ↔
      records.find? (·.address = r.address) = some r := by
    have hkey (s : Record) : decide (key s = key r) = decide (s.address = r.address) :=
      decide_eq_decide.2 Int.ofNat_inj
    simp only [firstsInOrder, mem_sortBy, mem_firsts_iff, hkey]
  have hdecodes : ∀ r ∈ firstsInOrder key records, ∃ i, r.decode = .ok i := by
    intro r hr
    exact hdecode r (List.mem_of_find?_eq_some ((hmem r).1 hr))
  obtain ⟨instrs, hinstrs⟩ := exists_ok_iff.2 hdecodes
  refine ⟨instrs, ?_, firstsInOrder key records, hmem, ?_, ?_⟩
  · rw [read_eq_ok_iff, entriesInOrder, entriesOf_transcript h, firstsInOrder_map,
      List.forall₂_map_left_iff]
    exact hinstrs
  · have hpairwise : (firstsInOrder key records).Pairwise fun r s => key r < key s :=
      pairwise_firstsInOrder records
    exact hpairwise.imp fun hlt => Int.ofNat_lt.1 hlt
  · refine hinstrs.imp fun r i hi => ⟨hi, ?_⟩
    obtain ⟨-, hlength, htext⟩ := Decoder.eq_of_avr hi
    exact ⟨hlength, htext.trans r.shownText_eq⟩

/-- A call whose comment has a tab, a semicolon and a colon in it. -/
def callRecord : Record where
  address := 0
  bytes := [0x0e, 0x94, 0x02, 0x00]
  mnemonic := "call"
  operands := some "0x4"
  comment := some "0x4 <f>\t; f: "
  bytes_ne_nil := by decide
  mnemonic_ne_empty := by decide
  tab_not_mem := by decide
  trimmed_mnemonic := by decide
  semicolon_not_mem := by decide
  trimmed_operands := by decide

def returnRecord : Record where
  address := 4
  bytes := [0x08, 0x95]
  mnemonic := "ret"
  operands := none
  comment := none
  bytes_ne_nil := by decide
  mnemonic_ne_empty := by decide
  tab_not_mem := by decide
  trimmed_mnemonic := by decide
  semicolon_not_mem := by decide
  trimmed_operands := by decide

def callLines : List String :=
  ["00000000 <main>:", "   4:\t08 95       \tret", "\t...",
    "   0:\t0E 94 02 00 \tcall\t0x4 \t; 0x4 <f>\t; f: "]

def returnLayout : Layout returnRecord where
  indent := 3
  width := 0
  address := ['4']
  bytes := "08 95".toList
  gap := 7
  trail := 0
  hexText_address := by decide
  byteRow := .cons (s := ['0', '8']) (by decide) 0 (.single (s := ['9', '5']) (by decide))

def callLayout : Layout callRecord where
  indent := 3
  width := 0
  address := ['0']
  bytes := "0E 94 02 00".toList
  gap := 1
  trail := 1
  hexText_address := by decide
  byteRow := .cons (s := ['0', 'E']) (by decide) 0 (.cons (s := ['9', '4']) (by decide) 0
    (.cons (s := ['0', '2']) (by decide) 0 (.single (s := ['0', '0']) (by decide))))

theorem read_transcript_callLines :
    Transcript [returnRecord, callRecord] callLines ∧
      ∃ instrs, (read Decoder.avr [] callLines).result = .ok instrs ∧
        InstructionsOf [returnRecord, callRecord] instrs := by
  have hheader :
      FillerText ("00000000".toList ++ ([' '] ++ '<' :: ("main".toList ++ ['>', ':']))) :=
    .symbolHeader (by decide) (List.all_eq_true.1 (by decide)) (by decide)
      (List.all_eq_true.1 (by decide)) (by decide) (by decide)
  have hmain : Filler "00000000 <main>:" := ⟨[], _, [], hheader, by simp, by simp, by decide⟩
  have hdots : Filler "\t..." :=
    ⟨['\t'], _, [], .dots, List.all_eq_true.1 (by decide), by simp, by decide⟩
  have hreturn : returnRecord.print returnLayout = "   4:\t08 95       \tret" := by decide +kernel
  have hcall : callRecord.print callLayout =
      "   0:\t0E 94 02 00 \tcall\t0x4 \t; 0x4 <f>\t; f: " := by
    decide +kernel
  have htranscript : Transcript [returnRecord, callRecord] callLines := by
    rw [callLines, ← hreturn, ← hcall]
    exact .filler hmain (.record _ _ (.filler hdots (.record _ _ .nil)))
  refine ⟨htranscript, read_transcript htranscript ?_ []⟩
  simp only [List.forall_mem_cons]
  refine ⟨⟨⟨4, some .ret, "ret", [], 2, "ret"⟩, by decide +kernel⟩,
    ⟨⟨0, some .call, "call", [4], 4, "call 0x4"⟩, by decide +kernel⟩, by simp⟩

end AvrFlow.Listing
