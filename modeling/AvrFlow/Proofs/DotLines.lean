import AvrFlow.Dot
import AvrFlow.Proofs.DotReader
import Mathlib.Data.List.Forall2
import Mathlib.Data.List.TakeWhile

namespace AvrFlow

open AvrFlow.Text

namespace Text

/-- A digit in upper case, with what its value is and where it may stand. -/
theorem upperDigit_spec :
    ∀ d < 16, hexDigitValue? (Nat.digitChar d).toUpper = some d ∧
      Dot.isNameChar (Nat.digitChar d).toUpper = true := by
  decide

def hexValue (digits : List Char) : Nat :=
  ofDigits 16 (digits.map fun c => (hexDigitValue? c).getD 0)

theorem hexValue_concat (digits : List Char) (c : Char) :
    hexValue (digits ++ [c]) = 16 * hexValue digits + (hexDigitValue? c).getD 0 := by
  rw [hexValue, List.map_append, List.map_singleton, ofDigits_concat]
  rfl

theorem upperHexDigits_of_lt {n : Nat} (h : n < 16) :
    upperHexDigits n = [(Nat.digitChar n).toUpper] := by
  rw [upperHexDigits, hexDigits, Nat.toDigits_of_lt_base h, List.map_singleton]

theorem upperHexDigits_of_le {n : Nat} (h : 16 ≤ n) :
    upperHexDigits n = upperHexDigits (n / 16) ++ [(Nat.digitChar (n % 16)).toUpper] := by
  rw [upperHexDigits, hexDigits, Nat.toDigits_of_base_le (by decide) h, List.map_append,
    List.map_singleton]
  rfl

theorem hexValue_upperHexDigits (n : Nat) : hexValue (upperHexDigits n) = n := by
  -- The last digit is a remainder; the digits before it are those of the quotient.
  induction n using Nat.strongRecOn with
  | ind n ih =>
    by_cases h : n < 16
    · rw [upperHexDigits_of_lt h]
      simp [hexValue, ofDigits, upperDigit_spec n h]
    · have hdigit := (upperDigit_spec (n % 16) (Nat.mod_lt _ (by decide))).1
      rw [upperHexDigits_of_le (by omega), hexValue_concat, ih (n / 16) (by omega), hdigit,
        Option.getD_some]
      omega

theorem isNameChar_of_mem_upperHexDigits {n : Nat} {c : Char} (h : c ∈ upperHexDigits n) :
    Dot.isNameChar c = true := by
  induction n using Nat.strongRecOn with
  | ind n ih =>
    by_cases hn : n < 16
    · rw [upperHexDigits_of_lt hn, List.mem_singleton] at h
      rw [h]
      exact (upperDigit_spec n hn).2
    · rw [upperHexDigits_of_le (by omega), List.mem_append, List.mem_singleton] at h
      rcases h with h | rfl
      · exact ih (n / 16) (by omega) h
      · exact (upperDigit_spec (n % 16) (Nat.mod_lt _ (by decide))).2

theorem hexValue_zeroFill (width : Nat) (digits : List Char) :
    hexValue (zeroFill width digits) = hexValue digits := by
  unfold zeroFill
  induction width - digits.length with
  | zero => rfl
  | succ k ih =>
    rw [← ih]
    simp [hexValue, ofDigits, List.replicate_succ, hexDigitValue?]

theorem isNameChar_of_mem_zeroFill {width n : Nat} {c : Char}
    (h : c ∈ zeroFill width (upperHexDigits n)) : Dot.isNameChar c = true := by
  rcases List.mem_append.1 h with hzero | hdigit
  · rw [List.eq_of_mem_replicate hzero]
    rfl
  · exact isNameChar_of_mem_upperHexDigits hdigit

/-- A number filled up to some width starts with no minus sign. -/
theorem zeroFill_ne_minus {width n : Nat} {s : List Char} :
    zeroFill width (upperHexDigits n) ≠ '-' :: s := by
  intro h
  have hminus : '-' ∈ zeroFill width (upperHexDigits n) := h ▸ List.mem_cons_self ..
  exact absurd (isNameChar_of_mem_zeroFill hminus) (by decide)

theorem hex8Chars_injective {m n : Int} (h : hex8Chars m = hex8Chars n) : m = n := by
  have hvalue {w w' k l : Nat}
      (h : zeroFill w (upperHexDigits k) = zeroFill w' (upperHexDigits l)) : k = l := by
    rw [← hexValue_upperHexDigits k, ← hexValue_zeroFill w, h, hexValue_zeroFill,
      hexValue_upperHexDigits]
  -- A minus sign tells the side of zero, and the zeros in front do not change the value.
  unfold hex8Chars at h
  split at h <;> split at h
  · have := hvalue (List.cons.inj h).2
    omega
  · exact absurd h.symm zeroFill_ne_minus
  · exact absurd h zeroFill_ne_minus
  · have := hvalue h
    omega

theorem isNameChar_or_minus_of_mem_hex8Chars {n : Int} {c : Char} (h : c ∈ hex8Chars n) :
    Dot.isNameChar c = true ∨ c = '-' := by
  unfold hex8Chars at h
  split at h
  · rcases List.mem_cons.1 h with rfl | h
    · exact Or.inr rfl
    · exact Or.inl (isNameChar_of_mem_zeroFill h)
  · exact Or.inl (isNameChar_of_mem_zeroFill h)

end Text

namespace Dot

variable {c : Char} {s t : List Char} {ts : List Token} {m : Mode}

theorem dropNewline_of_not_mem (h : '\n' ∉ s) : dropNewline s = s := by
  rw [dropNewline, if_neg]
  intro hlast
  exact h (List.mem_of_getLast? hlast)

/-- A text that may stand bare does so, and is one token, up to a character that cannot stand in
one. -/
theorem feed_quote_of_bare (h : isName s = true ∨ isNumber s = true) (hline : '\n' ∉ s)
    (hkeyword : keywords.contains (s.map Char.toLower) = false) (hc : isWordChar c = false)
    (ht : feed scanStep .between (c :: t) = some (ts, m)) :
    feed scanStep .between (quote s ++ c :: t) = some (.ident ⟨false, s⟩ :: ts, m) := by
  have hbare : isBare s = true := by
    rw [isBare, dropNewline_of_not_mem hline, hkeyword]
    simpa using h
  have hquote : quote s = s := by rw [quote, hbare, Bool.or_true, if_pos rfl]
  rw [hquote]
  exact feed_bare h hkeyword hc ht

theorem quote_eq_inQuotes (hline : dropNewline s = s) (hhead : s.head? ≠ some '<')
    (hname : isName s = false) (hnumber : isNumber s = false) : quote s = inQuotes s := by
  have hmarkup : isMarkup s = false := by
    unfold isMarkup
    rw [hline]
    split
    · exact absurd rfl hhead
    · rfl
  have hbare : isBare s = false := by
    rw [isBare, hline, hname, hnumber, Bool.or_false, Bool.false_and]
  rw [quote, hmarkup, hbare, Bool.or_false, if_neg Bool.false_ne_true]

def nodeIdent (entry : Int) : Ident :=
  ⟨decide (entry < 0), (nodeId entry).toList⟩

theorem toList_nodeId (entry : Int) :
    (nodeId entry).toList = "Block_".toList ++ hex8Chars entry := by
  simp [nodeId, hex8]

theorem nodeId_injective : Function.Injective nodeId := by
  intro m n h
  have hchars := congrArg String.toList h
  rw [toList_nodeId, toList_nodeId] at hchars
  exact hex8Chars_injective (List.append_cancel_left hchars)

theorem isNameChar_or_minus_of_mem_nodeId {entry : Int} (h : c ∈ (nodeId entry).toList) :
    isNameChar c = true ∨ c = '-' := by
  rw [toList_nodeId] at h
  rcases List.mem_append.1 h with hintro | hhex
  · have hall : "Block_".toList.all isNameChar = true := rfl
    exact Or.inl (List.all_eq_true.1 hall c hintro)
  · exact isNameChar_or_minus_of_mem_hex8Chars hhex

theorem not_keyword_nodeId (entry : Int) :
    keywords.contains ((nodeId entry).toList.map Char.toLower) = false := by
  rw [toList_nodeId, List.map_append]
  simp [keywords]

theorem isName_nodeId {entry : Int} (h : ¬ entry < 0) : isName (nodeId entry).toList = true := by
  have hhex : ∀ c ∈ hex8Chars entry, isNameChar c = true := by
    rw [hex8Chars, if_neg h]
    exact fun c hc => isNameChar_of_mem_zeroFill hc
  have hintro : "lock_".toList.all isNameChar = true := rfl
  have hsplit : (nodeId entry).toList = 'B' :: ("lock_".toList ++ hex8Chars entry) :=
    toList_nodeId entry
  rw [hsplit, isName, Bool.and_eq_true, List.all_eq_true]
  exact ⟨rfl, fun c hc => (List.mem_append.1 hc).elim (List.all_eq_true.1 hintro c) (hhex c)⟩

theorem not_mem_nodeId (entry : Int) (hname : isNameChar c = false) (hminus : c ≠ '-') :
    c ∉ (nodeId entry).toList := by
  intro h
  rcases isNameChar_or_minus_of_mem_nodeId h with h | h
  · rw [hname] at h
    cases h
  · exact hminus h

theorem quote_nodeId_of_neg {entry : Int} (h : entry < 0) :
    quote (nodeId entry).toList = inQuotes (nodeId entry).toList := by
  have hminus : '-' ∈ (nodeId entry).toList := by
    rw [toList_nodeId, hex8Chars, if_pos h]
    simp
  apply quote_eq_inQuotes (dropNewline_of_not_mem (not_mem_nodeId entry rfl (by decide)))
  · rw [toList_nodeId]
    simp
  · apply eq_false_of_ne_true
    intro hname
    cases isNameChar_of_isName hname '-' hminus
  · rw [toList_nodeId]
    rfl

theorem feed_nodeId (entry : Int) (hc : isWordChar c = false)
    (ht : feed scanStep .between (c :: t) = some (ts, m)) :
    feed scanStep .between (quote (nodeId entry).toList ++ c :: t) =
      some (.ident (nodeIdent entry) :: ts, m) := by
  by_cases h : entry < 0
  · -- The minus sign asks for quotation marks, and there is nothing to escape between them.
    have hquote := not_mem_nodeId (c := '"') entry rfl (by decide)
    have hslash := not_mem_nodeId (c := '\\') entry rfl (by decide)
    rw [quote_nodeId_of_neg h, inQuotes, escapeQuotes_of_not_mem hquote, nodeIdent,
      decide_eq_true h]
    exact feed_append (sealed_of_not_mem hquote hslash).feed ht
  · have hline := not_mem_nodeId (c := '\n') entry rfl (by decide)
    rw [nodeIdent, decide_eq_false h]
    exact feed_quote_of_bare (Or.inl (isName_nodeId h)) hline (not_keyword_nodeId entry) hc ht

def labelContent (instrs : List Instruction) : List Char :=
  escapeQuotes false (label instrs).toList

theorem toList_label (instrs : List Instruction) :
    (label instrs).toList =
      instrs.flatMap fun i => hex8Chars i.offset ++ ':' :: ' ' :: i.text.toList ++ labelBreak := by
  have hline (i : Instruction) : (Event.disassemblyLine i).toList =
      hex8Chars i.offset ++ ':' :: ' ' :: i.text.toList := by
    have htext : Event.disassemblyLine i = hex8 i.offset ++ ": " ++ i.text := rfl
    simp [htext, hex8]
  rw [label, String.toList_ofList]
  simp only [hline]

theorem label_eq_cons (r : Run) :
    ∃ t, (label r.instrs).toList = hex8Chars r.firstOffset ++ ':' :: t := by
  rw [toList_label, Run.instrs, List.flatMap_cons, List.append_assoc, List.append_assoc]
  exact ⟨_, rfl⟩

theorem label_eq_concat (r : Run) : ∃ s, (label r.instrs).toList = s ++ ['l'] := by
  rcases List.eq_nil_or_concat r.instrs with hnil | ⟨earlier, last, hinstrs⟩
  · exact absurd hnil r.instrs_ne_nil
  · -- The break after the last instruction is the end of the label.
    rw [toList_label, hinstrs, List.concat_eq_append, List.flatMap_append, List.flatMap_singleton,
      ← List.append_assoc]
    exact ⟨_, (List.append_assoc _ ['\\'] ['l']).symm⟩

/-- Whatever the texts of instructions are, a label does not stand without quotation marks. -/
theorem quote_label (r : Run) :
    quote (label r.instrs).toList = '"' :: labelContent r.instrs ++ ['"'] := by
  obtain ⟨t, ht⟩ := label_eq_cons r
  obtain ⟨s, hs⟩ := label_eq_concat r
  -- It begins with an offset, so not as markup does, and no name or number has a colon in it.
  have hcolon : ':' ∈ (label r.instrs).toList := by simp [ht]
  apply quote_eq_inQuotes
  · rw [hs, dropNewline, if_neg (by simp)]
  · rw [ht]
    cases hhex : hex8Chars r.firstOffset with
    | nil => simp
    | cons c rest =>
      have hc : c ∈ hex8Chars r.firstOffset := hhex ▸ List.mem_cons_self ..
      rw [List.cons_append, List.head?_cons]
      rintro ⟨⟩
      rcases isNameChar_or_minus_of_mem_hex8Chars hc with h | h <;> cases h
  · apply eq_false_of_ne_true
    intro hname
    cases isNameChar_of_isName hname ':' hcolon
  · apply eq_false_of_ne_true
    intro hnumber
    rcases isWordChar_or_minus_of_isNumber hnumber ':' hcolon with h | h <;> cases h

theorem sealed_labelContent (r : Run) : Sealed (labelContent r.instrs) := by
  obtain ⟨s, hs⟩ := label_eq_concat r
  rw [labelContent, hs]
  exact sealed_escapeQuotes (by decide) (by decide) s

/-- Whatever the texts of instructions are, a label is one token. -/
theorem feed_label (r : Run) :
    feed scanStep .between (quote (label r.instrs).toList) =
      some ([.ident ⟨true, labelContent r.instrs⟩], .between) := by
  rw [quote_label]
  exact (sealed_labelContent r).feed

theorem toLower_of_isDigit {c : Char} (h : c.isDigit = true) : c.toLower = c := by
  rw [Char.isDigit, Bool.and_eq_true, decide_eq_true_eq, decide_eq_true_eq] at h
  apply dif_neg
  intro hupper
  exact absurd (UInt32.le_trans hupper.1 h.2) (by decide)

theorem isUnsigned_toDigits (n : Nat) : isUnsigned (Nat.toDigits 10 n) = true := by
  have hall : ∀ c ∈ Nat.toDigits 10 n, c.isDigit = true :=
    fun c hc => Nat.isDigit_of_mem_toDigits (by decide) (by decide) hc
  rw [isUnsigned, List.dropWhile_eq_nil_iff.2 hall, List.takeWhile_eq_self_iff.2 hall]
  simp [Nat.toDigits_ne_nil]

theorem isNumber_toString (n : Int) : isNumber (toString n).toList = true := by
  rw [toList_toString]
  split
  · exact isUnsigned_toDigits n.natAbs
  · rw [List.nil_append]
    unfold isNumber
    split
    · next rest h =>
      have hminus : '-' ∈ Nat.toDigits 10 n.natAbs := h ▸ List.mem_cons_self ..
      cases Nat.isDigit_of_mem_toDigits (by decide) (by decide) hminus
    · exact isUnsigned_toDigits n.natAbs

theorem not_keyword_toString (n : Int) :
    keywords.contains ((toString n).toList.map Char.toLower) = false := by
  -- A number has a digit, and a keyword has none.
  have hnone : keywords.all (fun word => word.all fun c => !c.isDigit) = true := rfl
  obtain ⟨c, hc⟩ := List.exists_mem_of_ne_nil _ (Nat.toDigits_ne_nil (n := n.natAbs) (b := 10))
  have hdigit : c.isDigit = true := Nat.isDigit_of_mem_toDigits (by decide) (by decide) hc
  have hmem : c ∈ (toString n).toList.map Char.toLower := by
    rw [toList_toString]
    exact List.mem_map.2 ⟨c, List.mem_append_right _ hc, toLower_of_isDigit hdigit⟩
  apply eq_false_of_ne_true
  intro h
  have hletters := List.all_eq_true.1 hnone _ (List.contains_iff_mem.1 h)
  simpa [hdigit] using List.all_eq_true.1 hletters c hmem

theorem feed_number (n : Int) (hc : isWordChar c = false)
    (ht : feed scanStep .between (c :: t) = some (ts, m)) :
    feed scanStep .between (quote (toString n).toList ++ c :: t) =
      some (.ident ⟨false, (toString n).toList⟩ :: ts, m) := by
  have hnumber := isNumber_toString n
  have hline : '\n' ∉ (toString n).toList := by
    intro h
    rcases isWordChar_or_minus_of_isNumber hnumber _ h with h | h <;> cases h
  exact feed_quote_of_bare (Or.inr hnumber) hline (not_keyword_toString n) hc ht

/-- A line that is read as the tokens of a statement. -/
def Shows (line : List Char) (statement : Statement) : Prop :=
  feed scanStep .between (statementLine line) = some (statement.tokens, .between)

instance (line : List Char) (statement : Statement) : Decidable (Shows line statement) :=
  inferInstanceAs (Decidable (_ = _))

def drawn (b : Block) : Int × List Char :=
  (b.firstOffset, labelContent b.instrs)

def entryShown (d : Int × List Char) : Statement :=
  .attributes (.node (nodeIdent d.1)) [(⟨false, "label".toList⟩, ⟨true, d.2⟩)]

def relationShown (r : Relation) : Statement :=
  .edge (nodeIdent r.source) (nodeIdent r.target)

def bareAttribute (name value : String) : Ident × Ident :=
  (⟨false, name.toList⟩, ⟨false, value.toList⟩)

def stylesShown (n : Int) : List Statement :=
  [.attributes (.defaults "graph".toList)
      [(⟨false, "bgcolor".toList⟩, ⟨true, "#333333".toList⟩), bareAttribute "dpi" (toString n),
        bareAttribute "fontcolor" "white"],
    .attributes (.defaults "node".toList)
      [bareAttribute "color" "white", (⟨false, "fillcolor".toList⟩, ⟨true, "#006699".toList⟩),
        bareAttribute "fontcolor" "white", bareAttribute "fontname" "Consolas",
        bareAttribute "shape" "box", bareAttribute "style" "filled"],
    .attributes (.defaults "edge".toList)
      [bareAttribute "arrowhead" "open", bareAttribute "color" "white",
        bareAttribute "style" "dashed"]]

theorem shows_nodeStatement (b : Block) : Shows (nodeStatement b) (entryShown (drawn b)) := by
  have hline : statementLine (nodeStatement b) =
      '\t' :: (quote (nodeId b.firstOffset).toList ++ ' ' :: ("[label=".toList ++
        (quote (label b.instrs).toList ++ [']', '\n']))) := by
    simp [statementLine, nodeStatement]
  have htab : scanStep .between '\t' = some ([], .between) := rfl
  have hblank : scanStep .between ' ' = some ([], .between) := rfl
  have hname : feed scanStep .between "[label=".toList =
      some ([.mark '[', .ident ⟨false, "label".toList⟩, .mark '='], .between) := by
    decide +kernel
  have hclose : feed scanStep .between [']', '\n'] = some ([.mark ']'], .between) := rfl
  -- The scanner is between tokens after each part of the line; only the identifier of the entry
  -- needs to see the blank after it to end.
  have hattributes := feed_append hname (feed_append (feed_label b.toRun) hclose)
  have htokens : (entryShown (drawn b)).tokens =
      [.ident (nodeIdent b.firstOffset), .mark '[', .ident ⟨false, "label".toList⟩, .mark '=',
        .ident ⟨true, labelContent b.instrs⟩, .mark ']'] := by
    simp [entryShown, drawn, Statement.tokens, Subject.token, attributeTokens]
  have hfeed := feed_cons htab (feed_nodeId b.firstOffset rfl (feed_cons hblank hattributes))
  rw [Shows, hline, htokens]
  exact hfeed

theorem shows_edgeStatement (r : Relation) : Shows (edgeStatement r) (relationShown r) := by
  have hline : statementLine (edgeStatement r) =
      '\t' :: (quote (nodeId r.source).toList ++ ' ' :: ("-> ".toList ++
        (quote (nodeId r.target).toList ++ ['\n']))) := by
    simp [statementLine, edgeStatement]
  have htab : scanStep .between '\t' = some ([], .between) := rfl
  have hblank : scanStep .between ' ' = some ([], .between) := rfl
  have harrow : feed scanStep .between "-> ".toList = some ([.arrow], .between) := rfl
  have hend : feed scanStep .between ['\n'] = some ([], .between) := rfl
  have htarget := feed_append harrow (feed_nodeId r.target rfl hend)
  have hfeed := feed_cons htab (feed_nodeId r.source rfl (feed_cons hblank htarget))
  rw [Shows, hline]
  exact hfeed

theorem shows_styleStatements (n : Int) :
    List.Forall₂ Shows (styleStatements (toString n)) (stylesShown n) := by
  have hline (start : List Char) : statementLine (start ++ quote (toString n).toList ++
      " fontcolor=white]".toList) =
      '\t' :: start ++ (quote (toString n).toList ++ ' ' :: "fontcolor=white]\n".toList) := by
    simp [statementLine]
  have hstart : feed scanStep .between ('\t' :: "graph [bgcolor=\"#333333\" dpi=".toList) =
      some ([.keyword "graph".toList, .mark '[', .ident ⟨false, "bgcolor".toList⟩, .mark '=',
        .ident ⟨true, "#333333".toList⟩, .ident ⟨false, "dpi".toList⟩, .mark '='], .between) := by
    decide +kernel
  have hend : feed scanStep .between (' ' :: "fontcolor=white]\n".toList) =
      some ([.ident ⟨false, "fontcolor".toList⟩, .mark '=', .ident ⟨false, "white".toList⟩,
        .mark ']'], .between) := by
    decide +kernel
  -- Of the three lines, only the first one has something in it that depends on the drawing.
  have hgraph := feed_append hstart (feed_number n rfl hend)
  refine .cons ?_ (.cons (by decide +kernel) (.cons (by decide +kernel) .nil))
  rw [Shows, hline]
  exact hgraph

/-- Lines that show statements one by one are read as their tokens. -/
theorem feed_lines {lines : List (List Char)} {statements : List Statement}
    (h : List.Forall₂ Shows lines statements) :
    feed scanStep .between (lines.flatMap statementLine) =
      some (statements.flatMap Statement.tokens, .between) := by
  induction h with
  | nil => rfl
  | cons hline _ ih => exact feed_append hline ih

theorem readSource_document {lines : List (List Char)} {statements : List Statement}
    (h : List.Forall₂ Shows lines statements) (hproper : ∀ s ∈ statements, s.Proper) :
    readSource (document lines) = some ⟨⟨false, "G".toList⟩, statements⟩ := by
  have hopening : feed scanStep .between opening =
      some ([.keyword "digraph".toList, .ident ⟨false, "G".toList⟩, .mark '\x7b'], .between) := by
    decide +kernel
  have hclosing : feed scanStep .between closing = some ([.mark '\x7d'], .between) := rfl
  apply readSource_of_feed hproper
  rw [document, String.toList_ofList, List.append_assoc]
  exact feed_append hopening (feed_append (feed_lines h) hclosing)

end Dot

end AvrFlow
