import AvrFlow.Proofs.Numerals
import Mathlib.Data.List.TakeWhile

namespace AvrFlow.Text

open AvrFlow.Operand

/-- A blank that may stand around a literal. The separators U+001C to U+001F may not. -/
def isLiteralBlank (c : Char) : Bool :=
  isBlank c && !(0x1C ≤ c.toNat && c.toNat ≤ 0x1F)

/-- A digit of base sixteen: a plain one, or a decimal digit of any script. -/
def HexDigit (c : Char) (d : Nat) : Prop :=
  hexDigitValue? c = some d ∨ digitValue? c = some d

inductive HexRow : List Char → List Nat → Prop
  | single {c : Char} {d : Nat} (hc : HexDigit c d) : HexRow [c] [d]
  | cons {c : Char} {d : Nat} {s : List Char} {ds : List Nat} (hc : HexDigit c d)
      (hrest : HexRow s ds) : HexRow (c :: s) (d :: ds)
  | underscore {c : Char} {d : Nat} {s : List Char} {ds : List Nat} (hc : HexDigit c d)
      (hrest : HexRow s ds) : HexRow (c :: '_' :: s) (d :: ds)

/-- The prefix of base sixteen, which may be missing. Its zero may be one of any script. -/
inductive HexMark : List Char → Prop
  | missing : HexMark []
  | marked {z x : Char} (hz : HexDigit z 0) (hx : x = 'x' ∨ x = 'X') : HexMark [z, x]
  | underscored {z x : Char} (hz : HexDigit z 0) (hx : x = 'x' ∨ x = 'X') : HexMark [z, x, '_']

inductive LiteralSign : List Char → Bool → Prop
  | missing : LiteralSign [] false
  | plus : LiteralSign ['+'] false
  | minus : LiteralSign ['-'] true

inductive HexLiteral : List Char → Int → Prop
  | intro {pre sign mark row post : List Char} {negative : Bool} {digits : List Nat}
      (hpre : ∀ c ∈ pre, isLiteralBlank c = true) (hsign : LiteralSign sign negative)
      (hmark : HexMark mark) (hrow : HexRow row digits)
      (hpost : ∀ c ∈ post, isLiteralBlank c = true) :
      HexLiteral (pre ++ (sign ++ (mark ++ row) ++ post)) (Numeral.toInt ⟨negative, 16, digits⟩)

section PlainForms

variable {c : Char} {d : Nat}

theorem digitValue?_of_isBlank (h : isBlank c = true) : digitValue? c = none := by
  have hzeros : ∀ z ∈ digitZeros, (0x20 < z ∧ z + 10 ≤ 0x85) ∨ (0xA0 < z ∧ z + 10 ≤ 0x1680) ∨
      (0x1680 < z ∧ z + 10 ≤ 0x2000) ∨ 0x3000 < z := by
    decide
  apply List.findSome?_eq_none_iff.2
  intro z hz
  have hz := hzeros z hz
  simp only [isBlank, Bool.or_eq_true, Bool.and_eq_true, decide_eq_true_eq, beq_iff_eq] at h
  rw [if_neg]
  omega

theorem digitValue?_of_lt (hc : c.toNat < 127) (h : digitValue? c = some d) :
    hexDigitValue? c = some d := by
  obtain ⟨z, hz, hdigit⟩ := List.exists_of_findSome?_eq_some h
  split at hdigit
  · next hrange =>
    -- Only one script has its digits among these characters.
    have hplain : ∀ z ∈ digitZeros, z < 127 → z = 0x30 := by decide
    obtain rfl := hplain z hz (by omega)
    simp only [hexDigitValue?]
    rw [if_pos (by omega)]
    exact hdigit
  · cases hdigit

/-- The plain form of a character: itself, a space, or the plain digit of the same value. -/
theorem plainChar_cases (c : Char) :
    (plainChar c = c ∧ (c.toNat < 127 ∨ isBlank c = false ∧ digitValue? c = none)) ∨
      (127 ≤ c.toNat ∧ plainChar c = ' ' ∧ isBlank c = true) ∨
      ∃ d, 127 ≤ c.toNat ∧ plainChar c = Nat.digitChar d ∧ digitValue? c = some d := by
  unfold plainChar
  split
  · next hlt => exact Or.inl ⟨rfl, Or.inl hlt⟩
  · next hge =>
    split
    · next hblank => exact Or.inr (Or.inl ⟨by omega, rfl, hblank⟩)
    · next hblank =>
      split
      · next d hd =>
        have hchar : ∀ d < 10, Char.ofNat (0x30 + d) = Nat.digitChar d := by decide
        exact Or.inr (Or.inr ⟨d, by omega, hchar d (digitValue?_lt hd), hd⟩)
      · next hnone => exact Or.inl ⟨rfl, Or.inr ⟨by simpa using hblank, hnone⟩⟩

theorem lt_of_hexDigitValue? (h : hexDigitValue? c = some d) : c.toNat < 127 := by
  simp only [hexDigitValue?] at h
  grind

theorem hexDigitValue?_plainChar : hexDigitValue? (plainChar c) = some d ↔ HexDigit c d := by
  rcases plainChar_cases c with ⟨hplain, hc⟩ | ⟨hge, hplain, hblank⟩ | ⟨e, hge, hplain, he⟩
  · rw [hplain, HexDigit]
    constructor
    · exact Or.inl
    · rintro (h | h)
      · exact h
      · rcases hc with hlt | ⟨-, hnone⟩
        · exact digitValue?_of_lt hlt h
        · rw [hnone] at h
          cases h
  · rw [hplain, HexDigit, digitValue?_of_isBlank hblank]
    have hspace : hexDigitValue? ' ' = none := by decide
    rw [hspace]
    constructor
    · intro h
      cases h
    · rintro (h | h)
      · have := lt_of_hexDigitValue? h
        omega
      · cases h
  · rw [hplain, HexDigit, he, hexDigitValue?_digitChar e (by have := digitValue?_lt he; omega)]
    constructor
    · exact Or.inr
    · rintro (h | h)
      · have := lt_of_hexDigitValue? h
        omega
      · exact h

theorem isAsciiBlank_plainChar (c : Char) : isAsciiBlank (plainChar c) = isLiteralBlank c := by
  rcases plainChar_cases c with ⟨hplain, hlt | ⟨hblank, -⟩⟩ | ⟨hge, hplain, hblank⟩ |
    ⟨d, hge, hplain, hd⟩
  · have hascii : ∀ k < 127, isAsciiBlank (Char.ofNat k) = isLiteralBlank (Char.ofNat k) := by
      decide +kernel
    rw [hplain]
    simpa using hascii c.toNat hlt
  · have hascii : isAsciiBlank c = false := by
      rw [Bool.eq_false_iff]
      intro h
      rw [isBlank_of_isAsciiBlank h] at hblank
      cases hblank
    rw [hplain, hascii, isLiteralBlank, hblank, Bool.false_and]
  · have hspace : isAsciiBlank ' ' = true := by decide
    rw [hplain, hspace, isLiteralBlank, hblank]
    simp only [Bool.true_and, Bool.true_eq, Bool.not_eq_true', Bool.and_eq_false_iff,
      decide_eq_false_iff_not]
    omega
  · have hdigits : ∀ d < 10, isAsciiBlank (Nat.digitChar d) = false := by decide
    have hblank : isBlank c = false := by
      rw [Bool.eq_false_iff]
      intro h
      rw [digitValue?_of_isBlank h] at hd
      cases hd
    rw [hplain, hdigits d (digitValue?_lt hd), isLiteralBlank, hblank, Bool.false_and]

/-- Punctuation and letters come from themselves only. -/
theorem plainChar_eq_iff {a : Char} (ha : a.toNat < 127) (hspace : a ≠ ' ')
    (hdigit : hexDigitValue? a = none) : plainChar c = a ↔ c = a := by
  rcases plainChar_cases c with ⟨hplain, -⟩ | ⟨hge, hplain, -⟩ | ⟨d, hge, hplain, hd⟩
  · rw [hplain]
  · rw [hplain]
    refine iff_of_false hspace.symm ?_
    rintro rfl
    omega
  · rw [hplain]
    refine iff_of_false ?_ ?_
    · rintro rfl
      have hlt := digitValue?_lt hd
      rw [hexDigitValue?_digitChar d (by omega)] at hdigit
      cases hdigit
    · rintro rfl
      omega

theorem hexDigitValue?_eq_zero_iff : hexDigitValue? c = some 0 ↔ c = '0' := by
  constructor
  · intro h
    apply Char.ext
    apply UInt32.toNat_inj.1
    simp only [hexDigitValue?] at h
    change c.toNat = 0x30
    grind
  · rintro rfl
    rfl

theorem plainChar_eq_zero_iff : plainChar c = '0' ↔ HexDigit c 0 := by
  rw [← hexDigitValue?_eq_zero_iff, hexDigitValue?_plainChar]

theorem HexDigit.not_blank (h : HexDigit c d) : isLiteralBlank c = false := by
  rw [← hexDigitValue?_plainChar] at h
  rw [← isAsciiBlank_plainChar]
  apply isAsciiBlank_of_isHexDigit
  rw [isHexDigit, h]
  rfl

theorem HexDigit.ne {a : Char} (h : HexDigit c d) (ha : hexDigitValue? a = none)
    (hdigit : digitValue? a = none) : c ≠ a := by
  rintro rfl
  rw [HexDigit, ha, hdigit] at h
  rcases h with h | h <;> cases h

theorem digitIn?_plainChar : digitIn? 16 (plainChar c) = some d ↔ HexDigit c d := by
  rw [← hexDigitValue?_plainChar, digitIn?, Option.filter_eq_some_iff, decide_eq_true_eq]
  constructor
  · exact And.left
  · intro h
    exact ⟨h, hexDigitValue?_lt h⟩

end PlainForms

section Rows

variable {s : List Char} {ds : List Nat}

theorem HexRow.exists_cons (h : HexRow s ds) : ∃ c d rest, s = c :: rest ∧ HexDigit c d := by
  cases h with
  | single hc => exact ⟨_, _, _, rfl, hc⟩
  | cons hc _ => exact ⟨_, _, _, rfl, hc⟩
  | underscore hc _ => exact ⟨_, _, _, rfl, hc⟩

theorem plainChar_underscore (c : Char) : plainChar c = '_' ↔ c = '_' :=
  plainChar_eq_iff (by decide) (by decide) (by decide)

theorem hexRow_of_digitRow? {p : List Char} (h : digitRow? 16 p = some ds)
    (hs : s.map plainChar = p) : HexRow s ds := by
  fun_induction digitRow? 16 p generalizing s ds with
  | case1 => cases h
  | case2 c =>
    obtain ⟨d, hd, rfl⟩ := Option.map_eq_some_iff.1 h
    obtain ⟨c, rfl, rfl⟩ := List.map_eq_singleton_iff.1 hs
    exact HexRow.single (digitIn?_plainChar.1 hd)
  | case3 c rest ih =>
    obtain ⟨d, hd, hmap⟩ := Option.bind_eq_some_iff.1 h
    obtain ⟨ds, hds, rfl⟩ := Option.map_eq_some_iff.1 hmap
    obtain ⟨c, s, rfl, rfl, htail⟩ := List.map_eq_cons_iff.1 hs
    obtain ⟨u, s, rfl, hu, hrest⟩ := List.map_eq_cons_iff.1 htail
    obtain rfl := (plainChar_underscore u).1 hu
    exact HexRow.underscore (digitIn?_plainChar.1 hd) (ih hds hrest)
  | case4 c rest hne hunderscore ih =>
    obtain ⟨d, hd, hmap⟩ := Option.bind_eq_some_iff.1 h
    obtain ⟨ds, hds, rfl⟩ := Option.map_eq_some_iff.1 hmap
    obtain ⟨c, s, rfl, rfl, htail⟩ := List.map_eq_cons_iff.1 hs
    exact HexRow.cons (digitIn?_plainChar.1 hd) (ih hds htail)

theorem digitRow?_of_hexRow (h : HexRow s ds) : digitRow? 16 (s.map plainChar) = some ds := by
  induction h with
  | single hc =>
    rw [List.map_singleton, digitRow?, digitIn?_plainChar.2 hc]
    rfl
  | @cons c d s ds hc hrest ih =>
    obtain ⟨c', d', rest, rfl, hc'⟩ := hrest.exists_cons
    have hunderscore : plainChar c' ≠ '_' :=
      mt (plainChar_underscore c').1 (hc'.ne (by decide) (by decide))
    rw [List.map_cons, digitRow?, digitIn?_plainChar.2 hc, ih]
    · rfl
    · simp
    · simp [hunderscore]
  | @underscore c d s ds hc hrest ih =>
    have hplain : plainChar '_' = '_' := by decide
    rw [List.map_cons, List.map_cons, hplain, digitRow?, digitIn?_plainChar.2 hc, ih]
    rfl

end Rows

section Parts

variable {s t u sign mark row : List Char} {ds : List Nat} {negative : Bool}

theorem exists_trimAscii (s : List Char) :
    ∃ pre mid post, s = pre ++ (mid ++ post) ∧ mid.map plainChar = trimAscii (s.map plainChar) ∧
      (∀ c ∈ pre, isLiteralBlank c = true) ∧ ∀ c ∈ post, isLiteralBlank c = true := by
  -- Blanks of the text are those characters whose plain form is a blank.
  have hblank {t : List Char} (h : ∀ p ∈ t.map plainChar, isAsciiBlank p = true) :
      ∀ c ∈ t, isLiteralBlank c = true := by
    intro c hc
    rw [← isAsciiBlank_plainChar]
    exact h _ (List.mem_map_of_mem hc)
  generalize hp : s.map plainChar = p
  have hstart := List.takeWhile_append_dropWhile (p := isAsciiBlank) (l := p)
  generalize hq : p.dropWhile isAsciiBlank = q at hstart
  have hend : trimAscii p ++ (q.reverse.takeWhile isAsciiBlank).reverse = q := by
    rw [trimAscii, hq, ← List.reverse_append, List.takeWhile_append_dropWhile, List.reverse_reverse]
  rw [← hstart, ← hend] at hp
  obtain ⟨pre, rest, rfl, hpre, hrest⟩ := List.map_eq_append_iff.1 hp
  obtain ⟨mid, post, rfl, hmid, hpost⟩ := List.map_eq_append_iff.1 hrest
  refine ⟨pre, mid, post, rfl, hmid, hblank ?_, hblank ?_⟩
  · intro c hc
    rw [hpre] at hc
    exact List.mem_takeWhile_imp hc
  · intro c hc
    rw [hpost, List.mem_reverse] at hc
    exact List.mem_takeWhile_imp hc

theorem trimAscii_between {pre mid post : List Char} (hpre : ∀ c ∈ pre, isAsciiBlank c = true)
    (hmid : ∀ c ∈ mid, isAsciiBlank c = false) (hne : mid ≠ [])
    (hpost : ∀ c ∈ post, isAsciiBlank c = true) : trimAscii (pre ++ (mid ++ post)) = mid := by
  have hstop {m : List Char} (hm : ∀ c ∈ m, isAsciiBlank c = false) (hne : m ≠ [])
      (rest : List Char) : (m ++ rest).dropWhile isAsciiBlank = m ++ rest := by
    obtain ⟨c, m, rfl⟩ := List.exists_cons_of_ne_nil hne
    exact List.dropWhile_cons_of_neg (by simp [hm c (by simp)])
  have hback := hstop (m := mid.reverse) (by simpa using hmid) (by simpa using hne) []
  rw [List.append_nil] at hback
  rw [trimAscii, List.dropWhile_append_of_pos hpre, hstop hmid hne, List.reverse_append,
    List.dropWhile_append_of_pos (by simpa using hpost), hback, List.reverse_reverse]

theorem plainChar_plus (c : Char) : plainChar c = '+' ↔ c = '+' :=
  plainChar_eq_iff (by decide) (by decide) (by decide)

theorem plainChar_minus (c : Char) : plainChar c = '-' ↔ c = '-' :=
  plainChar_eq_iff (by decide) (by decide) (by decide)

theorem exists_takeSign (s : List Char) :
    ∃ sign u negative, s = sign ++ u ∧ LiteralSign sign negative ∧
      takeSign (s.map plainChar) = (negative, u.map plainChar) := by
  unfold takeSign
  split
  · next rest hs =>
    obtain ⟨c, u, rfl, hc, rfl⟩ := List.map_eq_cons_iff.1 hs
    obtain rfl := (plainChar_minus c).1 hc
    exact ⟨['-'], u, true, rfl, .minus, rfl⟩
  · next rest hs =>
    obtain ⟨c, u, rfl, hc, rfl⟩ := List.map_eq_cons_iff.1 hs
    obtain rfl := (plainChar_plus c).1 hc
    exact ⟨['+'], u, false, rfl, .plus, rfl⟩
  · exact ⟨[], s, false, rfl, .missing, rfl⟩

theorem takeSign_of_sign (hsign : LiteralSign sign negative)
    (hu : ∃ c d rest, u = c :: rest ∧ HexDigit c d) :
    takeSign ((sign ++ u).map plainChar) = (negative, u.map plainChar) := by
  cases hsign with
  | plus | minus => rfl
  | missing =>
    obtain ⟨c, d, rest, rfl, hc⟩ := hu
    have hplain : isHexDigit (plainChar c) = true := by
      rw [isHexDigit, hexDigitValue?_plainChar.2 hc]
      rfl
    exact takeSign_of_isHexDigit hplain _

theorem plainChar_mark {x : Char} : prefixBase? (plainChar x) = some 16 ↔ x = 'x' ∨ x = 'X' := by
  have hlower : plainChar x = 'x' ↔ x = 'x' :=
    plainChar_eq_iff (by decide) (by decide) (by decide)
  have hupper : plainChar x = 'X' ↔ x = 'X' :=
    plainChar_eq_iff (by decide) (by decide) (by decide)
  rw [← hlower, ← hupper]
  unfold prefixBase?
  split
  · next h => exact iff_of_true rfl h
  · next h =>
    refine iff_of_false ?_ h
    split <;> simp

theorem exists_takeBase (u : List Char) :
    ∃ mark row, u = mark ++ row ∧ HexMark mark ∧
      takeBase .sixteen (u.map plainChar) = (16, row.map plainChar, false) := by
  unfold takeBase
  split
  · contradiction
  · next x rest _ hu =>
    obtain ⟨z, u, rfl, hz, htail⟩ := List.map_eq_cons_iff.1 hu
    obtain ⟨x, u, rfl, rfl, rfl⟩ := List.map_eq_cons_iff.1 htail
    have hz := plainChar_eq_zero_iff.1 hz
    split
    · next hx =>
      have hx := plainChar_mark.1 hx
      unfold dropUnderscore
      split
      · next hrest =>
        obtain ⟨c, u, rfl, hc, rfl⟩ := List.map_eq_cons_iff.1 hrest
        obtain rfl := (plainChar_underscore c).1 hc
        exact ⟨[z, x, '_'], u, rfl, .underscored hz hx, rfl⟩
      · exact ⟨[z, x], u, rfl, .marked hz hx, rfl⟩
    · exact ⟨[], _, rfl, .missing, rfl⟩
  · exact ⟨[], u, rfl, .missing, rfl⟩
  · contradiction
  · contradiction

/-- A row of digits does not look like a prefix: its second character is a digit or an
underscore. -/
theorem HexRow.takeBase_eq (h : HexRow row ds) :
    takeBase .sixteen (row.map plainChar) = (16, row.map plainChar, false) := by
  unfold takeBase
  split
  · contradiction
  · next x rest _ hrow =>
    obtain ⟨z, u, rfl, -, htail⟩ := List.map_eq_cons_iff.1 hrow
    obtain ⟨x, u, rfl, rfl, -⟩ := List.map_eq_cons_iff.1 htail
    have hx : ¬ (x = 'x' ∨ x = 'X') := by
      cases h with
      | cons _ hrest =>
        obtain ⟨c, d, rest, heq, hc⟩ := hrest.exists_cons
        obtain ⟨rfl, -⟩ := List.cons.inj heq
        exact not_or.2 ⟨hc.ne (by decide) (by decide), hc.ne (by decide) (by decide)⟩
      | underscore _ _ => decide
    exact if_neg (mt plainChar_mark.1 hx)
  · rfl
  · contradiction
  · contradiction

theorem takeBase_of_mark (hmark : HexMark mark) (hrow : HexRow row ds) :
    takeBase .sixteen ((mark ++ row).map plainChar) = (16, row.map plainChar, false) := by
  cases hmark with
  | missing => exact hrow.takeBase_eq
  | marked hz hx =>
    obtain ⟨c, d, rest, rfl, hc⟩ := hrow.exists_cons
    have hunderscore : plainChar c ≠ '_' :=
      mt (plainChar_underscore c).1 (hc.ne (by decide) (by decide))
    have hdrop : dropUnderscore ((c :: rest).map plainChar) = (c :: rest).map plainChar := by
      unfold dropUnderscore
      split
      · next heq => exact absurd (List.cons.inj heq).1 hunderscore
      · rfl
    simp only [List.cons_append, List.nil_append, List.map_cons, plainChar_eq_zero_iff.2 hz,
      takeBase, plainChar_mark.2 hx, if_true] at hdrop ⊢
    rw [hdrop]
  | underscored hz hx =>
    have hplain : plainChar '_' = '_' := by decide
    simp only [List.cons_append, List.nil_append, List.map_cons, plainChar_eq_zero_iff.2 hz,
      takeBase, plainChar_mark.2 hx, if_true, hplain, dropUnderscore]

theorem exists_cons_of_mark (hmark : HexMark mark) (hrow : HexRow row ds) :
    ∃ c d rest, mark ++ row = c :: rest ∧ HexDigit c d := by
  cases hmark with
  | missing => exact hrow.exists_cons
  | marked hz _ => exact ⟨_, 0, _, rfl, hz⟩
  | underscored hz _ => exact ⟨_, 0, _, rfl, hz⟩

def LiteralChar (c : Char) : Prop :=
  (∃ d, HexDigit c d) ∨ c ∈ ['+', '-', 'x', 'X', '_']

theorem HexRow.literalChar (h : HexRow row ds) : ∀ c ∈ row, LiteralChar c := by
  induction h with
  | single hc => exact List.forall_mem_singleton.2 (Or.inl ⟨_, hc⟩)
  | cons hc _ ih => exact List.forall_mem_cons.2 ⟨Or.inl ⟨_, hc⟩, ih⟩
  | underscore hc _ ih =>
    have hunderscore : LiteralChar '_' := Or.inr (by decide)
    exact List.forall_mem_cons.2 ⟨Or.inl ⟨_, hc⟩, List.forall_mem_cons.2 ⟨hunderscore, ih⟩⟩

theorem literalChar_of_parts (hsign : LiteralSign sign negative) (hmark : HexMark mark)
    (hrow : HexRow row ds) : ∀ c ∈ sign ++ (mark ++ row), LiteralChar c := by
  have hletter {x : Char} (hx : x = 'x' ∨ x = 'X') : LiteralChar x :=
    Or.inr (by rcases hx with rfl | rfl <;> decide)
  rw [List.forall_mem_append, List.forall_mem_append]
  refine ⟨?_, ?_, hrow.literalChar⟩
  · cases hsign with
    | missing => simp
    | plus | minus => exact List.forall_mem_singleton.2 (Or.inr (by decide))
  · cases hmark with
    | missing => simp
    | marked hz hx => simpa using ⟨Or.inl ⟨0, hz⟩, hletter hx⟩
    | underscored hz hx => simpa using ⟨Or.inl ⟨0, hz⟩, hletter hx, Or.inr (by decide)⟩

theorem LiteralChar.not_blank {c : Char} (h : LiteralChar c) : isLiteralBlank c = false := by
  have hsymbols : ['+', '-', 'x', 'X', '_'].all (fun c => !isLiteralBlank c) = true := by decide
  rcases h with ⟨d, hd⟩ | hc
  · exact hd.not_blank
  · simpa using List.all_eq_true.1 hsymbols c hc

end Parts

variable {s : List Char} {n : Int}

/-- Reading in base sixteen, once its parts have been told apart. -/
theorem readInteger_eq_ok_iff {u row : List Char} {negative : Bool}
    (hsign : takeSign (trimAscii (s.map plainChar)) = (negative, u))
    (hbase : takeBase .sixteen u = (16, row, false)) :
    readInteger .sixteen s = .ok n ↔
      ∃ digits, digitRow? 16 row = some digits ∧ Numeral.toInt ⟨negative, 16, digits⟩ = n := by
  simp only [readInteger, hsign, hbase]
  cases digitRow? 16 row with
  | none => simp
  | some digits => simp [rowValue, Except.map, Numeral.toInt]

/-- What is read in base sixteen are the literals of that base. -/
theorem readInteger_sixteen_iff : readInteger .sixteen s = .ok n ↔ HexLiteral s n := by
  constructor
  · -- What the reader cuts off, step by step, are the parts of the grammar.
    intro h
    obtain ⟨pre, mid, post, rfl, hmid, hpre, hpost⟩ := exists_trimAscii s
    obtain ⟨sign, u, negative, rfl, hsign, htake⟩ := exists_takeSign mid
    obtain ⟨mark, row, rfl, hmark, hbase⟩ := exists_takeBase u
    rw [hmid] at htake
    obtain ⟨digits, hrow, rfl⟩ := (readInteger_eq_ok_iff htake hbase).1 h
    exact .intro hpre hsign hmark (hexRow_of_digitRow? hrow rfl) hpost
  · -- No part can be taken for another: a row of digits has no blank, sign or letter `x` in it.
    intro h
    obtain @⟨pre, sign, mark, row, post, negative, digits, hpre, hsign, hmark, hrow, hpost⟩ := h
    have hblank {b : Bool} {t : List Char} (ht : ∀ c ∈ t, isLiteralBlank c = b) :
        ∀ p ∈ t.map plainChar, isAsciiBlank p = b := by
      rw [List.forall_mem_map]
      intro c hc
      rw [isAsciiBlank_plainChar, ht c hc]
    have hchars := literalChar_of_parts hsign hmark hrow
    have hfirst := exists_cons_of_mark hmark hrow
    have hne : (sign ++ (mark ++ row)).map plainChar ≠ [] := by
      obtain ⟨c, d, rest, heq, -⟩ := hfirst
      simp [heq]
    have htrim : trimAscii ((pre ++ (sign ++ (mark ++ row) ++ post)).map plainChar) =
        (sign ++ (mark ++ row)).map plainChar := by
      rw [List.map_append, List.map_append]
      exact trimAscii_between (hblank hpre) (hblank fun c hc => (hchars c hc).not_blank) hne
        (hblank hpost)
    have htake := takeSign_of_sign hsign hfirst
    rw [← htrim] at htake
    apply (readInteger_eq_ok_iff htake (takeBase_of_mark hmark hrow)).2
    exact ⟨digits, digitRow?_of_hexRow hrow, rfl⟩

namespace HexLiteral

theorem not_mem {a : Char} (hblank : isLiteralBlank a = false) (ha : ¬ LiteralChar a)
    (h : HexLiteral s n) : a ∉ s := by
  obtain ⟨hpre, hsign, hmark, hrow, hpost⟩ := h
  have hends {t : List Char} (ht : ∀ c ∈ t, isLiteralBlank c = true) : a ∉ t := by
    intro hmem
    rw [ht a hmem] at hblank
    cases hblank
  rw [List.mem_append, List.mem_append, not_or, not_or]
  exact ⟨hends hpre, fun hmem => ha (literalChar_of_parts hsign hmark hrow a hmem), hends hpost⟩

/-- Only a minus sign makes a number negative. -/
theorem minus_mem (h : HexLiteral s n) (hn : n < 0) : '-' ∈ s := by
  obtain ⟨-, hsign, -, -, -⟩ := h
  cases hsign with
  | minus => simp
  | missing | plus =>
    simp only [Numeral.toInt] at hn
    exact absurd hn (by simp)

end HexLiteral

end AvrFlow.Text
