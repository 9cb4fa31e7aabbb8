import AvrFlow.Operand
import Mathlib.Data.List.Basic

namespace AvrFlow

open AvrFlow.Text

theorem mapM_eq_some_iff {α β : Type} {f : α → Option β} {xs : List α} {ys : List β} :
    xs.mapM f = some ys ↔ xs.map f = ys.map some := by
  induction xs generalizing ys with
  | nil => cases ys <;> simp
  | cons x xs ih =>
    rw [List.mapM_cons, List.map_cons]
    cases ys with
    | nil => cases f x <;> cases xs.mapM f <;> simp
    | cons y ys =>
      rw [List.map_cons, List.cons.injEq, ← ih]
      cases f x <;> cases xs.mapM f <;> simp

theorem exists_of_map_eq_map_some {α β : Type} {f : α → Option β} {xs : List α} {ys : List β}
    (h : xs.map f = ys.map some) {x : α} (hx : x ∈ xs) : ∃ y, f x = some y := by
  have hmem : f x ∈ ys.map some := h ▸ List.mem_map_of_mem hx
  obtain ⟨y, -, hy⟩ := List.mem_map.1 hmem
  exact ⟨y, hy.symm⟩

namespace Text

/-- A number in base sixteen, in either case and with zeros in front up to some width. -/
def HexText (width n : Nat) (s : List Char) : Prop :=
  s.map Char.toLower = zeroFill width (hexDigits n)

instance (width n : Nat) (s : List Char) : Decidable (HexText width n s) :=
  inferInstanceAs (Decidable (_ = _))

theorem digitValue?_digitChar : ∀ d < 10, digitValue? (Nat.digitChar d) = some d := by
  decide

theorem hexDigitValue?_digitChar : ∀ d < 16, hexDigitValue? (Nat.digitChar d) = some d := by
  decide

theorem hexDigitValue?_toLower (c : Char) : hexDigitValue? c.toLower = hexDigitValue? c := by
  have hascii :
      ∀ k < 128, hexDigitValue? (Char.ofNat k).toLower = hexDigitValue? (Char.ofNat k) := by
    decide
  by_cases h : c.toNat < 128
  · simpa using hascii c.toNat h
  · have hupper : ¬ (c.val ≥ 'A'.val ∧ c.val ≤ 'Z'.val) := by
      rintro ⟨-, hZ⟩
      exact h (Nat.lt_of_le_of_lt (UInt32.le_iff_toNat_le.1 hZ) (by decide))
    have hsame : c.toLower = c := dif_neg hupper
    rw [hsame]

theorem ofDigits_replicate_append (base k : Nat) (digits : List Nat) :
    ofDigits base (List.replicate k 0 ++ digits) = ofDigits base digits := by
  induction k with
  | zero => rfl
  | succ k ih =>
    rw [← ih]
    simp [ofDigits, List.replicate_succ]

/-- The digits of a number, read one by one, denote the number. -/
theorem exists_digits_of_toDigits {value? : Char → Option Nat} {base : Nat} (hbase : 1 < base)
    (hvalue : ∀ d < base, value? (Nat.digitChar d) = some d) (n : Nat) :
    ∃ digits, (Nat.toDigits base n).map value? = digits.map some ∧ ofDigits base digits = n := by
  -- The last digit is a remainder; the digits before it are those of the quotient.
  induction n using Nat.strongRecOn with
  | ind n ih =>
    by_cases h : n < base
    · refine ⟨[n], ?_, ?_⟩
      · rw [Nat.toDigits_of_lt_base h, List.map_singleton, hvalue n h]
        rfl
      · simp [ofDigits]
    · have hlt : n / base < n := Nat.div_lt_self (by omega) hbase
      have hmod : n % base < base := Nat.mod_lt n (by omega)
      obtain ⟨digits, hmap, hof⟩ := ih (n / base) hlt
      refine ⟨digits ++ [n % base], ?_, ?_⟩
      · rw [Nat.toDigits_of_base_le hbase (by omega), List.map_append, hmap, List.map_singleton,
          hvalue _ hmod, List.map_append]
        rfl
      · rw [ofDigits_concat, hof]
        exact Nat.div_add_mod n base

theorem HexText.exists_digits {width n : Nat} {s : List Char} (h : HexText width n s) :
    ∃ digits, s.map hexDigitValue? = digits.map some ∧ ofDigits 16 digits = n := by
  obtain ⟨digits, hmap, hof⟩ :=
    exists_digits_of_toDigits (by decide) hexDigitValue?_digitChar n
  refine ⟨List.replicate (width - (hexDigits n).length) 0 ++ digits, ?_, ?_⟩
  · have hcase : s.map hexDigitValue? = (s.map Char.toLower).map hexDigitValue? := by
      rw [List.map_map]
      apply List.map_congr_left
      intro c _
      exact (hexDigitValue?_toLower c).symm
    rw [hcase, h, zeroFill, List.map_append, List.map_append, List.map_replicate,
      List.map_replicate, hexDigits, hmap]
    rfl
  · rw [ofDigits_replicate_append, hof]

theorem HexText.ne_nil {width n : Nat} {s : List Char} (h : HexText width n s) : s ≠ [] := by
  rintro rfl
  have hlength := congrArg List.length h
  have hpos := Nat.length_toDigits_pos (b := 16) (n := n)
  simp only [zeroFill, hexDigits, List.map_nil, List.length_nil, List.length_append] at hlength
  omega

def hexChars : List Char :=
  "0123456789abcdefABCDEF".toList

theorem mem_hexChars {c : Char} (h : isHexDigit c = true) : c ∈ hexChars := by
  have hascii : ∀ k < 128, isHexDigit (Char.ofNat k) = true → Char.ofNat k ∈ hexChars := by
    decide
  have hlt : c.toNat < 128 := by
    simp only [isHexDigit, hexDigitValue?] at h
    grind
  simpa using hascii c.toNat hlt (by simpa using h)

theorem HexText.isHexDigit {width n : Nat} {s : List Char} (h : HexText width n s) :
    ∀ c ∈ s, isHexDigit c = true := by
  intro c hc
  obtain ⟨digits, hmap, -⟩ := h.exists_digits
  obtain ⟨d, hd⟩ := exists_of_map_eq_map_some hmap hc
  rw [Text.isHexDigit, hd]
  rfl

theorem digitRow?_of_map {s : List Char} {digits : List Nat} (hne : s ≠ [])
    (h : s.map hexDigitValue? = digits.map some) : digitRow? 16 s = some digits := by
  have hdigit {c : Char} {d : Nat} (hc : hexDigitValue? c = some d) : digitIn? 16 c = some d := by
    rw [digitIn?, hc, Option.filter_some_pos]
    exact decide_eq_true (hexDigitValue?_lt hc)
  induction s generalizing digits with
  | nil => exact absurd rfl hne
  | cons c rest ih =>
    cases digits with
    | nil => simp at h
    | cons d digits =>
      obtain ⟨hc, hrest⟩ := List.cons.inj h
      cases rest with
      | nil =>
        obtain rfl : digits = [] := by simpa using hrest.symm
        rw [digitRow?, hdigit hc]
        rfl
      | cons c' rest =>
        have hunderscore : ∀ t, c' :: rest = '_' :: t → False := by
          intro t heq
          obtain ⟨rfl, -⟩ := List.cons.inj heq
          cases digits <;> simp [hexDigitValue?] at hrest
        rw [digitRow?, hdigit hc, ih (by simp) hrest]
        · rfl
        · simp
        · exact hunderscore

/-- What holds of each of these digits holds of every hexadecimal digit. -/
theorem of_isHexDigit {p : Char → Bool} (hp : hexChars.all p = true) {c : Char}
    (h : isHexDigit c = true) : p c = true :=
  List.all_eq_true.1 hp c (mem_hexChars h)

theorem isBlank_of_isHexDigit {c : Char} (h : isHexDigit c = true) : isBlank c = false := by
  have hblank := of_isHexDigit (p := fun c => !isBlank c) (by decide) h
  simpa using hblank

theorem isAsciiBlank_of_isHexDigit {c : Char} (h : isHexDigit c = true) :
    isAsciiBlank c = false := by
  rw [Bool.eq_false_iff]
  intro hascii
  exact Bool.eq_false_iff.1 (isBlank_of_isHexDigit h) (isBlank_of_isAsciiBlank hascii)

theorem plainChar_of_isHexDigit {c : Char} (h : isHexDigit c = true) : plainChar c = c := by
  have hplain := of_isHexDigit (p := fun c => plainChar c == c) (by decide) h
  simpa using hplain

theorem prefixBase?_of_isHexDigit {c : Char} (h : isHexDigit c = true) :
    prefixBase? c ≠ some 16 := by
  have hbase := of_isHexDigit (p := fun c => prefixBase? c != some 16) (by decide) h
  simpa using hbase

theorem takeSign_of_isHexDigit {c : Char} (hc : isHexDigit c = true) (rest : List Char) :
    takeSign (c :: rest) = (false, c :: rest) := by
  unfold takeSign
  split
  · next heq =>
    obtain ⟨rfl, -⟩ := List.cons.inj heq
    exact absurd hc (by decide)
  · next heq =>
    obtain ⟨rfl, -⟩ := List.cons.inj heq
    exact absurd hc (by decide)
  · rfl

theorem takeBase_of_isHexDigit {s : List Char} (h : ∀ c ∈ s, isHexDigit c = true) :
    takeBase .sixteen s = (16, s, false) := by
  unfold takeBase
  split
  · contradiction
  · next c rest _ => exact if_neg (prefixBase?_of_isHexDigit (h c (by simp)))
  · rfl
  · contradiction
  · contradiction

theorem readInteger_of_hexText {width n : Nat} {s : List Char} (h : HexText width n s) :
    readInteger .sixteen s = .ok n := by
  have hchars := h.isHexDigit
  have hplain : s.map plainChar = s := by
    have hmap : s.map plainChar = s.map id :=
      List.map_congr_left fun c hc => plainChar_of_isHexDigit (hchars c hc)
    rw [hmap, List.map_id]
  have htrim : trimAscii s = s := by
    have hdrop {t : List Char} (ht : ∀ c ∈ t, Text.isHexDigit c = true) :
        t.dropWhile isAsciiBlank = t := by
      cases t with
      | nil => rfl
      | cons c rest =>
        apply List.dropWhile_cons_of_neg
        simp [isAsciiBlank_of_isHexDigit (ht c (by simp))]
    rw [trimAscii, hdrop hchars, hdrop (by simpa using hchars), List.reverse_reverse]
  have hsign : takeSign s = (false, s) := by
    cases s with
    | nil => rfl
    | cons c rest => exact takeSign_of_isHexDigit (hchars c (by simp)) rest
  obtain ⟨digits, hmap, hof⟩ := h.exists_digits
  have hvalue : rowValue 16 false digits = .ok n := by
    simp [rowValue, hof]
  rw [readInteger, hplain, htrim, hsign]
  simp only [takeBase_of_isHexDigit hchars, digitRow?_of_map h.ne_nil hmap, hvalue]
  rfl

theorem HexText.trim_eq {width n : Nat} {s : List Char} (h : HexText width n s) : trim s = s := by
  have hblank : ∀ c ∈ s, isBlank c = false :=
    fun c hc => isBlank_of_isHexDigit (h.isHexDigit c hc)
  exact trim_eq_self_iff.2 ⟨trimStart_of_forall hblank, trimEnd_of_forall hblank⟩

theorem HexText.not_mem {width n : Nat} {s : List Char} (h : HexText width n s) {a : Char}
    (ha : Text.isHexDigit a = false) : a ∉ s := by
  intro hmem
  rw [h.isHexDigit a hmem] at ha
  cases ha

theorem HexText.tab_not_mem {width n : Nat} {s : List Char} (h : HexText width n s) :
    '\t' ∉ s :=
  h.not_mem (by decide)

theorem HexText.exists_pair {b : UInt8} {s : List Char} (h : HexText 2 b.toNat s) :
    ∃ c d high low, s = [c, d] ∧ hexDigitValue? c = some high ∧ hexDigitValue? d = some low ∧
      16 * high + low = b.toNat := by
  have htwo : ∀ n < 256, (zeroFill 2 (hexDigits n)).length = 2 := by decide +kernel
  have hlength : s.length = 2 := by
    have heq := congrArg List.length h
    rwa [List.length_map, htwo _ b.toNat_lt] at heq
  obtain ⟨digits, hmap, hof⟩ := h.exists_digits
  obtain ⟨c, d, rfl⟩ := List.length_eq_two.1 hlength
  have hdigits : digits.length = 2 := by
    simpa using (congrArg List.length hmap).symm
  obtain ⟨high, low, rfl⟩ := List.length_eq_two.1 hdigits
  simp only [List.map_cons, List.map_nil, List.cons.injEq, and_true] at hmap
  refine ⟨c, d, high, low, rfl, hmap.1, hmap.2, ?_⟩
  simpa [ofDigits] using hof

end Text

end AvrFlow
