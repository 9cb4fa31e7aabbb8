import AvrFlow.Proofs.Numerals
import Mathlib.Data.List.Basic

namespace AvrFlow.Operand

open AvrFlow.Text

inductive Form where
  | displacement
  | hexadecimal
  | decimal
  | register
  deriving DecidableEq, Repr

namespace Form

/-- What stands in front of the digits, of a negative number or of another one. There are no
negative registers. -/
def lead? : Form → Bool → Option (List Char)
  | displacement, false => some ['.', '+']
  | displacement, true => some ['.', '-']
  | hexadecimal, false => some ['0', 'x']
  | hexadecimal, true => some ['-', '0', 'x']
  | decimal, false => some []
  | decimal, true => some ['-']
  | register, false => some ['r']
  | register, true => none

def base : Form → Nat
  | hexadecimal => 16
  | _ => 10

/-- Decimal digits may be those of any script. -/
def digit? : Form → Char → Option Nat
  | hexadecimal => hexDigitValue?
  | _ => digitValue?

def rowNumeral? (f : Form) (negative : Bool) (row : List Char) : Option Numeral :=
  (row? f.digit? row).map (⟨negative, f.base, ·⟩)

def recognise? : Form → List Char → Option Numeral
  | displacement => displacement?
  | hexadecimal => hexadecimal?
  | decimal => decimal?
  | register => register?

end Form

/-- A text in a form: what stands in front, one or more digits, and perhaps a line feed. -/
inductive Spelled (f : Form) : List Char → Numeral → Prop
  | intro {negative : Bool} {lead row feed : List Char} {digits : List Nat}
    (hlead : f.lead? negative = some lead) (hrow : row ≠ [])
    (hdigits : row.map f.digit? = digits.map some) (hfeed : feed = [] ∨ feed = ['\n']) :
    Spelled f (lead ++ row ++ feed) ⟨negative, f.base, digits⟩

variable {f g : Form} {s row : List Char} {m n : Numeral} {digits : List Nat} {negative : Bool}

theorem rowNumeral?_eq_some_iff :
    f.rowNumeral? negative row = some n ↔
      ∃ digits, n = ⟨negative, f.base, digits⟩ ∧ row ≠ [] ∧
        row.map f.digit? = digits.map some := by
  unfold Form.rowNumeral? row?
  split
  · next h => simp [h]
  · next h =>
    simp only [Option.map_eq_some_iff, mapM_eq_some_iff, h, ne_eq, not_false_eq_true, true_and]
    grind

theorem digit?_of_rowNumeral? {c : Char} (h : f.rowNumeral? negative row = some n) (hc : c ∈ row) :
    f.digit? c ≠ none := by
  obtain ⟨digits, -, -, hdigits⟩ := rowNumeral?_eq_some_iff.1 h
  obtain ⟨d, hd⟩ := exists_of_map_eq_map_some hdigits hc
  simp [hd]

theorem dropNewline_append {t feed : List Char} (ht : t.getLast? ≠ some '\n')
    (hfeed : feed = [] ∨ feed = ['\n']) : dropNewline (t ++ feed) = t := by
  rcases hfeed with rfl | rfl <;> simp [dropNewline, ht]

theorem exists_dropNewline_append (s : List Char) :
    ∃ feed, (feed = [] ∨ feed = ['\n']) ∧ s = dropNewline s ++ feed := by
  unfold dropNewline
  split
  · next h =>
    obtain ⟨t, rfl⟩ := List.getLast?_eq_some_iff.1 h
    exact ⟨['\n'], Or.inr rfl, by rw [List.dropLast_concat]⟩
  · exact ⟨[], Or.inl rfl, (List.append_nil s).symm⟩

theorem digit?_newline : f.digit? '\n' = none := by
  cases f <;> decide

theorem spelled_iff :
    Spelled f s n ↔ ∃ negative lead row, f.lead? negative = some lead ∧
      dropNewline s = lead ++ row ∧ f.rowNumeral? negative row = some n := by
  constructor
  · intro h
    cases h with
    | @intro negative lead row feed digits hlead hrow hdigits hfeed =>
      have hnumeral : f.rowNumeral? negative row = some ⟨negative, f.base, digits⟩ :=
        rowNumeral?_eq_some_iff.2 ⟨digits, rfl, hrow, hdigits⟩
      refine ⟨negative, lead, row, hlead, dropNewline_append ?_ hfeed, hnumeral⟩
      -- The last character is a digit, and a line feed is none.
      rw [List.getLast?_append_of_ne_nil _ hrow]
      intro hlast
      exact digit?_of_rowNumeral? hnumeral (List.mem_of_getLast? hlast) digit?_newline
  · rintro ⟨negative, lead, row, hlead, hs, hrow⟩
    obtain ⟨digits, rfl, hne, hdigits⟩ := rowNumeral?_eq_some_iff.1 hrow
    obtain ⟨feed, hfeed, heq⟩ := exists_dropNewline_append s
    rw [heq, hs]
    exact ⟨hlead, hne, hdigits, hfeed⟩

def formOf : List Char → Form
  | '.' :: _ => .displacement
  | '0' :: 'x' :: _ | '-' :: '0' :: 'x' :: _ => .hexadecimal
  | 'r' :: _ => .register
  | _ => .decimal

theorem formOf_of_spelled (h : Spelled f s n) : formOf (dropNewline s) = f := by
  obtain ⟨negative, lead, row, hlead, hs, hrow⟩ := spelled_iff.1 h
  rw [hs]
  cases f <;> cases negative <;> cases hlead
  case decimal.false | decimal.true =>
    -- Only the row of a decimal number could be taken for the beginning of another form.
    have hnot (c : Char) (hc : digitValue? c = none) : c ∉ row :=
      fun hmem => digit?_of_rowNumeral? hrow hmem hc
    have hdot := hnot '.' (by decide)
    have hminus := hnot '-' (by decide)
    have hr := hnot 'r' (by decide)
    have hx := hnot 'x' (by decide)
    unfold formOf
    split
    case h_5 => rfl
    all_goals grind
  all_goals rfl

theorem spelled_of_recognise? (h : f.recognise? s = some n) : Spelled f s n := by
  rw [spelled_iff]
  cases f with
  | displacement =>
    change displacement? s = some n at h
    unfold displacement? at h
    split at h
    · next row hs => exact ⟨false, _, row, rfl, hs, h⟩
    · next row hs => exact ⟨true, _, row, rfl, hs, h⟩
    · cases h
  | hexadecimal =>
    change hexadecimal? s = some n at h
    unfold hexadecimal? at h
    split at h
    · next row hs => exact ⟨true, _, row, rfl, hs, h⟩
    · next row hs => exact ⟨false, _, row, rfl, hs, h⟩
    · cases h
  | decimal =>
    change decimal? s = some n at h
    unfold decimal? at h
    split at h
    · next row hs => exact ⟨true, _, row, rfl, hs, h⟩
    · exact ⟨false, _, _, rfl, rfl, h⟩
  | register =>
    change register? s = some n at h
    unfold register? at h
    split at h
    · next row hs => exact ⟨false, _, row, rfl, hs, h⟩
    · cases h

theorem recognise?_of_spelled (h : Spelled f s n) : f.recognise? s = some n := by
  obtain ⟨negative, lead, row, hlead, hs, hrow⟩ := spelled_iff.1 h
  cases f <;> cases negative <;> cases hlead
  all_goals
    simp only [Form.recognise?, displacement?, hexadecimal?, decimal?, register?, hs,
      List.cons_append, List.nil_append]
  case decimal.false =>
    split
    · exact absurd rfl (digit?_of_rowNumeral? hrow (List.mem_cons_self ..))
    · exact hrow
  all_goals exact hrow

theorem Spelled.unique (h : Spelled f s m) (h' : Spelled g s n) : f = g ∧ m = n := by
  obtain rfl : f = g := (formOf_of_spelled h).symm.trans (formOf_of_spelled h')
  have hsome : some m = some n := (recognise?_of_spelled h).symm.trans (recognise?_of_spelled h')
  exact ⟨rfl, Option.some.inj hsome⟩

/-- The recognisers are tried one after the other. -/
theorem numeral?_eq_or :
    numeral? s = (Form.displacement.recognise? s).or ((Form.hexadecimal.recognise? s).or
      ((Form.decimal.recognise? s).or (Form.register.recognise? s))) := by
  simp only [numeral?, Option.orElse_eq_orElse, Option.orElse_eq_or, Form.recognise?]

theorem exists_form_of_numeral? (h : numeral? s = some n) : ∃ f, Spelled f s n := by
  rw [numeral?_eq_or] at h
  simp only [Option.or_eq_some_iff] at h
  rcases h with h | ⟨-, h | ⟨-, h | ⟨-, h⟩⟩⟩
  all_goals exact ⟨_, spelled_of_recognise? h⟩

theorem numeral?_of_spelled (h : Spelled f s n) : numeral? s = some n := by
  have hrecognised := recognise?_of_spelled h
  cases hnumeral : numeral? s with
  | none =>
    rw [numeral?_eq_or] at hnumeral
    simp only [Option.or_eq_none_iff] at hnumeral
    obtain ⟨hdisp, hhex, hdec, hreg⟩ := hnumeral
    cases f <;> simp_all
  | some m =>
    -- Whichever recogniser was first, the text has no second form.
    obtain ⟨g, hg⟩ := exists_form_of_numeral? hnumeral
    rw [(hg.unique h).2]

theorem Spelled.base_eq (h : Spelled f s n) : n.base = f.base := by
  cases h
  rfl

theorem base_eq_ten_iff : f.base = 10 ↔ f ≠ .hexadecimal := by
  cases f <;> decide

theorem decode_of_spelled (h : Spelled f s n) :
    decode s =
      if f ≠ .hexadecimal ∧ digitLimit < n.digits.length then
        .error (.tooManyDigits n.digits.length)
      else .ok (some n.toInt) := by
  simp only [decode, numeral?_of_spelled h, h.base_eq, base_eq_ten_iff]

theorem decode_of_not_spelled (h : ∀ f n, ¬ Spelled f s n) : decode s = .ok none := by
  cases hnumeral : numeral? s with
  | none => simp only [decode, hnumeral]
  | some n =>
    obtain ⟨f, hf⟩ := exists_form_of_numeral? hnumeral
    exact absurd hf (h f n)

structure DecodedByForm (s : List Char) : Prop where
  unique : ∀ f g m n, Spelled f s m → Spelled g s n → f = g ∧ m = n
  none_iff : decode s = .ok none ↔ ∀ f n, ¬ Spelled f s n
  error_iff : ∀ e, decode s = .error e ↔
    ∃ f n, Spelled f s n ∧ f ≠ .hexadecimal ∧ digitLimit < n.digits.length ∧
      e = .tooManyDigits n.digits.length
  some_iff : ∀ v, decode s = .ok (some v) ↔
    ∃ f n, Spelled f s n ∧ (f = .hexadecimal ∨ n.digits.length ≤ digitLimit) ∧ v = n.toInt

theorem exists_spelled_iff {P : Form → Numeral → Prop} (h : Spelled f s n) :
    (∃ g m, Spelled g s m ∧ P g m) ↔ P f n := by
  constructor
  · rintro ⟨g, m, hg, hP⟩
    obtain ⟨rfl, rfl⟩ := hg.unique h
    exact hP
  · intro hP
    exact ⟨f, n, h, hP⟩

theorem decodedByForm (s : List Char) : DecodedByForm s := by
  have hunique : ∀ f g m n, Spelled f s m → Spelled g s n → f = g ∧ m = n :=
    fun _ _ _ _ h h' => h.unique h'
  by_cases hform : ∃ f n, Spelled f s n
  · obtain ⟨f, n, hf⟩ := hform
    refine ⟨hunique, ?_, ?_, ?_⟩
    · rw [decode_of_spelled hf]
      constructor
      · intro hnone
        split at hnone <;> cases hnone
      · intro hall
        exact absurd hf (hall f n)
    · intro e
      rw [exists_spelled_iff hf, decode_of_spelled hf]
      split
      · next hlong => simp [hlong, eq_comm]
      · next hshort =>
        simp only [reduceCtorEq, false_iff]
        exact fun h => hshort ⟨h.1, h.2.1⟩
    · intro v
      rw [exists_spelled_iff hf, decode_of_spelled hf]
      split
      · next hlong =>
        simp only [reduceCtorEq, false_iff]
        rintro ⟨hhex | hfew, -⟩
        · exact hlong.1 hhex
        · omega
      · next hshort =>
        have hfew : f = .hexadecimal ∨ n.digits.length ≤ digitLimit := by
          rw [not_and_or, not_not, Nat.not_lt] at hshort
          exact hshort
        simp [hfew, eq_comm]
  · have hnone : ∀ f n, ¬ Spelled f s n := fun f n h => hform ⟨f, n, h⟩
    have hdecode := decode_of_not_spelled hnone
    refine ⟨hunique, ?_, ?_, ?_⟩
    · exact ⟨fun _ => hnone, fun _ => hdecode⟩
    · intro e
      rw [hdecode]
      simp [hnone]
    · intro v
      rw [hdecode]
      simp [hnone]

theorem toInt_eq {base : Nat} {digits : List Nat} {v : Int} (hsign : decide (v < 0) = negative)
    (h : ofDigits base digits = v.natAbs) : Numeral.toInt ⟨negative, base, digits⟩ = v := by
  subst hsign
  simp only [Numeral.toInt, h, decide_eq_true_eq]
  split <;> omega

def signedText (v : Int) : List Char :=
  (if v < 0 then '-' else '+') :: Nat.toDigits 10 v.natAbs

/-- A number is read back from each of the forms in which it can be written. In base ten it must not
have too many digits. -/
structure ReadBack (v : Int) : Prop where
  hexadecimal : ∀ width row, HexText width v.natAbs row →
    decode ((if v < 0 then ['-'] else []) ++ '0' :: 'x' :: row) = .ok (some v)
  decimal : (Nat.toDigits 10 v.natAbs).length ≤ digitLimit →
    decode (toString v).toList = .ok (some v)
  displacement : (Nat.toDigits 10 v.natAbs).length ≤ digitLimit →
    decode ('.' :: signedText v) = .ok (some v)
  register : 0 ≤ v → (Nat.toDigits 10 v.natAbs).length ≤ digitLimit →
    decode ('r' :: (toString v).toList) = .ok (some v)

theorem decode_lead_append (lead : List Char) {v : Int} (hsign : decide (v < 0) = negative)
    (hlead : f.lead? negative = some lead) (hrow : row ≠ [])
    (hdigits : row.map f.digit? = digits.map some) (hvalue : ofDigits f.base digits = v.natAbs)
    (hfew : f = .hexadecimal ∨ row.length ≤ digitLimit) :
    decode (lead ++ row) = .ok (some v) := by
  have hspelled : Spelled f (lead ++ row) ⟨negative, f.base, digits⟩ := by
    have h := Spelled.intro hlead hrow hdigits (Or.inl rfl)
    rwa [List.append_nil] at h
  have hlength : row.length = digits.length := by
    simpa using congrArg List.length hdigits
  rw [decode_of_spelled hspelled, if_neg, toInt_eq hsign hvalue]
  rintro ⟨hhex, hlong⟩
  rcases hfew with hhex' | hfew
  · exact hhex hhex'
  · dsimp only at hlong
    omega

theorem decode_lead_toDigits (lead : List Char) {v : Int} (hhex : f ≠ .hexadecimal)
    (hsign : decide (v < 0) = negative) (hlead : f.lead? negative = some lead)
    (hfew : (Nat.toDigits 10 v.natAbs).length ≤ digitLimit) :
    decode (lead ++ Nat.toDigits 10 v.natAbs) = .ok (some v) := by
  obtain ⟨digits, hdigits, hvalue⟩ :=
    exists_digits_of_toDigits (by decide) digitValue?_digitChar v.natAbs
  have hform : f.digit? = digitValue? ∧ f.base = 10 := by
    cases f
    case hexadecimal => exact absurd rfl hhex
    all_goals exact ⟨rfl, rfl⟩
  apply decode_lead_append lead hsign hlead Nat.toDigits_ne_nil
  · rw [hform.1]
    exact hdigits
  · rw [hform.2]
    exact hvalue
  · exact Or.inr hfew

theorem readBack (v : Int) : ReadBack v where
  hexadecimal := by
    intro width row hrow
    obtain ⟨digits, hdigits, hvalue⟩ := hrow.exists_digits
    have hread {negative : Bool} (lead : List Char) (hsign : decide (v < 0) = negative)
        (hlead : Form.hexadecimal.lead? negative = some lead) :
        decode (lead ++ row) = .ok (some v) :=
      decode_lead_append lead hsign hlead hrow.ne_nil hdigits hvalue (Or.inl rfl)
    split
    · next hneg => exact hread ['-', '0', 'x'] (decide_eq_true hneg) rfl
    · next hnonneg => exact hread ['0', 'x'] (decide_eq_false hnonneg) rfl
  decimal := by
    intro hfew
    have hdecimal : Form.decimal ≠ .hexadecimal := by decide
    rw [toList_toString]
    split
    · next hneg => exact decode_lead_toDigits ['-'] hdecimal (decide_eq_true hneg) rfl hfew
    · next hnonneg => exact decode_lead_toDigits [] hdecimal (decide_eq_false hnonneg) rfl hfew
  displacement := by
    intro hfew
    have hdisp : Form.displacement ≠ .hexadecimal := by decide
    unfold signedText
    split
    · next hneg => exact decode_lead_toDigits ['.', '-'] hdisp (decide_eq_true hneg) rfl hfew
    · next hnonneg => exact decode_lead_toDigits ['.', '+'] hdisp (decide_eq_false hnonneg) rfl hfew
  register := by
    intro hnonneg hfew
    have hregister : Form.register ≠ .hexadecimal := by decide
    have hsign : ¬ v < 0 := by omega
    rw [toList_toString, if_neg hsign]
    exact decode_lead_toDigits ['r'] hregister (decide_eq_false hsign) rfl hfew

/-- Operands are read in four forms and in no other way, and what is written in one of them is read
back. -/
theorem decode_forms : (∀ s, DecodedByForm s) ∧ ∀ v, ReadBack v :=
  ⟨decodedByForm, readBack⟩

-- Digits of another script and a line feed at the end.
example : decode ['.', '-', '٢', '4', '\n'] = .ok (some (-24)) := by decide

end AvrFlow.Operand
