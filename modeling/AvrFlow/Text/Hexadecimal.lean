namespace AvrFlow.Text

def hexDigits (n : Nat) : List Char :=
  Nat.toDigits 16 n

def upperHexDigits (n : Nat) : List Char :=
  (hexDigits n).map Char.toUpper

def zeroFill (width : Nat) (digits : List Char) : List Char :=
  List.replicate (width - digits.length) '0' ++ digits

def hex (n : Int) : String :=
  String.ofList ((if n < 0 then ['-'] else []) ++ hexDigits n.natAbs)

/-- An integer as eight or more places of upper case hexadecimal, of which a minus sign is one. -/
def hex8Chars (n : Int) : List Char :=
  if n < 0 then '-' :: zeroFill 7 (upperHexDigits n.natAbs)
  else zeroFill 8 (upperHexDigits n.natAbs)

def hex8 (n : Int) : String :=
  String.ofList (hex8Chars n)

def hexDigitValue? (c : Char) : Option Nat :=
  let n := c.toNat
  if 0x30 ≤ n ∧ n ≤ 0x39 then some (n - 0x30)
  else if 0x61 ≤ n ∧ n ≤ 0x66 then some (n - 0x61 + 10)
  else if 0x41 ≤ n ∧ n ≤ 0x46 then some (n - 0x41 + 10)
  else none

def isHexDigit (c : Char) : Bool :=
  (hexDigitValue? c).isSome

theorem hexDigitValue?_lt {c : Char} {n : Nat} (h : hexDigitValue? c = some n) : n < 16 := by
  simp only [hexDigitValue?] at h
  split at h
  · rw [Option.some.injEq] at h
    omega
  · split at h
    · rw [Option.some.injEq] at h
      omega
    · split at h
      · rw [Option.some.injEq] at h
        omega
      · exact absurd h (by simp)

end AvrFlow.Text
