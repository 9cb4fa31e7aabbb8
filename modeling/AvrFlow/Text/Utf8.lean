namespace AvrFlow.Text

inductive Utf8Reason where
  | invalidStart
  | invalidContinuation
  | unexpectedEnd
  deriving DecidableEq, Repr

/-- An ill-formed sequence: its first byte, its place, its size in bytes and the reason. -/
structure Utf8Fault where
  byte : UInt8
  position : Nat
  size : Nat
  reason : Utf8Reason
  deriving DecidableEq, Repr

def isContinuation (b : UInt8) : Bool :=
  0x80 ≤ b && b ≤ 0xBF

/-- Whether the second byte may follow the first: after four of the leads its range is smaller. -/
def mayFollow (lead second : UInt8) : Bool :=
  isContinuation second && !(lead == 0xE0 && second < 0xA0) && !(lead == 0xED && 0xA0 ≤ second) &&
    !(lead == 0xF0 && second < 0x90) && !(lead == 0xF4 && 0x90 ≤ second)

def payload (b : UInt8) : Nat :=
  b.toNat % 64

/-- Decodes bytes whose first one stands at the given position of the whole. -/
def decodeUtf8From (pos : Nat) : List UInt8 → Except Utf8Fault (List Char)
  | [] => .ok []
  | a :: rest =>
    if a < 0x80 then
      (decodeUtf8From (pos + 1) rest).map (Char.ofNat a.toNat :: ·)
    else if a < 0xC2 || 0xF4 < a then
      .error ⟨a, pos, 1, .invalidStart⟩
    else
      -- The lead announces one, two or three continuation bytes.
      match rest with
      | [] => .error ⟨a, pos, 1, .unexpectedEnd⟩
      | b :: rest =>
        if !mayFollow a b then
          .error ⟨a, pos, 1, .invalidContinuation⟩
        else if a < 0xE0 then
          (decodeUtf8From (pos + 2) rest).map (Char.ofNat (a.toNat % 32 * 64 + payload b) :: ·)
        else
          match rest with
          | [] => .error ⟨a, pos, 2, .unexpectedEnd⟩
          | c :: rest =>
            if !isContinuation c then
              .error ⟨a, pos, 2, .invalidContinuation⟩
            else if a < 0xF0 then
              (decodeUtf8From (pos + 3) rest).map
                (Char.ofNat ((a.toNat % 16 * 64 + payload b) * 64 + payload c) :: ·)
            else
              match rest with
              | [] => .error ⟨a, pos, 3, .unexpectedEnd⟩
              | d :: rest =>
                if !isContinuation d then
                  .error ⟨a, pos, 3, .invalidContinuation⟩
                else
                  (decodeUtf8From (pos + 4) rest).map
                    (Char.ofNat (((a.toNat % 8 * 64 + payload b) * 64 + payload c) * 64 +
                      payload d) :: ·)

def decodeUtf8 (bytes : List UInt8) : Except Utf8Fault (List Char) :=
  decodeUtf8From 0 bytes

def encodeUtf8 (s : List Char) : List UInt8 :=
  s.flatMap String.utf8EncodeChar

end AvrFlow.Text
