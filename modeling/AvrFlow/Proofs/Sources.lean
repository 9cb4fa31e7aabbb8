import AvrFlow.Proofs.Atomicity
import Mathlib.Data.List.Basic

/-!
Two sources of one listing. A listing file is decoded from UTF-8 and its newlines are unified before
it is cut into lines; the output of the disassembler is cut as it is. Encoding is undone by
decoding, and lines do not tell the newlines apart, so both sources of one text are read alike.
-/

namespace AvrFlow

namespace Text

variable {a b c d : UInt8} {pos : Nat} {rest : List UInt8}

theorem isContinuation_iff : isContinuation b = true ↔ 0x80 ≤ b.toNat ∧ b.toNat ≤ 0xBF := by
  simp [isContinuation, UInt8.le_iff_toNat_le]

/-- The second byte may not begin a sequence that is longer than it has to be, a surrogate, or a
number beyond the last character. -/
theorem mayFollow_iff : mayFollow a b = true ↔ (0x80 ≤ b.toNat ∧ b.toNat ≤ 0xBF) ∧
    (a.toNat = 0xE0 → 0xA0 ≤ b.toNat) ∧ (a.toNat = 0xED → b.toNat < 0xA0) ∧
    (a.toNat = 0xF0 → 0x90 ≤ b.toNat) ∧ (a.toNat = 0xF4 → b.toNat < 0x90) := by
  have hlead (n : UInt8) : a = n ↔ a.toNat = n.toNat := UInt8.toNat_inj.symm
  simp only [mayFollow, Bool.and_eq_true, Bool.not_eq_true', Bool.and_eq_false_iff,
    isContinuation_iff, decide_eq_false_iff_not, beq_eq_false_iff_ne, ne_eq, hlead,
    UInt8.lt_iff_toNat_lt, UInt8.le_iff_toNat_le, UInt8.reduceToNat]
  omega

theorem decodeUtf8From_one (ha : a.toNat < 0x80) :
    decodeUtf8From pos (a :: rest) =
      (decodeUtf8From (pos + 1) rest).map (Char.ofNat a.toNat :: ·) := by
  have hascii : a < 0x80 := UInt8.lt_iff_toNat_lt.2 ha
  rw [decodeUtf8From.eq_def]
  exact if_pos hascii

/-- A byte that announces more bytes is neither an ASCII character nor out of place. -/
theorem lead_of_range (hlow : 0xC2 ≤ a.toNat) (hhigh : a.toNat ≤ 0xF4) :
    ¬ a < 0x80 ∧ ¬ (a < 0xC2 || 0xF4 < a) = true := by
  simp only [Bool.or_eq_true, decide_eq_true_eq, UInt8.lt_iff_toNat_lt, UInt8.reduceToNat]
  omega

theorem decodeUtf8From_two (hlow : 0xC2 ≤ a.toNat) (hhigh : a.toNat < 0xE0)
    (hb : mayFollow a b = true) :
    decodeUtf8From pos (a :: b :: rest) =
      (decodeUtf8From (pos + 2) rest).map
        (Char.ofNat (a.toNat % 32 * 64 + payload b) :: ·) := by
  obtain ⟨hascii, hplace⟩ := lead_of_range hlow (by omega)
  have htwo : a < 0xE0 := UInt8.lt_iff_toNat_lt.2 hhigh
  rw [decodeUtf8From.eq_def]
  simp only [if_neg hascii, if_neg hplace, hb, Bool.not_true, Bool.false_eq_true, if_false,
    if_pos htwo]

theorem decodeUtf8From_three (hlow : 0xE0 ≤ a.toNat) (hhigh : a.toNat < 0xF0)
    (hb : mayFollow a b = true) (hc : isContinuation c = true) :
    decodeUtf8From pos (a :: b :: c :: rest) =
      (decodeUtf8From (pos + 3) rest).map
        (Char.ofNat ((a.toNat % 16 * 64 + payload b) * 64 + payload c) :: ·) := by
  obtain ⟨hascii, hplace⟩ := lead_of_range (a := a) (by omega) (by omega)
  have htwo : ¬ a < 0xE0 := by
    simp only [UInt8.lt_iff_toNat_lt, UInt8.reduceToNat]
    omega
  have hthree : a < 0xF0 := UInt8.lt_iff_toNat_lt.2 hhigh
  rw [decodeUtf8From.eq_def]
  simp only [if_neg hascii, if_neg hplace, hb, hc, Bool.not_true, Bool.false_eq_true, if_false,
    if_neg htwo, if_pos hthree]

theorem decodeUtf8From_four (hlow : 0xF0 ≤ a.toNat) (hhigh : a.toNat ≤ 0xF4)
    (hb : mayFollow a b = true) (hc : isContinuation c = true) (hd : isContinuation d = true) :
    decodeUtf8From pos (a :: b :: c :: d :: rest) =
      (decodeUtf8From (pos + 4) rest).map
        (Char.ofNat (((a.toNat % 8 * 64 + payload b) * 64 + payload c) * 64 + payload d) :: ·) := by
  obtain ⟨hascii, hplace⟩ := lead_of_range (a := a) (by omega) (by omega)
  have hthree : ¬ a < 0xF0 ∧ ¬ a < 0xE0 := by
    simp only [UInt8.lt_iff_toNat_lt, UInt8.reduceToNat]
    omega
  rw [decodeUtf8From.eq_def]
  simp only [if_neg hascii, if_neg hplace, hb, hc, hd, Bool.not_true, Bool.false_eq_true, if_false,
    if_neg hthree.1, if_neg hthree.2]

/-- The bytes of a character are decoded as that character, whatever follows them. -/
theorem decodeUtf8From_utf8EncodeChar (pos : Nat) (x : Char) (rest : List UInt8) :
    ∃ next, decodeUtf8From pos (String.utf8EncodeChar x ++ rest) =
      (decodeUtf8From next rest).map (x :: ·) := by
  have hbyte {n : Nat} (hn : n < 256) : (UInt8.ofNat n).toNat = n := UInt8.toNat_ofNat_of_lt hn
  have hchar : Char.ofNat x.val.toNat = x := Char.ofNat_toNat x
  have hvalid : x.val.toNat < 0xD800 ∨ 0xDFFF < x.val.toNat ∧ x.val.toNat < 0x110000 := x.valid
  unfold String.utf8EncodeChar
  generalize x.val.toNat = v at hchar hvalid
  -- The range of the number decides how many bytes it has, and each range excludes the sequences
  -- that `mayFollow` refuses.
  dsimp only
  split
  · have ha : (UInt8.ofNat v).toNat = v := hbyte (by omega)
    refine ⟨pos + 1, ?_⟩
    rw [List.singleton_append, decodeUtf8From_one (by omega), ha, hchar]
  split
  · have ha : (UInt8.ofNat (v / 64 % 32 + 192)).toNat = v / 64 % 32 + 192 := hbyte (by omega)
    have hb : (UInt8.ofNat (v % 64 + 128)).toNat = v % 64 + 128 := hbyte (by omega)
    refine ⟨pos + 2, ?_⟩
    rw [List.cons_append, List.singleton_append,
      decodeUtf8From_two (by omega) (by omega) (mayFollow_iff.2 (by omega)), payload, ha, hb]
    have hvalue : (v / 64 % 32 + 192) % 32 * 64 + (v % 64 + 128) % 64 = v := by omega
    rw [hvalue, hchar]
  split
  · have ha : (UInt8.ofNat (v / 4096 % 16 + 224)).toNat = v / 4096 % 16 + 224 := hbyte (by omega)
    have hb : (UInt8.ofNat (v / 64 % 64 + 128)).toNat = v / 64 % 64 + 128 := hbyte (by omega)
    have hc : (UInt8.ofNat (v % 64 + 128)).toNat = v % 64 + 128 := hbyte (by omega)
    refine ⟨pos + 3, ?_⟩
    rw [List.cons_append, List.cons_append, List.singleton_append,
      decodeUtf8From_three (by omega) (by omega) (mayFollow_iff.2 (by omega))
        (isContinuation_iff.2 (by omega)), payload, payload, ha, hb, hc]
    have hvalue : ((v / 4096 % 16 + 224) % 16 * 64 + (v / 64 % 64 + 128) % 64) * 64 +
        (v % 64 + 128) % 64 = v := by omega
    rw [hvalue, hchar]
  · have ha : (UInt8.ofNat (v / 262144 % 8 + 240)).toNat = v / 262144 % 8 + 240 :=
      hbyte (by omega)
    have hb : (UInt8.ofNat (v / 4096 % 64 + 128)).toNat = v / 4096 % 64 + 128 := hbyte (by omega)
    have hc : (UInt8.ofNat (v / 64 % 64 + 128)).toNat = v / 64 % 64 + 128 := hbyte (by omega)
    have hd : (UInt8.ofNat (v % 64 + 128)).toNat = v % 64 + 128 := hbyte (by omega)
    refine ⟨pos + 4, ?_⟩
    rw [List.cons_append, List.cons_append, List.cons_append, List.singleton_append,
      decodeUtf8From_four (by omega) (by omega) (mayFollow_iff.2 (by omega))
        (isContinuation_iff.2 (by omega)) (isContinuation_iff.2 (by omega)), payload, payload,
      payload, ha, hb, hc, hd]
    have hvalue : (((v / 262144 % 8 + 240) % 8 * 64 + (v / 4096 % 64 + 128) % 64) * 64 +
        (v / 64 % 64 + 128) % 64) * 64 + (v % 64 + 128) % 64 = v := by omega
    rw [hvalue, hchar]

/-- Decoding undoes encoding. -/
theorem decodeUtf8_encodeUtf8 (s : List Char) : decodeUtf8 (encodeUtf8 s) = .ok s := by
  have hfrom (pos : Nat) : decodeUtf8From pos (encodeUtf8 s) = .ok s := by
    induction s generalizing pos with
    | nil =>
      rw [encodeUtf8, List.flatMap_nil, decodeUtf8From.eq_def]
    | cons x s ih =>
      obtain ⟨next, hnext⟩ := decodeUtf8From_utf8EncodeChar pos x (encodeUtf8 s)
      rw [encodeUtf8, List.flatMap_cons]
      change decodeUtf8From pos (String.utf8EncodeChar x ++ encodeUtf8 s) = _
      rw [hnext, ih]
      rfl
  exact hfrom 0

theorem lines_newline_cons (s : List Char) : lines ('\n' :: s) = [] :: lines s := by
  have hbreak : isLineBreak '\n' = true := by decide
  rw [lines, if_pos hbreak]
  intro _ hcr
  cases hcr

/-- Lines do not tell the newlines apart. -/
theorem lines_unifyNewlines (s : List Char) : lines (unifyNewlines s) = lines s := by
  fun_induction unifyNewlines s with
  | case1 => rfl
  | case2 rest ih => rw [lines_newline_cons, ih, lines]
  | case3 x rest hcrlf ih =>
    -- `x` is no CR before a LF, so it ends its line, if it does, alone.
    rw [lines.eq_3 x rest hcrlf]
    split
    · next hcr =>
      have hbreak : isLineBreak x = true := hcr ▸ by decide
      rw [lines_newline_cons, ih, if_pos hbreak]
    · next hcr => rw [lines.eq_3 x _ fun _ h => absurd h hcr, ih]

end Text

namespace Input

open AvrFlow.Text

variable {file image : Input} {w w' : Workspace} {s errors : String}

theorem listingText_file (hfile : file.format = .listing)
    (hcontent : w.tree.read file.path = .ok (encodeUtf8 s.toList)) :
    file.listingText w = .ok (unifyNewlines s.toList) := by
  have hread : contentOf w.tree file.path = .ok (encodeUtf8 s.toList) := by
    rw [contentOf, hcontent]
    rfl
  simp only [listingText, hfile, fileText, hread, decodeUtf8_encodeUtf8]

theorem listingText_image (himage : image.format ≠ .listing)
    (hrun : w.disassembler = some ⟨0, s, errors⟩) : image.listingText w = .ok s.toList := by
  cases hformat : image.format with
  | elf | ihex => simp only [listingText, hformat, disassembledText, hrun, if_pos]
  | listing => exact absurd hformat himage

/-- What is read from a text is up to its lines, whichever source they come from. -/
theorem readInstrs_of_listingText {input : Input} {text : List Char}
    (h : input.listingText w = .ok text) (hlines : lines text = lines s.toList)
    (skipped : List String) :
    input.readInstrs w skipped =
      let o := Listing.read Decoder.avr skipped (linesOf s)
      ⟨o.state, o.events, o.result.mapError .decode⟩ := by
  simp only [readInstrs, h, hlines, linesOf]

/-- A listing file with the encoding of a text and an image that the disassembler turns into that
text are read alike: with the same instructions or the same error, whatever was warned about before,
and with the same new warnings if the same was. Both are read as the lines of the text are. -/
theorem readInstrs_sources (hfile : file.format = .listing)
    (hcontent : w.tree.read file.path = .ok (encodeUtf8 s.toList))
    (himage : image.format ≠ .listing) (hrun : w'.disassembler = some ⟨0, s, errors⟩) :
    (∀ skipped, file.readInstrs w skipped = image.readInstrs w' skipped) ∧
      ∀ skipped skipped',
        (file.readInstrs w skipped).result = (image.readInstrs w' skipped').result ∧
        (image.readInstrs w' skipped').result =
          (Listing.read Decoder.avr [] (linesOf s)).result.mapError .decode := by
  have hread := readInstrs_of_listingText (listingText_file hfile hcontent)
    (lines_unifyNewlines s.toList)
  have hread' := readInstrs_of_listingText (listingText_image himage hrun) rfl
  have hsame (skipped : List String) :
      file.readInstrs w skipped = image.readInstrs w' skipped :=
    (hread skipped).trans (hread' skipped).symm
  refine ⟨hsame, ?_⟩
  intro skipped skipped'
  constructor
  · rw [hsame, result_readInstrs image w' skipped, result_readInstrs image w' skipped']
  · rw [result_readInstrs, hread']

/-- Four kinds of line ends, characters of one to four bytes, a line that cannot be read and an
address that occurs twice. -/
def mixedBreaks : String :=
  "   0:\t01 d0\trcall\t.+2\t; é€😀\r\n   4:\t08 95\tret\r\r\n   2:\t¼\tret\x0b" ++
    "   2:\tfe cf\trjmp\t.-2\r   2:\t08 95\tret\n"

def mixedBreaksFile : Input :=
  ⟨.given "a.lst", .listing, .blank⟩

def mixedBreaksImage : Input :=
  ⟨.given "a.hex", .ihex, .given "avr-objdump"⟩

def mixedBreaksWorkspace : Workspace :=
  ⟨⟨[(Location.working.child "a.lst", .file (encodeUtf8 mixedBreaks.toList))]⟩,
    some ⟨0, mixedBreaks, ""⟩, fun _ => .error ⟨"ELFError", "Magic number does not match"⟩⟩

theorem readInstrs_sources_mixedBreaks :
    unifyNewlines mixedBreaks.toList ≠ mixedBreaks.toList ∧
      mixedBreaksFile.readInstrs mixedBreaksWorkspace [] =
        mixedBreaksImage.readInstrs mixedBreaksWorkspace [] ∧
      (mixedBreaksFile.readInstrs mixedBreaksWorkspace []).result =
        .ok [⟨0, some .rcall, "rcall", [2], 2, "rcall .+2"⟩,
          ⟨2, some .rjmp, "rjmp", [-2], 2, "rjmp .-2"⟩, ⟨4, some .ret, "ret", [], 2, "ret"⟩] := by
  have hcontent : mixedBreaksWorkspace.tree.read mixedBreaksFile.path =
      .ok (encodeUtf8 mixedBreaks.toList) := rfl
  have hrun : mixedBreaksWorkspace.disassembler = some ⟨0, mixedBreaks, ""⟩ := rfl
  have hformat : mixedBreaksImage.format ≠ .listing := by decide
  obtain ⟨hsame, hresult⟩ := readInstrs_sources rfl hcontent hformat hrun
  refine ⟨by decide +kernel, hsame [], ?_⟩
  rw [(hresult [] []).1, (hresult [] []).2]
  decide +kernel

end Input

end AvrFlow
