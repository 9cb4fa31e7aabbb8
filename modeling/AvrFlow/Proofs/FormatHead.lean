import AvrFlow.Image
import Mathlib.Data.List.TakeWhile

/-!
The format that a file shows, told from its head. The rule speaks of lines: after the magic bytes,
the first line that is more than blanks decides. Breaks between lines are blank themselves, so the
rule comes down to the first byte of the file that is not blank, and a cut anywhere behind that byte
changes nothing, whether it falls into a line or between the two bytes of a break.
-/

namespace AvrFlow.Image

def colon : UInt8 := 0x3A

def Blank (s : List UInt8) : Prop :=
  ∀ b ∈ s, isBlankByte b = true

instance (s : List UInt8) : Decidable (Blank s) :=
  List.decidableBAll _ s

/-- What ends a line: LF, CR LF, or a CR that no LF follows. -/
inductive Break : List UInt8 → List UInt8 → Prop where
  | lf {rest : List UInt8} : Break [0x0A] rest
  | crlf {rest : List UInt8} : Break [0x0D, 0x0A] rest
  | cr {rest : List UInt8} (hrest : rest.head? ≠ some 0x0A) : Break [0x0D] rest

/-- The lines of a content. The last one needs no break, and there is none after a last break. -/
inductive Lines : List UInt8 → List (List UInt8) → Prop where
  | nil : Lines [] []
  | last {line : List UInt8} (hne : line ≠ []) (hline : ∀ b ∈ line, b ≠ 0x0A ∧ b ≠ 0x0D) :
      Lines line [line]
  | cons {line mark rest : List UInt8} {more : List (List UInt8)}
      (hline : ∀ b ∈ line, b ≠ 0x0A ∧ b ≠ 0x0D) (hmark : Break mark rest)
      (hrest : Lines rest more) : Lines (line ++ (mark ++ rest)) (line :: more)

def FirstLine (content line : List UInt8) : Prop :=
  ∃ before after, Lines content (before ++ line :: after) ∧ (∀ l ∈ before, Blank l) ∧ ¬ Blank line

/-- A line that starts with a colon. Lines are taken without the blanks at their ends, so blanks in
front of the colon do not count. -/
def OpensRecord (line : List UInt8) : Prop :=
  ∃ indent rest, line = indent ++ colon :: rest ∧ Blank indent

/-- The rule for the format of a content: the magic bytes mean an executable, a first line that is
more than blanks and starts with a colon means hexadecimal records, and anything else is a
listing. -/
inductive Shows (content : List UInt8) : Format → Prop where
  | elf (hmagic : magic <+: content) : Shows content .elf
  | ihex {line : List UInt8} (hmagic : ¬ magic <+: content) (hfirst : FirstLine content line)
      (hopens : OpensRecord line) : Shows content .ihex
  | listing (hmagic : ¬ magic <+: content)
      (hfirst : ∀ line, FirstLine content line → ¬ OpensRecord line) : Shows content .listing

def firstByte? (s : List UInt8) : Option UInt8 :=
  s.find? fun b => !isBlankByte b

variable {content s line mark rest : List UInt8} {lines : List (List UInt8)} {b : UInt8} {n : Nat}

section FirstByte

theorem firstByte?_eq_none_iff : firstByte? s = none ↔ Blank s := by
  simp [firstByte?, Blank]

theorem exists_firstByte? (h : ¬ Blank s) : ∃ b, firstByte? s = some b :=
  Option.ne_none_iff_exists'.1 (mt firstByte?_eq_none_iff.1 h)

theorem firstByte?_append (s t : List UInt8) :
    firstByte? (s ++ t) = (firstByte? s).or (firstByte? t) :=
  List.find?_append

theorem firstByte?_eq_head? (s : List UInt8) :
    firstByte? s = (s.dropWhile isBlankByte).head? := by
  rw [firstByte?, List.find?_eq_head?_dropWhile_not]
  simp only [Bool.not_not]

theorem firstByte?_take (h : ¬ Blank (s.take n)) : firstByte? (s.take n) = firstByte? s := by
  obtain ⟨b, hb⟩ := exists_firstByte? h
  calc firstByte? (s.take n)
      = (firstByte? (s.take n)).or (firstByte? (s.drop n)) := by rw [hb, Option.some_or]
    _ = firstByte? (s.take n ++ s.drop n) := (firstByte?_append _ _).symm
    _ = firstByte? s := by rw [List.take_append_drop]

theorem firstByte?_of_magic (h : magic <+: s) : firstByte? s = some 0x7F := by
  obtain ⟨rest, rfl⟩ := h
  rfl

theorem opensRecord_iff : OpensRecord line ↔ firstByte? line = some colon := by
  have hcolon : isBlankByte colon = false := by decide
  simp [OpensRecord, firstByte?, Blank, List.find?_eq_some_iff_append, hcolon]

end FirstByte

section Lines

theorem Break.blank (h : Break mark rest) : Blank mark := by
  cases h <;> decide

/-- A byte that ends no line goes to the line that the rest starts with. -/
theorem Lines.consByte {more : List (List UInt8)} (h : Lines rest (line :: more))
    (hb : b ≠ 0x0A ∧ b ≠ 0x0D) : Lines (b :: rest) ((b :: line) :: more) := by
  have hline {l : List UInt8} (hl : ∀ c ∈ l, c ≠ 0x0A ∧ c ≠ 0x0D) :
      ∀ c ∈ b :: l, c ≠ 0x0A ∧ c ≠ 0x0D := List.forall_mem_cons.2 ⟨hb, hl⟩
  cases h with
  | last _ hl => exact Lines.last (List.cons_ne_nil _ _) (hline hl)
  | cons hl hmark hrest => exact Lines.cons (hline hl) hmark hrest

/-- Cutting a content at its breaks gives its lines. -/
theorem lines_byteLines (s : List UInt8) : Lines s (byteLines s) := by
  have hempty : ∀ b ∈ ([] : List UInt8), b ≠ 0x0A ∧ b ≠ 0x0D := by simp
  fun_induction byteLines s with
  | case1 => exact Lines.nil
  | case2 rest ih => exact Lines.cons hempty Break.crlf ih
  | case3 b rest hcrlf hb ih =>
    rcases hb with rfl | rfl
    · exact Lines.cons hempty Break.lf ih
    · -- This CR is a break of its own: the pair with a LF was the case before.
      apply Lines.cons hempty (Break.cr _) ih
      intro hlf
      obtain ⟨rest', rfl⟩ := List.head?_eq_some_iff.1 hlf
      exact hcrlf rest' rfl rfl
  | case4 b rest _ hb hnil ih =>
    rw [hnil] at ih
    cases ih with
    | nil => exact Lines.last (List.cons_ne_nil _ _) (by simpa using hb)
  | case5 b rest _ hb line more hlines ih =>
    rw [hlines] at ih
    exact ih.consByte (not_or.1 hb)

/-- Breaks are blank, so the first byte that is not blank is the one of the lines. -/
theorem Lines.firstByte?_eq (h : Lines s lines) : firstByte? s = firstByte? lines.flatten := by
  induction h with
  | nil => rfl
  | last => rw [List.flatten_singleton]
  | cons _ hmark _ ih =>
    rw [List.flatten_cons, firstByte?_append, firstByte?_append, firstByte?_append, ih,
      firstByte?_eq_none_iff.2 hmark.blank, Option.none_or]

theorem FirstLine.firstByte?_eq (h : FirstLine content line) :
    firstByte? content = firstByte? line := by
  obtain ⟨before, after, hlines, hbefore, hline⟩ := h
  have hblank : firstByte? before.flatten = none := by
    apply firstByte?_eq_none_iff.2
    intro b hb
    obtain ⟨l, hl, hb⟩ := List.mem_flatten.1 hb
    exact hbefore l hl b hb
  obtain ⟨b, hb⟩ := exists_firstByte? hline
  rw [hlines.firstByte?_eq, List.flatten_append, List.flatten_cons, firstByte?_append,
    firstByte?_append, hblank, Option.none_or, hb, Option.some_or]

theorem exists_firstLine (h : ¬ Blank content) : ∃ line, FirstLine content line := by
  obtain ⟨b, hb⟩ := exists_firstByte? h
  have hlines := lines_byteLines content
  rw [hlines.firstByte?_eq, firstByte?, List.find?_flatten_eq_some_iff] at hb
  obtain ⟨hb, before, indent, rest, after, heq, hbefore, -⟩ := hb
  refine ⟨indent ++ b :: rest, before, after, heq ▸ hlines, ?_, ?_⟩
  · simpa [Blank] using hbefore
  · intro hblank
    have hbyte : isBlankByte b = true := hblank b (by simp)
    simp [hbyte] at hb

theorem firstByte?_eq_colon_iff :
    firstByte? content = some colon ↔ ∃ line, FirstLine content line ∧ OpensRecord line := by
  constructor
  · intro hcolon
    have hblank : ¬ Blank content := by
      intro hblank
      rw [firstByte?_eq_none_iff.2 hblank] at hcolon
      cases hcolon
    obtain ⟨line, hline⟩ := exists_firstLine hblank
    exact ⟨line, hline, opensRecord_iff.2 (hline.firstByte?_eq.symm.trans hcolon)⟩
  · rintro ⟨line, hline, hopens⟩
    exact hline.firstByte?_eq.trans (opensRecord_iff.1 hopens)

/-- The first of the trimmed lines that is not empty starts with the first byte that is not blank,
if there is one. -/
theorem head?_find?_trimmed (lines : List (List UInt8)) :
    ((lines.map fun line => line.dropWhile isBlankByte).find? (· ≠ [])).bind List.head? =
      firstByte? lines.flatten := by
  induction lines with
  | nil => rfl
  | cons line more ih =>
    rw [List.map_cons, List.flatten_cons, firstByte?_append, firstByte?_eq_head? line, ← ih]
    cases hline : line.dropWhile isBlankByte with
    | nil => simp
    | cons b rest => simp

end Lines

section Formats

/-- The format is a matter of two things: the magic bytes, and the first byte that is not blank. -/
theorem formatOf_eq (content : List UInt8) :
    formatOf content =
      if magic <+: content then .elf
      else if firstByte? content = some colon then .ihex else .listing := by
  rw [(lines_byteLines content).firstByte?_eq, ← head?_find?_trimmed, formatOf]
  simp only [List.isPrefixOf_iff_prefix]
  congr 1
  generalize hfound : List.find? _ _ = found
  match found with
  | none => rfl
  | some [] => exact absurd (List.find?_some hfound) (by simp)
  | some (b :: rest) => simp [colon]

theorem formatOf_iff (content : List UInt8) :
    (formatOf content = .elf ↔ magic <+: content) ∧
      (formatOf content = .ihex ↔ ¬ magic <+: content ∧ firstByte? content = some colon) ∧
      (formatOf content = .listing ↔ ¬ magic <+: content ∧ firstByte? content ≠ some colon) := by
  rw [formatOf_eq]
  split_ifs with hmagic hcolon
  · simp [hmagic]
  · simp [hmagic, hcolon]
  · simp [hmagic, hcolon]

/-- A content is read as the rule says. -/
theorem shows_iff {f : Format} : Shows content f ↔ formatOf content = f := by
  obtain ⟨helf, hihex, hlisting⟩ := formatOf_iff content
  rw [firstByte?_eq_colon_iff] at hihex
  rw [ne_eq, firstByte?_eq_colon_iff] at hlisting
  constructor
  · intro h
    cases h with
    | elf hmagic => exact helf.2 hmagic
    | ihex hmagic hfirst hopens => exact hihex.2 ⟨hmagic, _, hfirst, hopens⟩
    | listing hmagic hfirst =>
      apply hlisting.2 ⟨hmagic, _⟩
      rintro ⟨line, hline, hopens⟩
      exact hfirst line hline hopens
  · rintro rfl
    cases hformat : formatOf content with
    | elf => exact Shows.elf (helf.1 hformat)
    | ihex =>
      obtain ⟨hmagic, line, hline, hopens⟩ := hihex.1 hformat
      exact Shows.ihex hmagic hline hopens
    | listing =>
      obtain ⟨hmagic, hnone⟩ := hlisting.1 hformat
      exact Shows.listing hmagic fun line hline hopens => hnone ⟨line, hline, hopens⟩

theorem magic_prefix_take_iff (hn : magic.length ≤ n) :
    magic <+: content.take n ↔ magic <+: content := by
  rw [List.prefix_take_iff, and_iff_left hn]

/-- The part before a cut tells the format if it holds the magic bytes, were there any, and a byte
that is not blank. -/
theorem formatOf_take (hn : magic.length ≤ n) (h : ¬ Blank (content.take n)) :
    formatOf (content.take n) = formatOf content := by
  rw [formatOf_eq, formatOf_eq]
  simp only [magic_prefix_take_iff hn, firstByte?_take h]

end Formats

section Detection

structure ToldByHead (content : List UInt8) (f : Format) : Prop where
  elf_iff : f = .elf ↔ magic <+: content
  ihex_iff : f = .ihex ↔
    ¬ magic <+: content ∧ firstByte? (content.take headSize) = some colon
  listing_iff : f = .listing ↔
    ¬ magic <+: content ∧ firstByte? (content.take headSize) ≠ some colon
  /-- A head with more than blanks tells what the rule tells from the whole content. -/
  shows : ¬ Blank (content.take headSize) → Shows content f
  /-- If the first line is not indented, it is its own first byte that counts. -/
  unindented : ¬ Blank (content.take headSize) → ∀ b rest, FirstLine content (b :: rest) →
    isBlankByte b = false → (f = .ihex ↔ ¬ magic <+: content ∧ b = colon)
  /-- A blank head tells a listing, which is wrong if a colon comes first behind it. -/
  blank : Blank (content.take headSize) →
    f = .listing ∧ (Shows content f ↔ firstByte? content ≠ some colon)

theorem magic_length_le_headSize : magic.length ≤ headSize := by
  decide

theorem not_magic_of_head (h : firstByte? (content.take headSize) ≠ some 0x7F) :
    ¬ magic <+: content :=
  fun hmagic => h (firstByte?_of_magic ((magic_prefix_take_iff magic_length_le_headSize).2 hmagic))

/-- The bytes of the head decide as the rule on lines does for the whole content, wherever the head
is cut off, as soon as one of them is not blank. -/
theorem detect_toldByHead (content : List UInt8) : ToldByHead content (detect content) := by
  obtain ⟨helf, hihex, hlisting⟩ := formatOf_iff (content.take headSize)
  rw [magic_prefix_take_iff magic_length_le_headSize] at helf hihex hlisting
  have hcut (hhead : ¬ Blank (content.take headSize)) : detect content = formatOf content :=
    formatOf_take magic_length_le_headSize hhead
  refine ⟨helf, hihex, hlisting, ?_, ?_, ?_⟩
  · intro hhead
    rw [shows_iff, hcut hhead]
  · intro hhead b rest hfirst hb
    have hbyte : firstByte? content = some b := by
      rw [hfirst.firstByte?_eq, firstByte?, List.find?_cons_of_pos (by simp [hb])]
    rw [hcut hhead, (formatOf_iff content).2.1, hbyte, Option.some.injEq]
  · intro hhead
    have hnone : firstByte? (content.take headSize) = none := firstByte?_eq_none_iff.2 hhead
    -- The magic bytes are not blank, so they are not there either.
    have hmagic : ¬ magic <+: content := not_magic_of_head (by simp [hnone])
    have hdetect : detect content = .listing := hlisting.2 ⟨hmagic, by simp [hnone]⟩
    refine ⟨hdetect, ?_⟩
    rw [shows_iff, hdetect, (formatOf_iff content).2.2, and_iff_right hmagic]

def headEnding (last : List UInt8) : List UInt8 :=
  List.replicate (headSize - last.length) 0x20 ++ last

theorem length_headEnding {last : List UInt8} (h : last.length ≤ headSize) :
    (headEnding last).length = headSize := by
  rw [headEnding, List.length_append, List.length_replicate]
  omega

theorem firstByte?_headEnding (last : List UInt8) :
    firstByte? (headEnding last) = firstByte? last := by
  have hblank : Blank (List.replicate (headSize - last.length) 0x20) := by
    intro b hb
    rw [List.eq_of_mem_replicate hb]
    decide
  rw [headEnding, firstByte?_append, firstByte?_eq_none_iff.2 hblank, Option.none_or]

/-- The head ends between the two bytes of the break after the first record. -/
def severedBreak : List UInt8 :=
  headEnding [colon, 0x0D] ++ [0x0A, colon]

theorem shows_severedBreak :
    severedBreak.take headSize = headEnding [colon, 0x0D] ∧ detect severedBreak = .ihex ∧
      Shows severedBreak .ihex := by
  have htold := detect_toldByHead severedBreak
  have hhead : severedBreak.take headSize = headEnding [colon, 0x0D] :=
    List.take_left' (length_headEnding (by decide))
  have hbyte : firstByte? (severedBreak.take headSize) = some colon := by
    rw [hhead, firstByte?_headEnding]
    rfl
  have hblank : ¬ Blank (severedBreak.take headSize) := by
    rw [← firstByte?_eq_none_iff, hbyte]
    exact Option.some_ne_none colon
  have hmagic : ¬ magic <+: severedBreak := not_magic_of_head (by rw [hbyte]; decide)
  have hihex : detect severedBreak = .ihex := htold.ihex_iff.2 ⟨hmagic, hbyte⟩
  exact ⟨hhead, hihex, hihex ▸ htold.shows hblank⟩

end Detection

end AvrFlow.Image
