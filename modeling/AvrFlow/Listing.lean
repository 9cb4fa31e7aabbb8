import AvrFlow.Decoder
import AvrFlow.Outcome

/-!
Disassembly listings. A line of a listing is noise, or it is the entry of an instruction, or it has
the shape of an entry and cannot be read. The first entry of an address wins, and the instructions
come out in ascending order of their addresses.
-/

namespace AvrFlow.Listing

open AvrFlow.Text

inductive Line where
  | noise
  | unreadable (text : String)
  | entry (address : Int) (mnemonic operands : String) (length : Nat)
  deriving DecidableEq, Repr

def sectionIntro : List Char :=
  "Disassembly of section ".toList

/-- Whether trimmed text is the header of a section: the introduction, a name without colons and
one colon. -/
def isSectionHeader (s : List Char) : Bool :=
  let name := s.drop sectionIntro.length
  sectionIntro.isPrefixOf s && name.getLast? == some ':' &&
    name.dropLast != [] && !name.dropLast.contains ':'

/-- Whether trimmed text is the header of a symbol: hexadecimal digits, blanks and a name in
angle brackets before a colon. -/
def isSymbolHeader (s : List Char) : Bool :=
  let afterAddress := s.dropWhile isHexDigit
  let afterBlanks := afterAddress.dropWhile isBlank
  match afterBlanks with
  | '<' :: rest =>
    s.head?.any isHexDigit && afterAddress.head?.any isBlank && rest.head?.any (· ≠ '>') &&
      rest.dropWhile (· ≠ '>') == ['>', ':']
  | _ => false

/-- The bytes of a field of hexadecimal pairs, between which ASCII blanks may stand. -/
def opcodeBytes? : List Char → Option (List Nat)
  | [] => some []
  | c :: rest =>
    if isAsciiBlank c then opcodeBytes? rest
    else
      match rest with
      | [] => none
      | d :: rest =>
        match hexDigitValue? c, hexDigitValue? d with
        | some high, some low => (opcodeBytes? rest).map ((16 * high + low) :: ·)
        | _, _ => none

def operandField (fields : List (List Char)) : String :=
  String.ofList (trim (before ';' (['\t'].intercalate fields)))

def lineOfFields (text : List Char) : List (List Char) → Line
  | address :: bytes :: mnemonic :: more =>
    if address.getLast? ≠ some ':' ∨ trim mnemonic = [] then .noise
    else
      match readInteger .sixteen address.dropLast, opcodeBytes? (trim bytes) with
      | .ok a, some (b :: bs) =>
        .entry a (String.ofList (trim mnemonic)) (operandField more) (b :: bs).length
      | _, _ => .unreadable (String.ofList text)
  | _ => .noise

def Line.ofText (line : String) : Line :=
  let text := trim line.toList
  if text = [] ∨ text = ['.', '.', '.'] then .noise
  else if isSectionHeader text || isSymbolHeader text then .noise
  else lineOfFields text (pieces '\t' text)

def sortByOffset (instrs : List Instruction) : List Instruction :=
  sortBy (fun i j => decide (i.offset ≤ j.offset)) instrs

/-- Reads lines one after the other. The lines in `skipped` have been warned about before and are
not warned about again; `found` holds the instructions so far, newest first. -/
def readFrom (decode : Decoder) (skipped : List String) (found : List Instruction) :
    List Line → Outcome (List String) DecodeError (List Instruction)
  | [] => ⟨skipped, [], .ok (sortByOffset found.reverse)⟩
  | .noise :: rest => readFrom decode skipped found rest
  | .unreadable text :: rest =>
    if text ∈ skipped then readFrom decode skipped found rest
    else
      let o := readFrom decode (text :: skipped) found rest
      { o with events := .lineSkipped text :: o.events }
  | .entry address mnemonic operands length :: rest =>
    if found.any (·.offset = address) then
      let o := readFrom decode skipped found rest
      { o with events := .addressTaken address :: o.events }
    else
      match decode address mnemonic operands length with
      | .error e => ⟨skipped, [], .error e⟩
      | .ok i => readFrom decode skipped (i :: found) rest

def read (decode : Decoder) (skipped : List String) (lines : List String) :
    Outcome (List String) DecodeError (List Instruction) :=
  readFrom decode skipped [] (lines.map Line.ofText)

end AvrFlow.Listing
