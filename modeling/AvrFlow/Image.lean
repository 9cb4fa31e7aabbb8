namespace AvrFlow

inductive Format where
  | elf
  | ihex
  | listing
  deriving DecidableEq, Repr

namespace Format

def name : Format → String
  | elf => "elf"
  | ihex => "ihex"
  | listing => "listing"

def all : List Format :=
  [elf, ihex, listing]

def ofName? (name : String) : Option Format :=
  all.find? (·.name = name)

/-- The name that asks for the format to be told from the file. -/
def automatic : String := "auto"

def choices : List String :=
  automatic :: all.map name

end Format

namespace Image

def magic : List UInt8 :=
  [0x7F, 0x45, 0x4C, 0x46]

/-- The number of bytes at the start of a file that tell its format. -/
def headSize : Nat := 4096

def isBlankByte (b : UInt8) : Bool :=
  (0x09 ≤ b && b ≤ 0x0D) || b == 0x20

/-- The lines of a byte text; LF, CR and CR LF end a line. -/
def byteLines : List UInt8 → List (List UInt8)
  | [] => []
  | 0x0D :: 0x0A :: rest => [] :: byteLines rest
  | b :: rest =>
    if b = 0x0A ∨ b = 0x0D then [] :: byteLines rest
    else
      match byteLines rest with
      | [] => [[b]]
      | line :: more => (b :: line) :: more

/-- The format that the whole of a content shows: the magic bytes of an executable, else a first
line with more than blanks that starts with a colon, else a listing. -/
def formatOf (content : List UInt8) : Format :=
  if magic.isPrefixOf content then .elf
  else
    match ((byteLines content).map fun line => line.dropWhile isBlankByte).find? (· ≠ []) with
    | some (b :: _) => if b = 0x3A then .ihex else .listing
    | _ => .listing

def detect (content : List UInt8) : Format :=
  formatOf (content.take headSize)

end Image

end AvrFlow
