import AvrFlow.FileTree
import AvrFlow.Image
import AvrFlow.Listing
import AvrFlow.Text.Lines
import AvrFlow.Text.Utf8

namespace AvrFlow

open AvrFlow.Text

/-- What the reader of executables raises: the name of the exception, and what it says. -/
structure HeaderFault where
  exception : String
  message : String
  deriving DecidableEq, Repr

inductive InputError where
  | unknownFormat (name : Value String)
  | file (path : Value String) (fault : FileFault)
  | header (fault : HeaderFault)
  | unsupportedMachine
  | notText (fault : Utf8Fault)
  | disassemblerFailed (path : Value String) (errors : String)
  | decode (error : DecodeError)
  deriving DecidableEq, Repr

def utf8Message (fault : Utf8Fault) : String :=
  let place :=
    if fault.size = 1 then
      s!"byte 0x{String.ofList (zeroFill 2 (hexDigits fault.byte.toNat))} in position " ++
        toString fault.position
    else s!"bytes in position {fault.position}-{fault.position + fault.size - 1}"
  let reason :=
    match fault.reason with
    | .invalidStart => "invalid start byte"
    | .invalidContinuation => "invalid continuation byte"
    | .unexpectedEnd => "unexpected end of data"
  s!"'utf-8' codec can't decode {place}: {reason}"

def InputError.message : InputError → String
  | unknownFormat name => s!"Unknown input format {name.text}"
  | file path fault => fault.message path
  | header fault => fault.message
  | unsupportedMachine => "Unsupported ELF file"
  | notText fault => utf8Message fault
  | disassemblerFailed path errors => s!"Failed to objdump {path.text}: {trimmed errors}"
  | decode error => error.message

structure DisassemblerRun where
  exitCode : Int
  output : String
  errors : String
  deriving DecidableEq, Repr

/-- What a program is read from: files, the disassembler if there is one, and a reader of
executables that gives the machine in the header of a content, by its name if it has one. -/
structure Workspace where
  tree : FileTree
  disassembler : Option DisassemblerRun
  machineOf : List UInt8 → Except HeaderFault (Option String)

structure Input where
  path : Value String
  format : Format
  disassembler : Value String
  deriving DecidableEq, Repr

namespace Input

def contentOf (tree : FileTree) (path : Value String) : Except InputError (List UInt8) :=
  (tree.read path).mapError (.file path)

/-- The format of a file: the one that is asked for, or the one that its head shows. -/
def chooseFormat (tree : FileTree) (path request : Value String) :
    List Event × Except InputError Format :=
  if request = .given Format.automatic then
    match contentOf tree path with
    | .error e => ([], .error e)
    | .ok content =>
      let format := Image.detect content
      ([.formatDetected path.text format.name], .ok format)
  else
    match request.get?.bind Format.ofName? with
    | some format => ([], .ok format)
    | none => ([], .error (.unknownFormat request))

def avrMachine : String := "EM_AVR"

def checkFormat (w : Workspace) (path : Value String) : Format → Except InputError Unit
  | .elf =>
    match contentOf w.tree path with
    | .error e => .error e
    | .ok content =>
      match w.machineOf content with
      | .error fault => .error (.header fault)
      | .ok machine => if machine = some avrMachine then .ok () else .error .unsupportedMachine
  | .ihex | .listing => .ok ()

def openFile (w : Workspace) (path request disassembler : Value String) :
    List Event × Except InputError Input :=
  let (events, format) := chooseFormat w.tree path request
  match format with
  | .error e => (events, .error e)
  | .ok format =>
    (events, (checkFormat w path format).map fun () => ⟨path, format, disassembler⟩)

def command (input : Input) : List (Value String) :=
  match input.format with
  | .elf => input.disassembler :: ["-d"].map .given ++ [input.path]
  | .ihex =>
    input.disassembler :: ["-D", "-m", "avr", "-b", "ihex"].map .given ++ [input.path]
  | .listing => []

def fileText (tree : FileTree) (path : Value String) : Except InputError (List Char) :=
  match contentOf tree path with
  | .error e => .error e
  | .ok content =>
    match decodeUtf8 content with
    | .error fault => .error (.notText fault)
    | .ok text => .ok (unifyNewlines text)

def disassembledText (input : Input) : Option DisassemblerRun → Except InputError (List Char)
  | none => .error (.file input.disassembler .notFound)
  | some run =>
    if run.exitCode = 0 then .ok run.output.toList
    else .error (.disassemblerFailed input.path run.errors)

def listingText (input : Input) (w : Workspace) : Except InputError (List Char) :=
  match input.format with
  | .listing => fileText w.tree input.path
  | .elf | .ihex => input.disassembledText w.disassembler

def commands (input : Input) : List (List (Value String)) :=
  match input.format with
  | .listing => []
  | .elf | .ihex => [input.command]

/-- The instructions of a program file. The state holds the lines that have been warned about. -/
def readInstrs (input : Input) (w : Workspace) (skipped : List String) :
    Outcome (List String) InputError (List Instruction) :=
  match input.listingText w with
  | .error e => ⟨skipped, [], .error e⟩
  | .ok text =>
    let o := Listing.read Decoder.avr skipped ((lines text).map String.ofList)
    ⟨o.state, o.events, o.result.mapError .decode⟩

end Input

end AvrFlow
