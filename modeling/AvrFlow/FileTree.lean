import AvrFlow.Text.Pieces
import AvrFlow.Value

/-!
Trees of files. A path is resolved name by name, from the working directory or from the root; every
name before the last has to be a directory.
-/

namespace AvrFlow

open AvrFlow.Text

inductive Node where
  | file (content : List UInt8)
  | directory
  deriving DecidableEq, Repr

inductive Base where
  /-- The directory a number of levels above the working directory. -/
  | above (levels : Nat)
  | root
  deriving DecidableEq, Repr

/-- A place in a tree: the names that lead to it from a base. -/
structure Location where
  base : Base
  names : List String
  deriving DecidableEq, Repr

namespace Location

def working : Location :=
  ⟨.above 0, []⟩

def child (directory : Location) (name : String) : Location :=
  { directory with names := directory.names ++ [name] }

/-- The directory that a place is in. The root is in itself. -/
def parent (l : Location) : Location :=
  match l with
  | ⟨.above n, []⟩ => ⟨.above (n + 1), []⟩
  | ⟨.root, []⟩ => l
  | ⟨base, names⟩ => ⟨base, names.dropLast⟩

def leadsTo (directory l : Location) : Bool :=
  directory.base = l.base && directory.names.isPrefixOf l.names

end Location

/-- Files and directories by their places. Every base exists, and so do the directories on the way
to an entry. -/
structure FileTree where
  entries : List (Location × Node)
  deriving DecidableEq, Repr

inductive Access where
  | reading
  | writing
  deriving DecidableEq, Repr

inductive FileFault where
  | notFound
  | notDirectory
  | isDirectory
  | nameTooLong
  | embeddedNul
  | noPath
  deriving DecidableEq, Repr

def FileFault.message (path : Value String) : FileFault → String
  | notFound => s!"[Errno 2] No such file or directory: {path.inQuotes}"
  | notDirectory => s!"[Errno 20] Not a directory: {path.inQuotes}"
  | isDirectory => s!"[Errno 21] Is a directory: {path.inQuotes}"
  | nameTooLong => s!"[Errno 36] File name too long: {path.inQuotes}"
  | embeddedNul => "embedded null byte"
  | noPath => "expected str, bytes or os.PathLike object, not list"

inductive Place where
  | file (there : Location) (content : List UInt8)
  | directory
  /-- Nothing yet, in a directory that exists. -/
  | vacant (there : Location)
  deriving DecidableEq, Repr

namespace FileTree

def maxName : Nat := 255

def maxPath : Nat := 4095

def components (path : String) : List String :=
  (pieces '/' path.toList).map String.ofList

def startOf (path : String) : Location :=
  if path.toList.head? = some '/' then ⟨.root, []⟩ else .working

/-- The place that a path comes to when all its names are directories. -/
def place (path : String) : Location :=
  (components path).foldl (fun directory name =>
    if name = "" ∨ name = "." then directory
    else if name = ".." then directory.parent
    else directory.child name) (startOf path)

def node? (tree : FileTree) (there : Location) : Option Node :=
  match tree.entries.find? (·.1 = there) with
  | some (_, node) => some node
  | none =>
    if there.names = [] ∨ tree.entries.any (there.leadsTo ·.1) then some .directory else none

def follow (tree : FileTree) (access : Access) (directory : Location) :
    List String → Except FileFault Place
  | [] => .ok .directory
  | name :: rest =>
    if name = "" ∨ name = "." then tree.follow access directory rest
    else if name = ".." then tree.follow access directory.parent rest
    -- A slash at the end asks for a directory, which is never written; the name is not looked up.
    else if access = .writing ∧ rest ≠ [] ∧ rest.all (· = "") then .error .isDirectory
    else if maxName < name.utf8ByteSize then .error .nameTooLong
    else
      let there := directory.child name
      match tree.node? there with
      | some .directory => tree.follow access there rest
      | some (.file content) =>
        if rest = [] then .ok (.file there content) else .error .notDirectory
      | none => if rest = [] then .ok (.vacant there) else .error .notFound

def locate (tree : FileTree) (access : Access) : Value String → Except FileFault Place
  | .blank => .error .noPath
  | .given path =>
    if path.toList.contains (Char.ofNat 0) then .error .embeddedNul
    else if path = "" then .error .notFound
    else if maxPath < path.utf8ByteSize then .error .nameTooLong
    else tree.follow access (startOf path) (components path)

def read (tree : FileTree) (path : Value String) : Except FileFault (List UInt8) :=
  match tree.locate .reading path with
  | .error e => .error e
  | .ok (.file _ content) => .ok content
  | .ok .directory => .error .isDirectory
  | .ok (.vacant _) => .error .notFound

def put (tree : FileTree) (there : Location) (content : List UInt8) : FileTree :=
  ⟨(there, .file content) :: tree.entries.filter (·.1 ≠ there)⟩

def write (tree : FileTree) (path : Value String) (content : List UInt8) :
    Except FileFault FileTree :=
  match tree.locate .writing path with
  | .error e => .error e
  | .ok (.file there _) | .ok (.vacant there) => .ok (tree.put there content)
  | .ok .directory => .error .isDirectory

def ofLists (directories : List String) (files : List (String × List UInt8)) : FileTree :=
  ⟨files.map (fun (path, content) => (place path, .file content)) ++
    directories.map fun path => (place path, .directory)⟩

/-- The files of a tree below the working directory that are not in another tree with the same
content. -/
def newFiles (old new : FileTree) : List (String × List UInt8) :=
  new.entries.filterMap fun (there, node) =>
    match node with
    | .directory => none
    | .file content =>
      if there.base ≠ .above 0 ∨ old.node? there = some (.file content) then none
      else some ("/".intercalate there.names, content)

end FileTree

end AvrFlow
