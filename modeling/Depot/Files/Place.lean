import Depot.Files.FileError
import Depot.Files.FileSystem

/-! Where a path leads. A walk goes name by name, follows the links it meets, and ends at something
that is there or at a free name in a directory. Relative paths start at the root directory. -/

namespace Depot

inductive Place where
  | there (loc : Location)
  | free (dir : Location) (name : String)
  deriving DecidableEq

namespace FileSystem

def longestPath : Nat := 4095

def longestName : Nat := 255

/-- How many links one walk may follow. -/
def linkLimit : Nat := 40

/-- What a walk is for. What is opened for writing is never a directory, so a path that asks for
one is refused. -/
inductive Purpose where
  | look
  | write
  deriving DecidableEq

/-- Walks from `here` and leaves a link, with the names still to come, to `jump`. -/
def walkNames (fs : FileSystem) (why : Purpose)
    (jump : Location → Path → List String → Except FileError Place) :
    Location → List String → Except FileError Place
  | here, [] => .ok (.there here)
  | here, name :: rest =>
    if fs.node? here ≠ some .dir then .error .notDirectory
    else if name = "" ∨ name = "." then walkNames fs why jump here rest
    else if name = ".." then walkNames fs why jump here.dropLast rest
    else if why = .write ∧ rest = [""] then .error .isDirectory
    else if longestName < name.utf8ByteSize then .error .nameTooLong
    else match fs.node? (here ++ [name]) with
      | none => if rest = [] then .ok (.free here name) else .error .notFound
      | some (.link target) => jump here target rest
      | some _ => walkNames fs why jump (here ++ [name]) rest

/-- Walks on while no more than `links` links turn up. A relative target counts from the directory
that holds the link. -/
def walk (fs : FileSystem) (why : Purpose) : (links : Nat) → Location → List String →
    Except FileError Place
  | 0 => fs.walkNames why fun _ _ _ => .error .tooManyLinks
  | links + 1 => fs.walkNames why fun here target rest =>
    fs.walk why links (if target.isAbsolute then [] else here) (target.steps ++ rest)

/-- Where a name in a directory leads when links are followed to the end. -/
def follow (fs : FileSystem) (why : Purpose) (dir : Location) (name : String) :
    Except FileError Place :=
  fs.walk why linkLimit dir [name]

/-- What is wrong with a path whatever there is. -/
def pathFault? (p : Path) : Option FileError :=
  if '\x00' ∈ p.text.toList then some .nulInName
  else if longestPath < p.text.utf8ByteSize then some .nameTooLong
  else if p.text = "" then some .notFound
  else none

/-- Where a path leads when links are followed to the end. -/
def resolve (fs : FileSystem) (p : Path) (why : Purpose) : Except FileError Place :=
  match pathFault? p with
  | some e => .error e
  | none => fs.walk why linkLimit [] p.steps

/-- Where the last name of a path stands, be it a link or not. -/
def entry (fs : FileSystem) (p : Path) : Except FileError Place :=
  match pathFault? p with
  | some e => .error e
  | none =>
    match p.split? with
    | none => .ok (.there [])
    | some (above, name) =>
      match fs.walk .look linkLimit [] above with
      | .error e => .error e
      | .ok (.free _ _) => .error .notFound
      | .ok (.there dir) =>
        fs.walkNames .look (fun here _ _ => .ok (.there (here ++ [name]))) dir [name]

/-- What there is at a place. -/
def found (fs : FileSystem) : Place → Except FileError (Location × Node)
  | .free _ _ => .error .notFound
  | .there loc =>
    match fs.node? loc with
    | some node => .ok (loc, node)
    | none => .error .notFound

/-- What a path leads to. -/
def status (fs : FileSystem) (p : Path) : Except FileError (Location × Node) := do
  fs.found (← fs.resolve p .look)

/-- What a path names: a link itself, unless the path asks for a directory. -/
def lstatus (fs : FileSystem) (p : Path) : Except FileError (Location × Node) := do
  if p.endsWithSlash then fs.status p else fs.found (← fs.entry p)

def isDir (fs : FileSystem) (p : Path) : Bool :=
  match fs.status p with
  | .ok (_, .dir) => true
  | _ => false

end FileSystem

end Depot
