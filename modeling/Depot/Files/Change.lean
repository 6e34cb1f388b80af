import Depot.Files.Place

/-! Making, writing and reading. An operation that fails halfway leaves what it has done, so it
answers with the file system either way; a single change that fails changes nothing. -/

namespace Depot

abbrev FileM := EStateM FileError FileSystem

namespace FileSystem

/-- Writes to what a path leads to. A free name becomes a file. -/
def fill (fs : FileSystem) (place : Place) (content : Content) : Except FileError FileSystem :=
  match place with
  | .free dir name => .ok (fs.add dir name (.file content))
  | .there loc =>
    match fs.node? loc with
    | some (.file _) => .ok (fs.setContent loc content)
    | _ => .error .isDirectory

def write (fs : FileSystem) (p : Path) (content : Content) : Except FileError FileSystem := do
  fs.fill (← fs.resolve p .write) content

def read (fs : FileSystem) (p : Path) : Except FileError Content := do
  match ← fs.status p with
  | (_, .file content) => .ok content
  | _ => .error .isDirectory

def mkdir (fs : FileSystem) (p : Path) : Except FileError FileSystem := do
  match ← fs.entry p with
  | .free dir name => .ok (fs.add dir name .dir)
  | .there _ => .error .alreadyExists

def symlink (fs : FileSystem) (target p : Path) : Except FileError FileSystem :=
  match pathFault? target with
  | some e => .error e
  | none => do
    match ← fs.entry p with
    | .there _ => .error .alreadyExists
    | .free dir name =>
      if p.endsWithSlash then .error .notFound else .ok (fs.add dir name (.link target))

/-- Removes an empty directory. -/
def rmdir (fs : FileSystem) (p : Path) : Except FileError FileSystem :=
  match pathFault? p, p.split? with
  | some e, _ => .error e
  | none, none => .error .busy
  | none, some (_, name) => do
    let (loc, node) ← fs.found (← fs.entry p)
    if name = "." then .error .invalid
    else if name = ".." then .error .notEmpty
    else if node ≠ .dir then .error .notDirectory
    else if fs.children loc ≠ [] then .error .notEmpty
    else .ok (fs.prune loc)

end FileSystem

namespace FileM

/-- All or nothing. -/
def change (step : FileSystem → Except FileError FileSystem) : FileM Unit := fun fs =>
  match step fs with
  | .ok fs' => .ok () fs'
  | .error e => .error e fs

/-- Looks without touching. -/
def ask (look : FileSystem → Except FileError α) : FileM α := fun fs =>
  match look fs with
  | .ok a => .ok a fs
  | .error e => .error e fs

/-- Makes a directory; that it is there already is as good. -/
def ensureDir (p : Path) : FileM Unit := fun fs =>
  match fs.mkdir p with
  | .ok fs' => .ok () fs'
  | .error e => if fs.isDir p then .ok () fs else .error e fs

/-- Makes the first of the directories, each of which is in the next. -/
def ensureChain : List Path → FileM Unit
  | [] => pure ()
  | p :: above => fun fs =>
    if p.text = "" then .ok () fs
    else match fs.mkdir p with
      | .error .notFound => (ensureChain above *> ensureDir p) fs
      | _ => ensureDir p fs

/-- Makes a directory and those above it that are missing. -/
def mkdirAll (p : Path) : FileM Unit := ensureChain (p :: p.ancestors)

/-- Makes a directory that is not there yet, and those above it. -/
def ensureShard (dir : Path) : FileM Unit := do
  if !(← get).isDir dir then mkdirAll dir

/-- Removes an empty directory. One that is not found counts as removed. -/
def unmake (p : Path) : FileM Unit := fun fs =>
  match fs.rmdir p with
  | .ok fs' => .ok () fs'
  | .error .notFound => .ok () fs
  | .error e => .error e fs

/-- Removes a directory with everything below, or a link to one. -/
def removeTree (p : Path) : FileM Unit := do
  match ← ask (·.lstatus p) with
  | (loc, .link _) => modify (·.prune loc)
  | (_, .file _) => throw .notDirectory
  | (loc, .dir) =>
    modify (·.clear loc)
    unmake p

/-- Removes whatever a path names. -/
def remove (p : Path) : FileM Unit := do
  match ← ask (·.lstatus p) with
  | (loc, .file _) => modify (·.prune loc)
  | _ => removeTree p

end FileM

end Depot
