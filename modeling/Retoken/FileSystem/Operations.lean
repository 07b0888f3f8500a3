import Retoken.FileSystem.Basic
import Retoken.FileSystem.Disk

/-!
# Operations on file systems

What each call to the operating system answers and how it leaves the files. Together they make a file system a disk, so that whole runs can be spoken about as functions from one file system to the next.
-/

namespace Retoken.FileSystem

def isDirectory (fs : FileSystem) (path : Path) : Bool :=
  match fs.resolve path with
  | .ok (_, .directory) => true
  | _ => false

def isPresent (fs : FileSystem) (path : Path) : Bool :=
  (fs.resolve path).isOk

/-- The absolute path to a location. -/
def pathTo (location : Location) : Path :=
  (Path.mk "/").join (.ofNames location)

/-- Links are taken out of a path one name at a time, so the path may be of any length. -/
def canonical (fs : FileSystem) (path : Path) : Except OsError Path := do
  checkNonempty path
  let (location, _) ← fs.nodeAt (← fs.walkPath .find path)
  return pathTo location

/-- The names that lead from a directory down to a location below it. -/
def namesBelow? (directory location : Location) : Option (List String) :=
  if directory.isPrefixOf location && location != directory then
    some (location.drop directory.length)
  else none

/-- What lies below a location, by the names that lead down to it. -/
def below (fs : FileSystem) (directory : Location) : List (List String × Node) :=
  fs.nodes.toList.filterMap fun (location, node) =>
    (namesBelow? directory location).map (·, node)

/-- Refuses to list a directory whose path is too long. -/
def checkListable (directory : Path) : Except ListingError Unit :=
  (checkPath directory).mapError (ListingError.mk directory)

def filesBelow (fs : FileSystem) (path : Path) : Except ListingError (List (List String)) := do
  let (directory, node) ← (fs.resolve path).mapError (ListingError.mk path)
  if node != .directory then throw ⟨path, .notADirectory⟩
  let nodes := fs.below directory
  (nodes.filter (·.2 == .directory)).forM fun (names, _) =>
    checkListable (path.join (.ofNames names))
  return nodes.filterMap fun
    | (names, .file _) => some names
    | _ => none

def read (fs : FileSystem) (path : Path) : Except OsError (List UInt8) := do
  match ← fs.resolve path with
  | (_, .file bytes) => return bytes
  | (_, .directory) => throw .isADirectory
  | (_, .link _) => throw .tooManyLinks

def write (fs : FileSystem) (path : Path) (bytes : List UInt8) : Except OsError FileSystem := do
  let location ← fs.locate .create path
  match fs.node? location with
  | some .directory => throw .isADirectory
  | some (.link _) => throw .tooManyLinks
  | some (.file _) | none => return fs.put location (.file bytes)

def makeDirectory (fs : FileSystem) (path : Path) : Except OsError FileSystem := do
  let entry ← fs.entry path .alreadyExists
  match fs.node? entry.location with
  | some _ => throw .alreadyExists
  | none => return fs.put entry.location .directory

/-- Permissions can be copied between any two files there are. -/
def copyPermissions (fs : FileSystem) (source target : Path) : Except OsError Unit := do
  discard (fs.resolve source)
  discard (fs.resolve target)

/-- Moves a file or a link. A directory is neither moved nor replaced. -/
def rename (fs : FileSystem) (source target : Path) : Except OsError FileSystem := do
  let source ← fs.entry source .busy
  let target ← fs.entry target .busy
  match fs.node? source.location with
  | none => throw .notFound
  | some .directory => throw .isADirectory
  | some node =>
    if source.separatorAtEnd || target.separatorAtEnd then throw .notADirectory
    if fs.isDirectoryAt target.location then throw .isADirectory
    return (fs.erase source.location).put target.location node

/-- Removes a file or a link. -/
def remove (fs : FileSystem) (path : Path) : Except OsError FileSystem := do
  let entry ← fs.entry path .isADirectory
  match fs.node? entry.location with
  | none => throw .notFound
  | some .directory => throw .isADirectory
  | some _ =>
    if entry.separatorAtEnd then throw .notADirectory
    return fs.erase entry.location

/-! ### The file system as a disk -/

/-- An operation that only looks. -/
def look {ε α : Type} (operation : FileSystem → Except ε α) :
    ExceptT ε (StateM FileSystem) α :=
  ExceptT.mk fun fs => (operation fs, fs)

/-- An operation that changes files if it succeeds. -/
def change (operation : FileSystem → Except OsError FileSystem) :
    ExceptT OsError (StateM FileSystem) Unit :=
  ExceptT.mk fun fs => match operation fs with
    | .ok fs => (.ok (), fs)
    | .error error => (.error error, fs)

instance : Disk (StateM FileSystem) where
  isDirectory path := return (← get).isDirectory path
  isPresent path := return (← get).isPresent path
  canonical path := look (·.canonical path)
  filesBelow path := look (·.filesBelow path)
  read path := look (·.read path)
  write path bytes := change (·.write path bytes)
  makeDirectory path := change (·.makeDirectory path)
  copyPermissions source target := look (·.copyPermissions source target)
  rename source target := change (·.rename source target)
  remove path := change (·.remove path)

end Retoken.FileSystem
