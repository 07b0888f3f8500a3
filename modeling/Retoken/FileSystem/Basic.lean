import Retoken.FileSystem.OsError
import Retoken.FileSystem.Path
import Std.Data.ExtTreeMap

/-!
# File systems

A file system maps locations to nodes, where a location is the list of names on the way down from the root. There is always a directory at the root. Names are Unicode texts. A file is its location: it has exactly one name, so that to write, move or remove it changes what stands at no other location. Two names of one file (hard links) are not expressed.

Permissions and times are left out: no answer shows them, and a call fails only for reasons that are seen in the file system, not for want of permission or of space.

A path is resolved as the operating system does it, one name after the other, each in the directory reached so far, and with a limit on the number of links followed on the way.
-/

namespace Retoken

abbrev Location := List String

inductive Node where
  | directory
  | file (bytes : List UInt8)
  | link (target : Path)
deriving DecidableEq, Repr

structure FileSystem where
  nodes : Std.ExtTreeMap Location Node := ∅
  workingDirectory : Location := []

namespace FileSystem

def node? (fs : FileSystem) (location : Location) : Option Node :=
  if location = [] then some .directory else fs.nodes[location]?

def put (fs : FileSystem) (location : Location) (node : Node) : FileSystem :=
  { fs with nodes := fs.nodes.insert location node }

def erase (fs : FileSystem) (location : Location) : FileSystem :=
  { fs with nodes := fs.nodes.erase location }

def isDirectoryAt (fs : FileSystem) (location : Location) : Bool :=
  fs.node? location == some .directory

/-! ### Resolving paths -/

/-- How many links may be followed on the way to one file. -/
def linkLimit : Nat := 40

/-- How many bytes a name may have. -/
def nameLimit : Nat := 255

/-- How many bytes a path may have. -/
def pathLimit : Nat := 4095

/-- Refuses to look into anything but a directory. -/
def enter (fs : FileSystem) (location : Location) : Except OsError Unit :=
  match fs.node? location with
  | some .directory => .ok ()
  | some _ => .error .notADirectory
  | none => .error .notFound

/-- The location of a name in a directory, whether or not there is anything. -/
def child (location : Location) (name : String) : Except OsError Location :=
  if name.utf8ByteSize > nameLimit then .error .nameTooLong else .ok (location ++ [name])

/-- Where a path starts: an absolute one at the root, any other where the walk stands. -/
def startOf (path : Path) (location : Location) : Location :=
  if path.isAbsolute then [] else location

/-- What a path is walked for. -/
inductive Purpose where
  | find
  /-- To make a file where there is none. -/
  | create
deriving DecidableEq, Repr

/-- Whether a walk must not end with a name before the given pieces: a separator at the end asks for a directory, and no file is made in its place. -/
def Purpose.refuses : Purpose → List String → Bool
  | find, _ => false
  | create, pieces => !pieces.isEmpty && pieces.all (· == "")

/-- Walks along the pieces of a path. What comes after a link is left to `follow`, which gets the link's target, the directory of the link, and the pieces that remain. -/
def walkToLink (fs : FileSystem) (purpose : Purpose)
    (follow : Path → Location → List String → Except OsError Location) :
    Location → List String → Except OsError Location
  | location, [] => .ok location
  | location, piece :: pieces => do
    fs.enter location
    if piece = "" ∨ piece = "." then
      fs.walkToLink purpose follow location pieces
    else if piece = ".." then
      fs.walkToLink purpose follow location.dropLast pieces
    else if purpose.refuses pieces then
      throw .isADirectory
    else
      let next ← child location piece
      match fs.node? next with
      | some (.link target) => follow target location pieces
      | _ => fs.walkToLink purpose follow next pieces

/-- Walks along the pieces of a path and follows at most the given number of links. -/
def walk (fs : FileSystem) (purpose : Purpose) :
    Nat → Location → List String → Except OsError Location
  | 0 => fs.walkToLink purpose fun _ _ _ => .error .tooManyLinks
  | limit + 1 => fs.walkToLink purpose fun target location pieces =>
    fs.walk purpose limit (startOf target location) (target.pieces ++ pieces)

/-- Walks along a path, however long it is. -/
def walkPath (fs : FileSystem) (purpose : Purpose) (path : Path) : Except OsError Location :=
  fs.walk purpose linkLimit (startOf path fs.workingDirectory) path.pieces

/-- Refuses paths that name nothing at all. -/
def checkNonempty (path : Path) : Except OsError Unit :=
  if path.text = "" then .error .notFound
  else if '\x00' ∈ path.text.toList then .error .nulInName
  else .ok ()

/-- Refuses paths that the operating system does not take. -/
def checkPath (path : Path) : Except OsError Unit := do
  checkNonempty path
  if path.text.utf8ByteSize > pathLimit then throw .nameTooLong

/-- The location a path leads to through links. There may be nothing yet, if only the last name is missing. -/
def locate (fs : FileSystem) (purpose : Purpose) (path : Path) : Except OsError Location := do
  checkPath path
  fs.walkPath purpose path

/-- The node at a location, which has to be there. -/
def nodeAt (fs : FileSystem) (location : Location) : Except OsError (Location × Node) :=
  match fs.node? location with
  | some node => .ok (location, node)
  | none => .error .notFound

/-- The location and the node a path leads to through links. -/
def resolve (fs : FileSystem) (path : Path) : Except OsError (Location × Node) := do
  fs.nodeAt (← fs.locate .find path)

/-- An entry of a directory: its location, and whether the path insisted on a directory by ending with a separator. -/
structure Entry where
  location : Location
  separatorAtEnd : Bool
deriving DecidableEq, Repr

/-- The directory entry that a path names, itself not followed if it is a link. The root and the dots are no entries that can be changed, and fail with the given error. -/
def entry (fs : FileSystem) (path : Path) (noEntry : OsError) : Except OsError Entry := do
  checkPath path
  let pieces := path.pieces.reverse
  match pieces.dropWhile (· == "") with
  | [] => throw noEntry
  | name :: before =>
    let directory ← fs.walk .find linkLimit (startOf path fs.workingDirectory) before.reverse
    fs.enter directory
    if name = "." ∨ name = ".." then throw noEntry
    return ⟨← child directory name, pieces.head? == some ""⟩

end FileSystem

end Retoken
