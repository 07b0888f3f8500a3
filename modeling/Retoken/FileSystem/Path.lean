/-!
# Paths

A path keeps the text it was given with, since messages and reports show it. What it means is its list of components: repeated separators, a separator at the end, and a single dot anywhere but at the beginning add nothing. Two paths with the same components are the same path to every comparison here.
-/

namespace Retoken

structure Path where
  text : String
deriving DecidableEq, Repr

namespace Path

inductive Component where
  | root
  | here
  | up
  | name (text : String)
deriving DecidableEq, Repr

/-- The texts between separators. There is always one more of them than there are separators. -/
def splitAtSlashes : List Char → List (List Char)
  | [] => [[]]
  | '/' :: rest => [] :: splitAtSlashes rest
  | c :: rest =>
    match splitAtSlashes rest with
    | [] => [[c]]
    | piece :: pieces => (c :: piece) :: pieces

/-- The texts between separators, as the operating system walks them. -/
def pieces (path : Path) : List String :=
  (splitAtSlashes path.text.toList).map String.ofList

/-- Where a path starts from. -/
inductive Anchor where
  | root
  | here
  | implicit
deriving DecidableEq, Repr

def Anchor.text : Anchor → String
  | root => "/"
  | here => "."
  | implicit => ""

def Anchor.components : Anchor → List Component
  | root => [.root]
  | here => [.here]
  | implicit => []

/-- Separates the start of a path from the body that follows it. -/
def splitAnchor : List Char → Anchor × List Char
  | '/' :: body => (.root, body)
  | ['.'] => (.here, [])
  | '.' :: '/' :: body => (.here, '/' :: body)
  | body => (.implicit, body)

def anchor (path : Path) : Anchor :=
  (splitAnchor path.text.toList).1

/-- The texts between separators after the start of the path. -/
def body (path : Path) : List String :=
  (splitAtSlashes (splitAnchor path.text.toList).2).map String.ofList

/-- The component that a piece of the body stands for, if any. -/
def component? (piece : String) : Option Component :=
  if piece = "" ∨ piece = "." then none
  else if piece = ".." then some .up
  else some (.name piece)

def components (path : Path) : List Component :=
  path.anchor.components ++ path.body.filterMap component?

/-- Whether two paths have the same components. -/
def same (path other : Path) : Bool :=
  path.components == other.components

/-- Whether the path is the directory or lies below it. -/
def isWithin (path directory : Path) : Bool :=
  directory.components.isPrefixOf path.components

def isAbsolute (path : Path) : Bool :=
  path.anchor == .root

/-- Continues a path by another. An absolute continuation replaces the path. -/
def join (path continuation : Path) : Path :=
  if continuation.isAbsolute then continuation
  else if path.text.toList.getLast?.all (· == '/') then ⟨path.text ++ continuation.text⟩
  else ⟨path.text ++ "/" ++ continuation.text⟩

/-- The relative path that goes down along the given names. -/
def ofNames (names : List String) : Path :=
  ⟨"/".intercalate names⟩

/-- Adds an ending to the text of a path. -/
def withSuffix (path : Path) (suffix : String) : Path :=
  ⟨path.text ++ suffix⟩

/-! ### Parents -/

/-- The bodies, last piece first, that end with a component, from the given one inwards, and at the end the empty one. -/
def enclosing : List String → List (List String)
  | [] => [[]]
  | piece :: pieces =>
    if component? piece = none then enclosing pieces else (piece :: pieces) :: enclosing pieces

/-- The directories around a path, from the inside out. The start of the working directory is the empty path. -/
def parents (path : Path) : List Path :=
  let bodies := (enclosing path.body.reverse).tail
  bodies.map (fun pieces => ⟨path.anchor.text ++ "/".intercalate pieces.reverse⟩)
    ++ (if path.anchor = .here then [⟨""⟩] else [])

def parent? (path : Path) : Option Path :=
  path.parents.head?

/-! ### Extensions -/

/-- What follows the last dot of a name that has something before it. -/
def extensionOf? (name : String) : Option String :=
  match name.toList.reverse.span (· != '.') with
  | (_, []) => none
  | (_, [_]) => none
  | (ending, _) => some (String.ofList ending.reverse)

def extension? (path : Path) : Option String :=
  match path.components.getLast? with
  | some (.name name) => extensionOf? name
  | _ => none

def isClassFile (path : Path) : Bool :=
  path.extension? == some "class"

end Path

end Retoken
