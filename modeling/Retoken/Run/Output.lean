import Retoken.Run.Source

/-!
# Where changed classes go
-/

namespace Retoken

inductive Output where
  /-- Each class is replaced where it was found. -/
  | inPlace
  /-- The classes are laid out below another directory, each where it stood below its own. -/
  | shadow (root : Path)
deriving DecidableEq, Repr

namespace Output

def name : Output → String
  | inPlace => "in-place"
  | shadow _ => "shadow"

def root? : Output → Option Path
  | inPlace => none
  | shadow root => some root

def destination : Output → ClassSource → Path
  | inPlace, source => source.path
  | shadow root, source => root.join source.relative

end Output

end Retoken
