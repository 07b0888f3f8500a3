import Retoken.ClassFile.Relinking
import Retoken.TokenTable

/-!
# Retokening a class

A class file is read, the tokens in the text of each open site are replaced, and if that changed anything the file is written anew.
-/

namespace Retoken

namespace Declaration

/-- Replaces the tokens at every open site. -/
def replaceTokens (tokens : TokenTable) (declaration : Declaration StringSite) :
    Declaration StringSite × Tally :=
  Id.run (declaration.visit fun _ site => pure (tokens.substitute site.text))

end Declaration

namespace ClassFile

def replaceTokens (tokens : TokenTable) (file : ClassFile) : ClassFile × Tally :=
  let (declaration, tally) := file.declaration.replaceTokens tokens
  ({ file with declaration }, tally)

end ClassFile

/-- The outcome for one class: how many sites there were and changed, and the new bytes if any did. -/
structure Retokened where
  tally : Tally
  bytes? : Option (List UInt8)
deriving DecidableEq, Repr

/-- Replaces the tokens in a class file. -/
def retoken (tokens : TokenTable) (bytes : List UInt8) : Except ClassError Retokened := do
  let file ← ClassFile.ofBytes bytes
  let (file, tally) := file.replaceTokens tokens
  if tally.changed then return ⟨tally, some (← file.toBytes)⟩ else return ⟨tally, none⟩

end Retoken
