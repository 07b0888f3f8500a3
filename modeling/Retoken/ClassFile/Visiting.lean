import Retoken.ClassFile.Place
import Retoken.ClassFile.StringSite

/-!
# Visiting open sites

A visitor is called at each open site in order, with the place and the site. It answers with the text the site shall hold from then on, and with whether it counts that as a change.
-/

namespace Retoken.Declaration

variable {m : Type → Type}

/-- The visitor's effect at one site, together with the count. -/
def visitSite [Monad m] (visitor : Place → StringSite → m (String × Bool)) :
    Option Place × StringSite → StateT Tally m StringSite
  | (none, site) => return site
  | (some place, site) => do
    let (text, changed) ← visitor place site
    modify (Tally.count changed)
    return { site with text }

def visit [Monad m] (visitor : Place → StringSite → m (String × Bool))
    (declaration : Declaration StringSite) : m (Declaration StringSite × Tally) :=
  (declaration.located.traverse (visitSite visitor)).run {}

/-- An open site as it is listed for the user. -/
structure SiteRecord where
  place : Place
  text : String
deriving DecidableEq, Repr

/-- The open sites, in order. -/
def records (declaration : Declaration StringSite) : List SiteRecord :=
  let collect (place : Place) (site : StringSite) : StateM (Array SiteRecord) (String × Bool) := do
    modify (·.push ⟨place, site.text⟩)
    return (site.text, false)
  ((declaration.visit collect).run #[]).2.toList

/-- Whether some site wants another text than the one it was read with. -/
def isModified (declaration : Declaration StringSite) : Bool :=
  declaration.sites.any (·.isModified)

end Retoken.Declaration
