import Retoken.ClassFile.Basic
import Retoken.ClassFile.Visiting

/-!
# Editing single sites

Besides replacing tokens everywhere, a site can be given a text by its position among the open sites, and a bootstrap argument by the instruction that it belongs to, whether or not tokens are replaced there.
-/

namespace Retoken

namespace Declaration

/-- Gives a text to the open site with the given number. -/
def setSite (declaration : Declaration StringSite) (number : Nat) (text : String) :
    Declaration StringSite × Tally :=
  let edit (_ : Place) (site : StringSite) : StateM Nat (String × Bool) := do
    let current ← getModify (· + 1)
    return if current = number then (text, true) else (site.text, false)
  ((declaration.visit edit).run 0).1

/-- Gives a text to a bootstrap argument that is a string. There is no result if there is no such argument. -/
def setArgument? (declaration : Declaration StringSite) (method instruction argument : Nat)
    (text : String) : Option (Declaration StringSite) := do
  let found ← declaration.methods[method]?
  match ← found.instructions[instruction]? with
  | .invokeDynamic offset name descriptor bootstrap arguments =>
    let site ← (← arguments[argument]?).site?
    let arguments := arguments.set argument (.string { site with text })
    let instructions := found.instructions.set instruction
      (.invokeDynamic offset name descriptor bootstrap arguments)
    return { declaration with methods := declaration.methods.set method { found with instructions } }
  | _ => none

/-- The open sites themselves, in order. -/
def openSites (declaration : Declaration StringSite) : List StringSite :=
  let collect (_ : Place) (site : StringSite) : StateM (Array StringSite) (String × Bool) := do
    modify (·.push site)
    return (site.text, false)
  ((declaration.visit collect).run #[]).2.toList

/-- The constants that instructions load or pass on, by method and instruction, and then those of the fields. -/
def loadables (declaration : Declaration StringSite) : List (Loadable StringSite) :=
  let ofInstruction : Instruction StringSite → List (Loadable StringSite)
    | .load _ _ constant => [constant]
    | .invokeDynamic _ _ _ _ arguments => arguments
    | .other .. => []
  declaration.methods.flatMap (·.instructions.flatMap ofInstruction)
    ++ declaration.fields.filterMap (·.constant?)

end Declaration

end Retoken
