import Retoken.ClassFile.Error
import Retoken.FileSystem.OsError
import Retoken.TokenTable

/-!
# Failures

A failure is told as a chain: what was being done, from the outside in, and at the end what came in the way.
-/

namespace Retoken

/-- What can come in the way from outside. -/
inductive Cause where
  | os (error : OsError)
  | jsonSyntax
  | token (error : TokenError)
  | classFile (error : ClassError)
deriving DecidableEq, Repr

def Cause.message : Cause → String
  | os error => error.message
  | jsonSyntax => "invalid JSON"
  | token error => error.message
  | classFile error => error.message

structure Failure where
  /-- What was being done, outermost first. -/
  context : List String
  cause? : Option Cause := none
deriving DecidableEq, Repr

namespace Failure

/-- The messages of the chain, outermost first. -/
def messages (failure : Failure) : List String :=
  failure.context ++ (failure.cause?.map Cause.message).toList

end Failure

end Retoken
