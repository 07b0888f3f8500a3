/-!
# JSON values

A number is kept as the text that it is shown with. The members of an object have the order of the document, and no key twice.
-/

namespace Retoken

inductive JsonValue where
  | null
  | bool (value : Bool)
  | number (text : String)
  | string (value : String)
  | array (items : List JsonValue)
  | object (members : List (String × JsonValue))

namespace JsonValue

/-- Adds a member. A key that is already there keeps its place and takes the new value. -/
def insertMember (members : List (String × JsonValue)) (key : String) (value : JsonValue) :
    List (String × JsonValue) :=
  if members.any (·.1 == key) then
    members.map fun m => if m.1 == key then (key, value) else m
  else members ++ [(key, value)]

/-- The members in the order of their first occurrence, each with the last value given to it. -/
def ofMembers (members : List (String × JsonValue)) : JsonValue :=
  object (members.foldl (fun kept m => insertMember kept m.1 m.2) [])

end JsonValue

end Retoken
