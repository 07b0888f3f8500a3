import Retoken.Json.Basic
import Retoken.Text.Quoted
import Retoken.Text.Replacement

/-!
# Tokens

A token table maps keys to the texts that replace them. The order matters: entries are applied one after the other, so a replacement may contain a later key and is then replaced in its turn. A key that is set again keeps its place.
-/

namespace Retoken

/-- The kinds of JSON value that are no text to put in. -/
inductive UnsuitableKind where
  | null
  | array
  | object
deriving DecidableEq, Repr

def UnsuitableKind.name : UnsuitableKind → String
  | null => "null"
  | array => "array"
  | object => "object"

inductive TokenError where
  | emptyKey
  | unsuitableValue (key : String) (kind : UnsuitableKind)
  | noAssignment (text : String)
  | notAnObject
deriving DecidableEq, Repr

def TokenError.message : TokenError → String
  | emptyKey => "token keys must not be empty"
  | unsuitableValue key kind =>
    s!"token {Text.quoted key} has a {kind.name} value; only strings, numbers and booleans are allowed"
  | noAssignment text => s!"expected KEY=VALUE, got {Text.quoted text}"
  | notAnObject => "token file must contain a JSON object"

structure TokenTable where
  entries : List (String × String) := []
deriving DecidableEq, Repr

namespace TokenTable

def empty : TokenTable := {}

def hasKey (table : TokenTable) (key : String) : Bool :=
  table.entries.any (·.1 == key)

/-- Sets a token. -/
def insert (table : TokenTable) (key value : String) : Except TokenError TokenTable :=
  if key = "" then .error .emptyKey
  else if table.hasKey key then
    .ok ⟨table.entries.map fun entry => if entry.1 == key then (key, value) else entry⟩
  else .ok ⟨table.entries ++ [(key, value)]⟩

/-- The two sides of the first equals sign. -/
def splitAssignment? (text : String) : Option (String × String) :=
  match text.toList.span (· != '=') with
  | (key, _ :: value) => some (String.ofList key, String.ofList value)
  | (_, []) => none

/-- Sets the token of an assignment such as KEY=VALUE. -/
def insertAssignment (table : TokenTable) (text : String) : Except TokenError TokenTable :=
  match splitAssignment? text with
  | some (key, value) => table.insert key value
  | none => .error (.noAssignment text)

/-- The text that a JSON value stands for. -/
def textOf (key : String) : JsonValue → Except TokenError String
  | .string value => .ok value
  | .number text => .ok text
  | .bool true => .ok "true"
  | .bool false => .ok "false"
  | .null => .error (.unsuitableValue key .null)
  | .array _ => .error (.unsuitableValue key .array)
  | .object _ => .error (.unsuitableValue key .object)

def insertMember (table : TokenTable) (key : String) (value : JsonValue) :
    Except TokenError TokenTable := do
  table.insert key (← textOf key value)

/-- Sets a token for each member, up to the first that is refused. What was set before it stays. -/
def insertMembers (table : TokenTable) : List (String × JsonValue) → TokenTable × Except TokenError Unit
  | [] => (table, .ok ())
  | (key, value) :: members =>
    match table.insertMember key value with
    | .ok table => table.insertMembers members
    | .error error => (table, .error error)

/-- Sets a token for each member of a JSON object. -/
def insertObject (table : TokenTable) : JsonValue → TokenTable × Except TokenError Unit
  | .object members => table.insertMembers members
  | _ => (table, .error .notAnObject)

/-! ### Substitution -/

/-- Applies one entry to the text reached so far, and notes whether that differs from the text at the beginning. -/
def applyEntry (start : List Char) (reached : List Char × Bool) (entry : String × String) :
    List Char × Bool :=
  let next := Text.replaceAll entry.1.toList entry.2.toList reached.1
  (next, reached.2 || next != start)

/-- The text after all entries, and whether any of them led away from the text at the beginning, even if a later one led back. -/
def substitute (table : TokenTable) (text : String) : String × Bool :=
  let (reached, changed) := table.entries.foldl (applyEntry text.toList) (text.toList, false)
  (String.ofList reached, changed)

end TokenTable

end Retoken
