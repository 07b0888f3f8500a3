import Retoken.Json.Basic
import Retoken.Text.Hex

/-!
# Printing JSON

Each item and each member stands on a line of its own, two blanks further in than its container. Strings show every character as it is except the quote, the backslash and the control characters.
-/

namespace Retoken.Json

def escapedChar (c : Char) : String :=
  if c = '"' then "\\\""
  else if c = '\\' then "\\\\"
  else if c = '\x08' then "\\b"
  else if c = '\t' then "\\t"
  else if c = '\n' then "\\n"
  else if c = '\x0c' then "\\f"
  else if c = '\r' then "\\r"
  else if c < ' ' then "\\u00" ++ Text.hexOfBytes [UInt8.ofNat c.toNat]
  else c.toString

def quoted (text : String) : String :=
  "\"" ++ String.join (text.toList.map escapedChar) ++ "\""

/-- The start of a line with the given number of open containers. -/
def newLine (level : Nat) : String :=
  "\n" ++ String.ofList (List.replicate (2 * level) ' ')

/-- The lines of a container between its brackets. -/
def bracketed (opening closing : String) (level : Nat) (lines : List String) : String :=
  if lines.isEmpty then opening ++ closing
  else
    opening ++ newLine (level + 1) ++ String.intercalate ("," ++ newLine (level + 1)) lines
      ++ newLine level ++ closing

end Retoken.Json

namespace Retoken.JsonValue

mutual

/-- The text of a value that begins on a line with the given number of open containers. -/
def render (level : Nat) : JsonValue → String
  | null => "null"
  | bool true => "true"
  | bool false => "false"
  | number text => text
  | string value => Json.quoted value
  | array items => Json.bracketed "[" "]" level (renderItems (level + 1) items)
  | object members => Json.bracketed "\x7b" "\x7d" level (renderMembers (level + 1) members)

def renderItems (level : Nat) : List JsonValue → List String
  | [] => []
  | item :: items => render level item :: renderItems level items

def renderMembers (level : Nat) : List (String × JsonValue) → List String
  | [] => []
  | (key, value) :: members =>
    (Json.quoted key ++ ": " ++ render level value) :: renderMembers level members

end

def pretty (value : JsonValue) : String :=
  value.render 0

end Retoken.JsonValue
