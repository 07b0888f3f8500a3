/-!
# Replacing a key in a text

Occurrences of the key are found from left to right, and the search goes on behind each one, so that occurrences do not overlap. What is put in is not searched again.
-/

namespace Retoken.Text

/-- Continues after the text already done, which is given backwards. The first `covered` characters to come belong to the occurrence found last. -/
def replaceAfter (key value : List Char) (done : List Char) : (covered : Nat) → List Char → List Char
  | _, [] => done.reverse
  | covered + 1, _ :: rest => replaceAfter key value done covered rest
  | 0, c :: rest =>
    if key.isPrefixOf (c :: rest) then
      replaceAfter key value (value.reverse ++ done) (key.length - 1) rest
    else replaceAfter key value (c :: done) 0 rest

/-- The text with the value in place of the key. -/
def replaceAll (key value text : List Char) : List Char :=
  replaceAfter key value [] 0 text

end Retoken.Text
