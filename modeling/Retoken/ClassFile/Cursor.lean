import Retoken.Binary.BigEndian
import Retoken.ClassFile.Error

/-!
# Reading positions

A cursor is the part of a file that is still to be read, together with the offset at which it begins. Readers move a cursor forward or fail with a `ClassError`. Offsets count from the start of the file even while the body of one attribute is read on its own, so what a reader records can be found again in the whole file.
-/

namespace Retoken

structure Cursor where
  position : Nat
  rest : List UInt8

abbrev Reader (α : Type) := StateT Cursor (Except ClassError) α

namespace Reader

def fail {α : Type} (cause : Malformation) : Reader α :=
  throw (.malformed cause)

def position : Reader Nat := do
  return (← get).position

def atEnd : Reader Bool := do
  return (← get).rest.isEmpty

/-- The next `n` bytes. -/
def take (n : Nat) : Reader (List UInt8) := fun cursor =>
  let taken := cursor.rest.take n
  if taken.length < n then .error (.truncated cursor.position n)
  else .ok (taken, ⟨cursor.position + n, cursor.rest.drop n⟩)

def skip (n : Nat) : Reader Unit := do
  let _ ← take n

def u8 : Reader UInt8 := fun cursor =>
  match cursor.rest with
  | a :: rest => .ok (a, ⟨cursor.position + 1, rest⟩)
  | _ => .error (.truncated cursor.position 1)

def u16 : Reader UInt16 := fun cursor =>
  match cursor.rest with
  | a :: b :: rest => .ok (BigEndian.word16 a b, ⟨cursor.position + 2, rest⟩)
  | _ => .error (.truncated cursor.position 2)

def u32 : Reader UInt32 := fun cursor =>
  match cursor.rest with
  | a :: b :: c :: d :: rest => .ok (BigEndian.word32 a b c d, ⟨cursor.position + 4, rest⟩)
  | _ => .error (.truncated cursor.position 4)

/-- An eight-byte word is read as two words of four bytes, so a file that ends inside it is reported at the half that is missing. -/
def u64 : Reader UInt64 := do
  let hi ← u32
  let lo ← u32
  return BigEndian.word64 hi lo

/-- The next `n` bytes as a cursor of their own. -/
def slice (n : Nat) : Reader Cursor := do
  let start ← position
  return ⟨start, ← take n⟩

/-- Reads `n` items after those already read, which are given latest first. -/
def timesAfter {α : Type} (item : Reader α) (read : List α) : Nat → Reader (List α)
  | 0 => return read.reverse
  | n + 1 => do
    let a ← item
    timesAfter item (a :: read) n

/-- Reads `n` items one after the other. -/
def times {α : Type} (item : Reader α) (n : Nat) : Reader (List α) :=
  timesAfter item [] n

/-- Reads a two-byte count and that many items. -/
def counted {α : Type} (item : Reader α) : Reader (List α) := do
  times item (← u16).toNat

/-- Reads items up to the end, at most `fuel` of them, after those already read. -/
def untilEndAfter {α : Type} (item : Reader α) (read : List α) : Nat → Reader (List α)
  | 0 => return read.reverse
  | fuel + 1 => do
    if ← atEnd then return read.reverse
    let a ← item
    untilEndAfter item (a :: read) fuel

/-- Reads items up to the end. Each item takes at least one byte, so there are at most as many items as bytes. -/
def untilEnd {α : Type} (item : Reader α) : Reader (List α) := fun cursor =>
  untilEndAfter item [] cursor.rest.length cursor

theorem bind_eq_ok {α β : Type} {first : Reader α} {next : α → Reader β} {start stop : Cursor} {b : β} :
    (first >>= next) start = .ok (b, stop)
      ↔ ∃ a middle, first start = .ok (a, middle) ∧ next a middle = .ok (b, stop) := by
  simp only [bind, StateT.bind, Except.bind]
  cases first start with
  | error e => simp
  | ok result =>
    obtain ⟨a, middle⟩ := result
    constructor
    · intro read
      exact ⟨a, middle, rfl, read⟩
    · rintro ⟨_, _, read, continued⟩
      cases read
      exact continued

end Reader

end Retoken
