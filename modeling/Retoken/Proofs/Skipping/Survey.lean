import Retoken.Proofs.PrefixFree

/-!
# Attributes that are stepped over

An attribute whose name means nothing where it stands is stepped over. A survey of a file finds the bodies of these attributes: it goes through the members and attributes by their counts and lengths alone, and looks at nothing but the names of attributes, so it also finds them in files that cannot be read for another reason. A survey is given what is to be done behind the part it is for, so that parts are put together as they stand in the file.
-/

namespace Retoken

open Reader

structure Stretch where
  start : Nat
  length : Nat
deriving DecidableEq, Repr

def Stretch.Covers (stretch : Stretch) (position : Nat) : Prop :=
  stretch.start ≤ position ∧ position < stretch.start + stretch.length

instance (stretch : Stretch) (position : Nat) : Decidable (stretch.Covers position) :=
  inferInstanceAs (Decidable (_ ∧ _))

/-- The stretches that are found from a cursor on. -/
abbrev Survey := Cursor → List Stretch

namespace Survey

variable {α : Type}

/-- Goes on behind what is read. If it cannot be read, nothing more is found. -/
def behind (reader : Reader α) (next : α → Survey) : Survey := fun cursor =>
  match reader cursor with
  | .ok (a, stop) => next a stop
  | .error _ => []

def times (part : Survey → Survey) : Nat → Survey → Survey
  | 0, next => next
  | n + 1, next => part (times part n next)

def counted (part : Survey → Survey) (next : Survey) : Survey :=
  behind u16 fun count => times part count.toNat next

def isKnown (pool : ConstantPool) (known : List String) (name : UInt16) : Bool :=
  match pool.text name with
  | .ok text => known.contains text
  | .error _ => false

/-- The body of an attribute, which is found if its name means nothing. -/
def body (isKnown : Bool) (length : Nat) (next : Survey) : Survey := fun cursor =>
  let later := behind (skip length) (fun _ => next) cursor
  if isKnown then later else ⟨cursor.position, length⟩ :: later

def attr (pool : ConstantPool) (known : List String) (next : Survey) : Survey :=
  behind u16 fun name => behind u32 fun length => body (isKnown pool known name) length.toNat next

def member (pool : ConstantPool) (known : List String) (next : Survey) : Survey :=
  behind u16 fun _ => behind u16 fun _ => behind u16 fun _ => counted (attr pool known) next

def knownOnFields : List String :=
  ["ConstantValue", "RuntimeVisibleAnnotations", "RuntimeInvisibleAnnotations"]

def knownOnMethods : List String :=
  ["Code", "RuntimeVisibleAnnotations", "RuntimeInvisibleAnnotations", "RuntimeVisibleParameterAnnotations",
    "RuntimeInvisibleParameterAnnotations", "AnnotationDefault"]

def knownOnClasses : List String :=
  ["RuntimeVisibleAnnotations", "RuntimeInvisibleAnnotations", "BootstrapMethods"]

def declaration (pool : ConstantPool) : Survey :=
  behind u16 fun _ => behind u16 fun _ => behind u16 fun _ => counted (behind u16 fun _ => ·) <|
    counted (member pool knownOnFields) <| counted (member pool knownOnMethods) <|
      counted (attr pool knownOnClasses) fun _ => []

def file : Survey :=
  behind u32 fun _ => behind u16 fun _ => behind u16 fun _ => behind ConstantPool.read declaration

end Survey

/-- Whether the byte at a position is in the body of an attribute that is stepped over. -/
def ClassFile.Skips (bytes : List UInt8) (position : Nat) : Prop :=
  ∃ stretch ∈ Survey.file ⟨0, bytes⟩, stretch.Covers position

instance (bytes : List UInt8) (position : Nat) : Decidable (ClassFile.Skips bytes position) :=
  inferInstanceAs (Decidable (∃ stretch ∈ _, _))

namespace Survey

def Ahead (survey : Survey) : Prop :=
  ∀ cursor, ∀ stretch ∈ survey cursor, cursor.position ≤ stretch.start

variable {α : Type} {reader : Reader α} {next : Survey}

theorem ahead_nil : Ahead fun _ => [] :=
  fun _ _ hstretch => absurd hstretch List.not_mem_nil

theorem ahead_behind {next : α → Survey} (hreader : Progressive reader) (hnext : ∀ a, Ahead (next a)) :
    Ahead (behind reader next) := by
  intro cursor stretch hstretch
  rw [behind] at hstretch
  split at hstretch
  case h_1 a stop hrun =>
    obtain ⟨used, huses⟩ := hreader cursor a stop hrun
    have hstart := hnext a stop stretch hstretch
    rw [huses.spells.2] at hstart
    omega
  case h_2 => cases hstretch

theorem ahead_times {part : Survey → Survey} (hpart : ∀ next, Ahead next → Ahead (part next)) (n : Nat)
    (hnext : Ahead next) : Ahead (times part n next) := by
  induction n with
  | zero => exact hnext
  | succ n ih => exact hpart _ ih

theorem ahead_counted {part : Survey → Survey} (hpart : ∀ next, Ahead next → Ahead (part next))
    (hnext : Ahead next) : Ahead (counted part next) :=
  ahead_behind .u16 fun _ => ahead_times hpart _ hnext

theorem ahead_body (isKnown : Bool) (length : Nat) (hnext : Ahead next) : Ahead (body isKnown length next) := by
  intro cursor stretch hstretch
  have hlater := ahead_behind (.skip length) (fun _ => hnext) cursor
  cases isKnown with
  | true => exact hlater stretch hstretch
  | false =>
    rcases List.mem_cons.mp hstretch with rfl | hmem
    · exact Nat.le_refl _
    · exact hlater stretch hmem

theorem ahead_attr (pool : ConstantPool) (known : List String) (hnext : Ahead next) : Ahead (attr pool known next) :=
  ahead_behind .u16 fun _ => ahead_behind .u32 fun _ => ahead_body _ _ hnext

theorem ahead_member (pool : ConstantPool) (known : List String) (hnext : Ahead next) :
    Ahead (member pool known next) :=
  ahead_behind .u16 fun _ => ahead_behind .u16 fun _ => ahead_behind .u16 fun _ =>
    ahead_counted (fun _ => ahead_attr _ _) hnext

theorem ahead_declaration (pool : ConstantPool) : Ahead (declaration pool) :=
  ahead_behind .u16 fun _ => ahead_behind .u16 fun _ => ahead_behind .u16 fun _ =>
    ahead_counted (fun _ hnext => ahead_behind .u16 fun _ => hnext) <|
      ahead_counted (fun _ => ahead_member _ _) <| ahead_counted (fun _ => ahead_member _ _) <|
        ahead_counted (fun _ => ahead_attr _ _) ahead_nil

end Survey

end Retoken
