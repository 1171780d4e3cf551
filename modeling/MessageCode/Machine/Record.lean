import MessageCode.Numeric.Binary

/-!
Contents of messages and builders: slots by field number, in ascending order. A field that is unset
has no slot.
-/

namespace MessageCode

/-- What a slot holds, for a singular or for a repeated field. -/
inductive Content (α : Type) where
  | single (a : α)
  | repeated (items : List α)

structure Slot (α : Type) where
  number : Int32
  /-- The name of the field. -/
  name : String
  content : Content α

structure Record (α : Type) where
  /-- The full name of the message type. -/
  typeName : String
  slots : List (Slot α)

namespace Slot

variable {α : Type}

/-- Puts a slot in its place, instead of an earlier one of its number. -/
def insert (slot : Slot α) : List (Slot α) → List (Slot α)
  | [] => [slot]
  | other :: rest =>
      if slot.number < other.number then slot :: other :: rest
      else if slot.number = other.number then slot :: rest
      else other :: insert slot rest

end Slot

namespace Record

variable {α : Type}

def empty (typeName : String) : Record α := { typeName, slots := [] }

def content? (r : Record α) (number : Int32) : Option (Content α) :=
  (r.slots.find? fun slot => slot.number = number).map (·.content)

def isSet (r : Record α) (number : Int32) : Bool := (r.content? number).isSome

def set (r : Record α) (number : Int32) (name : String) (content : Content α) : Record α :=
  { r with slots := Slot.insert ⟨number, name, content⟩ r.slots }

def clear (r : Record α) (number : Int32) : Record α :=
  { r with slots := r.slots.filter fun slot => slot.number ≠ number }

def clearAll (r : Record α) (numbers : List Int32) : Record α := numbers.foldl clear r

/-- Adds an item to a slot; a slot that holds no items is replaced. -/
def push (r : Record α) (number : Int32) (name : String) (item : α) : Record α :=
  match r.slots.find? fun slot => slot.number = number with
  | some ⟨_, name, .repeated items⟩ => r.set number name (.repeated (items ++ [item]))
  | _ => r.set number name (.repeated [item])

end Record

end MessageCode
