import MessageCode.Machine.Value

/-!
The state of the machine: the contents of the objects that change, the shared default instances, and
the number of suspension points passed. Identities are handed out in ascending order.
-/

namespace MessageCode

/-- Contents by identity. -/
abbrev Cells (α : Type) := List (ObjectId × α)

namespace Cells

variable {α : Type}

def get? (cells : Cells α) (id : ObjectId) : Option α :=
  (cells.find? fun cell => cell.1 = id).map (·.2)

def set (cells : Cells α) (id : ObjectId) (content : α) : Cells α :=
  if cells.any fun cell => cell.1 = id then
    cells.map fun cell => if cell.1 = id then (id, content) else cell
  else (id, content) :: cells

end Cells

structure Store where
  nextId : ObjectId
  builders : Cells MessageData
  lists : Cells (List Value)

namespace Store

def empty : Store := { nextId := 0, builders := [], lists := [] }

/-- The contents of the builder of a type; a builder without any is empty. -/
def builderData (s : Store) (id : ObjectId) (typeName : String) : MessageData :=
  (s.builders.get? id).getD (.empty typeName)

def listItems (s : Store) (id : ObjectId) : List Value := (s.lists.get? id).getD []

def setBuilder (s : Store) (id : ObjectId) (data : MessageData) : Store :=
  { s with builders := s.builders.set id data }

def setList (s : Store) (id : ObjectId) (items : List Value) : Store :=
  { s with lists := s.lists.set id items }

end Store

/-- The items of a native or of a boxed list. -/
def Value.listItems? (s : Store) : Value → Option (List Value)
  | .ref id .list => some (s.listItems id)
  | .ref _ (.boxed (.list items)) => some items
  | _ => none

structure Machine where
  store : Store
  /-- The identities of the default instances asked for so far, by type. -/
  defaults : List (String × ObjectId)
  suspensions : Nat

namespace Machine

def start : Machine := { store := .empty, defaults := [], suspensions := 0 }

/-- A new machine on which the objects of this one live on. -/
def reset (m : Machine) : Machine := { m with defaults := [], suspensions := 0 }

def freshId : StateM Machine ObjectId := fun m =>
  (m.store.nextId, { m with store := { m.store with nextId := m.store.nextId + 1 } })

def alloc (object : Object) : StateM Machine Value := do
  return .ref (← freshId) object

def allocBuilder (data : MessageData) : StateM Machine Value := do
  let id ← freshId
  modify fun m => { m with store := m.store.setBuilder id data }
  return .ref id (.builder data.typeName)

def allocList (items : List Value) : StateM Machine Value := do
  let id ← freshId
  modify fun m => { m with store := m.store.setList id items }
  return .ref id .list

def builderData (id : ObjectId) (typeName : String) : StateM Machine MessageData := do
  return (← get).store.builderData id typeName

def setBuilder (id : ObjectId) (data : MessageData) : StateM Machine Unit :=
  modify fun m => { m with store := m.store.setBuilder id data }

def listItems (id : ObjectId) : StateM Machine (List Value) := do
  return (← get).store.listItems id

def setList (id : ObjectId) (items : List Value) : StateM Machine Unit :=
  modify fun m => { m with store := m.store.setList id items }

end Machine

end MessageCode
