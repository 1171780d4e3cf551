import MessageCode.Numeric.Binary

/-!
JSON trees. Integers and reals are kept apart, as the text keeps them apart; the members of an
object keep their order.
-/

namespace MessageCode

inductive Json where
  | null
  | bool (b : Bool)
  | integer (n : Int)
  | real (x : Numeric.Double)
  | text (s : String)
  | array (items : List Json)
  | object (members : List (String × Json))
  deriving Inhabited

namespace Json

def member? (key : String) (members : List (String × Json)) : Option Json :=
  (members.find? fun m => m.1 == key).map (·.2)

/-- A value that may be absent, written as null. -/
def ofOption {α : Type} (encode : α → Json) : Option α → Json
  | none => .null
  | some a => encode a

def ofList {α : Type} (encode : α → Json) (as : List α) : Json := .array (as.map encode)

/-- A single member, the form of a tagged alternative. -/
def tagged (tag : String) (value : Json) : Json := .object [(tag, value)]

/-- A tagged alternative: a word alone stands for a tag without content. -/
def untag? : Json → Option (String × Option Json)
  | .text tag => some (tag, none)
  | .object [(tag, value)] => some (tag, some value)
  | _ => none

/-- The fields of a record in their order, by key from an object. An absent key is `none`. -/
def keyed? (keys : List String) : Json → Option (List (Option Json))
  | .object members => some (keys.map (member? · members))
  | _ => none

/-- The fields of a record, also by position from an array of exactly as many items. -/
def fields? (keys : List String) : Json → Option (List (Option Json))
  | .array items => if items.length = keys.length then some (items.map some) else none
  | j => j.keyed? keys

def bool? : Json → Option Bool
  | .bool b => some b
  | _ => none

def text? : Json → Option String
  | .text s => some s
  | _ => none

def integer? : Json → Option Int
  | .integer n => some n
  | _ => none

def real? : Json → Option Numeric.Double
  | .integer n => some (.ofInt .double n)
  | .real x => some x
  | _ => none

def array? : Json → Option (List Json)
  | .array items => some items
  | _ => none

def list? {α : Type} (decode : Json → Option α) (j : Json) : Option (List α) := do
  let items ← j.array?
  items.mapM decode

def option? {α : Type} (decode : Json → Option α) : Json → Option (Option α)
  | .null => some none
  | j => (decode j).map some

def word? (j : Json) : Option String :=
  match j.untag? with
  | some (word, none) => some word
  | some (word, some .null) => some word
  | _ => none

def int32? (j : Json) : Option Int32 := j.integer?.bind Numeric.int32?

def int64? (j : Json) : Option Int64 := j.integer?.bind Numeric.int64?

def required? {α : Type} (decode : Json → Option α) : Option Json → Option α
  | some j => decode j
  | none => none

def optional? {α : Type} (decode : Json → Option α) : Option Json → Option (Option α)
  | some j => j.option? decode
  | none => some none

end Json

end MessageCode
