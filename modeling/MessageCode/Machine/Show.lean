import MessageCode.Machine.Store
import MessageCode.Numeric.Decimal
import MessageCode.Text.Quoted

/-!
Texts of values. Reals are positional and keep no point when they are whole.
-/

namespace MessageCode

def valueLayout : Numeric.Layout :=
  { positional := none
    keepsPoint := false
    plus := ""
    tie := .away
    nan := "NaN"
    infinity := "inf" }

def bytesText (b : List UInt8) : String :=
  "bytes[" ++ ", ".intercalate (b.map fun byte => toString byte.toNat) ++ "]"

/-- The text of a message, from the texts of its slots. -/
def recordText (typeName : String) (slots : List String) : String :=
  if slots.isEmpty then typeName ++ " \x7b\x7d"
  else typeName ++ " \x7b " ++ ", ".intercalate slots ++ " \x7d"

def listText (items : List String) : String := "[" ++ ", ".intercalate items ++ "]"

mutual

def Stored.render : Stored → String
  | .bool b => toString b
  | .int n => toString n.toInt
  | .long n => toString n.toInt
  | .float x => valueLayout.text x
  | .double x => valueLayout.text x
  | .text _ s => Text.quoted s
  | .bytes _ b => bytesText b
  | .message _ data => Stored.renderRecord data

def Stored.renderRecord : Record Stored → String
  | ⟨typeName, slots⟩ => recordText typeName (Stored.renderSlots slots)

def Stored.renderSlots : List (Slot Stored) → List String
  | [] => []
  | ⟨_, name, content⟩ :: rest =>
      (name ++ ": " ++ Stored.renderContent content) :: Stored.renderSlots rest

def Stored.renderContent : Content Stored → String
  | .single a => a.render
  | .repeated items => listText (Stored.renderItems items)

def Stored.renderItems : List Stored → List String
  | [] => []
  | a :: rest => a.render :: Stored.renderItems rest

end

mutual

def Value.render (s : Store) : Value → String
  | .null => "null"
  | .bool b => toString b
  | .int n => toString n.toInt
  | .long n => toString n.toInt
  | .float x => valueLayout.text x
  | .double x => valueLayout.text x
  | .ref id object => object.render s id

def Object.render (s : Store) (id : ObjectId) : Object → String
  | .text t => Text.quoted t
  | .byteString b => bytesText b
  | .byteArray b => bytesText b
  | .codec => "base64"
  | .wrapper content => content.render s
  | .boxed b => b.render s
  | .message data => Stored.renderRecord data
  | .builder typeName => "builder of " ++ Stored.renderRecord (s.builderData id typeName)
  | .enumConst enum number => enum ++ "#" ++ toString number.toInt
  | .oneofCase key number => key ++ "#" ++ toString number.toInt
  | .extension owner name => owner ++ "." ++ name
  | .list => "list of " ++ toString (s.listItems id).length
  | .provider value => "provider(" ++ value.render s ++ ")"

def Boxed.render (s : Store) : Boxed → String
  | .bool b => toString b
  | .int n => toString n.toInt
  | .float x => valueLayout.text x
  | .text t => Text.quoted t
  | .proto value => value.render s
  | .list items => listText (Value.renderItems s items)
  | .sanitized kind content => kind.render ++ "(" ++ Text.quoted content ++ ")"

def Value.renderItems (s : Store) : List Value → List String
  | [] => []
  | v :: rest => v.render s :: Value.renderItems s rest

end

end MessageCode
