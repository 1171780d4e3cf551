import MessageCode.Numeric.Binary

/-!
TOML values. Tables keep the order in which their keys were written.
-/

namespace MessageCode

inductive Toml where
  | text (s : String)
  | integer (n : Int64)
  | float (x : Numeric.Double)
  | bool (b : Bool)
  /-- A date, a time or both, in normal form. -/
  | dateTime (s : String)
  | array (items : List Toml)
  | table (entries : List (String × Toml))

namespace Toml

abbrev Reader (α : Type) := List Char → Option (α × List Char)

/-- The key of a table that stands for a date or a time. -/
def dateTimeKey : String := "$__toml_private_datetime"

def lookup (key : String) (entries : List (String × Toml)) : Option Toml :=
  (entries.find? fun entry => entry.1 == key).map (·.2)

end Toml

end MessageCode
