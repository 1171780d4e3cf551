import MessageCode.Code.Interchange
import MessageCode.Code.Listing
import MessageCode.Command.Literal
import MessageCode.Json.Writer
import MessageCode.Machine.Run
import MessageCode.Schema.Resolve

/-!
The commands: checking a schema, printing an accessor, and printing and running a construction. A
command gives the text it writes, also up to the point where it fails.
-/

namespace MessageCode

inductive CommandError where
  | schema (e : SchemaError)
  | literal (e : LiteralError)
  | generate (e : GenerateError)
  | stop (s : Stop)

def CommandError.message : CommandError → String
  | .schema e => e.message
  | .literal e => e.message
  | .generate e => e.message
  | .stop (.fault f) => f.message
  | .stop .outOfFuel => "out of fuel"

inductive Command where
  /-- Generates every accessor and every construction without arguments. -/
  | check
  | access (message field : String) (boxed json : Bool)
  | construct (message : String) (arguments : List String) (run json : Bool)

namespace Command

/-- A part of a command: it may fail, and what was written before remains. -/
abbrev Action (α : Type) := ExceptT CommandError (StateM String) α

def write (text : String) : Action Unit := modify (· ++ text)

def ofExcept {ε α : Type} (wrap : ε → CommandError) (e : Except ε α) : Action α :=
  match e with
  | .ok a => pure a
  | .error e => throw (wrap e)

def base (message : String) (boxed : Bool) : Action TypedValue :=
  ofExcept .generate (TypedValue.input (.message message) boxed false)

def writeCode (v : TypedValue) (json : Bool) : Action Unit :=
  if json then write (v.code.toJson.pretty ++ "\n")
  else write ("; value type " ++ v.type.render ++ "\n" ++ v.code.listing)

/-- Generates the accessors of a message and gives their number. -/
def checkMessage (schema : Schema) (m : Message) : Action Nat := do
  let _ ← ofExcept .generate (generateConstruction schema .immediate m.fullName [])
  let fields := m.fields ++ schema.extensionsOf m.fullName
  fields.forM fun f => do
    let v ← base m.fullName false
    let _ ← ofExcept .generate (generateAccess schema m.fullName v f.name)
  return fields.length

def runCheck (schema : Schema) : Action Unit := do
  let counts ← schema.sortedMessages.mapM (checkMessage schema)
  write ("ok: " ++ toString counts.length ++ " messages, " ++ toString (counts.foldl (· + ·) 0)
    ++ " field accessors\n")

def runAccess (schema : Schema) (message field : String) (boxed json : Bool) : Action Unit := do
  let v ← base message boxed
  writeCode (← ofExcept .generate (generateAccess schema message v field)) json

def parseArguments (schema : Schema) (message : String) (arguments : List String) :
    Except LiteralError (List (String × TypedValue)) :=
  arguments.mapM fun argument => do
    let (field, literal) ← Literal.split argument
    return (field, ← Literal.parse schema message field literal)

/-- Runs the code of a value on a machine and gives what it leaves. -/
def evaluate (schema : Schema) (fuel : Nat) (v : TypedValue) (inputs : List Value)
    (machine : Machine) : Action (Value × Machine) := do
  match (v.code.run schema fuel inputs).run machine with
  | (.ok result, machine) => return (result.getD .null, machine)
  | (.error stop, _) => throw (.stop stop)

def readBack (schema : Schema) (fuel : Nat) (message : String) (built : Value)
    (machine : Machine) (field : String) : Action Machine := do
  let v ← base message false
  let access ← ofExcept .generate (generateAccess schema message v field)
  let (read, machine) ← evaluate schema fuel access [built] machine
  write (field ++ ": " ++ access.type.render ++ " = " ++ read.render machine.store ++ "\n")
  return machine

def runConstruct (schema : Schema) (fuel : Nat) (message : String) (arguments : List String)
    (run json : Bool) : Action Unit := do
  let values ← ofExcept .literal (parseArguments schema message arguments)
  let v ← ofExcept .generate (generateConstruction schema .immediate message values)
  writeCode v json
  if run then
    let (built, machine) ← evaluate schema fuel v [] .start
    write ("=> " ++ built.render machine.store ++ "\n")
    let _ ← (distinct (values.map (·.1))).foldlM (readBack schema fuel message built) machine

def runWith (fuel : Nat) (schema : Schema) : Command → Action Unit
  | .check => runCheck schema
  | .access message field boxed json => runAccess schema message field boxed json
  | .construct message arguments run json =>
      runConstruct schema fuel message arguments run json

/-- Runs a command on the bytes of a schema file, or on none if it cannot be read: the error if
there is one, and the text written. -/
def run (fuel : Nat) (file : Option ByteArray) (c : Command) : Option CommandError × String :=
  let action : Action Unit := do
    let bytes ← ofExcept .schema (match file with
      | some bytes => .ok bytes
      | none => .error .unreadable)
    c.runWith fuel (← ofExcept .schema (Schema.ofBytes bytes))
  match action.run "" with
  | (.ok (), text) => (none, text)
  | (.error e, text) => (some e, text)

end Command

end MessageCode
