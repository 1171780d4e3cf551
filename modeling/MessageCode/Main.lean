import MessageCode.Command.Arguments

/-!
The program: reads the schema file, runs the command and writes what it gives.
-/

namespace MessageCode.Command

def readFile? (path : String) : IO (Option ByteArray) := do
  try
    return some (← IO.FS.readBinFile path)
  catch _ =>
    return none

/-- Bounds the rounds of a loop; lists are far shorter. -/
def loopFuel : Nat := 1000000000000000000

def usage : String :=
  "usage: check SCHEMA\n"
    ++ "       access SCHEMA MESSAGE FIELD [--boxed] [--json]\n"
    ++ "       construct SCHEMA MESSAGE [--arg FIELD=LITERAL]... [--run] [--json]"

def runWords (command : String) (words : List String) : IO UInt32 := do
  match ofWords? command words with
  | some (path, c) =>
      let (error, text) := c.run loopFuel (← readFile? path)
      IO.print text
      match error with
      | some e =>
          IO.eprintln ("error: " ++ e.message)
          return 1
      | none => return 0
  | none =>
      IO.eprintln usage
      return 2

end MessageCode.Command

def main (words : List String) : IO UInt32 :=
  match words with
  | command :: rest => MessageCode.Command.runWords command rest
  | [] => MessageCode.Command.runWords "" []
