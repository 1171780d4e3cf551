import MessageCode.Command.Basic

/-!
The command line: a command, the path of its schema file, and its options, which may stand anywhere
after the command.
-/

namespace MessageCode.Command

structure Words where
  /-- Words that are no options, in order. -/
  plain : List String
  flags : List String
  /-- The values of the option for arguments. -/
  arguments : List String

namespace Words

def addPlain (word : String) (w : Words) : Words := { w with plain := word :: w.plain }

def addFlag (flag : String) (w : Words) : Words := { w with flags := flag :: w.flags }

def addArgument (value : String) (w : Words) : Words :=
  { w with arguments := value :: w.arguments }

/-- Sorts the words; none when an option lacks its value. -/
def ofList? : List String → Option Words
  | [] => some { plain := [], flags := [], arguments := [] }
  | [word] =>
      if word = "-a" ∨ word = "--arg" then none
      else (ofList? []).map (classify word)
  | word :: value :: rest =>
      if word = "-a" ∨ word = "--arg" then (ofList? rest).map (addArgument value)
      else (ofList? (value :: rest)).map (classify word)
where
  classify (word : String) (w : Words) : Words :=
    if word.startsWith "--arg=" then w.addArgument (String.ofList (word.toList.drop 6))
    else if word.startsWith "--" then w.addFlag word
    else w.addPlain word

end Words

def ofWords? (command : String) (words : List String) : Option (String × Command) := do
  let w ← Words.ofList? words
  let allowed (flags : List String) : Bool := w.flags.all fun flag => flags.contains flag
  let has (flag : String) : Bool := w.flags.contains flag
  match command, w.plain with
  | "check", [path] =>
      if allowed [] && w.arguments.isEmpty then some (path, .check) else none
  | "access", [path, message, field] =>
      if allowed ["--boxed", "--json"] && w.arguments.isEmpty then
        some (path, .access message field (has "--boxed") (has "--json"))
      else none
  | "construct", [path, message] =>
      if allowed ["--run", "--json"] then
        some (path, .construct message w.arguments (has "--run") (has "--json"))
      else none
  | _, _ => none

end MessageCode.Command
