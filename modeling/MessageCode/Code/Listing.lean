import MessageCode.Code.Sequence
import MessageCode.Numeric.Decimal
import MessageCode.Text.Quoted

/-!
Listings: the flat form of structured code, with jumps between labels, and its text. Labels are
numbered in the order in which their branches and loops begin.
-/

namespace MessageCode

inductive Line where
  /-- An instruction without regions. -/
  | plain (op : Op)
  /-- Consumes the operands of the test and jumps when it holds. -/
  | jumpIf (test : Test) (label : Nat)
  /-- Consumes the operands of the test and jumps when it fails. -/
  | jumpUnless (test : Test) (label : Nat)
  | jump (label : Nat)
  /-- The position a label stands for. -/
  | mark (label : Nat)
  | declare (declaration : Declaration)
  | release (declaration : Declaration)

mutual

/-- The lines of an instruction, given the first free label; also the next one. -/
def Op.flatten (free : Nat) : Op → List Line × Nat
  | .branch test thenOps elseOps =>
      let (elseLines, free') := Op.flattenAll (free + 2) elseOps
      let (thenLines, free'') := Op.flattenAll free' thenOps
      (.jumpIf test free :: elseLines ++ .jump (free + 1) :: .mark free :: thenLines
        ++ [.mark (free + 1)], free'')
  | .loop condition test body =>
      let (conditionLines, free') := Op.flattenAll (free + 2) condition
      let (bodyLines, free'') := Op.flattenAll free' body
      (.mark free :: conditionLines ++ .jumpUnless test (free + 1) :: bodyLines
        ++ [.jump free, .mark (free + 1)], free'')
  | .scope locals body =>
      let (bodyLines, free') := Op.flattenAll free body
      (locals.map .declare ++ bodyLines ++ locals.map .release, free')
  | op => ([.plain op], free)

def Op.flattenAll (free : Nat) : List Op → List Line × Nat
  | [] => ([], free)
  | op :: rest =>
      let (lines, free') := op.flatten free
      let (more, free'') := Op.flattenAll free' rest
      (lines ++ more, free'')

end

/-- Reals in listings keep a decimal; the exponent form starts at `1e16` and below `1e-4`. -/
def listingLayout : Numeric.Layout :=
  { positional := some (-3, 16)
    keepsPoint := true
    plus := ""
    tie := .away
    nan := "NaN"
    infinity := "inf" }

def Constant.render : Constant → String
  | .null => "Null"
  | .bool b => "Bool(" ++ toString b ++ ")"
  | .int n => "Int(" ++ toString n.toInt ++ ")"
  | .long n => "Long(" ++ toString n.toInt ++ ")"
  | .double x => "Double(" ++ listingLayout.text x ++ ")"
  | .text s => "Text(" ++ Text.quoted s ++ ")"

/-- The text of an instruction without regions; one with regions has none of its own. -/
def Op.render : Op → String
  | .push c => "push " ++ c.render
  | .dup => "dup"
  | .pop => "pop"
  | .swap => "swap"
  | .load l => "load " ++ toString l.index
  | .store l => "store " ++ toString l.index
  | .increment l delta => "iinc " ++ toString l.index ++ " " ++ toString delta.toInt
  | .invoke m => (if m.isStatic then "invokestatic " else "invokevirtual ") ++ m.render
  | .suspend m => "suspend " ++ m.render
  | .getStatic f => "getstatic " ++ f.render
  | .convert source target => "convert " ++ source.render ++ " -> " ++ target.render
  | .checkCast type => "checkcast " ++ type.render
  | .box type => "valueof " ++ type.render
  | .branch .. | .loop .. | .scope .. => ""

def labelText (label : Nat) : String := "L" ++ toString label

def Line.render : Line → String
  | .plain op => "    " ++ op.render
  | .jumpIf test label => "    " ++ test.mnemonic ++ " " ++ labelText label
  | .jumpUnless test label => "    " ++ test.inverseMnemonic ++ " " ++ labelText label
  | .jump label => "    goto " ++ labelText label
  | .mark label => labelText label ++ ":"
  | .declare d =>
      "    .local " ++ toString d.slot.index ++ " " ++ d.name ++ " : " ++ d.slot.type.render
  | .release d => "    .release " ++ toString d.slot.index

namespace Sequence

def lines (s : Sequence) : List Line := (Op.flattenAll 0 s.ops).1

def outputText (s : Sequence) : String :=
  match s.output with
  | some type => if s.nonNull then type.render ++ " (non-null)" else type.render
  | none => "void"

/-- A header with the types, and the lines; each ends with a line break. -/
def listing (s : Sequence) : String :=
  "; (" ++ NativeType.renderList s.inputs ++ ") -> " ++ s.outputText ++ "\n"
    ++ String.join (s.lines.map fun line => line.render ++ "\n")

end Sequence

end MessageCode
