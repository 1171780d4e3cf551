import MessageCode.Command.Basic
import MessageCode.Proofs.Fallible
import MessageCode.Proofs.Generate.Narrowed
import MessageCode.Proofs.Generate.Written

/-!
Literals of the command line. A literal that is accepted for a field is null, or the code for it offers
the values that are written in it; a field refuses a value for what its literal says.
-/

namespace MessageCode

namespace Literal

/-- The literal of a single value reads as the value, for a logical type. -/
inductive Reads : ValueType → List Char → LogicalValue → Prop
  | bool {literal b} : Text.bool? (String.ofList literal) = some b → Reads .bool literal (.bool b)
  | int {literal n} : Text.int64? (String.ofList literal) = some n → Reads .int literal (.int n)
  | float {literal x} : Text.double? (String.ofList literal) = some x → Reads .float literal (.float x)
  | text {literal} : Reads .text literal (.text (String.ofList (unquote literal)))
  | sanitized {literal kind} :
      Reads (.sanitized kind) literal (.sanitized kind (String.ofList (unquote literal)))

def listed (literal : List Char) : List (List Char) :=
  let inner := Text.trim ((between? '[' ']' literal).getD literal)
  if inner.isEmpty then [] else (items inner).map Text.trim

/-- The literals of single values in a literal for the field: the whole one, or the items of a list. -/
def scalars (f : Field) (literal : String) : List (List Char) :=
  if f.isRepeated then listed literal.toList else [literal.toList]

/-- The field refuses what the literal of a single value says, with the fault: a number that its legacy
enum does not declare, a text that is no 64-bit numeral where it has to be one, or a text that is no
base64. -/
inductive Refused (s : Schema) (f : Field) (literal : List Char) : Fault → Prop
  | undeclared {n c} : Text.int64? (String.ofList literal) = some n → f.Lacks s n.toInt32 →
      Coercion.of s f = .ok c → Refused s f literal (.nullPointer (Filling.method f c).render)
  | numeral {t} : f.kind = .int64 → f.numericAsText = true → t = String.ofList (unquote literal) →
      Text.int64? t = none → Refused s f literal (.numberFormat t)
  | base64 {t} : f.kind = .bytes → t = String.ofList (unquote literal) → Text.Base64.decode? t = none →
      Refused s f literal (.illegalArgument ("bad base64 " ++ Text.quoted t))

section

variable {s : Schema} {message field literal : String} {f : Field} {c : Coercion} {type : ValueType}
  {item : List Char} {l : LogicalValue} {v : TypedValue} {fault : Fault}

theorem Reads.type_eq (h : Reads type item l) : type = l.type := by
  cases h <;> rfl

/-- A field refuses a value for one of three reasons. -/
theorem Reads.refused (h : Reads c.logicalType item l) (coercion : Coercion.of s f = .ok c)
    (refused : f.refusal? s c l = some fault) : Refused s f item fault := by
  have meets := (Coercion.covers_of_eq_ok coercion).meets h.type_eq
  cases meets.refusal?_eq_some_iff.mp refused with
  | numeral kind marked unread =>
      cases h
      exact .numeral kind marked rfl unread
  | base64 kind unread =>
      cases h
      exact .base64 kind rfl unread
  | @undeclared name e n kind found legacy unknown =>
      cases h with
      | int read =>
          have undeclared := EnumType.valueByNumber?_eq_none_iff.mp unknown
          exact .undeclared read ⟨legacy, name, e, kind, found, undeclared⟩ coercion

theorem Refused.refusal?_eq (h : Refused s f item fault) (reads : Reads c.logicalType item l)
    (coercion : Coercion.of s f = .ok c) : f.refusal? s c l = some fault := by
  have covers := Coercion.covers_of_eq_ok coercion
  have meets := covers.meets reads.type_eq
  cases h with
  | @undeclared n c' read lacks coercion' =>
      cases coercion.symm.trans coercion'
      rw [← lacks.refusal?_eq covers]
      obtain ⟨legacy, name, e, kind, -⟩ := lacks
      cases meets with
      | legacyEnum =>
          cases reads with
          | int read' =>
              cases read.symm.trans read'
              rfl
      | modernEnum kind' modern =>
          rw [legacy] at modern
          cases modern
      | _ kind' => simp [kind] at kind'
  | numeral kind marked same unread =>
      rw [meets.refusal?_eq_some_iff]
      subst same
      cases meets with
      | int64AsText =>
          cases reads
          exact .numeral kind marked unread
      | int64 kind' unmarked =>
          rw [marked] at unmarked
          cases unmarked
      | _ kind' => simp [kind] at kind'
  | base64 kind same unread =>
      rw [meets.refusal?_eq_some_iff]
      subst same
      cases meets with
      | bytes =>
          cases reads
          exact .base64 kind unread
      | _ kind' => simp [kind] at kind'

theorem exists_of_read {α : Type} {value : Option α} {ofValue : α → TypedValue} {e : LiteralError}
    (parsed : (match value with
      | some a => .ok (ofValue a)
      | none => .error e) = Except.ok v) : ∃ a, value = some a ∧ v = ofValue a := by
  cases value with
  | none => cases parsed
  | some a =>
      cases parsed
      exact ⟨a, rfl, rfl⟩

theorem Reads.of_parseScalar (parsed : parseScalar type item = .ok v) :
    ∃ l, Reads type item l ∧ ∃ boxed, l.Written boxed v := by
  unfold parseScalar at parsed
  cases type with
  | bool =>
      obtain ⟨b, read, rfl⟩ := exists_of_read parsed
      exact ⟨_, .bool read, false, .constant rfl⟩
  | int =>
      obtain ⟨n, read, rfl⟩ := exists_of_read parsed
      exact ⟨_, .int read, false, .constant rfl⟩
  | float =>
      obtain ⟨x, read, rfl⟩ := exists_of_read parsed
      exact ⟨_, .float read, false, .constant rfl⟩
  | text =>
      cases parsed
      exact ⟨_, .text, false, .constant rfl⟩
  | sanitized kind =>
      cases parsed
      exact ⟨_, .sanitized, true, .sanitized rfl⟩
  | _ => cases parsed

theorem ok_of_mapError {ε : Type} {x : Except ε TypedValue} {wrap : ε → LiteralError}
    (parsed : x.mapError wrap = .ok v) : x = .ok v := by
  cases x with
  | error e => cases parsed
  | ok w =>
      cases parsed
      rfl

theorem Reads.of_parseList {literal : List Char} (parsed : parseList type literal = .ok v) :
    ∃ values, List.Forall₂ (Reads type) (listed literal) values ∧ LogicalValue.Listed values v ∧
      (v.type = .list type ∨ v.type = .emptyList ∧ values = []) := by
  unfold parseList at parsed
  unfold listed
  dsimp only at parsed ⊢
  split at parsed
  · rename_i none
    have made := ok_of_mapError parsed
    obtain ⟨listed, same⟩ := LogicalValue.Listed.of_assemble .nil type made
    rw [if_pos none]
    exact ⟨[], .nil, listed, .inr ⟨same, rfl⟩⟩
  · rename_i some
    obtain ⟨scalars, each, parsed⟩ := Fallible.bind_eq_ok.mp parsed
    obtain ⟨values, reads, written⟩ := Paired.exists_between (Fallible.mapM_eq_ok.mp each)
      fun item v parsed => of_parseScalar parsed
    obtain ⟨listed, same⟩ := LogicalValue.Listed.of_assemble written _ (ok_of_mapError parsed)
    rw [if_neg some]
    exact ⟨values, List.forall₂_map_left_iff.mpr reads, listed, .inl same⟩

/-- Any other literal than `null` is read by the label of its field and for its logical type. -/
theorem parse_eq (named : s.field? message field = some f) (coercion : Coercion.of s f = .ok c)
    (present : literal ≠ "null") : parse s message field literal =
      if f.isRepeated then parseList c.logicalType literal.toList
      else parseScalar c.logicalType literal.toList := by
  unfold parse
  rw [named]
  simp only [if_neg present]
  cases many : f.isRepeated with
  | true =>
      simp [Shape.of_repeated coercion many, Except.mapError, bind, Except.bind, Shape.coercion]
  | false =>
      cases extension : f.isExtension with
      | true =>
          obtain ⟨presence, shape⟩ := Shape.exists_of_extension coercion many extension
          simp [shape, Except.mapError, bind, Except.bind, Shape.coercion]
      | false =>
          obtain ⟨test, shape⟩ := Shape.exists_of_declared coercion many extension
          simp [shape, Except.mapError, bind, Except.bind, Shape.coercion]

/-- A literal that is accepted for a field is null, or the code for it offers the values in it. -/
theorem exists_of_parse (loaded : s.Loaded) {m : Message} (found : s.message? message = some m)
    (parsed : parse s message field literal = .ok v) :
    ∃ f c, s.field? message field = some f ∧ Coercion.of s f = .ok c ∧
      (literal = "null" ∧ v = .null ∨
        literal ≠ "null" ∧ ∃ values boxed, List.Forall₂ (Reads c.logicalType) (scalars f literal) values ∧
          ∀ fuel, f.Offered s fuel v boxed (· = values)) := by
  cases named : s.field? message field with
  | none =>
      rw [parse, named] at parsed
      cases parsed
  | some f =>
      obtain ⟨c, coercion⟩ := Coercion.exists_of (loaded.field found (Schema.Loaded.mem_of_field? found named))
      refine ⟨f, c, rfl, coercion, ?_⟩
      by_cases null : literal = "null"
      · rw [parse, named] at parsed
        simp only [if_pos null] at parsed
        cases parsed
        exact .inl ⟨null, rfl⟩
      · rw [parse_eq named coercion null] at parsed
        refine .inr ⟨null, ?_⟩
        have expected : ∀ c', Coercion.of s f = .ok c' → c'.logicalType = c.logicalType := by
          intro c' coercion'
          cases coercion.symm.trans coercion'
          rfl
        unfold scalars
        cases many : f.isRepeated with
        | true =>
            rw [many, if_pos rfl] at parsed
            obtain ⟨values, reads, listed, type⟩ := Reads.of_parseList parsed
            refine ⟨values, true, reads, fun fuel => .listed listed many ?_ expected type fuel⟩
            intro l mem
            obtain ⟨item, -, read⟩ := Paired.left_of_mem reads mem
            exact read.type_eq
        | false =>
            rw [many, if_neg Bool.false_ne_true] at parsed
            obtain ⟨l, read, boxed, written⟩ := Reads.of_parseScalar parsed
            refine ⟨[l], boxed, .cons read .nil, fun fuel => .written written many ?_ fuel⟩
            intro c' coercion'
            exact (expected c' coercion').trans read.type_eq

end

end Literal

end MessageCode
