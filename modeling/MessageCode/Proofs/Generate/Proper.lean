import MessageCode.Generate.TypedValue
import MessageCode.Proofs.Generate.Turns
import MessageCode.Proofs.Machine.Mirror

/-!
Proper code. It is finished, and on every path it stores to each of its locals before it uses the value, so
that among other code it goes as it goes alone.
-/

namespace MessageCode

/-- Finished code that stores to each local before it uses its value. -/
def Sequence.IsProper (code : Sequence) : Prop :=
  ∃ use record, Finished use code record ∧ StoresFirst code.maxLocals record

theorem Finished.isProper {code : Sequence} {record : List Recorded} (h : Finished .visible code record)
    (assigned : UsesAssigned record) : code.IsProper :=
  ⟨.visible, record, h, h.storesFirst assigned⟩

namespace Assembly

/-- On no path does what is written so far use a local. -/
def Quiet (a : Assembly) : Prop :=
  ∃ record, Assembled .visible (.start a.inputs) [] record a [] ∧ ∀ trace, Path record trace → trace = []

/-- Nothing but some instructions was written, and they left a stack. -/
def plain (ops : List Op) (stack : List NativeType) : Assembly := (start []).put ops stack

variable {a a' : Assembly}

theorem plain_pushed (ops more : List Op) (stack stack' : List NativeType) :
    plain (ops ++ more) stack' = (plain ops stack).put more stack' := by
  simp [plain]

namespace Quiet

theorem start (inputs : List NativeType) : (Assembly.start inputs).Quiet :=
  ⟨[], .start _ _, fun _ path => Path.nil_iff.mp path⟩

theorem nothing : (plain [] []).Quiet := start []

theorem call {d : Directive} (h : a.Quiet) (silent : d.event? = none)
    (written : (d.write : Assembler EmitError Unit).run a = (.ok (), a')) : a'.Quiet := by
  obtain ⟨record, assembled, quiet⟩ := h
  have inputs : a'.inputs = a.inputs := by
    rcases Directive.write_eq_ok written with ⟨rfl, -⟩ | ⟨op, stack, rfl, -⟩
    · rfl
    · rfl
  refine ⟨_, inputs ▸ assembled.call d (LocalUse.allows_of_none silent) written, fun trace path => ?_⟩
  obtain ⟨first, second, rfl, before, last⟩ := path.of_append
  rw [quiet first before, Directive.event_of_path written last, silent]
  rfl

section

variable {ops : List Op} {stack : List NativeType}

theorem push (h : (plain ops stack).Quiet) (c : Constant) :
    (plain (ops ++ [.push c]) (c.type :: stack)).Quiet := by
  rw [plain_pushed _ _ stack]
  exact h.call (d := .push c) rfl rfl

theorem invoke {m : Method} {t : NativeType} (found : List NativeType)
    (h : (plain ops (found ++ stack)).Quiet) (returns : m.returns = some t) (fits : Fits found m.operands) :
    (plain (ops ++ [.invoke m]) (t :: stack)).Quiet := by
  rw [plain_pushed _ _ (found ++ stack)]
  exact h.call (d := .invoke m) rfl (Method.run_invoke returns rfl fits)

theorem dup {t : NativeType} (h : (plain ops (t :: stack)).Quiet) :
    (plain (ops ++ [.dup]) (t :: t :: stack)).Quiet := by
  rw [plain_pushed _ _ (t :: stack)]
  exact h.call (d := .dup) rfl rfl

theorem pop {t : NativeType} (h : (plain ops (t :: stack)).Quiet) :
    (plain (ops ++ [.pop]) stack).Quiet := by
  rw [plain_pushed _ _ (t :: stack)]
  exact h.call (d := .pop) rfl rfl

end

theorem isProper (h : a.Quiet) {nonNull : Bool} {code : Sequence}
    (finished : a.finishExpression nonNull = .ok code) : code.IsProper := by
  obtain ⟨record, assembled, quiet⟩ := h
  have finishes : a.Finishes code := .inl ⟨nonNull, finished⟩
  rw [← finishes.eq.2.1] at assembled
  refine Finished.isProper ⟨a, [], assembled, finishes⟩ fun trace path => ?_
  rw [quiet trace path]
  trivial

end Quiet

end Assembly

theorem Sequence.constant_isProper (c : Constant) : (constant c).IsProper := by
  have pushed := Assembly.Quiet.nothing.push c
  exact @Assembly.Quiet.isProper _ pushed (c ≠ .null) _ rfl

end MessageCode
