import MessageCode.Code.Interchange

/-!
The JSON form of code loses nothing. Every type, every constant and every instruction is read back from
its form, and so is a sequence, when its real constants are finite and its locals have numbers of sixteen
bits.
-/

namespace MessageCode

namespace Json

variable {α : Type} {encode : α → Json} {decode : Json → Option α}

-- The two sides are told apart by the case of the member, and not by unfolding what is read from it.
@[simp] theorem required?_some (j : Json) : required? decode (some j) = decode j := by
  cases j <;> rfl

theorem list?_ofList {as : List α} (h : ∀ a ∈ as, decode (encode a) = some a) :
    list? decode (ofList encode as) = some as := by
  change (as.map encode).mapM decode = some as
  induction as with
  | nil => rfl
  | cons a as ih =>
      rw [List.map_cons, List.mapM_cons, h a List.mem_cons_self,
        ih fun b mem => h b (List.mem_cons_of_mem _ mem)]
      rfl

/-- A value that may be absent is read back when the value is and has another form than null. -/
theorem option?_ofOption {a? : Option α} (h : ∀ a, decode (encode a) = some a)
    (present : ∀ a, encode a ≠ .null) : option? decode (ofOption encode a?) = some a? := by
  cases a? with
  | none => rfl
  | some a =>
      have read : option? decode (encode a) = (decode (encode a)).map some := by
        unfold option?
        split
        · rename_i null
          exact absurd null (present a)
        · rfl
      change option? decode (encode a) = _
      rw [read, h a]
      rfl

theorem int32?_ofInt32 (n : Int32) : (integer n.toInt).int32? = some n := by
  change Numeric.int32? n.toInt = some n
  unfold Numeric.int32?
  rw [if_pos ⟨Int32.minValue_le_toInt n, Int32.toInt_le n⟩, Int32.ofInt_toInt]

theorem int64?_ofInt64 (n : Int64) : (integer n.toInt).int64? = some n := by
  change Numeric.int64? n.toInt = some n
  unfold Numeric.int64?
  rw [if_pos ⟨Int64.minValue_le_toInt n, Int64.toInt_le n⟩, Int64.ofInt_toInt]

theorem localIndex?_ofNat {n : Nat} (small : n < UInt16.size) : (integer n).localIndex? = some n := by
  have within : (0 : Int) ≤ n ∧ (n : Int) < UInt16.size := ⟨Int.natCast_nonneg n, Int.ofNat_lt.mpr small⟩
  have number : (integer n).integer? = some (n : Int) := rfl
  unfold localIndex?
  rw [number, Option.bind_eq_bind, Option.bind_some, if_pos within, Int.toNat_natCast]

end Json

mutual

theorem RefType.ofJson?_toJson (r : RefType) : RefType.ofJson? r.toJson = some r := by
  cases r with
  | boxed kind => cases kind <;> rfl
  | wrapper content =>
      have read := NativeType.ofJson?_toJson content
      simp [RefType.toJson, Json.tagged, RefType.ofJson?, read]
  | _ => rfl

theorem NativeType.ofJson?_toJson (t : NativeType) : NativeType.ofJson? t.toJson = some t := by
  cases t with
  | ref r =>
      have read := RefType.ofJson?_toJson r
      simp [NativeType.toJson, Json.tagged, NativeType.ofJson?, read]
  | _ => rfl

end

theorem NativeType.toJson_ne_null (t : NativeType) : t.toJson ≠ .null := by
  cases t <;> simp [NativeType.toJson, Json.tagged]

/-- The types of a list are read back. -/
theorem NativeType.list?_toJson (types : List NativeType) :
    Json.list? NativeType.ofJson? (.ofList NativeType.toJson types) = some types :=
  Json.list?_ofList fun t _ => t.ofJson?_toJson

theorem NativeType.option?_toJson (type? : Option NativeType) :
    Json.option? NativeType.ofJson? (.ofOption NativeType.toJson type?) = some type? :=
  Json.option?_ofOption NativeType.ofJson?_toJson NativeType.toJson_ne_null

theorem Method.ofJson?_toJson (m : Method) : Method.ofJson? m.toJson = some m := by
  have kind : CallKind.ofWord? m.kind.toWord = some m.kind := by cases m.kind <;> rfl
  simp [Method.toJson, Method.ofJson?, Json.fields?, Json.keyed?, Json.member?,
    Json.optional?, Json.text?, Json.word?, Json.untag?, Json.bool?, kind, RefType.ofJson?_toJson,
    NativeType.list?_toJson, NativeType.option?_toJson]

theorem StaticField.ofJson?_toJson (f : StaticField) : StaticField.ofJson? f.toJson = some f := by
  simp [StaticField.toJson, StaticField.ofJson?, Json.fields?, Json.keyed?, Json.member?,
    Json.text?, RefType.ofJson?_toJson, NativeType.ofJson?_toJson]

theorem Constant.ofJson?_toJson {c : Constant} (finite : ∀ x, c = .double x → x.isFinite = true) :
    Constant.ofJson? c.toJson = some c := by
  cases c with
  | int n =>
      have read := Json.int32?_ofInt32 n
      simp [Constant.toJson, Json.tagged, Constant.ofJson?, read]
  | long n =>
      have read := Json.int64?_ofInt64 n
      simp [Constant.toJson, Json.tagged, Constant.ofJson?, read]
  | double x => simp [Constant.toJson, Json.tagged, Constant.ofJson?, finite x rfl, Json.real?]
  | _ => rfl

theorem Local.ofJson?_toJson {l : Local} (small : l.index < UInt16.size) :
    Local.ofJson? l.toJson = some l := by
  simp [Local.toJson, Local.ofJson?, Json.fields?, Json.keyed?, Json.member?,
    Json.localIndex?_ofNat small, NativeType.ofJson?_toJson]

theorem Declaration.ofJson?_toJson {d : Declaration} (small : d.slot.index < UInt16.size) :
    Declaration.ofJson? d.toJson = some d := by
  simp [Declaration.toJson, Declaration.ofJson?, Json.fields?, Json.keyed?, Json.member?,
    Json.text?, Local.ofJson?_toJson small]

theorem Test.ofJson?_toWord (test : Test) : Test.ofJson? (.text test.toWord) = some test := by
  cases test <;> rfl

/-- The constant in the instruction is no real, or a finite one, and its locals have numbers of sixteen
bits. -/
def Op.isWritable : Op → Bool
  | .push (.double x) => x.isFinite
  | .load l | .store l | .increment l _ => l.index < UInt16.size
  | .scope locals _ => locals.all fun d => d.slot.index < UInt16.size
  | _ => true

mutual

/-- An instruction is read back with any fuel that reaches through its form. -/
theorem Op.ofJsonWithin?_toJson (op : Op) {fuel : Nat} (enough : op.toJson.height ≤ fuel)
    (writable : op.any (fun op => !op.isWritable) = false) :
    Op.ofJsonWithin? fuel op.toJson = some op := by
  obtain _ | fuel := fuel
  · cases op <;> simp [Op.toJson, Json.tagged, Json.height] at enough
  cases op with
  | dup | pop | swap => rfl
  | push c =>
      have read : Constant.ofJson? c.toJson = some c := by
        apply Constant.ofJson?_toJson
        rintro x rfl
        simpa [Op.any, Op.isWritable] using writable
      simp [Op.toJson, Json.tagged, Op.ofJsonWithin?, Op.ofSimple?, read]
  | load l | store l =>
      have read : Local.ofJson? l.toJson = some l := by
        apply Local.ofJson?_toJson
        simpa [Op.any, Op.isWritable] using writable
      simp [Op.toJson, Json.tagged, Op.ofJsonWithin?, Op.ofSimple?, read]
  | increment l delta =>
      have read : Local.ofJson? l.toJson = some l := by
        apply Local.ofJson?_toJson
        simpa [Op.any, Op.isWritable] using writable
      simp [Op.toJson, Json.tagged, Op.ofJsonWithin?, Op.ofSimple?, Json.keyed?, Json.member?, read,
        Json.int32?_ofInt32]
  | invoke m | suspend m =>
      simp [Op.toJson, Json.tagged, Op.ofJsonWithin?, Op.ofSimple?, Method.ofJson?_toJson]
  | getStatic f =>
      simp [Op.toJson, Json.tagged, Op.ofJsonWithin?, Op.ofSimple?, StaticField.ofJson?_toJson]
  | convert source target =>
      simp [Op.toJson, Json.tagged, Op.ofJsonWithin?, Op.ofSimple?, Json.keyed?, Json.member?,
        NativeType.ofJson?_toJson]
  | checkCast type =>
      simp [Op.toJson, Json.tagged, Op.ofJsonWithin?, Op.ofSimple?, RefType.ofJson?_toJson]
  | box type =>
      simp [Op.toJson, Json.tagged, Op.ofJsonWithin?, Op.ofSimple?, NativeType.ofJson?_toJson]
  | branch test thenOps elseOps =>
      simp only [Op.any, Bool.or_eq_false_iff] at writable
      simp only [Op.toJson, Json.tagged, Json.height, Json.heightOfMembers] at enough
      have thenRead := Op.list?_toJsonAll thenOps fuel (by omega) writable.1.2
      have elseRead := Op.list?_toJsonAll elseOps fuel (by omega) writable.2
      simp [Op.toJson, Json.tagged, Op.ofJsonWithin?, Json.fields?, Json.keyed?, Json.member?,
        Test.ofJson?_toWord, thenRead, elseRead]
  | loop condition test body =>
      simp only [Op.any, Bool.or_eq_false_iff] at writable
      simp only [Op.toJson, Json.tagged, Json.height, Json.heightOfMembers] at enough
      have conditionRead := Op.list?_toJsonAll condition fuel (by omega) writable.1.2
      have bodyRead := Op.list?_toJsonAll body fuel (by omega) writable.2
      simp [Op.toJson, Json.tagged, Op.ofJsonWithin?, Json.fields?, Json.keyed?, Json.member?,
        Test.ofJson?_toWord, conditionRead, bodyRead]
  | scope locals body =>
      simp only [Op.any, Bool.or_eq_false_iff] at writable
      simp only [Op.toJson, Json.tagged, Json.height, Json.heightOfMembers] at enough
      have localsRead : Json.list? Declaration.ofJson? (.ofList Declaration.toJson locals) = some locals := by
        apply Json.list?_ofList
        intro d mem
        apply Declaration.ofJson?_toJson
        have small := writable.1
        simp only [Op.isWritable, Bool.not_eq_false', List.all_eq_true] at small
        simpa using small d mem
      have bodyRead := Op.list?_toJsonAll body fuel (by omega) writable.2
      simp [Op.toJson, Json.tagged, Op.ofJsonWithin?, Json.fields?, Json.keyed?, Json.member?, localsRead,
        bodyRead]

theorem Op.list?_toJsonAll (ops : List Op) (fuel : Nat)
    (enough : Json.heightOfItems (Op.toJsonAll ops) ≤ fuel)
    (writable : Op.anyOf (fun op => !op.isWritable) ops = false) :
    Json.list? (Op.ofJsonWithin? fuel) (.array (Op.toJsonAll ops)) = some ops := by
  change (Op.toJsonAll ops).mapM (Op.ofJsonWithin? fuel) = some ops
  cases ops with
  | nil => rfl
  | cons op rest =>
      rw [Op.toJsonAll, Json.heightOfItems] at enough
      rw [Op.anyOf, Bool.or_eq_false_iff] at writable
      obtain ⟨enough, enough'⟩ := Nat.max_le.mp enough
      have first := op.ofJsonWithin?_toJson enough writable.1
      have others : (Op.toJsonAll rest).mapM (Op.ofJsonWithin? fuel) = some rest :=
        Op.list?_toJsonAll rest fuel enough' writable.2
      rw [Op.toJsonAll, List.mapM_cons, first, others]
      rfl

end

theorem Op.toJsonAll_eq_map (ops : List Op) : Op.toJsonAll ops = ops.map Op.toJson := by
  induction ops with
  | nil => rfl
  | cons op ops ih => rw [Op.toJsonAll, ih, List.map_cons]

theorem Op.anyOf_eq_false_iff {p : Op → Bool} {ops : List Op} :
    Op.anyOf p ops = false ↔ ∀ op ∈ ops, op.any p = false := by
  induction ops with
  | nil => simp [Op.anyOf]
  | cons op ops ih => simp [Op.anyOf, ih]

/-- The sequence has a JSON form of its own: all its real constants are finite, and its locals and their
count have numbers of sixteen bits. -/
structure Sequence.Writable (s : Sequence) : Prop where
  ops : s.any (fun op => !op.isWritable) = false
  maxLocals : s.maxLocals < UInt16.size

theorem Sequence.ofJson?_toJson {s : Sequence} (h : s.Writable) : Sequence.ofJson? s.toJson = some s := by
  have ops : Json.list? Op.ofJson? (.array (Op.toJsonAll s.ops)) = some s.ops := by
    rw [Op.toJsonAll_eq_map]
    apply Json.list?_ofList
    intro op mem
    exact op.ofJsonWithin?_toJson (Nat.le_refl _) (Op.anyOf_eq_false_iff.mp h.ops op mem)
  simp [Sequence.toJson, Sequence.ofJson?, Json.fields?, Json.keyed?, Json.member?, Json.optional?,
    Json.bool?, ops, NativeType.list?_toJson, NativeType.option?_toJson, Json.localIndex?_ofNat h.maxLocals]

/-- The JSON form loses nothing: code is read back from it as it was, and no other code has the same
form. -/
theorem Sequence.json_lossless {s : Sequence} (h : s.Writable) :
    Sequence.ofJson? s.toJson = some s ∧ ∀ other : Sequence, other.Writable → other.toJson = s.toJson →
      other = s := by
  refine ⟨ofJson?_toJson h, fun other h' same => ?_⟩
  have read := ofJson?_toJson h'
  rw [same, ofJson?_toJson h] at read
  exact (Option.some.inj read).symm

/-- Minus a half, and a loop that counts a local down to zero. -/
def Sequence.countdown : Sequence where
  ops :=
    [.push (.double ⟨0xbfe0000000000000⟩),
      .scope [⟨"rest", ⟨65534, .int⟩⟩]
        [.push (.int 5), .store ⟨65534, .int⟩,
          .loop [.push (.int 0), .load ⟨65534, .int⟩] .intLt
            [.branch .isTrue [.increment ⟨65534, .int⟩ (-1)] [.push .null, .pop]]]]
  inputs := [.bool, .ref (.wrapper (.ref (.wrapper .long)))]
  output := none
  nonNull := false
  maxLocals := 65535

/-- The code of the countdown is read back from its JSON form. -/
theorem Sequence.countdown_lossless : countdown.Writable ∧ Sequence.ofJson? countdown.toJson = some countdown ∧
    ∀ other : Sequence, other.Writable → other.toJson = countdown.toJson → other = countdown := by
  have writable : countdown.Writable := ⟨by decide, by decide⟩
  exact ⟨writable, Sequence.json_lossless writable⟩

end MessageCode
