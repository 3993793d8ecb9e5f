import Cluon.JSON.ToJSONVisitor
import Cluon.Library.Separated

/-!
# Messages as CSV

`ToCSVVisitor` keeps a header and the values of all messages it has visited. Each field that is not
masked adds a column: its name, as long as the header is not complete, and its value, both with the
delimiter behind them. The visit of a message ends the line of its values, and the first one also
that of the header.

A nested message is visited by a visitor of its own, which has the name of the field as its prefix
and no mask. What it has written is appended to the lines of the message around it.
-/

set_option autoImplicit false

namespace Cluon

open Library JSON

/-- The members of a visitor. -/
structure ToCSVVisitor where
  mask : KeyValueMap (BitVec 32) Bool
  columnPrefix : Bytes
  delimiter : Byte
  withHeader : Bool
  isNested : Bool
  fillHeader : Bool
  bufferHeader : Bytes
  bufferValues : Bytes
  deriving DecidableEq, Repr

namespace ToCSVVisitor

/-- A newly constructed visitor. -/
def init (delimiter : Byte) (withHeader : Bool) (mask : KeyValueMap (BitVec 32) Bool) :
    ToCSVVisitor :=
  ⟨mask, [], delimiter, withHeader, false, true, [], []⟩

/-- A newly constructed visitor for internal use. -/
def initNested (columnPrefix : Bytes) (delimiter : Byte) (withHeader isNested : Bool) :
    ToCSVVisitor :=
  ⟨[], columnPrefix, delimiter, withHeader, isNested, true, [], []⟩

/-- `clear()`. -/
def clear (e : ToCSVVisitor) : ToCSVVisitor :=
  { e with bufferHeader := [], bufferValues := [], fillHeader := true }

/-- `csv()`. -/
def csv (e : ToCSVVisitor) : Bytes := (if e.withHeader then e.bufferHeader else []) ++ e.bufferValues

/-- Whether a field is to be written. -/
def renders (mask : KeyValueMap (BitVec 32) Bool) (id : BitVec 32) : Bool :=
  decide (mask.count id = 0) || (mask.find id).getD false

/-- `m_prefix << (!m_prefix.empty() ? "." : "") << name`. -/
def label (columnPrefix name : Bytes) : Bytes :=
  columnPrefix ++ (if columnPrefix ≠ [] then asciiBytes "." else []) ++ name

/-- A text at the end of the header, if this is not complete, and one at the end of the values. -/
def append (e : ToCSVVisitor) (header values : Bytes) : ToCSVVisitor :=
  { e with
    bufferHeader := if e.fillHeader then e.bufferHeader ++ header else e.bufferHeader
    bufferValues := e.bufferValues ++ values }

/-- `postVisit()`. -/
def postVisit (e : ToCSVVisitor) : ToCSVVisitor :=
  let lineEnd := if e.isNested then [] else [newline]
  { e.append lineEnd lineEnd with fillHeader := false }

section Visit

variable (F : FloatFormat)

/-- The text of the value of a scalar. -/
def valueText : (t : ScalarType) → t.Value → Bytes
  | .bool, v => if v then asciiBytes "1" else asciiBytes "0"
  | .char, v => [v]
  | .int8, v => decimalInt (BitVec.toInt v)
  | .uint8, v => decimal (BitVec.toNat v)
  | .int16, v => decimalInt (BitVec.toInt v)
  | .uint16, v => decimal (BitVec.toNat v)
  | .int32, v => decimalInt (BitVec.toInt v)
  | .uint32, v => decimal (BitVec.toNat v)
  | .int64, v => decimalInt (BitVec.toInt v)
  | .uint64, v => decimal (BitVec.toNat v)
  | .float, v => F.printFloat v
  | .double, v => F.printDouble v
  | .bytes, v => quote :: encodeBase64 v ++ [quote]
  | .string, v => quote :: encodeBase64 v ++ [quote]

/-- The visitor, with its members as the state. -/
def visitor : Visitor ToCSVVisitor where
  preVisit _ e := e
  postVisit := postVisit
  visit field t v e :=
    if renders e.mask field.fieldIdentifier then
      (v, e.append (label e.columnPrefix field.name ++ [e.delimiter])
        (valueText F t v ++ [e.delimiter]))
    else (v, e)
  visitMessage field obj v e :=
    if renders e.mask field.fieldIdentifier then
      let nested := obj.accept v (initNested field.name e.delimiter e.withHeader true)
      (nested.1, e.append nested.2.bufferHeader nested.2.bufferValues)
    else (v, e)

/-- A visitor that has visited one more message. -/
def accept (T : MessageType) (m : T.Values) (e : ToCSVVisitor) : ToCSVVisitor :=
  ((T.visitable (visitor F)).accept m e).2

end Visit

end ToCSVVisitor

/-! ## Columns -/

/-- A value that is none of a nested message. -/
structure Cell where
  type : ScalarType
  value : type.Value

namespace Fields

open ToCSVVisitor

/-- The fields that are not masked, each with the names that lead to it. Those of nested messages
are not masked. -/
def paths : KeyValueMap (BitVec 32) Bool → Fields → List (List Bytes)
  | _, .nil => []
  | mask, .scalar field _ rest =>
      (if renders mask field.fieldIdentifier then [[field.name]] else []) ++ rest.paths mask
  | mask, .nested field _ inner rest =>
      (if renders mask field.fieldIdentifier then (inner.paths []).map (field.name :: ·) else []) ++
        rest.paths mask

/-- The values of the fields that are not masked. -/
def cells : KeyValueMap (BitVec 32) Bool → (fs : Fields) → fs.Values → List Cell
  | _, .nil, _ => []
  | mask, .scalar field t rest, m =>
      (if renders mask field.fieldIdentifier then [⟨t, m.1⟩] else []) ++ rest.cells mask m.2
  | mask, .nested field _ inner rest, m =>
      (if renders mask field.fieldIdentifier then inner.cells [] m.1 else []) ++ rest.cells mask m.2

theorem paths_ne_nil {mask : KeyValueMap (BitVec 32) Bool} {fs : Fields} :
    ∀ path ∈ fs.paths mask, path ≠ [] := by
  induction fs generalizing mask with
  | nil => exact nofun
  | scalar field t rest ih =>
      intro path member
      rcases List.mem_append.mp member with here | later
      · split at here
        · rw [List.mem_singleton.mp here]
          exact List.cons_ne_nil _ _
        · cases here
      · exact ih path later
  | nested field info inner rest _ ih =>
      intro path member
      rcases List.mem_append.mp member with here | later
      · split at here
        · obtain ⟨inside, -, rfl⟩ := List.mem_map.mp here
          exact List.cons_ne_nil _ _
        · cases here
      · exact ih path later

theorem forall_of_mem_paths {P : Bytes → Prop} {mask : KeyValueMap (BitVec 32) Bool} {fs : Fields} :
    fs.All (fun field => P field.name) → ∀ path ∈ fs.paths mask, ∀ name ∈ path, P name := by
  induction fs generalizing mask with
  | nil => exact fun _ => nofun
  | scalar field t rest ih =>
      rintro ⟨here, others⟩ path member
      rcases List.mem_append.mp member with first | later
      · split at first
        · rw [List.mem_singleton.mp first]
          exact List.forall_mem_singleton.mpr here
        · cases first
      · exact ih others path later
  | nested field info inner rest ihInner ih =>
      rintro ⟨here, inside, others⟩ path member
      rcases List.mem_append.mp member with first | later
      · split at first
        · obtain ⟨path, isPath, rfl⟩ := List.mem_map.mp first
          exact List.forall_mem_cons.mpr ⟨here, ihInner inside path isPath⟩
        · cases first
      · exact ih others path later

/-- There is a value for each path. -/
theorem length_cells {mask : KeyValueMap (BitVec 32) Bool} (fs : Fields) (m : fs.Values) :
    (fs.cells mask m).length = (fs.paths mask).length := by
  induction fs generalizing mask with
  | nil => rfl
  | scalar field t rest ih =>
      rw [cells, paths, List.length_append, List.length_append, ih]
      split <;> rfl
  | nested field info inner rest ihInner ih =>
      rw [cells, paths, List.length_append, List.length_append, ih]
      split
      · rw [ihInner, List.length_map]
      · rfl

end Fields

namespace ToCSVVisitor

/-- The label of a column: the last names of its path. -/
def pathLabel : Bytes → List Bytes → Bytes
  | columnPrefix, [] => columnPrefix
  | columnPrefix, [name] => label columnPrefix name
  | _, parent :: rest => pathLabel parent rest

theorem pathLabel_cons {columnPrefix parent : Bytes} {rest : List Bytes} (some : rest ≠ []) :
    pathLabel columnPrefix (parent :: rest) = pathLabel parent rest := by
  cases rest with
  | nil => exact absurd rfl some
  | cons name rest => rfl

section Accept

variable (F : FloatFormat)

/-- The labels of the columns of a message. -/
def labels (mask : KeyValueMap (BitVec 32) Bool) (columnPrefix : Bytes) (fs : Fields) : List Bytes :=
  (fs.paths mask).map (pathLabel columnPrefix)

/-- The texts of the values of a message. -/
def texts (mask : KeyValueMap (BitVec 32) Bool) (fs : Fields) (m : fs.Values) : List Bytes :=
  (fs.cells mask m).map fun c => valueText F c.type c.value

@[simp] theorem append_nil (e : ToCSVVisitor) : e.append [] [] = e := by
  rw [append, List.append_nil, List.append_nil, ite_self]

@[simp] theorem append_append (e : ToCSVVisitor) (h v h' v' : Bytes) :
    (e.append h v).append h' v' = e.append (h ++ h') (v ++ v') := by
  simp only [append]
  split <;> simp only [List.append_assoc]

theorem labels_scalar (mask : KeyValueMap (BitVec 32) Bool) (columnPrefix : Bytes)
    (field : FieldInfo) (t : ScalarType) (rest : Fields) :
    labels mask columnPrefix (.scalar field t rest) =
      (if renders mask field.fieldIdentifier then [label columnPrefix field.name] else []) ++
        labels mask columnPrefix rest := by
  rw [labels, Fields.paths, List.map_append]
  split <;> rfl

theorem labels_nested (mask : KeyValueMap (BitVec 32) Bool) (columnPrefix : Bytes)
    (field : FieldInfo) (info : MessageInfo) (inner rest : Fields) :
    labels mask columnPrefix (.nested field info inner rest) =
      (if renders mask field.fieldIdentifier then labels [] field.name inner else []) ++
        labels mask columnPrefix rest := by
  rw [labels, Fields.paths, List.map_append]
  split
  · rw [List.map_map, labels]
    refine congrArg (· ++ labels mask columnPrefix rest) (List.map_congr_left fun path member => ?_)
    exact pathLabel_cons (Fields.paths_ne_nil path member)
  · rfl

theorem texts_scalar (mask : KeyValueMap (BitVec 32) Bool) (field : FieldInfo) (t : ScalarType)
    (rest : Fields) (m : t.Value × rest.Values) :
    texts F mask (.scalar field t rest) m =
      (if renders mask field.fieldIdentifier then [valueText F t m.1] else []) ++
        texts F mask rest m.2 := by
  rw [texts, Fields.cells, List.map_append]
  split <;> rfl

theorem texts_nested (mask : KeyValueMap (BitVec 32) Bool) (field : FieldInfo) (info : MessageInfo)
    (inner rest : Fields) (m : inner.Values × rest.Values) :
    texts F mask (.nested field info inner rest) m =
      (if renders mask field.fieldIdentifier then texts F [] inner m.1 else []) ++
        texts F mask rest m.2 := by
  rw [texts, Fields.cells, List.map_append]
  split <;> rfl

theorem accept_visitable (T : MessageType) (m : T.Values) (e : ToCSVVisitor) :
    ((T.visitable (visitor F)).accept m e).2 =
      postVisit ((T.fields.visitable (visitor F)).accept m e).2 := rfl

/-- What a visitor of a nested message has written. -/
theorem accept_nested_visitor (info : MessageInfo) {inner : Fields} (m : inner.Values)
    {columnPrefix : Bytes} {delimiter : Byte} {withHeader : Bool} {header values : Bytes}
    (fields : ((inner.visitable (visitor F)).accept m
        (initNested columnPrefix delimiter withHeader true)).2 =
      (initNested columnPrefix delimiter withHeader true).append header values) :
    (((MessageType.mk info inner).visitable (visitor F)).accept m
      (initNested columnPrefix delimiter withHeader true)).2 =
        { initNested columnPrefix delimiter withHeader true with
          fillHeader := false, bufferHeader := header, bufferValues := values } := by
  rw [accept_visitable, fields, postVisit]
  change { ((initNested columnPrefix delimiter withHeader true).append header values).append [] []
    with fillHeader := false } = _
  rw [append_nil]
  rfl

/-- **What the visits of fields append**: the labels to the header, and the texts to the values. -/
theorem accept_fields (fs : Fields) (m : fs.Values) (e : ToCSVVisitor) :
    ((fs.visitable (visitor F)).accept m e).2 =
      e.append (terminated e.delimiter (labels e.mask e.columnPrefix fs))
        (terminated e.delimiter (texts F e.mask fs m)) := by
  induction fs generalizing e with
  | nil => exact (append_nil e).symm
  | scalar field t rest ih =>
      rw [Fields.accept_scalar, labels_scalar, texts_scalar]
      by_cases shown : renders e.mask field.fieldIdentifier
      · simp only [visitor, if_pos shown, terminated_append, terminated_singleton]
        exact (ih m.2 _).trans (append_append ..)
      · simp only [visitor, if_neg shown]
        exact ih m.2 e
  | nested field info inner rest ihInner ih =>
      rw [Fields.accept_nested, labels_nested, texts_nested]
      by_cases shown : renders e.mask field.fieldIdentifier
      · have nested := accept_nested_visitor F info m.1
          (ihInner m.1 (initNested field.name e.delimiter e.withHeader true))
        simp only [visitor, if_pos shown, terminated_append] at nested ⊢
        rw [nested]
        exact (ih m.2 _).trans (append_append ..)
      · simp only [visitor, if_neg shown]
        exact ih m.2 e

/-- The line of a message, which is also that of its labels. -/
theorem accept_eq (T : MessageType) (m : T.Values) {e : ToCSVVisitor} (outermost : e.isNested = false) :
    accept F T m e =
      { e.append (terminated e.delimiter (labels e.mask e.columnPrefix T.fields) ++ [newline])
          (terminated e.delimiter (texts F e.mask T.fields m) ++ [newline]) with
        fillHeader := false } := by
  rw [accept, accept_visitable, accept_fields, postVisit, ← append_append]
  change { (append _ _ _).append (if e.isNested then [] else [newline])
    (if e.isNested then [] else [newline]) with fillHeader := false } = _
  rw [outermost]
  rfl

end Accept

end ToCSVVisitor

end Cluon
