import Cluon.Generic.CompiledPath
import Cluon.Generic.Termination

/-!
# Visitors that look at names

Most visitors look at the names of the fields as well as at the identifiers, and do something
before and after a message, but whatever is called a message is the same to them
(`Visitor.Parametric`). A generic message whose specification also gives the names of the fields
(`Fields.RepresentsNamed`) cannot be told from the message it represents by any of them
(`visitsAlike_of_parametric`), so that no sequence of such visitors, decoders and encoders in any
order, finds out which of the two it visits (`outcomes_createFrom`).

A generic message that is visited for a single field calls the visitor before and after that field,
which a compiled message does not. Only a silent visitor can ignore this.
-/

set_option autoImplicit false

namespace Cluon

open Library InputStream

variable {σ α β : Type}

/-! ## Parametric visitors -/

/-- Related objects stay related, and a visitor comes out in the same state; for the visits of
single fields under a condition only. -/
structure Visitable.Alike (fieldwise : Prop) (R : α → β → Prop) (obj : Visitable σ α)
    (obj' : Visitable σ β) : Prop where
  accept : ∀ {v : α} {v' : β}, R v v' → ∀ s,
    R (obj.accept v s).1 (obj'.accept v' s).1 ∧ (obj.accept v s).2 = (obj'.accept v' s).2
  acceptField : fieldwise → ∀ {v : α} {v' : β}, R v v' → ∀ fieldId s,
    R (obj.acceptField fieldId v s).1 (obj'.acceptField fieldId v' s).1 ∧
      (obj.acceptField fieldId v s).2 = (obj'.acceptField fieldId v' s).2

namespace Visitor

/-- A visitor that does nothing before and after a message. -/
structure Silent (V : Visitor σ) : Prop where
  preVisit_eq : ∀ info s, V.preVisit info s = s
  postVisit_eq : ∀ s, V.postVisit s = s

/-- A visitor that looks at the identifiers, the names, and the values of the fields, and at
nothing that a message is called. -/
structure Parametric (V : Visitor σ) : Prop where
  preVisit_eq : ∀ info info' s, V.preVisit info s = V.preVisit info' s
  visit_eq : ∀ {field field' : FieldInfo}, field.fieldIdentifier = field'.fieldIdentifier →
    field.name = field'.name → ∀ t v s, V.visit field t v s = V.visit field' t v s
  visitMessage_alike : ∀ {α β : Type} {R : α → β → Prop} {obj : Visitable σ α}
    {obj' : Visitable σ β}, obj.Alike V.Silent R obj' →
    ∀ {field field' : FieldInfo}, field.fieldIdentifier = field'.fieldIdentifier →
    field.name = field'.name → ∀ {v : α} {v' : β}, R v v' → ∀ s,
      R (V.visitMessage field obj v s).1 (V.visitMessage field' obj' v' s).1 ∧
        (V.visitMessage field obj v s).2 = (V.visitMessage field' obj' v' s).2

/-- A uniform visitor is silent, and does not even look at the names. -/
theorem Uniform.parametric {V : Visitor σ} (uniform : V.Uniform) : V.Parametric where
  preVisit_eq info info' s := (uniform.preVisit_eq info s).trans (uniform.preVisit_eq info' s).symm
  visit_eq id _ := uniform.visit_eq id
  visitMessage_alike alike _ _ id _ := uniform.visitMessage_simulates
    ⟨alike.accept, alike.acceptField ⟨uniform.preVisit_eq, uniform.postVisit_eq⟩⟩ id

theorem Parametric.acceptAll_eq {V : Visitor σ} (parametric : V.Parametric)
    (info info' : MessageInfo) (visitFields : α → σ → α × σ) (v : α) (s : σ) :
    acceptAll V info visitFields v s = acceptAll V info' visitFields v s := by
  simp only [acceptAll, parametric.preVisit_eq info info']

end Visitor

/-! ## Representation with names -/

/-- A field of a specification has the identifier and the name of a field of a message. -/
structure MetaField.Names (f : MetaField) (field : FieldInfo) : Prop where
  fieldIdentifier_eq : f.fieldIdentifier = field.fieldIdentifier
  fieldName_eq : f.fieldName = field.name

namespace Fields

/-- The fields of a specification have the names of the fields of a message, and a map holds their
values. -/
def RepresentsNamed : (fs : Fields) → (n : Nat) → List MetaField →
    KeyValueMap (BitVec 32) (LinbAny (GenericMessage n)) → fs.Values → Prop
  | .nil, _, fields, _, _ => fields = []
  | .scalar field t rest, n, fields, data, m =>
      ∃ f fs, fields = f :: fs ∧ f.Names field ∧ f.fieldDataType = .scalar t ∧
        data.find field.fieldIdentifier = some (.ofScalar t m.1) ∧
        rest.RepresentsNamed n fs data m.2
  | .nested _ _ _ _, 0, _, _, _ => False
  | .nested field _ inner rest, n + 1, fields, data, m =>
      ∃ f fs, ∃ gm : GenericMessage (n + 1), fields = f :: fs ∧ f.Names field ∧
        f.fieldDataType = .message ∧
        data.find field.fieldIdentifier = some (.message gm) ∧
        inner.RepresentsNamed n gm.metaMessage.listOfMetaFields
          gm.intermediateDataRepresentation m.1 ∧
        rest.RepresentsNamed (n + 1) fs data m.2

/-- The specification describes the fields and gives them their names, and nested messages have
names too. -/
def DescribesNamed (scope : KeyValueMap Bytes MetaMessage) : Fields → List MetaField → Prop
  | .nil, fields => fields = []
  | .scalar field t rest, fields =>
      ∃ f fs, fields = f :: fs ∧ f.Names field ∧ f.fieldDataType = .scalar t ∧
        rest.DescribesNamed scope fs
  | .nested field _ inner rest, fields =>
      ∃ f fs mm, fields = f :: fs ∧ f.Names field ∧ f.fieldDataType = .message ∧
        scope.find f.fieldDataTypeName = some mm ∧ mm.IsNamed ∧
        inner.DescribesNamed scope mm.listOfMetaFields ∧ rest.DescribesNamed scope fs

theorem RepresentsNamed.represents (fs : Fields) :
    ∀ {n : Nat} {fields : List MetaField}
      {data : KeyValueMap (BitVec 32) (LinbAny (GenericMessage n))} {m : fs.Values},
      fs.RepresentsNamed n fields data m → fs.Represents n fields data m := by
  induction fs with
  | nil => intro _ _ _ _ h; exact h
  | scalar field t rest ih =>
      rintro n _ data m ⟨f, fs, rfl, names, type, value, others⟩
      exact ⟨f, fs, rfl, names.fieldIdentifier_eq, type, value, ih others⟩
  | nested field info inner rest ihInner ih =>
      intro n _ data m h
      cases n with
      | zero => exact h
      | succ n =>
          obtain ⟨f, fs, gm, rfl, names, type, value, held, others⟩ := h
          exact ⟨f, fs, gm, rfl, names.fieldIdentifier_eq, type, value, ihInner held, ih others⟩

/-- Assigning the value of another field. -/
theorem RepresentsNamed.assign {n : Nat}
    {data : KeyValueMap (BitVec 32) (LinbAny (GenericMessage n))} {k : BitVec 32}
    (any : LinbAny (GenericMessage n)) (fs : Fields) :
    k ∉ fs.identifiers → ∀ {fields : List MetaField} {m : fs.Values},
      fs.RepresentsNamed n fields data m → fs.RepresentsNamed n fields (data.assign k any) m := by
  induction fs with
  | nil => intro _ _ _ h; exact h
  | scalar field t rest ih =>
      rintro other _ m ⟨f, fs, rfl, names, type, value, others⟩
      rw [identifiers, keys, List.mem_cons, not_or] at other
      refine ⟨f, fs, rfl, names, type, ?_, ih other.2 others⟩
      rw [KeyValueMap.find_assign, if_neg other.1, value]
  | nested field info inner rest _ ih =>
      intro other _ m h
      rw [identifiers, keys, List.mem_cons, not_or] at other
      cases n with
      | zero => exact h
      | succ n =>
          obtain ⟨f, fs, gm, rfl, names, type, value, held, others⟩ := h
          refine ⟨f, fs, gm, rfl, names, type, ?_, held, ih other.2 others⟩
          rw [KeyValueMap.find_assign, if_neg other.1, value]

/-- The visited fields of the specification are those of the message. -/
theorem RepresentsNamed.notMem {fs : Fields} {n : Nat} {fields : List MetaField}
    {data : KeyValueMap (BitVec 32) (LinbAny (GenericMessage n))} {m : fs.Values}
    (h : fs.RepresentsNamed n fields data m) {k : BitVec 32} (new : k ∉ fs.identifiers) :
    k ∉ fields.map MetaField.fieldIdentifier := by
  rw [(h.represents fs).identifiers_eq]
  exact new

end Fields

/-! ## Visits -/

namespace GenericMessage

/-- A generic message represents a message with the names of its fields. -/
def HoldsNamed (fs : Fields) {n : Nat} (gm : GenericMessage (n + 1)) (m : fs.Values) : Prop :=
  fs.RepresentsNamed n gm.metaMessage.listOfMetaFields gm.intermediateDataRepresentation m

/-- The visits of the fields of a specification and of those of a message are the same. -/
def VisitsNamedAlike (V : Visitor σ) (fs : Fields) : Prop :=
  ∀ {n : Nat} {fields : List MetaField}
    {data : KeyValueMap (BitVec 32) (LinbAny (GenericMessage n))} {m : fs.Values},
    fs.RepresentsNamed n fields data m → ∀ s,
    (fs.RepresentsNamed n fields (visitFields V (visitable V n) fields data s).1
        ((fs.visitable V).accept m s).1 ∧
      (visitFields V (visitable V n) fields data s).2 = ((fs.visitable V).accept m s).2) ∧
    ∀ fieldId, fs.RepresentsNamed n fields
        (visitFirst V (visitable V n) fieldId fields data s).1
        ((fs.visitable V).acceptField fieldId m s).1 ∧
      (visitFirst V (visitable V n) fieldId fields data s).2 =
        ((fs.visitable V).acceptField fieldId m s).2

variable {V : Visitor σ}

theorem acceptAround_silent (silent : V.Silent) {α : Type}
    (visit : List MetaField → KeyValueMap (BitVec 32) (LinbAny α) → σ →
      KeyValueMap (BitVec 32) (LinbAny α) × σ) (gm : GenericMessageOf α) (s : σ) :
    acceptAround V visit gm s =
      let visited := visit gm.metaMessage.listOfMetaFields gm.intermediateDataRepresentation s
      ({ gm with intermediateDataRepresentation := visited.1 }, visited.2) := by
  simp only [acceptAround, acceptAll, silent.preVisit_eq, silent.postVisit_eq]

theorem alike_visitable (parametric : V.Parametric) {fs : Fields} (alike : VisitsNamedAlike V fs)
    (info : MessageInfo) (n : Nat) :
    (visitable V (n + 1)).Alike V.Silent (HoldsNamed fs)
      ((MessageType.mk info fs).visitable V) where
  accept := by
    intro gm m holds s
    obtain ⟨represents, same⟩ := (alike holds (V.preVisit gm.info s)).1
    rw [MessageType.accept_eq, parametric.acceptAll_eq info gm.info]
    exact ⟨represents, congrArg V.postVisit same⟩
  acceptField := by
    intro silent gm m holds fieldId s
    rw [MessageType.acceptField_eq]
    have visited := acceptAround_silent silent (visitFirst V (visitable V n) fieldId) gm s
    simp only [visitable, visited]
    exact (alike holds s).2 fieldId

/-- **A parametric visitor cannot tell a generic message from the message it represents.** -/
theorem visitsAlike_of_parametric (parametric : V.Parametric) (fs : Fields) :
    fs.DistinctIdentifiers → VisitsNamedAlike V fs := by
  induction fs with
  | nil =>
      rintro _ n _ data m rfl s
      exact ⟨⟨rfl, rfl⟩, fun _ => ⟨rfl, rfl⟩⟩
  | scalar field t rest ih =>
      rintro ⟨new, distinct⟩ n _ data m ⟨f, fs, rfl, names, type, value, others⟩ s
      have id := names.fieldIdentifier_eq
      have visited := visitField_scalar V (visitable V n) type (id ▸ value) s
      rw [@Visitor.Parametric.visit_eq _ _ parametric f.info field id names.fieldName_eq, id]
        at visited
      have unvisited := others.notMem new
      have others' (any) := Fields.RepresentsNamed.assign any rest new others
      constructor
      · obtain ⟨⟨represents, same⟩, _⟩ := ih distinct
          (others' (.ofScalar t (V.visit field t m.1 s).1)) (V.visit field t m.1 s).2
        rw [visitFields, visited, Fields.accept_scalar]
        refine ⟨⟨f, fs, rfl, names, type, ?_, represents⟩, same⟩
        rw [find_visitFields V _ fs unvisited, KeyValueMap.find_assign, if_pos rfl]
      · intro fieldId
        rw [visitFirst, visited, Fields.acceptField_scalar, id]
        by_cases this : field.fieldIdentifier = fieldId
        · rw [if_pos this, if_pos this.symm]
          refine ⟨⟨f, fs, rfl, names, type, ?_, others' _⟩, rfl⟩
          rw [KeyValueMap.find_assign, if_pos rfl]
        · rw [if_neg this, if_neg (Ne.symm this)]
          obtain ⟨_, first⟩ := ih distinct others s
          obtain ⟨represents, same⟩ := first fieldId
          refine ⟨⟨f, fs, rfl, names, type, ?_, represents⟩, same⟩
          rw [find_visitFirst V _ s fs unvisited, value]
  | nested field info inner rest ihInner ih =>
      rintro ⟨new, distinctInner, distinct⟩ n fields data m represents s
      cases n with
      | zero => exact represents.elim
      | succ n =>
          obtain ⟨f, fs, gm, rfl, names, type, value, held, others⟩ := represents
          have id := names.fieldIdentifier_eq
          have alike := alike_visitable parametric (ihInner distinctInner) info n
          have visited := visitField_message V (visitable V (n + 1)) type (id ▸ value) s
          obtain ⟨stillHeld, same₁⟩ := @Visitor.Parametric.visitMessage_alike _ _ parametric
            _ _ _ _ _ alike f.info field id names.fieldName_eq _ _ held s
          have unvisited := others.notMem new
          have others' (any) := Fields.RepresentsNamed.assign any rest new others
          rw [id] at visited
          constructor
          · obtain ⟨⟨represents, same₂⟩, _⟩ := ih distinct
              (others' (.message (V.visitMessage f.info (visitable V (n + 1)) gm s).1))
              (V.visitMessage f.info (visitable V (n + 1)) gm s).2
            rw [visitFields, visited, Fields.accept_nested]
            simp only [← same₁]
            refine ⟨⟨f, fs, _, rfl, names, type, ?_, stillHeld, represents⟩, same₂⟩
            rw [find_visitFields V _ fs unvisited, KeyValueMap.find_assign, if_pos rfl]
          · intro fieldId
            rw [visitFirst, visited, Fields.acceptField_nested, id]
            by_cases this : field.fieldIdentifier = fieldId
            · rw [if_pos this, if_pos this.symm]
              refine ⟨⟨f, fs, _, rfl, names, type, ?_, stillHeld, others' _⟩, same₁⟩
              rw [KeyValueMap.find_assign, if_pos rfl]
            · rw [if_neg this, if_neg (Ne.symm this)]
              obtain ⟨_, first⟩ := ih distinct others s
              obtain ⟨represents, same⟩ := first fieldId
              refine ⟨⟨f, fs, gm, rfl, names, type, ?_, held, represents⟩, same⟩
              rw [find_visitFirst V _ s fs unvisited, value]

/-! ## Creation -/

/-- The loop of `createFrom(mm, mms)` gives every field its initial value under its name. -/
theorem createFields_representsNamed (mms : List MetaMessage) (fs : Fields) :
    fs.DistinctIdentifiers → ∀ {n : Nat} {fields : List MetaField},
      fs.DescribesNamed (mapForScopeOfMetaMessages mms) fields → fs.depth ≤ n →
      ∀ before : KeyValueMap (BitVec 32) (LinbAny (GenericMessage n)), ∃ data,
        fields.foldlM (createField (mapForScopeOfMetaMessages mms) (createFrom mms n)) before =
          some data ∧
        fs.RepresentsNamed n fields data fs.initial ∧
        ∀ k ∉ fs.identifiers, data.find k = before.find k := by
  induction fs with
  | nil =>
      rintro _ n _ rfl _ before
      exact ⟨before, rfl, rfl, fun _ _ => rfl⟩
  | scalar field t rest ih =>
      rintro ⟨new, distinct⟩ n _ ⟨f, fs, rfl, names, type, described⟩ deep before
      have id := names.fieldIdentifier_eq
      obtain ⟨data, created, represents, frame⟩ :=
        ih distinct described deep (before.assign f.fieldIdentifier (.ofScalar t t.initial))
      refine ⟨data, ?_, ⟨f, fs, rfl, names, type, ?_, represents⟩, fun k other => ?_⟩
      · rw [List.foldlM_cons, createField, type]
        exact created
      · rw [frame _ new, KeyValueMap.find_assign, if_pos id]
        rfl
      · rw [Fields.identifiers, Fields.keys, List.mem_cons, not_or] at other
        rw [frame k other.2, KeyValueMap.find_assign, if_neg (id ▸ Ne.symm other.1)]
  | nested field info inner rest ihInner ih =>
      rintro ⟨new, distinctInner, distinct⟩ n _
        ⟨f, fs, mm, rfl, names, type, found, _, describedInner, described⟩ deep before
      have id := names.fieldIdentifier_eq
      obtain ⟨deepInner, deep⟩ := max_le_iff.mp deep
      obtain ⟨n, rfl⟩ : ∃ n', n = n' + 1 := ⟨n - 1, by omega⟩
      obtain ⟨inside, createdInner, representsInner, _⟩ :=
        ihInner distinctInner describedInner (Nat.le_of_succ_le_succ deepInner) []
      obtain ⟨data, created, represents, frame⟩ := ih distinct described deep
        (before.assign f.fieldIdentifier (.message ⟨mm, inside⟩))
      refine ⟨data, ?_, ⟨f, fs, ⟨mm, inside⟩, rfl, names, type, ?_, representsInner, represents⟩,
        fun k other => ?_⟩
      · have nested : createFrom mms (n + 1) mm = some ⟨mm, inside⟩ := by
          rw [createFrom, createdInner]
          rfl
        simp only [List.foldlM_cons, createField, type, found, nested, Option.map_some]
        exact created
      · rw [frame _ new, KeyValueMap.find_assign, if_pos id]
      · rw [Fields.identifiers, Fields.keys, List.mem_cons, not_or] at other
        rw [frame k other.2, KeyValueMap.find_assign, if_neg (id ▸ Ne.symm other.1)]

end GenericMessage

/-! ## How deep a described message is -/

theorem Fields.DescribesNamed.describes {scope : KeyValueMap Bytes MetaMessage} (fs : Fields) :
    ∀ {fields : List MetaField}, fs.DescribesNamed scope fields → fs.Describes scope fields := by
  induction fs with
  | nil => intro _ h; exact h
  | scalar field t rest ih =>
      rintro _ ⟨f, fs, rfl, names, type, described⟩
      exact ⟨f, fs, rfl, names.fieldIdentifier_eq, type, ih described⟩
  | nested field info inner rest ihInner ih =>
      rintro _ ⟨f, fs, mm, rfl, names, type, found, _, inside, described⟩
      exact ⟨f, fs, mm, rfl, names.fieldIdentifier_eq, type, found, ihInner inside, ih described⟩

/-- The deepest of the nested messages are the end of a chain of messages that contain each
other. -/
theorem Fields.exists_chain_of_describes {mms : List MetaMessage} (fs : Fields) :
    ∀ {outer : MetaMessage} {fields : List MetaField}, fields ⊆ outer.listOfMetaFields →
      fs.Describes (mapForScopeOfMetaMessages mms) fields →
      ∃ chain : List MetaMessage, chain.length = fs.depth ∧
        (outer :: chain).IsChain (MetaMessage.Contains mms) ∧ chain ⊆ mms := by
  induction fs with
  | nil => intro outer _ _ _; exact ⟨[], rfl, .singleton outer, List.nil_subset _⟩
  | scalar field t rest ih =>
      rintro outer _ subset ⟨f, fs, rfl, _, _, described⟩
      exact ih (List.cons_subset.mp subset).2 described
  | nested field info inner rest ihInner ih =>
      rintro outer _ subset ⟨f, fs, mm, rfl, _, type, found, inside, described⟩
      obtain ⟨member, subset⟩ := List.cons_subset.mp subset
      rcases le_total (inner.depth + 1) rest.depth with deep | deep
      · obtain ⟨chain, length, isChain, within⟩ := ih subset described
        exact ⟨chain, length.trans (max_eq_right deep).symm, isChain, within⟩
      · obtain ⟨chain, length, isChain, within⟩ := ihInner (List.Subset.refl _) inside
        refine ⟨mm :: chain, ?_, .cons_cons ⟨f, member, type, found⟩ isChain,
          List.cons_subset.mpr ⟨mem_of_find_scope found, within⟩⟩
        rw [List.length_cons, length]
        exact (max_eq_left deep).symm

/-- **Messages are not nested deeper than their specification is long**: a chain of messages that
is longer has one of them twice, and so never ends. -/
theorem MetaMessage.Describes.depth_le {mms : List MetaMessage} {mm : MetaMessage}
    {T : MessageType} (described : mm.Describes mms T) (distinct : T.fields.DistinctIdentifiers) :
    T.fields.depth ≤ mms.length := by
  obtain ⟨gm, created, -⟩ := GenericMessage.createFrom_holds described distinct le_rfl
  obtain ⟨chain, length, isChain, within⟩ :=
    Fields.exists_chain_of_describes T.fields (List.Subset.refl mm.listOfMetaFields) described
  have related : (mm :: chain).Pairwise (Relation.TransGen (MetaMessage.Contains mms)) :=
    List.isChain_iff_pairwise.mp (isChain.imp fun _ _ contains => .single contains)
  obtain ⟨parts, related⟩ := List.pairwise_cons.mp related
  have nodup : chain.Nodup := by
    refine related.imp_of_mem fun {a b} member _ contains same => ?_
    subst same
    obtain ⟨k, -, gm', created'⟩ :=
      GenericMessage.exists_createFrom_of_transGen (parts a member) created
    rw [GenericMessage.createFrom_of_recursive contains k] at created'
    cases created'
  rw [← length]
  exact (nodup.subperm within).length_le

/-- The specification has a name, and describes a message type with the names of its fields. -/
def MetaMessage.DescribesNamed (mms : List MetaMessage) (mm : MetaMessage) (T : MessageType) :
    Prop :=
  mm.IsNamed ∧ T.fields.DescribesNamed (mapForScopeOfMetaMessages mms) mm.listOfMetaFields

namespace GenericMessage

theorem createFrom_holdsNamed {mms : List MetaMessage} {mm : MetaMessage} {T : MessageType}
    (described : mm.DescribesNamed mms T) (distinct : T.fields.DistinctIdentifiers) :
    ∃ gm, createFrom mms (mms.length + 1) mm = some gm ∧
      HoldsNamed T.fields gm T.fields.initial := by
  have deep := MetaMessage.Describes.depth_le
    (Fields.DescribesNamed.describes T.fields described.2) distinct
  obtain ⟨data, created, represents, _⟩ :=
    createFields_representsNamed mms T.fields distinct described.2 deep []
  refine ⟨⟨mm, data⟩, ?_, represents⟩
  rw [createFrom, created]
  rfl

/-- A described message has names in all its parts. -/
theorem partsNamed_of_describesNamed {mms : List MetaMessage} (fs : Fields) :
    ∀ {n : Nat} {mm : MetaMessage}, mm.IsNamed →
      fs.DescribesNamed (mapForScopeOfMetaMessages mms) mm.listOfMetaFields →
      partsNamed mms n mm = true := by
  have fields : ∀ {n : Nat} {fields : List MetaField},
      fs.DescribesNamed (mapForScopeOfMetaMessages mms) fields →
      (fields.all fun f => decide (f.fieldDataType ≠ .message) ||
        ((mapForScopeOfMetaMessages mms).find f.fieldDataTypeName).all (partsNamed mms n)) =
        true := by
    induction fs with
    | nil => rintro _ _ rfl; rfl
    | scalar field t rest ih =>
        rintro n _ ⟨f, fs, rfl, _, type, described⟩
        rw [List.all_cons, type, ih described]
        rfl
    | nested field info inner rest ihInner ih =>
        rintro n _ ⟨f, fs, mm, rfl, _, type, found, named, inside, described⟩
        have nested : partsNamed mms n mm = true := by
          cases n with
          | zero => rfl
          | succ n => rw [partsNamed, ihInner inside, decide_eq_true named, Bool.and_self]
        rw [List.all_cons, type, ih described, found, Option.all_some, nested]
        rfl
  intro n mm named described
  cases n with
  | zero => rfl
  | succ n => rw [partsNamed, fields described, decide_eq_true named, Bool.and_self]

end GenericMessage

/-! ## Sequences of visitors -/

/-- A visitor of any kind that looks at nothing that a message is called. -/
structure ParametricVisitor where
  State : Type
  visitor : Visitor State
  parametric : visitor.Parametric

/-- A visitor with the state in which it begins or in which it has been left. -/
abbrev ParametricVisitor.Visit : Type 1 := Σ V : ParametricVisitor, V.State

/-- An object accepts visitors one after the other: in which states they are left, and what becomes
of the object. -/
def outcomes (obj : (V : ParametricVisitor) → Visitable V.State α) :
    List ParametricVisitor.Visit → α → List ParametricVisitor.Visit × α
  | [], v => ([], v)
  | ⟨V, s⟩ :: visits, v =>
      let visited := (obj V).accept v s
      let others := outcomes obj visits visited.1
      (⟨V, visited.2⟩ :: others.1, others.2)

/-- Objects that the visitors cannot tell apart give the same outcomes, and stay related. -/
theorem outcomes_alike {R : α → β → Prop} {obj : (V : ParametricVisitor) → Visitable V.State α}
    {obj' : (V : ParametricVisitor) → Visitable V.State β}
    (visits : List ParametricVisitor.Visit) :
    (∀ visit ∈ visits, (obj visit.1).Alike visit.1.visitor.Silent R (obj' visit.1)) →
      ∀ {v : α} {v' : β}, R v v' →
        (outcomes obj visits v).1 = (outcomes obj' visits v').1 ∧
          R (outcomes obj visits v).2 (outcomes obj' visits v').2 := by
  induction visits with
  | nil => intro _ v v' related; exact ⟨rfl, related⟩
  | cons visit visits ih =>
      intro alike v v' related
      obtain ⟨V, s⟩ := visit
      obtain ⟨first, later⟩ := List.forall_mem_cons.mp alike
      obtain ⟨related', same⟩ := first.accept related s
      obtain ⟨others, last⟩ := ih later related'
      refine ⟨?_, last⟩
      simp only [outcomes, same, others]

namespace GenericMessage

/-- Visitors cannot tell a generic message from the message that it represents. -/
theorem outcomes_of_holdsNamed {T : MessageType} (distinct : T.fields.DistinctIdentifiers)
    {n : Nat} {gm : GenericMessage (n + 1)} {m : T.Values} (holds : HoldsNamed T.fields gm m)
    (visits : List ParametricVisitor.Visit) :
    (outcomes (fun V => visitable V.visitor (n + 1)) visits gm).1 =
      (outcomes (fun V => T.visitable V.visitor) visits m).1 := by
  have alike (V : ParametricVisitor) : (visitable V.visitor (n + 1)).Alike V.visitor.Silent
      (HoldsNamed T.fields) (T.visitable V.visitor) :=
    alike_visitable V.parametric (visitsAlike_of_parametric V.parametric T.fields distinct)
      T.info n
  exact (outcomes_alike visits (fun visit _ => alike visit.1) holds).1

/-- **No sequence of visitors finds out that a message is a generic one.** A generic message is
created from a specification of a message type with distinct identifiers. Whatever visitors it
accepts then, decoders and encoders of any formats in any order, each of them is left in the state
in which a message of the compiled type leaves it whose fields had the same initial values. -/
theorem outcomes_createFrom {mms : List MetaMessage} {mm : MetaMessage} {T : MessageType}
    (described : mm.DescribesNamed mms T) (distinct : T.fields.DistinctIdentifiers) :
    ∃ gm, createFrom mms (mms.length + 1) mm = some gm ∧
      ∀ visits : List ParametricVisitor.Visit,
        (outcomes (fun V => visitable V.visitor (mms.length + 1)) visits gm).1 =
          (outcomes (fun V => T.visitable V.visitor) visits T.fields.initial).1 := by
  obtain ⟨gm, created, holds⟩ := createFrom_holdsNamed described distinct
  exact ⟨gm, created, outcomes_of_holdsNamed distinct holds⟩

theorem outcomes_createFrom_point :
    let T : MessageType := ⟨⟨7, asciiBytes "Point", asciiBytes "Point"⟩,
      .scalar (.declared "int32_t" "x" 1) .int32 <|
      .scalar (.declared "int32_t" "y" 2) .int32 .nil⟩
    let mm : MetaMessage := ⟨[], asciiBytes "Point", 7,
      [⟨.scalar .int32, asciiBytes "int32", asciiBytes "x", 1, []⟩,
        ⟨.scalar .int32, asciiBytes "int32", asciiBytes "y", 2, []⟩]⟩
    let visits : List ParametricVisitor.Visit :=
      [⟨⟨_, FromProtoVisitor.visitor fun _ => 0, (FromProtoVisitor.uniform _).parametric⟩,
          (FromProtoVisitor.decodeFrom (fun _ => 0) .init (ofBytes [0x10, 0x04])).1⟩,
        ⟨⟨_, ToProtoVisitor.visitor, ToProtoVisitor.uniform.parametric⟩, []⟩]
    ∃ gm, createFrom [mm] 2 mm = some gm ∧
      (outcomes (fun V => visitable V.visitor 2) visits gm).1 =
        (outcomes (fun V => T.visitable V.visitor) visits T.fields.initial).1 := by
  intro T mm visits
  have described : mm.DescribesNamed [mm] T :=
    ⟨by decide, _, _, rfl, ⟨rfl, rfl⟩, rfl, _, _, rfl, ⟨rfl, rfl⟩, rfl, rfl⟩
  obtain ⟨gm, created, same⟩ := outcomes_createFrom described
    (by simp [T, Fields.Distinct, Fields.keys, FieldInfo.declared])
  exact ⟨gm, created, same visits⟩

end GenericMessage

end Cluon
