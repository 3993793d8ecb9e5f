import Cluon.Library.KeyValueMap
import Cluon.Message.Visitable

/-!
# Visitors that look names up

The decoders of textual and of self-describing formats first read a map from the names of
fields to entries, and a message that accepts such a decoder looks its fields up. Which entries
fit which fields is what the decoders differ in (`EntryKind`).

A map holds the values of a message (`Fields.Held`) if every field finds an entry that gives
its value. Every target that accepts the decoder then becomes equal to the message
(`accept_of_held`), and conversely if all targets do, the map holds the values
(`held_of_accept`), provided that no nested message is without fields.
-/

set_option autoImplicit false

namespace Cluon

open Library

/-- Why a visit does not get a value: the entry is of another kind, `at(0)` finds no
character, or a loop does not end. -/
inductive VisitError where
  | badAnyCast
  | outOfRange
  | endless
  deriving DecidableEq, Repr

/-- What the entries of a map give for scalar fields and for nested messages. -/
structure EntryKind (α : Type) where
  castTo : (t : ScalarType) → α → Except VisitError t.Value
  nested : α → Option (KeyValueMap Bytes α)

/-- The key/values of a decoder, and whether the program has been stopped: an exception has
left one of its `noexcept` methods, or a loop does not end. -/
structure KeyValueVisitor (α : Type) where
  keyValues : KeyValueMap Bytes α
  terminated : Bool

namespace KeyValueVisitor

variable {α : Type} (K : EntryKind α)

/-- `visit(id, typeName, name, v)` for scalars. -/
def visit (field : FieldInfo) (t : ScalarType) (v : t.Value) (d : KeyValueVisitor α) :
    t.Value × KeyValueVisitor α :=
  if d.terminated then (v, d)
  else
    match d.keyValues.find field.name with
    | some any =>
        match K.castTo t any with
        | .ok v' => (v', d)
        | .error .badAnyCast => (v, d)
        | .error .outOfRange => (v, { d with terminated := true })
        | .error .endless => (v, { d with terminated := true })
    | none => (v, d)

/-- `visit(id, typeName, name, v)` for visitable types. -/
def visitMessage {β : Type} (field : FieldInfo) (obj : Visitable (KeyValueVisitor α) β) (v : β)
    (d : KeyValueVisitor α) : β × KeyValueVisitor α :=
  if d.terminated then (v, d)
  else
    match (d.keyValues.find field.name).bind K.nested with
    | some m =>
        let nested := obj.accept v ⟨m, false⟩
        (nested.1, { d with terminated := nested.2.terminated })
    | none => (v, d)

/-- The visitor, with the decoder as the state. -/
def visitor : Visitor (KeyValueVisitor α) where
  preVisit _ d := d
  postVisit d := d
  visit := visit K
  visitMessage := visitMessage K

end KeyValueVisitor

/-! ## Maps that hold a message -/

namespace Fields

variable {α : Type} (K : EntryKind α)

/-- No two fields of a message have the same name. -/
abbrev DistinctNames (fs : Fields) : Prop := fs.Distinct FieldInfo.name

/-- No nested message is without fields. -/
def Filled : Fields → Prop
  | .nil => True
  | .scalar _ _ rest => rest.Filled
  | .nested _ _ inner rest => (0 < inner.length ∧ inner.Filled) ∧ rest.Filled

/-- The values of a message are in a map: every field finds an entry that gives its value. -/
def Held : (fs : Fields) → fs.Values → KeyValueMap Bytes α → Prop
  | .nil, _, _ => True
  | .scalar field t rest, m, keyValues =>
      (∃ any, keyValues.find field.name = some any ∧ K.castTo t any = .ok m.1) ∧
        rest.Held m.2 keyValues
  | .nested field _ inner rest, m, keyValues =>
      (∃ any nested, keyValues.find field.name = some any ∧ K.nested any = some nested ∧
        inner.Held m.1 nested) ∧
        rest.Held m.2 keyValues

section Entries

variable (ofValue : (t : ScalarType) → t.Value → α) (ofNested : KeyValueMap Bytes α → α)

/-- The entries that a decoder stores for the fields of a message. -/
def entries : (fs : Fields) → fs.Values → List (Bytes × α)
  | .nil, _ => []
  | .scalar field t rest, m => (field.name, ofValue t m.1) :: rest.entries m.2
  | .nested field _ inner rest, m =>
      (field.name, ofNested (KeyValueMap.assignAll [] (inner.entries m.1))) :: rest.entries m.2

theorem keys_entries (fs : Fields) :
    ∀ m : fs.Values, (fs.entries ofValue ofNested m).map Prod.fst = fs.keys FieldInfo.name := by
  induction fs with
  | nil => intro _; rfl
  | scalar field t rest ih => intro m; exact congrArg (field.name :: ·) (ih m.2)
  | nested field info inner rest _ ih => intro m; exact congrArg (field.name :: ·) (ih m.2)

end Entries

theorem length_keys {κ : Type} (key : FieldInfo → κ) (fs : Fields) :
    (fs.keys key).length = fs.length := by
  induction fs with
  | nil => rfl
  | scalar field t rest ih => rw [keys, List.length_cons, ih, length]
  | nested field info inner rest _ ih => rw [keys, List.length_cons, ih, length]

theorem nodup_keys {κ : Type} {key : FieldInfo → κ} (fs : Fields) :
    fs.Distinct key → (fs.keys key).Nodup := by
  induction fs with
  | nil => intro _; exact List.nodup_nil
  | scalar field t rest ih => intro h; exact List.nodup_cons.mpr ⟨h.1, ih h.2⟩
  | nested field info inner rest _ ih => intro h; exact List.nodup_cons.mpr ⟨h.1, ih h.2.2⟩

variable {K}

/-- **The entries of a message hold its values**, if each entry gives the value back. -/
theorem held_entries {ofValue : (t : ScalarType) → t.Value → α}
    {ofNested : KeyValueMap Bytes α → α}
    (nested : ∀ keyValues, K.nested (ofNested keyValues) = some keyValues) (fs : Fields) :
    fs.DistinctNames → ∀ {m : fs.Values},
      fs.AllValues (fun t v => K.castTo t (ofValue t v) = .ok v) m →
      ∀ {keyValues : KeyValueMap Bytes α},
        (∀ e ∈ fs.entries ofValue ofNested m, keyValues.find e.1 = some e.2) →
        fs.Held K m keyValues := by
  induction fs with
  | nil => intro _ _ _ _ _; trivial
  | scalar field t rest ih =>
      intro distinct m casts keyValues found
      refine ⟨⟨_, found _ List.mem_cons_self, casts.1⟩, ?_⟩
      exact ih distinct.2 casts.2 fun e he => found e (List.mem_cons_of_mem _ he)
  | nested field info inner rest ihInner ih =>
      intro distinct m casts keyValues found
      have names : ((inner.entries ofValue ofNested m.1).map Prod.fst).Nodup := by
        rw [inner.keys_entries]
        exact inner.nodup_keys distinct.2.1
      refine ⟨⟨_, _, found _ List.mem_cons_self, nested _, ?_⟩, ?_⟩
      · exact ihInner distinct.2.1 casts.1 fun e he => KeyValueMap.find_assignAll _ names he []
      · exact ih distinct.2.2 casts.2 fun e he => found e (List.mem_cons_of_mem _ he)

/-- The map of a message holds its values. -/
theorem held_assignAll {ofValue : (t : ScalarType) → t.Value → α}
    {ofNested : KeyValueMap Bytes α → α}
    (nested : ∀ keyValues, K.nested (ofNested keyValues) = some keyValues) {fs : Fields}
    (distinct : fs.DistinctNames) {m : fs.Values}
    (casts : fs.AllValues (fun t v => K.castTo t (ofValue t v) = .ok v) m) :
    fs.Held K m (KeyValueMap.assignAll [] (fs.entries ofValue ofNested m)) := by
  have names : ((fs.entries ofValue ofNested m).map Prod.fst).Nodup := by
    rw [fs.keys_entries]
    exact fs.nodup_keys distinct
  exact held_entries nested fs distinct casts fun e he => KeyValueMap.find_assignAll _ names he []

/-- A message with fields has another value. -/
theorem exists_other (fs : Fields) :
    fs.Filled → 0 < fs.length → ∀ m : fs.Values, ∃ v : fs.Values, v ≠ m := by
  induction fs with
  | nil => intro _ some; exact absurd some (Nat.lt_irrefl 0)
  | scalar field t rest ih =>
      intro _ _ m
      obtain ⟨v, differs⟩ := exists_ne m.1
      exact ⟨(v, m.2), fun same => differs (congrArg Prod.fst same)⟩
  | nested field info inner rest ihInner ih =>
      intro filled _ m
      obtain ⟨v, differs⟩ := ihInner filled.1.2 filled.1.1 m.1
      exact ⟨(v, m.2), fun same => differs (congrArg Prod.fst same)⟩

/-- Every field of a message that a map holds finds an entry. -/
theorem Held.find_isSome {keyValues : KeyValueMap Bytes α} (fs : Fields) :
    ∀ {m : fs.Values}, fs.Held K m keyValues → ∀ {k : Bytes}, k ∈ fs.keys FieldInfo.name →
      (keyValues.find k).isSome := by
  induction fs with
  | nil => intro _ _ k hk; cases hk
  | scalar field t rest ih =>
      rintro m ⟨⟨any, found, _⟩, held⟩ k hk
      rcases List.mem_cons.mp hk with rfl | later
      · exact Option.isSome_iff_exists.mpr ⟨any, found⟩
      · exact ih held later
  | nested field info inner rest _ ih =>
      rintro m ⟨⟨any, _, found, _⟩, held⟩ k hk
      rcases List.mem_cons.mp hk with rfl | later
      · exact Option.isSome_iff_exists.mpr ⟨any, found⟩
      · exact ih held later

end Fields

/-! ## What the targets get -/

namespace KeyValueVisitor

variable {α : Type} {K : EntryKind α}

/-- A decoder that has stopped the program leaves everything. -/
theorem accept_terminated (fs : Fields) (keyValues : KeyValueMap Bytes α) :
    ∀ v : fs.Values,
      (fs.visitable (visitor K)).accept v ⟨keyValues, true⟩ = (v, ⟨keyValues, true⟩) := by
  induction fs with
  | nil => intro _; rfl
  | scalar field t rest ih =>
      intro v
      have visited : (visitor K).visit field t v.1 ⟨keyValues, true⟩ =
          (v.1, ⟨keyValues, true⟩) := rfl
      rw [Fields.accept_scalar, visited]
      simp only [ih]
  | nested field info inner rest _ ih =>
      intro v
      have visited (obj : Visitable (KeyValueVisitor α) inner.Values) :
          (visitor K).visitMessage field obj v.1 ⟨keyValues, true⟩ =
            (v.1, ⟨keyValues, true⟩) := rfl
      rw [Fields.accept_nested, visited]
      simp only [ih]

/-- A scalar whose entry is found gets the value of the entry. -/
theorem visit_of_found {field : FieldInfo} {t : ScalarType} {x : t.Value}
    {keyValues : KeyValueMap Bytes α} {any : α} (found : keyValues.find field.name = some any)
    (cast : K.castTo t any = .ok x) (v : t.Value) :
    (visitor K).visit field t v ⟨keyValues, false⟩ = (x, ⟨keyValues, false⟩) := by
  change visit K field t v ⟨keyValues, false⟩ = _
  rw [visit, if_neg Bool.false_ne_true, found]
  simp only [cast]

/-- A nested message whose entry is found gets the values of the entry. -/
theorem visitMessage_of_found {β : Type} {field : FieldInfo}
    (obj : Visitable (KeyValueVisitor α) β) {x : β} {keyValues nested : KeyValueMap Bytes α}
    {any : α} (found : keyValues.find field.name = some any) (kind : K.nested any = some nested)
    (accepted : ∀ v, obj.accept v ⟨nested, false⟩ = (x, ⟨nested, false⟩)) (v : β) :
    (visitor K).visitMessage field obj v ⟨keyValues, false⟩ = (x, ⟨keyValues, false⟩) := by
  change visitMessage K field obj v ⟨keyValues, false⟩ = _
  rw [visitMessage, if_neg Bool.false_ne_true, found, Option.bind_some, kind]
  simp only [accepted]

/-- **A message takes its values from a map that holds them.** -/
theorem accept_of_held (fs : Fields) :
    ∀ {m : fs.Values} {keyValues : KeyValueMap Bytes α}, fs.Held K m keyValues →
      ∀ v : fs.Values,
        (fs.visitable (visitor K)).accept v ⟨keyValues, false⟩ = (m, ⟨keyValues, false⟩) := by
  induction fs with
  | nil => intro _ _ _ _; rfl
  | scalar field t rest ih =>
      rintro m keyValues ⟨⟨any, found, cast⟩, held⟩ v
      rw [Fields.accept_scalar, visit_of_found found cast]
      simp only [ih held v.2]
  | nested field info inner rest ihInner ih =>
      rintro m keyValues ⟨⟨any, nested, found, kind, heldInner⟩, held⟩ v
      have visited := visitMessage_of_found ((MessageType.mk info inner).visitable (visitor K))
        found kind (ihInner heldInner)
      rw [Fields.accept_nested, visited]
      simp only [ih held v.2]

/-- A scalar that every target gets is in the map. -/
theorem found_of_visit {field : FieldInfo} {t : ScalarType} {x : t.Value}
    {keyValues : KeyValueMap Bytes α}
    (same : ∀ v : t.Value, ((visitor K).visit field t v ⟨keyValues, false⟩).1 = x) :
    ∃ any, keyValues.find field.name = some any ∧ K.castTo t any = .ok x := by
  obtain ⟨v, differs⟩ := exists_ne x
  have visited : (visit K field t v ⟨keyValues, false⟩).1 = x := same v
  rw [visit, if_neg Bool.false_ne_true] at visited
  cases found : keyValues.find field.name with
  | none =>
      rw [found] at visited
      exact absurd visited differs
  | some any =>
      rw [found] at visited
      refine ⟨any, rfl, ?_⟩
      cases cast : K.castTo t any with
      | ok v' =>
          simp only [cast] at visited
          rw [visited]
      | error e =>
          simp only [cast] at visited
          cases e
          all_goals exact absurd visited differs

/-- A nested message that every target gets is in the map. -/
theorem found_of_visitMessage {β : Type} {field : FieldInfo}
    {obj : Visitable (KeyValueVisitor α) β} {x : β} {keyValues : KeyValueMap Bytes α}
    (other : ∃ v : β, v ≠ x)
    (same : ∀ v : β, ((visitor K).visitMessage field obj v ⟨keyValues, false⟩).1 = x) :
    ∃ any nested, keyValues.find field.name = some any ∧ K.nested any = some nested ∧
      ∀ v : β, (obj.accept v ⟨nested, false⟩).1 = x := by
  obtain ⟨v, differs⟩ := other
  have visits (v : β) : (visitMessage K field obj v ⟨keyValues, false⟩).1 = x := same v
  simp only [visitMessage, if_neg Bool.false_ne_true] at visits
  have visited := visits v
  cases entry : (keyValues.find field.name).bind K.nested with
  | none =>
      rw [entry] at visited
      exact absurd visited differs
  | some nested =>
      obtain ⟨any, found, kind⟩ := Option.bind_eq_some_iff.mp entry
      refine ⟨any, nested, found, kind, fun v' => ?_⟩
      have visited' := visits v'
      rwa [entry] at visited'

/-- **The values that every target gets are in the map.** -/
theorem held_of_accept (fs : Fields) :
    fs.Filled → ∀ {m : fs.Values} {keyValues : KeyValueMap Bytes α},
      (∀ v : fs.Values, ((fs.visitable (visitor K)).accept v ⟨keyValues, false⟩).1 = m) →
      fs.Held K m keyValues := by
  induction fs with
  | nil => intro _ _ _ _; trivial
  | scalar field t rest ih =>
      intro filled m keyValues same
      have first : ∀ v : t.Value,
          ((visitor K).visit field t v ⟨keyValues, false⟩).1 = m.1 :=
        fun v => congrArg Prod.fst (same (v, m.2))
      obtain ⟨any, found, cast⟩ := found_of_visit first
      refine ⟨⟨any, found, cast⟩, ih filled fun v => ?_⟩
      have others := congrArg Prod.snd (same (m.1, v))
      rw [Fields.accept_scalar, visit_of_found found cast] at others
      exact others
  | nested field info inner rest ihInner ih =>
      intro filled m keyValues same
      have first : ∀ v : inner.Values, ((visitor K).visitMessage field
          ((MessageType.mk info inner).visitable (visitor K)) v ⟨keyValues, false⟩).1 = m.1 :=
        fun v => congrArg Prod.fst (same (v, m.2))
      obtain ⟨any, nested, found, kind, accepted⟩ :=
        found_of_visitMessage (inner.exists_other filled.1.2 filled.1.1 m.1) first
      have heldInner := ihInner filled.1.2 accepted
      refine ⟨⟨any, nested, found, kind, heldInner⟩, ih filled.2 fun v => ?_⟩
      have others := congrArg Prod.snd (same (m.1, v))
      rw [Fields.accept_nested, visitMessage_of_found ((MessageType.mk info inner).visitable
        (visitor K)) found kind (accept_of_held inner heldInner)] at others
      exact others

end KeyValueVisitor

end Cluon
