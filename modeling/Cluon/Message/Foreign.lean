import Cluon.Message.KeyValueVisitor

/-!
# Foreign data

The key/values of a decoder need not come from a message of the type that accepts it: a field may
find an entry of another kind, or none. A decoder tolerates such data if no exception leaves its
`visit` methods and every field whose entry does not fit stays as it was (`Tolerates`). It does so
exactly if every entry that is found is harmless to the field that finds it (`tolerates_iff`):
`visit` catches the exception, or stores a value that fits.
-/

set_option autoImplicit false

namespace Cluon

open Library

variable {α : Type}

namespace Fields

/-- A condition on the fields that find an entry, with their values and the entries. The fields of
a nested message look into the map of its entry. -/
def EachFound (K : EntryKind α) (P : (t : ScalarType) → t.Value → α → Prop) :
    (fs : Fields) → fs.Values → KeyValueMap Bytes α → Prop
  | .nil, _, _ => True
  | .scalar field t rest, v, keyValues =>
      (∀ any, keyValues.find field.name = some any → P t v.1 any) ∧ rest.EachFound K P v.2 keyValues
  | .nested field _ inner rest, v, keyValues =>
      (∀ m, (keyValues.find field.name).bind K.nested = some m → inner.EachFound K P v.1 m) ∧
        rest.EachFound K P v.2 keyValues

/-- Only the fields have changed that find an entry which fits. -/
def KeepsUnfit (K : EntryKind α) (Fits : ScalarType → α → Prop) :
    (fs : Fields) → (v w : fs.Values) → KeyValueMap Bytes α → Prop
  | .nil, _, _, _ => True
  | .scalar field t rest, v, w, keyValues =>
      ((∃ any, keyValues.find field.name = some any ∧ Fits t any) ∨ w.1 = v.1) ∧
        rest.KeepsUnfit K Fits v.2 w.2 keyValues
  | .nested field _ inner rest, v, w, keyValues =>
      (match (keyValues.find field.name).bind K.nested with
        | some m => inner.KeepsUnfit K Fits v.1 w.1 m
        | none => w.1 = v.1) ∧
        rest.KeepsUnfit K Fits v.2 w.2 keyValues

theorem EachFound.congr {K : EntryKind α} {P Q : (t : ScalarType) → t.Value → α → Prop}
    (same : ∀ t v any, P t v any ↔ Q t v any) (fs : Fields) :
    ∀ {v : fs.Values} {keyValues : KeyValueMap Bytes α},
      fs.EachFound K P v keyValues ↔ fs.EachFound K Q v keyValues := by
  induction fs with
  | nil => exact Iff.rfl
  | scalar field t rest ih =>
      intro v keyValues
      exact and_congr (forall₂_congr fun any _ => same t v.1 any) ih
  | nested field info inner rest ihInner ih =>
      intro v keyValues
      exact and_congr (forall₂_congr fun m _ => ihInner) ih

/-- What holds for all kinds of entries with the same nested maps. -/
theorem forall_eachFound_iff {ι : Type} {K : ι → EntryKind α} {K₀ : EntryKind α}
    (nested : ∀ x, (K x).nested = K₀.nested) {P : ι → (t : ScalarType) → t.Value → α → Prop}
    (fs : Fields) : ∀ {v : fs.Values} {keyValues : KeyValueMap Bytes α},
      (∀ x, fs.EachFound (K x) (P x) v keyValues) ↔
        fs.EachFound K₀ (fun t v any => ∀ x, P x t v any) v keyValues := by
  induction fs with
  | nil => exact iff_of_true (fun _ => trivial) trivial
  | scalar field t rest ih =>
      intro v keyValues
      simp only [EachFound, forall_and, ih]
      exact and_congr_left fun _ => ⟨fun h any found x => h x any found, fun h x any found => h any found x⟩
  | nested field info inner rest ihInner ih =>
      intro v keyValues
      simp only [EachFound, forall_and, ih, nested, ← ihInner]
      exact and_congr_left fun _ => ⟨fun h m found x => h x m found, fun h x m found => h m found x⟩

end Fields

/-- An entry is harmless to a field: its value fits or is the one of the field, or the exception
that is thrown is caught. -/
def EntryKind.Harmless (K : EntryKind α) (Fits : ScalarType → α → Prop) (t : ScalarType)
    (v : t.Value) (any : α) : Prop :=
  match K.castTo t any with
  | .ok v' => Fits t any ∨ v' = v
  | .error .badAnyCast => True
  | .error .outOfRange | .error .endless => False

/-- Casts give a value for the entries of the kind of the field, some of which stop the program,
and fail for all others. -/
structure EntryKind.Casts (K : EntryKind α) (OfKind Stops : ScalarType → α → Prop) : Prop where
  stops : ∀ {t any}, Stops t any →
    K.castTo t any = .error .outOfRange ∨ K.castTo t any = .error .endless
  gives : ∀ {t any}, ¬ Stops t any → OfKind t any → ∃ v, K.castTo t any = .ok v
  fails : ∀ {t any}, ¬ OfKind t any → K.castTo t any = .error .badAnyCast

theorem EntryKind.Casts.harmless_iff {K : EntryKind α} {OfKind Stops : ScalarType → α → Prop}
    (casts : K.Casts OfKind Stops) (Fits : ScalarType → α → Prop) (t : ScalarType) (v : t.Value)
    (any : α) :
    K.Harmless Fits t v any ↔
      ¬ Stops t any ∧ (OfKind t any → Fits t any ∨ K.castTo t any = .ok v) := by
  rw [EntryKind.Harmless]
  by_cases stops : Stops t any
  · rcases casts.stops stops with cast | cast
    all_goals
      rw [cast]
      exact iff_of_false id fun h => h.1 stops
  · by_cases ofKind : OfKind t any
    · obtain ⟨v', cast⟩ := casts.gives stops ofKind
      rw [cast, and_iff_right stops, imp_iff_right ofKind, Except.ok.injEq]
    · rw [casts.fails ofKind]
      exact iff_of_true trivial ⟨stops, fun h => absurd h ofKind⟩

namespace KeyValueVisitor

variable (K : EntryKind α)

/-- A message accepts the decoder: the program goes on, and the fields that find nothing that
fits stay as they are. -/
def Tolerates (Fits : ScalarType → α → Prop) (d : KeyValueVisitor α) (T : MessageType)
    (v : T.Values) : Prop :=
  let accepted := (T.visitable (visitor K)).accept v d
  accepted.2.terminated = false ∧ T.fields.KeepsUnfit K Fits v accepted.1 d.keyValues

variable {K}

/-- What a visit of a scalar does. -/
theorem visit_cases (Fits : ScalarType → α → Prop) (field : FieldInfo) (t : ScalarType)
    (v : t.Value) (keyValues : KeyValueMap Bytes α) :
    ∃ w terminated, (visitor K).visit field t v ⟨keyValues, false⟩ = (w, ⟨keyValues, terminated⟩) ∧
      ((terminated = false ∧ ((∃ any, keyValues.find field.name = some any ∧ Fits t any) ∨ w = v)) ↔
        ∀ any, keyValues.find field.name = some any → K.Harmless Fits t v any) := by
  change ∃ w terminated, visit K field t v ⟨keyValues, false⟩ = _ ∧ _
  rw [visit, if_neg Bool.false_ne_true]
  cases found : keyValues.find field.name with
  | none => exact ⟨v, false, rfl, iff_of_true ⟨rfl, .inr rfl⟩ fun any h => by cases h⟩
  | some any =>
      have only {P : α → Prop} : (∀ any', some any = some any' → P any') ↔ P any :=
        ⟨fun h => h any rfl, fun h any' same => Option.some.inj same ▸ h⟩
      have fits : (∃ any', some any = some any' ∧ Fits t any') ↔ Fits t any := by
        refine ⟨?_, fun h => ⟨any, rfl, h⟩⟩
        rintro ⟨any', same, h⟩
        exact Option.some.inj same ▸ h
      rw [only, EntryKind.Harmless, fits]
      simp only
      cases K.castTo t any with
      | ok v' => exact ⟨v', false, rfl, and_iff_right rfl⟩
      | error e =>
          cases e with
          | badAnyCast => exact ⟨v, false, rfl, iff_of_true ⟨rfl, .inr rfl⟩ trivial⟩
          | outOfRange | endless =>
              exact ⟨v, true, rfl, iff_of_false (fun h => absurd h.1.symm Bool.false_ne_true) id⟩

/-- What a visit of a nested message does, if its fields are visited as given. -/
theorem visitMessage_cases {β : Type} (obj : Visitable (KeyValueVisitor α) β) (v : β)
    (field : FieldInfo) (keyValues : KeyValueMap Bytes α)
    {Kept : β → KeyValueMap Bytes α → Prop} {Found : KeyValueMap Bytes α → Prop}
    (inner : ∀ m, ((obj.accept v ⟨m, false⟩).2.terminated = false ∧
      Kept (obj.accept v ⟨m, false⟩).1 m) ↔ Found m) :
    ∃ w terminated,
      (visitor K).visitMessage field obj v ⟨keyValues, false⟩ = (w, ⟨keyValues, terminated⟩) ∧
      ((terminated = false ∧ (match (keyValues.find field.name).bind K.nested with
          | some m => Kept w m
          | none => w = v)) ↔
        ∀ m, (keyValues.find field.name).bind K.nested = some m → Found m) := by
  change ∃ w terminated, visitMessage K field obj v ⟨keyValues, false⟩ = _ ∧ _
  rw [visitMessage, if_neg Bool.false_ne_true]
  cases (keyValues.find field.name).bind K.nested with
  | none => exact ⟨v, false, rfl, iff_of_true ⟨rfl, rfl⟩ fun m h => by cases h⟩
  | some m =>
      refine ⟨_, _, rfl, (inner m).trans ?_⟩
      exact ⟨fun h m' same => Option.some.inj same ▸ h, fun h => h m rfl⟩

/-- The condition on the first field and the one on the others. -/
theorem and_of_rest {P : Prop} (terminated : Bool) (rest : Fields) (v : rest.Values)
    (Q : rest.Values → Prop) {keyValues : KeyValueMap Bytes α} :
    (((rest.visitable (visitor K)).accept v ⟨keyValues, terminated⟩).2.terminated = false ∧
        P ∧ Q ((rest.visitable (visitor K)).accept v ⟨keyValues, terminated⟩).1) ↔
      (terminated = false ∧ P) ∧
        ((rest.visitable (visitor K)).accept v ⟨keyValues, false⟩).2.terminated = false ∧
        Q ((rest.visitable (visitor K)).accept v ⟨keyValues, false⟩).1 := by
  cases terminated with
  | true =>
      rw [accept_terminated]
      exact iff_of_false (fun h => nomatch h.1) fun h => nomatch h.1.1
  | false =>
      rw [eq_self_iff_true, true_and]
      exact and_left_comm

/-- **Foreign data is tolerated field by field.** -/
theorem fields_tolerate_iff (Fits : ScalarType → α → Prop) (fs : Fields) :
    ∀ (v : fs.Values) (keyValues : KeyValueMap Bytes α),
      (((fs.visitable (visitor K)).accept v ⟨keyValues, false⟩).2.terminated = false ∧
        fs.KeepsUnfit K Fits v ((fs.visitable (visitor K)).accept v ⟨keyValues, false⟩).1
          keyValues) ↔
        fs.EachFound K (K.Harmless Fits) v keyValues := by
  induction fs with
  | nil => intro v keyValues; exact iff_of_true ⟨rfl, trivial⟩ trivial
  | scalar field t rest ih =>
      intro v keyValues
      obtain ⟨w, terminated, visited, harmless⟩ := visit_cases Fits field t v.1 keyValues
      rw [Fields.accept_scalar, visited, Fields.EachFound, ← harmless, ← ih v.2 keyValues]
      exact and_of_rest terminated rest v.2 fun others =>
        rest.KeepsUnfit K Fits v.2 others keyValues
  | nested field info inner rest ihInner ih =>
      intro v keyValues
      obtain ⟨w, terminated, visited, harmless⟩ := visitMessage_cases
        ((MessageType.mk info inner).visitable (visitor K)) v.1 field keyValues (ihInner v.1)
      rw [Fields.accept_nested, visited, Fields.EachFound, ← harmless, ← ih v.2 keyValues]
      exact and_of_rest terminated rest v.2 fun others =>
        rest.KeepsUnfit K Fits v.2 others keyValues

/-- **Foreign data is tolerated** exactly if all entries that are found are harmless. -/
theorem tolerates_iff (Fits : ScalarType → α → Prop) {d : KeyValueVisitor α}
    (goesOn : d.terminated = false) (T : MessageType) (v : T.Values) :
    Tolerates K Fits d T v ↔ T.fields.EachFound K (K.Harmless Fits) v d.keyValues := by
  obtain ⟨keyValues, terminated⟩ := d
  obtain rfl : terminated = false := goesOn
  exact fields_tolerate_iff Fits T.fields v keyValues

end KeyValueVisitor

end Cluon
