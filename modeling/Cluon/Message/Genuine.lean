import Cluon.Message.KeyValueVisitor

/-!
# Values that a decoder does not make up

A decoder that gets only a part of an encoded message should leave every field of its target
either as it was before or with the value of the encoded message (`Fields.Genuine`). A decoder
that looks names up does so for all targets, and without stopping the program, exactly if the
map it has read agrees with the encoded message (`genuine_accept_iff`): no entry gives a field
another value.

Whether a map still agrees when an entry is assigned depends on that entry and on the field of
its name alone (`Fields.agrees_assign_iff`).
-/

set_option autoImplicit false

namespace Cluon

open Library

/-- An entry gives a scalar field the value, or is of another kind. -/
def EntryKind.Gives {α : Type} (K : EntryKind α) (t : ScalarType) (any : α) (x : t.Value) : Prop :=
  K.castTo t any = .ok x ∨ K.castTo t any = .error .badAnyCast

namespace Fields

/-! ## Genuine values -/

/-- Every scalar of a message, those of nested messages included, is the one from before or the
one of the encoded message. -/
def Genuine : (fs : Fields) → (m v w : fs.Values) → Prop
  | .nil, _, _, _ => True
  | .scalar _ _ rest, m, v, w => (w.1 = v.1 ∨ w.1 = m.1) ∧ rest.Genuine m.2 v.2 w.2
  | .nested _ _ fields rest, m, v, w => fields.Genuine m.1 v.1 w.1 ∧ rest.Genuine m.2 v.2 w.2

theorem Genuine.refl (fs : Fields) (m v : fs.Values) : fs.Genuine m v v := by
  induction fs with
  | nil => trivial
  | scalar field t rest ih => exact ⟨.inl rfl, ih m.2 v.2⟩
  | nested field info fields rest ihFields ih => exact ⟨ihFields m.1 v.1, ih m.2 v.2⟩

/-- If the encoded message was there before, nothing else is genuine. -/
theorem Genuine.eq (fs : Fields) {m w : fs.Values} (genuine : fs.Genuine m m w) : w = m := by
  induction fs with
  | nil => rfl
  | scalar field t rest ih => exact Prod.ext (genuine.1.elim id id) (ih genuine.2)
  | nested field info fields rest ihFields ih =>
      exact Prod.ext (ihFields genuine.1) (ih genuine.2)

/-! ## Maps that agree with a message -/

variable {α : Type} (K : EntryKind α)

/-- A map agrees with a message: no entry that a field finds gives it another value. -/
def Agrees : (fs : Fields) → fs.Values → KeyValueMap Bytes α → Prop
  | .nil, _, _ => True
  | .scalar field t rest, m, keyValues =>
      (∀ any, keyValues.find field.name = some any → K.Gives t any m.1) ∧
        rest.Agrees m.2 keyValues
  | .nested field _ inner rest, m, keyValues =>
      (∀ any nested, keyValues.find field.name = some any → K.nested any = some nested →
        inner.Agrees m.1 nested) ∧
        rest.Agrees m.2 keyValues

/-- The field of a name, if there is one, does not get another value from an entry. -/
def Takes (k : Bytes) (any : α) : (fs : Fields) → fs.Values → Prop
  | .nil, _ => True
  | .scalar field t rest, m =>
      (field.name = k → K.Gives t any m.1) ∧ rest.Takes k any m.2
  | .nested field _ inner rest, m =>
      (field.name = k → ∀ nested, K.nested any = some nested → inner.Agrees K m.1 nested) ∧
        rest.Takes k any m.2

/-- A whole message contains the fields: what it takes for the name of one of them is up to that
field. -/
def Contains (all : Fields) (M : all.Values) : (fs : Fields) → fs.Values → Prop
  | .nil, _ => True
  | .scalar field t rest, m =>
      (∀ any, all.Takes K field.name any M ↔ K.Gives t any m.1) ∧ all.Contains M rest m.2
  | .nested field _ inner rest, m =>
      (∀ any, all.Takes K field.name any M ↔
        ∀ nested, K.nested any = some nested → inner.Agrees K m.1 nested) ∧
        all.Contains M rest m.2

variable {K}

/-- Nothing is found in the empty map. -/
theorem agrees_nil (fs : Fields) (m : fs.Values) : fs.Agrees K m [] := by
  induction fs with
  | nil => trivial
  | scalar field t rest ih => exact ⟨nofun, ih m.2⟩
  | nested field info inner rest _ ih => exact ⟨nofun, ih m.2⟩

/-- A map that holds a message agrees with it. -/
theorem Held.agrees {keyValues : KeyValueMap Bytes α} (fs : Fields) :
    ∀ {m : fs.Values}, fs.Held K m keyValues → fs.Agrees K m keyValues := by
  induction fs generalizing keyValues with
  | nil => intro _ _; trivial
  | scalar field t rest ih =>
      rintro m ⟨⟨any, found, cast⟩, held⟩
      refine ⟨fun any' found' => ?_, ih held⟩
      obtain rfl := Option.some.inj (found.symm.trans found')
      exact .inl cast
  | nested field info inner rest ihInner ih =>
      rintro m ⟨⟨any, nested, found, kind, heldInner⟩, held⟩
      refine ⟨fun any' nested' found' kind' => ?_, ih held⟩
      obtain rfl := Option.some.inj (found.symm.trans found')
      obtain rfl := Option.some.inj (kind.symm.trans kind')
      exact ihInner heldInner

/-- **Assigning an entry.** A map that agrees with a message still does if and only if the field
of the entry's name takes the entry. -/
theorem agrees_assign_iff {k : Bytes} {any : α} {keyValues : KeyValueMap Bytes α} (fs : Fields) :
    ∀ {m : fs.Values}, fs.Agrees K m keyValues →
      (fs.Agrees K m (keyValues.assign k any) ↔ fs.Takes K k any m) := by
  induction fs with
  | nil => intro _ _; exact Iff.rfl
  | scalar field t rest ih =>
      rintro m ⟨here, agrees⟩
      refine and_congr ?_ (ih agrees)
      simp only [KeyValueMap.find_assign]
      by_cases same : k = field.name
      · simp [same]
      · rw [if_neg same]
        exact iff_of_true here fun h => absurd h.symm same
  | nested field info inner rest _ ih =>
      rintro m ⟨here, agrees⟩
      refine and_congr ?_ (ih agrees)
      simp only [KeyValueMap.find_assign]
      by_cases same : k = field.name
      · simp only [same, if_true, Option.some.injEq, true_implies]
        exact ⟨fun h nested => h any nested rfl, fun h any' nested eq => eq ▸ h nested⟩
      · rw [if_neg same]
        exact iff_of_true here fun h => absurd h.symm same

/-- An entry of another name makes no difference. -/
theorem agrees_assign_of_notMem {k : Bytes} {any : α} {keyValues : KeyValueMap Bytes α}
    (fs : Fields) : ∀ {m : fs.Values}, k ∉ fs.keys FieldInfo.name →
      (fs.Agrees K m (keyValues.assign k any) ↔ fs.Agrees K m keyValues) := by
  induction fs with
  | nil => intro _ _; exact Iff.rfl
  | scalar field t rest ih =>
      intro m other
      obtain ⟨first, later⟩ := not_or.mp (List.mem_cons.not.mp other)
      simp only [Agrees, KeyValueMap.find_assign, if_neg first, ih later]
  | nested field info inner rest _ ih =>
      intro m other
      obtain ⟨first, later⟩ := not_or.mp (List.mem_cons.not.mp other)
      simp only [Agrees, KeyValueMap.find_assign, if_neg first, ih later]

theorem takes_of_notMem {k : Bytes} {any : α} (fs : Fields) :
    ∀ {m : fs.Values}, k ∉ fs.keys FieldInfo.name → fs.Takes K k any m := by
  induction fs with
  | nil => intro _ _; trivial
  | scalar field t rest ih =>
      intro m other
      obtain ⟨first, later⟩ := not_or.mp (List.mem_cons.not.mp other)
      exact ⟨fun same => absurd same.symm first, ih later⟩
  | nested field info inner rest _ ih =>
      intro m other
      obtain ⟨first, later⟩ := not_or.mp (List.mem_cons.not.mp other)
      exact ⟨fun same => absurd same.symm first, ih later⟩

/-- What the whole message takes matters only for the names of the fields. -/
theorem Contains.congr {all all' : Fields} {M : all.Values} {M' : all'.Values} (fs : Fields) :
    ∀ {m : fs.Values}, all.Contains K M fs m →
      (∀ k ∈ fs.keys FieldInfo.name, ∀ any, all'.Takes K k any M' ↔ all.Takes K k any M) →
      all'.Contains K M' fs m := by
  induction fs with
  | nil => intro _ _ _; trivial
  | scalar field t rest ih =>
      rintro m ⟨here, contains⟩ same
      refine ⟨fun any => (same _ List.mem_cons_self any).trans (here any), ih contains ?_⟩
      exact fun k hk => same k (List.mem_cons_of_mem _ hk)
  | nested field info inner rest _ ih =>
      rintro m ⟨here, contains⟩ same
      refine ⟨fun any => (same _ List.mem_cons_self any).trans (here any), ih contains ?_⟩
      exact fun k hk => same k (List.mem_cons_of_mem _ hk)

/-- A message whose fields have different names contains its own fields. -/
theorem contains_self (fs : Fields) :
    fs.DistinctNames → ∀ m : fs.Values, fs.Contains K m fs m := by
  induction fs with
  | nil => intro _ _; trivial
  | scalar field t rest ih =>
      rintro ⟨new, distinct⟩ m
      refine ⟨fun any => ⟨fun h => h.1 rfl, fun h => ⟨fun _ => h, takes_of_notMem rest new⟩⟩, ?_⟩
      refine (ih distinct m.2).congr rest fun k hk any => ⟨fun h => h.2, fun h => ⟨?_, h⟩⟩
      rintro rfl
      exact absurd hk new
  | nested field info inner rest _ ih =>
      rintro ⟨new, _, distinct⟩ m
      refine ⟨fun any => ⟨fun h => h.1 rfl, fun h => ⟨fun _ => h, takes_of_notMem rest new⟩⟩, ?_⟩
      refine (ih distinct m.2).congr rest fun k hk any => ⟨fun h => h.2, fun h => ⟨?_, h⟩⟩
      rintro rfl
      exact absurd hk new

end Fields

/-! ## What the targets get -/

namespace KeyValueVisitor

variable {α : Type} {K : EntryKind α}

/-- A scalar gets for every target the value of the message or stays, and the program goes on,
exactly if no entry gives it another value. -/
theorem visit_genuine_iff {field : FieldInfo} {t : ScalarType} {x : t.Value}
    {keyValues : KeyValueMap Bytes α} :
    (∀ v : t.Value, ∃ w, (visitor K).visit field t v ⟨keyValues, false⟩ = (w, ⟨keyValues, false⟩) ∧
      (w = v ∨ w = x)) ↔
      ∀ any, keyValues.find field.name = some any → K.Gives t any x := by
  have visits (v : t.Value) : (visitor K).visit field t v ⟨keyValues, false⟩ =
      visit K field t v ⟨keyValues, false⟩ := rfl
  simp only [visits, visit, Bool.false_eq_true, if_false]
  cases found : keyValues.find field.name with
  | none =>
      exact iff_of_true (fun v => ⟨v, rfl, .inl rfl⟩) fun any h => by cases h
  | some any =>
      simp only [Option.some.injEq, forall_eq', EntryKind.Gives]
      cases cast : K.castTo t any with
      | ok y =>
          constructor
          · intro genuine
            obtain ⟨v, differs⟩ := exists_ne y
            obtain ⟨w, same, prior | encoded⟩ := genuine v
            · exact absurd ((congrArg Prod.fst same).trans prior).symm differs
            · exact .inl (congrArg Except.ok ((congrArg Prod.fst same).trans encoded))
          · rintro (same | other) v
            · exact ⟨y, rfl, .inr (Except.ok.inj same)⟩
            · cases other
      | error e =>
          cases e with
          | badAnyCast => exact iff_of_true (fun v => ⟨v, rfl, .inl rfl⟩) (.inr rfl)
          | outOfRange | endless =>
              refine iff_of_false (fun genuine => ?_) (by simp)
              obtain ⟨v, _⟩ := exists_ne x
              obtain ⟨w, same, _⟩ := genuine v
              exact absurd (congrArg (fun r => r.2.terminated) same) (by simp)

/-- No visit changes the map of a decoder. -/
theorem keyValues_visit (field : FieldInfo) (t : ScalarType) (v : t.Value)
    (d : KeyValueVisitor α) : ((visitor K).visit field t v d).2.keyValues = d.keyValues := by
  change (visit K field t v d).2.keyValues = d.keyValues
  rw [visit]
  split
  · rfl
  · split
    · split <;> rfl
    · rfl

theorem keyValues_visitMessage {β : Type} (field : FieldInfo)
    (obj : Visitable (KeyValueVisitor α) β) (v : β) (d : KeyValueVisitor α) :
    ((visitor K).visitMessage field obj v d).2.keyValues = d.keyValues := by
  change (visitMessage K field obj v d).2.keyValues = d.keyValues
  rw [visitMessage]
  split
  · rfl
  · split <;> rfl

theorem keyValues_accept (fs : Fields) :
    ∀ (v : fs.Values) (d : KeyValueVisitor α),
      ((fs.visitable (visitor K)).accept v d).2.keyValues = d.keyValues := by
  induction fs with
  | nil => intro _ _; rfl
  | scalar field t rest ih =>
      intro v d
      rw [Fields.accept_scalar]
      exact (ih v.2 _).trans (keyValues_visit field t v.1 d)
  | nested field info inner rest _ ih =>
      intro v d
      rw [Fields.accept_nested]
      exact (ih v.2 _).trans (keyValues_visitMessage field _ v.1 d)

/-- If the other fields do not find the program stopped, the first one has not stopped it. -/
theorem running_of_accept {fs : Fields} {v w : fs.Values} {d : KeyValueVisitor α}
    {keyValues : KeyValueMap Bytes α} (unchanged : d.keyValues = keyValues)
    (accepted : (fs.visitable (visitor K)).accept v d = (w, ⟨keyValues, false⟩)) :
    d = ⟨keyValues, false⟩ := by
  obtain ⟨_, terminated⟩ := d
  obtain rfl : _ = keyValues := unchanged
  cases terminated with
  | false => rfl
  | true =>
      rw [accept_terminated] at accepted
      exact absurd (congrArg (fun r => r.2.terminated) accepted) (by simp)

/-- A nested message, likewise, if its fields are genuine for its own map. -/
theorem visitMessage_genuine_iff {field : FieldInfo} (info : MessageInfo) {inner : Fields}
    {m : inner.Values} {keyValues : KeyValueMap Bytes α}
    (accepts : ∀ nested : KeyValueMap Bytes α,
      (∀ v, ∃ w, (inner.visitable (visitor K)).accept v ⟨nested, false⟩ = (w, ⟨nested, false⟩) ∧
        inner.Genuine m v w) ↔ inner.Agrees K m nested) :
    (∀ v : inner.Values, ∃ w, (visitor K).visitMessage field
        ((MessageType.mk info inner).visitable (visitor K)) v ⟨keyValues, false⟩ =
          (w, ⟨keyValues, false⟩) ∧ inner.Genuine m v w) ↔
      ∀ any nested, keyValues.find field.name = some any → K.nested any = some nested →
        inner.Agrees K m nested := by
  have visits (v : inner.Values) : (visitor K).visitMessage field
      ((MessageType.mk info inner).visitable (visitor K)) v ⟨keyValues, false⟩ =
      visitMessage K field ((MessageType.mk info inner).visitable (visitor K)) v
        ⟨keyValues, false⟩ := rfl
  simp only [visits, visitMessage, Bool.false_eq_true, if_false]
  cases entry : (keyValues.find field.name).bind K.nested with
  | none =>
      refine iff_of_true (fun v => ⟨v, rfl, Fields.Genuine.refl inner m v⟩) ?_
      intro any nested found kind
      rw [found, Option.bind_some, kind] at entry
      cases entry
  | some nested =>
      obtain ⟨any, found, kind⟩ := Option.bind_eq_some_iff.mp entry
      have only : (∀ any' nested', keyValues.find field.name = some any' →
          K.nested any' = some nested' → inner.Agrees K m nested') ↔ inner.Agrees K m nested := by
        refine ⟨fun all => all any nested found kind, fun agrees any' nested' found' kind' => ?_⟩
        obtain rfl := Option.some.inj (found.symm.trans found')
        obtain rfl := Option.some.inj (kind.symm.trans kind')
        exact agrees
      rw [only, ← accepts nested]
      apply forall_congr'
      intro v
      have kept := keyValues_accept (K := K) inner v ⟨nested, false⟩
      have accept_eq : ((MessageType.mk info inner).visitable (visitor K)).accept v
          ⟨nested, false⟩ = (inner.visitable (visitor K)).accept v ⟨nested, false⟩ := rfl
      simp only [accept_eq]
      rcases accepted : (inner.visitable (visitor K)).accept v ⟨nested, false⟩ with ⟨w, d⟩
      rw [accepted] at kept
      obtain ⟨_, terminated⟩ := d
      obtain rfl : _ = nested := kept
      simp [Prod.ext_iff]

/-- What is asked of all fields is asked of the first one and of the others. -/
theorem accept_head_iff {β : Type} (head : β → β × KeyValueVisitor α) (rest : Fields)
    {keyValues : KeyValueMap Bytes α} (unchanged : ∀ v, (head v).2.keyValues = keyValues)
    {P : β → β → Prop} {x : β} {m : rest.Values} :
    (∀ v : β × rest.Values, ∃ w : β × rest.Values,
      (let visited := head v.1
        let others := (rest.visitable (visitor K)).accept v.2 visited.2
        ((visited.1, others.1), others.2)) = (w, ⟨keyValues, false⟩) ∧
        P v.1 w.1 ∧ rest.Genuine m v.2 w.2) ↔
      (∀ v, ∃ w, head v = (w, ⟨keyValues, false⟩) ∧ P v w) ∧
        ∀ v, ∃ w, (rest.visitable (visitor K)).accept v ⟨keyValues, false⟩ =
          (w, ⟨keyValues, false⟩) ∧ rest.Genuine m v w := by
  constructor
  · intro all
    have first (v : β) : ∃ w, head v = (w, ⟨keyValues, false⟩) ∧ P v w := by
      obtain ⟨w, accepted, genuine, _⟩ := all (v, m)
      obtain ⟨values, decoder⟩ := Prod.mk.inj accepted
      have running := running_of_accept (unchanged v) (Prod.ext rfl decoder)
      have value : (head v).1 = w.1 := congrArg Prod.fst values
      exact ⟨w.1, Prod.ext value running, genuine⟩
    refine ⟨first, fun v => ?_⟩
    obtain ⟨_, visited, _⟩ := first x
    obtain ⟨w, accepted, _, genuine⟩ := all (x, v)
    simp only [visited] at accepted
    obtain ⟨values, decoder⟩ := Prod.mk.inj accepted
    exact ⟨w.2, Prod.ext (congrArg Prod.snd values) decoder, genuine⟩
  · rintro ⟨first, others⟩ v
    obtain ⟨y, visited, genuine⟩ := first v.1
    obtain ⟨w, accepted, genuine'⟩ := others v.2
    refine ⟨(y, w), ?_, genuine, genuine'⟩
    simp only [visited, accepted]

/-- **What is genuine.** For every target the program goes on and leaves all fields genuine, if
and only if the map of the decoder agrees with the encoded message. -/
theorem genuine_accept_iff (fs : Fields) :
    ∀ {m : fs.Values} {keyValues : KeyValueMap Bytes α},
      (∀ v, ∃ w, (fs.visitable (visitor K)).accept v ⟨keyValues, false⟩ =
        (w, ⟨keyValues, false⟩) ∧ fs.Genuine m v w) ↔ fs.Agrees K m keyValues := by
  induction fs with
  | nil => intro _ _; exact iff_of_true (fun v => ⟨v, rfl, trivial⟩) trivial
  | scalar field t rest ih =>
      intro m keyValues
      rw [Fields.Agrees, ← visit_genuine_iff, ← ih]
      exact accept_head_iff (K := K)
        (fun v => (visitor K).visit field t v ⟨keyValues, false⟩) rest
        (fun v => keyValues_visit field t v ⟨keyValues, false⟩)
        (P := fun v w => w = v ∨ w = m.1) (x := m.1) (m := m.2)
  | nested field info inner rest ihInner ih =>
      intro m keyValues
      rw [Fields.Agrees, ← visitMessage_genuine_iff info (fun _ => ihInner), ← ih]
      exact accept_head_iff (K := K)
        (fun v => (visitor K).visitMessage field
          ((MessageType.mk info inner).visitable (visitor K)) v ⟨keyValues, false⟩) rest
        (fun v => keyValues_visitMessage field _ v ⟨keyValues, false⟩)
        (P := inner.Genuine m.1) (x := m.1) (m := m.2)

end KeyValueVisitor

end Cluon
