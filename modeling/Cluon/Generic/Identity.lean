import Cluon.Generic.FromMessage

/-!
# The names of generic messages

A generic message that is created from a message should have the identifier and the names of it,
also if it is created from such a generic message again, and so on. The package is recovered by
searching the short name in the long one; from there it ends one position before. That is right for
a message in a package, as the short name is found at its last position. For a message without
package it is found at the very beginning, and the long name is taken for the package
(`MessageType.keepsIdentity_iff`).
-/

set_option autoImplicit false

namespace Cluon

open Library

/-! ## Searching from the end -/

theorem rfind_of_length_lt {s : Bytes} (str : Bytes) :
    str.length < s.length → rfind s str = none := by
  induction str with
  | nil =>
      intro longer
      rw [rfind, if_neg (List.length_pos_iff.mp longer)]
  | cons c str ih =>
      intro longer
      have notHere : ¬ s <+: c :: str := fun h => absurd h.length_le (Nat.not_le.mpr longer)
      rw [rfind, ih ((Nat.lt_succ_self _).trans longer)]
      exact if_neg notHere

/-- **A string is found at the end.** -/
theorem rfind_append {s : Bytes} (some : s ≠ []) (p : Bytes) : rfind s (p ++ s) = p.length := by
  induction p with
  | nil =>
      cases s with
      | nil => exact absurd rfl some
      | cons c s =>
          rw [List.nil_append, rfind, rfind_of_length_lt s (Nat.lt_succ_self _)]
          exact if_pos List.prefix_rfl
  | cons c p ih =>
      rw [List.cons_append, rfind, ih]
      rfl

/-! ## Accepting visitors -/

namespace AnyGenericMessage

/-- `ID()`, `ShortName()`, and `LongName()`. -/
def info (gm : AnyGenericMessage) : MessageInfo := gm.members.info

section Accept

variable {σ : Type} (V : Visitor σ)

/-- A visit of the fields of a generic message. -/
def acceptAround (visit : List MetaField → KeyValueMap (BitVec 32) (LinbAny AnyGenericMessage) →
    σ → KeyValueMap (BitVec 32) (LinbAny AnyGenericMessage) × σ) (gm : AnyGenericMessage) (s : σ) :
    AnyGenericMessage × σ :=
  let visited := GenericMessage.acceptAround V visit gm.members s
  (.mk visited.1.metaMessage visited.1.intermediateDataRepresentation, visited.2)

/-- The two `accept` methods of a generic message whose messages are nested less than `n` deep. -/
def visitable : (n : Nat) → Visitable σ AnyGenericMessage
  | 0 => ⟨fun gm s => (gm, s), fun _ gm s => (gm, s)⟩
  | n + 1 =>
      ⟨fun gm s => gm.acceptAround V (GenericMessage.visitFields V (visitable n)) s,
       fun fieldId gm s =>
        gm.acceptAround V (GenericMessage.visitFirst V (visitable n) fieldId) s⟩

end Accept

/-- The generic message after `createFrom` has been applied to it `k` more times, for messages that
are nested at most `n` deep. -/
def createAgain (n : Nat) : (k : Nat) → AnyGenericMessage → AnyGenericMessage
  | 0, gm => gm
  | k + 1, gm =>
      createAgain n k (createFrom (visitable GenericMessageVisitor.visitor (n + 1)) gm).2

end AnyGenericMessage

/-- A message name: not empty, and without dots and white space. -/
def IsMessageName (name : Bytes) : Prop :=
  name ≠ [] ∧ ∀ c ∈ name, GenericMessageOf.isspace c = false ∧ c ≠ 0x2E

/-- The long name is the short one, or has a package and a dot in front of it. -/
def MessageInfo.Named (info : MessageInfo) : Prop :=
  IsMessageName info.shortName ∧ (info.longName = info.shortName ∨
    ∃ package, package ≠ [] ∧ info.longName = package ++ asciiBytes "." ++ info.shortName)

/-- A generic message that is created from a message, and `k` times again from the generic message
before, keeps the identity of the message. -/
def MessageType.KeepsIdentity (T : MessageType) (m : T.Values) (n k : Nat) : Prop :=
  (AnyGenericMessage.createAgain n k
    (AnyGenericMessage.createFrom (T.visitable GenericMessageVisitor.visitor) m).2).info = T.info

/-! ## What the names depend on -/

namespace GenericMessageVisitor

/-- The visits of fields leave what has been written down about the message. -/
structure SameIdentity (gmv gmv' : GenericMessageVisitor) : Prop where
  packageName_eq : gmv'.metaMessage.packageName = gmv.metaMessage.packageName
  messageName_eq : gmv'.metaMessage.messageName = gmv.metaMessage.messageName
  messageIdentifier_eq : gmv'.metaMessage.messageIdentifier = gmv.metaMessage.messageIdentifier

theorem SameIdentity.trans {gmv gmv' gmv'' : GenericMessageVisitor} (first : SameIdentity gmv gmv')
    (second : SameIdentity gmv' gmv'') : SameIdentity gmv gmv'' where
  packageName_eq := second.packageName_eq.trans first.packageName_eq
  messageName_eq := second.messageName_eq.trans first.messageName_eq
  messageIdentifier_eq := second.messageIdentifier_eq.trans first.messageIdentifier_eq

theorem SameIdentity.info_eq {gmv gmv' : GenericMessageVisitor} (same : SameIdentity gmv gmv') :
    gmv'.message.info = gmv.message.info := by
  have longName : gmv'.message.members.longName = gmv.message.members.longName := by
    change gmv'.metaMessage.packageName ++ (if gmv'.metaMessage.packageName ≠ [] then _ else []) ++
      gmv'.metaMessage.messageName = _
    rw [same.packageName_eq, same.messageName_eq]
    rfl
  change MessageInfo.mk gmv'.metaMessage.messageIdentifier gmv'.message.members.shortName
    gmv'.message.members.longName = _
  rw [GenericMessageOf.shortName, GenericMessageOf.tokens, longName, same.messageIdentifier_eq]
  rfl

theorem sameIdentity_add (gmv : GenericMessageVisitor) (field : FieldInfo)
    (type : MetaFieldDataType) (value : LinbAny AnyGenericMessage) :
    SameIdentity gmv (gmv.add field type value) := ⟨rfl, rfl, rfl⟩

/-- The fields of a generic message. -/
theorem sameIdentity_visitFields (nested : Visitable GenericMessageVisitor AnyGenericMessage)
    (fs : List MetaField) :
    ∀ (data : KeyValueMap (BitVec 32) (LinbAny AnyGenericMessage)) (gmv : GenericMessageVisitor),
      SameIdentity gmv (GenericMessage.visitFields visitor nested fs data gmv).2 := by
  have one (f : MetaField) (data : KeyValueMap (BitVec 32) (LinbAny AnyGenericMessage))
      (gmv : GenericMessageVisitor) :
      SameIdentity gmv (GenericMessage.visitField visitor nested f data gmv).2 := by
    rw [GenericMessage.visitField]
    split
    · split
      · exact gmv.sameIdentity_add _ _ _
      · exact ⟨rfl, rfl, rfl⟩
    · split
      · exact gmv.sameIdentity_add _ _ _
      · exact ⟨rfl, rfl, rfl⟩
    · exact ⟨rfl, rfl, rfl⟩
  induction fs with
  | nil => intro data gmv; exact ⟨rfl, rfl, rfl⟩
  | cons f fs ih => intro data gmv; exact (one f data gmv).trans (ih _ _)

end GenericMessageVisitor

namespace AnyGenericMessage

open GenericMessageVisitor

/-- What a message is called that has been created from one with the given names. -/
def recovered (info : MessageInfo) : MessageInfo := (init.preVisit info).message.info

theorem info_createFrom (T : MessageType) (m : T.Values) :
    (createFrom (T.visitable GenericMessageVisitor.visitor) m).2.info = recovered T.info := by
  have accepted := accept_fields T.fields m (init.preVisit T.info)
  have same : SameIdentity (init.preVisit T.info) ((init.preVisit T.info).addAll
      T.fields.metaFields (T.fields.anyEntries m)) := ⟨rfl, rfl, rfl⟩
  refine Eq.trans ?_ same.info_eq
  exact congrArg (fun r : T.Values × GenericMessageVisitor => r.2.message.info) accepted

theorem info_createFrom_again (n : Nat) (gm : AnyGenericMessage) :
    (createFrom (visitable GenericMessageVisitor.visitor (n + 1)) gm).2.info =
      recovered gm.info :=
  (sameIdentity_visitFields (visitable GenericMessageVisitor.visitor n)
    gm.members.metaMessage.listOfMetaFields gm.members.intermediateDataRepresentation
    (init.preVisit gm.info)).info_eq

theorem info_createAgain {info : MessageInfo} (fixed : recovered info = info) (n k : Nat) :
    ∀ {gm : AnyGenericMessage}, gm.info = info → (createAgain n k gm).info = info := by
  induction k with
  | zero => intro gm same; exact same
  | succ k ih =>
      intro gm same
      refine ih ((info_createFrom_again n gm).trans ?_)
      rw [same, fixed]

/-! ## The names that are recovered -/

/-- The last token of a long name. -/
theorem shortName_of_package {gm : GenericMessageOf AnyGenericMessage}
    (name : IsMessageName gm.metaMessage.messageName) (some : gm.metaMessage.packageName ≠ []) :
    gm.shortName = gm.metaMessage.messageName := by
  set short := gm.metaMessage.messageName
  have kept : (short.map fun c => if c = 0x2E then 0x20 else c) = short := by
    refine (List.map_congr_left fun c hc => ?_).trans (List.map_id short)
    exact if_neg (name.2 c hc).2
  have longName : gm.longName = gm.metaMessage.packageName ++ 0x2E :: short := by
    rw [GenericMessageOf.longName, if_pos some, List.append_assoc]
    rfl
  have last : short.splitOnP GenericMessageOf.isspace = [short] :=
    List.splitOnP_eq_singleton fun c hc => (name.2 c hc).1
  rw [GenericMessageOf.shortName, GenericMessageOf.tokens, longName]
  simp only [List.map_append, List.map_cons, kept, if_true]
  rw [List.splitOnP_append_cons _ _ (by decide), last, List.filter_append]
  simp [name.1]

/-- A message gets a long name from the package that has been written down. -/
theorem recovered_of_written {info : MessageInfo} (name : IsMessageName info.shortName)
    {package : Bytes} (some : package ≠ []) (written : (init.preVisit info).metaMessage =
      ⟨package, info.shortName, info.id, []⟩) :
    recovered info = { info with longName := package ++ asciiBytes "." ++ info.shortName } := by
  have members : (init.preVisit info).message.members.metaMessage =
      ⟨package, info.shortName, info.id, []⟩ := written
  have short : (init.preVisit info).message.members.shortName = info.shortName := by
    rw [shortName_of_package]
    · rw [members]
    · rw [members]
      exact name
    · rw [members]
      exact some
  have longName : (init.preVisit info).message.members.longName =
      package ++ asciiBytes "." ++ info.shortName := by
    rw [GenericMessageOf.longName, members]
    exact congrArg (package ++ · ++ info.shortName) (if_pos some)
  change MessageInfo.mk (init.preVisit info).message.members.metaMessage.messageIdentifier
    (init.preVisit info).message.members.shortName
    (init.preVisit info).message.members.longName = _
  rw [members, short, longName]

/-- **The names of a message in a package are recovered.** -/
theorem recovered_of_package {info : MessageInfo} (name : IsMessageName info.shortName)
    {package : Bytes} (some : package ≠ [])
    (long : info.longName = package ++ asciiBytes "." ++ info.shortName) :
    recovered info = info := by
  have found : rfind info.shortName info.longName = (package.length + 1 : Nat) := by
    rw [long, rfind_append name.1, List.length_append]
    rfl
  have notEmpty : info.longName ≠ [] := by
    rw [long]
    simp [some]
  have before : substrBefore info.longName (package.length + 1) = package := by
    rw [substrBefore, if_neg (Nat.succ_ne_zero _), Nat.add_sub_cancel, long, List.append_assoc]
    exact List.take_left
  have written : (init.preVisit info).metaMessage =
      ⟨package, info.shortName, info.id, []⟩ := by
    rw [preVisit, if_pos notEmpty, found]
    simp only [before]
    rfl
  rw [recovered_of_written name some written, ← long]

/-- A message without a package gets its own name as the package. -/
theorem recovered_of_same {info : MessageInfo} (name : IsMessageName info.shortName)
    (same : info.longName = info.shortName) :
    recovered info =
      { info with longName := info.shortName ++ asciiBytes "." ++ info.shortName } := by
  have found : rfind info.shortName info.longName = (0 : Nat) := by
    rw [same]
    exact rfind_append name.1 []
  have notEmpty : info.longName ≠ [] := same.symm ▸ name.1
  have before : substrBefore info.longName 0 = info.shortName := (if_pos rfl).trans same
  have written : (init.preVisit info).metaMessage =
      ⟨info.shortName, info.shortName, info.id, []⟩ := by
    rw [preVisit, if_pos notEmpty, found]
    simp only [before]
    rfl
  exact recovered_of_written name name.1 written

end AnyGenericMessage

/-- A name with a package in front is another name. -/
theorem append_dot_ne (package name : Bytes) : package ++ asciiBytes "." ++ name ≠ name := by
  intro same
  have lengths := congrArg List.length same
  have one : (asciiBytes ".").length = 1 := rfl
  simp only [List.length_append] at lengths
  omega

/-- **Generic messages keep the identity of messages in a package**, and of these only: a message
without a package is called `Foo.Foo` for `Foo` in all generic messages that come from it. -/
theorem MessageType.keepsIdentity_iff {T : MessageType} (named : T.info.Named) (m : T.Values)
    (n k : Nat) : T.KeepsIdentity m n k ↔ T.info.longName ≠ T.info.shortName := by
  have created := AnyGenericMessage.info_createFrom T m
  obtain ⟨name, same | ⟨package, some, long⟩⟩ := named
  · have first := AnyGenericMessage.recovered_of_same name same
    have fixed : AnyGenericMessage.recovered { T.info with
        longName := T.info.shortName ++ asciiBytes "." ++ T.info.shortName } = _ :=
      AnyGenericMessage.recovered_of_package name name.1 rfl
    have always := AnyGenericMessage.info_createAgain fixed n k (created.trans first)
    refine iff_of_false (fun keeps => ?_) (not_not.mpr same)
    have names := congrArg MessageInfo.longName (always.symm.trans keeps)
    exact append_dot_ne _ _ (names.trans same)
  · have fixed := AnyGenericMessage.recovered_of_package name some long
    have always := AnyGenericMessage.info_createAgain fixed n k (created.trans fixed)
    exact iff_of_true always fun same => append_dot_ne _ _ (long.symm.trans same)

theorem MessageType.keepsIdentity_iff_timeStamp :
    TimeStamp.KeepsIdentity (TimeStamp.of 1 2) 0 3 ↔
      TimeStamp.info.longName ≠ TimeStamp.info.shortName :=
  MessageType.keepsIdentity_iff ⟨⟨by decide, by decide⟩,
    .inr ⟨asciiBytes "cluon.data", by decide, rfl⟩⟩ _ 0 3

/-- A message without a package. -/
def MessageType.unpackaged : MessageType := ⟨⟨1, asciiBytes "Foo", asciiBytes "Foo"⟩, .nil⟩

/-- **A message without a package does not keep its name**: `Foo` becomes `Foo.Foo`. -/
theorem MessageType.not_keepsIdentity :
    ¬ ∀ (T : MessageType) (m : T.Values) (n k : Nat), T.info.Named → T.KeepsIdentity m n k := by
  intro keeps
  have named : unpackaged.info.Named := ⟨⟨by decide, by decide⟩, .inl rfl⟩
  have twice : (AnyGenericMessage.createFrom
      (unpackaged.visitable GenericMessageVisitor.visitor) ()).2.info.longName =
        asciiBytes "Foo.Foo" := by decide
  have once := congrArg MessageInfo.longName (keeps unpackaged () 0 0 named)
  exact absurd (twice.symm.trans once) (by decide)

end Cluon
