import Cluon.Specification.Duplicates

/-!
# Specifications without duplicates

`createMetaMessage` takes the last identifier of a field, and for fields without identifiers it
counts from one on, whatever identifiers the other fields have. `check4UniqueFieldNames` does not
see the counted identifiers, and of the others only the first of each field. So a field without
an identifier can get the identifier of another field, and a second identifier of a field can be
that of another one. Both are accepted, and so are two message names that differ in line ends
only. A duplicate is not reported either when an identifier is no `int`, because then an
exception leaves `parse`.

That accepted specifications are free of duplicates, and that duplicates are reported and nothing
else is, holds exactly for the other texts (`duplicatesReported_iff`).
-/

set_option autoImplicit false

namespace Cluon

open Library PEG

namespace MessageParser

/-! ## The identifiers of the fields -/

/-- The identifiers of fields, where those without one are counted. -/
def fieldIdentifiers : BitVec 32 → List FieldNode → List (BitVec 32)
  | _, [] => []
  | counter, f :: fs =>
      match f.identifiers.getLast? with
      | some token => BitVec.ofNat 32 (number token) :: fieldIdentifiers counter fs
      | none => (counter + 1) :: fieldIdentifiers (counter + 1) fs

/-- The name of a field is not trimmed any more, and its identifier is the last one. -/
theorem createMetaFields_cons {f : FieldNode} (wellFormed : FieldWellFormed f)
    (counter : BitVec 32) (fs : List FieldNode) :
    createMetaFields counter (f :: fs) =
      if f.Creatable then
        (createMetaFields (if f.identifiers = [] then counter + 1 else counter) fs).map
          (⟨fieldDataType f.primitiveType, stringtoolbox.trim f.primitiveType, f.name,
            match f.identifiers.getLast? with
            | some token => BitVec.ofNat 32 (number token)
            | none => counter + 1,
            f.defaultInitializerValue⟩ :: ·)
      else none := by
  have name := trim_name wellFormed.name
  rcases last : f.identifiers.getLast? with _ | token
  · have none' : f.identifiers = [] := List.getLast?_eq_none_iff.mp last
    have creatable : f.Creatable := fun token member => by
      rw [last] at member
      cases member
    rw [if_pos creatable, if_pos none']
    simp only [createMetaFields, last, name, Option.getD_none, if_true, ne_eq, not_true, if_false,
      Option.bind_eq_bind, Option.bind_some]
    rw [Option.map_eq_bind]
    rfl
  · have member : token ∈ f.identifiers := List.mem_of_getLast? last
    have isNumber := wellFormed.identifiers token member
    obtain ⟨trimmed, same⟩ := number_trim isNumber
    have nonempty : token ≠ [] := by
      obtain ⟨c, s, rfl, -⟩ := isNumber
      exact List.cons_ne_nil c s
    have some' : f.identifiers ≠ [] := List.ne_nil_of_mem member
    have creatable : f.Creatable ↔ number token < 2 ^ 31 := by
      simp [FieldNode.Creatable, last]
    rw [if_neg some']
    simp only [createMetaFields, last, name, Option.getD_some, nonempty, if_false, ne_eq,
      not_false_eq_true, if_true, stoi_of_isNumber trimmed, same, creatable, Option.bind_eq_bind]
    by_cases small : number token < 2 ^ 31
    · rw [if_pos small, if_pos small, Option.map_some, Option.bind_some, BitVec.ofInt_natCast,
        Option.map_eq_bind]
      rfl
    · rw [if_neg small, if_neg small]
      rfl

/-- **What `createMetaFields` makes.** -/
theorem createMetaFields_eq_some {fs : List FieldNode} (wellFormed : ∀ f ∈ fs, FieldWellFormed f) :
    ∀ {counter : BitVec 32} {mfs : List MetaField}, createMetaFields counter fs = some mfs →
      mfs.map MetaField.fieldIdentifier = fieldIdentifiers counter fs ∧
        mfs.map MetaField.fieldName = fs.map FieldNode.name ∧ ∀ f ∈ fs, f.Creatable := by
  induction fs with
  | nil =>
      intro counter mfs h
      obtain rfl := Option.some.inj h
      exact ⟨rfl, rfl, nofun⟩
  | cons f fs ih =>
      intro counter mfs h
      obtain ⟨here, others⟩ := List.forall_mem_cons.mp wellFormed
      rw [createMetaFields_cons here] at h
      by_cases creatable : f.Creatable
      · rw [if_pos creatable] at h
        obtain ⟨mfs, found, rfl⟩ := Option.map_eq_some_iff.mp h
        obtain ⟨ids, names, all⟩ := ih others found
        refine ⟨?_, ?_, List.forall_mem_cons.mpr ⟨creatable, all⟩⟩
        · rw [List.map_cons, ids, fieldIdentifiers]
          rcases last : f.identifiers.getLast? with _ | token
          · rw [if_pos (List.getLast?_eq_none_iff.mp last)]
          · rw [if_neg (List.ne_nil_of_mem (List.mem_of_getLast? last))]
        · rw [List.map_cons, names, List.map_cons]
      · rw [if_neg creatable] at h
        cases h

theorem exists_createMetaFields {fs : List FieldNode} (wellFormed : ∀ f ∈ fs, FieldWellFormed f)
    (creatable : ∀ f ∈ fs, f.Creatable) (counter : BitVec 32) :
    ∃ mfs, createMetaFields counter fs = some mfs := by
  induction fs generalizing counter with
  | nil => exact ⟨[], rfl⟩
  | cons f fs ih =>
      obtain ⟨here, others⟩ := List.forall_mem_cons.mp wellFormed
      obtain ⟨creatable, all⟩ := List.forall_mem_cons.mp creatable
      rw [createMetaFields_cons here, if_pos creatable]
      obtain ⟨mfs, found⟩ := ih others all (if f.identifiers = [] then counter + 1 else counter)
      exact ⟨_, Option.map_eq_some_iff.mpr ⟨mfs, found, rfl⟩⟩

/-- The identifiers of fields are those that are written, and those that are counted. -/
theorem perm_fieldIdentifiers (counter : BitVec 32) (fs : List FieldNode) :
    (fieldIdentifiers counter fs).Perm
      (((fs.filterMap fun f => f.identifiers.getLast?).map number).map (BitVec.ofNat 32) ++
        (List.range (fs.filter fun f => f.identifiers = []).length).map fun i =>
          counter + BitVec.ofNat 32 (i + 1)) := by
  induction fs generalizing counter with
  | nil => exact .nil
  | cons f fs ih =>
      rw [fieldIdentifiers, List.filterMap_cons]
      rcases last : f.identifiers.getLast? with _ | token
      · have none' : f.identifiers = [] := List.getLast?_eq_none_iff.mp last
        have counted : (List.range ((fs.filter fun f => f.identifiers = []).length + 1)).map
            (fun i => counter + BitVec.ofNat 32 (i + 1)) =
              (counter + 1) :: (List.range (fs.filter fun f => f.identifiers = []).length).map
                fun i => counter + 1 + BitVec.ofNat 32 (i + 1) := by
          rw [List.range_succ_eq_map, List.map_cons, List.map_map]
          refine congrArg₂ _ rfl (List.map_congr_left fun i _ => ?_)
          rw [Function.comp_apply, Nat.succ_eq_add_one, Nat.add_comm (i + 1) 1, BitVec.ofNat_add,
            BitVec.add_assoc]
          rfl
        rw [List.filter_cons_of_pos (by simpa using none'), List.length_cons, counted]
        exact ((ih (counter + 1)).cons (counter + 1)).trans List.perm_middle.symm
      · have some' : f.identifiers ≠ [] := List.ne_nil_of_mem (List.mem_of_getLast? last)
        rw [List.filter_cons_of_neg (by simpa using some')]
        exact (ih counter).cons _


/-! ## Counted identifiers -/

theorem nodup_written {ns : List Nat} (distinct : ns.Nodup) (small : ∀ n ∈ ns, n < 2 ^ 31) :
    (ns.map (BitVec.ofNat 32)).Nodup := by
  apply distinct.map_on
  intro a inA b inB same
  have equal := congrArg BitVec.toNat same
  have := small a inA
  have := small b inB
  simp only [BitVec.toNat_ofNat] at equal
  omega

theorem toNat_counted (i : Nat) :
    ((0 : BitVec 32) + BitVec.ofNat 32 (i + 1)).toNat = (i + 1) % 2 ^ 32 := by
  rw [BitVec.toNat_add, BitVec.toNat_ofNat]
  exact (congrArg (· % 2 ^ 32) (Nat.zero_add _)).trans (Nat.mod_mod _ _)

theorem nodup_counted (k : Nat) :
    ((List.range k).map fun i => (0 : BitVec 32) + BitVec.ofNat 32 (i + 1)).Nodup ↔
      k ≤ 2 ^ 32 := by
  constructor
  · intro nodup
    by_contra large
    have first : 0 ∈ List.range k := List.mem_range.mpr (by omega)
    have again : 2 ^ 32 ∈ List.range k := List.mem_range.mpr (by omega)
    have := List.inj_on_of_nodup_map nodup first again (by decide)
    omega
  · intro small
    apply List.nodup_range.map_on
    intro i hi j hj same
    have equal := congrArg BitVec.toNat same
    rw [List.mem_range] at hi hj
    rw [toNat_counted, toNat_counted] at equal
    omega

theorem disjoint_written_counted {ns : List Nat} (positive : ∀ n ∈ ns, 0 < n)
    (small : ∀ n ∈ ns, n < 2 ^ 31) {k : Nat} (few : k ≤ 2 ^ 32) :
    (ns.map (BitVec.ofNat 32)).Disjoint
        ((List.range k).map fun i => (0 : BitVec 32) + BitVec.ofNat 32 (i + 1)) ↔
      ∀ n ∈ ns, k < n := by
  constructor
  · intro disjoint n member
    by_contra counted
    have := positive n member
    refine disjoint (List.mem_map_of_mem member)
      (List.mem_map.mpr ⟨n - 1, List.mem_range.mpr (by omega), BitVec.eq_of_toNat_eq ?_⟩)
    rw [toNat_counted, BitVec.toNat_ofNat, Nat.sub_add_cancel (positive n member)]
  · intro greater id written counted
    obtain ⟨n, member, rfl⟩ := List.mem_map.mp written
    obtain ⟨i, below, same⟩ := List.mem_map.mp counted
    have equal := congrArg BitVec.toNat same
    have := small n member
    have := greater n member
    rw [List.mem_range] at below
    rw [toNat_counted, BitVec.toNat_ofNat] at equal
    omega

/-- **The identifiers of the fields of a message** are different if no explicit one is among the
counted ones. -/
theorem nodup_fieldIdentifiers {m : MessageDeclaration} (wellFormed : MessageWellFormed m)
    (creatable : m.Creatable) (distinct : m.Distinct) :
    (fieldIdentifiers 0 m.fields).Nodup ↔ m.CountedDistinct := by
  have last {n : Nat} (member : n ∈ (m.fields.filterMap fun f => f.identifiers.getLast?).map
      number) : ∃ f ∈ m.fields, ∃ token ∈ f.identifiers.getLast?, number token = n := by
    obtain ⟨token, inLast, rfl⟩ := List.mem_map.mp member
    obtain ⟨f, inFields, isLast⟩ := List.mem_filterMap.mp inLast
    exact ⟨f, inFields, token, isLast, rfl⟩
  have positive : ∀ n ∈ (m.fields.filterMap fun f => f.identifiers.getLast?).map number,
      0 < n := by
    intro n member
    obtain ⟨f, inFields, token, isLast, rfl⟩ := last member
    exact number_pos
      ((wellFormed.fields f inFields).identifiers token (List.mem_of_getLast? isLast))
  have small : ∀ n ∈ (m.fields.filterMap fun f => f.identifiers.getLast?).map number,
      n < 2 ^ 31 := by
    intro n member
    obtain ⟨f, inFields, token, isLast, rfl⟩ := last member
    exact creatable f inFields token isLast
  have written := nodup_written (distinct.choose fun _ _ isLast => List.mem_of_getLast? isLast)
    small
  rw [(perm_fieldIdentifiers 0 m.fields).nodup_iff, List.nodup_append', nodup_counted]
  refine (and_iff_right written).trans (and_congr_right fun few => ?_)
  rw [disjoint_written_counted positive small few]
  constructor
  · intro greater f inFields token isLast
    exact greater _ (List.mem_map_of_mem (List.mem_filterMap.mpr ⟨f, inFields, isLast⟩))
  · intro greater n member
    obtain ⟨f, inFields, token, isLast, rfl⟩ := last member
    exact greater f inFields token isLast

/-! ## Messages -/

/-- What `createMetaMessage` makes of a declaration. -/
structure Created (packageName : Bytes) (m : MessageDeclaration) (mm : MetaMessage) : Prop where
  identifier : number m.identifier < 2 ^ 31
  creatable : m.Creatable
  packageName : mm.packageName = stringtoolbox.trim packageName
  messageName : mm.messageName = stringtoolbox.trim m.messageName
  messageIdentifier : mm.messageIdentifier = BitVec.ofNat 32 (number m.identifier)
  fieldNames : mm.listOfMetaFields.map MetaField.fieldName = m.fields.map FieldNode.name
  fieldIdentifiers :
    mm.listOfMetaFields.map MetaField.fieldIdentifier = fieldIdentifiers 0 m.fields

theorem created_of_createMetaMessage {m : MessageDeclaration} (wellFormed : MessageWellFormed m)
    {packageName : Bytes} {mm : MetaMessage} (h : createMetaMessage packageName m = some mm) :
    Created packageName m mm := by
  rw [createMetaMessage, stoi_of_isNumber wellFormed.identifier] at h
  by_cases small : number m.identifier < 2 ^ 31
  · rw [if_pos small, Option.bind_eq_bind, Option.bind_some, Option.bind_eq_bind] at h
    obtain ⟨fields, created, h⟩ := Option.bind_eq_some_iff.mp h
    obtain rfl := Option.some.inj h
    obtain ⟨ids, names, creatable⟩ := createMetaFields_eq_some wellFormed.fields created
    exact ⟨small, creatable, rfl, rfl, BitVec.ofInt_natCast _ _, names, ids⟩
  · rw [if_neg small] at h
    cases h

theorem exists_createMetaMessage {m : MessageDeclaration} (wellFormed : MessageWellFormed m)
    (packageName : Bytes) (small : number m.identifier < 2 ^ 31) (creatable : m.Creatable) :
    ∃ mm, createMetaMessage packageName m = some mm := by
  obtain ⟨fields, created⟩ := exists_createMetaFields wellFormed.fields creatable 0
  rw [createMetaMessage, stoi_of_isNumber wellFormed.identifier, if_pos small,
    Option.bind_eq_bind, Option.bind_some, created]
  exact ⟨_, rfl⟩

/-- The results of a function that fails on no element of a list. -/
theorem map_eq_of_mapM {α β : Type} {f : α → Option β} {l : List α} {r : List β}
    (h : l.mapM f = some r) : l.map f = r.map some := by
  induction l generalizing r with
  | nil =>
      obtain rfl := Option.some.inj h
      rfl
  | cons a as ih =>
      rw [List.mapM_cons] at h
      obtain ⟨b, first, h⟩ := Option.bind_eq_some_iff.mp h
      obtain ⟨bs, others, h⟩ := Option.bind_eq_some_iff.mp h
      obtain rfl := Option.some.inj h
      rw [List.map_cons, List.map_cons, first, ih others]

theorem exists_mapM {α β : Type} {f : α → Option β} {l : List α}
    (h : ∀ a ∈ l, ∃ b, f a = some b) : ∃ r, l.mapM f = some r := by
  induction l with
  | nil => exact ⟨[], rfl⟩
  | cons a as ih =>
      obtain ⟨⟨b, first⟩, rest⟩ := List.forall_mem_cons.mp h
      obtain ⟨bs, others⟩ := ih rest
      exact ⟨b :: bs, by rw [List.mapM_cons, first, others]; rfl⟩

theorem map_eq_map {α β γ : Type} {f : α → Option β} {g : β → γ} {k : α → γ} {l : List α}
    {r : List β} (results : l.map f = r.map some)
    (same : ∀ a ∈ l, ∀ b, f a = some b → g b = k a) : r.map g = l.map k := by
  induction l generalizing r with
  | nil =>
      obtain rfl := List.map_eq_nil_iff.mp results.symm
      rfl
  | cons a as ih =>
      obtain ⟨b, bs, rfl, first, others⟩ := List.map_eq_cons_iff.mp results.symm
      rw [List.map_cons, List.map_cons, same a List.mem_cons_self b first.symm,
        ih others.symm fun a' member => same a' (List.mem_cons_of_mem _ member)]

end MessageParser

/-- The name of a message with that of its package. -/
def qualified (packageName messageName : Bytes) : Bytes :=
  if packageName = [] then messageName else packageName ++ asciiBytes "." ++ messageName

theorem qualified_injective (packageName : Bytes) : Function.Injective (qualified packageName) := by
  intro a b same
  rw [qualified, qualified] at same
  by_cases empty : packageName = []
  · rwa [if_pos empty, if_pos empty] at same
  · rw [if_neg empty, if_neg empty] at same
    exact List.append_cancel_left same

/-- The messages have different identifiers and names, and so have the fields of each message. -/
structure DuplicateFree (mms : List MetaMessage) : Prop where
  messageIdentifiers : (mms.map MetaMessage.messageIdentifier).Nodup
  names : (mms.map fun mm => qualified mm.packageName mm.messageName).Nodup
  fieldNames : ∀ mm ∈ mms, (mm.listOfMetaFields.map MetaField.fieldName).Nodup
  fieldIdentifiers : ∀ mm ∈ mms, (mm.listOfMetaFields.map MetaField.fieldIdentifier).Nodup

namespace MessageParser

/-- A specification is transformed when its numbers are small enough. -/
theorem exists_transform2MetaMessages {ast : MessagesSpecification}
    (wellFormed : ∀ m ∈ ast.messages, MessageWellFormed m) (checkable : ast.Checkable)
    (creatable : ast.Creatable) : ∃ mms, transform2MetaMessages ast = some mms := by
  have several (packageName : Bytes) :
      ∃ mms, ast.messages.mapM (createMetaMessage packageName) = some mms :=
    exists_mapM fun m member => exists_createMetaMessage (wellFormed m member) packageName
      (checkable m member).1 (creatable m member)
  obtain ⟨packageName, messages⟩ := ast
  rcases packageName with _ | packageName
  · exact several []
  · rcases messages with _ | ⟨m, more⟩
    · exact ⟨_, rfl⟩
    · exact several packageName

/-- Messages that are created one for each declaration are free of duplicates when what the check
looks at is different, and the identifiers of the fields are. -/
theorem duplicateFree_of_mapM {ast : MessagesSpecification}
    (wellFormed : ∀ m ∈ ast.messages, MessageWellFormed m) (distinct : ast.FirstDistinct)
    {packageName : Bytes} {mms : List MetaMessage}
    (h : ast.messages.mapM (createMetaMessage packageName) = some mms) :
    ast.Creatable ∧
      (DuplicateFree mms ↔ ∀ m ∈ ast.messages, (fieldIdentifiers 0 m.fields).Nodup) := by
  have results := map_eq_of_mapM h
  have spec (m : MessageDeclaration) (member : m ∈ ast.messages) (mm : MetaMessage)
      (h : createMetaMessage packageName m = some mm) : Created packageName m mm :=
    created_of_createMetaMessage (wellFormed m member) h
  have declared (mm : MetaMessage) (member : mm ∈ mms) :
      ∃ m ∈ ast.messages, createMetaMessage packageName m = some mm :=
    List.mem_map.mp (results ▸ List.mem_map_of_mem member)
  have created (m : MessageDeclaration) (member : m ∈ ast.messages) :
      ∃ mm ∈ mms, Created packageName m mm := by
    have inResults : createMetaMessage packageName m ∈ mms.map some :=
      results ▸ List.mem_map_of_mem member
    obtain ⟨mm, inMms, same⟩ := List.mem_map.mp inResults
    exact ⟨mm, inMms, spec m member mm same.symm⟩
  refine ⟨fun m member => ?_, fun free m member => ?_, fun nodup => ⟨?_, ?_, ?_, ?_⟩⟩
  · obtain ⟨mm, -, isMm⟩ := created m member
    exact isMm.creatable
  · obtain ⟨mm, inMms, isMm⟩ := created m member
    rw [← isMm.fieldIdentifiers]
    exact free.fieldIdentifiers mm inMms
  · have ids : mms.map MetaMessage.messageIdentifier =
        (ast.messages.map fun m => number m.identifier).map (BitVec.ofNat 32) := by
      rw [List.map_map]
      exact map_eq_map results fun m member mm isMm => (spec m member mm isMm).messageIdentifier
    rw [ids]
    apply nodup_written distinct.2.1
    intro n member
    obtain ⟨m, inMessages, rfl⟩ := List.mem_map.mp member
    obtain ⟨mm, -, isMm⟩ := created m inMessages
    exact isMm.identifier
  · have names : (mms.map fun mm => qualified mm.packageName mm.messageName) =
        (ast.messages.map fun m => stringtoolbox.trim m.messageName).map
          (qualified (stringtoolbox.trim packageName)) := by
      rw [List.map_map]
      apply map_eq_map results
      intro m member mm isMm
      rw [(spec m member mm isMm).packageName, (spec m member mm isMm).messageName]
      rfl
    rw [names]
    exact distinct.2.2.map (qualified_injective _)
  · intro mm inMms
    obtain ⟨m, member, isMm⟩ := declared mm inMms
    rw [(spec m member mm isMm).fieldNames]
    exact (distinct.1 m member).2
  · intro mm inMms
    obtain ⟨m, member, isMm⟩ := declared mm inMms
    rw [(spec m member mm isMm).fieldIdentifiers]
    exact nodup m member

/-- **What `transform2MetaMessages` makes** of a specification in which the check finds nothing. -/
theorem transform2MetaMessages_eq_some {ast : MessagesSpecification}
    (wellFormed : ∀ m ∈ ast.messages, MessageWellFormed m) (distinct : ast.FirstDistinct)
    {mms : List MetaMessage} (h : transform2MetaMessages ast = some mms) :
    ast.Creatable ∧
      (DuplicateFree mms ↔ ∀ m ∈ ast.messages, (fieldIdentifiers 0 m.fields).Nodup) := by
  obtain ⟨packageName, messages⟩ := ast
  rcases packageName with _ | packageName
  · exact duplicateFree_of_mapM wellFormed distinct h
  · rcases messages with _ | ⟨m, more⟩
    · obtain rfl := Option.some.inj h
      refine ⟨nofun, iff_of_true ⟨?_, ?_, ?_, ?_⟩ nofun⟩ <;> simp
    · exact duplicateFree_of_mapM wellFormed distinct h

/-! ## Parsing -/

theorem resultOf_eq {ast : MessagesSpecification}
    (wellFormed : ∀ m ∈ ast.messages, MessageWellFormed m) :
    resultOf ast =
      if ast.Checkable then
        if ast.FirstDistinct then
          (transform2MetaMessages ast).map fun mms => (mms, .noMessageParserError)
        else some ([], .duplicateIdentifiers)
      else none := by
  rw [resultOf, check4UniqueFieldNames_eq wellFormed]
  by_cases checkable : ast.Checkable
  · rw [if_pos checkable, if_pos checkable, Option.bind_eq_bind, Option.bind_some]
    by_cases distinct : ast.FirstDistinct
    · rw [if_pos distinct, if_pos (decide_eq_true distinct), Option.map_eq_bind]
      rfl
    · rw [if_neg distinct, if_neg (by simpa using distinct)]
      rfl
  · rw [if_neg checkable, if_neg checkable]
    rfl

/-- A text is accepted when its syntax tree passes the check and can be transformed. -/
theorem parse_eq_noMessageParserError {input : Bytes} {mms : List MetaMessage} :
    parse input = some (mms, .noMessageParserError) ↔
      ∃ ast, syntaxTree input = some ast ∧ ast.Checkable ∧ ast.FirstDistinct ∧
        transform2MetaMessages ast = some mms := by
  rw [parse]
  rcases tree : syntaxTree input with _ | ast
  · simp
  · simp only [resultOf_eq (wellFormed_of_syntaxTree tree), Option.some.injEq]
    split_ifs with checkable distinct
    · simp [checkable, distinct]
    · simp [distinct]
    · simp [checkable]

theorem parse_eq_duplicateIdentifiers {input : Bytes} {mms : List MetaMessage} :
    parse input = some (mms, .duplicateIdentifiers) ↔
      mms = [] ∧ ∃ ast, syntaxTree input = some ast ∧ ast.Checkable ∧ ¬ ast.FirstDistinct := by
  rw [parse]
  rcases tree : syntaxTree input with _ | ast
  · simp
  · simp only [resultOf_eq (wellFormed_of_syntaxTree tree), Option.some.injEq]
    split_ifs with checkable distinct
    · simp [distinct]
    · simp [checkable, distinct, eq_comm]
    · simp [checkable]

/-- Accepted specifications are free of duplicates, and of the others those are reported in which
identifiers or names coincide, and no others. -/
structure DuplicatesReported (input : Bytes) : Prop where
  free : ∀ mms, parse input = some (mms, .noMessageParserError) → DuplicateFree mms
  reported : ∀ ast, syntaxTree input = some ast → ¬ ast.Distinct →
    ∃ mms, parse input = some (mms, .duplicateIdentifiers)
  only : ∀ mms, parse input = some (mms, .duplicateIdentifiers) →
    ∃ ast, syntaxTree input = some ast ∧ ¬ ast.Distinct

/-- **Specifications are free of duplicates, and duplicates are reported**, exactly when the check
sees a duplicate if there is one, and no counted identifier is that of another field. -/
theorem duplicatesReported_iff (input : Bytes) :
    DuplicatesReported input ↔ ∀ ast, syntaxTree input = some ast →
      (¬ ast.Distinct → ast.Checkable ∧ ¬ ast.FirstDistinct) ∧
      (ast.Distinct → ast.Checkable → ast.Creatable →
        ∀ m ∈ ast.messages, m.CountedDistinct) := by
  constructor
  · intro h ast tree
    have wellFormed := wellFormed_of_syntaxTree tree
    refine ⟨fun duplicate => ?_, fun distinct checkable creatable m member => ?_⟩
    · obtain ⟨mms, isReported⟩ := h.reported ast tree duplicate
      obtain ⟨-, ast', tree', checkable, notFirst⟩ := parse_eq_duplicateIdentifiers.mp isReported
      obtain rfl := Option.some.inj (tree.symm.trans tree')
      exact ⟨checkable, notFirst⟩
    · obtain ⟨mms, made⟩ := exists_transform2MetaMessages wellFormed checkable creatable
      have accepted :=
        parse_eq_noMessageParserError.mpr ⟨ast, tree, checkable, distinct.first, made⟩
      obtain ⟨-, free⟩ := transform2MetaMessages_eq_some wellFormed distinct.first made
      exact (nodup_fieldIdentifiers (wellFormed m member) (creatable m member)
        (distinct.2.2 m member)).mp (free.mp (h.free mms accepted) m member)
  · intro h
    refine ⟨fun mms accepted => ?_, fun ast tree duplicate => ?_, fun mms isReported => ?_⟩
    · obtain ⟨ast, tree, checkable, first, made⟩ := parse_eq_noMessageParserError.mp accepted
      have wellFormed := wellFormed_of_syntaxTree tree
      obtain ⟨creatable, free⟩ := transform2MetaMessages_eq_some wellFormed first made
      have distinct : ast.Distinct := by
        by_contra duplicate
        exact ((h ast tree).1 duplicate).2 first
      apply free.mpr
      intro m member
      exact (nodup_fieldIdentifiers (wellFormed m member) (creatable m member)
        (distinct.2.2 m member)).mpr ((h ast tree).2 distinct checkable creatable m member)
    · obtain ⟨checkable, notFirst⟩ := (h ast tree).1 duplicate
      exact ⟨[], parse_eq_duplicateIdentifiers.mpr ⟨rfl, ast, tree, checkable, notFirst⟩⟩
    · obtain ⟨-, ast, tree, -, notFirst⟩ := parse_eq_duplicateIdentifiers.mp isReported
      exact ⟨ast, tree, mt MessagesSpecification.Distinct.first notFirst⟩

/-- A field that is counted gets the identifier of the field before it. -/
theorem not_duplicatesReported :
    ¬ DuplicatesReported (asciiBytes "message A [id=1] \x7b int32 x [id=1]; int32 y; \x7d") := by
  intro h
  have accepted : parse (asciiBytes "message A [id=1] \x7b int32 x [id=1]; int32 y; \x7d") =
      some ([⟨[], asciiBytes "A", 1,
        [⟨.scalar .int32, asciiBytes "int32", asciiBytes "x", 1, []⟩,
          ⟨.scalar .int32, asciiBytes "int32", asciiBytes "y", 1, []⟩]⟩], .noMessageParserError) := by
    decide +kernel
  have nodup := (h.free _ accepted).fieldIdentifiers _ List.mem_cons_self
  exact absurd nodup (by decide)

end MessageParser

end Cluon
