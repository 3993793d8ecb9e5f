import Cluon.Specification.ReadingBack

/-!
# The text of a message

The text that a message writes about itself declares all types that occur in it. If the name of
no nested type begins with a keyword, then every declaration is read as the node that it stands
for (`messageDeclaration_append`), and the syntax tree lists the types. Otherwise the text is not
read to its end, and has no syntax tree. This is `syntaxTree_messageSpecification`, for message
types as they are generated by `cluon-msc` (`MessageType.Generated`).
-/

set_option autoImplicit false

namespace Cluon

open Library PEG MessageParser ToODVDVisitor

/-! ## Generated message types -/

namespace MessageType

/-- A message type as `cluon-msc` generates it. -/
structure Generated (T : MessageType) : Prop where
  names : ∀ U ∈ T.types, IsDottedName U.info.longName
  identifiers : ∀ U ∈ T.types, 0 < U.info.id.toInt
  fields : ∀ U ∈ T.types, ∀ f ∈ U.fields.members, GeneratedField f
  sameName : ∀ U ∈ T.types, ∀ V ∈ T.types, U.info.longName = V.info.longName → U = V
  sameIdentifier : ∀ U ∈ T.types, ∀ V ∈ T.types, U.info.id = V.info.id → U = V

/-- The types of all fields are read as they are written. -/
def Legible (T : MessageType) : Prop := ∀ f ∈ T.fields.members, Cluon.Legible f

/-- The number of the identifier of a message type. -/
def identifier (T : MessageType) : Nat := T.info.id.toInt.natAbs

end MessageType

namespace Fields

theorem map_members {κ : Type} (key : FieldInfo → κ) (fs : Fields) :
    (fs.members.map fun f => key f.1) = fs.keys key := by
  induction fs with
  | nil => rfl
  | scalar field t rest ih => exact congrArg (key field :: ·) ih
  | nested field info inner rest _ ih => exact congrArg (key field :: ·) ih

/-- The type of a field is among those that occur. -/
theorem mem_nestedTypes {fs : Fields} {f : FieldInfo} {T : MessageType} :
    (f, FieldType.message T) ∈ fs.members → T ∈ fs.nestedTypes := by
  induction fs with
  | nil => exact nofun
  | scalar field t rest ih =>
      intro member
      rcases List.mem_cons.mp member with same | member
      · cases same
      · exact ih member
  | nested field info inner rest _ ih =>
      intro member
      rcases List.mem_cons.mp member with same | member
      · cases same
        exact List.mem_append_right _ (List.mem_append_right _ List.mem_cons_self)
      · exact List.mem_append_left _ (ih member)

/-- Every type that occurs is that of a field of some type. -/
theorem exists_member_of_mem_nestedTypes {fs : Fields} {U : MessageType} :
    U ∈ fs.nestedTypes → (∃ f, (f, FieldType.message U) ∈ fs.members) ∨
      ∃ V ∈ fs.nestedTypes, ∃ f, (f, FieldType.message U) ∈ V.fields.members := by
  induction fs with
  | nil => exact nofun
  | scalar field t rest ih =>
      intro member
      rcases ih member with ⟨f, inMembers⟩ | found
      · exact .inl ⟨f, List.mem_cons_of_mem _ inMembers⟩
      · exact .inr found
  | nested field info inner rest ihInner ih =>
      intro member
      rcases List.mem_append.mp member with later | inside
      · rcases ih later with ⟨f, inMembers⟩ | ⟨V, inTypes, found⟩
        · exact .inl ⟨f, List.mem_cons_of_mem _ inMembers⟩
        · exact .inr ⟨V, List.mem_append_left _ inTypes, found⟩
      · rcases List.mem_append.mp inside with inside | here
        · rcases ihInner inside with ⟨f, inMembers⟩ | ⟨V, inTypes, found⟩
          · exact .inr ⟨⟨info, inner⟩, by simp [nestedTypes], f, inMembers⟩
          · exact .inr ⟨V, List.mem_append_right _ (List.mem_append_left _ inTypes), found⟩
        · obtain rfl := List.mem_singleton.mp here
          exact .inl ⟨field, List.mem_cons_self⟩

/-- The types that occur in a type that occurs. -/
theorem nestedTypes_subset {fs : Fields} {U : MessageType} :
    U ∈ fs.nestedTypes → U.fields.nestedTypes ⊆ fs.nestedTypes := by
  induction fs with
  | nil => exact nofun
  | scalar field t rest ih => exact ih
  | nested field info inner rest ihInner ih =>
      intro member V inside
      rcases List.mem_append.mp member with later | within
      · exact List.mem_append_left _ (ih later inside)
      · refine List.mem_append_right _ (List.mem_append_left _ ?_)
        rcases List.mem_append.mp within with within | here
        · exact ihInner within inside
        · obtain rfl := List.mem_singleton.mp here
          exact inside

end Fields

/-- No keyword is the beginning of the name of a nested message type. -/
def MessageType.NoKeyword (T : MessageType) : Prop :=
  ∀ U ∈ T.fields.nestedTypes, ¬ BeginsWithKeyword U.info.longName

instance (T : MessageType) : Decidable T.NoKeyword :=
  inferInstanceAs (Decidable (∀ U ∈ T.fields.nestedTypes, ¬ BeginsWithKeyword U.info.longName))

theorem MessageType.legible_iff (T : MessageType) :
    (∀ U ∈ T.types, U.Legible) ↔ T.NoKeyword := by
  constructor
  · intro legible U member
    rcases Fields.exists_member_of_mem_nestedTypes member with ⟨f, inMembers⟩ |
      ⟨V, inTypes, f, inMembers⟩
    · exact legible T (List.mem_append_right _ List.mem_cons_self) _ inMembers U rfl
    · exact legible V (List.mem_append_left _ inTypes) _ inMembers U rfl
  · intro noKeyword U member f inMembers V type
    obtain ⟨field, t | V'⟩ := f
    · cases type
    · obtain rfl := FieldType.message.inj type
      have nested := Fields.mem_nestedTypes inMembers
      rcases List.mem_append.mp member with inTypes | here
      · exact noKeyword V' (Fields.nestedTypes_subset inTypes nested)
      · obtain rfl := List.mem_singleton.mp here
        exact noKeyword V' nested

/-! ## Declarations -/

/-- The node that the declaration of a message type is read as. -/
def declarationNode (T : MessageType) : MessageDeclaration :=
  ⟨T.info.longName ++ [0x20], numberToken T.identifier, T.fields.members.map fieldNode⟩

theorem declaration_append (T : MessageType) (s : Bytes) :
    declaration T ++ s =
      headLine T.info ++ (T.fields.members.flatMap line ++ (asciiBytes "\x7d\n" ++ s)) := by
  simp only [declaration, List.append_assoc]

/-- The members that the declaration of a generated type has. -/
structure MessageType.Declared (T : MessageType) : Prop where
  name : IsDottedName T.info.longName
  identifier : 0 < T.info.id.toInt
  fields : ∀ f ∈ T.fields.members, GeneratedField f

theorem MessageType.Generated.declared {T : MessageType} (h : T.Generated) {U : MessageType}
    (member : U ∈ T.types) : U.Declared :=
  ⟨h.names U member, h.identifiers U member, h.fields U member⟩

namespace MessageType.Declared

variable {T : MessageType} (h : T.Declared)
include h

theorem identifier_pos : 0 < T.identifier := Int.natAbs_pos.mpr h.identifier.ne'

theorem decimalInt_eq : decimalInt T.info.id.toInt = decimal T.identifier := by
  rw [decimalInt, if_neg (not_lt.mpr h.identifier.le)]
  rfl

theorem headLine_append (s : Bytes) :
    headLine T.info ++ s = asciiBytes "message " ++ (T.info.longName ++ 0x20 ::
      (asciiBytes "[ id = " ++ (decimal T.identifier ++ (asciiBytes " ] \x7b\n" ++ s)))) := by
  rw [headLine, h.decimalInt_eq]
  simp only [List.append_assoc]
  rfl

/-- What is read of a declaration up to its fields. -/
theorem messageDeclaration_headLine (s : Bytes) :
    messageDeclaration (headLine T.info ++ s) = (do
      let fields ← many field
      lit "\x7d"
      return ⟨T.info.longName ++ [0x20], numberToken T.identifier, fields⟩ :
        Parser Byte MessageDeclaration) (s.dropWhile isWhitespace) := by
  have keyword := lit_append "message" (asciiBytes " " ++ (T.info.longName ++ 0x20 ::
    (asciiBytes "[ id = " ++ (decimal T.identifier ++ (asciiBytes " ] \x7b\n" ++ s)))))
  have blank (t : Bytes) : (asciiBytes " " ++ (T.info.longName ++ t)).dropWhile isWhitespace =
      T.info.longName ++ t := h.name.dropWhile_append t
  rw [blank] at keyword
  have named := messageName_append h.name (s := asciiBytes "[ id = " ++ (decimal T.identifier ++
    (asciiBytes " ] \x7b\n" ++ s))) (by rintro c ⟨⟩; decide)
  have bracket := lit_append "[" (asciiBytes " id = " ++ (decimal T.identifier ++
    (asciiBytes " ] \x7b\n" ++ s)))
  have number := identifier_append h.identifier_pos (asciiBytes " \x7b\n" ++ s)
  have comma : opt (lit ",") (asciiBytes "] \x7b\n" ++ s) =
      some (none, asciiBytes "] \x7b\n" ++ s) := opt_of_none rfl
  have closed := lit_append "]" (asciiBytes " \x7b\n" ++ s)
  have opened := lit_append "\x7b" (asciiBytes "\n" ++ s)
  rw [h.headLine_append]
  exact (bind_of_some keyword).trans <| (bind_of_some named).trans <|
    (bind_of_some bracket).trans <| (bind_of_some number).trans <| (bind_of_some comma).trans <|
    (bind_of_some closed).trans <| bind_of_some opened

/-- **A declaration is read as its node.** -/
theorem messageDeclaration_append (legible : T.Legible) (s : Bytes) :
    messageDeclaration (declaration T ++ s) =
      some (declarationNode T, s.dropWhile isWhitespace) := by
  rw [declaration_append, h.messageDeclaration_headLine]
  exact (bind_of_some (many_field_append s h.fields legible)).trans
    (bind_of_some (lit_append "\x7d" (asciiBytes "\n" ++ s)))

theorem messageDeclaration_of_not_legible (not : ¬ T.Legible) (s : Bytes) :
    messageDeclaration (declaration T ++ s) = none := by
  obtain ⟨read, t, stopped, noEnd⟩ :=
    many_field_of_not_legible (asciiBytes "\x7d\n" ++ s) h.fields not
  rw [declaration_append, h.messageDeclaration_headLine]
  refine (bind_of_some stopped).trans (bind_of_none ?_)
  cases t with
  | nil => rfl
  | cons c t => exact lit_of_ne rfl (Ne.symm (noEnd c rfl).2.2)

end MessageType.Declared

/-! ## The syntax tree -/

namespace MessageParser

/-- A text of types whose fields are all read as they are written. -/
theorem many_declaration {Ts : List MessageType} (declared : ∀ T ∈ Ts, T.Declared) :
    (∀ T ∈ Ts, T.Legible) →
      many messageDeclaration (Ts.flatMap declaration) = some (Ts.map declarationNode, []) := by
  induction Ts with
  | nil => intro _; rfl
  | cons T Ts ih =>
      intro legible
      obtain ⟨here, others⟩ := List.forall_mem_cons.mp declared
      obtain ⟨readable, legible⟩ := List.forall_mem_cons.mp legible
      have noBlank : (Ts.flatMap declaration).dropWhile isWhitespace = Ts.flatMap declaration := by
        cases Ts with
        | nil => rfl
        | cons U Us => rfl
      have first := here.messageDeclaration_append readable (Ts.flatMap declaration)
      rw [noBlank] at first
      exact many_of_some consumes_messageDeclaration first (ih others legible)

/-- The text is not read to its end if a field is not read as it is written. -/
theorem many_declaration_of_not_legible {Ts : List MessageType}
    (declared : ∀ T ∈ Ts, T.Declared) : (¬ ∀ T ∈ Ts, T.Legible) →
      ∃ read c t, many messageDeclaration (Ts.flatMap declaration) = some (read, c :: t) := by
  induction Ts with
  | nil => intro not; exact absurd nofun not
  | cons T Ts ih =>
      intro not
      obtain ⟨here, others⟩ := List.forall_mem_cons.mp declared
      have noBlank : (Ts.flatMap declaration).dropWhile isWhitespace = Ts.flatMap declaration := by
        cases Ts with
        | nil => rfl
        | cons U Us => rfl
      by_cases readable : T.Legible
      · obtain ⟨read, c, t, rest⟩ := ih others
          fun all => not (List.forall_mem_cons.mpr ⟨readable, all⟩)
        have first := here.messageDeclaration_append readable (Ts.flatMap declaration)
        rw [noBlank] at first
        exact ⟨_, c, t, many_of_some consumes_messageDeclaration first rest⟩
      · have fails := here.messageDeclaration_of_not_legible readable (Ts.flatMap declaration)
        exact ⟨[], _, _, many_of_none fails⟩

/-! ### Comments -/

/-- A character that neither begins a comment nor ends the text. -/
def isPlain (c : Byte) : Bool := decide (c ≠ 0x2F ∧ c ≠ 0)

theorem withoutComments_eq {s : Bytes} (plain : ∀ c ∈ s, isPlain c) : withoutComments s = s := by
  have each : ∀ (n : Nat) (s : Bytes), (∀ c ∈ s, isPlain c) → removeComments n s = s := by
    intro n
    induction n with
    | zero => intro s _; rfl
    | succ n ih =>
        intro s plain
        cases s with
        | nil => rfl
        | cons c s =>
            obtain ⟨here, others⟩ := List.forall_mem_cons.mp plain
            have noSlash : (0x2F : Byte) ≠ c := by
              rintro rfl
              cases here
            have none (w : Bytes) : ¬ (0x2F : Byte) :: w <+: c :: s := fun isPrefix =>
              noSlash (List.cons_prefix_cons.mp isPrefix).1
            have noComment : afterComment (c :: s) = Option.none :=
              (if_neg (none _)).trans (if_neg (none _))
            rw [removeComments, noComment]
            exact congrArg (c :: ·) (ih s others)
  exact each s.length s plain

theorem syntaxTree_eq {s : Bytes} (plain : ∀ c ∈ s, isPlain c) :
    syntaxTree s = parseGrammar s := by
  have noZero : (s.takeWhile fun c => decide (c ≠ 0)) = s := by
    apply List.takeWhile_eq_self_iff.mpr
    intro c member
    have := plain c member
    rw [isPlain, decide_eq_true_eq] at this
    exact decide_eq_true this.2
  rw [syntaxTree, withoutComments_eq plain, noZero]

theorem isPlain_asciiBytes {cs : List Char}
    (h : cs.all fun c => isPlain (BitVec.ofNat 8 c.toNat)) :
    ∀ c ∈ asciiBytes (String.ofList cs), isPlain c := by
  rw [asciiBytes_ofList]
  exact List.forall_mem_map.mpr (List.all_eq_true.mp h)

theorem isPlain_of_isNameCharacter {c : Byte} (h : isNameCharacter c) : isPlain c := by
  revert h
  decide +revert

theorem isPlain_of_isDigit {c : Byte} (h : isDigit c) : isPlain c := by
  revert h
  decide +revert

theorem IsName.isPlain {w : Bytes} (h : IsName w) : ∀ c ∈ w, isPlain c := fun c member =>
  isPlain_of_isNameCharacter (h.all c member)

theorem IsDottedName.isPlain {w : Bytes} (h : IsDottedName w) : ∀ c ∈ w, isPlain c := by
  intro c member
  rcases h.all c member with character | rfl
  · exact isPlain_of_isNameCharacter character
  · rfl

end MessageParser

theorem isPlain_decimal (n : Nat) : ∀ c ∈ decimal n, isPlain c := fun c member =>
  isPlain_of_isDigit (all_isDigit_decimal n c member)

theorem isPlain_scalarText (t : ScalarType) : (∀ c ∈ asciiBytes (scalarText t).1, isPlain c) ∧
    ∀ c ∈ asciiBytes (scalarText t).2, isPlain c := by
  cases t <;> exact ⟨isPlain_asciiBytes rfl, isPlain_asciiBytes rfl⟩

theorem GeneratedField.isPlain_line {f : FieldInfo × FieldType} (h : GeneratedField f) :
    ∀ c ∈ line f, isPlain c := by
  obtain ⟨field, t | T⟩ := f
  · have name : ∀ c ∈ field.name, isPlain c := h.name.isPlain
    obtain ⟨type, value⟩ := isPlain_scalarText t
    simp only [line, scalarLine, List.forall_mem_append]
    exact ⟨⟨⟨⟨⟨⟨⟨⟨isPlain_asciiBytes rfl, type⟩, isPlain_asciiBytes rfl⟩, name⟩,
      isPlain_asciiBytes rfl⟩, value⟩, isPlain_asciiBytes rfl⟩, isPlain_decimal _⟩,
      isPlain_asciiBytes rfl⟩
  · have name : ∀ c ∈ field.name, isPlain c := h.name.isPlain
    obtain ⟨-, isDotted, -⟩ := h.typeName T rfl
    simp only [line, messageLine, dotted_typeName h, List.forall_mem_append]
    exact ⟨⟨⟨⟨⟨⟨isPlain_asciiBytes rfl, isDotted.isPlain⟩, isPlain_asciiBytes rfl⟩, name⟩,
      isPlain_asciiBytes rfl⟩, isPlain_decimal _⟩, isPlain_asciiBytes rfl⟩

theorem MessageType.Declared.isPlain_declaration {T : MessageType} (h : T.Declared) :
    ∀ c ∈ declaration T, isPlain c := by
  simp only [declaration, headLine, h.decimalInt_eq, List.forall_mem_append]
  refine ⟨⟨⟨⟨⟨⟨isPlain_asciiBytes rfl, h.name.isPlain⟩, isPlain_asciiBytes rfl⟩,
    isPlain_decimal _⟩, isPlain_asciiBytes rfl⟩, ?_⟩, isPlain_asciiBytes rfl⟩
  intro c member
  obtain ⟨f, inMembers, inLine⟩ := List.mem_flatMap.mp member
  exact (h.fields f inMembers).isPlain_line c inLine

/-- The syntax tree that the text of a message type should have. -/
def tree (T : MessageType) : MessagesSpecification := ⟨none, T.types.map declarationNode⟩

/-- **The text of a message has a syntax tree** if the types of all fields are read as they are
written. Otherwise there is none. -/
theorem syntaxTree_messageSpecification {T : MessageType} (generated : T.Generated)
    (m : T.Values) : syntaxTree (messageSpecification T m) =
      if T.NoKeyword then some (tree T) else none := by
  have declared : ∀ U ∈ T.types, U.Declared := fun U member => generated.declared member
  have plain : ∀ c ∈ T.types.flatMap declaration, isPlain c := by
    intro c member
    obtain ⟨U, inTypes, inText⟩ := List.mem_flatMap.mp member
    exact (declared U inTypes).isPlain_declaration c inText
  have begins : ∃ s, T.types.flatMap declaration = asciiBytes "m" ++ s := by
    rcases types : T.types with _ | ⟨U, Us⟩
    · cases (List.append_eq_nil_iff.mp types).2
    · exact ⟨_, rfl⟩
  obtain ⟨s, text⟩ := begins
  have noBlank : (T.types.flatMap declaration).dropWhile isWhitespace =
      T.types.flatMap declaration := by
    rw [text]
    rfl
  have noPackage : opt packageDeclaration (T.types.flatMap declaration) =
      some (none, T.types.flatMap declaration) := by
    rw [text]
    exact opt_of_none rfl
  rw [messageSpecification_eq, syntaxTree_eq plain, parseGrammar, noBlank, messagesSpecification,
    bind_of_some noPackage]
  by_cases legible : ∀ U ∈ T.types, U.Legible
  · rw [if_pos (T.legible_iff.mp legible), bind_of_some (many_declaration declared legible)]
    rfl
  · obtain ⟨read, c, t, stopped⟩ := many_declaration_of_not_legible declared legible
    rw [if_neg (mt T.legible_iff.mpr legible), bind_of_some stopped]
    rfl

end Cluon
