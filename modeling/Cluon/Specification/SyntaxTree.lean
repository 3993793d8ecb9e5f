import Cluon.Specification.MessageParser

/-!
# The optimized syntax tree

The parser has a tree of nodes that are named after the rules of the grammar. Before it is walked,
`AstOptimizer` replaces each node with a single child by this child, which keeps the name of the
node it replaces as its original name. So the root of the tree of a specification with a package or
a single message only is another node than that of other specifications.

`check4UniqueFieldNames` and `transform2MetaMessages` walk this tree by the names of the nodes
(`Ast.check4UniqueFieldNames`, `Ast.transform2MetaMessages`). For the tree of a specification they
do what they have to do with its declarations, so that `parse` can be read as a function of the
declarations (`Ast.resultOf_ast`).
-/

set_option autoImplicit false

namespace Cluon

open Library MessageParser

/-! ## Trees -/

/-- The rules of the grammar whose nodes are in a tree. -/
inductive Rule where
  | messagesSpecification
  | packageDeclaration
  | packageName
  | messageDeclaration
  | messageName
  | field
  | default
  | primitiveType
  | identifier
  | name
  | naturalNumber
  | floatNumber
  | bool
  | string
  | character
  deriving DecidableEq, Repr

/-- `peg::Ast`, with the members that are read. -/
inductive Ast where
  | node (rule original : Rule) (token : Bytes) (nodes : List Ast)
  deriving Repr

namespace Ast

def name : Ast → Rule
  | node rule _ _ _ => rule

def originalName : Ast → Rule
  | node _ original _ _ => original

def token : Ast → Bytes
  | node _ _ text _ => text

def nodes : Ast → List Ast
  | node _ _ _ nodes => nodes

/-- A node of a rule that is a token. -/
def leaf (rule : Rule) (token : Bytes) : Ast := node rule rule token []

/-- A node of another rule. -/
def inner (rule : Rule) (nodes : List Ast) : Ast := node rule rule [] nodes

/-- The node with the name of the node that it replaces as its original name. -/
def replacing (original : Rule) : Ast → Ast
  | node rule _ text nodes => node rule original text nodes

mutual

/-- `AstOptimizer(true).optimize(ast)`. -/
def optimize : Ast → Ast
  | node rule _ _ [child] => (optimize child).replacing rule
  | node rule original text [] => node rule original text []
  | node rule original text (first :: second :: others) =>
      node rule original text (optimize first :: optimize second :: optimizeAll others)

/-- The optimized nodes. -/
def optimizeAll : List Ast → List Ast
  | [] => []
  | ast :: others => optimize ast :: optimizeAll others

end

/-! ## MetaMessages -/

/-- What is read from the nodes of a field. -/
structure FieldTexts where
  fieldDataType : Bytes
  fieldName : Bytes
  fieldDefaultInitializerValue : Bytes
  fieldIdentifier : Bytes
  deriving DecidableEq, Repr

/-- The loop over the nodes of a field. -/
def FieldTexts.read (texts : FieldTexts) (f : Ast) : FieldTexts :=
  if f.originalName = .primitiveType then { texts with fieldDataType := f.token }
  else if f.originalName = .name then { texts with fieldName := f.token }
  else if f.originalName = .default then
    { texts with
      fieldDefaultInitializerValue :=
        if f.name = .string then asciiBytes "\"" ++ f.token ++ asciiBytes "\""
        else if f.name = .character then asciiBytes "'" ++ f.token ++ asciiBytes "'"
        else f.token }
  else if f.originalName = .identifier then { texts with fieldIdentifier := f.token }
  else texts

/-- The loop over the nodes of a message, with the message and `fieldIdentifierCounter`. -/
def addNode (state : MetaMessage × BitVec 32) (e : Ast) : Option (MetaMessage × BitVec 32) :=
  let (mm, fieldIdentifierCounter) := state
  if e.originalName = .messageName then
    some ({ mm with messageName := stringtoolbox.trim e.token }, fieldIdentifierCounter)
  else if e.originalName = .identifier then do
    let id ← stoi e.token
    return ({ mm with messageIdentifier := BitVec.ofInt 32 id }, fieldIdentifierCounter)
  else if e.originalName = .field then do
    let texts := e.nodes.foldl FieldTexts.read ⟨[], [], [], []⟩
    let counter :=
      if texts.fieldIdentifier = [] then fieldIdentifierCounter + 1 else fieldIdentifierCounter
    let id ← if texts.fieldIdentifier ≠ [] then
        (stoi (stringtoolbox.trim texts.fieldIdentifier)).map (BitVec.ofInt 32)
      else some counter
    let mf : MetaField := ⟨MessageParser.fieldDataType texts.fieldDataType,
      stringtoolbox.trim texts.fieldDataType, stringtoolbox.trim texts.fieldName, id,
      texts.fieldDefaultInitializerValue⟩
    return ({ mm with listOfMetaFields := mm.listOfMetaFields ++ [mf] }, counter)
  else some (mm, fieldIdentifierCounter)

/-- `createMetaMessage(_node, _packageName)`. -/
def createMetaMessage (packageName : Bytes) (ast : Ast) : Option MetaMessage :=
  (ast.nodes.foldlM addNode (⟨stringtoolbox.trim packageName, [], 0, []⟩, 0)).map Prod.fst

/-- `transform2MetaMessages(ast, listOfMetaMessages)`. -/
def transform2MetaMessages (ast : Ast) : Option (List MetaMessage) :=
  if ast.name = .messagesSpecification then
    let nodeIdentifier := ast.nodes.find? fun a => a.name = .packageName
    let packageName := (nodeIdentifier.map token).getD []
    (ast.nodes.filter fun node => node.name = .messageDeclaration).mapM
      (createMetaMessage packageName)
  else do
    let mm ← createMetaMessage [] ast
    return [mm]

/-! ## Duplicates -/

/-- The lists that are filled in the search for duplicates. They are sorted before the search; the
order in which they are kept does not matter. -/
structure Found where
  messageNames : List Bytes
  fieldNames : List Bytes
  numericalMessageIdentifiers : List Int
  numericalFieldIdentifiers : List Int
  deriving DecidableEq, Repr

/-- The part for the node `FIELD`. -/
def checkField (nodes : List Ast) (found : Found) : Option Found := do
  let found :=
    match nodes.find? fun a => a.originalName = .name with
    | some nodeName => { found with fieldNames := found.fieldNames ++ [nodeName.token] }
    | none => found
  match nodes.find? fun a => a.originalName = .identifier with
  | some nodeNumericalFieldIdentifier => do
      let id ← stoi nodeNumericalFieldIdentifier.token
      return { found with numericalFieldIdentifiers := found.numericalFieldIdentifiers ++ [id] }
  | none => return found

mutual

/-- `check4UniqueFieldNames`. -/
def check4UniqueFieldNames : Ast → Found → Option (Bool × Found)
  | node rule original _ nodes, found => do
      let (retVal, found) ←
        if rule = .messagesSpecification then do
          let (retVal, found) ← checkNodes nodes found
          pure (retVal && uniqueIdentifiers found.numericalMessageIdentifiers &&
            uniqueNames found.messageNames, found)
        else pure (true, found)
      let (retVal, found) ←
        if rule = .messageDeclaration then do
          let (retVal, found) ←
            checkParts nodes { found with fieldNames := [], numericalFieldIdentifiers := [] }
          pure (retVal && uniqueIdentifiers found.numericalFieldIdentifiers &&
            uniqueNames found.fieldNames, found)
        else pure (retVal, found)
      let found ← if original = .field then checkField nodes found else pure found
      return (retVal, found)

/-- The loop over the nodes of the specification. -/
def checkNodes : List Ast → Found → Option (Bool × Found)
  | [], found => some (true, found)
  | e :: others, found => do
      let (retVal, found) ← check4UniqueFieldNames e found
      let (all, found) ← checkNodes others found
      return (retVal && all, found)

/-- The loop over the nodes of a message. -/
def checkParts : List Ast → Found → Option (Bool × Found)
  | [], found => some (true, found)
  | e :: others, found => do
      let (retVal, found) ←
        if e.originalName = .messageName then
          pure (true, { found with
            messageNames := found.messageNames ++ [stringtoolbox.trim e.token] })
        else if e.originalName = .identifier then do
          let id ← stoi e.token
          pure (true, { found with
            numericalMessageIdentifiers := found.numericalMessageIdentifiers ++ [id] })
        else if e.originalName = .field then check4UniqueFieldNames e found
        else pure (true, found)
      let (all, found) ← checkParts others found
      return (retVal && all, found)

end

end Ast

/-! ## The trees of specifications -/

def DefaultNode.child : DefaultNode → Ast
  | .floatNumber token => Ast.leaf .floatNumber token
  | .bool token => Ast.leaf .bool token
  | .character token => Ast.leaf .character token
  | .string token => Ast.leaf .string token

def identifierNode (token : Bytes) : Ast := Ast.inner .identifier [Ast.leaf .naturalNumber token]

def FieldOption.ast : FieldOption → Ast
  | .default value => Ast.inner .default [value.child]
  | .identifier token => identifierNode token

def FieldNode.ast (f : FieldNode) : Ast :=
  Ast.inner .field
    (Ast.leaf .primitiveType f.primitiveType :: Ast.leaf .name f.name ::
      f.options.map FieldOption.ast)

def MessageDeclaration.ast (m : MessageDeclaration) : Ast :=
  Ast.inner .messageDeclaration
    (Ast.leaf .messageName m.messageName :: identifierNode m.identifier ::
      m.fields.map FieldNode.ast)

def packageNode (token : Bytes) : Ast := Ast.inner .packageDeclaration [Ast.leaf .packageName token]

/-- The tree that the parser builds for a specification. -/
def MessagesSpecification.ast (s : MessagesSpecification) : Ast :=
  Ast.inner .messagesSpecification
    ((s.packageName.map packageNode).toList ++ s.messages.map MessageDeclaration.ast)

/-! ## Optimized nodes -/

def FieldOption.optimized : FieldOption → Ast
  | .default value => value.child.replacing .default
  | .identifier token => (Ast.leaf .naturalNumber token).replacing .identifier

def FieldNode.optimized (f : FieldNode) : Ast :=
  Ast.inner .field
    (Ast.leaf .primitiveType f.primitiveType :: Ast.leaf .name f.name ::
      f.options.map FieldOption.optimized)

def MessageDeclaration.optimized (m : MessageDeclaration) : Ast :=
  Ast.inner .messageDeclaration
    (Ast.leaf .messageName m.messageName :: (FieldOption.identifier m.identifier).optimized ::
      m.fields.map FieldNode.optimized)

namespace Ast

theorem optimizeAll_map {α : Type} {build optimized : α → Ast}
    (each : ∀ a, (build a).optimize = optimized a) (as : List α) :
    optimizeAll (as.map build) = as.map optimized := by
  induction as with
  | nil => rfl
  | cons a as ih => rw [List.map_cons, List.map_cons, optimizeAll, each, ih]

theorem optimize_fieldOption (option : FieldOption) : option.ast.optimize = option.optimized := by
  cases option with
  | default value => cases value <;> rfl
  | identifier token => rfl

theorem optimize_field (f : FieldNode) : f.ast.optimize = f.optimized := by
  rw [FieldNode.ast, inner, optimize, optimizeAll_map optimize_fieldOption]
  rfl

theorem optimize_messageDeclaration (m : MessageDeclaration) : m.ast.optimize = m.optimized := by
  rw [MessageDeclaration.ast, inner, optimize, optimizeAll_map optimize_field]
  rfl

/-! ## Reading a message from its node -/

/-- The last element of a list counts, or what was there before. -/
theorem getD_getLast?_cons {α β : Type} (f : α → β) (a : α) (as : List α) (before : β) :
    ((a :: as).getLast?.map f).getD before = (as.getLast?.map f).getD (f a) := by
  rw [List.getLast?_cons]
  cases as.getLast? <;> rfl

/-- The last default value and the last identifier count. -/
theorem foldl_read_options (options : List FieldOption) :
    ∀ texts : FieldTexts, (options.map FieldOption.optimized).foldl FieldTexts.read texts =
      { texts with
        fieldDefaultInitializerValue :=
          (((⟨[], [], options⟩ : FieldNode).defaults.getLast?.map
            DefaultNode.initializerValue).getD texts.fieldDefaultInitializerValue)
        fieldIdentifier :=
          (⟨[], [], options⟩ : FieldNode).identifiers.getLast?.getD texts.fieldIdentifier } := by
  induction options with
  | nil => intro texts; rfl
  | cons option options ih =>
      intro texts
      rw [List.map_cons, List.foldl_cons, ih]
      cases option with
      | default value =>
          have here : texts.read (FieldOption.default value).optimized =
              { texts with fieldDefaultInitializerValue := value.initializerValue } := by
            cases value <;> rfl
          have defaults : (⟨[], [], .default value :: options⟩ : FieldNode).defaults =
              value :: (⟨[], [], options⟩ : FieldNode).defaults := rfl
          rw [here, defaults, getD_getLast?_cons]
          rfl
      | identifier token =>
          have here : texts.read (FieldOption.identifier token).optimized =
              { texts with fieldIdentifier := token } := rfl
          have identifiers : (⟨[], [], .identifier token :: options⟩ : FieldNode).identifiers =
              token :: (⟨[], [], options⟩ : FieldNode).identifiers := rfl
          rw [here, identifiers, List.getLast?_cons, Option.getD_some]
          rfl

theorem foldl_read_field (f : FieldNode) :
    f.optimized.nodes.foldl FieldTexts.read ⟨[], [], [], []⟩ =
      ⟨f.primitiveType, f.name, f.defaultInitializerValue, f.identifiers.getLast?.getD []⟩ :=
  foldl_read_options f.options ⟨f.primitiveType, f.name, [], []⟩

/-- The field for a node, and `fieldIdentifierCounter` behind it. -/
def metaFieldOf (counter : BitVec 32) (f : FieldNode) : Option (MetaField × BitVec 32) := do
  let fieldIdentifier := f.identifiers.getLast?.getD []
  let counter := if fieldIdentifier = [] then counter + 1 else counter
  let id ← if fieldIdentifier ≠ [] then
      (stoi (stringtoolbox.trim fieldIdentifier)).map (BitVec.ofInt 32)
    else some counter
  return (⟨fieldDataType f.primitiveType, stringtoolbox.trim f.primitiveType,
    stringtoolbox.trim f.name, id, f.defaultInitializerValue⟩, counter)

theorem createMetaFields_cons (counter : BitVec 32) (f : FieldNode) (fs : List FieldNode) :
    createMetaFields counter (f :: fs) =
      (metaFieldOf counter f).bind fun (mf, counter) =>
        (createMetaFields counter fs).map (mf :: ·) := by
  simp only [createMetaFields, metaFieldOf, Option.bind_eq_bind, Option.pure_def]
  by_cases given : f.identifiers.getLast?.getD [] = []
  · simp only [given, if_true, ne_eq, not_true_eq_false, if_false, Option.bind_some]
    cases createMetaFields (counter + 1) fs <;> rfl
  · simp only [given, if_false, ne_eq, not_false_eq_true, if_true]
    rcases stoi (stringtoolbox.trim (f.identifiers.getLast?.getD [])) with _ | id
    · rfl
    · simp only [Option.map_some, Option.bind_some]
      cases createMetaFields counter fs <;> rfl

theorem addNode_field (mm : MetaMessage) (counter : BitVec 32) (f : FieldNode) :
    addNode (mm, counter) f.optimized = (metaFieldOf counter f).map fun (mf, counter) =>
      ({ mm with listOfMetaFields := mm.listOfMetaFields ++ [mf] }, counter) := by
  have isField : f.optimized.originalName = .field := rfl
  simp only [addNode, isField, foldl_read_field, metaFieldOf]
  by_cases given : f.identifiers.getLast?.getD [] = []
  · simp only [given, if_true, ne_eq, not_true_eq_false, if_false]
    rfl
  · simp only [given, if_false, ne_eq, not_false_eq_true, if_true]
    rcases stoi (stringtoolbox.trim (f.identifiers.getLast?.getD [])) with _ | id <;> rfl

/-- The fields are added in their order. -/
theorem foldlM_addNode_fields (fs : List FieldNode) :
    ∀ (mm : MetaMessage) (counter : BitVec 32),
      ((fs.map FieldNode.optimized).foldlM addNode (mm, counter)).map Prod.fst =
        (createMetaFields counter fs).map fun fields =>
          { mm with listOfMetaFields := mm.listOfMetaFields ++ fields } := by
  induction fs with
  | nil =>
      intro mm counter
      rw [createMetaFields, Option.map_some, List.append_nil]
      rfl
  | cons f fs ih =>
      intro mm counter
      rw [List.map_cons, List.foldlM_cons, createMetaFields_cons, addNode_field]
      rcases metaFieldOf counter f with _ | ⟨mf, counter⟩
      · rfl
      · have others := ih { mm with listOfMetaFields := mm.listOfMetaFields ++ [mf] } counter
        simp only [List.append_assoc, List.cons_append, List.nil_append] at others
        rw [Option.map_some, Option.bind_some, Option.map_map]
        exact others

/-- **The message of a node.** -/
theorem createMetaMessage_optimized (packageName : Bytes) (m : MessageDeclaration) :
    createMetaMessage packageName m.optimized = MessageParser.createMetaMessage packageName m := by
  have nodes : m.optimized.nodes = leaf .messageName m.messageName ::
      (FieldOption.identifier m.identifier).optimized :: m.fields.map FieldNode.optimized := rfl
  have first (state : MetaMessage × BitVec 32) : addNode state (leaf .messageName m.messageName) =
      some ({ state.1 with messageName := stringtoolbox.trim m.messageName }, state.2) := rfl
  have second (state : MetaMessage × BitVec 32) :
      addNode state (FieldOption.identifier m.identifier).optimized = (stoi m.identifier).map
        fun id => ({ state.1 with messageIdentifier := BitVec.ofInt 32 id }, state.2) := by
    have isIdentifier :
        (FieldOption.identifier m.identifier).optimized.originalName = .identifier := rfl
    have text : (FieldOption.identifier m.identifier).optimized.token = m.identifier := rfl
    simp only [addNode, isIdentifier, text]
    cases stoi m.identifier <;> rfl
  rw [createMetaMessage, nodes, List.foldlM_cons, first, Option.bind_eq_bind, Option.bind_some,
    List.foldlM_cons, second, MessageParser.createMetaMessage]
  rcases stoi m.identifier with _ | id
  · rfl
  · rw [Option.map_some, Option.bind_eq_bind, Option.bind_some, foldlM_addNode_fields]
    rcases createMetaFields 0 m.fields with _ | fields <;> rfl

/-- A node that has been replaced has the nodes of the message. -/
theorem createMetaMessage_replacing (original : Rule) (packageName : Bytes) (ast : Ast) :
    createMetaMessage packageName (ast.replacing original) = createMetaMessage packageName ast := by
  cases ast
  rfl

/-- The optimized nodes of a specification. -/
def optimizedNodes (packageName : Option Bytes) (ms : List MessageDeclaration) : List Ast :=
  (packageName.map fun token => (leaf .packageName token).replacing .packageDeclaration).toList ++
    ms.map MessageDeclaration.optimized

/-- A specification with several nodes keeps them. -/
theorem optimize_specification_none (m m' : MessageDeclaration) (ms : List MessageDeclaration) :
    (MessagesSpecification.ast ⟨none, m :: m' :: ms⟩).optimize =
      inner .messagesSpecification (optimizedNodes none (m :: m' :: ms)) := by
  simp only [MessagesSpecification.ast, optimizedNodes, Option.map_none, Option.toList_none,
    List.nil_append, List.map_cons, inner, optimize, optimize_messageDeclaration,
    optimizeAll_map optimize_messageDeclaration]

theorem optimize_specification_some (packageName : Bytes) (m : MessageDeclaration)
    (ms : List MessageDeclaration) :
    (MessagesSpecification.ast ⟨some packageName, m :: ms⟩).optimize =
      inner .messagesSpecification (optimizedNodes (some packageName) (m :: ms)) := by
  have package : (packageNode packageName).optimize =
      (leaf .packageName packageName).replacing .packageDeclaration := rfl
  simp only [MessagesSpecification.ast, optimizedNodes, Option.map_some, Option.toList_some,
    List.cons_append, List.nil_append, List.map_cons, inner, optimize, package,
    optimize_messageDeclaration, optimizeAll_map optimize_messageDeclaration]

/-- A single message takes the place of the specification. -/
theorem optimize_specification_single (m : MessageDeclaration) :
    (MessagesSpecification.ast ⟨none, [m]⟩).optimize =
      m.optimized.replacing .messagesSpecification := by
  rw [← optimize_messageDeclaration]
  rfl

theorem name_replacing (original : Rule) (ast : Ast) :
    (ast.replacing original).name = ast.name := by
  cases ast
  rfl

theorem transform2MetaMessages_inner (packageName : Option Bytes) (ms : List MessageDeclaration) :
    transform2MetaMessages (inner .messagesSpecification (optimizedNodes packageName ms)) =
      ms.mapM (MessageParser.createMetaMessage (packageName.getD [])) := by
  have noPackage : ((ms.map MessageDeclaration.optimized).find? fun a =>
      a.name = .packageName) = none := by
    apply List.find?_eq_none.mpr
    rw [List.forall_mem_map]
    intro m _
    exact Bool.false_ne_true
  have messages : ((ms.map MessageDeclaration.optimized).filter fun node =>
      node.name = .messageDeclaration) = ms.map MessageDeclaration.optimized := by
    apply List.filter_eq_self.mpr
    rw [List.forall_mem_map]
    intro m _
    rfl
  have each (name : Bytes) : (ms.map MessageDeclaration.optimized).mapM (createMetaMessage name) =
      ms.mapM (MessageParser.createMetaMessage name) := by
    rw [List.mapM_map]
    congr 1
    funext m
    exact createMetaMessage_optimized name m
  have isSpecification (nodes : List Ast) :
      (inner .messagesSpecification nodes).name = .messagesSpecification := rfl
  have nodes (nodes : List Ast) : (inner .messagesSpecification nodes).nodes = nodes := rfl
  rw [transform2MetaMessages, if_pos (isSpecification _), nodes, optimizedNodes]
  cases packageName with
  | none =>
      simp only [Option.map_none, Option.toList_none, List.nil_append, noPackage, messages, each]
  | some packageName =>
      have isPackage : ((leaf .packageName packageName).replacing .packageDeclaration).name =
        .packageName := rfl
      have found := List.find?_cons_of_pos (p := fun a : Ast => decide (a.name = .packageName))
        (l := ms.map MessageDeclaration.optimized) (decide_eq_true isPackage)
      have others := List.filter_cons_of_neg
        (p := fun a : Ast => decide (a.name = .messageDeclaration))
        (l := ms.map MessageDeclaration.optimized)
        (of_decide_eq_false (by rw [isPackage]; rfl) : ¬ _)
      simp only [Option.map_some, Option.toList_some, List.cons_append, List.nil_append]
      rw [found, others, messages]
      exact each packageName

/-- **The messages of an optimized tree.** -/
theorem transform2MetaMessages_optimize (s : MessagesSpecification) :
    s.ast.optimize.transform2MetaMessages = MessageParser.transform2MetaMessages s := by
  obtain ⟨packageName, ms⟩ := s
  cases packageName with
  | none =>
      cases ms with
      | nil => rfl
      | cons m ms =>
          cases ms with
          | nil =>
              have isMessage : m.optimized.name = .messageDeclaration := rfl
              rw [optimize_specification_single, transform2MetaMessages,
                if_neg (by rw [name_replacing, isMessage]; decide), createMetaMessage_replacing,
                createMetaMessage_optimized, MessageParser.transform2MetaMessages]
              · rfl
              · exact nofun
          | cons m' ms =>
              rw [optimize_specification_none, transform2MetaMessages_inner]
              rfl
  | some packageName =>
      cases ms with
      | nil => rfl
      | cons m ms =>
          rw [optimize_specification_some, transform2MetaMessages_inner]
          rfl

/-! ## Duplicates in an optimized tree -/

/-- What the loops add for the fields of a message. -/
def Found.addFields (found : Found) (fs : List FieldNode) (ids : List Int) : Found :=
  { found with
    fieldNames := found.fieldNames ++ fs.map FieldNode.name
    numericalFieldIdentifiers := found.numericalFieldIdentifiers ++ ids }

theorem find?_identifier (options : List FieldOption) :
    ((options.map FieldOption.optimized).find? fun a => a.originalName = .identifier) =
      (⟨[], [], options⟩ : FieldNode).identifiers.head?.map fun token =>
        (FieldOption.identifier token).optimized := by
  induction options with
  | nil => rfl
  | cons option options ih =>
      cases option with
      | default value => cases value <;> exact ih
      | identifier token => rfl

theorem checkField_optimized (f : FieldNode) (found : Found) :
    checkField f.optimized.nodes found =
      (f.identifiers.head?.toList.mapM stoi).map fun ids => found.addFields [f] ids := by
  have identifier : (f.optimized.nodes.find? fun a => a.originalName = .identifier) =
      f.identifiers.head?.map fun token => (FieldOption.identifier token).optimized :=
    find?_identifier f.options
  have name : (f.optimized.nodes.find? fun a => a.originalName = .name) =
      some (leaf .name f.name) := rfl
  simp only [checkField, name, identifier]
  rcases f.identifiers.head? with _ | token
  · simp only [Option.map_none, Option.toList_none, List.mapM_nil, Option.pure_def, Option.map_some,
      Found.addFields, List.append_nil]
    rfl
  · have isToken : (FieldOption.identifier token).optimized.token = token := rfl
    simp only [Option.map_some, Option.toList_some, List.mapM_cons, List.mapM_nil, isToken]
    cases stoi token <;> rfl

/-- A field is never wrong by itself. -/
theorem check_field (f : FieldNode) (found : Found) :
    check4UniqueFieldNames f.optimized found =
      (f.identifiers.head?.toList.mapM stoi).map fun ids => (true, found.addFields [f] ids) := by
  have isField : f.optimized = node .field .field [] f.optimized.nodes := rfl
  rw [isField, check4UniqueFieldNames]
  simp only [reduceCtorEq, if_false, if_true, Option.pure_def, Option.bind_eq_bind,
    Option.bind_some, checkField_optimized]
  cases f.identifiers.head?.toList.mapM stoi <;> rfl

/-- The fields of a message are found, and none of them is wrong by itself. -/
theorem checkParts_fields (fs : List FieldNode) : ∀ found : Found,
    checkParts (fs.map FieldNode.optimized) found =
      ((fs.filterMap fun f => f.identifiers.head?).mapM stoi).map fun ids =>
        (true, found.addFields fs ids) := by
  induction fs with
  | nil =>
      intro found
      simp only [List.map_nil, checkParts, List.filterMap_nil, List.mapM_nil, Option.pure_def,
        Option.map_some, Found.addFields, List.append_nil]
  | cons f fs ih =>
      intro found
      have isField : f.optimized.originalName = .field := rfl
      have split : (f :: fs).filterMap (fun f => f.identifiers.head?) =
          f.identifiers.head?.toList ++ fs.filterMap fun f => f.identifiers.head? := by
        rw [List.filterMap_cons]
        cases f.identifiers.head? <;> rfl
      rw [List.map_cons, checkParts, split, List.mapM_append]
      simp only [isField, reduceCtorEq, if_false, if_true, check_field, ih]
      rcases f.identifiers.head?.toList.mapM stoi with _ | first
      · rfl
      · simp only [Option.map_some, Option.bind_eq_bind, Option.bind_some, Option.pure_def,
          Found.addFields, List.append_assoc, List.map_cons, List.map_nil, List.cons_append,
          List.nil_append]
        cases (fs.filterMap fun f => f.identifiers.head?).mapM stoi <;> rfl

/-- The result of the search, and what is added for the specification. -/
def summary (r : Bool × Found) : Bool × List Bytes × List Int :=
  (r.1, r.2.messageNames, r.2.numericalMessageIdentifiers)

/-- **The search in a message**, wherever it stands. -/
theorem check_message (original : Rule) (noField : original ≠ .field) (m : MessageDeclaration)
    (found : Found) :
    (check4UniqueFieldNames (node .messageDeclaration original [] m.optimized.nodes) found).map
        summary =
      (checkMessage m).map fun c => (c.1, found.messageNames ++ [c.2.2],
        found.numericalMessageIdentifiers ++ [c.2.1]) := by
  have nodes : m.optimized.nodes = leaf .messageName m.messageName ::
      (FieldOption.identifier m.identifier).optimized :: m.fields.map FieldNode.optimized := rfl
  have isName : (leaf .messageName m.messageName).originalName = .messageName := rfl
  have isIdentifier :
      (FieldOption.identifier m.identifier).optimized.originalName = .identifier := rfl
  have text : (FieldOption.identifier m.identifier).optimized.token = m.identifier := rfl
  rw [check4UniqueFieldNames, nodes]
  simp only [checkParts, checkMessage, reduceCtorEq, if_false, if_true, if_neg noField, isName,
    isIdentifier, text, checkParts_fields, Option.pure_def, Option.bind_eq_bind, Option.bind_some]
  rcases stoi m.identifier with _ | id
  · rfl
  · simp only [Option.bind_some, Found.addFields, Bool.true_and, List.nil_append]
    cases (m.fields.filterMap fun f => f.identifiers.head?).mapM stoi <;> rfl

/-- What follows two computations is the same if it depends only on what they have in common. -/
theorem bind_eq_bind_of_map {α β γ δ : Type} {x : Option α} {y : Option β} {f : α → γ} {g : β → γ}
    (same : x.map f = y.map g) {k : α → Option δ} {l : β → Option δ}
    (next : ∀ a b, f a = g b → k a = l b) : x.bind k = y.bind l := by
  cases x with
  | none =>
      cases y with
      | none => rfl
      | some b => cases same
  | some a =>
      cases y with
      | none => cases same
      | some b => exact next a b (Option.some.inj same)

/-- The search in all messages of a specification. -/
theorem checkNodes_messages (ms : List MessageDeclaration) : ∀ found : Found,
    (checkNodes (ms.map MessageDeclaration.optimized) found).map summary =
      (ms.mapM checkMessage).map fun checked => (checked.all Prod.fst,
        found.messageNames ++ checked.map (fun c => c.2.2),
        found.numericalMessageIdentifiers ++ checked.map fun c => c.2.1) := by
  induction ms with
  | nil =>
      intro found
      simp only [List.map_nil, checkNodes, List.mapM_nil, Option.pure_def, Option.map_some, summary,
        List.all_nil, List.append_nil]
  | cons m ms ih =>
      intro found
      have here := check_message .messageDeclaration (by decide) m found
      rw [List.map_cons, checkNodes, List.mapM_cons]
      simp only [Option.bind_eq_bind, Option.pure_def, Option.map_bind, Function.comp_def,
        Option.map_some]
      refine bind_eq_bind_of_map here fun r c first => ?_
      obtain ⟨isOk, names, ids⟩ : r.1 = c.1 ∧ r.2.messageNames = found.messageNames ++ [c.2.2] ∧
          r.2.numericalMessageIdentifiers = found.numericalMessageIdentifiers ++ [c.2.1] := by
        simpa only [summary, Prod.mk.injEq] using first
      refine bind_eq_bind_of_map (ih r.2) fun r' cs others => congrArg some ?_
      simp only [summary, Prod.mk.injEq] at others
      obtain ⟨areOk, names', ids'⟩ := others
      simp only [summary, areOk, names', ids', isOk, names, ids, List.all_cons, List.map_cons,
        List.append_assoc, List.cons_append, List.nil_append]

/-- The lists are empty at first. -/
def Found.init : Found := ⟨[], [], [], []⟩

theorem check_inner (packageName : Option Bytes) (ms : List MessageDeclaration) :
    (check4UniqueFieldNames (inner .messagesSpecification (optimizedNodes packageName ms))
        Found.init).map Prod.fst = do
      let checked ← ms.mapM checkMessage
      return checked.all Prod.fst && uniqueIdentifiers (checked.map fun c => c.2.1) &&
        uniqueNames (checked.map fun c => c.2.2) := by
  have nodes : (checkNodes (optimizedNodes packageName ms) Found.init).map summary =
      (ms.mapM checkMessage).map fun checked => (checked.all Prod.fst,
        checked.map (fun c => c.2.2), checked.map fun c => c.2.1) := by
    cases packageName with
    | none => exact checkNodes_messages ms Found.init
    | some packageName =>
        have package : check4UniqueFieldNames
            ((leaf .packageName packageName).replacing .packageDeclaration) Found.init =
          some (true, Found.init) := rfl
        have split : optimizedNodes (some packageName) ms =
            (leaf .packageName packageName).replacing .packageDeclaration ::
              ms.map MessageDeclaration.optimized := rfl
        rw [split, checkNodes, package]
        refine Eq.trans ?_ (checkNodes_messages ms Found.init)
        simp only [Option.bind_eq_bind, Option.bind_some, Option.pure_def, Bool.true_and]
        cases checkNodes (ms.map MessageDeclaration.optimized) Found.init <;> rfl
  rw [inner, check4UniqueFieldNames]
  simp only [if_true, reduceCtorEq, if_false, Option.pure_def, Option.bind_eq_bind, Option.map_bind,
    Option.bind_some, Function.comp_def, Option.map_some]
  refine bind_eq_bind_of_map nodes fun r checked same => congrArg some ?_
  simp only [summary, Prod.mk.injEq] at same
  obtain ⟨areOk, names, ids⟩ := same
  rw [areOk, names, ids]

/-- **The search for duplicates in an optimized tree.** -/
theorem check4UniqueFieldNames_optimize (s : MessagesSpecification) :
    (s.ast.optimize.check4UniqueFieldNames Found.init).map Prod.fst =
      MessageParser.check4UniqueFieldNames s := by
  obtain ⟨packageName, ms⟩ := s
  cases packageName with
  | none =>
      cases ms with
      | nil => rfl
      | cons m ms =>
          cases ms with
          | nil =>
              have single := check_message .messagesSpecification (by decide) m
                Found.init
              have first := congrArg (Option.map Prod.fst) single
              rw [Option.map_map, Option.map_map] at first
              rw [optimize_specification_single, MessageParser.check4UniqueFieldNames]
              refine Eq.trans first ?_
              cases checkMessage m <;> rfl
          | cons m' ms =>
              rw [optimize_specification_none, check_inner]
              rfl
  | some packageName =>
      cases ms with
      | nil => rfl
      | cons m ms =>
          rw [optimize_specification_some, check_inner]
          rfl

/-! ## Parsing -/

/-- What `parse` does with the tree of a text. -/
def resultOf (ast : Ast) : Option (List MetaMessage × MessageParserErrorCodes) := do
  let ast := ast.optimize
  let (unique, _) ← ast.check4UniqueFieldNames Found.init
  if unique then
    return (← ast.transform2MetaMessages, .noMessageParserError)
  else
    return ([], .duplicateIdentifiers)

/-- **The result for the declarations** is what `parse` gets from their optimized tree. -/
theorem resultOf_ast (s : MessagesSpecification) : s.ast.resultOf = MessageParser.resultOf s := by
  rw [resultOf, MessageParser.resultOf, transform2MetaMessages_optimize]
  rw [← check4UniqueFieldNames_optimize]
  cases s.ast.optimize.check4UniqueFieldNames Found.init <;> rfl

end Ast

end Cluon
