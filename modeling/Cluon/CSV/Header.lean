import Cluon.CSV.ToCSVVisitor
import Cluon.Message.DataStructures

/-!
# Labels of columns

The column of a field should have the names of all fields that lead to it. But the visitor of a
nested message has only the name of one field as its prefix. So a label has at most the last two
names of a path, and the header names the fields if and only if none that is not masked is in a
message that is nested in a nested message (`headerNamesLeaves_iff`).
-/

set_option autoImplicit false

namespace Cluon

open Library JSON ToCSVVisitor

/-- The full name of a field: the names of its path, with dots between them. -/
def dottedPath (path : List Bytes) : Bytes := (asciiBytes ".").intercalate path

/-- The header has one column for each field that is not masked, in order, with the full name of the
field. If no two fields of a message have the same name, then no two columns have. -/
structure HeaderNamesLeaves (F : FloatFormat) (delimiter : Byte)
    (mask : KeyValueMap (BitVec 32) Bool) (T : MessageType) : Prop where
  header : ∀ m, (accept F T m (init delimiter true mask)).csv =
    terminated delimiter ((T.fields.paths mask).map dottedPath) ++ [newline] ++
      (accept F T m (init delimiter true mask)).bufferValues
  distinct : T.fields.Distinct FieldInfo.name → T.fields.All (fun field => 0x2E ∉ field.name) →
    ((T.fields.paths mask).map dottedPath).Nodup

/-! ## Different paths -/

namespace Fields

/-- A path begins with the name of a field of the message. -/
theorem head_of_mem_paths {mask : KeyValueMap (BitVec 32) Bool} {fs : Fields} :
    ∀ path ∈ fs.paths mask, ∃ name ∈ fs.keys FieldInfo.name, path.head? = some name := by
  induction fs generalizing mask with
  | nil => exact nofun
  | scalar field t rest ih =>
      intro path member
      rcases List.mem_append.mp member with here | later
      · split at here
        · rw [List.mem_singleton.mp here]
          exact ⟨field.name, List.mem_cons_self, rfl⟩
        · cases here
      · obtain ⟨name, inKeys, first⟩ := ih path later
        exact ⟨name, List.mem_cons_of_mem _ inKeys, first⟩
  | nested field info inner rest _ ih =>
      intro path member
      rcases List.mem_append.mp member with here | later
      · split at here
        · obtain ⟨inside, -, rfl⟩ := List.mem_map.mp here
          exact ⟨field.name, List.mem_cons_self, rfl⟩
        · cases here
      · obtain ⟨name, inKeys, first⟩ := ih path later
        exact ⟨name, List.mem_cons_of_mem _ inKeys, first⟩

theorem nodup_paths {mask : KeyValueMap (BitVec 32) Bool} {fs : Fields} :
    fs.Distinct FieldInfo.name → (fs.paths mask).Nodup := by
  induction fs generalizing mask with
  | nil => exact fun _ => List.nodup_nil
  | scalar field t rest ih =>
      rintro ⟨new, others⟩
      rw [paths]
      refine List.Nodup.append ?_ (ih others) ?_
      · split
        · exact List.nodup_singleton _
        · exact List.nodup_nil
      · intro path here later
        split at here
        · rw [List.mem_singleton.mp here] at later
          obtain ⟨name, inKeys, first⟩ := head_of_mem_paths _ later
          exact new (Option.some.inj first ▸ inKeys)
        · cases here
  | nested field info inner rest ihInner ih =>
      rintro ⟨new, inside, others⟩
      rw [paths]
      refine List.Nodup.append ?_ (ih others) ?_
      · split
        · exact (ihInner inside).map (List.cons_injective)
        · exact List.nodup_nil
      · intro path here later
        split at here
        · obtain ⟨_, -, rfl⟩ := List.mem_map.mp here
          obtain ⟨name, inKeys, first⟩ := head_of_mem_paths _ later
          exact new (Option.some.inj first ▸ inKeys)
        · cases here

/-- Paths of names without dots have different full names. -/
theorem nodup_dottedPath {mask : KeyValueMap (BitVec 32) Bool} {fs : Fields}
    (distinct : fs.Distinct FieldInfo.name) (noDots : fs.All fun field => 0x2E ∉ field.name) :
    ((fs.paths mask).map dottedPath).Nodup := by
  apply (nodup_paths distinct).map_on
  intro path member path' member' same
  have split {path : List Bytes} (member : path ∈ fs.paths mask) :
      (dottedPath path).splitOn 0x2E = path :=
    List.splitOn_intercalate 0x2E (forall_of_mem_paths noDots path member)
      (paths_ne_nil path member)
  rw [← split member, same, split member']

end Fields

/-! ## Labels -/

theorem dottedPath_singleton (name : Bytes) : dottedPath [name] = name := by
  simp [dottedPath]

theorem dottedPath_cons {name : Bytes} {path : List Bytes} (some : path ≠ []) :
    dottedPath (name :: path) = name ++ asciiBytes "." ++ dottedPath path := by
  rw [dottedPath, List.intercalate_cons_of_ne_nil some]
  rfl

/-- A field of the message itself, or of a message in a field with a name. -/
def AtMostOneLevel (path : List Bytes) : Prop :=
  (∃ name, path = [name]) ∨ ∃ parent name, parent ≠ [] ∧ path = [parent, name]

/-- A label is no longer than the full name. -/
theorem length_pathLabel_le {path : List Bytes} (some : path ≠ []) (columnPrefix : Bytes) :
    (pathLabel columnPrefix path).length ≤ (dottedPath (columnPrefix :: path)).length := by
  induction path generalizing columnPrefix with
  | nil => exact absurd rfl some
  | cons name rest ih =>
      rw [dottedPath_cons (List.cons_ne_nil name rest), List.length_append, List.length_append]
      cases rest with
      | nil =>
          rw [pathLabel, label, dottedPath_singleton, List.length_append, List.length_append]
          split
          · exact le_rfl
          · simp
      | cons child rest =>
          rw [pathLabel_cons (List.cons_ne_nil child rest)]
          exact (ih (List.cons_ne_nil child rest) name).trans (Nat.le_add_left _ _)

theorem length_pathLabel_nil_le {path : List Bytes} (some : path ≠ []) :
    (pathLabel [] path).length ≤ (dottedPath path).length := by
  cases path with
  | nil => exact absurd rfl some
  | cons name rest =>
      cases rest with
      | nil => exact (congrArg List.length (dottedPath_singleton name)).ge
      | cons child rest =>
          rw [pathLabel_cons (List.cons_ne_nil child rest)]
          exact length_pathLabel_le (List.cons_ne_nil child rest) name

/-- **A label is the full name** of a field of the message itself or of a message in it. -/
theorem pathLabel_eq_iff {path : List Bytes} (some : path ≠ []) :
    pathLabel [] path = dottedPath path ↔ AtMostOneLevel path := by
  match path with
  | [] => exact absurd rfl some
  | [name] => exact iff_of_true (dottedPath_singleton name).symm (.inl ⟨name, rfl⟩)
  | [parent, name] =>
      rw [dottedPath_cons (List.cons_ne_nil name []), dottedPath_singleton]
      by_cases empty : parent = []
      · subst empty
        refine iff_of_false (fun same => ?_) ?_
        · simpa [pathLabel, label, asciiBytes] using congrArg List.length same
        · rintro (⟨name', ⟨⟩⟩ | ⟨_, _, nonempty, same⟩)
          exact nonempty (List.cons.inj same).1.symm
      · refine iff_of_true ?_ (.inr ⟨parent, name, empty, rfl⟩)
        rw [pathLabel_cons (List.cons_ne_nil name []), pathLabel, label, if_pos empty]
  | grandparent :: parent :: name :: rest =>
      refine iff_of_false (fun same => ?_) ?_
      · have shorter := length_pathLabel_le (List.cons_ne_nil name rest) parent
        have equal := congrArg List.length same
        rw [pathLabel_cons (List.cons_ne_nil _ _), pathLabel_cons (List.cons_ne_nil _ _),
          dottedPath_cons (List.cons_ne_nil _ _), List.length_append, List.length_append] at equal
        have dot : (asciiBytes ".").length = 1 := rfl
        omega
      · rintro (⟨_, ⟨⟩⟩ | ⟨_, _, _, ⟨⟩⟩)

/-- Texts of shorter items are shorter, and the same only if all items are. -/
theorem map_eq_of_terminated_eq {α : Type} {sep : Byte} {f g : α → Bytes} {as : List α}
    (shorter : ∀ a ∈ as, (f a).length ≤ (g a).length) :
    terminated sep (as.map f) = terminated sep (as.map g) → ∀ a ∈ as, f a = g a := by
  have total {as : List α} (shorter : ∀ a ∈ as, (f a).length ≤ (g a).length) :
      (terminated sep (as.map f)).length ≤ (terminated sep (as.map g)).length := by
    induction as with
    | nil => exact le_rfl
    | cons a as ih =>
        obtain ⟨here, others⟩ := List.forall_mem_cons.mp shorter
        have := ih others
        simp only [List.map_cons, terminated_cons, List.length_append, List.length_cons]
        omega
  induction as with
  | nil => exact fun _ => nofun
  | cons a as ih =>
      intro same
      obtain ⟨here, others⟩ := List.forall_mem_cons.mp shorter
      rw [List.map_cons, List.map_cons, terminated_cons, terminated_cons] at same
      have rest := total others
      have lengths := congrArg List.length same
      simp only [List.length_append, List.length_cons] at lengths
      obtain ⟨first, same⟩ := List.append_inj same (by omega)
      exact List.forall_mem_cons.mpr ⟨first, ih others (List.cons.inj same).2⟩

/-- What a newly constructed visitor writes. -/
theorem csv_accept (F : FloatFormat) (T : MessageType) (m : T.Values) (delimiter : Byte)
    (mask : KeyValueMap (BitVec 32) Bool) :
    (accept F T m (init delimiter true mask)).csv =
      terminated delimiter ((T.fields.paths mask).map (pathLabel [])) ++ [newline] ++
        (accept F T m (init delimiter true mask)).bufferValues := by
  rw [accept_eq F T m rfl]
  rfl

/-- **The header names the fields** if and only if none of those that are not masked is in a message
that is nested in a nested message, and none in a field without a name. -/
theorem headerNamesLeaves_iff (F : FloatFormat) (delimiter : Byte)
    (mask : KeyValueMap (BitVec 32) Bool) (T : MessageType) :
    HeaderNamesLeaves F delimiter mask T ↔ ∀ path ∈ T.fields.paths mask, AtMostOneLevel path := by
  constructor
  · intro h path member
    obtain ⟨m⟩ := T.fields.nonempty_values
    have header := h.header m
    rw [csv_accept] at header
    have same := map_eq_of_terminated_eq
      (fun path member => length_pathLabel_nil_le (Fields.paths_ne_nil path member))
      (List.append_cancel_right (List.append_cancel_right header)) path member
    exact (pathLabel_eq_iff (Fields.paths_ne_nil path member)).mp same
  · intro shallow
    have labels : (T.fields.paths mask).map (pathLabel []) = (T.fields.paths mask).map dottedPath :=
      List.map_congr_left fun path member =>
        (pathLabel_eq_iff (Fields.paths_ne_nil path member)).mpr (shallow path member)
    refine ⟨fun m => ?_, Fields.nodup_dottedPath⟩
    rw [csv_accept, labels]

/-- A message that is nested in a nested message. -/
def threeLevels : MessageType where
  info := ⟨1, asciiBytes "Outer", asciiBytes "Outer"⟩
  fields :=
    .nested (.declared "Middle" "a" 1) ⟨2, asciiBytes "Middle", asciiBytes "Middle"⟩
      (.nested (.declared "Inner" "b" 1) ⟨3, asciiBytes "Inner", asciiBytes "Inner"⟩
        (.scalar (.declared "int32_t" "c" 1) .int32 .nil) .nil) .nil

/-- **The label of a field that is nested twice** is not its full name. -/
theorem not_headerNamesLeaves : ¬ ∀ F delimiter mask T, HeaderNamesLeaves F delimiter mask T := by
  intro h
  have header := (h ⟨fun _ => [], fun _ => [], fun _ => 0, fun _ => 0, fun _ _ => 0⟩ 0x3B [] threeLevels).header
    (((5, ()), ()), ())
  exact absurd header (by decide +kernel)

end Cluon
