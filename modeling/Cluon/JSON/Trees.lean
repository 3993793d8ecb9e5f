import Cluon.JSON.Items

/-!
# Trees of items

The items of a text are meant as a tree: the members of an object, and of the objects nested in it.
Which items the decoder collects into which map does not depend on the tree, but on where a closing
brace is seen. Each object gets its own members if and only if the end of every nested object that
is followed by further items is seen (`ItemTree.Exact`, `collects_of_exact`,
`ItemTree.exact_of_found`).

For the converse direction, each item adds at most one entry to the maps (`Collects.weigh_le`), and a
tree with all of its members in the maps needs one entry for each of them. Hence no item can be
wasted: nothing is overwritten, and every nested object takes exactly its own items.
-/

set_option autoImplicit false

namespace Cluon

open Library JSON stringtoolbox

/-! ## Weights -/

/-- The number of entries that a value of the map consists of, itself included. -/
def JSONValue.weight : JSONValue → Nat
  | .object m => (m.attach.map fun e => e.1.2.weight).sum + 1
  | .bool _ | .number _ | .string _ => 1
termination_by any => sizeOf any
decreasing_by
  obtain ⟨⟨k, any⟩, inside⟩ := e
  have smaller := List.sizeOf_lt_of_mem inside
  simp only [Prod.mk.sizeOf_spec, object.sizeOf_spec] at smaller ⊢
  omega

theorem JSONValue.weight_object (m : KeyValueMap Bytes JSONValue) :
    JSONValue.weight (.object m) = m.weigh weight + 1 := by
  have values : (m.attach.map fun e => e.1.2.weight) = m.map fun e => e.2.weight :=
    List.attach_map_val (f := fun e : Bytes × JSONValue => e.2.weight)
  rw [weight, values, KeyValueMap.weigh]

theorem JSONValue.weight_pos (any : JSONValue) : 0 < any.weight := by
  cases any with
  | object m => rw [weight_object]; exact Nat.succ_pos _
  | bool | number | string => rw [weight]; exact Nat.one_pos

/-! ## What is collected -/

section Collects

variable {items left : List JSONItem} {keyValues keyValues' : KeyValueMap Bytes JSONValue}

/-- The items that are left are the last ones. -/
theorem Collects.suffix (collects : Collects items keyValues keyValues' left) :
    left <:+ items := by
  induction collects with
  | nil => exact List.suffix_rfl
  | close name any items keyValues => exact List.suffix_cons _ _
  | value _ ih => exact ih.trans (List.suffix_cons _ _)
  | object _ _ ihInner ih => exact (ih.trans ihInner).trans (List.suffix_cons _ _)

/-- A map takes the first item. -/
theorem Collects.length_lt (collects : Collects items keyValues keyValues' left)
    (some : items ≠ []) : left.length < items.length := by
  cases collects with
  | nil => exact absurd rfl some
  | close name any items keyValues => exact Nat.lt_succ_self _
  | value others => exact Nat.lt_succ_of_le others.suffix.length_le
  | object inner others =>
      exact Nat.lt_succ_of_le (others.suffix.length_le.trans inner.suffix.length_le)

/-- A map is collected from all items. -/
theorem exists_collects (n : Nat) :
    ∀ items : List JSONItem, items.length ≤ n → ∀ keyValues : KeyValueMap Bytes JSONValue,
      ∃ keyValues' left, Collects items keyValues keyValues' left := by
  induction n with
  | zero =>
      intro items short keyValues
      obtain rfl := List.length_eq_zero_iff.mp (Nat.le_zero.mp short)
      exact ⟨_, _, .nil keyValues⟩
  | succ n ih =>
      intro items short keyValues
      cases items with
      | nil => exact ⟨_, _, .nil keyValues⟩
      | cons item items =>
          have shorter : items.length ≤ n := Nat.le_of_succ_le_succ short
          cases item with
          | value name any closes =>
              cases closes with
              | true => exact ⟨_, _, .close name any items keyValues⟩
              | false =>
                  obtain ⟨keyValues', left, others⟩ := ih items shorter (keyValues.assign name any)
                  exact ⟨_, _, .value others⟩
          | object name =>
              obtain ⟨nested, left, inner⟩ := ih items shorter []
              obtain ⟨keyValues', left', others⟩ := ih left
                (inner.suffix.length_le.trans shorter) (keyValues.assign name (.object nested))
              exact ⟨_, _, .object inner others⟩

/-- Only one map is collected. -/
theorem Collects.unique (collects : Collects items keyValues keyValues' left) :
    ∀ {keyValues'' : KeyValueMap Bytes JSONValue} {left' : List JSONItem},
      Collects items keyValues keyValues'' left' → keyValues'' = keyValues' ∧ left' = left := by
  induction collects with
  | nil =>
      intro _ _ other
      cases other with
      | nil => exact ⟨rfl, rfl⟩
  | close name any items keyValues =>
      intro _ _ other
      cases other with
      | close => exact ⟨rfl, rfl⟩
  | value _ ih =>
      intro _ _ other
      cases other with
      | value others => exact ih others
  | object _ _ ihInner ih =>
      intro _ _ other
      cases other with
      | object inner others =>
          obtain ⟨rfl, rfl⟩ := ihInner inner
          exact ih others

/-- The values of items are scalars. -/
def Flat (items : List JSONItem) : Prop :=
  ∀ name any closes, JSONItem.value name any closes ∈ items → any.weight = 1

theorem Flat.of_suffix (flat : Flat items) (suffix : left <:+ items) : Flat left :=
  fun name any closes inside => flat name any closes (suffix.subset inside)

theorem Flat.tail {item : JSONItem} (flat : Flat (item :: items)) : Flat items :=
  flat.of_suffix (List.suffix_cons _ _)

/-- **Each item adds at most one entry.** -/
theorem Collects.weigh_le (collects : Collects items keyValues keyValues' left) :
    Flat items → keyValues'.weigh JSONValue.weight + left.length ≤
      keyValues.weigh JSONValue.weight + items.length := by
  induction collects with
  | nil => intro _; exact Nat.le_refl _
  | close name any items keyValues =>
      intro flat
      have added := KeyValueMap.weigh_assign_le JSONValue.weight_pos keyValues name any
      rw [flat name any true List.mem_cons_self] at added
      rw [List.length_cons]
      omega
  | @value name any _ _ keyValues _ _ ih =>
      intro flat
      have added := KeyValueMap.weigh_assign_le JSONValue.weight_pos keyValues name any
      rw [flat name any false List.mem_cons_self] at added
      have others := ih flat.tail
      rw [List.length_cons]
      omega
  | @object name _ _ _ keyValues nested _ inner _ ihInner ih =>
      intro flat
      have within := ihInner flat.tail
      have others := ih (flat.tail.of_suffix inner.suffix)
      have added := KeyValueMap.weigh_assign_le JSONValue.weight_pos keyValues name
        (.object nested)
      have empty : KeyValueMap.weigh JSONValue.weight ([] : KeyValueMap Bytes JSONValue) = 0 := rfl
      rw [JSONValue.weight_object] at added
      rw [List.length_cons]
      omega

/-- **If no item is wasted, nothing is overwritten.** -/
theorem Collects.extends_of_weigh (collects : Collects items keyValues keyValues' left) :
    Flat items → keyValues.weigh JSONValue.weight + items.length ≤
      keyValues'.weigh JSONValue.weight + left.length →
      ∃ entries, keyValues' = keyValues ++ entries := by
  have new {keyValues : KeyValueMap Bytes JSONValue} {name : Bytes} {any : JSONValue}
      (kept : keyValues.weigh JSONValue.weight + any.weight ≤
        (keyValues.assign name any).weigh JSONValue.weight) :
      keyValues.assign name any = keyValues ++ [(name, any)] := by
    cases found : keyValues.find name with
    | none => exact KeyValueMap.assign_of_find_none found any
    | some old =>
        have lost := KeyValueMap.weigh_assign_lt JSONValue.weight_pos found any
        exact absurd (kept.trans_lt lost) (Nat.lt_irrefl _)
  induction collects with
  | nil => intro _ _; exact ⟨[], (List.append_nil _).symm⟩
  | close name any items keyValues =>
      intro flat kept
      rw [List.length_cons] at kept
      have one := flat name any true List.mem_cons_self
      exact ⟨_, new (by omega)⟩
  | @value name any _ _ keyValues _ others ih =>
      intro flat kept
      rw [List.length_cons] at kept
      have one := flat name any false List.mem_cons_self
      have atMost := others.weigh_le flat.tail
      have added := KeyValueMap.weigh_assign_le JSONValue.weight_pos keyValues name any
      obtain ⟨entries, rfl⟩ := ih flat.tail (by omega)
      rw [new (by omega), List.append_assoc]
      exact ⟨_, rfl⟩
  | @object name _ _ _ keyValues nested _ inner others ihInner ih =>
      intro flat kept
      have flatLeft := flat.tail.of_suffix inner.suffix
      have within := inner.weigh_le flat.tail
      have atMost := others.weigh_le flatLeft
      have one := JSONValue.weight_object nested
      have added := KeyValueMap.weigh_assign_le JSONValue.weight_pos keyValues name
        (.object nested)
      have empty : KeyValueMap.weigh JSONValue.weight ([] : KeyValueMap Bytes JSONValue) = 0 := rfl
      rw [List.length_cons] at kept
      obtain ⟨entries, rfl⟩ := ih flatLeft (by omega)
      rw [new (by omega), List.append_assoc]
      exact ⟨_, rfl⟩

end Collects

/-! ## Trees -/

/-- The members of an object: values, with whether a closing brace is seen directly behind them,
and nested objects. -/
inductive ItemTree where
  | nil
  | value (name : Bytes) (any : JSONValue) (closes : Bool) (rest : ItemTree)
  | object (name : Bytes) (inner rest : ItemTree)

namespace ItemTree

/-- The items of a tree, in the order of the text. -/
def items : ItemTree → List JSONItem
  | .nil => []
  | .value name any closes rest => .value name any closes :: rest.items
  | .object name inner rest => .object name :: (inner.items ++ rest.items)

/-- The names of the members of the outermost object. -/
def names : ItemTree → List Bytes
  | .nil => []
  | .value name _ _ rest => name :: rest.names
  | .object name _ rest => name :: rest.names

/-- No two members of an object have the same name. -/
def Distinct : ItemTree → Prop
  | .nil => True
  | .value name _ _ rest => name ∉ rest.names ∧ rest.Distinct
  | .object name inner rest => name ∉ rest.names ∧ inner.Distinct ∧ rest.Distinct

/-- What is stored for the members if every object gets its own. -/
def entries : ItemTree → List (Bytes × JSONValue)
  | .nil => []
  | .value name any _ rest => (name, any) :: rest.entries
  | .object name inner rest =>
      (name, .object (KeyValueMap.assignAll [] inner.entries)) :: rest.entries

/-- Every member finds an entry, and those of a nested object find theirs in its map. -/
def Found : ItemTree → KeyValueMap Bytes JSONValue → Prop
  | .nil, _ => True
  | .value name _ _ rest, keyValues => (keyValues.find name).isSome ∧ rest.Found keyValues
  | .object name inner rest, keyValues =>
      (∃ nested, keyValues.find name = some (.object nested) ∧ inner.Found nested) ∧
        rest.Found keyValues

/-- A map takes exactly the members of an object: its end is seen if anything follows, and no
earlier one. -/
def Exact : (followed : Prop) → ItemTree → Prop
  | followed, .nil => ¬ followed
  | followed, .value _ _ closes rest => if closes = true then rest = nil else rest.Exact followed
  | followed, .object _ inner rest => inner.Exact (rest ≠ nil ∨ followed) ∧ rest.Exact followed

theorem items_ne_nil_iff (tree : ItemTree) (more : List JSONItem) :
    tree.items ++ more ≠ [] ↔ tree ≠ nil ∨ more ≠ [] := by
  cases tree with
  | nil => simp [items]
  | value | object => simp [items]

theorem items_object (name : Bytes) (inner rest : ItemTree) (more : List JSONItem) :
    (object name inner rest).items ++ more =
      .object name :: (inner.items ++ (rest.items ++ more)) := by
  rw [items, List.cons_append, List.append_assoc]

theorem nodup_names (tree : ItemTree) : tree.Distinct → tree.names.Nodup := by
  induction tree with
  | nil => intro _; exact List.nodup_nil
  | value name any closes rest ih =>
      intro distinct
      exact List.nodup_cons.mpr ⟨distinct.1, ih distinct.2⟩
  | object name inner rest _ ih =>
      intro distinct
      exact List.nodup_cons.mpr ⟨distinct.1, ih distinct.2.2⟩

theorem map_fst_entries (tree : ItemTree) : tree.entries.map Prod.fst = tree.names := by
  induction tree with
  | nil => rfl
  | value name any closes rest ih => exact congrArg (name :: ·) ih
  | object name inner rest _ ih => exact congrArg (name :: ·) ih

/-- Whether the members are found is decided by what their names find. -/
theorem Found.congr (tree : ItemTree) {a b : KeyValueMap Bytes JSONValue} :
    (∀ k ∈ tree.names, a.find k = b.find k) → tree.Found a → tree.Found b := by
  induction tree with
  | nil => intro _ _; trivial
  | value name any closes rest ih =>
      rintro same ⟨found, others⟩
      refine ⟨?_, ih (fun k hk => same k (List.mem_cons_of_mem _ hk)) others⟩
      rwa [← same _ List.mem_cons_self]
  | object name inner rest _ ih =>
      rintro same ⟨⟨nested, found, within⟩, others⟩
      refine ⟨⟨nested, ?_, within⟩, ih (fun k hk => same k (List.mem_cons_of_mem _ hk)) others⟩
      rw [← same _ List.mem_cons_self, found]

/-- **The items of an exact tree are collected into the maps of their objects.** -/
theorem collects_of_exact (tree : ItemTree) :
    ∀ {more : List JSONItem}, tree.Exact (more ≠ []) → ∀ keyValues : KeyValueMap Bytes JSONValue,
      Collects (tree.items ++ more) keyValues (keyValues.assignAll tree.entries) more := by
  induction tree with
  | nil =>
      intro more exact_ keyValues
      obtain rfl : more = [] := by
        by_contra some
        exact exact_ some
      exact .nil keyValues
  | value name any closes rest ih =>
      intro more exact_ keyValues
      cases closes with
      | true =>
          obtain rfl : rest = nil := exact_
          exact .close name any more keyValues
      | false => exact .value (ih exact_ (keyValues.assign name any))
  | object name inner rest ihInner ih =>
      rintro more ⟨exactInner, exactRest⟩ keyValues
      rw [← rest.items_ne_nil_iff more] at exactInner
      rw [items_object]
      exact .object (ihInner exactInner []) (ih exactRest _)

/-- **A map in which all members are found has an entry for every item.** -/
theorem length_le_of_found (tree : ItemTree) :
    tree.Distinct → ∀ {keyValues : KeyValueMap Bytes JSONValue}, tree.Found keyValues →
      tree.items.length ≤ keyValues.weigh JSONValue.weight := by
  have names (tree : ItemTree) : tree.Distinct →
      ∀ {keyValues : KeyValueMap Bytes JSONValue}, tree.Found keyValues →
        tree.items.length ≤ (tree.names.map
          fun k => ((keyValues.find k).map JSONValue.weight).getD 0).sum := by
    induction tree with
    | nil => intro _ _ _; exact Nat.zero_le _
    | value name any closes rest ih =>
        rintro distinct keyValues ⟨found, others⟩
        obtain ⟨old, found⟩ := Option.isSome_iff_exists.mp found
        have one := old.weight_pos
        have less := ih distinct.2 others
        simp only [items, ItemTree.names, List.map_cons, List.sum_cons, List.length_cons, found,
          Option.map_some, Option.getD_some]
        omega
    | object name inner rest ihInner ih =>
        rintro distinct keyValues ⟨⟨nested, found, within⟩, others⟩
        have less := ih distinct.2.2 others
        have lessInner := (ihInner distinct.2.1 within).trans
          (KeyValueMap.sum_find_le _ (inner.nodup_names distinct.2.1) nested)
        simp only [items, ItemTree.names, List.map_cons, List.sum_cons, List.length_cons,
          List.length_append, found, Option.map_some, Option.getD_some, JSONValue.weight_object]
        omega
  intro distinct keyValues found
  exact (names tree distinct found).trans
    (KeyValueMap.sum_find_le _ (tree.nodup_names distinct) keyValues)

section Found

variable {items left : List JSONItem} {keyValues keyValues' : KeyValueMap Bytes JSONValue}

/-- What has been assigned is found if nothing is overwritten. -/
theorem find_of_extends {name : Bytes} {any : JSONValue}
    (extended : ∃ entries, keyValues' = keyValues.assign name any ++ entries) :
    keyValues'.find name = some any := by
  obtain ⟨entries, rfl⟩ := extended
  rw [KeyValueMap.find_append, KeyValueMap.find_assign, if_pos rfl, Option.some_or]

/-- **An object whose members are found has taken an item for each of them.** -/
theorem length_add_length_le {tree : ItemTree} (distinct : tree.Distinct)
    (collects : Collects items keyValues keyValues' left) (flat : Flat items)
    (kept : keyValues.weigh JSONValue.weight + items.length ≤
      keyValues'.weigh JSONValue.weight + left.length)
    (new : ∀ k ∈ tree.names, keyValues.find k = none) (found : tree.Found keyValues') :
    tree.items.length + left.length ≤ items.length := by
  obtain ⟨entries, rfl⟩ := collects.extends_of_weigh flat kept
  have foundEntries : tree.Found entries := by
    refine Found.congr tree (fun k hk => ?_) found
    rw [KeyValueMap.find_append, new k hk, Option.none_or]
  have atLeast := length_le_of_found tree distinct foundEntries
  have atMost := collects.weigh_le flat
  rw [KeyValueMap.weigh_append] at atMost
  omega

/-- **An object has taken exactly its own items** if its members are found, and those behind it. -/
theorem behind_eq_of_found {inner rest : ItemTree} {more behind : List JSONItem}
    {nested : KeyValueMap Bytes JSONValue} (distinct : inner.Distinct)
    (distinctRest : rest.Distinct) (flat : Flat (inner.items ++ (rest.items ++ more)))
    (inside : Collects (inner.items ++ (rest.items ++ more)) [] nested behind)
    (others : Collects behind keyValues keyValues' left)
    (keptInside : KeyValueMap.weigh JSONValue.weight ([] : KeyValueMap Bytes JSONValue) +
      (inner.items ++ (rest.items ++ more)).length ≤
        nested.weigh JSONValue.weight + behind.length)
    (kept : keyValues.weigh JSONValue.weight + behind.length ≤
      keyValues'.weigh JSONValue.weight + left.length)
    (length : left.length = more.length) (new : ∀ k ∈ rest.names, keyValues.find k = none)
    (foundInner : inner.Found nested) (foundRest : rest.Found keyValues') :
    behind = rest.items ++ more := by
  have flatBehind := flat.of_suffix inside.suffix
  have taken := length_add_length_le distinct inside flat keptInside (fun _ _ => rfl) foundInner
  have takenRest := length_add_length_le distinctRest others flatBehind kept new foundRest
  rw [List.length_append, List.length_append] at taken
  have sameLength : behind.length = (rest.items ++ more).length := by
    rw [List.length_append]
    omega
  have ends : behind <:+ rest.items ++ more := by
    apply List.suffix_of_suffix_length_le inside.suffix (List.suffix_append _ _)
    exact Nat.le_of_eq sameLength
  exact ends.eq_of_length sameLength

end Found

/-- **A tree whose members are all found, without any item wasted, is exact.** -/
theorem exact_of_kept (tree : ItemTree) :
    tree.Distinct → ∀ {more left : List JSONItem}
      {keyValues keyValues' : KeyValueMap Bytes JSONValue},
      Flat (tree.items ++ more) → Collects (tree.items ++ more) keyValues keyValues' left →
      left.length = more.length →
      keyValues.weigh JSONValue.weight + (tree.items ++ more).length ≤
        keyValues'.weigh JSONValue.weight + left.length →
      (∀ k ∈ tree.names, keyValues.find k = none) → tree.Found keyValues' →
      tree.Exact (more ≠ []) := by
  induction tree with
  | nil =>
      intro _ more left keyValues keyValues' _ collects length _ _ _ some
      exact absurd (length ▸ collects.length_lt some) (Nat.lt_irrefl _)
  | value name any closes rest ih =>
      intro distinct more left keyValues keyValues' flat collects length kept new found
      change Collects (.value name any closes :: (rest.items ++ more)) _ _ _ at collects
      have one := flat name any closes List.mem_cons_self
      have added := KeyValueMap.weigh_assign_le JSONValue.weight_pos keyValues name any
      change _ + (rest.items ++ more).length.succ ≤ _ at kept
      cases closes with
      | true =>
          cases collects with
          | close =>
              rw [List.length_append] at length
              cases rest with
              | nil => rfl
              | value | object =>
                  simp only [items, List.length_cons] at length
                  omega
      | false =>
          cases collects with
          | value others =>
              exact ih distinct.2 flat.tail others length (by omega)
                (KeyValueMap.find_assign_eq_none distinct.1 new any) found.2
  | object name inner rest ihInner ih =>
      intro distinct more left keyValues keyValues' flat collects length kept new found
      rw [items_object] at flat collects kept
      obtain ⟨⟨nested, foundObject, foundInner⟩, foundRest⟩ := found
      cases collects with
      | @object _ _ behind _ _ nested' _ innerCollects others =>
          have flatBehind := flat.tail.of_suffix innerCollects.suffix
          have within := innerCollects.weigh_le flat.tail
          have atMost := others.weigh_le flatBehind
          have one := JSONValue.weight_object nested'
          have added := KeyValueMap.weigh_assign_le JSONValue.weight_pos keyValues name
            (.object nested')
          have empty : KeyValueMap.weigh JSONValue.weight
            ([] : KeyValueMap Bytes JSONValue) = 0 := rfl
          rw [List.length_cons] at kept
          have keptRest : (keyValues.assign name (.object nested')).weigh JSONValue.weight +
              behind.length ≤ keyValues'.weigh JSONValue.weight + left.length := by omega
          have keptInner : KeyValueMap.weigh JSONValue.weight
              ([] : KeyValueMap Bytes JSONValue) +
                (inner.items ++ (rest.items ++ more)).length ≤
              nested'.weigh JSONValue.weight + behind.length := by omega
          -- The entry of the name is the object that has been collected for it.
          have first := find_of_extends (others.extends_of_weigh flatBehind keptRest)
          obtain rfl : nested' = nested :=
            JSONValue.object.inj (Option.some.inj (first.symm.trans foundObject))
          have newRest := KeyValueMap.find_assign_eq_none distinct.1 new (.object nested')
          obtain rfl := behind_eq_of_found distinct.2.1 distinct.2.2 flat.tail innerCollects others
            keptInner keptRest length newRest foundInner foundRest
          have exactInner := ihInner distinct.2.1 flat.tail innerCollects rfl keptInner
            (fun _ _ => rfl) foundInner
          rw [rest.items_ne_nil_iff more] at exactInner
          exact ⟨exactInner, ih distinct.2.2 flatBehind others length keptRest newRest foundRest⟩

/-- **If all members are found, the tree is exact**, and every object has got its own members. -/
theorem exact_of_found {tree : ItemTree} (distinct : tree.Distinct) (flat : Flat tree.items)
    {keyValues : KeyValueMap Bytes JSONValue} {left : List JSONItem}
    (collects : Collects tree.items [] keyValues left) (found : tree.Found keyValues) :
    tree.Exact False := by
  have nothing : (([] : List JSONItem) ≠ []) = False := by simp
  have atLeast := tree.length_le_of_found distinct found
  have atMost := collects.weigh_le flat
  have empty : KeyValueMap.weigh JSONValue.weight ([] : KeyValueMap Bytes JSONValue) = 0 := rfl
  rw [← List.append_nil tree.items] at collects flat
  rw [← nothing]
  refine tree.exact_of_kept distinct flat collects ?_ ?_ (fun _ _ => rfl) found
  · rw [List.length_nil]
    omega
  · rw [List.append_nil]
    omega

end ItemTree

end Cluon
