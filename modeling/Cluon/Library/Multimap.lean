import Mathlib.Tactic.Common
import Mathlib.Order.Lattice

/-!
# Ordered multimaps

The container `std::multimap` as the list of its elements in iteration order, that is
sorted by key, and with equal keys in the order of their insertion. `emplace` inserts
at the upper bound of the key. A multimap built by inserting the elements of a list one
after the other has the same elements (`ofList_perm`), is sorted (`ofList_sorted`), and
is stable (`ofList_filter`). So inserting values by a key of theirs sorts them stably
(`sortBy`).
-/

set_option autoImplicit false

namespace Cluon.Library

/-- The elements of a multimap in iteration order. -/
abbrev Multimap (κ α : Type) := List (κ × α)

namespace Multimap

variable {κ α β : Type} [LinearOrder κ]

/-- `m.emplace(k, v)`: inserts before the first element with a greater key. -/
def emplace : Multimap κ α → κ → α → Multimap κ α
  | [], k, v => [(k, v)]
  | (k', v') :: m, k, v => if k < k' then (k, v) :: (k', v') :: m else (k', v') :: emplace m k v

/-- The multimap into which the elements of a list are inserted in order. -/
def ofList (l : List (κ × α)) : Multimap κ α := l.foldl (fun m e => emplace m e.1 e.2) []

/-- The elements are in non-decreasing order of their keys. -/
def Sorted (m : Multimap κ α) : Prop := m.Pairwise fun a b => a.1 ≤ b.1

theorem emplace_perm (m : Multimap κ α) (k : κ) (v : α) : (emplace m k v).Perm ((k, v) :: m) := by
  induction m with
  | nil => exact .refl _
  | cons e m ih =>
      obtain ⟨k', v'⟩ := e
      rw [emplace]
      split
      · exact .refl _
      · exact (ih.cons _).trans (.swap _ _ _)

theorem mem_emplace {m : Multimap κ α} {k : κ} {v : α} {e : κ × α} :
    e ∈ emplace m k v ↔ e = (k, v) ∨ e ∈ m := by
  rw [(emplace_perm m k v).mem_iff, List.mem_cons]

theorem emplace_sorted {m : Multimap κ α} (sorted : Sorted m) (k : κ) (v : α) :
    Sorted (emplace m k v) := by
  induction m with
  | nil => exact List.pairwise_singleton _ _
  | cons e m ih =>
      obtain ⟨k', v'⟩ := e
      obtain ⟨least, others⟩ := List.pairwise_cons.mp sorted
      rw [emplace]
      split
      case isTrue before =>
          refine List.pairwise_cons.mpr ⟨fun b hb => ?_, sorted⟩
          rcases List.mem_cons.mp hb with rfl | hb
          · exact before.le
          · exact before.le.trans (least b hb)
      case isFalse after =>
          refine List.pairwise_cons.mpr ⟨fun b hb => ?_, ih others⟩
          rcases mem_emplace.mp hb with rfl | hb
          · exact not_lt.mp after
          · exact least b hb

/-- Among the elements of a key, a new one becomes the last. -/
theorem emplace_filter {m : Multimap κ α} (sorted : Sorted m) (k : κ) (v : α) (j : κ) :
    (emplace m k v).filter (fun e => decide (e.1 = j)) =
      m.filter (fun e => decide (e.1 = j)) ++ if k = j then [(k, v)] else [] := by
  induction m with
  | nil => by_cases same : k = j <;> simp [emplace, same]
  | cons e m ih =>
      obtain ⟨k', v'⟩ := e
      obtain ⟨least, others⟩ := List.pairwise_cons.mp sorted
      rw [emplace]
      split
      case isFalse after => rw [List.filter_cons, ih others, List.filter_cons]; split <;> rfl
      case isTrue before =>
          by_cases same : k = j
          · subst same
            have none : ((k', v') :: m).filter (fun e => decide (e.1 = k)) = [] := by
              apply List.filter_eq_nil_iff.mpr
              intro b hb equal
              have equal : b.1 = k := of_decide_eq_true equal
              rcases List.mem_cons.mp hb with rfl | hb
              · exact before.ne' equal
              · exact (before.trans_le (least b hb)).ne' equal
            rw [List.filter_cons, none]
            simp
          · rw [List.filter_cons]
            simp [same]

/-- Mapping the values does not change where elements are inserted. -/
theorem emplace_map (f : α → β) (m : Multimap κ α) (k : κ) (v : α) :
    (emplace m k v).map (Prod.map id f) = emplace (m.map (Prod.map id f)) k (f v) := by
  induction m with
  | nil => rfl
  | cons e m ih =>
      obtain ⟨k', v'⟩ := e
      by_cases before : k < k'
      · simp [emplace, before]
      · simp [emplace, before, ih]

/-! ### Inserting a list -/

theorem foldl_emplace_perm (l : List (κ × α)) (m : Multimap κ α) :
    (l.foldl (fun m e => emplace m e.1 e.2) m).Perm (l ++ m) := by
  induction l generalizing m with
  | nil => exact .refl _
  | cons e l ih =>
      refine (ih _).trans ?_
      exact ((emplace_perm m e.1 e.2).append_left l).trans List.perm_middle

/-- **The elements are those of the list.** -/
theorem ofList_perm (l : List (κ × α)) : (ofList l).Perm l := by
  have perm := foldl_emplace_perm l []
  rwa [List.append_nil] at perm

theorem foldl_emplace_sorted (l : List (κ × α)) {m : Multimap κ α} (sorted : Sorted m) :
    Sorted (l.foldl (fun m e => emplace m e.1 e.2) m) := by
  induction l generalizing m with
  | nil => exact sorted
  | cons e l ih => exact ih (emplace_sorted sorted e.1 e.2)

/-- **The elements are sorted by key.** -/
theorem ofList_sorted (l : List (κ × α)) : Sorted (ofList l) :=
  foldl_emplace_sorted l List.Pairwise.nil

theorem foldl_emplace_filter (l : List (κ × α)) {m : Multimap κ α} (sorted : Sorted m) (j : κ) :
    (l.foldl (fun m e => emplace m e.1 e.2) m).filter (fun e => decide (e.1 = j)) =
      m.filter (fun e => decide (e.1 = j)) ++ l.filter (fun e => decide (e.1 = j)) := by
  induction l generalizing m with
  | nil => simp
  | cons e l ih =>
      obtain ⟨k, v⟩ := e
      rw [List.foldl_cons, ih (emplace_sorted sorted k v), emplace_filter sorted,
        List.filter_cons, List.append_assoc]
      by_cases same : k = j <;> simp [same]

/-- **Elements of equal keys keep the order of the list.** -/
theorem ofList_filter (l : List (κ × α)) (j : κ) :
    (ofList l).filter (fun e => decide (e.1 = j)) = l.filter (fun e => decide (e.1 = j)) :=
  foldl_emplace_filter l List.Pairwise.nil j

theorem foldl_emplace_map (f : α → β) (l : List (κ × α)) (m : Multimap κ α) :
    (l.foldl (fun m e => emplace m e.1 e.2) m).map (Prod.map id f) =
      (l.map (Prod.map id f)).foldl (fun m e => emplace m e.1 e.2) (m.map (Prod.map id f)) := by
  induction l generalizing m with
  | nil => rfl
  | cons e l ih => rw [List.foldl_cons, ih, emplace_map]; rfl

theorem ofList_map (f : α → β) (l : List (κ × α)) :
    (ofList l).map (Prod.map id f) = ofList (l.map (Prod.map id f)) :=
  foldl_emplace_map f l []

/-! ### Stable sorting -/

variable (key : α → κ)

/-- The values of a list in the order in which a multimap has them under a key of theirs. -/
def sortBy (l : List α) : List α := (ofList (l.map fun v => (key v, v))).map Prod.snd

theorem ofList_eq_map_sortBy (l : List α) :
    ofList (l.map fun v => (key v, v)) = (sortBy key l).map fun v => (key v, v) := by
  rw [sortBy, List.map_map]
  refine (List.map_id _).symm.trans (List.map_congr_left fun e he => ?_)
  obtain ⟨v, _, rfl⟩ := List.mem_map.mp ((ofList_perm _).mem_iff.mp he)
  rfl

theorem sortBy_perm (l : List α) : (sortBy key l).Perm l := by
  have perm := (ofList_perm (l.map fun v => (key v, v))).map Prod.snd
  rwa [List.map_map, show Prod.snd ∘ (fun v => (key v, v)) = id from rfl, List.map_id] at perm

theorem sortBy_sorted (l : List α) : (sortBy key l).Pairwise fun a b => key a ≤ key b := by
  have sorted := ofList_sorted (l.map fun v => (key v, v))
  rwa [ofList_eq_map_sortBy, Sorted, List.pairwise_map] at sorted

theorem sortBy_filter (l : List α) (k : κ) :
    (sortBy key l).filter (fun v => decide (key v = k)) =
      l.filter (fun v => decide (key v = k)) := by
  have stable := congrArg (List.map Prod.snd) (ofList_filter (l.map fun v => (key v, v)) k)
  rwa [ofList_eq_map_sortBy, List.filter_map, List.filter_map, List.map_map, List.map_map,
    show Prod.snd ∘ (fun v => (key v, v)) = id from rfl, List.map_id, List.map_id] at stable

/-- A function that keeps the keys can be applied before or after sorting. -/
theorem map_sortBy (key' : β → κ) (f : α → β) (same : ∀ v, key' (f v) = key v) (l : List α) :
    (sortBy key l).map f = sortBy key' (l.map f) := by
  have pairs : (l.map f).map (fun v => (key' v, v)) =
      (l.map fun v => (key v, v)).map (Prod.map id f) := by
    rw [List.map_map, List.map_map]
    exact List.map_congr_left fun v _ => by simp [same]
  rw [sortBy, sortBy, pairs, ← ofList_map, List.map_map, List.map_map]
  rfl

end Multimap

end Cluon.Library
