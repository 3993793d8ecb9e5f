import Mathlib.Algebra.BigOperators.Group.List.Basic
import Mathlib.Algebra.GroupWithZero.Nat
import Mathlib.Data.List.Count

/-!
# Texts with separators

A text that is made of items with a separator behind each of them (`terminated`). It is split into
these items, and a last empty one, if and only if the separator is in none of them
(`splitOn_terminated_eq_iff`). Otherwise there are more parts than items.
-/

set_option autoImplicit false

namespace Cluon.Library

variable {σ : Type}

/-- Items with a separator behind each of them. -/
def terminated (sep : σ) (items : List (List σ)) : List σ := items.flatMap fun item => item ++ [sep]

theorem terminated_cons (sep : σ) (item : List σ) (items : List (List σ)) :
    terminated sep (item :: items) = item ++ sep :: terminated sep items :=
  List.append_assoc item [sep] (terminated sep items)

theorem terminated_singleton (sep : σ) (item : List σ) : terminated sep [item] = item ++ [sep] :=
  List.append_nil (item ++ [sep])

theorem terminated_append (sep : σ) (items others : List (List σ)) :
    terminated sep (items ++ others) = terminated sep items ++ terminated sep others :=
  List.flatMap_append

/-- A character that is none of the separators is in the items. -/
theorem mem_terminated {c sep : σ} {items : List (List σ)} :
    c ∈ terminated sep items ↔ (∃ item ∈ items, c ∈ item) ∨ c = sep ∧ items ≠ [] := by
  induction items with
  | nil => simp [terminated]
  | cons item items ih =>
      rw [terminated_cons, List.mem_append, List.mem_cons, ih]
      simp only [List.exists_mem_cons_iff, ne_eq, reduceCtorEq, not_false_eq_true, and_true]
      grind

/-- Separators between the items, and one more behind them. -/
theorem intercalate_append_singleton (sep : σ) :
    ∀ {items : List (List σ)}, items ≠ [] → [sep].intercalate items ++ [sep] = terminated sep items
  | [], h => absurd rfl h
  | [item], _ => by rw [List.intercalate_singleton, terminated_singleton]
  | item :: next :: items, _ => by
      rw [List.intercalate_cons_cons, List.append_assoc, List.append_assoc,
        intercalate_append_singleton sep (List.cons_ne_nil next items), terminated_cons sep item]
      rfl

variable [DecidableEq σ]

/-- There is one part more than there are separators. -/
theorem length_splitOn (sep : σ) (s : List σ) : (s.splitOn sep).length = s.count sep + 1 := by
  induction s with
  | nil => rfl
  | cons c s ih =>
      rw [List.splitOn_cons_eq_if_modifyHead, List.count_cons]
      split
      · rw [List.length_cons, ih]
      · rw [List.length_modifyHead, ih]

theorem count_terminated (sep : σ) (items : List (List σ)) :
    (terminated sep items).count sep = (items.map (List.count sep)).sum + items.length := by
  induction items with
  | nil => rfl
  | cons item items ih =>
      rw [terminated_cons, List.count_append, List.count_cons_self, ih, List.map_cons,
        List.sum_cons, List.length_cons]
      omega

theorem length_splitOn_terminated_eq_iff {sep : σ} {items : List (List σ)} :
    ((terminated sep items).splitOn sep).length = items.length + 1 ↔
      ∀ item ∈ items, sep ∉ item := by
  have none : (items.map (List.count sep)).sum = 0 ↔ ∀ item ∈ items, sep ∉ item := by
    rw [List.sum_eq_zero_iff_forall_eq_nat, List.forall_mem_map]
    exact forall₂_congr fun _ _ => List.count_eq_zero
  rw [length_splitOn, count_terminated, ← none]
  omega

/-- **A text is split into its items** if and only if the separator is in none of them. -/
theorem splitOn_terminated_eq_iff {sep : σ} {items : List (List σ)} :
    (terminated sep items).splitOn sep = items ++ [[]] ↔ ∀ item ∈ items, sep ∉ item := by
  constructor
  · intro same
    apply length_splitOn_terminated_eq_iff.mp
    rw [same, List.length_append]
    rfl
  · intro none
    induction items with
    | nil => rfl
    | cons item items ih =>
        obtain ⟨here, others⟩ := List.forall_mem_cons.mp none
        rw [terminated_cons, List.splitOn_append_cons_self_of_not_mem here, ih others]
        rfl

end Cluon.Library
