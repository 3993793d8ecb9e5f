import Mathlib.Algebra.Ring.Nat
import Mathlib.Data.List.Perm.Subperm
import Mathlib.Tactic.Common

/-!
# Key/value maps

The operations of the standard containers `std::map` and `std::unordered_map`
that do not depend on the order of the keys, over an association list. Each
operation is characterised by what `find` returns afterwards, so a development
never looks at the list itself.
-/

set_option autoImplicit false

namespace Cluon.Library

/-- A map from keys to values. -/
abbrev KeyValueMap (κ α : Type) := List (κ × α)

namespace KeyValueMap

variable {κ α : Type} [DecidableEq κ]

/-- The value stored for a key. -/
def find : KeyValueMap κ α → κ → Option α
  | [], _ => none
  | (k', v) :: m, k => if k' = k then some v else find m k

/-- `m.count(k)`: a key is stored at most once. -/
def count (m : KeyValueMap κ α) (k : κ) : Nat := if (find m k).isSome then 1 else 0

/-- `m.emplace(k, v)`: inserts unless the key is present; whether it inserted. -/
def emplace (m : KeyValueMap κ α) (k : κ) (v : α) : KeyValueMap κ α × Bool :=
  if (find m k).isSome then (m, false) else (m ++ [(k, v)], true)

/-- `m[k]`: the value of the key, for which a default value is inserted if it is absent. -/
def getOrInsert (m : KeyValueMap κ α) (k : κ) (initial : α) : α × KeyValueMap κ α :=
  ((find m k).getD initial, (emplace m k initial).1)

/-- `m[k] = v`: overwrites the value of a present key. -/
def assign : KeyValueMap κ α → κ → α → KeyValueMap κ α
  | [], k, v => [(k, v)]
  | (k', v') :: m, k, v => if k' = k then (k', v) :: m else (k', v') :: assign m k v

/-- `m.erase(m.find(k))`, or nothing for an absent key. -/
def erase : KeyValueMap κ α → κ → KeyValueMap κ α
  | [], _ => []
  | (k', v) :: m, k => if k' = k then erase m k else (k', v) :: erase m k

@[simp] theorem find_nil (k : κ) : find ([] : KeyValueMap κ α) k = none := rfl

theorem count_pos {m : KeyValueMap κ α} {k : κ} : 0 < count m k ↔ (find m k).isSome := by
  simp only [count]
  split <;> simp_all

theorem find_append (m n : KeyValueMap κ α) (k : κ) :
    find (m ++ n) k = (find m k).or (find n k) := by
  induction m with
  | nil => rfl
  | cons e m ih =>
      obtain ⟨k', v⟩ := e
      by_cases same : k' = k
      · simp [find, same]
      · simp [find, same, ih]

/-- **A present key keeps its value, an absent one gets the new value.** -/
theorem find_emplace (m : KeyValueMap κ α) (k k' : κ) (v : α) :
    find (emplace m k v).1 k' = if k = k' then some ((find m k).getD v) else find m k' := by
  by_cases same : k = k'
  · subst same
    rw [if_pos rfl]
    cases h : find m k with
    | none => simp [emplace, h, find_append, find]
    | some w => simp [emplace, h]
  · rw [if_neg same]
    cases h : find m k with
    | none => simp [emplace, h, find_append, find, same]
    | some w => simp [emplace, h]

theorem emplace_present {m : KeyValueMap κ α} {k : κ} {v : α} (h : find m k = some v) (w : α) :
    (emplace m k w).1 = m := by
  simp [emplace, h]

theorem find_assign (m : KeyValueMap κ α) (k k' : κ) (v : α) :
    find (assign m k v) k' = if k = k' then some v else find m k' := by
  induction m with
  | nil => rfl
  | cons e m ih =>
      obtain ⟨j, w⟩ := e
      by_cases same : j = k
      · subst same
        by_cases target : j = k' <;> simp [assign, find, target]
      · by_cases here : j = k'
        · subst here
          have other : ¬ k = j := fun h => same h.symm
          simp [assign, find, same, other]
        · simp [assign, find, same, here, ih]

/-- The other keys stay new when a value has been assigned to the first. -/
theorem find_assign_eq_none {m : KeyValueMap κ α} {k : κ} {others : List κ} (other : k ∉ others)
    (new : ∀ k' ∈ k :: others, find m k' = none) (v : α) :
    ∀ k' ∈ others, find (assign m k v) k' = none := by
  intro k' hk'
  rw [find_assign, if_neg (ne_of_mem_of_not_mem hk' other).symm]
  exact new k' (List.mem_cons_of_mem _ hk')

/-- The map after a list of assignments. -/
def assignAll (m : KeyValueMap κ α) (entries : List (κ × α)) : KeyValueMap κ α :=
  entries.foldl (fun m e => m.assign e.1 e.2) m

@[simp] theorem assignAll_nil (m : KeyValueMap κ α) : assignAll m [] = m := rfl

@[simp] theorem assignAll_cons (m : KeyValueMap κ α) (e : κ × α) (entries : List (κ × α)) :
    assignAll m (e :: entries) = assignAll (assign m e.1 e.2) entries := rfl

theorem find_assignAll_of_notMem (entries : List (κ × α)) {k : κ} :
    k ∉ entries.map Prod.fst → ∀ m : KeyValueMap κ α, find (assignAll m entries) k = find m k := by
  induction entries with
  | nil => intro _ _; rfl
  | cons e entries ih =>
      intro other m
      rw [List.map_cons, List.mem_cons, not_or] at other
      rw [assignAll_cons, ih other.2, find_assign, if_neg (Ne.symm other.1)]

/-- The keys to which something has been assigned are added to the map. -/
theorem isSome_find_assignAll (entries : List (κ × α)) (k : κ) :
    ∀ m : KeyValueMap κ α, (find (assignAll m entries) k).isSome ↔
      (find m k).isSome ∨ k ∈ entries.map Prod.fst := by
  induction entries with
  | nil => simp
  | cons e entries ih =>
      intro m
      rw [assignAll_cons, ih, find_assign, List.map_cons, List.mem_cons]
      by_cases here : e.1 = k
      · simp [here]
      · simp [here, Ne.symm here]

/-- **Assignments to different keys all last.** -/
theorem find_assignAll (entries : List (κ × α)) :
    (entries.map Prod.fst).Nodup → ∀ {e : κ × α}, e ∈ entries → ∀ m : KeyValueMap κ α,
      find (assignAll m entries) e.1 = some e.2 := by
  induction entries with
  | nil => intro _ _ h; cases h
  | cons e' entries ih =>
      intro distinct e h m
      rw [List.map_cons, List.nodup_cons] at distinct
      rw [assignAll_cons]
      rcases List.mem_cons.mp h with rfl | later
      · rw [find_assignAll_of_notMem entries distinct.1, find_assign, if_pos rfl]
      · exact ih distinct.2 later _

/-- **Fewer assignments than keys leave one of the keys as it was.** -/
theorem find_assignAll_of_fewer (m : KeyValueMap κ α) {entries : List (κ × α)} {keys : List κ}
    (distinct : keys.Nodup) (fewer : entries.length < keys.length) :
    ∃ k ∈ keys, find (assignAll m entries) k = find m k := by
  by_contra every
  push Not at every
  have covered : keys ⊆ entries.map Prod.fst := by
    intro k hk
    by_contra other
    exact every k hk (find_assignAll_of_notMem entries other m)
  have atMost := (distinct.subperm covered).length_le
  rw [List.length_map] at atMost
  exact absurd fewer (Nat.not_lt.mpr atMost)

/-! ## Weights -/

/-- The sum of the weights of all values. -/
def weigh (weight : α → Nat) (m : KeyValueMap κ α) : Nat := (m.map fun e => weight e.2).sum

omit [DecidableEq κ] in
theorem weigh_append (weight : α → Nat) (m n : KeyValueMap κ α) :
    weigh weight (m ++ n) = weigh weight m + weigh weight n := by
  rw [weigh, List.map_append, List.sum_append]
  rfl

/-- A new key is stored behind the others. -/
theorem assign_of_find_none {m : KeyValueMap κ α} {k : κ} (new : find m k = none) (v : α) :
    assign m k v = m ++ [(k, v)] := by
  induction m with
  | nil => rfl
  | cons e m ih =>
      obtain ⟨j, w⟩ := e
      rw [find] at new
      split at new
      · cases new
      · rename_i other
        rw [assign, if_neg other, ih new, List.cons_append]

/-- **Weight is lost where a value is overwritten.** -/
theorem weigh_assign_lt {weight : α → Nat} (positive : ∀ v, 0 < weight v)
    {m : KeyValueMap κ α} {k : κ} {old : α} (found : find m k = some old) (v : α) :
    weigh weight (assign m k v) < weigh weight m + weight v := by
  induction m with
  | nil => cases found
  | cons e m ih =>
      obtain ⟨j, w⟩ := e
      rw [find] at found
      rw [assign]
      split at found
      · rename_i here
        have lost := positive w
        rw [if_pos here]
        simp only [weigh, List.map_cons, List.sum_cons]
        omega
      · rename_i other
        have less := ih found
        rw [if_neg other]
        simp only [weigh, List.map_cons, List.sum_cons] at less ⊢
        omega

/-- An assignment adds at most the weight of its value. -/
theorem weigh_assign_le {weight : α → Nat} (positive : ∀ v, 0 < weight v)
    (m : KeyValueMap κ α) (k : κ) (v : α) :
    weigh weight (assign m k v) ≤ weigh weight m + weight v := by
  cases found : find m k with
  | none =>
      rw [assign_of_find_none found, weigh_append]
      exact Nat.le_refl _
  | some old => exact Nat.le_of_lt (weigh_assign_lt positive found v)

/-- One entry is found by at most one of different keys. -/
theorem sum_ite_le (w : Nat) (g : κ → Nat) (j : κ) {keys : List κ} :
    keys.Nodup → (keys.map fun k => if j = k then w else g k).sum ≤ w + (keys.map g).sum := by
  induction keys with
  | nil => intro _; exact Nat.zero_le _
  | cons k keys ih =>
      intro distinct
      obtain ⟨other, distinct⟩ := List.nodup_cons.mp distinct
      simp only [List.map_cons, List.sum_cons]
      split
      · rename_i here
        subst here
        have others : (keys.map fun k => if j = k then w else g k) = keys.map g :=
          List.map_congr_left fun k hk => if_neg (ne_of_mem_of_not_mem hk other).symm
        rw [others]
        omega
      · have less := ih distinct
        omega

/-- **What different keys find is not heavier than the map.** -/
theorem sum_find_le (weight : α → Nat) {keys : List κ} (distinct : keys.Nodup)
    (m : KeyValueMap κ α) :
    (keys.map fun k => ((find m k).map weight).getD 0).sum ≤ weigh weight m := by
  induction m with
  | nil => simp [weigh]
  | cons e m ih =>
      obtain ⟨j, w⟩ := e
      have here : (fun k => ((find ((j, w) :: m) k).map weight).getD 0) =
          fun k => if j = k then weight w else ((find m k).map weight).getD 0 := by
        funext k
        rw [find]
        split <;> rfl
      rw [here]
      exact Nat.le_trans (sum_ite_le _ _ j distinct) (Nat.add_le_add_left ih _)

/-! ## Erasing -/

theorem find_erase (m : KeyValueMap κ α) (k k' : κ) :
    find (erase m k) k' = if k = k' then none else find m k' := by
  induction m with
  | nil => simp [erase]
  | cons e m ih =>
      obtain ⟨j, w⟩ := e
      by_cases same : j = k
      · subst same
        by_cases target : j = k'
        · simpa [erase, target] using ih
        · simp [erase, find, ih, target]
      · by_cases here : j = k'
        · subst here
          have other : ¬ k = j := fun h => same h.symm
          simp [erase, find, same, other]
        · simp [erase, find, same, here, ih]

/-- A map with a stored key is not empty. -/
theorem length_pos_of_find {m : KeyValueMap κ α} {k : κ} {v : α} (h : find m k = some v) :
    0 < m.length := by
  cases m with
  | nil => simp at h
  | cons _ _ => simp

/-! ## Elements -/

theorem mem_of_find {m : KeyValueMap κ α} {k : κ} {v : α} (h : find m k = some v) : (k, v) ∈ m := by
  induction m with
  | nil => cases h
  | cons e m ih =>
      obtain ⟨j, w⟩ := e
      rw [find] at h
      split_ifs at h with here
      · obtain rfl := here
        obtain rfl := Option.some.inj h
        exact List.mem_cons_self
      · exact List.mem_cons_of_mem _ (ih h)

/-- If no key is stored twice, the elements are what is found. -/
theorem mem_iff_find {m : KeyValueMap κ α} (distinct : (m.map Prod.fst).Nodup) {e : κ × α} :
    e ∈ m ↔ find m e.1 = some e.2 := by
  refine ⟨fun mem => ?_, mem_of_find⟩
  induction m with
  | nil => cases mem
  | cons e' m ih =>
      rw [List.map_cons, List.nodup_cons] at distinct
      rw [find]
      rcases List.mem_cons.mp mem with rfl | later
      · rw [if_pos rfl]
      · have other : e'.1 ≠ e.1 := fun here => distinct.1 (here ▸ List.mem_map_of_mem later)
        rw [if_neg other, ih distinct.2 later]

theorem keys_assign (m : KeyValueMap κ α) (k : κ) (v : α) :
    (assign m k v).map Prod.fst =
      if (find m k).isSome then m.map Prod.fst else m.map Prod.fst ++ [k] := by
  induction m with
  | nil => rfl
  | cons e m ih =>
      obtain ⟨j, w⟩ := e
      rw [assign, find]
      by_cases here : j = k
      · rw [if_pos here, if_pos here]
        rfl
      · rw [if_neg here, if_neg here, List.map_cons, ih]
        split_ifs <;> rfl

/-- No key is stored twice. -/
theorem nodup_keys_assign {m : KeyValueMap κ α} (distinct : (m.map Prod.fst).Nodup) (k : κ)
    (v : α) : ((assign m k v).map Prod.fst).Nodup := by
  rw [keys_assign]
  split_ifs with present
  · exact distinct
  · refine List.nodup_append.mpr
      ⟨distinct, List.pairwise_singleton _ k, fun j mem j' mem' same => ?_⟩
    obtain ⟨e, inMap, rfl⟩ := List.mem_map.mp mem
    have found := (mem_iff_find distinct).mp inMap
    rw [same, List.mem_singleton.mp mem'] at found
    exact present (Option.isSome_of_eq_some found)

end KeyValueMap

end Cluon.Library
