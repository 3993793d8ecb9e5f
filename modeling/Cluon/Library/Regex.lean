import Mathlib.Data.List.Basic
import Mathlib.Tactic.Common

/-!
# Regular expressions with ordered choice

Regular expressions as backtracking engines match them: of two alternatives the left one is
tried first, and a repetition takes as many characters as it can before it gives some back.
An expression is given by the list of what it can leave of a text, in the order in which the
alternatives are tried (`Regex.rests`); the first of these is what the engine leaves
(`Regex.first`). A search takes the leftmost position with a match (`Regex.search`).
-/

set_option autoImplicit false

namespace Cluon.Library

/-- Regular expressions over an alphabet; only single characters are repeated. -/
inductive Regex (α : Type) where
  | empty
  | set (p : α → Bool)
  | star (p : α → Bool)
  | seq (r s : Regex α)
  | alt (r s : Regex α)
  | look (r : Regex α)

namespace Regex

variable {α : Type}

/-- `r?`, which takes `r` if it can. -/
def opt (r : Regex α) : Regex α := alt r empty

/-- One or more characters of a set. -/
def plus (p : α → Bool) : Regex α := seq (set p) (star p)

/-- A given character. -/
def chr [DecidableEq α] (a : α) : Regex α := set fun c => decide (c = a)

/-- A given word. -/
def word [DecidableEq α] : List α → Regex α
  | [] => empty
  | c :: w => seq (chr c) (word w)

/-- What a greedy repetition can leave of a text. -/
def starRests (p : α → Bool) : List α → List (List α)
  | [] => [[]]
  | c :: s => if p c then starRests p s ++ [c :: s] else [c :: s]

/-- What an expression can leave of a text, in the order of trying. -/
def rests : Regex α → List α → List (List α)
  | empty, s => [s]
  | set _, [] => []
  | set p, c :: s => if p c then [s] else []
  | star p, s => starRests p s
  | seq r q, s => (rests r s).flatMap (rests q)
  | alt r q, s => rests r s ++ rests q s
  | look r, s => if (rests r s).isEmpty then [] else [s]

/-- What an expression leaves of a text that it matches at its beginning. -/
def first (r : Regex α) (s : List α) : Option (List α) := (r.rests s).head?

/-- The leftmost match in a text, and what follows it. -/
def search (r : Regex α) : List α → Option (List α × List α)
  | [] => (r.first []).map fun t => ([], t)
  | c :: s =>
      match r.first (c :: s) with
      | some t => some ((c :: s).take ((c :: s).length - t.length), t)
      | none => search r s

/-! ## What is left -/

theorem rests_empty (s : List α) : (empty : Regex α).rests s = [s] := rfl

theorem rests_set_cons (p : α → Bool) (c : α) (s : List α) :
    (set p).rests (c :: s) = if p c then [s] else [] := rfl

theorem rests_seq (r q : Regex α) (s : List α) :
    (seq r q).rests s = (r.rests s).flatMap q.rests := rfl

theorem rests_alt (r q : Regex α) (s : List α) : (alt r q).rests s = r.rests s ++ q.rests s := rfl

theorem rests_look (r : Regex α) (s : List α) :
    (look r).rests s = if (r.rests s).isEmpty then [] else [s] := rfl

/-! ## Repetitions -/

theorem head?_starRests (p : α → Bool) (s : List α) :
    (starRests p s).head? = some (s.dropWhile p) := by
  induction s with
  | nil => rfl
  | cons c s ih =>
      by_cases h : p c
      · rw [starRests, if_pos h, List.dropWhile_cons_of_pos h, List.head?_append, ih]
        rfl
      · rw [starRests, if_neg h, List.dropWhile_cons_of_neg h]
        rfl

/-- A repetition takes all characters of the set. -/
theorem first_star (p : α → Bool) (s : List α) : (star p).first s = some (s.dropWhile p) :=
  head?_starRests p s

/-- What a repetition leaves is left after some characters of the set. -/
theorem mem_starRests {p : α → Bool} {s t : List α} :
    t ∈ starRests p s → ∃ a, s = a ++ t ∧ ∀ c ∈ a, p c := by
  induction s with
  | nil =>
      intro h
      obtain rfl := List.mem_singleton.mp h
      exact ⟨[], rfl, fun _ h => absurd h List.not_mem_nil⟩
  | cons c s ih =>
      intro h
      by_cases hc : p c
      · rw [starRests, if_pos hc, List.mem_append] at h
        rcases h with h | h
        · obtain ⟨a, rfl, all⟩ := ih h
          refine ⟨c :: a, rfl, fun d hd => ?_⟩
          rcases List.mem_cons.mp hd with rfl | hd
          · exact hc
          · exact all d hd
        · obtain rfl := List.mem_singleton.mp h
          exact ⟨[], rfl, fun _ h => absurd h List.not_mem_nil⟩
      · rw [starRests, if_neg hc] at h
        obtain rfl := List.mem_singleton.mp h
        exact ⟨[], rfl, fun _ h => absurd h List.not_mem_nil⟩

/-! ## The first match -/

theorem first_set_of_pos {p : α → Bool} {c : α} (h : p c) (s : List α) :
    (set p).first (c :: s) = some s := by
  rw [first, rests_set_cons, if_pos h, List.head?_cons]

theorem rests_set_of_neg {p : α → Bool} {c : α} (h : p c = false) (s : List α) :
    (set p).rests (c :: s) = [] := by
  rw [rests_set_cons, if_neg (by rw [h]; exact Bool.false_ne_true)]

theorem first_chr [DecidableEq α] (a : α) (s : List α) : (chr a).first (a :: s) = some s :=
  first_set_of_pos (p := fun c => decide (c = a)) (decide_eq_true rfl) s

theorem rests_chr_of_ne [DecidableEq α] {a c : α} (h : c ≠ a) (s : List α) :
    (chr a).rests (c :: s) = [] :=
  rests_set_of_neg (p := fun c => decide (c = a)) (decide_eq_false h) s

theorem rests_chr [DecidableEq α] (a : α) (s : List α) : (chr a).rests (a :: s) = [s] := by
  rw [chr, rests_set_cons, if_pos (decide_eq_true rfl)]

/-- **No backtracking**: after the first match of an expression the next one continues, if it
matches there. -/
theorem first_seq {r q : Regex α} {s t u : List α} (hr : r.first s = some t)
    (hq : q.first t = some u) : (seq r q).first s = some u := by
  rw [first, rests_seq]
  obtain ⟨others, list⟩ := List.head?_eq_some_iff.mp hr
  rw [list, List.flatMap_cons, List.head?_append]
  exact congrArg (Option.or · _) hq

theorem first_alt_left {r q : Regex α} {s t : List α} (h : r.first s = some t) :
    (alt r q).first s = some t := by
  rw [first, rests_alt, List.head?_append]
  exact congrArg (Option.or · _) h

theorem first_alt_right {r q : Regex α} {s : List α} (h : r.rests s = []) :
    (alt r q).first s = q.first s := by
  rw [first, rests_alt, h, List.nil_append]
  rfl

theorem first_opt_none {r : Regex α} {s : List α} (h : r.rests s = []) :
    r.opt.first s = some s := first_alt_right h

theorem first_look {r : Regex α} {s t : List α} (h : r.first s = some t) :
    (look r).first s = some s := by
  obtain ⟨others, list⟩ := List.head?_eq_some_iff.mp h
  rw [first, rests_look, list, List.isEmpty_cons, if_neg Bool.false_ne_true, List.head?_cons]

/-- A sequence does not match if its second part matches nothing that the first one leaves. -/
theorem rests_seq_eq_nil {r q : Regex α} {s : List α} (h : ∀ t ∈ r.rests s, q.rests t = []) :
    (seq r q).rests s = [] := by
  rw [rests_seq, List.flatMap_eq_nil_iff]
  exact h

theorem rests_seq_of_left {r q : Regex α} {s : List α} (h : r.rests s = []) :
    (seq r q).rests s = [] :=
  rests_seq_eq_nil fun _ ht => absurd (h ▸ ht) List.not_mem_nil

theorem rests_alt_eq_nil {r q : Regex α} {s : List α} (hr : r.rests s = [])
    (hq : q.rests s = []) : (alt r q).rests s = [] := by
  rw [rests_alt, hr, hq, List.nil_append]

theorem first_eq_none {r : Regex α} {s : List α} (h : r.rests s = []) : r.first s = none := by
  rw [first, h]
  rfl

/-- A word matches at its occurrence. -/
theorem first_word [DecidableEq α] (w s : List α) : (word w).first (w ++ s) = some s := by
  induction w with
  | nil => rfl
  | cons c w ih =>
      exact first_seq (first_chr c (w ++ s)) ih

/-- A word matches nothing else. -/
theorem rests_word_of_not_isPrefix [DecidableEq α] (w : List α) :
    ∀ {s : List α}, ¬ w <+: s → (word w).rests s = [] := by
  induction w with
  | nil => intro s h; exact absurd List.nil_prefix h
  | cons c w ih =>
      intro s h
      refine rests_seq_eq_nil fun t ht => ?_
      cases s with
      | nil => cases ht
      | cons d s =>
          by_cases same : d = c
          · subst same
            rw [rests_chr, List.mem_singleton] at ht
            subst ht
            exact ih fun sub => h (List.cons_prefix_cons.mpr ⟨rfl, sub⟩)
          · rw [rests_chr_of_ne same] at ht
            cases ht

/-- After characters of a set there is no match for another character, unless it follows all of
them. -/
theorem rests_star_seq [DecidableEq α] {p : α → Bool} {d : α} (other : p d = false)
    {r : Regex α} {s : List α} (next : ∀ c ∈ (s.dropWhile p).head?, c ≠ d) :
    (seq (star p) (seq (chr d) r)).rests s = [] := by
  refine rests_seq_eq_nil fun t ht => rests_seq_of_left ?_
  obtain ⟨a, rfl, all⟩ := mem_starRests ht
  cases t with
  | nil => rfl
  | cons c t =>
      apply rests_chr_of_ne
      by_cases hc : p c
      · rintro rfl
        rw [other] at hc
        cases hc
      · apply next
        rw [List.dropWhile_append_of_pos all, List.dropWhile_cons_of_neg hc]
        rfl

/-! ## Searching -/

theorem search_of_first {r : Regex α} {c : α} {s t matched : List α}
    (h : r.first (c :: s) = some t) (split : c :: s = matched ++ t) :
    r.search (c :: s) = some (matched, t) := by
  rw [search, h, split]
  simp

theorem search_cons {r : Regex α} {c : α} {s : List α} (h : r.first (c :: s) = none) :
    r.search (c :: s) = r.search s := by
  rw [search, h]

/-- What is left of a text is at its end. -/
theorem suffix_of_mem_rests (r : Regex α) :
    ∀ {s t : List α}, t ∈ r.rests s → t <:+ s := by
  induction r with
  | empty =>
      intro s t h
      rw [rests_empty, List.mem_singleton] at h
      exact h ▸ List.suffix_rfl
  | set p =>
      intro s t h
      cases s with
      | nil => cases h
      | cons c s =>
          rw [rests_set_cons] at h
          split at h
          · rw [List.mem_singleton] at h
            exact h ▸ List.suffix_cons c s
          · cases h
  | star p =>
      intro s t h
      obtain ⟨a, rfl, _⟩ := mem_starRests h
      exact List.suffix_append a t
  | seq r q ihr ihq =>
      intro s t h
      rw [rests_seq, List.mem_flatMap] at h
      obtain ⟨u, hu, ht⟩ := h
      exact (ihq ht).trans (ihr hu)
  | alt r q ihr ihq =>
      intro s t h
      rw [rests_alt, List.mem_append] at h
      rcases h with h | h
      · exact ihr h
      · exact ihq h
  | look r _ =>
      intro s t h
      rw [rests_look] at h
      split at h
      · cases h
      · rw [List.mem_singleton] at h
        exact h ▸ List.suffix_rfl

/-- **A match and what follows it are parts of the text.** -/
theorem search_eq_some {r : Regex α} :
    ∀ {s matched t : List α}, r.search s = some (matched, t) → ∃ a, s = a ++ (matched ++ t) := by
  intro s
  induction s with
  | nil =>
      intro matched t h
      rw [search, Option.map_eq_some_iff] at h
      obtain ⟨u, found, same⟩ := h
      obtain ⟨rfl, rfl⟩ := Prod.mk.inj same
      have left := suffix_of_mem_rests r (List.mem_of_mem_head? found)
      exact ⟨[], (List.suffix_nil.mp left).symm⟩
  | cons c s ih =>
      intro matched t h
      rw [search] at h
      split at h
      · rename_i u found
        obtain ⟨rfl, rfl⟩ := Prod.mk.inj (Option.some.inj h)
        obtain ⟨b, split⟩ := suffix_of_mem_rests r (List.mem_of_mem_head? found)
        refine ⟨[], ?_⟩
        rw [← split]
        simp
      · obtain ⟨a, split⟩ := ih h
        exact ⟨c :: a, congrArg (c :: ·) split⟩

/-- Characters at which no match begins are skipped. -/
theorem search_append {r : Regex α} (a : List α) :
    ∀ {s : List α}, (∀ b c, a = b ++ c → c ≠ [] → r.first (c ++ s) = none) →
      r.search (a ++ s) = r.search s := by
  induction a with
  | nil => intro _ _; rfl
  | cons c a ih =>
      intro s quiet
      have here : r.first (c :: (a ++ s)) = none := quiet [] (c :: a) rfl (List.cons_ne_nil c a)
      rw [List.cons_append, search_cons here]
      exact ih fun b d split some => quiet (c :: b) d (by rw [split]; rfl) some

end Regex

end Cluon.Library
