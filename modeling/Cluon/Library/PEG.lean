import Mathlib.Data.List.Basic
import Mathlib.Data.List.TakeWhile
import Mathlib.Tactic.Common

/-!
# Parsing expressions

A parsing expression takes a part from the beginning of a text, or fails. It never gives back
what it took: of two alternatives the second is tried only if the first fails, and a repetition
ends where its expression fails for the first time. An expression is given by the function that
runs it (`Parser`), so that sequences are written in `do` notation and alternatives with `<|>`.

A repetition is only meant for expressions that take something whenever they succeed
(`Consumes`). Then it is what it should be: the values of the expression, one after the other,
up to the first failure (`many_of_none`, `many_of_some`).
-/

set_option autoImplicit false

namespace Cluon.Library.PEG

variable {σ α β : Type}

/-- A parsing expression: it fails, or gives a value and what it leaves of the text. -/
abbrev Parser (σ α : Type) := StateT (List σ) Option α

/-! ## Expressions -/

/-- A character of a class. -/
def satisfy (p : σ → Bool) : Parser σ σ
  | [] => none
  | c :: s => if p c then some (c, s) else none

/-- A given word. -/
def word [DecidableEq σ] (w : List σ) : Parser σ Unit := fun s =>
  if w <+: s then some ((), s.drop w.length) else none

/-- All characters of a class that come next. -/
def skipWhile (p : σ → Bool) : Parser σ Unit := fun s => some ((), s.dropWhile p)

/-- An expression that may be absent, `e?`. -/
def opt (e : Parser σ α) : Parser σ (Option α) := fun s =>
  match e s with
  | some (a, t) => some (some a, t)
  | none => some (none, s)

/-- An expression that must not come next, `!e`. -/
def notNext (e : Parser σ α) : Parser σ Unit := fun s =>
  match e s with
  | some _ => none
  | none => some ((), s)

/-- At most `n` repetitions of an expression. -/
def repeated (e : Parser σ α) : Nat → List σ → List α × List σ
  | 0, s => ([], s)
  | n + 1, s =>
      match e s with
      | some (a, t) => (a :: (repeated e n t).1, (repeated e n t).2)
      | none => ([], s)

/-- An expression as often as possible, `e*`. -/
def many (e : Parser σ α) : Parser σ (List α) := fun s => some (repeated e s.length s)

/-- The text that an expression takes. -/
def textOf (e : Parser σ α) : Parser σ (List σ) := fun s =>
  match e s with
  | some (_, t) => some (s.take (s.length - t.length), t)
  | none => none

/-! ## Sequences and alternatives -/

theorem bind_of_some {e : Parser σ α} {f : α → Parser σ β} {s t : List σ} {a : α}
    (h : e s = some (a, t)) : (e >>= f) s = f a t :=
  congrArg (fun r => r.bind fun (a, t) => f a t) h

theorem bind_of_none {e : Parser σ α} {f : α → Parser σ β} {s : List σ} (h : e s = none) :
    (e >>= f) s = none :=
  congrArg (fun r => r.bind fun (a, t) => f a t) h

theorem bind_eq_some {e : Parser σ α} {f : α → Parser σ β} {s u : List σ} {b : β} :
    (e >>= f) s = some (b, u) ↔ ∃ a t, e s = some (a, t) ∧ f a t = some (b, u) := by
  rcases h : e s with _ | ⟨a, t⟩
  · rw [bind_of_none h]
    simp
  · rw [bind_of_some h]
    simp

theorem pure_eq_some {a b : α} {s t : List σ} :
    (pure a : Parser σ α) s = some (b, t) ↔ a = b ∧ s = t := by
  change some (a, s) = some (b, t) ↔ a = b ∧ s = t
  simp

theorem orElse_of_some {e f : Parser σ α} {s : List σ} {r : α × List σ} (h : e s = some r) :
    (e <|> f) s = some r :=
  congrArg (fun found : Option (α × List σ) => found <|> f s) h

theorem orElse_of_none {e f : Parser σ α} {s : List σ} (h : e s = none) :
    (e <|> f) s = f s :=
  congrArg (fun found : Option (α × List σ) => found <|> f s) h

theorem orElse_eq_some {e f : Parser σ α} {s : List σ} {r : α × List σ} :
    (e <|> f) s = some r ↔ e s = some r ∨ e s = none ∧ f s = some r := by
  rcases h : e s with _ | found
  · rw [orElse_of_none h]
    simp
  · rw [orElse_of_some h]
    simp

theorem opt_of_some {e : Parser σ α} {s t : List σ} {a : α} (h : e s = some (a, t)) :
    opt e s = some (some a, t) := by
  rw [opt, h]

theorem opt_of_none {e : Parser σ α} {s : List σ} (h : e s = none) :
    opt e s = some (none, s) := by
  rw [opt, h]

theorem satisfy_eq_some {p : σ → Bool} {s t : List σ} {c : σ} :
    satisfy p s = some (c, t) ↔ s = c :: t ∧ p c := by
  cases s with
  | nil => simp [satisfy]
  | cons d s =>
      rw [satisfy]
      by_cases h : p d
      · rw [if_pos h]
        constructor
        · intro found
          obtain ⟨rfl, rfl⟩ := Prod.mk.inj (Option.some.inj found)
          exact ⟨rfl, h⟩
        · rintro ⟨same, _⟩
          obtain ⟨rfl, rfl⟩ := List.cons.inj same
          rfl
      · rw [if_neg h]
        constructor
        · exact nofun
        · rintro ⟨same, here⟩
          obtain ⟨rfl, rfl⟩ := List.cons.inj same
          exact absurd here h

theorem word_append [DecidableEq σ] (w s : List σ) : word w (w ++ s) = some ((), s) := by
  rw [word, if_pos (List.prefix_append w s), List.drop_left]

theorem word_of_not_isPrefix [DecidableEq σ] {w s : List σ} (h : ¬ w <+: s) : word w s = none :=
  if_neg h

/-- A word does not come next when another character does. -/
theorem word_of_ne [DecidableEq σ] {c d : σ} (h : c ≠ d) (w s : List σ) :
    word (c :: w) (d :: s) = none :=
  word_of_not_isPrefix fun isPrefix => h (List.cons_prefix_cons.mp isPrefix).1

/-! ## Repetitions -/

/-- An expression takes something whenever it succeeds. -/
def Consumes (e : Parser σ α) : Prop := ∀ s a t, e s = some (a, t) → t.length < s.length

/-- An expression never leaves more than there was. -/
def NeverGrows (e : Parser σ α) : Prop := ∀ s a t, e s = some (a, t) → t.length ≤ s.length

theorem Consumes.neverGrows {e : Parser σ α} (h : Consumes e) : NeverGrows e :=
  fun s a t found => (h s a t found).le

theorem Consumes.bind {e : Parser σ α} {f : α → Parser σ β} (first : Consumes e)
    (others : ∀ a, NeverGrows (f a)) : Consumes (e >>= f) := by
  intro s b u h
  obtain ⟨a, t, found, rest⟩ := bind_eq_some.mp h
  exact (others a t b u rest).trans_lt (first s a t found)

theorem NeverGrows.bind {e : Parser σ α} {f : α → Parser σ β} (first : NeverGrows e)
    (others : ∀ a, NeverGrows (f a)) : NeverGrows (e >>= f) := by
  intro s b u h
  obtain ⟨a, t, found, rest⟩ := bind_eq_some.mp h
  exact (others a t b u rest).trans (first s a t found)

theorem NeverGrows.pure (a : α) : NeverGrows (pure a : Parser σ α) := by
  intro s b t h
  obtain ⟨-, rfl⟩ := pure_eq_some.mp h
  exact le_rfl

theorem Consumes.orElse {e f : Parser σ α} (first : Consumes e) (second : Consumes f) :
    Consumes (e <|> f) := by
  intro s a t h
  rcases orElse_eq_some.mp h with h | ⟨-, h⟩
  · exact first s a t h
  · exact second s a t h

theorem NeverGrows.opt {e : Parser σ α} (h : NeverGrows e) : NeverGrows (opt e) := by
  intro s a t found
  rw [PEG.opt] at found
  rcases he : e s with _ | ⟨b, u⟩
  · rw [he] at found
    obtain ⟨-, rfl⟩ := Prod.mk.inj (Option.some.inj found)
    exact le_rfl
  · rw [he] at found
    obtain ⟨-, rfl⟩ := Prod.mk.inj (Option.some.inj found)
    exact h s b u he

theorem consumes_satisfy (p : σ → Bool) : Consumes (satisfy p) := by
  intro s c t h
  obtain ⟨rfl, -⟩ := satisfy_eq_some.mp h
  exact Nat.lt_succ_self _

theorem consumes_word [DecidableEq σ] {w : List σ} (h : w ≠ []) : Consumes (word w) := by
  intro s a t found
  rw [word] at found
  split at found
  case isTrue isPrefix =>
      obtain ⟨-, rfl⟩ := Prod.mk.inj (Option.some.inj found)
      obtain ⟨t, rfl⟩ := isPrefix
      rw [List.drop_left, List.length_append]
      exact Nat.lt_add_of_pos_left (List.length_pos_iff.mpr h)
  case isFalse => cases found

theorem neverGrows_skipWhile (p : σ → Bool) : NeverGrows (skipWhile p) := by
  intro s a t h
  obtain ⟨-, rfl⟩ := Prod.mk.inj (Option.some.inj h)
  exact (List.dropWhile_suffix p).length_le

theorem neverGrows_notNext (e : Parser σ α) : NeverGrows (notNext e) := by
  intro s a t h
  rw [notNext] at h
  split at h
  · cases h
  · obtain ⟨-, rfl⟩ := Prod.mk.inj (Option.some.inj h)
    exact le_rfl

theorem textOf_eq_some {e : Parser σ α} {s w t : List σ} :
    textOf e s = some (w, t) ↔ ∃ a, e s = some (a, t) ∧ s.take (s.length - t.length) = w := by
  rw [textOf]
  rcases e s with _ | ⟨a, u⟩
  · simp
  · simp only [Option.some.injEq, Prod.mk.injEq]
    constructor
    · rintro ⟨same, rfl⟩
      exact ⟨a, ⟨rfl, rfl⟩, same⟩
    · rintro ⟨b, ⟨rfl, rfl⟩, same⟩
      exact ⟨same, rfl⟩

/-- The text of an expression that takes a part of a text. -/
theorem textOf_append {e : Parser σ α} {w t : List σ} {a : α} (h : e (w ++ t) = some (a, t)) :
    textOf e (w ++ t) = some (w, t) := by
  rw [textOf, h]
  simp

theorem textOf_of_none {e : Parser σ α} {s : List σ} (h : e s = none) : textOf e s = none := by
  rw [textOf, h]

theorem Consumes.textOf {e : Parser σ α} (h : Consumes e) : Consumes (textOf e) := by
  intro s w t found
  obtain ⟨a, found, -⟩ := textOf_eq_some.mp found
  exact h s a t found

theorem repeated_of_some {e : Parser σ α} {s t : List σ} {a : α} (h : e s = some (a, t)) (n : Nat) :
    repeated e (n + 1) s = (a :: (repeated e n t).1, (repeated e n t).2) := by
  rw [repeated, h]

theorem repeated_of_none {e : Parser σ α} {s : List σ} (h : e s = none) (n : Nat) :
    repeated e n s = ([], s) := by
  cases n with
  | zero => rfl
  | succ n => rw [repeated, h]

/-- How often a repetition may run does not matter as long as the text does not run out. -/
theorem repeated_of_le {e : Parser σ α} (consumes : Consumes e) :
    ∀ (n : Nat) (s : List σ), s.length ≤ n → repeated e n s = repeated e s.length s := by
  have most : ∀ (n m : Nat) (s : List σ), s.length ≤ n → s.length ≤ m →
      repeated e n s = repeated e m s := by
    intro n
    induction n with
    | zero =>
        intro m s hn _
        have empty : s = [] := List.eq_nil_of_length_eq_zero (Nat.le_zero.mp hn)
        subst empty
        have fails : e [] = none := by
          rcases h : e [] with _ | ⟨a, t⟩
          · rfl
          · exact absurd (consumes [] a t h) (Nat.not_lt_zero _)
        cases m with
        | zero => rfl
        | succ m => rw [repeated, repeated, fails]
    | succ n ih =>
        intro m s hn hm
        rcases h : e s with _ | ⟨a, t⟩
        · rw [repeated_of_none h, repeated_of_none h]
        · have shorter := consumes s a t h
          cases m with
          | zero => omega
          | succ m =>
              rw [repeated_of_some h, repeated_of_some h, ih m t (by omega) (by omega)]
  exact fun n s h => most n s.length s h le_rfl

/-- A repetition ends where its expression fails. -/
theorem many_of_none {e : Parser σ α} {s : List σ} (h : e s = none) : many e s = some ([], s) := by
  rw [many, repeated_of_none h]

/-- A repetition continues after its expression succeeded. -/
theorem many_of_some {e : Parser σ α} (consumes : Consumes e) {s t u : List σ} {a : α}
    {as : List α} (h : e s = some (a, t)) (rest : many e t = some (as, u)) :
    many e s = some (a :: as, u) := by
  have shorter := consumes s a t h
  rw [many, Option.some.injEq] at rest
  rw [many]
  cases s with
  | nil => simp at shorter
  | cons c s =>
      rw [List.length_cons] at shorter ⊢
      rw [repeated_of_some h]
      rw [repeated_of_le consumes s.length t (by omega), rest]

theorem repeated_neverGrows {e : Parser σ α} (neverGrows : NeverGrows e) :
    ∀ (n : Nat) (s : List σ), (repeated e n s).2.length ≤ s.length := by
  intro n
  induction n with
  | zero => intro s; exact le_rfl
  | succ n ih =>
      intro s
      rw [repeated]
      rcases h : e s with _ | ⟨a, t⟩
      · exact le_rfl
      · exact (ih t).trans (neverGrows s a t h)

theorem NeverGrows.many {e : Parser σ α} (h : NeverGrows e) : NeverGrows (many e) := by
  intro s as t found
  obtain ⟨-, rfl⟩ := Prod.mk.inj (Option.some.inj found)
  exact repeated_neverGrows h s.length s

/-- What holds of every value of an expression holds of all values of a repetition. -/
theorem forall_of_many {e : Parser σ α} {P : α → Prop} (each : ∀ s a t, e s = some (a, t) → P a) :
    ∀ {s : List σ} {as : List α} {t : List σ}, many e s = some (as, t) → ∀ a ∈ as, P a := by
  have holds : ∀ (n : Nat) (s : List σ), ∀ a ∈ (repeated e n s).1, P a := by
    intro n
    induction n with
    | zero => intro s a h; cases h
    | succ n ih =>
        intro s a h
        rw [repeated] at h
        rcases found : e s with _ | ⟨b, t⟩
        · rw [found] at h
          cases h
        · rw [found] at h
          rcases List.mem_cons.mp h with rfl | h
          · exact each s a t found
          · exact ih t a h
  intro s as t h
  obtain ⟨rfl, -⟩ := Prod.mk.inj (Option.some.inj h)
  exact holds s.length s

section Texts

variable {e : Parser σ α} {text : β → List σ} {value : β → α} (skip : List σ → List σ)

/-- A repetition reads texts one after the other; `skip` takes away what stands in between. -/
theorem many_texts (consumes : Consumes e) {bs : List β}
    (each : ∀ b ∈ bs, ∀ t, e (skip (text b ++ t)) = some (value b, skip t)) {t : List σ}
    (ends : e (skip t) = none) :
    many e (skip (bs.flatMap text ++ t)) = some (bs.map value, skip t) := by
  induction bs with
  | nil => exact many_of_none ends
  | cons b bs ih =>
      obtain ⟨first, others⟩ := List.forall_mem_cons.mp each
      rw [List.flatMap_cons, List.append_assoc]
      exact many_of_some consumes (first _) (ih others)

/-- A repetition ends at the first text on which its expression fails. -/
theorem many_texts_of_not (consumes : Consumes e) {ok : β → Prop} {bs : List β}
    (each : ∀ b ∈ bs, ok b → ∀ t, e (skip (text b ++ t)) = some (value b, skip t))
    (fails : ∀ b ∈ bs, ¬ ok b → ∀ t, e (skip (text b ++ t)) = none)
    (not : ¬ ∀ b ∈ bs, ok b) (t : List σ) :
    ∃ as b t', many e (skip (bs.flatMap text ++ t)) = some (as, skip (text b ++ t')) := by
  induction bs with
  | nil => exact absurd (List.forall_mem_nil _) not
  | cons b bs ih =>
      obtain ⟨first, others⟩ := List.forall_mem_cons.mp each
      obtain ⟨failsFirst, failsOthers⟩ := List.forall_mem_cons.mp fails
      rw [List.flatMap_cons, List.append_assoc]
      by_cases here : ok b
      · obtain ⟨as, b', t', found⟩ := ih others failsOthers fun all =>
          not (List.forall_mem_cons.mpr ⟨here, all⟩)
        exact ⟨value b :: as, b', t', many_of_some consumes (first here _) found⟩
      · exact ⟨[], b, _, many_of_none (failsFirst here _)⟩

end Texts

/-- A repetition of a character of a class takes all of them that come next. -/
theorem many_satisfy (p : σ → Bool) (s : List σ) :
    many (satisfy p) s = some (s.takeWhile p, s.dropWhile p) := by
  induction s with
  | nil => rfl
  | cons c s ih =>
      by_cases h : p c
      · rw [many_of_some (consumes_satisfy p) (satisfy_eq_some.mpr ⟨rfl, h⟩) ih,
          List.takeWhile_cons_of_pos h, List.dropWhile_cons_of_pos h]
      · have fails : satisfy p (c :: s) = none := if_neg h
        rw [many_of_none fails, List.takeWhile_cons_of_neg h, List.dropWhile_cons_of_neg h]

/-- The text of an expression that begins with a character of a class. -/
theorem textOf_satisfy_bind {p : σ → Bool} {f : σ → Parser σ α} (others : ∀ c, NeverGrows (f c))
    {s w t : List σ} (h : textOf (satisfy p >>= f) s = some (w, t)) :
    ∃ c v, w = c :: v ∧ p c := by
  obtain ⟨a, found, rfl⟩ := textOf_eq_some.mp h
  obtain ⟨c, u, first, rest⟩ := bind_eq_some.mp found
  obtain ⟨rfl, here⟩ := satisfy_eq_some.mp first
  have shorter := others c u a t rest
  refine ⟨c, u.take (u.length - t.length), ?_, here⟩
  rw [List.length_cons, Nat.succ_sub shorter, List.take_succ_cons]

/-! ## Other values for the same text -/

section Map

theorem map_apply (f : α → β) (e : Parser σ α) (s : List σ) :
    (f <$> e) s = (e s).map fun (a, t) => (f a, t) := by
  rw [map_eq_pure_bind]
  rcases h : e s with _ | ⟨a, t⟩
  · rw [bind_of_none h]
    rfl
  · rw [bind_of_some h]
    rfl

theorem map_eq_some {f : α → β} {e : Parser σ α} {s t : List σ} {b : β} :
    (f <$> e) s = some (b, t) ↔ ∃ a, e s = some (a, t) ∧ f a = b := by
  rw [map_apply]
  rcases e s with _ | ⟨a, u⟩
  · simp
  · simp [and_comm, eq_comm]

theorem map_orElse (f : α → β) (e e' : Parser σ α) : f <$> (e <|> e') = (f <$> e <|> f <$> e') := by
  funext s
  rcases h : e s with _ | r
  · rw [map_apply, orElse_of_none h, orElse_of_none (by rw [map_apply, h]; rfl), map_apply]
  · rw [map_apply, orElse_of_some h, orElse_of_some (by rw [map_apply, h]; rfl)]
    rfl

theorem opt_map (f : α → β) (e : Parser σ α) : opt (f <$> e) = Option.map f <$> opt e := by
  funext s
  rw [map_apply, opt, opt, map_apply]
  rcases e s with _ | ⟨a, t⟩ <;> rfl

theorem repeated_map (f : α → β) (e : Parser σ α) (n : Nat) (s : List σ) :
    repeated (f <$> e) n s = ((repeated e n s).1.map f, (repeated e n s).2) := by
  induction n generalizing s with
  | zero => rfl
  | succ n ih =>
      rw [repeated, repeated, map_apply]
      rcases e s with _ | ⟨a, t⟩
      · rfl
      · exact congrArg (fun r : List β × List σ => (f a :: r.1, r.2)) (ih t)

theorem many_map (f : α → β) (e : Parser σ α) : many (f <$> e) = List.map f <$> many e := by
  funext s
  rw [map_apply, many, many, repeated_map]
  rfl

/-- The text of one of two alternatives. -/
theorem textOf_orElse (e e' : Parser σ α) : textOf (e <|> e') = (textOf e <|> textOf e') := by
  funext s
  rcases h : e s with _ | ⟨a, t⟩
  · rw [orElse_of_none (textOf_of_none h), textOf, textOf, orElse_of_none h]
  · have text : textOf e s = some (s.take (s.length - t.length), t) := by rw [textOf, h]
    rw [orElse_of_some text, textOf, orElse_of_some h]

/-- The text of a word is this word. -/
theorem textOf_word [DecidableEq σ] (w : List σ) : textOf (word w) = (fun _ => w) <$> word w := by
  funext s
  rw [map_apply]
  by_cases isPrefix : w <+: s
  · obtain ⟨t, rfl⟩ := isPrefix
    rw [textOf_append (word_append w t), word_append]
    rfl
  · rw [textOf_of_none (word_of_not_isPrefix isPrefix), word_of_not_isPrefix isPrefix]
    rfl

theorem textOf_map (f : α → β) (e : Parser σ α) : textOf (f <$> e) = textOf e := by
  funext s
  rw [textOf, textOf, map_apply]
  rcases e s with _ | ⟨a, t⟩ <;> rfl

/-- What is skipped is forgotten. -/
theorem map_textOf (e : Parser σ Unit) : (fun _ => ()) <$> textOf e = e := by
  funext s
  rw [map_apply, textOf]
  rcases e s with _ | ⟨⟨⟩, t⟩ <;> rfl

end Map

/-! ## What is taken -/

/-- Everything that an expression takes is of a kind. -/
def Takes (P : List σ → Prop) (e : Parser σ α) : Prop :=
  ∀ s a t, e s = some (a, t) → ∃ w, P w ∧ s = w ++ t

/-- A kind of texts that may be put together. -/
structure AppendClosed (P : List σ → Prop) : Prop where
  nil : P []
  append : ∀ {v w : List σ}, P v → P w → P (v ++ w)

section Takes

variable {P : List σ → Prop} {e : Parser σ α}

theorem takes_satisfy {p : σ → Bool} (each : ∀ c, p c → P [c]) : Takes P (satisfy p) := by
  intro s c t h
  obtain ⟨rfl, here⟩ := satisfy_eq_some.mp h
  exact ⟨[c], each c here, rfl⟩

theorem takes_word [DecidableEq σ] {w : List σ} (h : P w) : Takes P (word w) := by
  intro s a t found
  rw [word] at found
  split at found
  · rename_i isPrefix
    obtain ⟨-, rfl⟩ := Prod.mk.inj (Option.some.inj found)
    obtain ⟨t, rfl⟩ := isPrefix
    exact ⟨w, h, by rw [List.drop_left]⟩
  · cases found

theorem takes_skipWhile {p : σ → Bool} (all : ∀ w : List σ, (∀ c ∈ w, p c) → P w) :
    Takes P (skipWhile p) := by
  intro s a t h
  obtain ⟨-, rfl⟩ := Prod.mk.inj (Option.some.inj h)
  exact ⟨s.takeWhile p, all _ fun _ member => List.mem_takeWhile_imp member,
    List.takeWhile_append_dropWhile.symm⟩

theorem Takes.orElse {f : Parser σ α} (first : Takes P e) (second : Takes P f) :
    Takes P (e <|> f) := by
  intro s a t h
  rcases orElse_eq_some.mp h with h | ⟨-, h⟩
  · exact first s a t h
  · exact second s a t h

theorem Takes.textOf (h : Takes P e) : Takes P (textOf e) := by
  intro s w t found
  obtain ⟨a, found, -⟩ := textOf_eq_some.mp found
  exact h s a t found

section Closed

variable (closed : AppendClosed P)
include closed

theorem Takes.pure (a : α) : Takes P (pure a : Parser σ α) := by
  intro s b t h
  obtain ⟨-, rfl⟩ := pure_eq_some.mp h
  exact ⟨[], closed.nil, rfl⟩

theorem Takes.bind {f : α → Parser σ β} (first : Takes P e) (others : ∀ a, Takes P (f a)) :
    Takes P (e >>= f) := by
  intro s b u h
  obtain ⟨a, t, found, rest⟩ := bind_eq_some.mp h
  obtain ⟨v, isFirst, rfl⟩ := first s a t found
  obtain ⟨w, isOther, rfl⟩ := others a t b u rest
  exact ⟨v ++ w, closed.append isFirst isOther, (List.append_assoc v w u).symm⟩

theorem Takes.map (f : α → β) (h : Takes P e) : Takes P (f <$> e) := by
  rw [map_eq_pure_bind]
  exact Takes.bind closed h fun a => Takes.pure closed (f a)

theorem takes_notNext : Takes P (notNext e) := by
  intro s a t h
  rw [notNext] at h
  split at h
  · cases h
  · obtain ⟨-, rfl⟩ := Prod.mk.inj (Option.some.inj h)
    exact ⟨[], closed.nil, rfl⟩

theorem Takes.opt (h : Takes P e) : Takes P (opt e) := by
  intro s a t found
  rw [PEG.opt] at found
  rcases he : e s with _ | ⟨b, u⟩
  · rw [he] at found
    obtain ⟨-, rfl⟩ := Prod.mk.inj (Option.some.inj found)
    exact ⟨[], closed.nil, rfl⟩
  · rw [he] at found
    obtain ⟨-, rfl⟩ := Prod.mk.inj (Option.some.inj found)
    exact h s b u he

/-- What a repetition takes is put together from what its expression takes. -/
theorem Takes.many (h : Takes P e) : Takes P (many e) := by
  have each : ∀ (n : Nat) (s : List σ), ∃ w, P w ∧ s = w ++ (repeated e n s).2 := by
    intro n
    induction n with
    | zero => exact fun s => ⟨[], closed.nil, rfl⟩
    | succ n ih =>
        intro s
        rcases found : e s with _ | ⟨a, t⟩
        · rw [repeated_of_none found]
          exact ⟨[], closed.nil, rfl⟩
        · obtain ⟨v, isFirst, same⟩ := h s a t found
          obtain ⟨w, isOther, rest⟩ := ih t
          rw [repeated_of_some found]
          refine ⟨v ++ w, closed.append isFirst isOther, ?_⟩
          rw [List.append_assoc, ← rest]
          exact same
  intro s as t found
  obtain ⟨-, rfl⟩ := Prod.mk.inj (Option.some.inj found)
  exact each s.length s

end Closed

end Takes

end Cluon.Library.PEG
