import Cluon.Library.ByteOrder
import Mathlib.Data.List.DropRight

/-!
# The string toolbox

Cutting blanks off a string and splitting it at a delimiter.
-/

set_option autoImplicit false

namespace Cluon.stringtoolbox

open Library

/-- The characters that are cut off: blanks and tabs. -/
def isBlank (c : Byte) : Bool := decide (c = 0x20 ∨ c = 0x09)

/-- `rtrim(str)`. -/
def rtrim (str : Bytes) : Bytes := str.rdropWhile isBlank

/-- `ltrim(str)`. -/
def ltrim (str : Bytes) : Bytes := str.dropWhile isBlank

/-- `trim(str)`. -/
def trim (str : Bytes) : Bytes := ltrim (rtrim str)

/-- The part of a string before the first delimiter, and the parts behind it. -/
def splitParts (delimiter : Byte) : Bytes → Bytes × List Bytes
  | [] => ([], [])
  | c :: s =>
      let (part, parts) := splitParts delimiter s
      if c = delimiter then ([], part :: parts) else (c :: part, parts)

/-- `split(str, delimiter)`: the empty string has no parts. -/
def split (str : Bytes) (delimiter : Byte) : List Bytes :=
  if str = [] then []
  else
    let (part, parts) := splitParts delimiter str
    part :: parts

theorem trim_eq_self {str : Bytes} (h : ∀ c ∈ str, isBlank c = false) : trim str = str := by
  have right : rtrim str = str := by
    apply List.rdropWhile_eq_self_iff.mpr
    intro some
    rw [h _ (List.getLast_mem some)]
    exact Bool.false_ne_true
  rw [trim, right, ltrim]
  apply List.dropWhile_eq_self_iff.mpr
  intro some
  rw [h _ (List.getElem_mem some)]
  exact Bool.false_ne_true

theorem splitParts_of_notMem {delimiter : Byte} (s : Bytes) :
    delimiter ∉ s → splitParts delimiter s = (s, []) := by
  induction s with
  | nil => intro _; rfl
  | cons c s ih =>
      intro h
      rw [List.mem_cons, not_or] at h
      simp only [splitParts, ih h.2, if_neg (Ne.symm h.1)]

theorem splitParts_append {delimiter : Byte} (a : Bytes) :
    delimiter ∉ a → ∀ s : Bytes, splitParts delimiter (a ++ delimiter :: s) =
      (a, (splitParts delimiter s).1 :: (splitParts delimiter s).2) := by
  induction a with
  | nil => intro _ s; simp only [List.nil_append, splitParts, if_true]
  | cons c a ih =>
      intro h s
      rw [List.mem_cons, not_or] at h
      simp only [List.cons_append, splitParts, ih h.2, if_neg (Ne.symm h.1)]

/-- A string with one delimiter has two parts. -/
theorem split_two {delimiter : Byte} {a b : Bytes} (ha : delimiter ∉ a) (hb : delimiter ∉ b) :
    split (a ++ delimiter :: b) delimiter = [a, b] := by
  rw [split, if_neg (by simp), splitParts_append a ha, splitParts_of_notMem b hb]

/-- What is between two delimiters is the second part. -/
theorem split_between {delimiter : Byte} {a : Bytes} (ha : delimiter ∉ a) :
    split (delimiter :: a ++ [delimiter]) delimiter = [[], a, []] := by
  rw [split, if_neg (by simp)]
  simp only [List.cons_append, splitParts, splitParts_append a ha, if_true]

/-- Only the empty string is split in another way than by the library. -/
theorem split_eq_splitOn (delimiter : Byte) {str : Bytes} (some : str ≠ []) :
    split str delimiter = str.splitOn delimiter := by
  have parts : ∀ s : Bytes, (splitParts delimiter s).1 :: (splitParts delimiter s).2 =
      s.splitOn delimiter := by
    intro s
    induction s with
    | nil => rfl
    | cons c s ih =>
        rw [List.splitOn_cons_eq_if_modifyHead, ← ih, splitParts]
        by_cases here : c = delimiter
        · simp [here]
        · simp [here]
  rw [split, if_neg some]
  exact parts str

theorem split_ne_nil (delimiter : Byte) {str : Bytes} (some : str ≠ []) :
    split str delimiter ≠ [] := by
  rw [split, if_neg some]
  exact List.cons_ne_nil _ _

/-- The first part ends before the first delimiter. -/
theorem getElem?_split_zero {delimiter : Byte} (a s : Bytes) :
    (split (a ++ delimiter :: s) delimiter)[0]? = some (a.takeWhile fun c => c ≠ delimiter) := by
  have part : (splitParts delimiter (a ++ delimiter :: s)).1 =
      a.takeWhile fun c => c ≠ delimiter := by
    induction a with
    | nil => simp only [List.nil_append, splitParts, if_true, List.takeWhile_nil]
    | cons c a ih =>
        rw [List.cons_append, splitParts, List.takeWhile_cons, ← ih]
        by_cases here : c = delimiter <;> simp [here]
  rw [split, if_neg (by simp), ← part]
  rfl

/-- The second part ends before the second delimiter. -/
theorem getElem?_split_one {delimiter : Byte} {a : Bytes} (ha : delimiter ∉ a) (b s : Bytes) :
    (split (a ++ delimiter :: (b ++ delimiter :: s)) delimiter)[1]? =
      some (b.takeWhile fun c => c ≠ delimiter) := by
  have second := @getElem?_split_zero delimiter b s
  rw [split, if_neg (by simp)] at second
  rw [split, if_neg (by simp), splitParts_append a ha]
  exact second

end Cluon.stringtoolbox
