import Mathlib.Data.List.Basic
import Mathlib.Tactic.SplitIfs

/-!
# Texts in segments

* `split`, `trimStart`: the segments between the separators, and a text without the separators in
  front of it; **`split_trimStart`**: trimming drops the empty segments in front.
* `Part`, `parts`, `capture`: patterns with named parameters, of which each takes one segment that
  is not empty; `capture_nil`, `capture_literal`, `capture_param`: what a pattern takes.
-/

namespace Segments

/-! ## Segments -/

theorem splitOn_dropWhile {α : Type*} [BEq α] (c : α) (l : List α) :
    (l.dropWhile (· == c)).splitOn c =
      if (l.splitOn c).dropWhile List.isEmpty = [] then [[]]
      else (l.splitOn c).dropWhile List.isEmpty := by
  induction l with
  | nil => rfl
  | cons x l ih =>
    rw [List.splitOn_cons_eq_if_modifyHead]
    by_cases hx : (x == c) = true
    · rw [List.dropWhile_cons, if_pos hx, if_pos hx, ih]
      rfl
    · rw [List.dropWhile_cons, if_neg hx, if_neg hx, List.splitOn_cons_eq_if_modifyHead, if_neg hx]
      obtain ⟨s, rest, hs⟩ := List.exists_cons_of_ne_nil (List.splitOn_ne_nil c l)
      rw [hs]
      rfl

/-- The segments of a text between the separators. -/
def split (s : String) (c : Char) : List String := (s.toList.splitOn c).map String.ofList

/-- A text without the separators that it begins with. -/
def trimStart (s : String) (c : Char) : String := String.ofList (s.toList.dropWhile (· == c))

theorem dropWhile_map_ofList (l : List (List Char)) :
    (l.map String.ofList).dropWhile String.isEmpty =
      (l.dropWhile List.isEmpty).map String.ofList := by
  rw [List.dropWhile_map]
  congr 2
  ext cs
  cases cs <;> simp

/-- **Trimming drops the empty segments in front**; one segment is always left. -/
theorem split_trimStart (s : String) (c : Char) :
    split (trimStart s c) c =
      if (split s c).dropWhile String.isEmpty = [] then [""]
      else (split s c).dropWhile String.isEmpty := by
  rw [split, trimStart, String.toList_ofList, splitOn_dropWhile, split, dropWhile_map_ofList]
  split_ifs with h h' h'
  · rfl
  · exact absurd (by rw [h]; rfl) h'
  · exact absurd (List.map_eq_nil_iff.mp h') h
  · rfl

/-! ## Patterns -/

/-- A segment of a pattern. -/
inductive Part
  | literal (text : String)
  | param (name : String)
  deriving DecidableEq, Repr

/-- A segment in braces is a parameter. -/
def partOf (s : String) : Part :=
  match s.toList with
  | '{' :: rest =>
    if rest.getLast? = some '}' then .param (String.ofList rest.dropLast) else .literal s
  | _ => .literal s

/-- The parts of a pattern. -/
def parts (pattern : String) (c : Char) : List Part := (split pattern c).map partOf

/-- The parameters of a pattern and the segments that they take. -/
def capture : List Part → List String → Option (List (String × String))
  | [], [] => some []
  | .literal text :: ps, s :: rest => if s = text then capture ps rest else none
  | .param name :: ps, s :: rest =>
    if s = "" then none else (capture ps rest).map ((name, s) :: ·)
  | _, _ => none

variable {ps : List Part} {segments : List String} {params : List (String × String)}

theorem capture_nil : capture [] segments = some params ↔ segments = [] ∧ params = [] := by
  cases segments with
  | nil => simp [capture, eq_comm]
  | cons s rest => simp [capture]

theorem capture_literal {text : String} :
    capture (.literal text :: ps) segments = some params ↔
      ∃ rest, segments = text :: rest ∧ capture ps rest = some params := by
  cases segments with
  | nil => simp [capture]
  | cons s rest =>
    rw [capture]
    split_ifs with hs
    · simp [hs]
    · simp [hs]

theorem capture_param {name : String} :
    capture (.param name :: ps) segments = some params ↔
      ∃ s rest others, s ≠ "" ∧ segments = s :: rest ∧ capture ps rest = some others ∧
        params = (name, s) :: others := by
  cases segments with
  | nil => simp [capture]
  | cons s rest =>
    rw [capture]
    split_ifs with hs
    · simp only [List.cons.injEq, false_iff]
      rintro ⟨t, rest', others, ht, ⟨rfl, -⟩, -⟩
      exact ht hs
    · simp only [Option.map_eq_some_iff, List.cons.injEq]
      constructor
      · rintro ⟨others, hc, rfl⟩
        exact ⟨s, rest, others, hs, ⟨rfl, rfl⟩, hc, rfl⟩
      · rintro ⟨t, rest', others, -, ⟨rfl, rfl⟩, hc, rfl⟩
        exact ⟨others, hc, rfl⟩

end Segments
