import Mathlib.Data.List.Infix
import CasperNodeProxy.Lib.Wire

/-!
# Percent-encoding

An escape is a percent sign and two hexadecimal digits; it stands for one byte.

* `decode`: every escape is replaced by its byte, and all other bytes stay.
* `HasEscape`, **`decode_eq_self_iff`**: what stays the same is exactly what has no escape.
* `decodeText`, **`decodeText_eq_some_self_iff`**: the same for texts in UTF-8.
-/

namespace Percent

open Wire

/-! ## Bytes -/

/-- The value of a hexadecimal digit. -/
def digit (b : UInt8) : Option UInt8 :=
  if 48 ≤ b ∧ b ≤ 57 then some (b - 48)
  else if 65 ≤ b ∧ b ≤ 70 then some (b - 55)
  else if 97 ≤ b ∧ b ≤ 102 then some (b - 87)
  else none

/-- The byte that these three stand for, if they are an escape. -/
def escape (b₀ b₁ b₂ : UInt8) : Option UInt8 :=
  if b₀ = 37 then (digit b₁).bind fun high => (digit b₂).map fun low => 16 * high + low
  else none

/-- The bytes with their escapes replaced; a `%` that begins none stays. -/
def decode : Bytes → Bytes
  | b₀ :: b₁ :: b₂ :: rest =>
    match escape b₀ b₁ b₂ with
    | some b => b :: decode rest
    | none => b₀ :: decode (b₁ :: b₂ :: rest)
  | b => b

/-- Three bytes in a row are an escape. -/
def HasEscape (b : Bytes) : Prop :=
  ∃ b₀ b₁ b₂, [b₀, b₁, b₂] <:+: b ∧ (escape b₀ b₁ b₂).isSome

theorem length_decode_le (b : Bytes) : (decode b).length ≤ b.length := by
  fun_induction decode b with
  | case1 b₀ b₁ b₂ rest b hb ih =>
    simp only [List.length_cons]
    omega
  | case2 b₀ b₁ b₂ rest hb ih => exact Nat.succ_le_succ ih
  | case3 b hb => exact le_rfl

theorem hasEscape_of_head {b₀ b₁ b₂ : UInt8} {rest : Bytes} (h : (escape b₀ b₁ b₂).isSome) :
    HasEscape (b₀ :: b₁ :: b₂ :: rest) := ⟨b₀, b₁, b₂, ⟨[], rest, rfl⟩, h⟩

theorem hasEscape_cons_iff {b₀ b₁ b₂ : UInt8} {rest : Bytes} (h : escape b₀ b₁ b₂ = none) :
    HasEscape (b₀ :: b₁ :: b₂ :: rest) ↔ HasEscape (b₁ :: b₂ :: rest) := by
  constructor
  · rintro ⟨c₀, c₁, c₂, hc, he⟩
    rcases List.infix_cons_iff.mp hc with hprefix | hinfix
    · obtain ⟨tail, htail⟩ := hprefix
      cases htail
      rw [h] at he
      cases he
    · exact ⟨c₀, c₁, c₂, hinfix, he⟩
  · rintro ⟨c₀, c₁, c₂, hc, he⟩
    exact ⟨c₀, c₁, c₂, hc.trans (List.suffix_cons _ _).isInfix, he⟩

/-- **Decoding leaves exactly those bytes alone that have no escape.** -/
theorem decode_eq_self_iff (b : Bytes) : decode b = b ↔ ¬ HasEscape b := by
  fun_induction decode b with
  | case1 b₀ b₁ b₂ rest b hb ih =>
    refine iff_of_false (fun heq => ?_) fun hno => hno (hasEscape_of_head ?_)
    · -- an escape makes it shorter
      have hlen := congrArg List.length heq
      have hle := length_decode_le rest
      simp only [List.length_cons] at hlen
      omega
    · rw [hb]
      rfl
  | case2 b₀ b₁ b₂ rest hb ih =>
    rw [hasEscape_cons_iff hb, ← ih]
    simp only [List.cons.injEq, true_and]
  | case3 b hb =>
    refine iff_of_true rfl ?_
    rintro ⟨b₀, b₁, b₂, ⟨pre, post, rfl⟩, -⟩
    cases pre with
    | nil => exact hb b₀ b₁ b₂ post rfl
    | cons c₀ pre =>
      cases pre with
      | nil => exact hb c₀ b₀ b₁ (b₂ :: post) rfl
      | cons c₁ pre =>
        cases pre with
        | nil => exact hb c₀ c₁ b₀ (b₁ :: b₂ :: post) rfl
        | cons c₂ pre => exact hb c₀ c₁ c₂ (pre ++ [b₀, b₁, b₂] ++ post) rfl

instance (b : Bytes) : Decidable (HasEscape b) :=
  decidable_of_iff (decode b ≠ b) (not_congr (decode_eq_self_iff b) |>.trans not_not)

/-! ## Texts -/

/-- The bytes of a text in UTF-8. -/
def utf8 (s : String) : Bytes := s.toByteArray.data.toList

/-- The text after its escapes are decoded, if that is valid UTF-8. -/
def decodeText (s : String) : Option String := String.fromUTF8? ⟨(decode (utf8 s)).toArray⟩

theorem fromUTF8?_eq_some {b : ByteArray} {s : String} :
    String.fromUTF8? b = some s ↔ s.toByteArray = b := by
  unfold String.fromUTF8?
  constructor
  · intro h
    split_ifs at h with hb
    cases h
    rfl
  · rintro rfl
    rw [dif_pos s.isValidUTF8]
    rfl

theorem decodeText_eq_some {s t : String} : decodeText s = some t ↔ decode (utf8 s) = utf8 t := by
  rw [decodeText, fromUTF8?_eq_some, utf8, utf8]
  constructor
  · intro h
    rw [h]
  · intro h
    rw [h, Array.toArray_toList]

/-- **A text stays the same under decoding** exactly if it has no escape. -/
theorem decodeText_eq_some_self_iff (s : String) :
    decodeText s = some s ↔ ¬ HasEscape (utf8 s) :=
  decodeText_eq_some.trans (decode_eq_self_iff (utf8 s))

end Percent
