import Mathlib.Algebra.Group.Nat.Defs
import Mathlib.Data.List.Basic

/-!
# Byte codecs

* `Codec`, `Codec.Inverse`: a pair of a decoder that returns the bytes left over and an encoder,
  and the law that they undo each other on complete encodings.
* `u32le`, `u32Of`: four little-endian bytes; `u32Of_u32le`.
* `frame`: a message behind its length; **`frame_prefix_incomplete`**: no proper prefix of a frame
  is a complete frame.
-/

namespace Wire

/-- Bytes in the order in which they are sent. -/
abbrev Bytes := List UInt8

/-- A decoder, which also returns the rest of the input, and an encoder. -/
structure Codec (ε α : Type*) where
  fromBytes : Bytes → Except ε (α × Bytes)
  toBytes : α → Except ε Bytes

variable {ε α : Type*}

/-- The encoder and the decoder are mutually inverse on complete encodings. -/
structure Codec.Inverse (C : Codec ε α) : Prop where
  decode : ∀ v b, C.toBytes v = .ok b → C.fromBytes b = .ok (v, [])
  encode : ∀ v b, C.fromBytes b = .ok (v, []) → C.toBytes v = .ok b

/-! ## Little-endian words -/

/-- The four bytes of a word, the low one first. -/
def u32le (n : ℕ) : Bytes :=
  [.ofNat n, .ofNat (n / 256), .ofNat (n / 65536), .ofNat (n / 16777216)]

/-- The word that the first four bytes stand for. -/
def u32Of : Bytes → ℕ
  | b₀ :: b₁ :: b₂ :: b₃ :: _ =>
    b₀.toNat + 256 * b₁.toNat + 65536 * b₂.toNat + 16777216 * b₃.toNat
  | _ => 0

@[simp] theorem length_u32le (n : ℕ) : (u32le n).length = 4 := rfl

theorem u32Of_u32le {n : ℕ} (h : n < 2 ^ 32) (rest : Bytes) : u32Of (u32le n ++ rest) = n := by
  simp only [u32le, List.cons_append, List.nil_append, u32Of, UInt8.toNat_ofNat']
  omega

theorem u32Of_append {b : Bytes} (h : 4 ≤ b.length) (rest : Bytes) :
    u32Of (b ++ rest) = u32Of b := by
  match b, h with
  | _ :: _ :: _ :: _ :: _, _ => rfl

/-! ## Frames -/

/-- A message behind its length; the length is cast to 32 bits. -/
def frame (message : Bytes) : Bytes := u32le (message.length % 2 ^ 32) ++ message

/-- `b` begins with a complete frame. -/
def HasFrame (b : Bytes) : Prop := 4 ≤ b.length ∧ 4 + u32Of b ≤ b.length

instance (b : Bytes) : Decidable (HasFrame b) := by unfold HasFrame; infer_instance

/-- The message of the first frame of `b`. -/
def frameMessage (b : Bytes) : Bytes := (b.drop 4).take (u32Of b)

@[simp] theorem length_frame (m : Bytes) : (frame m).length = 4 + m.length := by
  simp [frame, Nat.add_comm]

theorem u32Of_frame {m : Bytes} (h : m.length < 2 ^ 32) (rest : Bytes) :
    u32Of (frame m ++ rest) = m.length := by
  rw [frame, List.append_assoc, Nat.mod_eq_of_lt h, u32Of_u32le h]

theorem frameMessage_frame {m : Bytes} (h : m.length < 2 ^ 32) : frameMessage (frame m) = m := by
  have hu := u32Of_frame h []
  rw [List.append_nil] at hu
  rw [frameMessage, hu, frame, List.drop_left' (length_u32le _), List.take_length]

/-- **A frame that is not written to its end cannot be answered.** -/
theorem frame_prefix_incomplete {m b rest : Bytes} (h : m.length < 2 ^ 32)
    (he : b ++ rest = frame m) (hrest : rest ≠ []) : ¬ HasFrame b := by
  rintro ⟨h4, hlen⟩
  have hu : u32Of b = m.length := by
    rw [← u32Of_append h4 rest, he, ← List.append_nil (frame m), u32Of_frame h]
  have hl := congrArg List.length he
  have := List.length_pos_of_ne_nil hrest
  simp only [List.length_append, length_frame] at hl
  omega

end Wire
