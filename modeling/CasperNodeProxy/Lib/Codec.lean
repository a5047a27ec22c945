import Mathlib.Tactic.SplitIfs
import CasperNodeProxy.Lib.Wire

/-!
# Self-delimiting codecs

A codec is *self-delimiting* when decoding reads back exactly what was encoded, whatever follows.
The combinators below keep that law: `u8`, `u16`, `u32`, `bytes`, `refine`,
`pair`, `option`, `vec`.

* `SelfDelimiting.inverse`, `SelfDelimiting.inverse_pair`: such a codec is invertible, also in
  front of a last field that takes the rest of the input.
-/

namespace Wire

variable {ε α β : Type*}

/-- Decoding reads back an encoding and leaves what follows it, and reads nothing else. -/
structure Codec.SelfDelimiting (C : Codec ε α) : Prop where
  decode : ∀ v b, C.toBytes v = .ok b → ∀ rest, C.fromBytes (b ++ rest) = .ok (v, rest)
  encode : ∀ v b rest, C.fromBytes b = .ok (v, rest) → ∃ w, C.toBytes v = .ok w ∧ b = w ++ rest

theorem Codec.SelfDelimiting.inverse {C : Codec ε α} (hC : C.SelfDelimiting) : C.Inverse where
  decode v b h := by
    have := hC.decode v b h []
    rwa [List.append_nil] at this
  encode v b h := by
    obtain ⟨w, hw, rfl⟩ := hC.encode v b [] h
    rwa [List.append_nil]

theorem bind_eq_ok {x : Except ε α} {f : α → Except ε β} {w : β} :
    x.bind f = .ok w ↔ ∃ v, x = .ok v ∧ f v = .ok w := by
  cases x <;> simp [Except.bind]

/-! ## Fields one after the other -/

/-- The fields `α` and `β`. -/
def Codec.pair (C : Codec ε α) (D : Codec ε β) : Codec ε (α × β) where
  fromBytes b := (C.fromBytes b).bind fun p => (D.fromBytes p.2).bind fun q => .ok ((p.1, q.1), q.2)
  toBytes v := (C.toBytes v.1).bind fun b => (D.toBytes v.2).bind fun c => .ok (b ++ c)

theorem Codec.SelfDelimiting.pair {C : Codec ε α} {D : Codec ε β} (hC : C.SelfDelimiting)
    (hD : D.SelfDelimiting) : (C.pair D).SelfDelimiting where
  decode v b h rest := by
    obtain ⟨b₁, h₁, h⟩ := bind_eq_ok.mp h
    obtain ⟨b₂, h₂, h⟩ := bind_eq_ok.mp h
    cases h
    simp only [Codec.pair, List.append_assoc, hC.decode _ _ h₁, hD.decode _ _ h₂, Except.bind]
  encode v b rest h := by
    obtain ⟨p, hp, h⟩ := bind_eq_ok.mp h
    obtain ⟨q, hq, h⟩ := bind_eq_ok.mp h
    cases h
    obtain ⟨w₁, hw₁, rfl⟩ := hC.encode p.1 b p.2 hp
    obtain ⟨w₂, hw₂, he⟩ := hD.encode q.1 p.2 q.2 hq
    exact ⟨w₁ ++ w₂, by simp only [Codec.pair, hw₁, hw₂, Except.bind],
      by rw [he, List.append_assoc]⟩

theorem Codec.pair_accepts {C : Codec ε α} {D : Codec ε β} {b : Bytes} :
    (∃ p, (C.pair D).fromBytes b = .ok p) ↔
      ∃ v rest, C.fromBytes b = .ok (v, rest) ∧ ∃ p, D.fromBytes rest = .ok p := by
  constructor
  · rintro ⟨p, h⟩
    obtain ⟨⟨v, rest⟩, hv, h⟩ := bind_eq_ok.mp h
    obtain ⟨q, hq, -⟩ := bind_eq_ok.mp h
    exact ⟨v, rest, hv, q, hq⟩
  · rintro ⟨v, rest, hv, q, hq⟩
    exact ⟨_, bind_eq_ok.mpr ⟨_, hv, bind_eq_ok.mpr ⟨q, hq, rfl⟩⟩⟩

/-- A last field need not delimit itself. -/
theorem Codec.SelfDelimiting.inverse_pair {C : Codec ε α} {D : Codec ε β} (hC : C.SelfDelimiting)
    (hD : D.Inverse) : (C.pair D).Inverse where
  decode v b h := by
    obtain ⟨b₁, h₁, h⟩ := bind_eq_ok.mp h
    obtain ⟨b₂, h₂, h⟩ := bind_eq_ok.mp h
    cases h
    simp only [Codec.pair, hC.decode _ _ h₁, hD.decode _ _ h₂, Except.bind]
  encode v b h := by
    obtain ⟨p, hp, h⟩ := bind_eq_ok.mp h
    obtain ⟨⟨v₂, r⟩, hq, h⟩ := bind_eq_ok.mp h
    cases h
    obtain ⟨w₁, hw₁, rfl⟩ := hC.encode p.1 b p.2 hp
    simp only [Codec.pair, hw₁, hD.encode _ _ hq, Except.bind]

/-- A representation `α` of which `f` accepts those that stand for a value, with inverse `g`. -/
def Codec.refine (C : Codec ε α) (f : α → Except ε β) (g : β → α) : Codec ε β where
  fromBytes b := (C.fromBytes b).bind fun p => (f p.1).bind fun v => .ok (v, p.2)
  toBytes v := C.toBytes (g v)

theorem Codec.refine_accepts {C : Codec ε α} {f : α → Except ε β} {g : β → α}
    (hf : ∀ a, ∃ v, f a = .ok v) {b : Bytes} :
    (∃ p, (C.refine f g).fromBytes b = .ok p) ↔ ∃ p, C.fromBytes b = .ok p := by
  constructor
  · rintro ⟨p, h⟩
    obtain ⟨q, hq, -⟩ := bind_eq_ok.mp h
    exact ⟨q, hq⟩
  · rintro ⟨q, hq⟩
    obtain ⟨v, hv⟩ := hf q.1
    exact ⟨_, bind_eq_ok.mpr ⟨q, hq, bind_eq_ok.mpr ⟨v, hv, rfl⟩⟩⟩

section Refine

variable {C : Codec ε α} {f : α → Except ε β} {g : β → α} (hfg : ∀ v, f (g v) = .ok v)
  (hgf : ∀ a v, f a = .ok v → g v = a)

include hfg hgf

theorem Codec.SelfDelimiting.refine (hC : C.SelfDelimiting) : (C.refine f g).SelfDelimiting where
  decode v b h rest := by
    simp only [Codec.refine, hC.decode _ _ h, hfg, Except.bind]
  encode v b rest h := by
    obtain ⟨p, hp, h⟩ := bind_eq_ok.mp h
    obtain ⟨w, hw, h⟩ := bind_eq_ok.mp h
    cases h
    have he := hC.encode p.1 b p.2 hp
    rwa [← hgf p.1 v hw] at he

theorem Codec.Inverse.refine (hC : C.Inverse) : (C.refine f g).Inverse where
  decode v b h := by
    simp only [Codec.refine, hC.decode _ _ h, hfg, Except.bind]
  encode v b h := by
    obtain ⟨⟨a, r⟩, hp, h⟩ := bind_eq_ok.mp h
    obtain ⟨w, hw, h⟩ := bind_eq_ok.mp h
    cases h
    have he := hC.encode a b hp
    rwa [← hgf a v hw] at he

end Refine

/-! ## Words and byte strings -/

section Words

variable (early notRepresentable formatting : ε)

/-- Two little-endian bytes. -/
def u16 : Codec ε UInt16 where
  fromBytes
    | b₀ :: b₁ :: rest => .ok (.ofNat (b₀.toNat + 256 * b₁.toNat), rest)
    | _ => .error early
  toBytes v := .ok [.ofNat v.toNat, .ofNat (v.toNat / 256)]

theorem u16_selfDelimiting : (u16 early).SelfDelimiting where
  decode v b h rest := by
    cases h
    have hv := v.toNat_lt
    have : UInt16.ofNat ((UInt8.ofNat v.toNat).toNat + 256 * (UInt8.ofNat (v.toNat / 256)).toNat) =
        v := by
      rw [← UInt16.toNat_inj, UInt16.toNat_ofNat', UInt8.toNat_ofNat', UInt8.toNat_ofNat']
      omega
    simp only [u16, List.cons_append, List.nil_append, this]
  encode v b rest h := by
    match b, h with
    | b₀ :: b₁ :: r, h =>
      cases h
      have h₀ := b₀.toNat_lt
      have h₁ := b₁.toNat_lt
      refine ⟨[b₀, b₁], ?_, rfl⟩
      have hn : (UInt16.ofNat (b₀.toNat + 256 * b₁.toNat)).toNat = b₀.toNat + 256 * b₁.toNat := by
        rw [UInt16.toNat_ofNat']
        omega
      have e₀ : UInt8.ofNat (b₀.toNat + 256 * b₁.toNat) = b₀ := by
        rw [← UInt8.toNat_inj, UInt8.toNat_ofNat']
        omega
      have e₁ : UInt8.ofNat ((b₀.toNat + 256 * b₁.toNat) / 256) = b₁ := by
        rw [← UInt8.toNat_inj, UInt8.toNat_ofNat']
        omega
      simp only [u16, hn, e₀, e₁]

theorem u32le_u32Of (b₀ b₁ b₂ b₃ : UInt8) (rest : Bytes) :
    u32le (u32Of (b₀ :: b₁ :: b₂ :: b₃ :: rest)) = [b₀, b₁, b₂, b₃] := by
  have h₀ := b₀.toNat_lt
  have h₁ := b₁.toNat_lt
  have h₂ := b₂.toNat_lt
  have h₃ := b₃.toNat_lt
  simp only [u32Of, u32le]
  congr 1
  · rw [← UInt8.toNat_inj, UInt8.toNat_ofNat']
    omega
  congr 1
  · rw [← UInt8.toNat_inj, UInt8.toNat_ofNat']
    omega
  congr 1
  · rw [← UInt8.toNat_inj, UInt8.toNat_ofNat']
    omega
  congr 1
  rw [← UInt8.toNat_inj, UInt8.toNat_ofNat']
  omega

theorem u32Of_lt (b : Bytes) : u32Of b < 2 ^ 32 := by
  match b with
  | b₀ :: b₁ :: b₂ :: b₃ :: _ =>
    have h₀ := b₀.toNat_lt
    have h₁ := b₁.toNat_lt
    have h₂ := b₂.toNat_lt
    have h₃ := b₃.toNat_lt
    simp only [u32Of]
    omega
  | [] | [_] | [_, _] | [_, _, _] => exact Nat.two_pow_pos 32

/-- Four little-endian bytes for a number below `2 ^ 32`. -/
def u32 : Codec ε ℕ where
  fromBytes
    | b₀ :: b₁ :: b₂ :: b₃ :: rest => .ok (u32Of [b₀, b₁, b₂, b₃], rest)
    | _ => .error early
  toBytes n := if n < 2 ^ 32 then .ok (u32le n) else .error notRepresentable

theorem u32_selfDelimiting : (u32 early notRepresentable).SelfDelimiting where
  decode n b h rest := by
    simp only [u32] at h
    split_ifs at h with hn
    cases h
    have := u32Of_u32le hn []
    rw [List.append_nil, u32le] at this
    simp only [u32, u32le, List.cons_append, List.nil_append, this]
  encode n b rest h := by
    -- fewer than four bytes are no number
    rcases b with _ | ⟨b₀, _ | ⟨b₁, _ | ⟨b₂, _ | ⟨b₃, r⟩⟩⟩⟩
    case cons.cons.cons.cons =>
      cases h
      refine ⟨[b₀, b₁, b₂, b₃], ?_, rfl⟩
      have hlt := u32Of_lt [b₀, b₁, b₂, b₃]
      simp only [u32, if_pos hlt, u32le_u32Of]
    all_goals cases h

/-- A byte string behind its length. -/
def bytes : Codec ε Bytes where
  fromBytes b := ((u32 early notRepresentable).fromBytes b).bind fun p =>
    if p.1 ≤ p.2.length then .ok (p.2.take p.1, p.2.drop p.1) else .error early
  toBytes v := ((u32 early notRepresentable).toBytes v.length).bind fun n => .ok (n ++ v)

theorem bytes_selfDelimiting : (bytes early notRepresentable).SelfDelimiting where
  decode v b h rest := by
    obtain ⟨n, hn, h⟩ := bind_eq_ok.mp h
    cases h
    have hd := (u32_selfDelimiting early notRepresentable).decode _ _ hn (v ++ rest)
    simp [bytes, List.append_assoc, hd, Except.bind]
  encode v b rest h := by
    obtain ⟨p, hp, h⟩ := bind_eq_ok.mp h
    split_ifs at h with hl
    cases h
    obtain ⟨w, hw, rfl⟩ := (u32_selfDelimiting early notRepresentable).encode p.1 b p.2 hp
    refine ⟨w ++ p.2.take p.1, ?_, ?_⟩
    · have : (p.2.take p.1).length = p.1 := by rw [List.length_take]; omega
      simp only [bytes, this, hw, Except.bind]
    · rw [List.append_assoc, List.take_append_drop]

/-- A byte string is read exactly from the inputs that begin with a complete frame. -/
theorem bytes_fromBytes (b : Bytes) :
    (bytes early notRepresentable).fromBytes b =
      if HasFrame b then .ok (frameMessage b, b.drop (4 + u32Of b)) else .error early := by
  rcases b with _ | ⟨b₀, _ | ⟨b₁, _ | ⟨b₂, _ | ⟨b₃, rest⟩⟩⟩⟩
  case cons.cons.cons.cons =>
    have hu : u32Of [b₀, b₁, b₂, b₃] = u32Of (b₀ :: b₁ :: b₂ :: b₃ :: rest) := rfl
    have hf : HasFrame (b₀ :: b₁ :: b₂ :: b₃ :: rest) ↔
        u32Of (b₀ :: b₁ :: b₂ :: b₃ :: rest) ≤ rest.length := by
      simp only [HasFrame, List.length_cons]
      omega
    simp only [bytes, u32, Except.bind, hu, hf, frameMessage, Nat.add_comm 4]
    rfl
  all_goals
    rw [if_neg (by simp [HasFrame])]
    rfl

/-- A marker byte, and the value when there is one. -/
def Codec.option (C : Codec ε α) : Codec ε (Option α) where
  fromBytes
    | [] => .error early
    | tag :: rest =>
      if tag = 0 then .ok (none, rest)
      else if tag = 1 then (C.fromBytes rest).bind fun p => .ok (some p.1, p.2)
      else .error formatting
  toBytes
    | none => .ok [0]
    | some v => (C.toBytes v).bind fun b => .ok (1 :: b)

theorem Codec.SelfDelimiting.option {C : Codec ε α} (hC : C.SelfDelimiting) :
    (C.option early formatting).SelfDelimiting where
  decode v b h rest := by
    cases v with
    | none =>
      cases h
      simp [Codec.option]
    | some v =>
      obtain ⟨w, hw, h⟩ := bind_eq_ok.mp h
      cases h
      simp [Codec.option, hC.decode _ _ hw, Except.bind]
  encode v b rest h := by
    match b, h with
    | tag :: r, h =>
      simp only [Codec.option] at h
      split_ifs at h with h₀ h₁
      · cases h
        exact ⟨[0], rfl, by rw [h₀, List.singleton_append]⟩
      · obtain ⟨p, hp, h⟩ := bind_eq_ok.mp h
        cases h
        obtain ⟨w, hw, rfl⟩ := hC.encode p.1 r p.2 hp
        exact ⟨1 :: w, by simp [Codec.option, hw, Except.bind], by rw [h₁, List.cons_append]⟩

/-- `n` values one after the other. -/
def Codec.times (C : Codec ε α) : ℕ → Bytes → Except ε (List α × Bytes)
  | 0, b => .ok ([], b)
  | n + 1, b =>
    (C.fromBytes b).bind fun p => (C.times n p.2).bind fun q => .ok (p.1 :: q.1, q.2)

/-- The encodings of the values one after the other. -/
def Codec.all (C : Codec ε α) : List α → Except ε Bytes
  | [] => .ok []
  | v :: vs => (C.toBytes v).bind fun b => (C.all vs).bind fun c => .ok (b ++ c)

theorem Codec.SelfDelimiting.times_all {C : Codec ε α} (hC : C.SelfDelimiting) (vs : List α) :
    ∀ b, C.all vs = .ok b → ∀ rest, C.times vs.length (b ++ rest) = .ok (vs, rest) := by
  induction vs with
  | nil =>
    intro b h rest
    cases h
    rfl
  | cons v vs ih =>
    intro b h rest
    obtain ⟨b₁, h₁, h⟩ := bind_eq_ok.mp h
    obtain ⟨b₂, h₂, h⟩ := bind_eq_ok.mp h
    cases h
    simp only [List.length_cons, Codec.times, List.append_assoc, hC.decode _ _ h₁, ih _ h₂,
      Except.bind]

theorem Codec.SelfDelimiting.all_times {C : Codec ε α} (hC : C.SelfDelimiting) (n : ℕ) :
    ∀ b vs rest, C.times n b = .ok (vs, rest) →
      vs.length = n ∧ ∃ w, C.all vs = .ok w ∧ b = w ++ rest := by
  induction n with
  | zero =>
    intro b vs rest h
    cases h
    exact ⟨rfl, [], rfl, rfl⟩
  | succ n ih =>
    intro b vs rest h
    obtain ⟨p, hp, h⟩ := bind_eq_ok.mp h
    obtain ⟨q, hq, h⟩ := bind_eq_ok.mp h
    cases h
    obtain ⟨w₁, hw₁, rfl⟩ := hC.encode p.1 b p.2 hp
    obtain ⟨hl, w₂, hw₂, he⟩ := ih p.2 q.1 q.2 hq
    refine ⟨by rw [List.length_cons, hl], w₁ ++ w₂, ?_, by rw [he, List.append_assoc]⟩
    simp only [Codec.all, hw₁, hw₂, Except.bind]

/-- A list behind its length. -/
def Codec.vec (C : Codec ε α) : Codec ε (List α) where
  fromBytes b := ((u32 early notRepresentable).fromBytes b).bind fun p => C.times p.1 p.2
  toBytes vs := ((u32 early notRepresentable).toBytes vs.length).bind fun n =>
    (C.all vs).bind fun b => .ok (n ++ b)

theorem Codec.SelfDelimiting.vec {C : Codec ε α} (hC : C.SelfDelimiting) :
    (C.vec early notRepresentable).SelfDelimiting where
  decode vs b h rest := by
    obtain ⟨n, hn, h⟩ := bind_eq_ok.mp h
    obtain ⟨c, hc, h⟩ := bind_eq_ok.mp h
    cases h
    simp only [Codec.vec, List.append_assoc,
      (u32_selfDelimiting early notRepresentable).decode _ _ hn, hC.times_all vs _ hc, Except.bind]
  encode vs b rest h := by
    obtain ⟨p, hp, ht⟩ := bind_eq_ok.mp h
    obtain ⟨w, hw, rfl⟩ := (u32_selfDelimiting early notRepresentable).encode p.1 b p.2 hp
    obtain ⟨hl, c, hc, he⟩ := hC.all_times p.1 p.2 vs rest ht
    refine ⟨w ++ c, ?_, by rw [he, List.append_assoc]⟩
    simp only [Codec.vec, hl, hw, hc, Except.bind]

/-- One byte. -/
def u8 : Codec ε UInt8 where
  fromBytes
    | [] => .error early
    | b :: rest => .ok (b, rest)
  toBytes b := .ok [b]

theorem u8_selfDelimiting : (u8 early).SelfDelimiting where
  decode v b h rest := by
    cases h
    rfl
  encode v b rest h := by
    match b, h with
    | b₀ :: r, h =>
      cases h
      exact ⟨[v], rfl, rfl⟩

end Words

/-- All of the input, as a last field. -/
def remaining : Codec ε Bytes := ⟨fun b => .ok (b, []), .ok⟩

theorem remaining_inverse : (remaining : Codec ε Bytes).Inverse where
  decode v b h := by
    cases h
    rfl
  encode v b h := by
    cases h
    rfl

end Wire
