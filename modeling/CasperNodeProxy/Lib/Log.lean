import Mathlib.Data.List.Basic
import Mathlib.Data.List.Infix
import Mathlib.Order.Lattice

/-!
# Numbered logs

A log grows at its end, and its entries are numbered from one.

* `Numbered`: the numbers that the entries carry are their positions.
* `Numbered.filter_le`: what is numbered from `s` on is a suffix.
* `increasing_lt_iff`, `increasing_findIdx`: positions in a log with increasing numbers.
* `window`: the last entries of a log; **`window_append`**: a bounded queue that drops its oldest
  entry holds a window.
-/

namespace Log

variable {α : Type*} (f : α → ℕ)

/-- The entries are numbered 1, 2, 3, … in order. -/
def Numbered (l : List α) : Prop := ∀ k a, l[k]? = some a → f a = k + 1

variable {f} {l : List α}

theorem numbered_nil : Numbered f [] := by
  intro k a h
  simp at h

theorem Numbered.append (h : Numbered f l) {a : α} (ha : f a = l.length + 1) :
    Numbered f (l ++ [a]) := by
  intro k b hb
  rcases Nat.lt_or_ge k l.length with hk | hk
  · rw [List.getElem?_append_left hk] at hb
    exact h k b hb
  · rw [List.getElem?_append_right hk, List.getElem?_singleton] at hb
    split_ifs at hb with h0
    cases hb
    omega

theorem Numbered.initial {l' : List α} (h : Numbered f l) (hp : l' <+: l) : Numbered f l' := by
  obtain ⟨r, rfl⟩ := hp
  intro k a ha
  have hk : k < l'.length := (List.getElem?_eq_some_iff.mp ha).1
  apply h k a
  rw [List.getElem?_append_left hk, ha]

theorem Numbered.take (h : Numbered f l) (n : ℕ) : Numbered f (l.take n) :=
  h.initial (List.take_prefix n l)

theorem Numbered.getElem?_iff (h : Numbered f l) {k : ℕ} {a : α} :
    l[k]? = some a ↔ a ∈ l ∧ f a = k + 1 := by
  constructor
  · intro ha
    exact ⟨List.mem_of_getElem? ha, h k a ha⟩
  · rintro ⟨hmem, hk⟩
    obtain ⟨j, hj⟩ := List.mem_iff_getElem?.mp hmem
    have hjk : j = k := by
      have := h j a hj
      omega
    rw [← hjk, hj]

theorem Numbered.inj (h : Numbered f l) {a b : α} (ha : a ∈ l) (hb : b ∈ l) (hab : f a = f b) :
    a = b := by
  obtain ⟨k, hk⟩ := List.mem_iff_getElem?.mp ha
  have hbk : l[k]? = some b := h.getElem?_iff.mpr ⟨hb, hab ▸ h k a hk⟩
  exact Option.some.inj (hk.symm.trans hbk)

theorem Numbered.le_length (h : Numbered f l) {a : α} (ha : a ∈ l) : f a ≤ l.length := by
  obtain ⟨k, hk⟩ := List.mem_iff_getElem?.mp ha
  have hlt : k < l.length := (List.getElem?_eq_some_iff.mp hk).1
  have := h k a hk
  omega

theorem Numbered.pos (h : Numbered f l) {a : α} (ha : a ∈ l) : 0 < f a := by
  obtain ⟨k, hk⟩ := List.mem_iff_getElem?.mp ha
  rw [h k a hk]
  exact Nat.succ_pos k

theorem Numbered.mem_drop_iff (h : Numbered f l) {n : ℕ} {a : α} :
    a ∈ l.drop n ↔ a ∈ l ∧ n < f a := by
  constructor
  · intro ha
    obtain ⟨k, hk⟩ := List.mem_iff_getElem?.mp ha
    rw [List.getElem?_drop] at hk
    have := h _ a hk
    exact ⟨List.mem_of_mem_drop ha, by omega⟩
  · rintro ⟨hmem, hlt⟩
    have hk : l[f a - 1]? = some a := h.getElem?_iff.mpr ⟨hmem, by omega⟩
    refine List.mem_of_getElem? (i := f a - 1 - n) ?_
    rw [List.getElem?_drop, ← hk]
    congr 1
    omega

theorem Numbered.mem_take_iff (h : Numbered f l) {n : ℕ} {a : α} :
    a ∈ l.take n ↔ a ∈ l ∧ f a ≤ n := by
  constructor
  · intro ha
    refine ⟨List.mem_of_mem_take ha, ((h.take n).le_length ha).trans ?_⟩
    rw [List.length_take]
    exact min_le_left _ _
  · rintro ⟨hmem, hle⟩
    obtain ⟨k, hk⟩ := List.mem_iff_getElem?.mp hmem
    have hlt : k < n := by
      have := h k a hk
      omega
    refine List.mem_of_getElem? (i := k) ?_
    rw [List.getElem?_take_of_lt hlt, hk]

/-- **What is numbered from `s` on** is what remains after the first `s - 1` entries. -/
theorem Numbered.filter_le (h : Numbered f l) (n s : ℕ) :
    (l.drop n).filter (fun a => s ≤ f a) = l.drop (max n (s - 1)) := by
  have hsplit : l.drop n = (l.drop n).take (max n (s - 1) - n) ++ l.drop (max n (s - 1)) := by
    have hdrop : l.drop (max n (s - 1)) = (l.drop n).drop (max n (s - 1) - n) := by
      rw [List.drop_drop]
      congr 1
      omega
    rw [hdrop, List.take_append_drop]
  have hfirst : ∀ a ∈ (l.drop n).take (max n (s - 1) - n), ¬ s ≤ f a := by
    intro a ha
    obtain ⟨i, hi⟩ := List.mem_iff_getElem?.mp ha
    have hlt : i < max n (s - 1) - n := by
      have := (List.getElem?_eq_some_iff.mp hi).1
      rw [List.length_take] at this
      omega
    rw [List.getElem?_take_of_lt hlt, List.getElem?_drop] at hi
    have := h _ a hi
    omega
  have hlast : ∀ a ∈ l.drop (max n (s - 1)), s ≤ f a := by
    intro a ha
    have := (h.mem_drop_iff.mp ha).2
    omega
  rw [hsplit, List.filter_append, List.filter_eq_nil_iff.mpr (by simpa using hfirst),
    List.filter_eq_self.mpr (by simpa using hlast), List.nil_append]

theorem Numbered.getLast?_drop (h : Numbered f l) {n : ℕ} (hn : n < l.length) :
    (l.drop n).getLast?.map f = some l.length := by
  have hlast : l[l.length - 1]? = some (l.get ⟨l.length - 1, by omega⟩) := by
    rw [List.getElem?_eq_getElem (by omega)]
    rfl
  have hf := h _ _ hlast
  rw [List.getLast?_drop, if_neg (by omega), List.getLast?_eq_getElem?, hlast, Option.map_some, hf]
  congr 1
  omega

theorem Numbered.map_eq (h : Numbered f l) : l.map f = List.range' 1 l.length := by
  apply List.ext_getElem
  · rw [List.length_map, List.length_range']
  · intro k h₁ h₂
    rw [List.getElem_map, List.getElem_range']
    rw [List.length_map] at h₁
    have := h k _ (List.getElem?_eq_getElem h₁)
    omega

theorem Numbered.pairwise (h : Numbered f l) : l.Pairwise (fun a b => f a < f b) := by
  rw [List.pairwise_iff_getElem]
  intro i j hi hj hij
  have h1 := h i _ (List.getElem?_eq_getElem hi)
  have h2 := h j _ (List.getElem?_eq_getElem hj)
  omega

theorem prefix_take {l' : List α} (hp : l <+: l') {n : ℕ} (hn : n ≤ l.length) :
    l'.take n = l.take n := by
  obtain ⟨r, rfl⟩ := hp
  rw [List.take_append_of_le_length hn]

theorem prefix_getElem? {l' : List α} (hp : l <+: l') {k : ℕ} {a : α} (h : l[k]? = some a) :
    l'[k]? = some a := by
  obtain ⟨r, rfl⟩ := hp
  rw [List.getElem?_append_left (List.getElem?_eq_some_iff.mp h).1, h]

theorem drop_take_initial (l : List α) (m n : ℕ) : (l.take n).drop m <+: l.drop m := by
  rw [List.drop_take]
  exact List.take_prefix _ _

theorem interval_append (l : List α) {k m n : ℕ} (hkm : k ≤ m) (hmn : m ≤ n) :
    (l.take m).drop k ++ (l.take n).drop m = (l.take n).drop k := by
  have htake : l.take m = (l.take n).take m := by rw [List.take_take, Nat.min_eq_left hmn]
  have hdrop : (l.take n).drop m = ((l.take n).drop k).drop (m - k) := by
    rw [List.drop_drop, Nat.add_sub_cancel' hkm]
  rw [htake, hdrop, List.drop_take, List.take_append_drop]

/-- Consecutive entries of an increasing list have no entry of the list between them. -/
theorem isChain_of_pairwise (h : l.Pairwise (fun a b => f a < f b)) :
    l.IsChain (fun a b => f a < f b ∧ ∀ e ∈ l, ¬ (f a < f e ∧ f e < f b)) := by
  rw [List.isChain_iff_getElem]
  rw [List.pairwise_iff_getElem] at h
  intro i hi
  refine ⟨h i (i + 1) (by omega) hi (by omega), ?_⟩
  rintro e he ⟨h1, h2⟩
  obtain ⟨j, hj, rfl⟩ := List.mem_iff_getElem.mp he
  rcases Nat.lt_trichotomy j i with hji | hji | hji
  · have := h j i hj (by omega) hji
    omega
  · subst hji
    omega
  · rcases Nat.lt_or_ge (i + 1) j with hij | hij
    · have := h (i + 1) j hi hj hij
      omega
    · obtain rfl : j = i + 1 := by omega
      omega

/-! ## Increasing logs -/

section Increasing

variable (h : l.Pairwise (fun a b => f a < f b))
include h

theorem increasing_lt_iff {i j : ℕ} {a b : α} (hi : l[i]? = some a) (hj : l[j]? = some b) :
    f a < f b ↔ i < j := by
  obtain ⟨hil, rfl⟩ := List.getElem?_eq_some_iff.mp hi
  obtain ⟨hjl, rfl⟩ := List.getElem?_eq_some_iff.mp hj
  rw [List.pairwise_iff_getElem] at h
  constructor
  · intro hlt
    by_contra hle
    rcases Nat.eq_or_lt_of_le (Nat.le_of_not_lt hle) with heq | hji
    · subst heq
      exact lt_irrefl _ hlt
    · exact lt_asymm hlt (h j i hjl hil hji)
  · exact h i j hil hjl

theorem increasing_inj {i j : ℕ} {a b : α} (hi : l[i]? = some a) (hj : l[j]? = some b)
    (hab : f a = f b) : i = j := by
  have h1 := (increasing_lt_iff h hi hj).not
  have h2 := (increasing_lt_iff h hj hi).not
  omega

/-- The first entry that is not below an entry of the log is that entry. -/
theorem increasing_findIdx {k : ℕ} {a : α} (hk : l[k]? = some a) :
    l.findIdx (fun b => f a ≤ f b) = k := by
  obtain ⟨hlt, rfl⟩ := List.getElem?_eq_some_iff.mp hk
  rw [List.findIdx_eq hlt]
  refine ⟨by simp, fun j hj => ?_⟩
  have := (increasing_lt_iff h (List.getElem?_eq_getElem (hj.trans hlt)) hk).mpr hj
  simpa using this

end Increasing

/-! ## Windows -/

/-- The last `limit` entries. -/
def window (limit : ℕ) (l : List α) : List α := l.drop (l.length - limit)

@[simp] theorem window_nil (limit : ℕ) : window limit ([] : List α) = [] := by
  simp [window]

theorem length_window (limit : ℕ) (l : List α) : (window limit l).length = min l.length limit := by
  rw [window, List.length_drop]
  omega

/-- **A bounded queue.** Appending an entry and dropping the oldest one when there are more than
`limit` keeps the window. -/
theorem window_append {limit : ℕ} (hl : 0 < limit) (l : List α) (a : α) :
    window limit (l ++ [a]) =
      if limit < (window limit l ++ [a]).length then (window limit l ++ [a]).tail
      else window limit l ++ [a] := by
  have hlen := length_window limit l
  have happ : window limit l ++ [a] = (l ++ [a]).drop (l.length - limit) := by
    rw [window, List.drop_append_of_le_length (by omega)]
  rw [List.length_append, hlen, List.length_singleton, happ]
  unfold window
  rw [List.length_append, List.length_singleton]
  split_ifs with h
  · rw [List.tail_drop]
    congr 1
    omega
  · congr 1
    omega

end Log
