import Mathlib.Algebra.GroupWithZero.Nat
import Mathlib.Algebra.Order.Group.Nat
import Mathlib.Algebra.Order.Ring.Nat
import Mathlib.Data.List.Induction
import Mathlib.Data.List.Range
import Mathlib.Tactic.SplitIfs

/-!
# The generic cell rate algorithm

A quota gives one cell back every `period`, and holds at most `burst` of them. The state is the
theoretical arrival time `tat` of the next cell; an arrival may come before it by what the burst
allows.

* `earliest`, `arrive`, `after`, `admitted`: the algorithm, over arbitrary sequences of arrivals.
* **`count_admitted_le`**: how many arrivals are admitted in an interval of time.
* `steady`, `admitted_steady`: a sequence that takes every cell, so that the bound is attained.
* `wait`, **`wait_dvd_iff`**: when a wait that is rounded down is long enough.
-/

namespace Gcra

/-- A cell is replenished every `period`, and `burst` of them can be taken at once. -/
structure Quota where
  period : ℕ
  burst : ℕ

variable (q : Quota)

/-- From when on an arrival is admitted. -/
def earliest (tat : ℕ) : ℕ := tat - (q.burst - 1) * q.period

/-- The state after an arrival at time `t`; one that is rejected changes nothing. -/
def arrive (tat t : ℕ) : ℕ := if earliest q tat ≤ t then max tat t + q.period else tat

/-- The state after a sequence of arrivals. -/
def after (tat : ℕ) (times : List ℕ) : ℕ := times.foldl (arrive q) tat

/-- The arrivals that are admitted, in order. -/
def admitted : ℕ → List ℕ → List ℕ
  | _, [] => []
  | tat, t :: times =>
    (if earliest q tat ≤ t then [t] else []) ++ admitted (arrive q tat t) times

/-- How long it takes from `now` on until an arrival is admitted. -/
def wait (tat now : ℕ) : ℕ := earliest q tat - now

theorem after_append (tat : ℕ) (l₁ l₂ : List ℕ) :
    after q tat (l₁ ++ l₂) = after q (after q tat l₁) l₂ := List.foldl_append

theorem admitted_append (tat : ℕ) (l₁ l₂ : List ℕ) :
    admitted q tat (l₁ ++ l₂) = admitted q tat l₁ ++ admitted q (after q tat l₁) l₂ := by
  induction l₁ generalizing tat with
  | nil => rfl
  | cons t l₁ ih =>
    simp only [List.cons_append, admitted, ih, List.append_assoc]
    rfl

theorem after_snoc (tat : ℕ) (l : List ℕ) (t : ℕ) :
    after q tat (l ++ [t]) = arrive q (after q tat l) t := after_append q tat l [t]

theorem admitted_snoc (tat : ℕ) (l : List ℕ) (t : ℕ) :
    admitted q tat (l ++ [t]) =
      admitted q tat l ++ if earliest q (after q tat l) ≤ t then [t] else [] := by
  rw [admitted_append, admitted, admitted, List.append_nil]

/-! ## At most -/

/-- The arrivals between `a` and `a + d`. -/
def within (a d : ℕ) (times : List ℕ) : List ℕ := times.filter fun t => a ≤ t ∧ t ≤ a + d

variable {q}

theorem le_arrive (tat t : ℕ) : tat ≤ arrive q tat t := by
  unfold arrive
  split_ifs
  · omega
  · exact le_rfl

theorem succ_le_of_earliest {a d n tat t : ℕ} (hp : 0 < q.period) (hb : 0 < q.burst)
    (hn : a + n * q.period ≤ tat ∨ n = 0) (ht : earliest q tat ≤ t) (htd : t ≤ a + d) :
    n + 1 ≤ q.burst + d / q.period := by
  rcases hn with hn | rfl
  · by_contra hlt
    have hle : q.burst - 1 + (d / q.period + 1) ≤ n := by omega
    have hmul := Nat.mul_le_mul_right q.period hle
    rw [Nat.add_mul] at hmul
    have hdiv : d < (d / q.period + 1) * q.period := by
      rw [Nat.mul_comm]
      exact Nat.lt_mul_div_succ d hp
    unfold earliest at ht
    omega
  · have := Nat.zero_le (d / q.period)
    omega

/-- The induction over the arrivals; `n` counts those before, from which `tat` has moved on. -/
theorem count_admitted_aux {a d : ℕ} (hp : 0 < q.period) (hb : 0 < q.burst) (times : List ℕ)
    {n tat : ℕ} (hn : a + n * q.period ≤ tat ∨ n = 0) (hle : n ≤ q.burst + d / q.period) :
    n + (within a d (admitted q tat times)).length ≤ q.burst + d / q.period := by
  induction times generalizing n tat with
  | nil => simpa [admitted, within] using hle
  | cons t times ih =>
    have hmono := le_arrive (q := q) tat t
    have hskip : a + n * q.period ≤ arrive q tat t ∨ n = 0 := hn.imp_left (·.trans hmono)
    by_cases ht : earliest q tat ≤ t
    · by_cases hw : a ≤ t ∧ t ≤ a + d
      · have hsucc := succ_le_of_earliest hp hb hn ht hw.2
        have hstate : a + (n + 1) * q.period ≤ arrive q tat t := by
          rw [arrive, if_pos ht, Nat.add_mul, Nat.one_mul]
          rcases hn with hn | rfl <;> omega
        have := ih (.inl hstate) hsucc
        simp only [admitted, if_pos ht, within, List.singleton_append, List.filter_cons,
          decide_eq_true_eq, if_pos hw, List.length_cons] at this ⊢
        omega
      · have := ih hskip hle
        simpa only [admitted, if_pos ht, within, List.singleton_append, List.filter_cons,
          decide_eq_true_eq, if_neg hw] using this
    · have := ih hskip hle
      simpa only [admitted, if_neg ht, List.nil_append] using this

/-- **The bound.** Whatever came before, and in whatever order the arrivals come. -/
theorem count_admitted_le (hp : 0 < q.period) (hb : 0 < q.burst) (tat a d : ℕ) (times : List ℕ) :
    (within a d (admitted q tat times)).length ≤ q.burst + d / q.period := by
  have hn : a + 0 * q.period ≤ tat ∨ 0 = 0 := .inr rfl
  have := count_admitted_aux (d := d) hp hb times hn (Nat.zero_le _)
  omega

/-! ## At least -/

variable (q)

/-- A burst at time 0, and then one arrival for each cell that is given back. -/
def steady (n : ℕ) : List ℕ := (List.range n).map fun i => (i + 1 - q.burst) * q.period

theorem steady_succ (n : ℕ) : steady q (n + 1) = steady q n ++ [(n + 1 - q.burst) * q.period] := by
  rw [steady, List.range_succ, List.map_append]
  rfl

variable {q}

theorem earliest_steady (n : ℕ) : earliest q (n * q.period) ≤ (n + 1 - q.burst) * q.period := by
  rw [earliest, ← Nat.sub_mul]
  exact Nat.mul_le_mul_right _ (by omega)

/-- **Every arrival is admitted.** -/
theorem admitted_steady (hb : 0 < q.burst) (n : ℕ) :
    after q 0 (steady q n) = n * q.period ∧ admitted q 0 (steady q n) = steady q n := by
  induction n with
  | zero =>
    rw [Nat.zero_mul]
    exact ⟨rfl, rfl⟩
  | succ n ih =>
    obtain ⟨hafter, hadm⟩ := ih
    have hle := earliest_steady (q := q) n
    have hmax : (n + 1 - q.burst) * q.period ≤ n * q.period :=
      Nat.mul_le_mul_right _ (by omega)
    rw [steady_succ, after_snoc, admitted_snoc, hafter, hadm, if_pos hle, arrive, if_pos hle,
      max_eq_left hmax, Nat.add_mul, Nat.one_mul]
    exact ⟨rfl, rfl⟩

theorem steady_sorted (n : ℕ) : (steady q n).Pairwise (· ≤ ·) := by
  rw [steady, List.pairwise_map]
  refine List.pairwise_lt_range.imp fun {i j} hij => ?_
  exact Nat.mul_le_mul_right _ (by omega)

theorem within_steady (d : ℕ) :
    within 0 d (steady q (q.burst + d / q.period)) = steady q (q.burst + d / q.period) := by
  refine List.filter_eq_self.mpr fun t ht => ?_
  obtain ⟨i, hi, rfl⟩ := List.mem_map.mp ht
  have hi' := List.mem_range.mp hi
  have hle : (i + 1 - q.burst) * q.period ≤ d / q.period * q.period :=
    Nat.mul_le_mul_right _ (Nat.sub_le_iff_le_add'.mpr hi')
  have := Nat.div_mul_le_self d q.period
  simp only [decide_eq_true_eq]
  omega

theorem length_steady (n : ℕ) : (steady q n).length = n := by
  rw [steady, List.length_map, List.length_range]

/-! ## Waiting -/

/-- **A wait in whole units.** Every arrival behind it is admitted exactly if nothing was lost by
rounding it down. -/
theorem wait_dvd_iff {tat now u : ℕ} :
    (∀ t, now + wait q tat now / u * u ≤ t → earliest q tat ≤ t) ↔ u ∣ wait q tat now := by
  constructor
  · intro h
    have hle := h _ le_rfl
    have hfloor := Nat.div_mul_le_self (wait q tat now) u
    refine Nat.dvd_of_mod_eq_zero ?_
    have hsum := Nat.div_add_mod' (wait q tat now) u
    unfold wait at hle hfloor hsum ⊢
    omega
  · intro h t ht
    rw [Nat.div_mul_cancel h] at ht
    unfold wait at ht
    omega

end Gcra
