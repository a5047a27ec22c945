import Mathlib.Data.List.Destutter
import Mathlib.Data.List.Nodup
import CasperNodeProxy.Lib.Log

/-!
# Lists with repeats in place

* `Stutters l s`: `s` goes through `l` in order and may repeat an entry before it goes on.
* `Stutters.interval`, `Stutters.pairwise`: parts of `s` go through parts of `l`, in order.
* `stutters_of_chain`: a list that goes on by one entry of a numbered log, or repeats its last.
* `Stutters.mem_iff`, **`Stutters.destutter`**: nothing is lost, and without its repeats `s` is `l`.
-/

namespace Stutter

variable {α : Type*} {l s : List α} {a : α}

/-- `s` is `l` with some of its entries repeated in place; both grow at their end. -/
inductive Stutters : List α → List α → Prop
  | nil : Stutters [] []
  | next {l s : List α} (a : α) (h : Stutters l s) : Stutters (l ++ [a]) (s ++ [a])
  | again {l s : List α} {a : α} (h : Stutters (l ++ [a]) s) : Stutters (l ++ [a]) (s ++ [a])

theorem Stutters.mem_iff (h : Stutters l s) {x : α} : x ∈ s ↔ x ∈ l := by
  induction h with
  | nil => rfl
  | next a h ih => rw [List.mem_append, List.mem_append, ih]
  | again h ih =>
    rw [List.mem_append, ih]
    simp

theorem Stutters.getLast?_eq (h : Stutters l s) : s.getLast? = l.getLast? := by
  cases h with
  | nil => rfl
  | next a h => simp
  | again h => simp

theorem Stutters.eq_nil (h : Stutters [] s) : s = [] :=
  List.eq_nil_iff_forall_not_mem.mpr fun _ hx => List.not_mem_nil (h.mem_iff.mp hx)

/-! ## Parts -/

theorem Stutters.left {s₁ s₂ : List α} (h : Stutters l s) (hs : s = s₁ ++ s₂) :
    ∃ l₁, l₁ <+: l ∧ Stutters l₁ s₁ := by
  induction h generalizing s₂ with
  | nil =>
    obtain ⟨rfl, -⟩ := List.append_eq_nil_iff.mp hs.symm
    exact ⟨[], List.prefix_refl _, .nil⟩
  | @next l s a h ih =>
    rcases List.eq_nil_or_concat s₂ with rfl | ⟨t, b, rfl⟩
    · rw [List.append_nil] at hs
      exact ⟨_, List.prefix_refl _, hs ▸ .next a h⟩
    · rw [List.concat_eq_append, ← List.append_assoc] at hs
      obtain ⟨l₁, hpre, h₁⟩ := ih (List.append_inj_left' hs rfl)
      exact ⟨l₁, hpre.trans (List.prefix_append _ _), h₁⟩
  | @again l s a h ih =>
    rcases List.eq_nil_or_concat s₂ with rfl | ⟨t, b, rfl⟩
    · rw [List.append_nil] at hs
      exact ⟨_, List.prefix_refl _, hs ▸ .again h⟩
    · rw [List.concat_eq_append, ← List.append_assoc] at hs
      exact ih (List.append_inj_left' hs rfl)

theorem Stutters.right {s₁ s₂ : List α} (h : Stutters l s) (hs : s = s₁ ++ s₂) :
    ∃ l₂, l₂ <:+ l ∧ Stutters l₂ s₂ := by
  induction h generalizing s₂ with
  | nil =>
    obtain ⟨-, rfl⟩ := List.append_eq_nil_iff.mp hs.symm
    exact ⟨[], List.suffix_refl _, .nil⟩
  | @next l s a h ih =>
    rcases List.eq_nil_or_concat s₂ with rfl | ⟨t, b, rfl⟩
    · exact ⟨[], List.nil_suffix, .nil⟩
    · rw [List.concat_eq_append, ← List.append_assoc] at hs
      obtain ⟨hs, hb⟩ := List.append_inj' hs rfl
      obtain ⟨l₂, ⟨r, hr⟩, h₂⟩ := ih hs
      rw [List.concat_eq_append, ← hb]
      exact ⟨l₂ ++ [a], ⟨r, by rw [← List.append_assoc, hr]⟩, .next a h₂⟩
  | @again l s a h ih =>
    rcases List.eq_nil_or_concat s₂ with rfl | ⟨t, b, rfl⟩
    · exact ⟨[], List.nil_suffix, .nil⟩
    · rw [List.concat_eq_append, ← List.append_assoc] at hs
      obtain ⟨hs, hb⟩ := List.append_inj' hs rfl
      obtain ⟨l₂, hsuf, h₂⟩ := ih hs
      rw [List.concat_eq_append, ← hb]
      rcases List.eq_nil_or_concat l₂ with rfl | ⟨l', c, rfl⟩
      · -- the repeated entry is all that there is
        obtain rfl := h₂.eq_nil
        exact ⟨[a], List.suffix_append _ _, .next a .nil⟩
      · rw [List.concat_eq_append] at hsuf h₂
        obtain ⟨r, hr⟩ := hsuf
        rw [← List.append_assoc] at hr
        obtain rfl : c = a := by simpa using (List.append_inj' hr rfl).2
        exact ⟨l' ++ [c], ⟨r, by rw [← List.append_assoc, hr]⟩, .again h₂⟩

/-- **A part goes through a part.** -/
theorem Stutters.interval {t : List α} (h : Stutters l s) (ht : t <:+: s) :
    ∃ l', l' <:+: l ∧ Stutters l' t := by
  obtain ⟨s₁, s₂, hs⟩ := ht
  obtain ⟨l₁, hpre, h₁⟩ := h.left hs.symm
  obtain ⟨l₂, hsuf, h₂⟩ := h₁.right rfl
  exact ⟨l₂, hsuf.isInfix.trans hpre.isInfix, h₂⟩

theorem Stutters.pairwise {R : α → α → Prop} (h : Stutters l s) (hl : l.Pairwise R) :
    s.Pairwise fun a b => R a b ∨ a = b := by
  induction h with
  | nil => exact .nil
  | @next l s a h ih =>
    obtain ⟨hinit, -, hlast⟩ := List.pairwise_append.mp hl
    refine List.pairwise_append.mpr ⟨ih hinit, List.pairwise_singleton _ _, fun b hb c hc => ?_⟩
    exact .inl (hlast b (h.mem_iff.mp hb) c hc)
  | @again l s a h ih =>
    refine List.pairwise_append.mpr ⟨ih hl, List.pairwise_singleton _ _, fun b hb c hc => ?_⟩
    obtain rfl := List.mem_singleton.mp hc
    rcases List.mem_append.mp (h.mem_iff.mp hb) with hb | hb
    · exact .inl ((List.pairwise_append.mp hl).2.2 b hb c hc)
    · exact .inr (List.mem_singleton.mp hb)

theorem Stutters.map {β : Type*} (f : α → β) (h : Stutters l s) :
    Stutters (l.map f) (s.map f) := by
  induction h with
  | nil => exact .nil
  | @next l s a h ih =>
    rw [List.map_append, List.map_append]
    exact .next (f a) ih
  | @again l s a h ih =>
    rw [List.map_append] at ih
    rw [List.map_append, List.map_append]
    exact .again ih

/-! ## Through a numbered log -/

/-- A list of entries of a log of which each is the one behind the last, or the last again, goes
through an interval of the log. -/
theorem stutters_of_chain {f : α → ℕ} {log : List α} (hn : Log.Numbered f log)
    (hmem : ∀ x ∈ s, x ∈ log) (hc : s.IsChain fun x y => f y = f x + 1 ∨ x = y) :
    ∃ l, l <:+: log ∧ Stutters l s := by
  suffices hpart : s = [] ∨ ∃ i b, s.getLast? = some b ∧ i < f b ∧
      Stutters ((log.take (f b)).drop i) s by
    rcases hpart with rfl | ⟨i, b, -, -, hst⟩
    · exact ⟨[], List.nil_infix, .nil⟩
    · exact ⟨_, (List.drop_suffix _ _).isInfix.trans (List.take_prefix _ _).isInfix, hst⟩
  induction s using List.reverseRecOn with
  | nil => exact .inl rfl
  | append_singleton s a ih =>
    have ha : a ∈ log := hmem a (by simp)
    obtain ⟨k, hk⟩ := List.mem_iff_getElem?.mp ha
    have hfa : f a = k + 1 := hn k a hk
    have htake : log.take (f a) = log.take k ++ [a] := by
      rw [hfa, List.take_add_one, hk]
      rfl
    have hlen : k < log.length := (List.getElem?_eq_some_iff.mp hk).1
    right
    rcases ih (fun x hx => hmem x (by simp [hx])) hc.left_of_append with rfl | ⟨i, b, hb, hi, hst⟩
    · refine ⟨k, a, by simp, by omega, ?_⟩
      rw [htake, List.drop_left' (List.length_take_of_le hlen.le)]
      exact .next a .nil
    · refine ⟨i, a, by simp, ?_, ?_⟩
      all_goals rcases (List.isChain_append.mp hc).2.2 b hb a rfl with hnext | rfl
      · omega
      · exact hi
      · have hbk : f b = k := by omega
        rw [hbk] at hi hst
        rw [htake, List.drop_append_of_le_length (by rw [List.length_take]; omega)]
        exact .next a hst
      · rw [htake, List.drop_append_of_le_length (by rw [List.length_take]; omega)] at hst ⊢
        exact .again hst

/-! ## Without the repeats -/

section Destutter

variable [DecidableEq α]

theorem destutter'_concat (b : α) (s : List α) (a : α) :
    (s ++ [a]).destutter' (· ≠ ·) b =
      if (b :: s).getLast? = some a then s.destutter' (· ≠ ·) b
      else s.destutter' (· ≠ ·) b ++ [a] := by
  induction s generalizing b with
  | nil =>
    by_cases h : b = a
    · simp [h]
    · simp [h]
  | cons c s ih =>
    rw [List.getLast?_cons_cons]
    by_cases h : b = c
    · subst h
      simpa [List.destutter'_cons] using ih b
    · rw [List.cons_append, List.destutter'_cons_pos _ h, List.destutter'_cons_pos _ h, ih c]
      split_ifs <;> rfl

theorem destutter_concat (s : List α) (a : α) :
    (s ++ [a]).destutter (· ≠ ·) =
      if s.getLast? = some a then s.destutter (· ≠ ·) else s.destutter (· ≠ ·) ++ [a] := by
  cases s with
  | nil => rfl
  | cons b s => exact destutter'_concat b s a

/-- **Without its repeats** the list is the one that it goes through. -/
theorem Stutters.destutter (h : Stutters l s) (hl : l.Nodup) : s.destutter (· ≠ ·) = l := by
  induction h with
  | nil => rfl
  | @next l s a h ih =>
    have hnew : s.getLast? ≠ some a := by
      intro hlast
      have hmem : a ∈ l := h.mem_iff.mp (List.mem_of_getLast? hlast)
      exact (List.nodup_append.mp hl).2.2 a hmem a (List.mem_singleton.mpr rfl) rfl
    rw [destutter_concat, if_neg hnew, ih (List.nodup_append.mp hl).1]
  | @again l s a h ih =>
    have hsame : s.getLast? = some a := by
      rw [h.getLast?_eq]
      simp
    rw [destutter_concat, if_pos hsame, ih hl]

end Destutter

end Stutter
