import Mathlib.Logic.Basic
import Mathlib.Data.List.Basic
import Mathlib.Data.List.Induction

/-!
# Runs of a partial step function

A system is a partial function `step : σ → α → Option σ`; `none` means that the action is not
possible in that state.

* `exec`, `Reaches`: the state after a list of actions, and reachability.
* **`Reaches.invariant`**: the induction over runs, done once; `exec_history`: the same for a
  property of a state and the run that led to it.
* **`exec_variant`**: a quantity that a step makes smaller says how often the step is repeated.
* `outputs`, `Passes`: what the steps of a run put out, and which states it goes through.
* `Always`, `Meets`: a property of every state, and a condition on every step, of one run;
  `always_of_meets` and **`always_iff_meets`** derive the first from the second, and
  **`always_and_meets_iff`** does so for a property that speaks of states and of steps.
-/

namespace Run

variable {σ α β : Type*} (step : σ → α → Option σ)

/-- The state after the actions `acts`, when each of them is possible in turn. -/
def exec : σ → List α → Option σ
  | s, [] => some s
  | s, a :: acts => (step s a).bind fun s' => exec s' acts

/-- Some run leads from `s` to `t`. -/
def Reaches (s t : σ) : Prop := ∃ acts, exec step s acts = some t

variable {step}

theorem exec_cons_eq_some {s t : σ} {a : α} {acts : List α} :
    exec step s (a :: acts) = some t ↔ ∃ u, step s a = some u ∧ exec step u acts = some t := by
  simp [exec, Option.bind_eq_some_iff]

theorem Reaches.refl (s : σ) : Reaches step s s := ⟨[], rfl⟩

/-- **Invariants.** What holds at the start and is kept by every step holds in every reachable
state. -/
theorem Reaches.invariant {I : σ → Prop} {s t : σ} (h : Reaches step s t) (h₀ : I s)
    (hstep : ∀ u a v, I u → step u a = some v → I v) : I t := by
  obtain ⟨acts, ha⟩ := h
  induction acts generalizing s with
  | nil => cases ha; exact h₀
  | cons a acts ih =>
    obtain ⟨u, hu, hrest⟩ := exec_cons_eq_some.mp ha
    exact ih (hstep s a u h₀ hu) hrest

/-- What was seen of a part of the last state of a run. -/
theorem exec_observed {γ : Type*} {f : σ → Option β} {g : σ → β → γ} {s : σ} {acts : List α} {x : γ}
    (h : (exec step s acts).bind (fun t => (f t).map (g t)) = some x) :
    ∃ t u, exec step s acts = some t ∧ f t = some u ∧ g t u = x := by
  obtain ⟨t, ht, hu⟩ := Option.bind_eq_some_iff.mp h
  obtain ⟨u, hu, hx⟩ := Option.map_eq_some_iff.mp hu
  exact ⟨t, u, ht, hu, hx⟩

/-! ## Histories -/

theorem exec_append_eq_some {s t : σ} {acts acts' : List α} :
    exec step s (acts ++ acts') = some t ↔
      ∃ u, exec step s acts = some u ∧ exec step u acts' = some t := by
  induction acts generalizing s with
  | nil => simp [exec]
  | cons a acts ih =>
    simp only [List.cons_append, exec, Option.bind_eq_some_iff, ih]
    constructor
    · rintro ⟨v, hv, u, hu, ht⟩
      exact ⟨u, ⟨v, hv, hu⟩, ht⟩
    · rintro ⟨u, ⟨v, hv, hu⟩, ht⟩
      exact ⟨v, hv, u, hu, ht⟩

theorem exec_snoc_eq_some {s t : σ} {a : α} {acts : List α} :
    exec step s (acts ++ [a]) = some t ↔ ∃ u, exec step s acts = some u ∧ step u a = some t := by
  simp [exec_append_eq_some, exec]

/-- **Invariants of histories.** `I` may speak about the whole run that led to a state. -/
theorem exec_history {I : List α → σ → Prop} {s : σ} (h₀ : I [] s)
    (hstep : ∀ acts u a v, exec step s acts = some u → I acts u → step u a = some v →
      I (acts ++ [a]) v) {acts : List α} {t : σ} (h : exec step s acts = some t) : I acts t := by
  induction acts using List.reverseRecOn generalizing t with
  | nil => cases h; exact h₀
  | append_singleton acts a ih =>
    obtain ⟨u, hu, hs⟩ := exec_snoc_eq_some.mp h
    exact hstep acts u a t hu (ih hu) hs

variable (step)

/-- What the steps of a run put out, in order; `out` says it of one step. -/
def outputs (out : σ → α → List β) : σ → List α → List β
  | _, [] => []
  | s, a :: acts =>
    match step s a with
    | some s' => out s a ++ outputs out s' acts
    | none => []

/-- The run of `acts` from `s` goes through a state with the property `Q`. -/
def Passes (Q : σ → Prop) : σ → List α → Prop
  | s, [] => Q s
  | s, a :: acts => Q s ∨ ∃ s', step s a = some s' ∧ Passes Q s' acts

variable {step}

theorem outputs_snoc {out : σ → α → List β} {s u v : σ} {a : α} {acts : List α}
    (hu : exec step s acts = some u) (hv : step u a = some v) :
    outputs step out s (acts ++ [a]) = outputs step out s acts ++ out u a := by
  induction acts generalizing s with
  | nil =>
    cases hu
    simp [outputs, hv]
  | cons b acts ih =>
    obtain ⟨w, hw, hrest⟩ := exec_cons_eq_some.mp hu
    simp only [List.cons_append, outputs, hw, ih hrest, List.append_assoc]

theorem passes_snoc {Q : σ → Prop} {s u v : σ} {a : α} {acts : List α}
    (hu : exec step s acts = some u) (hv : step u a = some v) :
    Passes step Q s (acts ++ [a]) ↔ Passes step Q s acts ∨ Q v := by
  induction acts generalizing s with
  | nil =>
    cases hu
    simp [Passes, hv]
  | cons b acts ih =>
    obtain ⟨w, hw, hrest⟩ := exec_cons_eq_some.mp hu
    simp only [List.cons_append, Passes, hw, Option.some.injEq, exists_eq_left', ih hrest, or_assoc]

theorem Reaches.snoc {s u t : σ} {a : α} (h : Reaches step s u) (ht : step u a = some t) :
    Reaches step s t := by
  obtain ⟨acts, hacts⟩ := h
  exact ⟨acts ++ [a], exec_snoc_eq_some.mpr ⟨u, hacts, ht⟩⟩

theorem Reaches.trans {s u t : σ} (h : Reaches step s u) (h' : Reaches step u t) :
    Reaches step s t := by
  obtain ⟨acts, hacts⟩ := h
  obtain ⟨acts', hacts'⟩ := h'
  exact ⟨acts ++ acts', exec_append_eq_some.mpr ⟨u, hacts, hacts'⟩⟩

/-- **Variants.** When a step is possible and makes `μ` smaller as long as `D` does not hold, then
`D` holds after at most so many steps. -/
theorem exec_variant {I D : σ → Prop} {μ : σ → ℕ} {a : α}
    (hstep : ∀ s, I s → D s ∨ ∃ s', step s a = some s' ∧ I s' ∧ μ s' < μ s) {s : σ} (hs : I s) :
    ∃ n t, n ≤ μ s ∧ exec step s (List.replicate n a) = some t ∧ I t ∧ D t := by
  induction hμ : μ s using Nat.strongRecOn generalizing s with
  | _ m ih =>
    rcases hstep s hs with hd | ⟨s', hs', hi, hlt⟩
    · exact ⟨0, s, Nat.zero_le m, rfl, hs, hd⟩
    · obtain ⟨n, t, hn, ht, hit, hdt⟩ := ih (μ s') (hμ ▸ hlt) hi rfl
      refine ⟨n + 1, t, by omega, ?_, hit, hdt⟩
      rw [List.replicate_succ, exec, hs']
      exact ht

/-! ## Properties of one run -/

variable (step)

/-- `Q` holds in every state that the run of `acts` from `s` goes through. -/
def Always (Q : σ → Prop) : σ → List α → Prop
  | s, [] => Q s
  | s, a :: acts => Q s ∧ ∀ s', step s a = some s' → Always Q s' acts

/-- Every step of the run of `acts` from `s` meets `C`, a condition on the state before the step
and its action. -/
def Meets (C : σ → α → Prop) : σ → List α → Prop
  | _, [] => True
  | s, a :: acts => C s a ∧ ∀ s', step s a = some s' → Meets C s' acts

/-- Whether the steps of a run meet a condition that can be decided is found by running it. -/
instance decidableMeets (C : σ → α → Prop) [∀ s a, Decidable (C s a)] :
    ∀ (s : σ) (acts : List α), Decidable (Meets step C s acts)
  | _, [] => .isTrue trivial
  | s, a :: acts =>
    match h : step s a with
    | none => decidable_of_iff (C s a) (by simp [Meets, h])
    | some s' =>
      have := decidableMeets C s' acts
      decidable_of_iff (C s a ∧ Meets step C s' acts) (by simp [Meets, h])

variable {step}

theorem Always.head {Q : σ → Prop} {s : σ} {acts : List α} (h : Always step Q s acts) : Q s := by
  cases acts with
  | nil => exact h
  | cons a acts => exact h.1

theorem Always.last {Q : σ → Prop} {s t : σ} {acts : List α} (h : Always step Q s acts)
    (ht : exec step s acts = some t) : Q t := by
  induction acts generalizing s with
  | nil => cases ht; exact h
  | cons a acts ih =>
    obtain ⟨u, hu, hrest⟩ := exec_cons_eq_some.mp ht
    exact ih (h.2 u hu) hrest

/-- An invariant of the steps that meet `C` holds along every run whose steps all do. -/
theorem always_of_meets {I : σ → Prop} {C : σ → α → Prop}
    (hstep : ∀ u a v, I u → C u a → step u a = some v → I v) {s : σ} {acts : List α} (h₀ : I s)
    (h : Meets step C s acts) : Always step I s acts := by
  induction acts generalizing s with
  | nil => exact h₀
  | cons a acts ih => exact ⟨h₀, fun s' hs => ih (hstep s a s' h₀ h.1 hs) (h.2 s' hs)⟩

/-- An invariant of the steps that lead into `Q` holds along every run that stays in `Q`. -/
theorem Always.invariant {I Q : σ → Prop}
    (hstep : ∀ u a v, I u → Q v → step u a = some v → I v) {s : σ} {acts : List α} (h₀ : I s)
    (h : Always step Q s acts) : Always step I s acts := by
  induction acts generalizing s with
  | nil => exact h₀
  | cons a acts ih =>
    refine ⟨h₀, fun s' hs => ?_⟩
    have hq : Q s' := (h.2 s' hs).head
    exact ih (hstep s a s' h₀ hq hs) (h.2 s' hs)

/-- **An exact condition.** When, from a state with the invariant `I` and the property `Q`, a step
keeps `Q` if and only if it meets `C`, a run stays in `Q` if and only if all its steps meet `C`. -/
theorem always_iff_meets {I Q : σ → Prop} {C : σ → α → Prop}
    (hI : ∀ u a v, I u → step u a = some v → I v)
    (hQ : ∀ u a v, I u → Q u → step u a = some v → (Q v ↔ C u a)) {s t : σ} {acts : List α}
    (hs : I s) (h₀ : Q s) (ht : exec step s acts = some t) :
    Always step Q s acts ↔ Meets step C s acts := by
  induction acts generalizing s with
  | nil => exact iff_of_true h₀ trivial
  | cons a acts ih =>
    obtain ⟨u, hu, hrest⟩ := exec_cons_eq_some.mp ht
    have hsucc : ∀ s', step s a = some s' → s' = u := fun s' h => Option.some.inj (h.symm.trans hu)
    constructor
    · intro h
      have hqu : Q u := (h.2 u hu).head
      refine ⟨(hQ s a u hs h₀ hu).mp hqu, fun s' h' => ?_⟩
      rw [hsucc s' h']
      exact (ih (hI s a u hs hu) hqu hrest).mp (h.2 u hu)
    · intro h
      have hqu : Q u := (hQ s a u hs h₀ hu).mpr h.1
      refine ⟨h₀, fun s' h' => ?_⟩
      rw [hsucc s' h']
      exact (ih (hI s a u hs hu) hqu hrest).mpr (h.2 u hu)

/-- **An exact condition for states and steps.** From a state with the invariant `I`, a step meets
`C` if and only if it meets `P` and leads into `Q`; then it also keeps `I`. -/
theorem always_and_meets_iff {I Q : σ → Prop} {P C : σ → α → Prop}
    (hC : ∀ u a v, I u → step u a = some v → C u a → I v ∧ Q v ∧ P u a)
    (hP : ∀ u a v, I u → step u a = some v → Q v → P u a → C u a) {s t : σ} {acts : List α}
    (hs : I s) (h₀ : Q s) (ht : exec step s acts = some t) :
    (Always step Q s acts ∧ Meets step P s acts) ↔ Meets step C s acts := by
  induction acts generalizing s with
  | nil => exact iff_of_true ⟨h₀, trivial⟩ trivial
  | cons a acts ih =>
    obtain ⟨u, hu, hrest⟩ := exec_cons_eq_some.mp ht
    have hsucc : ∀ s', step s a = some s' → s' = u := fun s' h => Option.some.inj (h.symm.trans hu)
    constructor
    · rintro ⟨hq, hp⟩
      have hqu : Q u := (hq.2 u hu).head
      have hc : C s a := hP s a u hs hu hqu hp.1
      refine ⟨hc, fun s' h' => ?_⟩
      rw [hsucc s' h']
      exact (ih (hC s a u hs hu hc).1 hqu hrest).mp ⟨hq.2 u hu, hp.2 u hu⟩
    · intro h
      obtain ⟨hiu, hqu, hp⟩ := hC s a u hs hu h.1
      obtain ⟨hq', hp'⟩ := (ih hiu hqu hrest).mpr (h.2 u hu)
      refine ⟨⟨h₀, fun s' h' => ?_⟩, hp, fun s' h' => ?_⟩
      · rw [hsucc s' h']
        exact hq'
      · rw [hsucc s' h']
        exact hp'

theorem meets_of_invariant {I : σ → Prop} {C : σ → α → Prop}
    (hI : ∀ u a v, I u → step u a = some v → I v)
    (hC : ∀ u a v, I u → step u a = some v → C u a) {s t : σ} {acts : List α} (hs : I s)
    (ht : exec step s acts = some t) : Meets step C s acts := by
  induction acts generalizing s with
  | nil => trivial
  | cons a acts ih =>
    obtain ⟨u, hu, hrest⟩ := exec_cons_eq_some.mp ht
    refine ⟨hC s a u hs hu, fun s' h' => ?_⟩
    obtain rfl : s' = u := Option.some.inj (h'.symm.trans hu)
    exact ih (hI s a s' hs hu) hrest

end Run
