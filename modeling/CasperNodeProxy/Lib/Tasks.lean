import Mathlib.Algebra.GroupWithZero.Nat
import Mathlib.Algebra.Order.BigOperators.Group.List
import Mathlib.Algebra.Order.Group.Nat
import CasperNodeProxy.Lib.Run

/-!
# Interleaved tasks over a shared state

A `Program` says what one task, the environment and a newcomer may do; `Program.step` interleaves
any number of tasks, one atomic step at a time, in any order.

* `step_task`, `step_env`, `step_spawn`: what the three kinds of steps do; `exec_solo`: a task that
  runs on its own.
* `countP_set_add`, `filterMap_set`, `countP_nodup_le`: how many tasks are so, and which.
* **`conserved`**: a quantity that each local step moves between the shared state and its own task
  is constant; **`Reaches.bounded`**: one that grows with an allowance stays within it.
* **`OwnedInvariant.reaches`**: an invariant of the shared state and one of each task, when the
  steps of one task do not disturb the invariants of the others; **`OwnedInvariant.sum`**: a
  quantity that is the sum of the parts of the tasks.
* **`TaskInvariant.reaches`**: an invariant of each task on its own; **`TaskInvariant.ledger`**: a
  shared list holds what the tasks have entered into it.
-/

namespace Tasks

/-- A shared state and the tasks that run over it. -/
structure Conf (σ τ : Type*) where
  shared : σ
  tasks : List τ

/-- A step of task `i`, of the environment, or the arrival of a task. -/
inductive Act (α ε ι : Type*)
  | task (i : ℕ) (a : α)
  | env (e : ε)
  | spawn (x : ι)

/-- The atomic steps of one task (which is told its own number), of the environment, and the
state in which a new task begins. -/
structure Program (σ τ α ε ι : Type*) where
  task : ℕ → σ → τ → α → Option (σ × τ)
  env : σ → ε → Option σ
  spawn : ι → τ

variable {σ τ α ε ι : Type*} (P : Program σ τ α ε ι)

/-- One step of the interleaving. -/
def Program.step (c : Conf σ τ) : Act α ε ι → Option (Conf σ τ)
  | .task i a =>
    (c.tasks[i]?).bind fun t => (P.task i c.shared t a).map fun r => ⟨r.1, c.tasks.set i r.2⟩
  | .env e => (P.env c.shared e).map fun s => ⟨s, c.tasks⟩
  | .spawn x => some ⟨c.shared, c.tasks ++ [P.spawn x]⟩

variable {P}

theorem step_task {c c' : Conf σ τ} {i : ℕ} {a : α} (h : P.step c (.task i a) = some c') :
    ∃ t s' t', c.tasks[i]? = some t ∧ P.task i c.shared t a = some (s', t') ∧
      c' = ⟨s', c.tasks.set i t'⟩ := by
  simp only [Program.step, Option.bind_eq_some_iff, Option.map_eq_some_iff] at h
  obtain ⟨t, ht, ⟨s', t'⟩, hr, rfl⟩ := h
  exact ⟨t, s', t', ht, hr, rfl⟩

theorem step_env {c c' : Conf σ τ} {e : ε} (h : P.step c (.env e) = some c') :
    ∃ s', P.env c.shared e = some s' ∧ c' = ⟨s', c.tasks⟩ := by
  simp only [Program.step, Option.map_eq_some_iff] at h
  obtain ⟨s', hs, rfl⟩ := h
  exact ⟨s', hs, rfl⟩

theorem step_spawn {c c' : Conf σ τ} {x : ι} (h : P.step c (.spawn x) = some c') :
    c' = ⟨c.shared, c.tasks ++ [P.spawn x]⟩ := (Option.some.inj h).symm

/-- Task `i` on its own, with the shared state. -/
def Program.solo (P : Program σ τ α ε ι) (i : ℕ) (x : σ × τ) (a : α) : Option (σ × τ) :=
  P.task i x.1 x.2 a

/-- What a task can do on its own it can do among others that wait. -/
theorem exec_solo {i : ℕ} {acts : List α} {c : Conf σ τ} {t : τ} {x : σ × τ}
    (ht : c.tasks[i]? = some t) (h : Run.exec (P.solo i) (c.shared, t) acts = some x) :
    Run.exec P.step c (acts.map (Act.task i)) = some ⟨x.1, c.tasks.set i x.2⟩ := by
  induction acts generalizing c t with
  | nil =>
    cases h
    obtain ⟨hlt, rfl⟩ := List.getElem?_eq_some_iff.mp ht
    rw [List.set_getElem_self]
    rfl
  | cons a acts ih =>
    obtain ⟨⟨s', t'⟩, hs, hrest⟩ := Run.exec_cons_eq_some.mp h
    have hstep : P.step c (.task i a) = some ⟨s', c.tasks.set i t'⟩ := by
      simp only [Program.step, ht, Option.bind_some, Option.map_eq_some_iff]
      exact ⟨(s', t'), hs, rfl⟩
    rw [List.map_cons, Run.exec, hstep, Option.bind_some, ih (t := t') _ hrest, List.set_set]
    exact List.getElem?_set_self (List.getElem?_eq_some_iff.mp ht).1

/-! ## Counting tasks -/

theorem countP_set_add (p : τ → Bool) {l : List τ} {i : ℕ} {t : τ} (ht : l[i]? = some t) (t' : τ) :
    (l.set i t').countP p + (if p t then 1 else 0) = l.countP p + if p t' then 1 else 0 := by
  obtain ⟨hi, rfl⟩ := List.getElem?_eq_some_iff.mp ht
  have hle : (if p l[i] then 1 else 0) ≤ l.countP p := List.boole_getElem_le_countP hi
  rw [List.countP_set hi]
  omega

theorem filterMap_set {β : Type*} {f : τ → Option β} {l : List τ} {i : ℕ} {t t' : τ}
    (ht : l[i]? = some t) (hf : f t' = f t) : (l.set i t').filterMap f = l.filterMap f := by
  induction l generalizing i with
  | nil => rfl
  | cons u l ih =>
    cases i with
    | zero =>
      obtain rfl : u = t := by simpa using ht
      rw [List.set_cons_zero, List.filterMap_cons, List.filterMap_cons, hf]
    | succ i =>
      rw [List.set_cons_succ, List.filterMap_cons, List.filterMap_cons, ih (by simpa using ht)]

theorem countP_range_getElem? (p : τ → Bool) (l : List τ) :
    (List.range l.length).countP (fun i => (l[i]?).any p) = l.countP p := by
  induction l with
  | nil => rfl
  | cons a l ih =>
    rw [List.length_cons, List.range_succ_eq_map, List.countP_cons, List.countP_map,
      List.countP_cons, ← ih]
    rfl

theorem countP_nodup_le (p : τ → Bool) {l : List τ} {is : List ℕ} (hn : is.Nodup)
    (hlt : ∀ i ∈ is, i < l.length) : is.countP (fun i => (l[i]?).any p) ≤ l.countP p := by
  rw [← countP_range_getElem? p l]
  exact (List.subperm_of_subset hn fun i hi => List.mem_range.mpr (hlt i hi)).countP_le _

/-! ## Conserved quantities -/

theorem sum_map_set (f : τ → ℕ) {l : List τ} {i : ℕ} {t : τ} (h : l[i]? = some t) (t' : τ) :
    ((l.set i t').map f).sum + f t = (l.map f).sum + f t' := by
  induction l generalizing i with
  | nil => simp at h
  | cons u l ih =>
    cases i with
    | zero =>
      obtain rfl : u = t := by simpa using h
      simp only [List.set_cons_zero, List.map_cons, List.sum_cons]
      omega
    | succ i =>
      have := ih (i := i) (by simpa using h)
      simp only [List.set_cons_succ, List.map_cons, List.sum_cons]
      omega

theorem le_sum_map (f : τ → ℕ) {l : List τ} {i : ℕ} {t : τ} (h : l[i]? = some t) :
    f t ≤ (l.map f).sum :=
  List.le_sum_of_mem (List.mem_map_of_mem (List.mem_of_getElem? h))

theorem sum_map_eq_zero_iff (f : τ → ℕ) {l : List τ} :
    (l.map f).sum = 0 ↔ ∀ (j : ℕ) (u : τ), l[j]? = some u → f u = 0 := by
  rw [List.sum_eq_zero_iff]
  constructor
  · intro h j u hu
    exact h _ (List.mem_map_of_mem (List.mem_of_getElem? hu))
  · intro h n hn
    obtain ⟨u, hu, rfl⟩ := List.mem_map.mp hn
    obtain ⟨j, hj⟩ := List.mem_iff_getElem?.mp hu
    exact h j u hj

theorem sum_map_eq_iff (f : τ → ℕ) {l : List τ} {i : ℕ} {t : τ} (h : l[i]? = some t) :
    (l.map f).sum = f t ↔ ∀ (j : ℕ) (u : τ), j ≠ i → l[j]? = some u → f u = 0 := by
  induction l generalizing i with
  | nil => simp at h
  | cons v l ih =>
    cases i with
    | zero =>
      obtain rfl : v = t := by simpa using h
      rw [List.map_cons, List.sum_cons, Nat.add_eq_left, sum_map_eq_zero_iff]
      constructor
      · intro hz j u hj hu
        obtain ⟨k, rfl⟩ := Nat.exists_eq_succ_of_ne_zero hj
        exact hz k u (by simpa using hu)
      · intro hz j u hu
        exact hz (j + 1) u (Nat.succ_ne_zero j) (by simpa using hu)
    | succ i =>
      have ht : l[i]? = some t := by simpa using h
      have hle := le_sum_map f ht
      have hi := ih ht
      rw [List.map_cons, List.sum_cons]
      constructor
      · intro hs j u hj hu
        cases j with
        | zero =>
          obtain rfl : v = u := by simpa using hu
          omega
        | succ j => exact hi.mp (by omega) j u (by omega) (by simpa using hu)
      · intro hz
        have hv : f v = 0 := hz 0 v (by omega) (by simp)
        have hs : (l.map f).sum = f t :=
          hi.mpr fun j u hj hu => hz (j + 1) u (by omega) (by simpa using hu)
        omega

/-- The shared part of a quantity and the parts of all tasks. -/
def total (g : σ → ℕ) (f : τ → ℕ) (c : Conf σ τ) : ℕ := g c.shared + (c.tasks.map f).sum

/-- **Conservation.** -/
theorem conserved {g : σ → ℕ} {f : τ → ℕ}
    (htask : ∀ i s t a s' t', P.task i s t a = some (s', t') → g s' + f t' = g s + f t)
    (henv : ∀ s e s', P.env s e = some s' → g s' = g s) (hspawn : ∀ x, f (P.spawn x) = 0)
    {c c' : Conf σ τ} {a : Act α ε ι} (h : P.step c a = some c') :
    total g f c' = total g f c := by
  unfold total
  cases a with
  | task i a =>
    obtain ⟨t, s', t', ht, hr, rfl⟩ := step_task h
    have h1 := htask i c.shared t a s' t' hr
    have h2 := sum_map_set f ht t'
    dsimp only
    omega
  | env e =>
    obtain ⟨s', hs, rfl⟩ := step_env h
    dsimp only
    rw [henv _ _ _ hs]
  | spawn x =>
    rw [step_spawn h]
    simp [hspawn]

theorem Reaches.conserved {g : σ → ℕ} {f : τ → ℕ}
    (htask : ∀ i s t a s' t', P.task i s t a = some (s', t') → g s' + f t' = g s + f t)
    (henv : ∀ s e s', P.env s e = some s' → g s' = g s) (hspawn : ∀ x, f (P.spawn x) = 0)
    {c c' : Conf σ τ} (h : Run.Reaches P.step c c') : total g f c' = total g f c :=
  h.invariant (I := fun d => total g f d = total g f c) rfl fun _ _ _ hu hs =>
    (Tasks.conserved htask henv hspawn hs).trans hu

/-- **Allowances.** A quantity that grows in a local step by no more than an allowance of the shared
state does stays within it. -/
theorem Reaches.bounded {g b : σ → ℕ} {f : τ → ℕ}
    (htask : ∀ i s t a s' t', P.task i s t a = some (s', t') →
      g s' + f t' + b s ≤ g s + f t + b s')
    (henv : ∀ s e s', P.env s e = some s' → g s' + b s ≤ g s + b s')
    (hspawn : ∀ x, f (P.spawn x) = 0) {c c' : Conf σ τ} (h : Run.Reaches P.step c c')
    (hc : total g f c ≤ b c.shared) : total g f c' ≤ b c'.shared := by
  refine h.invariant (I := fun d => total g f d ≤ b d.shared) hc fun u a v hu hs => ?_
  unfold total at hu ⊢
  cases a with
  | task i a =>
    obtain ⟨t, s', t', ht, hr, rfl⟩ := step_task hs
    have h1 := htask i u.shared t a s' t' hr
    have h2 := sum_map_set f ht t'
    dsimp only
    omega
  | env e =>
    obtain ⟨s', hr, rfl⟩ := step_env hs
    have h1 := henv _ _ _ hr
    dsimp only
    omega
  | spawn x =>
    rw [step_spawn hs]
    simpa [hspawn] using hu

/-! ## Invariants of the shared state and of each task -/

/-- `G` holds of the shared state, and `L` of each task and its number. -/
def Holds (G : σ → Prop) (L : σ → ℕ → τ → Prop) (c : Conf σ τ) : Prop :=
  G c.shared ∧ ∀ i t, c.tasks[i]? = some t → L c.shared i t

/-- The obligations of an invariant in which each task owns its part. `R` is what every step
guarantees of the shared state, and what the tasks rely on. -/
structure OwnedInvariant (P : Program σ τ α ε ι) (G : σ → Prop) (L : σ → ℕ → τ → Prop)
    (R : σ → σ → Prop) : Prop where
  task : ∀ i s t a s' t', G s → L s i t → P.task i s t a = some (s', t') →
    G s' ∧ L s' i t' ∧ R s s'
  env : ∀ s e s', G s → P.env s e = some s' → G s' ∧ R s s'
  spawn : ∀ s i x, G s → L s i (P.spawn x)
  stable : ∀ s s' i t, G s → R s s' → L s i t → L s' i t

variable {G : σ → Prop} {L : σ → ℕ → τ → Prop} {R : σ → σ → Prop}

theorem OwnedInvariant.step (O : OwnedInvariant P G L R) {c c' : Conf σ τ} {a : Act α ε ι}
    (hc : Holds G L c) (h : P.step c a = some c') : Holds G L c' := by
  obtain ⟨hG, hL⟩ := hc
  cases a with
  | task i a =>
    obtain ⟨t, s', t', ht, hr, rfl⟩ := step_task h
    obtain ⟨hG', hL', hR⟩ := O.task i c.shared t a s' t' hG (hL i t ht) hr
    refine ⟨hG', fun j u hu => ?_⟩
    by_cases hj : i = j
    · subst hj
      rw [List.getElem?_set_self (List.getElem?_eq_some_iff.mp ht).1] at hu
      cases hu
      exact hL'
    · rw [List.getElem?_set_ne hj] at hu
      exact O.stable _ _ j u hG hR (hL j u hu)
  | env e =>
    obtain ⟨s', hs, rfl⟩ := step_env h
    obtain ⟨hG', hR⟩ := O.env _ e s' hG hs
    exact ⟨hG', fun j u hu => O.stable _ _ j u hG hR (hL j u hu)⟩
  | spawn x =>
    obtain rfl := step_spawn h
    refine ⟨hG, fun j u hu => ?_⟩
    rcases Nat.lt_or_ge j c.tasks.length with hj | hj
    · rw [List.getElem?_append_left hj] at hu
      exact hL j u hu
    · rw [List.getElem?_append_right hj, List.getElem?_singleton] at hu
      split_ifs at hu
      cases hu
      exact O.spawn _ j x hG

/-- **Owned invariants hold in every reachable state.** -/
theorem OwnedInvariant.reaches (O : OwnedInvariant P G L R) {c c' : Conf σ τ}
    (hc : Holds G L c) (h : Run.Reaches P.step c c') : Holds G L c' :=
  h.invariant hc fun _ _ _ hu hs => O.step hu hs

/-- **Sums.** A quantity of the shared state that changes with each local step as the part of its
task does is the sum of the parts. -/
theorem OwnedInvariant.sum (O : OwnedInvariant P G L R) {g : σ → ℤ} {f : τ → ℕ}
    (htask : ∀ i s t a s' t', G s → L s i t → P.task i s t a = some (s', t') →
      g s' + f t = g s + f t')
    (henv : ∀ s e s', P.env s e = some s' → g s' = g s) (hspawn : ∀ x, f (P.spawn x) = 0)
    {c c' : Conf σ τ} (hc : Holds G L c) (h₀ : g c.shared = (c.tasks.map f).sum)
    (h : Run.Reaches P.step c c') : g c'.shared = (c'.tasks.map f).sum := by
  refine (h.invariant (I := fun d => Holds G L d ∧ g d.shared = (d.tasks.map f).sum) ⟨hc, h₀⟩
    fun u a v hu hs => ⟨O.step hu.1 hs, ?_⟩).2
  obtain ⟨⟨hG, hL⟩, hsum⟩ := hu
  cases a with
  | task i a =>
    obtain ⟨t, s', t', ht, hr, rfl⟩ := step_task hs
    have h₁ := htask i u.shared t a s' t' hG (hL i t ht) hr
    have h₂ := sum_map_set f ht t'
    dsimp only
    omega
  | env e =>
    obtain ⟨s', hr, rfl⟩ := step_env hs
    exact (henv _ _ _ hr).trans hsum
  | spawn x =>
    obtain rfl := step_spawn hs
    simpa [hspawn] using hsum

/-! ## Invariants of each task on its own -/

/-- The obligations of an invariant that the steps of a task keep, whatever the shared state is. -/
structure TaskInvariant (P : Program σ τ α ε ι) (L : τ → Prop) : Prop where
  task : ∀ i s t a s' t', L t → P.task i s t a = some (s', t') → L t'
  spawn : ∀ x, L (P.spawn x)

variable {L : τ → Prop}

theorem TaskInvariant.owned (I : TaskInvariant P L) :
    OwnedInvariant P (fun _ => True) (fun _ _ t => L t) (fun _ _ => True) where
  task i s t a s' t' _ ht hr := ⟨trivial, I.task i s t a s' t' ht hr, trivial⟩
  env _ _ _ _ _ := ⟨trivial, trivial⟩
  spawn _ _ x _ := I.spawn x
  stable _ _ _ _ _ _ ht := ht

theorem holds_nil {s : σ} : Holds (fun _ => True) (fun _ _ t => L t) (⟨s, []⟩ : Conf σ τ) :=
  ⟨trivial, nofun⟩

/-- **It holds of every task**, in every state reached from one without tasks. -/
theorem TaskInvariant.reaches (I : TaskInvariant P L) {s : σ} {c : Conf σ τ}
    (h : Run.Reaches P.step ⟨s, []⟩ c) {i : ℕ} {t : τ} (ht : c.tasks[i]? = some t) : L t :=
  (I.owned.reaches holds_nil h).2 i t ht

/-! ## Ledgers -/

theorem perm_flatMap_set {β : Type*} (f : τ → List β) {l : List τ} {i : ℕ} {t t' : τ} {x : List β}
    (h : l[i]? = some t) (hf : f t' = f t ++ x) :
    ((l.set i t').flatMap f).Perm (l.flatMap f ++ x) := by
  induction l generalizing i with
  | nil => simp at h
  | cons u l ih =>
    cases i with
    | zero =>
      obtain rfl : u = t := by simpa using h
      rw [List.set_cons_zero, List.flatMap_cons, List.flatMap_cons, hf, List.append_assoc,
        List.append_assoc]
      exact List.Perm.append_left _ List.perm_append_comm
    | succ i =>
      have := ih (i := i) (by simpa using h)
      rw [List.set_cons_succ, List.flatMap_cons, List.flatMap_cons, List.append_assoc]
      exact this.append_left _

/-- **Ledgers.** When every step of a task enters the same into a shared list and into one of its
own, the shared list holds what the tasks have entered, up to order. -/
theorem TaskInvariant.ledger (I : TaskInvariant P L) {β : Type*} {g : σ → List β} {f : τ → List β}
    (htask : ∀ i s t a s' t', L t → P.task i s t a = some (s', t') →
      ∃ x, g s' = g s ++ x ∧ f t' = f t ++ x)
    (henv : ∀ s e s', P.env s e = some s' → g s' = g s) (hspawn : ∀ x, f (P.spawn x) = [])
    {s : σ} (h₀ : g s = []) {c : Conf σ τ} (h : Run.Reaches P.step ⟨s, []⟩ c) :
    (g c.shared).Perm (c.tasks.flatMap f) := by
  refine (h.invariant (I := fun d => Holds (fun _ => True) (fun _ _ t => L t) d ∧
    (g d.shared).Perm (d.tasks.flatMap f)) ⟨holds_nil, ?_⟩
    fun u a v hu hs => ⟨I.owned.step hu.1 hs, ?_⟩).2
  · change (g s).Perm []
    rw [h₀]
  · obtain ⟨hL, hu⟩ := hu
    cases a with
    | task i a =>
      obtain ⟨t, s', t', ht, hr, rfl⟩ := step_task hs
      obtain ⟨x, hg, hf⟩ := htask i u.shared t a s' t' (hL.2 i t ht) hr
      change (g s').Perm ((u.tasks.set i t').flatMap f)
      rw [hg]
      exact (hu.append_right x).trans (perm_flatMap_set f ht hf).symm
    | env e =>
      obtain ⟨s', hr, rfl⟩ := step_env hs
      change (g s').Perm _
      rw [henv _ _ _ hr]
      exact hu
    | spawn x =>
      obtain rfl := step_spawn hs
      change (g u.shared).Perm ((u.tasks ++ [P.spawn x]).flatMap f)
      rw [List.flatMap_append, List.flatMap_singleton, hspawn, List.append_nil]
      exact hu

end Tasks
