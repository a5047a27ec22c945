import CasperNodeProxy.Binary.Budget

/-!
# Waiters at the semaphore

A call that finds the idle pool empty waits for a permit, and never looks at the idle pool again; a
connection that is put back keeps its permit. So a call may wait for a permit that only an idle
connection holds.

* `Stranded`: a call waits, no permit is free, and no call holds one.
* `StrandingReturn`: the one step that leads there, the last holder puts its connection back while
  another call waits.
* **`stranded_iff_return`**: a run avoids stranded states if and only if it avoids that step.
* `never_stranded_of_load`: it does so whenever there are at most as many calls in progress as
  there are permits.
-/

namespace CasperNodeProxy

open Run Wire

/-- The calls that wait for a permit. -/
def PoolConf.waiting (c : PoolConf) : ℕ := (c.tasks.map fun t => t.pc.waiting).sum

/-- The calls in progress. -/
def PoolConf.inProgress (c : PoolConf) : ℕ := (c.tasks.map fun t => t.pc.inProgress).sum

/-- Some call waits for a permit, none is free, and no call holds one, with or without its
connection: all permits are in the idle pool. -/
structure Stranded (c : PoolConf) : Prop where
  waits : ∃ t ∈ c.tasks, t.pc = .acquire
  noPermit : c.free = 0
  nobody : ∀ t ∈ c.tasks, t.pc.permits = 0

/-- Call `i` is about to put its connection back into the idle pool, while another call waits, no
permit is free, and no other call holds one. -/
structure StrandingReturn (c : PoolConf) (i : ℕ) : Prop where
  returns : ∃ t conn rewritten, c.tasks[i]? = some t ∧ t.pc = .returnConnection conn rewritten
  waits : ∃ t ∈ c.tasks, t.pc = .acquire
  noPermit : c.free = 0
  alone : ∀ j t, j ≠ i → c.tasks[j]? = some t → t.pc.permits = 0

/-- The step is not a stranding return. -/
def KeepsWaiters (c : PoolConf) : PoolAct → Prop
  | .task i .lock => ¬ StrandingReturn c i
  | _ => True

/-! ## Counting -/

theorem waiting_pos_iff {c : PoolConf} : 0 < c.waiting ↔ ∃ t ∈ c.tasks, t.pc = .acquire := by
  unfold PoolConf.waiting
  rw [Nat.pos_iff_ne_zero, Ne, List.sum_eq_zero_iff]
  push Not
  constructor
  · rintro ⟨n, hn, h0⟩
    obtain ⟨t, ht, rfl⟩ := List.mem_map.mp hn
    refine ⟨t, ht, ?_⟩
    cases hp : t.pc <;> simp_all [Pc.waiting]
  · rintro ⟨t, ht, hp⟩
    exact ⟨_, List.mem_map_of_mem ht, by rw [hp]; exact Nat.one_ne_zero⟩

theorem held_eq_zero_iff {c : PoolConf} : c.held = 0 ↔ ∀ t ∈ c.tasks, t.pc.permits = 0 := by
  unfold PoolConf.held
  rw [List.sum_eq_zero_iff]
  simp

theorem stranded_iff {c : PoolConf} : Stranded c ↔ 0 < c.waiting ∧ c.free = 0 ∧ c.held = 0 := by
  rw [waiting_pos_iff, held_eq_zero_iff]
  exact ⟨fun h => ⟨h.waits, h.noPermit, h.nobody⟩, fun h => ⟨h.1, h.2.1, h.2.2⟩⟩

theorem alone_iff {c : PoolConf} {i : ℕ} {t : Call} (ht : c.tasks[i]? = some t) :
    (∀ j u, j ≠ i → c.tasks[j]? = some u → u.pc.permits = 0) ↔ c.held = t.pc.permits :=
  (Tasks.sum_map_eq_iff (fun u : Call => u.pc.permits) ht).symm

/-! ## One step -/

theorem counts_set {c : PoolConf} {i : ℕ} {t : Call} (P' : BinaryPool) (t' : Call)
    (ht : c.tasks[i]? = some t) :
    PoolConf.held ⟨P', c.tasks.set i t'⟩ + t.pc.permits = c.held + t'.pc.permits ∧
    PoolConf.waiting ⟨P', c.tasks.set i t'⟩ + t.pc.waiting = c.waiting + t'.pc.waiting ∧
    PoolConf.inProgress ⟨P', c.tasks.set i t'⟩ + t.pc.inProgress =
      c.inProgress + t'.pc.inProgress :=
  ⟨Tasks.sum_map_set _ ht _, Tasks.sum_map_set _ ht _, Tasks.sum_map_set _ ht _⟩

theorem counts_of_not_task {c c' : PoolConf} {a : PoolAct} (ha : ∀ i b, a ≠ .task i b)
    (h : poolStep K c a = some c') :
    c'.free = c.free ∧ c'.idle = c.idle ∧ c'.held = c.held ∧ c'.waiting = c.waiting ∧
      c'.inProgress = c.inProgress := by
  cases a with
  | task i b => exact absurd rfl (ha i b)
  | env e =>
    obtain ⟨P', hP, rfl⟩ := Tasks.step_env h
    obtain ⟨hs, hl⟩ := idleStep_length hP
    refine ⟨?_, hl, rfl, rfl, rfl⟩
    unfold PoolConf.free
    rw [hs]
  | spawn x =>
    rw [Tasks.step_spawn h]
    refine ⟨rfl, rfl, ?_, ?_, ?_⟩
    · simp [PoolConf.held, poolProgram, Call.new, Pc.permits]
    · simp [PoolConf.waiting, poolProgram, Call.new, Pc.waiting]
    · simp [PoolConf.inProgress, poolProgram, Call.new, Pc.inProgress]

/-- A move of one call does not strand anyone; `held` and `waiting` count the other calls. -/
theorem Moves.not_stranded {l l' : Ledger} (h : Moves l l') {held waiting : ℕ}
    (hsum : 0 < l.free + l.idle + (l.held + held))
    (hok : ¬ (0 < l.waiting + waiting ∧ l.free = 0 ∧ l.held + held = 0)) :
    ¬ (0 < l'.waiting + waiting ∧ l'.free = 0 ∧ l'.held + held = 0) := by
  cases h with
  | stay => exact hok
  | wait a | pop a n | acquire a n | drop a n | giveUp a n =>
    dsimp only at hsum hok ⊢
    omega

/-- A call that puts its connection back strands the others just when it was the last holder. -/
theorem strandingReturn_iff {c : PoolConf} {i : ℕ} {t : Call} (ht : c.tasks[i]? = some t)
    (hr : t.returns .lock) : StrandingReturn c i ↔ 0 < c.waiting ∧ c.free = 0 ∧ c.held = 1 := by
  obtain ⟨conn, rewritten, hpc, -⟩ := hr
  have h1 : t.pc.permits = 1 := by rw [hpc]; rfl
  rw [waiting_pos_iff, ← h1, ← alone_iff ht]
  constructor
  · intro h
    exact ⟨h.waits, h.noPermit, h.alone⟩
  · rintro ⟨hw, hf, ha⟩
    exact ⟨⟨t, conn, rewritten, ht, hpc⟩, hw, hf, ha⟩

theorem not_stranded_of_moves {c : PoolConf} {i : ℕ} {t t' : Call} {P' : BinaryPool}
    (hsum : 0 < c.free + c.idle + c.held) (hok : ¬ (0 < c.waiting ∧ c.free = 0 ∧ c.held = 0))
    (ht : c.tasks[i]? = some t) (hm : Moves (ledger c.shared t) (ledger P' t')) :
    ¬ (0 < PoolConf.waiting ⟨P', c.tasks.set i t'⟩ ∧ P'.semaphore.permits = 0 ∧
      PoolConf.held ⟨P', c.tasks.set i t'⟩ = 0) := by
  obtain ⟨hheld, hwait, -⟩ := counts_set P' t' ht
  -- what the other calls hold and how many of them wait
  obtain ⟨held, hh⟩ : ∃ held, c.held = t.pc.permits + held :=
    Nat.exists_eq_add_of_le (Tasks.le_sum_map (fun u : Call => u.pc.permits) ht)
  obtain ⟨waiting, hw⟩ : ∃ waiting, c.waiting = t.pc.waiting + waiting :=
    Nat.exists_eq_add_of_le (Tasks.le_sum_map (fun u : Call => u.pc.waiting) ht)
  rw [hh] at hsum hok hheld
  rw [hw] at hok hwait
  have hheld' : PoolConf.held ⟨P', c.tasks.set i t'⟩ = t'.pc.permits + held := by omega
  have hwait' : PoolConf.waiting ⟨P', c.tasks.set i t'⟩ = t'.pc.waiting + waiting := by omega
  rw [hheld', hwait']
  exact hm.not_stranded hsum hok

/-- The return of a connection strands the others just when its call was the last holder. -/
theorem stranded_of_pushes {c : PoolConf} {i : ℕ} {t t' : Call} {P' : BinaryPool}
    (ht : c.tasks[i]? = some t) (hp : Pushes (ledger c.shared t) (ledger P' t')) :
    (0 < PoolConf.waiting ⟨P', c.tasks.set i t'⟩ ∧ P'.semaphore.permits = 0 ∧
      PoolConf.held ⟨P', c.tasks.set i t'⟩ = 0) ↔ 0 < c.waiting ∧ c.free = 0 ∧ c.held = 1 := by
  obtain ⟨hheld, hwait, -⟩ := counts_set P' t' ht
  obtain ⟨n, k, hl, hl'⟩ := hp
  have h1 : t.pc.permits = 1 := congrArg Ledger.held hl
  have h1' : t'.pc.permits = 0 := congrArg Ledger.held hl'
  have h2 : t.pc.waiting = 0 := congrArg Ledger.waiting hl
  have h2' : t'.pc.waiting = 0 := congrArg Ledger.waiting hl'
  have hf : P'.semaphore.permits = c.free :=
    (congrArg Ledger.free hl').trans (congrArg Ledger.free hl).symm
  rw [hf]
  omega

/-- **One step.** A step out of a state that is not stranded strands nobody if and only if it is
not a stranding return. -/
theorem not_stranded_step {c c' : PoolConf} {a : PoolAct} (hsum : 0 < c.free + c.idle + c.held)
    (hok : ¬ Stranded c) (h : poolStep K c a = some c') : ¬ Stranded c' ↔ KeepsWaiters c a := by
  rw [stranded_iff] at hok ⊢
  by_cases ha : ∃ i b, a = .task i b
  · obtain ⟨i, b, rfl⟩ := ha
    obtain ⟨t, P', t', ht, hs, rfl⟩ := Tasks.step_task h
    rcases sendStep_moves hs with ⟨hr, hm⟩ | ⟨hr, hp⟩
    · refine iff_of_true (not_stranded_of_moves hsum hok ht hm) ?_
      unfold KeepsWaiters
      split
      · next j hj =>
        cases hj
        intro hstr
        obtain ⟨u, conn, rewritten, hu, hpc⟩ := hstr.returns
        obtain rfl := Option.some.inj (ht.symm.trans hu)
        exact hr ⟨conn, rewritten, hpc, rfl⟩
      · trivial
    · obtain rfl : b = .lock := hr.choose_spec.choose_spec.2
      exact not_congr ((stranded_of_pushes ht hp).trans (strandingReturn_iff ht hr).symm)
  · have hno : ∀ i b, a ≠ .task i b := fun i b hab => ha ⟨i, b, hab⟩
    obtain ⟨hf, -, hh, hw, -⟩ := counts_of_not_task hno h
    rw [hf, hh, hw]
    refine iff_of_true hok ?_
    unfold KeepsWaiters
    split
    · exact absurd rfl (hno _ _)
    · trivial

/-! ## Load -/

/-- Only a call that finds the idle pool empty adds to what the calls ask for and own. -/
theorem Moves.demand {l l' : Ledger} (h : Moves l l') :
    l'.idle = 0 ∨ l'.idle + l'.held + l'.waiting ≤ l.idle + l.held + l.waiting := by
  cases h with
  | wait a => exact .inl rfl
  | stay => exact .inr le_rfl
  | pop a n | acquire a n | drop a n | giveUp a n =>
    refine .inr ?_
    dsimp only
    omega

theorem held_add_waiting_le (c : PoolConf) : c.held + c.waiting ≤ c.inProgress := by
  unfold PoolConf.held PoolConf.waiting PoolConf.inProgress
  rw [← List.sum_map_add]
  refine List.sum_le_sum fun t _ => ?_
  cases t.pc <;> simp [Pc.permits, Pc.waiting, Pc.inProgress]

/-- While no more calls are in progress than there are permits, waiting calls and idle connections
together stay within the permits as well. -/
theorem demand_step {M : ℕ} {c c' : PoolConf} {a : PoolAct}
    (hd : c.idle + c.held + c.waiting ≤ M) (hload : c'.inProgress ≤ M)
    (h : poolStep K c a = some c') : c'.idle + c'.held + c'.waiting ≤ M := by
  have hle := held_add_waiting_le c'
  by_cases ha : ∃ i b, a = .task i b
  · obtain ⟨i, b, rfl⟩ := ha
    obtain ⟨t, P', t', ht, hs, rfl⟩ := Tasks.step_task h
    obtain ⟨hheld, hwait, -⟩ := counts_set P' t' ht
    have hdemand : P'.pool.length = 0 ∨ P'.pool.length + t'.pc.permits + t'.pc.waiting ≤
        c.idle + t.pc.permits + t.pc.waiting := by
      rcases sendStep_moves hs with ⟨-, hm⟩ | ⟨-, n, k, hl, hl'⟩
      · exact hm.demand
      · refine .inr (le_of_eq ?_)
        have h1 := congrArg (fun l => l.idle + l.held + l.waiting) hl
        have h2 := congrArg (fun l => l.idle + l.held + l.waiting) hl'
        exact h2.trans (Eq.trans (by dsimp only) h1.symm)
    have hidle : PoolConf.idle ⟨P', c.tasks.set i t'⟩ = P'.pool.length := rfl
    omega
  · obtain ⟨-, hi, hh, hw, -⟩ := counts_of_not_task (fun i b hab => ha ⟨i, b, hab⟩) h
    omega

/-! ## Every run -/

theorem not_stranded_init (maxConnections : ℕ) : ¬ Stranded (poolInit maxConnections) := by
  rintro ⟨⟨t, ht, -⟩, -, -⟩
  cases ht

/-- **Enough permits.** No call is ever stranded in a run in which at no time more calls are in
progress than there are permits. -/
theorem never_stranded_of_load (maxConnections : ℕ) {acts : List PoolAct} {c : PoolConf}
    (h : exec (poolStep K) (poolInit maxConnections) acts = some c)
    (hload : Always (poolStep K) (fun d => d.inProgress ≤ max 1 maxConnections)
      (poolInit maxConnections) acts) : ¬ Stranded c := by
  have hd : Always (poolStep K) (fun d => d.idle + d.held + d.waiting ≤ max 1 maxConnections)
      (poolInit maxConnections) acts :=
    hload.invariant (fun _ _ _ hu hv hs => demand_step hu hv hs) (Nat.zero_le _)
  have hlast := hd.last h
  have hb := budget ⟨acts, h⟩
  rw [stranded_iff]
  omega

/-- **When waiters are not stranded.** A run avoids stranded states if and only if in none of its
steps the last holder of a permit puts its connection back while another call waits and no permit
is free. -/
theorem stranded_iff_return (maxConnections : ℕ) {acts : List PoolAct} {c : PoolConf}
    (h : exec (poolStep K) (poolInit maxConnections) acts = some c) :
    Always (poolStep K) (fun d => ¬ Stranded d) (poolInit maxConnections) acts ↔
      Meets (poolStep K) KeepsWaiters (poolInit maxConnections) acts := by
  refine always_iff_meets (I := fun d : PoolConf => 0 < d.free + d.idle + d.held) ?_ ?_ ?_
    (not_stranded_init maxConnections) h
  · intro u a v hI hs
    rw [budget_step hs]
    exact hI
  · intro u a v hI hQ hs
    exact not_stranded_step hI hQ hs
  · rw [budget (K := K) (Reaches.refl _)]
    omega

/-- With one permit: call 1 waits for the permit while call 0 has the only connection; call 0 gets
its reply and puts the connection back. -/
def strandingRun : List PoolAct :=
  [.spawn uptimeRequest, .spawn uptimeRequest, .task 0 .begin, .task 0 .lock, .task 0 .acquire,
    .task 0 .connected, .task 1 .begin, .task 1 .lock, .task 0 (.write 16), .task 0 .flush,
    .task 0 (.upstream (.answer failureReply)), .task 0 (.read 4), .task 0 (.read 9),
    .task 0 .lock]

theorem strandingRun_counts :
    (exec (poolStep wirePort) (poolInit 1) strandingRun).map
      (fun c => (c.waiting, c.free, c.held)) = some (1, 0, 0) := rfl

/-- **A waiter can be stranded.** -/
theorem waiter_stranded :
    ∃ c, exec (poolStep wirePort) (poolInit 1) strandingRun = some c ∧ Stranded c := by
  obtain ⟨c, hc, hcounts⟩ := Option.map_eq_some_iff.mp strandingRun_counts
  refine ⟨c, hc, stranded_iff.mpr ?_⟩
  simp only [Prod.mk.injEq] at hcounts
  omega

theorem strandingRun_returns :
    ¬ Meets (poolStep wirePort) KeepsWaiters (poolInit 1) strandingRun := by
  obtain ⟨c, hc, hcounts⟩ := Option.map_eq_some_iff.mp strandingRun_counts
  intro hm
  have hlast := ((stranded_iff_return 1 hc).mpr hm).last hc
  simp only [Prod.mk.injEq] at hcounts
  rw [stranded_iff] at hlast
  omega

end CasperNodeProxy
