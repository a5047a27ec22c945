import CasperNodeProxy.Binary.Socket
import CasperNodeProxy.Binary.WireFormat

/-!
# The rate limit of a websocket

* `Metered`: the limiter of a socket, in terms of when it was asked (`metered_reaches`).
* `RateBounded`: at most so many messages are passed on in every window of a given length.
* `reaches_steady`: a client that uses up its quota, whatever the upstream does.
* **`rate_bounded_iff`**: for which settings the configured rate is an upper bound.
* **`retry_after_iff`**: when the retry delay that a client is told is long enough.
-/

namespace CasperNodeProxy

open Wire Run

variable {G : Governor} {K : BinaryPort} {perMinute burstSize : ℕ}

/-! ## The limiter of a socket -/

/-- The limiter was asked at the times that are recorded, and admitted those that were passed on. -/
structure Metered (q : Gcra.Quota) (s : Socket G) : Prop where
  limiter : s.limiter = G.afterChecks q s.checks
  passed : s.passed = Gcra.admitted q 0 s.checks

theorem metered_new (q : Gcra.Quota) : Metered q (.new (G.direct q)) := ⟨rfl, rfl⟩

theorem Metered.check (hG : G.Lawful) {q : Gcra.Quota} {s : Socket G} (hm : Metered q s) (t : ℕ) :
    (G.check s.limiter t).1 = .ok () ↔ Gcra.earliest q (Gcra.after q 0 s.checks) ≤ t := by
  rw [hm.limiter]
  exact hG.admits q s.checks t

theorem metered_step (hG : G.Lawful) {q : Gcra.Quota} {i : ℕ} {P P' : BinaryPool} {s s' : Socket G}
    {a : SocketAct} (hm : Metered q s) (hs : SocketStep K i P s a P' s') : Metered q s' := by
  have hlimiter : ∀ t, (G.check s.limiter t).2 = G.afterChecks q (s.checks ++ [t]) := by
    intro t
    rw [G.afterChecks_snoc, hm.limiter]
  cases hs with
  | @limit payload t now notUntil hpc hc =>
    refine ⟨hlimiter t, ?_⟩
    have hno : ¬ Gcra.earliest q (Gcra.after q 0 s.checks) ≤ t := by
      rw [← hm.check hG, hc]
      nofun
    exact hm.passed.trans (by rw [Socket.reply, Socket.take, Gcra.admitted_snoc, if_neg hno,
      List.append_nil])
  | @pass payload t now hpc hc =>
    refine ⟨hlimiter t, ?_⟩
    show s.passed ++ [t] = Gcra.admitted q 0 (s.checks ++ [t])
    rw [hm.passed, Gcra.admitted_snoc, if_pos ((hm.check hG t).mp hc)]
  | other hpc => exact hm
  | close hpc => exact ⟨hm.limiter, hm.passed⟩
  | send hpc ha hr hf => exact ⟨hm.limiter, hm.passed⟩
  | finish hpc ha hr hf => exact ⟨hm.limiter, hm.passed⟩
  | counted hpc => exact ⟨hm.limiter, hm.passed⟩
  | replied hpc => exact ⟨hm.limiter, hm.passed⟩

theorem metered_invariant (hG : G.Lawful) :
    Tasks.TaskInvariant (socketProgram G K perMinute burstSize)
      (Metered (binaryQuota perMinute burstSize)) where
  task _ _ _ _ _ _ hm hs := metered_step hG hm (socketStep_cases hs)
  spawn _ := metered_new _

/-- **In every reachable state**, whatever the clock and the other sockets do. -/
theorem metered_reaches (hG : G.Lawful) {maxConnections : ℕ} {c : SocketConf G}
    (h : Reaches (socketsStep G K perMinute burstSize) (socketInit G maxConnections) c) {i : ℕ}
    {s : Socket G} (hs : c.tasks[i]? = some s) : Metered (binaryQuota perMinute burstSize) s :=
  (metered_invariant hG).reaches h hs

/-! ## A client that uses up its quota -/

/-- A pool without connections, in which a call can get a permit. -/
structure Ready (P : BinaryPool) : Prop where
  pool : P.pool = []
  permits : 0 < P.semaphore.permits
  opened : P.semaphore.closed = false

theorem ready_new (maxConnections : ℕ) : Ready (.new maxConnections) :=
  ⟨rfl, lt_of_lt_of_le Nat.one_pos (le_max_right _ _), rfl⟩

theorem Ready.acquire {P : BinaryPool} (h : Ready P) :
    ∃ sem, P.semaphore.acquire = .ok sem ∧ sem.closed = false := by
  unfold Channel.Semaphore.acquire
  rw [h.opened, if_pos h.permits]
  exact ⟨_, rfl, rfl⟩

variable (K perMinute burstSize) in
/-- Some run leads to this pool and this only socket. -/
def Alone (maxConnections : ℕ) (P : BinaryPool) (s : Socket G) : Prop :=
  Reaches (socketsStep G K perMinute burstSize) (socketInit G maxConnections) ⟨P, [s]⟩

theorem Alone.step {maxConnections : ℕ} {P : BinaryPool} {s : Socket G}
    (h : Alone K perMinute burstSize maxConnections P s) (a : SocketAct) (P' : BinaryPool)
    (s' : Socket G) (hs : socketStep K 0 P s a = some (P', s')) :
    Alone K perMinute burstSize maxConnections P' s' := by
  refine h.snoc (a := .task 0 a) ?_
  simp only [Tasks.Program.step, socketProgram, List.getElem?_cons_zero, Option.bind_some, hs,
    Option.map_some, List.set_cons_zero]

theorem Alone.sent {maxConnections : ℕ} {P : BinaryPool} {s : Socket G} {isResponse : Bool}
    (h : Alone K perMinute burstSize maxConnections P s) (hpc : s.pc = .replying isResponse) :
    Alone K perMinute burstSize maxConnections P { s with pc := .next } := by
  refine h.step (.sent true) _ _ ?_
  simp [socketStep, hpc]

theorem Alone.finish {maxConnections : ℕ} {P : BinaryPool} {s : Socket G}
    (h : Alone K perMinute burstSize maxConnections P s) (hP : Ready P)
    (hpc : s.pc = .sending (.new [])) :
    ∃ P' : BinaryPool, ∃ s' : Socket G, Alone K perMinute burstSize maxConnections P' s' ∧
      Ready P' ∧ s'.pc = .next ∧ s'.checks = s.checks ∧ s'.passed = s.passed := by
  cases hr : checkRequest K [] with
  | error result =>
    have h₁ := h.step (.send .begin) ((P.enter).count .error).leave
      { s.reply [] (replyOf result) with pc := .replying result.isOk }
      (by simp [socketStep, hpc, sendStep, Call.new, Call.finish, hr, Socket.afterSend])
    exact ⟨_, _, h₁.sent rfl, ⟨hP.pool, hP.permits, hP.opened⟩, rfl, rfl, rfl⟩
  | ok _ =>
    obtain ⟨sem, hsem, hopened⟩ := hP.acquire
    have h₁ := h.step (.send .begin) P.enter
      { s with pc := .sending ⟨[], .getConnection, []⟩ }
      (by simp [socketStep, hpc, sendStep, Call.new, hr, Socket.afterSend])
    have h₂ := h₁.step (.send .lock) P.enter { s with pc := .sending ⟨[], .acquire, []⟩ }
      (by simp [socketStep, sendStep, Socket.afterSend, BinaryPool.enter, hP.pool])
    have h₃ := h₂.step (.send .acquire) { P.enter with semaphore := sem }
      { s with pc := .sending ⟨[], .connect, []⟩ }
      (by simp [socketStep, sendStep, Socket.afterSend, BinaryPool.enter, hsem])
    have h₄ := h₃.step (.send (.ioError .other))
      (({ P.enter with semaphore := sem } : BinaryPool).count .error).release.leave
      { s.reply [] (.error (.io .other)) with pc := .replying false }
      (by simp [socketStep, sendStep, Socket.afterSend, Socket.reply, failWith, Call.finish,
        replyOf, Except.isOk, Except.toBool])
    exact ⟨_, _, h₄.sent rfl, ⟨hP.pool, Nat.succ_pos _, hopened⟩, rfl, rfl, rfl⟩

/-- A message that the limiter admits is passed on, and the handler takes the next one. -/
theorem Alone.pass {maxConnections : ℕ} {P : BinaryPool} {s : Socket G}
    (h : Alone K perMinute burstSize maxConnections P s) (hP : Ready P) (hpc : s.pc = .next)
    {t : ℕ} (ht : (G.check s.limiter t).1 = .ok ()) :
    ∃ P' : BinaryPool, ∃ s' : Socket G, Alone K perMinute burstSize maxConnections P' s' ∧
      Ready P' ∧ s'.pc = .next ∧ s'.checks = s.checks ++ [t] ∧ s'.passed = s.passed ++ [t] := by
  have h₁ := h.step (.message [] t t) P.request
    { s.take [] t with pc := .sending (.new []), passed := s.passed ++ [t] }
    (by simp [socketStep, hpc, ht])
  exact h₁.finish ⟨hP.pool, hP.permits, hP.opened⟩ rfl

/-- **A client can use up its quota**: `n` messages are all passed on. -/
theorem reaches_steady (hG : G.Lawful) (K : BinaryPort) (perMinute burstSize maxConnections n : ℕ) :
    ∃ P : BinaryPool, ∃ s : Socket G, Alone K perMinute burstSize maxConnections P s ∧ Ready P ∧
      s.pc = .next ∧ s.checks = Gcra.steady (binaryQuota perMinute burstSize) n ∧
      s.passed = Gcra.steady (binaryQuota perMinute burstSize) n := by
  have hb := (binaryQuota_pos perMinute burstSize).2
  induction n with
  | zero =>
    refine ⟨_, .new (binaryConnectionRateLimiter G perMinute burstSize), ?_,
      ready_new maxConnections, rfl, rfl, rfl⟩
    exact (Reaches.refl _).snoc (a := .spawn ()) rfl
  | succ n ih =>
    obtain ⟨P, s, h, hP, hpc, hchecks, hpassed⟩ := ih
    have hm := metered_reaches hG h (i := 0) rfl
    have hadmit : (G.check s.limiter
        ((n + 1 - (binaryQuota perMinute burstSize).burst) *
          (binaryQuota perMinute burstSize).period)).1 = .ok () := by
      rw [hm.check hG, hchecks, (Gcra.admitted_steady hb n).1]
      exact Gcra.earliest_steady n
    obtain ⟨P', s', h', hP', hpc', hchecks', hpassed'⟩ := h.pass hP hpc hadmit
    refine ⟨P', s', h', hP', hpc', ?_, ?_⟩
    · rw [hchecks', hchecks, Gcra.steady_succ]
    · rw [hpassed', hpassed, Gcra.steady_succ]

/-! ## The rate -/

variable (G K perMinute burstSize) in
/-- In every window of length `span`, every socket passes on at most `bound` messages, when its
clock does not run backwards. -/
def RateBounded (span bound : ℕ) : Prop :=
  ∀ (maxConnections : ℕ) (c : SocketConf G) (i : ℕ) (s : Socket G),
    Reaches (socketsStep G K perMinute burstSize) (socketInit G maxConnections) c →
    c.tasks[i]? = some s → s.checks.Pairwise (· ≤ ·) →
    ∀ start, (Gcra.within start span s.passed).length ≤ bound

/-- The rate in terms of the period of the quota. -/
theorem rateBounded_span_iff (hG : G.Lawful) (span : ℕ) :
    RateBounded G K perMinute burstSize span (perMinute + max burstSize 1) ↔
      span / perMinuteToPeriod perMinute ≤ perMinute := by
  obtain ⟨hp, hb⟩ := binaryQuota_pos perMinute burstSize
  constructor
  · intro h
    obtain ⟨P, s, hrun, -, -, hchecks, hpassed⟩ := reaches_steady hG K perMinute burstSize 1
      ((binaryQuota perMinute burstSize).burst + span / (binaryQuota perMinute burstSize).period)
    have hle := h 1 _ 0 s hrun rfl (hchecks ▸ Gcra.steady_sorted _) 0
    rw [hpassed, Gcra.within_steady, Gcra.length_steady] at hle
    have hsum : max burstSize 1 + span / perMinuteToPeriod perMinute ≤
        perMinute + max burstSize 1 := hle
    exact Nat.le_of_add_le_add_left (hsum.trans_eq (Nat.add_comm _ _))
  · intro h maxConnections c i s hc hs _ start
    have hm := metered_reaches hG hc hs
    rw [hm.passed]
    refine (Gcra.count_admitted_le hp hb 0 start span s.checks).trans ?_
    rw [Nat.add_comm perMinute]
    exact Nat.add_le_add_left h _

theorem perMinuteToPeriod_pos (h : 0 < perMinute) :
    perMinuteToPeriod perMinute = max (60000 / perMinute) 1 * nanosPerMilli := by
  rw [perMinuteToPeriod, if_neg (Nat.ne_of_gt h)]

/-- **The configured rate.** It is an upper bound exactly if rounding the period down to
milliseconds does not give more cells a minute. The second half is about windows without their last
instant. -/
theorem rate_bounded_iff (hG : G.Lawful) (K : BinaryPort) {perMinute : ℕ} (h : 0 < perMinute)
    (burstSize : ℕ) :
    (RateBounded G K perMinute burstSize (60 * nanosPerSec) (perMinute + max burstSize 1) ↔
      60000 / max (60000 / perMinute) 1 ≤ perMinute) ∧
    (RateBounded G K perMinute burstSize (60 * nanosPerSec - 1) (perMinute + max burstSize 1) ↔
      59999 / max (60000 / perMinute) 1 ≤ perMinute) := by
  have hclosed : 60 * nanosPerSec / nanosPerMilli = 60000 := by decide
  have hopen : (60 * nanosPerSec - 1) / nanosPerMilli = 59999 := by decide
  rw [rateBounded_span_iff hG, rateBounded_span_iff hG, perMinuteToPeriod_pos h,
    Nat.mul_comm _ nanosPerMilli, ← Nat.div_div_eq_div_mul, ← Nat.div_div_eq_div_mul, hclosed,
    hopen]
  exact ⟨Iff.rfl, Iff.rfl⟩

/-- Up to 244 messages a minute, the rounding does no harm. -/
theorem rate_of_le {perMinute : ℕ} (h : 0 < perMinute) (hle : perMinute ≤ 244) :
    60000 / max (60000 / perMinute) 1 ≤ perMinute := by
  have hp : 245 ≤ 60000 / perMinute := by
    rw [Nat.le_div_iff_mul_le h]
    omega
  have hsum := Nat.div_add_mod 60000 perMinute
  have hmod := Nat.mod_lt 60000 h
  rw [max_eq_left (by omega), ← Nat.lt_succ_iff, Nat.div_lt_iff_lt_mul (by omega), Nat.succ_mul]
  omega

theorem rate_bounded_default :
    RateBounded gcraGovernor wirePort 60 20 (60 * nanosPerSec) (60 + max 20 1) :=
  (rate_bounded_iff gcraGovernor_lawful wirePort (by decide) 20).1.mpr (by decide)

/-- **A rate that is exceeded.** With 40000 messages a minute the period is 1 ms. -/
theorem rate_exceeded :
    ¬ RateBounded gcraGovernor wirePort 40000 1 (60 * nanosPerSec) (40000 + max 1 1) ∧
    ¬ RateBounded gcraGovernor wirePort 40000 1 (60 * nanosPerSec - 1) (40000 + max 1 1) := by
  rw [rateBounded_span_iff gcraGovernor_lawful, rateBounded_span_iff gcraGovernor_lawful]
  decide

/-! ## The retry delay -/

variable (G K perMinute burstSize) in
/-- If the next message of socket `i`, which now is `s`, arrives at time `t`, it is passed on: in
every later state in which the limiter has not been asked again. -/
def NextAdmitted (c : SocketConf G) (i : ℕ) (s : Socket G) (t : ℕ) : Prop :=
  ∀ c₁ s₁, Reaches (socketsStep G K perMinute burstSize) c c₁ → c₁.tasks[i]? = some s₁ →
    s₁.checks = s.checks →
    ∀ payload now c₂ s₂, socketsStep G K perMinute burstSize c₁
      (.task i (.message payload t now)) = some c₂ →
    c₂.tasks[i]? = some s₂ → s₂.passed = s₁.passed ++ [t]

theorem socketsStep_task {c c' : SocketConf G} {i : ℕ} {s s' : Socket G} {a : SocketAct}
    (hs : c.tasks[i]? = some s)
    (h : socketsStep G K perMinute burstSize c (.task i a) = some c')
    (hs' : c'.tasks[i]? = some s') : ∃ P', SocketStep K i c.shared s a P' s' := by
  obtain ⟨u, P', u', hu, hr, rfl⟩ := Tasks.step_task h
  obtain rfl : u = s := Option.some.inj (hu.symm.trans hs)
  dsimp only at hs'
  rw [List.getElem?_set_self (List.getElem?_eq_some_iff.mp hs).1] at hs'
  cases hs'
  exact ⟨P', socketStep_cases hr⟩

variable (K perMinute burstSize) in
theorem socketsStep_limited {c : SocketConf G} {i : ℕ} {s : Socket G} (hs : c.tasks[i]? = some s)
    (hpc : s.pc = .next) {t : ℕ} {notUntil : G.NotUntil}
    (hc : (G.check s.limiter t).1 = .error notUntil) (payload : Bytes) (now : ℕ) :
    ∃ c' s', socketsStep G K perMinute burstSize c (.task i (.message payload t now)) = some c' ∧
      c'.tasks[i]? = some s' ∧ s'.passed = s.passed ∧ s'.checks = s.checks ++ [t] ∧
      s'.pc = .limited ∧ s'.replies =
        s.replies ++ [(payload, .rateLimited (G.waitTimeFrom notUntil now / nanosPerSec))] := by
  have hstep : socketsStep G K perMinute burstSize c (.task i (.message payload t now)) =
      some ⟨c.shared.request, c.tasks.set i { (s.take payload t).reply payload
        (.rateLimited (G.waitTimeFrom notUntil now / nanosPerSec)) with pc := .limited }⟩ := by
    simp [Tasks.Program.step, socketProgram, hs, socketStep, hpc, hc]
  exact ⟨_, _, hstep, List.getElem?_set_self (List.getElem?_eq_some_iff.mp hs).1, rfl, rfl, rfl,
    rfl⟩

/-- The next message is passed on exactly if the limiter has a cell then. -/
theorem nextAdmitted_iff (hG : G.Lawful) {maxConnections : ℕ} {c : SocketConf G} {i : ℕ}
    {s : Socket G}
    (hc : Reaches (socketsStep G K perMinute burstSize) (socketInit G maxConnections) c)
    (hs : c.tasks[i]? = some s) (hpc : s.pc = .limited) (t : ℕ) :
    NextAdmitted G K perMinute burstSize c i s t ↔
      Gcra.earliest (binaryQuota perMinute burstSize)
        (Gcra.after (binaryQuota perMinute burstSize) 0 s.checks) ≤ t := by
  have hlt : i < c.tasks.length := (List.getElem?_eq_some_iff.mp hs).1
  constructor
  · intro h
    -- the reply is sent, and then the message is taken
    let s₁ : Socket G := { s with pc := .next }
    let c₁ : SocketConf G := ⟨c.shared.count .rateLimited, c.tasks.set i s₁⟩
    have hs₁ : c₁.tasks[i]? = some s₁ := List.getElem?_set_self hlt
    have hstep₁ : socketsStep G K perMinute burstSize c (.task i (.sent true)) = some c₁ := by
      simp [Tasks.Program.step, socketProgram, hs, socketStep, hpc, c₁, s₁]
    by_contra hno
    have hm := metered_reaches hG hc hs
    cases hcheck : (G.check s.limiter t).1 with
    | ok _ => exact hno ((hm.check hG t).mp hcheck)
    | error notUntil =>
      obtain ⟨c₂, s₂, hstep₂, hs₂, hpassed, -⟩ :=
        socketsStep_limited K perMinute burstSize hs₁ rfl hcheck [] t
      have hsame := h c₁ s₁ ((Reaches.refl c).snoc hstep₁) hs₁ rfl [] t _ _ hstep₂ hs₂
      have hlen := congrArg List.length (hsame.symm.trans hpassed)
      simp at hlen
  · intro hle c₁ s₁ hc₁ hs₁ hchecks payload now c₂ s₂ hstep hs₂
    have hm := metered_reaches hG (hc.trans hc₁) hs₁
    have hok : (G.check s₁.limiter t).1 = .ok () := by
      rw [hm.check hG, hchecks]
      exact hle
    obtain ⟨P', hstep'⟩ := socketsStep_task hs₁ hstep hs₂
    cases hstep' with
    | limit hpc₁ hc₁ =>
      rw [hok] at hc₁
      cases hc₁
    | pass hpc₁ hc₁ => rfl

/-- **The retry delay.** A client that waits for it is admitted next exactly if the time until the
next cell, from when the rejection was answered, is a whole number of seconds. -/
theorem retry_after_iff (hG : G.Lawful) {maxConnections : ℕ} {c c' : SocketConf G} {i : ℕ}
    {s s' : Socket G} {payload : Bytes} {checkedAt now w : ℕ}
    (hc : Reaches (socketsStep G K perMinute burstSize) (socketInit G maxConnections) c)
    (hs : c.tasks[i]? = some s)
    (h : socketsStep G K perMinute burstSize c (.task i (.message payload checkedAt now)) = some c')
    (hs' : c'.tasks[i]? = some s')
    (hw : s'.replies = s.replies ++ [(payload, .rateLimited w)]) :
    (∀ t, now + w * nanosPerSec ≤ t → NextAdmitted G K perMinute burstSize c' i s' t) ↔
      nanosPerSec ∣ Gcra.wait (binaryQuota perMinute burstSize)
        (Gcra.after (binaryQuota perMinute burstSize) 0 s.checks) now := by
  have hm := metered_reaches hG hc hs
  have hc' := hc.snoc h
  obtain ⟨P', hstep⟩ := socketsStep_task hs h hs'
  cases hstep with
  | pass hpc hcheck =>
    have hlen := congrArg List.length hw
    simp [Socket.take] at hlen
  | @limit _ _ _ notUntil hpc hcheck =>
    have hw' : w = G.waitTimeFrom notUntil now / nanosPerSec := by
      have := List.append_cancel_left hw
      simpa using this.symm
    have hwait := hG.waits (binaryQuota perMinute burstSize) s.checks checkedAt notUntil now
      (hm.limiter ▸ hcheck)
    have hafter : Gcra.after (binaryQuota perMinute burstSize) 0 (s.checks ++ [checkedAt]) =
        Gcra.after (binaryQuota perMinute burstSize) 0 s.checks := by
      have hno : ¬ Gcra.earliest (binaryQuota perMinute burstSize)
          (Gcra.after (binaryQuota perMinute burstSize) 0 s.checks) ≤ checkedAt := by
        rw [← hm.check hG, hcheck]
        nofun
      rw [Gcra.after_snoc, Gcra.arrive, if_neg hno]
    rw [hw'.trans (congrArg (· / nanosPerSec) hwait), ← Gcra.wait_dvd_iff]
    refine forall_congr' fun t => imp_congr_right fun _ => ?_
    refine (nextAdmitted_iff hG hc' hs' rfl t).trans ?_
    dsimp only [Socket.reply, Socket.take]
    rw [hafter]

/-- A socket takes a message at time 0, and its empty request is refused. -/
def retryRun : List SocketsAct :=
  [.spawn (), .task 0 (.message [] 0 0), .task 0 (.send .begin), .task 0 (.sent true)]

theorem retryRun_socket :
    ∀ perMinute ∈ [40, 60], ∃ c s, exec (socketsStep gcraGovernor wirePort perMinute 1)
      (socketInit gcraGovernor 1) retryRun = some c ∧ c.tasks[0]? = some s ∧ s.pc = .next ∧
      s.checks = [0] := by
  have hrun : ∀ perMinute ∈ [40, 60], (exec (socketsStep gcraGovernor wirePort perMinute 1)
      (socketInit gcraGovernor 1) retryRun).bind (fun c => (c.tasks[0]?).map fun s =>
        (s.pc, s.checks)) = some (.next, [0]) := by
    intro perMinute h
    simp only [List.mem_cons, List.not_mem_nil, or_false] at h
    rcases h with rfl | rfl <;> rfl
  intro perMinute h
  obtain ⟨c, s, hc, hs, hfields⟩ := exec_observed (hrun perMinute h)
  obtain ⟨hpc, hchecks⟩ := Prod.mk.inj hfields
  exact ⟨c, s, hc, hs, hpc, hchecks⟩

theorem retryRun_limited {perMinute : ℕ} (h : perMinute ∈ [40, 60]) :
    ∃ c s c' s', Reaches (socketsStep gcraGovernor wirePort perMinute 1)
        (socketInit gcraGovernor 1) c ∧ c.tasks[0]? = some s ∧ s.checks = [0] ∧
      socketsStep gcraGovernor wirePort perMinute 1 c (.task 0 (.message [] 0 0)) = some c' ∧
      c'.tasks[0]? = some s' ∧ s'.pc = .limited ∧ s'.checks = [0, 0] ∧
      s'.replies = s.replies ++ [([], .rateLimited 1)] := by
  have hfacts : ∀ perMinute ∈ [40, 60],
      ¬ Gcra.earliest (binaryQuota perMinute 1) (Gcra.after (binaryQuota perMinute 1) 0 [0]) ≤ 0 ∧
      Gcra.wait (binaryQuota perMinute 1) (Gcra.after (binaryQuota perMinute 1) 0 [0]) 0 /
        nanosPerSec = 1 := by
    decide
  obtain ⟨hno, hwait⟩ := hfacts perMinute h
  obtain ⟨c, s, hc, hs, hpc, hchecks⟩ := retryRun_socket perMinute h
  have hm := metered_reaches gcraGovernor_lawful ⟨_, hc⟩ hs
  cases hcheck : (gcraGovernor.check s.limiter 0).1 with
  | ok _ =>
    have hle := (hm.check gcraGovernor_lawful 0).mp hcheck
    rw [hchecks] at hle
    exact absurd hle hno
  | error notUntil =>
    obtain ⟨c', s', hstep, hs', -, hchecks', hpc', hreplies⟩ :=
      socketsStep_limited wirePort perMinute 1 hs hpc hcheck [] 0
    rw [hm.limiter] at hcheck
    rw [gcraGovernor_lawful.waits _ _ _ _ 0 hcheck, hchecks, hwait] at hreplies
    rw [hchecks] at hchecks'
    exact ⟨c, s, c', s', ⟨_, hc⟩, hs, hchecks, hstep, hs', hpc', hchecks', hreplies⟩

theorem retryRun_enough :
    ∃ c s c' s', c.tasks[0]? = some s ∧
      socketsStep gcraGovernor wirePort 60 1 c (.task 0 (.message [] 0 0)) = some c' ∧
      c'.tasks[0]? = some s' ∧ s'.replies = s.replies ++ [([], .rateLimited 1)] ∧
      ∀ t, 0 + 1 * nanosPerSec ≤ t → NextAdmitted gcraGovernor wirePort 60 1 c' 0 s' t := by
  obtain ⟨c, s, c', s', hc, hs, hchecks, hstep, hs', -, -, hw⟩ :=
    retryRun_limited (show 60 ∈ [40, 60] by decide)
  refine ⟨c, s, c', s', hs, hstep, hs', hw, ?_⟩
  refine (retry_after_iff gcraGovernor_lawful hc hs hstep hs' hw).mpr ?_
  rw [hchecks]
  decide

/-- **A retry delay that is too short.** With 40 messages a minute the next cell comes after 1.5
seconds. -/
theorem retry_too_early :
    ∃ c s c' s', Reaches (socketsStep gcraGovernor wirePort 40 1) (socketInit gcraGovernor 1) c ∧
      c.tasks[0]? = some s ∧
      socketsStep gcraGovernor wirePort 40 1 c (.task 0 (.message [] 0 0)) = some c' ∧
      c'.tasks[0]? = some s' ∧ s'.replies = s.replies ++ [([], .rateLimited 1)] ∧
      ¬ NextAdmitted gcraGovernor wirePort 40 1 c' 0 s' (0 + 1 * nanosPerSec) := by
  obtain ⟨c, s, c', s', hc, hs, -, hstep, hs', hpc', hchecks', hw⟩ :=
    retryRun_limited (show 40 ∈ [40, 60] by decide)
  refine ⟨c, s, c', s', hc, hs, hstep, hs', hw, ?_⟩
  rw [nextAdmitted_iff gcraGovernor_lawful (hc.snoc hstep) hs' hpc', hchecks']
  decide

end CasperNodeProxy
