import CasperNodeProxy.Binary.Pool
import CasperNodeProxy.Binary.WireFormat

/-!
# The connection budget

* `PoolConf.free`, `PoolConf.idle`, `PoolConf.held`, `PoolConf.connections`: where the permits and
  the connections are.
* `Moves.conserve`, `Pushes.conserve`: no step creates or loses a permit.
* `Moves.gives_back`: a call that ends without returning its connection frees its permit.
* **`connection_budget`**: the three add up to `max 1 maxConnections` in every reachable state.
-/

namespace CasperNodeProxy

open Run Wire

namespace PoolConf

/-- The available permits. -/
def free (c : PoolConf) : ℕ := c.shared.semaphore.permits

/-- The idle pooled connections. -/
def idle (c : PoolConf) : ℕ := c.shared.pool.length

/-- The permits held by calls in progress. -/
def held (c : PoolConf) : ℕ := (c.tasks.map fun t => t.pc.permits).sum

end PoolConf

/-- The pooled connections a call owns; while it opens its first one it has only the permit. -/
def Pc.connections : Pc → ℕ
  | .exchange _ _ _ | .reconnect _ | .returnConnection _ _ => 1
  | _ => 0

/-- The pooled connections in existence. -/
def PoolConf.connections (c : PoolConf) : ℕ := c.idle + (c.tasks.map fun t => t.pc.connections).sum

/-- The call failed, or its future was dropped. -/
def Call.Aborted (c : Call) : Prop := c.pc = .cancelled ∨ ∃ err, c.pc = .finished (.error err)

variable {K : BinaryPort}

/-! ## One step -/

theorem Moves.conserve {l l' : Ledger} (h : Moves l l') :
    l'.free + l'.idle + l'.held = l.free + l.idle + l.held := by
  cases h <;> dsimp only <;> omega

theorem Pushes.conserve {l l' : Ledger} (h : Pushes l l') :
    l'.free + l'.idle + l'.held = l.free + l.idle + l.held := by
  obtain ⟨a, n, rfl, rfl⟩ := h
  dsimp only
  omega

theorem Moves.gives_back {l l' : Ledger} (h : Moves l l') (h₀ : l'.held = 0) :
    l'.free = l.free + l.held ∧ l'.idle = l.idle := by
  cases h with
  | stay =>
    rw [h₀]
    exact ⟨rfl, rfl⟩
  | wait a => exact ⟨rfl, rfl⟩
  | pop a n => cases h₀
  | acquire a n => cases h₀
  | drop a n => exact ⟨rfl, rfl⟩
  | giveUp a n => exact ⟨rfl, rfl⟩

theorem sendStep_conserve {i : ℕ} {P P' : BinaryPool} {c c' : Call} {a : SendAct}
    (h : sendStep K i P c a = some (P', c')) :
    P'.semaphore.permits + P'.pool.length + c'.pc.permits =
      P.semaphore.permits + P.pool.length + c.pc.permits := by
  rcases sendStep_moves h with ⟨-, hm⟩ | ⟨-, hp⟩
  · exact hm.conserve
  · exact hp.conserve

theorem idleStep_length {P P' : BinaryPool} {a : IdleAct} (h : idleStep P a = some P') :
    P'.semaphore = P.semaphore ∧ P'.pool.length = P.pool.length := by
  simp only [idleStep, Option.bind_eq_some_iff, Option.map_eq_some_iff] at h
  obtain ⟨conn, -, s, -, rfl⟩ := h
  exact ⟨rfl, List.length_set⟩

theorem sendStep_returns {i : ℕ} {P P' : BinaryPool} {c c' : Call} {a : SendAct}
    (hr : c.returns a) (h : sendStep K i P c a = some (P', c')) : ¬ c'.Aborted := by
  obtain ⟨conn, rewritten, hc, rfl⟩ := hr
  simp only [sendStep, hc, Option.some.injEq, Prod.mk.injEq] at h
  obtain ⟨-, rfl⟩ := h
  rintro (h | ⟨err, h⟩) <;> cases h

theorem Call.Aborted.permits {c : Call} (h : c.Aborted) : c.pc.permits = 0 := by
  rcases h with h | ⟨err, h⟩ <;> rw [h] <;> rfl

/-- **A call that fails or is cancelled gives its permit back**, and touches no idle connection. -/
theorem sendStep_aborted {i : ℕ} {P P' : BinaryPool} {c c' : Call} {a : SendAct}
    (h : sendStep K i P c a = some (P', c')) (ha : c'.Aborted) :
    P'.semaphore.permits = P.semaphore.permits + c.pc.permits ∧ P'.pool.length = P.pool.length := by
  rcases sendStep_moves h with ⟨-, hm⟩ | ⟨hr, -⟩
  · exact hm.gives_back ha.permits
  · exact absurd ha (sendStep_returns hr h)

/-- No step creates or loses a permit. -/
theorem budget_step {c c' : PoolConf} {a : PoolAct} (h : poolStep K c a = some c') :
    c'.free + c'.idle + c'.held = c.free + c.idle + c.held :=
  Tasks.conserved (g := fun P : BinaryPool => P.semaphore.permits + P.pool.length)
    (f := fun t : Call => t.pc.permits)
    (fun _ _ _ _ _ _ hs => sendStep_conserve hs)
    (fun _ _ _ hs => by
      obtain ⟨hsem, hlen⟩ := idleStep_length hs
      rw [hsem, hlen])
    (fun _ => rfl) h

/-! ## Every run -/

theorem budget {maxConnections : ℕ} {c : PoolConf}
    (h : Reaches (poolStep K) (poolInit maxConnections) c) :
    c.free + c.idle + c.held = max 1 maxConnections :=
  h.invariant (I := fun d : PoolConf => d.free + d.idle + d.held = max 1 maxConnections)
    (max_comm maxConnections 1) fun _ _ _ hu hs => (budget_step hs).trans hu

theorem connections_le (c : PoolConf) : c.connections ≤ c.idle + c.held := by
  unfold PoolConf.connections PoolConf.held
  refine Nat.add_le_add_left (List.sum_le_sum fun t _ => ?_) _
  cases t.pc <;> simp [Pc.connections, Pc.permits]

/-- **Connection budget.** In every reachable state the available permits, the idle connections and
the permits of calls in progress add up to `max 1 maxConnections`; there are never more pooled
connections than that; and the step with which a call fails or is cancelled makes its permit
available again. -/
theorem connection_budget (maxConnections : ℕ) {c : PoolConf}
    (h : Reaches (poolStep K) (poolInit maxConnections) c) :
    c.free + c.idle + c.held = max 1 maxConnections ∧
    c.connections ≤ max 1 maxConnections ∧
    (∀ i a c' t t', poolStep K c (.task i a) = some c' → c.tasks[i]? = some t →
      c'.tasks[i]? = some t' → t'.Aborted →
      t'.pc.permits = 0 ∧ c'.free = c.free + t.pc.permits ∧ c'.idle = c.idle) := by
  have hb := budget h
  refine ⟨hb, ?_, ?_⟩
  · have := connections_le c
    omega
  · intro i a c' t t' hs ht ht' ha
    obtain ⟨u, P', u', hu, hr, rfl⟩ := Tasks.step_task hs
    obtain rfl : u = t := Option.some.inj (hu.symm.trans ht)
    rw [List.getElem?_set_self (List.getElem?_eq_some_iff.mp hu).1] at ht'
    obtain rfl := Option.some.inj ht'
    obtain ⟨hf, hi⟩ := sendStep_aborted hr ha
    exact ⟨ha.permits, hf, hi⟩

/-- A call that has the only permit and opens its first connection. -/
def connecting : PoolConf :=
  ⟨⟨⟨0, false⟩, [], ⟨0, 0, 0, 0, 1⟩, 0⟩, [⟨uptimeRequest, .connect, []⟩]⟩

theorem connecting_reached : exec (poolStep wirePort) (poolInit 0)
    [.spawn uptimeRequest, .task 0 .begin, .task 0 .lock, .task 0 .acquire] = some connecting := rfl

/-- The node refuses the connection, and the permit is free again. -/
theorem connection_budget_refused :
    connecting.free + connecting.idle + connecting.held = max 1 0 ∧
    ∃ c', poolStep wirePort connecting (.task 0 (.ioError .other)) = some c' ∧
      c'.free = connecting.free + 1 :=
  have h := connection_budget 0 ⟨_, connecting_reached⟩
  ⟨h.1, _, rfl, (h.2.2 0 (.ioError .other) _ _ _ rfl rfl rfl (.inr ⟨_, rfl⟩)).2.1⟩

end CasperNodeProxy
