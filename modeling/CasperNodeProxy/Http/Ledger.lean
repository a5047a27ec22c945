import CasperNodeProxy.Binary.RateLimit
import CasperNodeProxy.Http.Answers

/-!
# What the server counts and lets through

* `Limited`: the limiters in terms of when they were asked; `limited_reaches`.
* **`requests_limited`**: at most so many requests of one client are let through in a window of
  time, whatever the other clients do.
* **`counts_exact`**: the metrics hold the counts of the requests, each of them once.
* **`method_series_exact`**: the series of the JSON-RPC methods count what was posted, and there is
  a fixed number of them.
-/

namespace CasperNodeProxy

open Run Wire

variable {G : Governor} {F : Framework} {S : SerdeJson} {state : AppState}
  {perMinute burstSize : ℕ}

/-! ## The limiters -/

/-- What a record says of one client. -/
def timesOf (key : String) (record : List (String × ℕ)) : List ℕ :=
  (record.filter fun p => p.1 = key).map Prod.snd

theorem timesOf_snoc (key key' : String) (record : List (String × ℕ)) (time : ℕ) :
    timesOf key (record ++ [(key', time)]) =
      timesOf key record ++ if key' = key then [time] else [] := by
  rw [timesOf, List.filter_append, List.map_append, ← timesOf]
  by_cases h : key' = key
  · simp [h]
  · simp [h]

/-- Each client has a limiter of its own, which was asked at the times that are recorded. -/
structure Limited (q : Gcra.Quota) (s : Server G) : Prop where
  limiter : ∀ key, s.limiters key = G.afterChecks q (timesOf key s.checks)
  admitted : ∀ key, timesOf key s.admitted = Gcra.admitted q 0 (timesOf key s.checks)

theorem Limited.check (hG : G.Lawful) {q : Gcra.Quota} {s : Server G} (hl : Limited q s)
    (key : String) (time : ℕ) : (G.check (s.limiters key) time).1 = .ok () ↔
      Gcra.earliest q (Gcra.after q 0 (timesOf key s.checks)) ≤ time := by
  rw [hl.limiter]
  exact hG.admits q _ time

theorem Limited.ask {q : Gcra.Quota} {s : Server G} (hl : Limited q s) (key : String) (time : ℕ)
    (k : String) :
    (s.ask key time).limiters k = G.afterChecks q (timesOf k (s.ask key time).checks) := by
  dsimp only [Server.ask]
  rw [timesOf_snoc]
  by_cases h : k = key
  · subst h
    rw [Function.update_self, if_pos rfl, G.afterChecks_snoc, hl.limiter]
  · rw [Function.update_of_ne h, if_neg (Ne.symm h), List.append_nil, hl.limiter]

theorem limited_step (hG : G.Lawful) {q : Gcra.Quota} {s s' : Server G} {t t' : Request}
    (hl : Limited q s) (hs : RequestStep F S state s t s' t') : Limited q s' := by
  cases hs with
  | noKey hpc hip => exact ⟨hl.limiter, hl.admitted⟩
  | @limit key checkedAt notUntil now hpc hip hc =>
    refine ⟨hl.ask key checkedAt, fun k => ?_⟩
    change timesOf k s.admitted = Gcra.admitted q 0 (timesOf k (s.checks ++ [(key, checkedAt)]))
    rw [timesOf_snoc, hl.admitted]
    by_cases h : key = k
    · subst h
      have hno : ¬ Gcra.earliest q (Gcra.after q 0 (timesOf key s.checks)) ≤ checkedAt := by
        rw [← hl.check hG, hc]
        nofun
      rw [if_pos rfl, Gcra.admitted_snoc, if_neg hno, List.append_nil]
    · rw [if_neg h, List.append_nil]
  | @pass key checkedAt hpc hip hc =>
    refine ⟨hl.ask key checkedAt, fun k => ?_⟩
    change timesOf k (s.admitted ++ [(key, checkedAt)]) =
      Gcra.admitted q 0 (timesOf k (s.checks ++ [(key, checkedAt)]))
    rw [timesOf_snoc, timesOf_snoc, hl.admitted]
    by_cases h : key = k
    · subst h
      rw [if_pos rfl, Gcra.admitted_snoc, if_pos ((hl.check hG key checkedAt).mp hc)]
    · rw [if_neg h, List.append_nil, List.append_nil]
  | answer hpc hd => exact ⟨hl.limiter, hl.admitted⟩
  | post hpc hd => exact ⟨hl.limiter, hl.admitted⟩
  | sendError hpc => exact ⟨hl.limiter, hl.admitted⟩
  | head hpc => exact ⟨hl.limiter, hl.admitted⟩
  | body hpc => exact ⟨hl.limiter, hl.admitted⟩
  | disconnect hpc => exact hl

theorem limited_reaches (hG : G.Lawful) {c : ServerConf G}
    (h : Reaches (serverStep F S G state) (serverInit G perMinute burstSize) c) :
    Limited (binaryQuota perMinute burstSize) c.shared := by
  refine h.invariant (I := fun d => Limited (binaryQuota perMinute burstSize) d.shared)
    ⟨fun _ => rfl, fun _ => rfl⟩ fun u a v hu hs => ?_
  cases a with
  | task i a =>
    obtain ⟨t, s', t', ht, hr, rfl⟩ := Tasks.step_task hs
    exact limited_step hG hu (requestStep_cases hr)
  | env e => exact e.elim
  | spawn x =>
    obtain rfl := Tasks.step_spawn hs
    exact hu

/-! ## What is let through -/

/-- When the request was let through, if it is one of this client. -/
def Request.admittedFor (key : String) (t : Request) : List ℕ :=
  if t.incoming.request.clientIp = some key then t.admittedAt.toList else []

theorem admitted_ledger {c : ServerConf G}
    (h : Reaches (serverStep F S G state) (serverInit G perMinute burstSize) c) (key : String) :
    (timesOf key c.shared.admitted).Perm (c.tasks.flatMap (Request.admittedFor key)) := by
  have hnone : ∀ a, Request.admittedFor key (.new a) = [] := by
    intro a
    unfold Request.admittedFor
    split_ifs <;> rfl
  refine tracked_invariant.ledger (g := fun s => timesOf key s.admitted)
    (fun i s t a s' t' ht hr => ?_) (fun _ e => e.elim) hnone rfl h
  cases requestStep_cases hr with
  | @pass key' checkedAt hpc hip hc =>
    refine ⟨_, timesOf_snoc key key' s.admitted checkedAt, ?_⟩
    cases ht with
    | limit a =>
      rw [hnone, List.nil_append, Request.admittedFor, hip]
      simp only [Option.some.injEq, Option.toList_some]
    | _ => cases hpc
  | _ => exact ⟨[], (List.append_nil _).symm, (List.append_nil _).symm⟩

/-- Nothing is let through that has no client. -/
theorem keyed_reaches {c : ServerConf G}
    (h : Reaches (serverStep F S G state) (serverInit G perMinute burstSize) c) {t : Request}
    (ht : t ∈ c.tasks) (hadm : t.admittedAt.isSome) :
    ∃ key, t.incoming.request.clientIp = some key ∧ Request.admittedFor key t ≠ [] := by
  have hkeyed : Tasks.TaskInvariant (serverProgram F S G state) fun t =>
      t.admittedAt.isSome → t.incoming.request.clientIp.isSome := by
    refine ⟨fun i s t a s' t' ht hr => ?_, nofun⟩
    cases requestStep_cases hr with
    | pass hpc hip hc => exact fun _ => by rw [hip]; rfl
    | _ => exact ht
  obtain ⟨i, hi⟩ := List.mem_iff_getElem?.mp ht
  obtain ⟨key, hkey⟩ := Option.isSome_iff_exists.mp (hkeyed.reaches h hi hadm)
  obtain ⟨time, htime⟩ := Option.isSome_iff_exists.mp hadm
  refine ⟨key, hkey, ?_⟩
  simp [Request.admittedFor, hkey, htime]

theorem Tracked.admitted {t : Request} (ht : Tracked F S state t)
    (h : t.posted.isSome ∨ t.opened.isSome) : t.admittedAt.isSome := by
  induction ht with
  | limit a | stopped hr => simp [Request.new] at h
  | dropped ht hpc ih => exact ih h
  | _ => rfl

/-- In a window of time the limiter of a client lets so many requests through, and no more. -/
theorem length_within_admitted (hG : G.Lawful) {c : ServerConf G}
    (h : Reaches (serverStep F S G state) (serverInit G perMinute burstSize) c) (key : String)
    (start span : ℕ) :
    (Gcra.within start span (c.tasks.flatMap (Request.admittedFor key))).length ≤
      max burstSize 1 + span / perMinuteToPeriod perMinute := by
  obtain ⟨hp, hb⟩ := binaryQuota_pos perMinute burstSize
  have hperm := (admitted_ledger h key).filter fun t => start ≤ t ∧ t ≤ start + span
  have hadm := (limited_reaches hG h).admitted key
  calc (Gcra.within start span (c.tasks.flatMap (Request.admittedFor key))).length
      = (Gcra.within start span (timesOf key c.shared.admitted)).length := hperm.length_eq.symm
    _ ≤ max burstSize 1 + span / perMinuteToPeriod perMinute := by
      rw [hadm]
      exact Gcra.count_admitted_le hp hb 0 start span _

/-- **The rate of a client.** In every reachable state, in every window of time, at most so many
requests of a client were let through as the burst and the period allow, whatever other clients do
and in whatever order the requests are handled. Every request for which something was posted or
opened is one of these. -/
theorem requests_limited (hG : G.Lawful) {c : ServerConf G}
    (h : Reaches (serverStep F S G state) (serverInit G perMinute burstSize) c) :
    (∀ key start span, (Gcra.within start span
        (c.tasks.flatMap (Request.admittedFor key))).length ≤
      max burstSize 1 + span / perMinuteToPeriod perMinute) ∧
    ∀ t ∈ c.tasks, t.posted.isSome ∨ t.opened.isSome →
      ∃ key, t.incoming.request.clientIp = some key ∧ Request.admittedFor key t ≠ [] :=
  ⟨length_within_admitted hG h, fun _ ht hdone =>
    keyed_reaches h ht ((tracked_reaches h ht).admitted hdone)⟩

theorem requests_limited_status :
    ∃ (c : ServerConf gcraGovernor) (t : Request), t ∈ c.tasks ∧ t.incoming = statusIncoming ∧
      (∀ key start span, (Gcra.within start span
          (c.tasks.flatMap (Request.admittedFor key))).length ≤
        max 1 1 + span / perMinuteToPeriod 60) ∧
      ∃ key, t.incoming.request.clientIp = some key ∧ Request.admittedFor key t ≠ [] := by
  obtain ⟨c, t, h, ht, hinc, -, hposted, -, -⟩ := statusIncoming_answered
  obtain ⟨hrate, hall⟩ := requests_limited gcraGovernor_lawful h
  refine ⟨c, t, ht, hinc, hrate, hall t ht (.inl ?_)⟩
  rw [hposted, serve, statusIncoming_dispatch]
  rfl

/-! ## What is counted -/

/-- What a request is counted as by `track_http`. -/
def Request.httpCounts (t : Request) : List HttpCount :=
  match t.pc with
  | .answered response => (trackHttp Response.status (fun _ => response) t.incoming.request).1
  | _ => []

theorem http_ledger {c : ServerConf G}
    (h : Reaches (serverStep F S G state) (serverInit G perMinute burstSize) c) :
    c.shared.http.Perm (c.tasks.flatMap Request.httpCounts) := by
  refine tracked_invariant.ledger (g := Server.http) (fun i s t a s' t' _ hr => ?_)
    (fun _ e => e.elim) (fun _ => rfl) rfl h
  have unanswered : ∀ {t : Request}, (∀ response, t.pc ≠ .answered response) →
      t.httpCounts = [] := by
    intro t hpc
    unfold Request.httpCounts
    split
    · next response hr => exact absurd hr (hpc response)
    · rfl
  cases requestStep_cases hr with
  | noKey hpc | limit hpc | answer hpc | sendError hpc | body hpc =>
    refine ⟨_, rfl, ?_⟩
    rw [unanswered (t := t) (by simp [hpc])]
    rfl
  | pass hpc | post hpc | head hpc =>
    refine ⟨[], (List.append_nil _).symm, ?_⟩
    rw [unanswered (t := t) (by simp [hpc])]
    rfl
  | disconnect hpc =>
    refine ⟨[], (List.append_nil _).symm, ?_⟩
    rw [unanswered (t := t) hpc]
    rfl

theorem rpc_ledger {c : ServerConf G}
    (h : Reaches (serverStep F S G state) (serverInit G perMinute burstSize) c) :
    c.shared.rpc.Perm (c.tasks.flatMap Request.rpc) := by
  refine tracked_invariant.ledger (g := Server.rpc) (fun i s t a s' t' _ hr => ?_)
    (fun _ e => e.elim) (fun _ => rfl) rfl h
  cases requestStep_cases hr with
  | post hpc | sendError hpc | head hpc | body hpc => exact ⟨_, rfl, rfl⟩
  | _ => exact ⟨[], (List.append_nil _).symm, (List.append_nil _).symm⟩

/-- A request is counted as it is on its own, as far as it came. -/
theorem Tracked.counts {t : Request} (ht : Tracked F S state t) :
    (t.posted = none → t.rpc = []) ∧
    ∃ upstream, Agrees upstream t ∧ t.rpc <+: (serve F S state upstream t.incoming).rpc := by
  have unreplied : ∀ {t : Request}, t.reply = none → ∀ upstream, Agrees upstream t := by
    intro t hr upstream p reply _ hreply
    rw [hr] at hreply
    cases hreply
  induction ht with
  | limit a | stopped hr | route a time | answered time hd =>
    exact ⟨fun _ => rfl, fun _ _ => .sendError "", unreplied rfl _, List.nil_prefix⟩
  | upstream time hd =>
    refine ⟨fun hp => (by cases hp), fun _ _ => .sendError "", unreplied rfl _, ?_⟩
    simp only [Request.new, serve, hd]
    exact List.prefix_append [_] _
  | body time hd status contentType =>
    refine ⟨fun hp => (by cases hp), fun _ _ => .response status contentType (.ok []),
      unreplied rfl _, ?_⟩
    simp only [Request.new, serve, hd, relay_response]
    exact List.prefix_rfl
  | relayed time hd reply =>
    refine ⟨fun hp => (by cases hp), fun _ _ => reply, ?_, ?_⟩
    · rintro p reply' hp hr
      cases hr
      rfl
    · simp only [Request.new, serve, hd]
      exact List.prefix_rfl
  | dropped ht hpc ih => exact ih

/-- **Nothing is counted twice or lost.** In every reachable state, the metrics hold the counts of
`track_http` for every request that is answered, once, and nothing for the others; and they hold the
counts of `rpc_proxy` for every request as far as it came, which are those of the request on its
own. -/
theorem counts_exact {c : ServerConf G}
    (h : Reaches (serverStep F S G state) (serverInit G perMinute burstSize) c) :
    c.shared.http.Perm (c.tasks.flatMap Request.httpCounts) ∧
    c.shared.rpc.Perm (c.tasks.flatMap Request.rpc) ∧
    ∀ t ∈ c.tasks, (t.posted = none → t.rpc = []) ∧
      ∃ upstream, Agrees upstream t ∧ t.rpc <+: (serve F S state upstream t.incoming).rpc :=
  ⟨http_ledger h, rpc_ledger h, fun _ ht => (tracked_reaches h ht).counts⟩

theorem counts_exact_status :
    ∃ (c : ServerConf gcraGovernor) (t : Request), t ∈ c.tasks ∧ t.incoming = statusIncoming ∧
      c.shared.http.Perm (c.tasks.flatMap Request.httpCounts) ∧
      c.shared.rpc.Perm (c.tasks.flatMap Request.rpc) ∧
      ∃ upstream, Agrees upstream t ∧
        t.rpc <+: (serve plainFramework textJson mainnet upstream statusIncoming).rpc := by
  obtain ⟨c, t, h, ht, hinc, -⟩ := statusIncoming_answered
  obtain ⟨hhttp, hrpc, hall⟩ := counts_exact h
  obtain ⟨upstream, hagrees, hpre⟩ := (hall t ht).2
  rw [hinc] at hpre
  exact ⟨c, t, ht, hinc, hhttp, hrpc, upstream, hagrees, hpre⟩

/-! ## The series of the methods -/

variable (F S state) in
/-- The network and the method under which a request was posted. -/
def Request.postedAs (t : Request) : Option (String × String) :=
  match t.posted, dispatch F S state t.incoming with
  | some _, .post networkName method _ _ => some (networkName, method)
  | _, _ => none

theorem count_flatMap_eq_countP {α β : Type} [BEq β] (f : α → List β) (p : α → Bool) (x : β)
    {l : List α} (h : ∀ a ∈ l, (f a).count x = if p a then 1 else 0) :
    (l.flatMap f).count x = l.countP p := by
  induction l with
  | nil => rfl
  | cons a l ih =>
    have hl : ∀ b ∈ l, (f b).count x = if p b then 1 else 0 := fun b hb =>
      h b (List.mem_cons_of_mem _ hb)
    rw [List.flatMap_cons, List.count_append, h a List.mem_cons_self, ih hl, List.countP_cons,
      Nat.add_comm]

theorem nonSuccess_count (networkName n m : String) (status : ℕ) :
    (nonSuccess networkName status).count (.jsonrpcMethod n m) = 0 := by
  unfold nonSuccess
  split_ifs
  · rfl
  · rw [List.count_eq_zero]
    simp

theorem relay_count (networkName n m : String) (sanitizeStatus : Bool) (reply : UpstreamReply) :
    (relay S networkName sanitizeStatus reply).1.count (.jsonrpcMethod n m) = 0 := by
  cases reply with
  | sendError err => rfl
  | response status contentType body =>
    rw [relay_response]
    exact nonSuccess_count networkName n m status

theorem Tracked.count_method {t : Request} (ht : Tracked F S state t) (n m : String) :
    t.rpc.count (.jsonrpcMethod n m) = if t.postedAs F S state = some (n, m) then 1 else 0 := by
  have posted : ∀ (networkName method : String) (rest : List RpcCount),
      rest.count (.jsonrpcMethod n m) = 0 →
      (RpcCount.jsonrpcMethod networkName method :: rest).count (.jsonrpcMethod n m) =
        if some (networkName, method) = some (n, m) then 1 else 0 := by
    intro networkName method rest hrest
    rw [List.count_cons, hrest]
    simp
  induction ht with
  | limit a | stopped hr | route a time | answered time hd => simp [Request.postedAs, Request.new]
  | upstream time hd =>
    simp only [Request.postedAs, Request.new, hd]
    exact posted _ _ _ rfl
  | body time hd status contentType =>
    simp only [Request.postedAs, Request.new, hd]
    exact posted _ _ _ (nonSuccess_count _ _ _ _)
  | relayed time hd reply =>
    simp only [Request.postedAs, Request.new, hd]
    exact posted _ _ _ (relay_count _ _ _ _ _)
  | dropped ht hpc ih => exact ih

/-- **The series of the JSON-RPC methods.** In every reachable state, the series of a network and a
method has as many counts as requests were posted under them; and whatever the clients send, there
are none but those of a configured network and a supported method. -/
theorem method_series_exact {c : ServerConf G}
    (h : Reaches (serverStep F S G state) (serverInit G perMinute burstSize) c) (n m : String) :
    c.shared.rpc.count (.jsonrpcMethod n m) =
      c.tasks.countP (fun t => t.postedAs F S state = some (n, m)) ∧
    (0 < c.shared.rpc.count (.jsonrpcMethod n m) →
      n ∈ state.networks.map Prod.fst ∧ m ∈ supportedJsonrpcMethods) := by
  have hcount : c.shared.rpc.count (.jsonrpcMethod n m) =
      c.tasks.countP (fun t => t.postedAs F S state = some (n, m)) := by
    rw [(rpc_ledger h).count_eq]
    refine count_flatMap_eq_countP _ _ _ fun t ht => ?_
    simp only [(tracked_reaches h ht).count_method, decide_eq_true_eq]
  refine ⟨hcount, fun hpos => ?_⟩
  rw [hcount, List.countP_pos_iff] at hpos
  obtain ⟨t, -, ht⟩ := hpos
  have hposted := of_decide_eq_true ht
  unfold Request.postedAs at hposted
  split at hposted
  · next networkName method url body _ hd =>
    cases hposted
    obtain ⟨-, network, map, hn, -, -, -, hm⟩ := dispatch_post hd
    refine ⟨?_, hm⟩
    unfold AppState.getNetwork at hn
    split at hn
    · next network' hlookup =>
      obtain ⟨l₁, l₂, hl, -⟩ := List.lookup_eq_some_iff.mp hlookup
      rw [hl]
      simp
    · cases hn
  · cases hposted

theorem method_series_exact_status :
    ∃ c : ServerConf gcraGovernor, 0 < c.shared.rpc.count (.jsonrpcMethod "mainnet"
        "info_get_status") ∧ "info_get_status" ∈ supportedJsonrpcMethods := by
  obtain ⟨c, t, h, ht, hinc, -, hposted, -, -⟩ := statusIncoming_answered
  obtain ⟨hcount, hlabels⟩ := method_series_exact h "mainnet" "info_get_status"
  have hpos : 0 < c.shared.rpc.count (.jsonrpcMethod "mainnet" "info_get_status") := by
    rw [hcount, List.countP_pos_iff]
    refine ⟨t, ht, decide_eq_true ?_⟩
    simp only [Request.postedAs, hposted, hinc, serve, statusIncoming_dispatch]
  exact ⟨c, hpos, (hlabels hpos).2⟩

end CasperNodeProxy
