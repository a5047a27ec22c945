import Mathlib.Data.List.Nodup
import Mathlib.Data.List.Perm.Basic
import CasperNodeProxy.Binary.Pool

/-!
# What arrives on the streams

* `streamsOf`: the streams there are, those of the idle connections and those that calls hold.
* **`streams_unique`**: no two of them have the same number.
* `inbox`, `arrivals`: what a stream has received and the upstream has not taken yet, and what a
  step adds to that for one call.
* **`arrivals_eq_writes`**: a step adds what its call was about to write.
-/

namespace CasperNodeProxy

open Run Wire

/-! ## The streams there are -/

/-- The stream of the connection that a call holds. -/
def Call.held (t : Call) : List TcpStream :=
  match t.pc with
  | .exchange _ conn _ | .reconnect conn | .returnConnection conn _ => [conn.stream]
  | _ => []

/-- The streams of the idle connections. -/
def BinaryPool.idle (P : BinaryPool) : List TcpStream := P.pool.map PooledConnection.stream

/-- The streams of the idle connections and of the calls. -/
def streamsOf (c : PoolConf) : List TcpStream := c.shared.idle ++ c.tasks.flatMap Call.held

/-- How many streams have the number `s`. -/
def streamCount (s : ℕ) (l : List TcpStream) : ℕ := (l.map TcpStream.id).count s

/-- How many streams may have the number `s`. -/
def allowed (s : ℕ) (P : BinaryPool) : ℕ := if s < P.opened then 1 else 0

/-- No two streams have the same number. -/
def Unique (l : List TcpStream) : Prop := ∀ x ∈ l, ∀ y ∈ l, x.id = y.id → x = y

section Count

variable (s : ℕ) (x : TcpStream) (l : List TcpStream)

@[simp] theorem streamCount_nil : streamCount s [] = 0 := rfl

theorem streamCount_cons :
    streamCount s (x :: l) = streamCount s l + if x.id = s then 1 else 0 := by
  simp [streamCount, List.count_cons]

end Count

theorem unique_of_streamCount {l : List TcpStream} (h : ∀ s, streamCount s l ≤ 1) : Unique l := by
  have hn : (l.map TcpStream.id).Nodup := List.nodup_iff_count_le_one.mpr h
  exact fun x hx y hy he => List.inj_on_of_nodup_map hn hx hy he

theorem allowed_succ (s : ℕ) (P : BinaryPool) :
    allowed s P + (if P.opened = s then 1 else 0) ≤
      allowed s { P with opened := P.opened + 1 } := by
  unfold allowed
  dsimp only
  split_ifs <;> omega

theorem allowed_congr {s : ℕ} {P P' : BinaryPool} (h : P'.opened = P.opened) :
    allowed s P' = allowed s P := by
  unfold allowed
  rw [h]

theorem idleStep_eq {P P' : BinaryPool} {a : IdleAct} (h : idleStep P a = some P') :
    ∃ conn x, P.pool[a.index]? = some conn ∧ conn.stream.upstream a.act = some x ∧
      P' = { P with pool := P.pool.set a.index ⟨x⟩ } := by
  simp only [idleStep, Option.bind_eq_some_iff, Option.map_eq_some_iff] at h
  obtain ⟨conn, hconn, x, hx, rfl⟩ := h
  exact ⟨conn, x, hconn, hx, rfl⟩

variable {K : BinaryPort}

theorem sendStep_streamCount {i : ℕ} {P P' : BinaryPool} {t t' : Call} {a : SendAct}
    (h : sendStep K i P t a = some (P', t')) (s : ℕ) :
    streamCount s P'.idle + streamCount s t'.held + allowed s P ≤
      streamCount s P.idle + streamCount s t.held + allowed s P' := by
  cases sendStep_cases h with
  | @pop conn rest hc hp =>
    have hsame : allowed s { P with pool := rest } = allowed s P := allowed_congr rfl
    simp only [BinaryPool.idle, hp, Call.held, Call.exchange, hc, List.map_cons, streamCount_cons,
      streamCount_nil, hsame]
    omega
  | @putBack conn rewritten hc =>
    have hsame : allowed s (({ P with pool := conn :: P.pool }.count .ok).leave) = allowed s P :=
      allowed_congr rfl
    rw [hsame]
    simp only [BinaryPool.idle, Call.held, Call.finish, hc, BinaryPool.leave, BinaryPool.count,
      List.map_cons, streamCount_cons, streamCount_nil]
    omega
  | connected hc | reconnected hc =>
    have hnew := allowed_succ s P
    simp only [BinaryPool.idle, Call.held, Call.exchange, hc, TcpStream.connect, streamCount_cons,
      streamCount_nil]
    omega
  | upstreamExchange hc hs | upstreamReconnect hc hs | upstreamReturn hc hs =>
    simp [Call.held, hc, streamCount, TcpStream.upstream_id hs]
  | cancelBefore | cancelHolding | cancelStart | connectFailed | reconnectFailed | exchangeFailed
  | unanswerable | reject | unavailable =>
    -- the call holds nothing any more
    exact Nat.add_le_add_right (Nat.le_add_right _ _) _
  | accept hc =>
    have hsame : allowed s P.enter = allowed s P := allowed_congr rfl
    have hidle : P.enter.idle = P.idle := rfl
    simp [Call.held, hc, hidle, hsame]
  | @acquired sem hc hs =>
    have hsame : allowed s { P with semaphore := sem } = allowed s P := allowed_congr rfl
    simp [Call.held, hc, BinaryPool.idle, hsame]
  | wait hc | retry hc | write hc | flush hc | readLength hc | readMore hc | replied hc =>
    simp [Call.held, hc, streamCount, BinaryPool.idle, TcpStream.skip]

/-- **No two streams have the same number.** -/
theorem streams_unique {maxConnections : ℕ} {c : PoolConf}
    (h : Reaches (poolStep K) (poolInit maxConnections) c) : Unique (streamsOf c) := by
  refine unique_of_streamCount fun s => ?_
  have hle : Tasks.total (fun P => streamCount s P.idle) (fun t => streamCount s t.held) c ≤
      allowed s c.shared := by
    refine Tasks.Reaches.bounded (fun i P t a P' t' hs => sendStep_streamCount hs s)
      (fun P e P' hs => ?_) (fun _ => rfl) h (Nat.zero_le _)
    obtain ⟨conn, x, hconn, hx, rfl⟩ := idleStep_eq hs
    obtain ⟨hlt, rfl⟩ := List.getElem?_eq_some_iff.mp hconn
    have hids : (P.pool.map fun d => d.stream.id).set e.index x.id =
        P.pool.map fun d => d.stream.id := by
      have hlt' : e.index < (P.pool.map fun d => d.stream.id).length := by simpa using hlt
      have hget : (P.pool.map fun d => d.stream.id)[e.index] = x.id := by
        simp [TcpStream.upstream_id hx]
      rw [← hget, List.set_getElem_self]
    have hsame : allowed s { P with pool := P.pool.set e.index ⟨x⟩ } = allowed s P :=
      allowed_congr rfl
    simp [streamCount, BinaryPool.idle, hids, Function.comp_def, hsame]
  have hone : allowed s c.shared ≤ 1 := by
    unfold allowed
    split_ifs <;> omega
  have htotal : streamCount s (streamsOf c) =
      Tasks.total (fun P => streamCount s P.idle) (fun t => streamCount s t.held) c := by
    simp [streamsOf, Tasks.total, streamCount, List.map_flatMap, List.count_flatMap,
      Function.comp_def]
  omega

/-! ## What a step puts on a stream -/

/-- What the stream `s` has received and the upstream has not taken yet; nothing when there is no
such stream. -/
def inbox (s : ℕ) (c : PoolConf) : List (ℕ × UInt8) :=
  ((streamsOf c).find? fun x => x.id = s).elim [] TcpStream.inbox

/-- The bytes of call `i` that arrive on the stream `s` in a step. -/
def arrivals (K : BinaryPort) (i s : ℕ) (c : PoolConf) (a : PoolAct) : Bytes :=
  match poolStep K c a with
  | some c' => (((inbox s c').drop (inbox s c).length).filter fun b => b.1 = i).map Prod.snd
  | none => []

/-- The stream that is being written to, and what is left to write. -/
def Pc.writing : Pc → Option (ℕ × Bytes)
  | .exchange _ conn (.write left) => some (conn.stream.id, left)
  | _ => none

/-- What a call is about to write on stream `s` in a step. -/
def Call.writes (t : Call) (s : ℕ) : SendAct → Bytes
  | .write n =>
    match t.pc.writing with
    | some (r, left) => if r = s then left.take n else []
    | none => []
  | _ => []

/-- The same in a step of the pool, for call `i`. -/
def writes (i s : ℕ) (c : PoolConf) : PoolAct → Bytes
  | .task j a => if j = i then (c.tasks[i]?).elim [] fun t => t.writes s a else []
  | _ => []

theorem TcpStream.upstream_inbox {x x' : TcpStream} {u : UpstreamAct}
    (h : x.upstream u = some x') : ∃ n, x'.inbox = x.inbox.drop n := by
  cases u with
  | answer reply =>
    simp only [upstream, answer] at h
    split at h
    · cases h
      exact ⟨_, rfl⟩
    · cases h
  | close kept =>
    cases h
    exact ⟨0, rfl⟩

theorem inbox_eq {c : PoolConf} (hu : Unique (streamsOf c)) {x : TcpStream}
    (hx : x ∈ streamsOf c) : inbox x.id c = x.inbox := by
  unfold inbox
  cases hf : (streamsOf c).find? fun y => y.id = x.id with
  | none =>
    have hno := List.find?_eq_none.mp hf x hx
    simp at hno
  | some y =>
    have hid : y.id = x.id := by simpa using List.find?_some hf
    rw [hu y (List.mem_of_find?_eq_some hf) x hx hid]
    rfl

theorem mem_of_inbox {s : ℕ} {c : PoolConf} (h : inbox s c ≠ []) :
    ∃ x ∈ streamsOf c, x.id = s ∧ inbox s c = x.inbox := by
  unfold inbox at h ⊢
  cases hf : (streamsOf c).find? fun y => y.id = s with
  | none => exact absurd rfl (hf ▸ h)
  | some y => exact ⟨y, List.mem_of_find?_eq_some hf, by simpa using List.find?_some hf, rfl⟩

/-- `x'` is new, or it is a stream from before of which the upstream may have taken something. -/
def Unwritten (l : List TcpStream) (x' : TcpStream) : Prop :=
  x'.inbox = [] ∨ ∃ x ∈ l, x.id = x'.id ∧ ∃ n, x'.inbox = x.inbox.drop n

theorem Unwritten.same {l : List TcpStream} {x : TcpStream} (h : x ∈ l) : Unwritten l x :=
  .inr ⟨x, h, rfl, 0, rfl⟩

theorem Unwritten.skip {l : List TcpStream} {x : TcpStream} (h : x ∈ l) (n : ℕ) :
    Unwritten l (x.skip n) := .inr ⟨x, h, rfl, 0, rfl⟩

theorem Unwritten.upstream {l : List TcpStream} {x x' : TcpStream} {u : UpstreamAct} (h : x ∈ l)
    (hu : x.upstream u = some x') : Unwritten l x' :=
  .inr ⟨x, h, (TcpStream.upstream_id hu).symm, TcpStream.upstream_inbox hu⟩

theorem Unwritten.mono {l l' : List TcpStream} (hl : l ⊆ l') {x : TcpStream}
    (h : Unwritten l x) : Unwritten l' x := by
  rcases h with hnil | ⟨y, hy, hrest⟩
  · exact .inl hnil
  · exact .inr ⟨y, hl hy, hrest⟩

theorem drop_inbox {s : ℕ} {c c' : PoolConf} (hu : Unique (streamsOf c))
    (h : ∀ x ∈ streamsOf c', x.id = s → Unwritten (streamsOf c) x) :
    (inbox s c').drop (inbox s c).length = [] := by
  rw [List.drop_eq_nil_iff]
  by_cases hnil : inbox s c' = []
  · rw [hnil]
    exact Nat.zero_le _
  · obtain ⟨x', hx', rfl, he⟩ := mem_of_inbox hnil
    rcases h x' hx' rfl with hempty | ⟨x, hx, hid, n, hdrop⟩
    · exact absurd (he.trans hempty) hnil
    · rw [he, hdrop, ← hid, inbox_eq hu hx, List.length_drop]
      exact Nat.sub_le _ _

theorem Unwritten.of_held {idle held held' : List TcpStream} {x : TcpStream}
    (hx : x ∈ idle ++ held') (h : x ∈ held' → Unwritten (idle ++ held) x) :
    Unwritten (idle ++ held) x := by
  rcases List.mem_append.mp hx with hx | hx
  · exact .same (List.mem_append_left _ hx)
  · exact h hx

/-- A step of a call writes only where it is about to write. -/
theorem sendStep_unwritten {i : ℕ} {P P' : BinaryPool} {t t' : Call} {a : SendAct}
    (h : sendStep K i P t a = some (P', t')) {x : TcpStream} (hx : x ∈ P'.idle ++ t'.held)
    (hw : t.writes x.id a = []) : Unwritten (P.idle ++ t.held) x := by
  cases sendStep_cases h with
  | @pop conn rest hc hp =>
    refine .same ?_
    simp only [BinaryPool.idle, Call.held, Call.exchange, List.mem_append, hp, List.map_cons,
      List.mem_cons] at hx ⊢
    tauto
  | putBack hc =>
    refine .same ?_
    simp only [BinaryPool.idle, Call.held, Call.finish, BinaryPool.leave, BinaryPool.count, hc,
      List.mem_append, List.map_cons, List.mem_cons] at hx ⊢
    tauto
  | connected hc | reconnected hc =>
    refine .of_held hx fun hx => ?_
    obtain rfl := List.mem_singleton.mp hx
    exact .inl rfl
  | upstreamExchange hc hs | upstreamReconnect hc hs | upstreamReturn hc hs =>
    refine .of_held hx fun hx => ?_
    obtain rfl := List.mem_singleton.mp hx
    exact .upstream (by simp [Call.held, hc]) hs
  | retry hc | flush hc =>
    refine .of_held hx fun hx => ?_
    obtain rfl := List.mem_singleton.mp hx
    exact .same (by simp [Call.held, hc])
  | readLength hc | readMore hc | replied hc =>
    refine .of_held hx fun hx => ?_
    obtain rfl := List.mem_singleton.mp hx
    exact .skip (by simp [Call.held, hc]) _
  | @write attempt conn left n hc h0 hn =>
    refine .of_held hx fun hx => ?_
    obtain rfl := List.mem_singleton.mp hx
    have hnil : left.take n = [] := by simpa [Call.writes, hc, Pc.writing] using hw
    -- but something is left to write
    rcases List.take_eq_nil_iff.mp hnil with rfl | rfl
    · cases h0
    · rw [List.length_nil] at hn
      omega
  | accept | wait | acquired | reject | unavailable | connectFailed | reconnectFailed
  | exchangeFailed | unanswerable | cancelStart | cancelBefore | cancelHolding =>
    -- the call holds nothing
    exact .of_held hx fun hx => absurd hx List.not_mem_nil

/-- The bytes that a call writes arrive on the stream that it holds. -/
theorem sendStep_writes {i s : ℕ} {P P' : BinaryPool} {t t' : Call} {a : SendAct}
    (h : sendStep K i P t a = some (P', t')) (hw : t.writes s a ≠ []) :
    ∃ x ∈ t.held, ∃ x' ∈ t'.held, x.id = s ∧ x'.id = s ∧
      x'.inbox = x.inbox ++ mark i (t.writes s a) := by
  cases sendStep_cases h with
  | @write attempt conn left n hc h0 hn =>
    have hwrites : t.writes s (.write n) = if conn.stream.id = s then left.take n else [] := by
      simp only [Call.writes, hc, Pc.writing]
    by_cases hs : conn.stream.id = s
    · rw [hwrites, if_pos hs]
      exact ⟨conn.stream, by simp [Call.held, hc], conn.stream.write i (left.take n),
        by simp [Call.held], hs, hs, rfl⟩
    · rw [hwrites, if_neg hs] at hw
      exact absurd rfl hw
  | _ => exact absurd rfl hw

theorem held_subset {c : PoolConf} {i : ℕ} {t : Call} (ht : c.tasks[i]? = some t) :
    c.shared.idle ++ t.held ⊆ streamsOf c := by
  intro x hx
  rcases List.mem_append.mp hx with hx | hx
  · exact List.mem_append_left _ hx
  · exact List.mem_append_right _ (List.mem_flatMap.mpr ⟨t, List.mem_of_getElem? ht, hx⟩)

/-- The streams after a step of a call: its own, those of the pool, and the others as before. -/
theorem mem_streamsOf_set {c : PoolConf} {P' : BinaryPool} {i : ℕ} {t' : Call} {x : TcpStream}
    (hx : x ∈ streamsOf ⟨P', c.tasks.set i t'⟩) : x ∈ P'.idle ++ t'.held ∨ x ∈ streamsOf c := by
  rcases List.mem_append.mp hx with hx | hx
  · exact .inl (List.mem_append_left _ hx)
  · obtain ⟨u, hu, hxu⟩ := List.mem_flatMap.mp hx
    rcases List.mem_or_eq_of_mem_set hu with hu | rfl
    · exact .inr (List.mem_append_right _ (List.mem_flatMap.mpr ⟨u, hu, hxu⟩))
    · exact .inl (List.mem_append_right _ hxu)

theorem filter_mark (i j : ℕ) (b : Bytes) :
    ((mark j b).filter fun p => p.1 = i).map Prod.snd = if j = i then b else [] := by
  split_ifs with h
  · rw [List.filter_eq_self.mpr (by simp [mark, h]), map_snd_mark]
  · rw [List.filter_eq_nil_iff.mpr (by simp [mark, h]), List.map_nil]

/-- **What arrives in a step** is what the call whose step it is was about to write. -/
theorem arrivals_eq_writes {c c' : PoolConf} {a : PoolAct} (hu : Unique (streamsOf c))
    (hu' : Unique (streamsOf c')) (h : poolStep K c a = some c') (i s : ℕ) :
    arrivals K i s c a = writes i s c a := by
  unfold arrivals
  rw [h]
  dsimp only
  cases a with
  | env e =>
    obtain ⟨P', he, rfl⟩ := Tasks.step_env h
    obtain ⟨conn, y, hconn, hy, rfl⟩ := idleStep_eq he
    rw [drop_inbox hu fun x hx _ => ?_]
    · rfl
    have hmem : conn.stream ∈ streamsOf c :=
      List.mem_append_left _ (List.mem_map_of_mem (List.mem_of_getElem? hconn))
    rcases List.mem_append.mp hx with hx | hx
    · obtain ⟨d, hd, rfl⟩ := List.mem_map.mp hx
      rcases List.mem_or_eq_of_mem_set hd with hd | rfl
      · exact .same (List.mem_append_left _ (List.mem_map_of_mem hd))
      · exact .upstream hmem hy
    · exact .same (List.mem_append_right _ hx)
  | spawn payload =>
    obtain rfl := Tasks.step_spawn h
    rw [drop_inbox hu fun x hx _ => .same ?_]
    · rfl
    simpa [streamsOf, poolProgram, Call.new, Call.held] using hx
  | task j a =>
    obtain ⟨t, P', t', ht, hr, rfl⟩ := Tasks.step_task h
    have hwrites : writes i s c (.task j a) = if j = i then t.writes s a else [] := by
      by_cases hij : j = i
      · subst hij
        simp [writes, ht]
      · simp [writes, hij]
    by_cases hw : t.writes s a = []
    · rw [drop_inbox hu fun x hx hid => ?_, hwrites, hw, ite_self]
      · rfl
      rcases mem_streamsOf_set hx with hx | hx
      · exact (sendStep_unwritten hr hx (hid ▸ hw)).mono (held_subset ht)
      · exact .same hx
    · obtain ⟨x, hx, x', hx', rfl, hid, hin⟩ := sendStep_writes hr hw
      have hlt := (List.getElem?_eq_some_iff.mp ht).1
      have ht' : (c.tasks.set j t')[j]? = some t' := List.getElem?_set_self hlt
      have hold := inbox_eq hu (held_subset ht (List.mem_append_right _ hx))
      have hnew := inbox_eq hu' (held_subset ht' (List.mem_append_right _ hx'))
      rw [hid] at hnew
      rw [hold, hnew, hin, List.drop_left, filter_mark, hwrites]

end CasperNodeProxy
