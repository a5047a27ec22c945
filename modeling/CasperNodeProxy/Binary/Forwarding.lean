import CasperNodeProxy.Binary.Arrivals
import CasperNodeProxy.Binary.Traces

/-!
# Requests go upstream verbatim or not at all

* `Forwardable`, **`checkRequest_eq_ok`**: the payloads that may be forwarded.
* `sent`, `StartsWriting`: the bytes of a call that arrived on a stream during a run, and whether it
  began to write there.
* `Checked`, `Forwards`: the invariants of one call, the second with the run that led to it.
* **`requests_verbatim`**: a call writes the frame of its payload, or a prefix of it, on the streams
  it obtained; a call that may not be forwarded touches nothing and answers with an error reply.
-/

namespace CasperNodeProxy

open Run Wire

variable (K : BinaryPort)

/-! ## Which payloads are forwarded -/

/-- The payload decodes, is not a request for peers, and is not too long. -/
def Forwardable (payload : Bytes) : Prop :=
  ∃ info, Decodes K payload info ∧ info ≠ some .peers ∧ payload.length ≤ maxMessageSizeBytes

/-- The payload decodes but is too long. -/
def Oversize (payload : Bytes) : Prop :=
  (∃ info, Decodes K payload info) ∧ maxMessageSizeBytes < payload.length

variable {K}

theorem Decodes.unique {payload : Bytes} {info info' : Option InformationRequest}
    (h : Decodes K payload info) (h' : Decodes K payload info') : info = info' := by
  obtain ⟨parsed, hp, hi⟩ := parseRequest_eq_ok.mpr h
  obtain ⟨parsed', hp', hi'⟩ := parseRequest_eq_ok.mpr h'
  obtain rfl : parsed = parsed' := Except.ok.inj (hp.symm.trans hp')
  exact hi.symm.trans hi'

/-- **The checks let exactly the forwardable payloads through.** -/
theorem checkRequest_eq_ok {payload : Bytes} :
    checkRequest K payload = .ok () ↔ Forwardable K payload := by
  unfold checkRequest
  cases hp : parseRequest K payload with
  | error err =>
    refine iff_of_false nofun ?_
    rintro ⟨info, hd, -⟩
    obtain ⟨parsed, hp', -⟩ := parseRequest_eq_ok.mpr hd
    rw [hp] at hp'
    cases hp'
  | ok parsed =>
    have hd : Decodes K payload parsed.informationRequest := parseRequest_eq_ok.mp ⟨_, hp, rfl⟩
    dsimp only
    split_ifs with hlen hpeers
    · refine iff_of_false nofun ?_
      rintro ⟨-, -, -, hle⟩
      omega
    · refine iff_of_false nofun ?_
      rintro ⟨info, hd', hne, -⟩
      exact hne (hd'.unique hd ▸ hpeers)
    · exact iff_of_true rfl ⟨_, hd, hpeers, not_lt.mp hlen⟩

/-- A payload that is turned away is too long, or is answered with an error response. -/
theorem checkRequest_eq_error {payload : Bytes} {result : Except BinaryError Bytes}
    (h : checkRequest K payload = .error result) :
    (Oversize K payload ∧
      result = .error (.requestTooLarge maxMessageSizeBytes payload.length)) ∨
    (¬ Oversize K payload ∧ ∃ code, result = buildErrorResponse K code payload) := by
  unfold checkRequest at h
  split at h
  · next err hp =>
    cases h
    refine .inr ⟨?_, _, rfl⟩
    rintro ⟨⟨info, hd⟩, -⟩
    obtain ⟨parsed, hp', -⟩ := parseRequest_eq_ok.mpr hd
    rw [hp] at hp'
    cases hp'
  · next parsed hp =>
    split_ifs at h with hlen hpeers
    · cases h
      exact .inl ⟨⟨⟨_, parseRequest_eq_ok.mp ⟨_, hp, rfl⟩⟩, hlen⟩, rfl⟩
    · cases h
      exact .inr ⟨fun ho => hlen ho.2, _, rfl⟩

/-! ## One call -/

/-- What a call that passed the checks can be doing as long as it has no stream. -/
def Pc.Unconnected : Pc → Prop
  | .exchange _ _ _ | .reconnect _ | .returnConnection _ _ => False
  | .finished result => result = .error .connectionUnavailable ∨ ∃ kind, result = .error (.io kind)
  | _ => True

/-- The call has not passed the checks: it has not begun, or was turned away. -/
def TurnedAway (K : BinaryPort) (t : Call) : Prop :=
  t.pc = .start ∨ t.pc = .cancelled ∨
    ∃ result, t.pc = .finished result ∧ checkRequest K t.payload = .error result

/-- Only a call whose payload passes the checks gets as far as a stream. -/
structure Checked (K : BinaryPort) (t : Call) : Prop where
  accepted : checkRequest K t.payload = .ok () → t.trace = [] → t.pc.Unconnected
  rejected : checkRequest K t.payload ≠ .ok () → t.trace = [] ∧ TurnedAway K t

theorem Checked.ok {t : Call} (h : Checked K t) (hs : t.pc ≠ .start) (hc : t.pc ≠ .cancelled)
    (hf : ∀ result, t.pc ≠ .finished result) : checkRequest K t.payload = .ok () := by
  by_contra hno
  obtain ⟨-, hpc | hpc | ⟨result, hpc, -⟩⟩ := h.rejected hno
  · exact hs hpc
  · exact hc hpc
  · exact hf result hpc

theorem Checked.of_ok {t t' : Call} (hp : t'.payload = t.payload)
    (hok : checkRequest K t.payload = .ok ()) (h : t'.trace = [] → t'.pc.Unconnected) :
    Checked K t' := by
  rw [← hp] at hok
  exact ⟨fun _ => h, fun hno => absurd hok hno⟩

theorem checked_step {i : ℕ} {P P' : BinaryPool} {t t' : Call} {a : SendAct} (ht : Checked K t)
    (h : sendStep K i P t a = some (P', t')) : Checked K t' := by
  have hp := sendStep_payload h
  cases sendStep_cases h with
  | reject hc hr =>
    refine ⟨fun hok => ?_, fun hno => ⟨(ht.rejected hno).1, .inr (.inr ⟨_, rfl, hr⟩)⟩⟩
    cases hr.symm.trans hok
  | cancelStart hc => exact ⟨fun _ _ => trivial, fun hno => ⟨(ht.rejected hno).1, .inr (.inl rfl)⟩⟩
  | cancelBefore | cancelHolding =>
    exact ⟨fun _ _ => trivial, fun hno => ⟨(ht.rejected hno).1, .inr (.inl rfl)⟩⟩
  | accept hc hok => exact .of_ok hp hok fun _ => trivial
  | wait hc | acquired hc =>
    have hok := ht.ok (by simp [hc]) (by simp [hc]) (by simp [hc])
    exact .of_ok hp hok fun _ => trivial
  | unavailable hc =>
    have hok := ht.ok (by simp [hc]) (by simp [hc]) (by simp [hc])
    exact .of_ok hp hok fun _ => .inl rfl
  | connectFailed hc | reconnectFailed hc =>
    have hok := ht.ok (by simp [hc]) (by simp [hc]) (by simp [hc])
    exact .of_ok hp hok fun _ => .inr ⟨_, rfl⟩
  | pop hc | connected hc | reconnected hc | retry hc | exchangeFailed hc | replied hc
  | unanswerable hc =>
    -- the trace of the call gets an event
    have hok := ht.ok (by simp [hc]) (by simp [hc]) (by simp [hc])
    exact .of_ok hp hok fun hnil => absurd hnil (List.append_ne_nil_of_right_ne_nil _ (by simp))
  | write hc | flush hc | readLength hc | readMore hc | putBack hc | upstreamExchange hc
  | upstreamReconnect hc | upstreamReturn hc =>
    -- the call is connected, so its trace was not empty before
    have hok := ht.ok (by simp [hc]) (by simp [hc]) (by simp [hc])
    refine .of_ok hp hok fun hnil => False.elim ?_
    have hun := ht.accepted hok (by simp_all [Call.finish])
    rw [hc] at hun
    exact hun

theorem checked_invariant : Tasks.TaskInvariant (poolProgram K) (Checked K) where
  task _ _ _ _ _ _ ht h := checked_step ht h
  spawn _ := ⟨fun _ _ => trivial, fun _ => ⟨rfl, .inl rfl⟩⟩

/-- A call that is turned away touches neither the semaphore nor a connection. -/
theorem sendStep_turnedAway {i : ℕ} {P P' : BinaryPool} {t t' : Call} {a : SendAct}
    (ht : Checked K t) (hno : checkRequest K t.payload ≠ .ok ())
    (h : sendStep K i P t a = some (P', t')) :
    P'.semaphore = P.semaphore ∧ P'.pool = P.pool ∧ P'.opened = P.opened := by
  cases sendStep_cases h with
  | reject | cancelStart => exact ⟨rfl, rfl, rfl⟩
  | accept _ hok => exact absurd hok hno
  | cancelBefore hc =>
    rcases hc with hc | hc <;>
      exact absurd (ht.ok (by simp [hc]) (by simp [hc]) (by simp [hc])) hno
  | cancelHolding hc =>
    refine absurd (ht.ok ?_ ?_ ?_) hno
    · intro he
      rw [he] at hc
      cases hc
    · intro he
      rw [he] at hc
      cases hc
    · intro result he
      rw [he] at hc
      cases hc
  | pop hc | wait hc | putBack hc | acquired hc | unavailable hc | connected hc | reconnected hc
  | connectFailed hc | reconnectFailed hc | retry hc | exchangeFailed hc | write hc | flush hc
  | readLength hc | readMore hc | replied hc | unanswerable hc | upstreamExchange hc
  | upstreamReconnect hc | upstreamReturn hc =>
    exact absurd (ht.ok (by simp [hc]) (by simp [hc]) (by simp [hc])) hno

/-! ## What a run writes -/

/-- The streams that a call obtained, in order. -/
def streams (trace : List StreamEvent) : List ℕ :=
  trace.filterMap fun
    | .popped s | .opened s => some s
    | _ => none

namespace Call

/-- The call stands at the beginning of `send_and_receive` on stream `s`. -/
def Begins (t : Call) (s : ℕ) : Prop := t.pc.writing = some (s, frame t.payload)

/-- The exchange on stream `s` met an I/O error, or the call was dropped. -/
def Interrupted (t : Call) (s : ℕ) : Prop := (∃ k, .failed s k ∈ t.trace) ∨ t.pc = .cancelled

end Call

/-- Call `i` begins to write on stream `s`. -/
def Begins (i s : ℕ) (c : PoolConf) : Prop := ∃ t, c.tasks[i]? = some t ∧ t.Begins s

section Observed

variable (K) (maxConnections : ℕ) (acts : List PoolAct) (i s : ℕ)

/-- The bytes of call `i` that arrive on stream `s` in a run. -/
def sent : Bytes := outputs (poolStep K) (arrivals K i s) (poolInit maxConnections) acts

/-- Call `i` starts writing to stream `s` in a run. -/
def StartsWriting : Prop := Passes (poolStep K) (Begins i s) (poolInit maxConnections) acts

end Observed

/-- What call `t` has written on each stream (`w`) and where it has begun to write (`begun`). -/
structure Forwards (w : ℕ → Bytes) (begun : ℕ → Prop) (t : Call) : Prop where
  begun_iff : ∀ s, begun s ↔ s ∈ streams t.trace
  unwritten : ∀ s, s ∉ streams t.trace → w s = []
  current : ∀ s left, t.pc.writing = some (s, left) → w s ++ left = frame t.payload
  past : ∀ s ∈ streams t.trace, w s <+: frame t.payload ∧
    (w s = frame t.payload ∨ t.Interrupted s ∨ ∃ left, t.pc.writing = some (s, left))

/-! ## One step -/

theorem streams_append (l₁ l₂ : List StreamEvent) : streams (l₁ ++ l₂) = streams l₁ ++ streams l₂ :=
  List.filterMap_append

theorem streams_wrote (begun : Bool) (s : ℕ) : streams (wrote begun s) = [] := by
  cases begun <;> rfl

theorem Obtained.mem_streams {attempt : Attempt} {s : ℕ} {pre : List StreamEvent}
    (h : Obtained attempt s pre) : s ∈ streams pre := by
  cases h with
  | popped | opened => exact List.mem_singleton_self s
  | reopened => simp [streams]

theorem Obtained.streams_first {s : ℕ} {pre : List StreamEvent} (h : Obtained .first s pre) :
    streams pre = [s] := by
  cases h <;> rfl

/-- A call writes only on a stream that it obtained. -/
theorem TraceOk.writing {i opened s : ℕ} {t : Call} {left : Bytes} (h : TraceOk K i opened t)
    (hw : t.pc.writing = some (s, left)) : s ∈ streams t.trace := by
  unfold TraceOk at h
  unfold Pc.writing at hw
  split at hw
  · next hpc =>
    cases hw
    rw [hpc] at h
    obtain ⟨-, pre, begun, hob, ht, -⟩ := h
    rw [ht, streams_append]
    exact List.mem_append_left _ hob.mem_streams
  · cases hw

theorem TraceOk.reconnect {i opened : ℕ} {t : Call} {conn : PooledConnection}
    (h : TraceOk K i opened t) (hpc : t.pc = .reconnect conn) :
    streams t.trace = [conn.stream.id] ∧ conn.stream.id < opened := by
  unfold TraceOk at h
  rw [hpc] at h
  obtain ⟨hlt, pre, begun, k, hob, -, ht⟩ := h
  refine ⟨?_, hlt⟩
  rw [ht, streams_append, streams_append, hob.streams_first, streams_wrote]
  rfl

section Step

variable {w : ℕ → Bytes} {begun : ℕ → Prop} {i r : ℕ} {left : Bytes} {P P' : BinaryPool}
  {t t' : Call} {a : SendAct}

theorem Forwards.over (ht : Forwards w begun t) (hp : t'.payload = t.payload)
    (hf : ∀ s k, .failed s k ∈ t.trace → .failed s k ∈ t'.trace) (hc : t.pc ≠ .cancelled) {s : ℕ}
    (hm : s ∈ streams t.trace)
    (hw : ∀ left, t.pc.writing = some (s, left) →
      w s = frame t.payload ∨ t'.Interrupted s ∨ ∃ left, t'.pc.writing = some (s, left)) :
    w s <+: frame t'.payload ∧
      (w s = frame t'.payload ∨ t'.Interrupted s ∨ ∃ left, t'.pc.writing = some (s, left)) := by
  obtain ⟨hpre, hend⟩ := ht.past s hm
  rw [hp]
  refine ⟨hpre, ?_⟩
  rcases hend with hfull | (⟨k, hk⟩ | hcan) | ⟨left, h⟩
  · exact .inl hfull
  · exact .inr (.inl (.inl ⟨k, hf s k hk⟩))
  · exact absurd hcan hc
  · exact hw left h

theorem Forwards.start (ht : Forwards w begun t)
    (hpc : t'.pc.writing = some (r, frame t'.payload)) (hnew : r ∉ streams t.trace)
    (hs : streams t'.trace = streams t.trace ++ [r]) (hp : t'.payload = t.payload)
    (hf : ∀ s k, .failed s k ∈ t.trace → .failed s k ∈ t'.trace) (hc : t.pc ≠ .cancelled)
    (hno : t.pc.writing = none) : Forwards w (fun s => begun s ∨ t'.Begins s) t' := by
  refine ⟨fun s => ?_, fun s hn => ?_, fun s left h => ?_, fun s hm => ?_⟩
  · rw [ht.begun_iff, hs, List.mem_append, List.mem_singleton, Call.Begins, hpc]
    simp [eq_comm]
  · exact ht.unwritten s fun h => hn (hs ▸ List.mem_append_left _ h)
  · cases hpc.symm.trans h
    rw [ht.unwritten _ hnew, List.nil_append]
  · rw [hs, List.mem_append, List.mem_singleton] at hm
    rcases hm with hm | rfl
    · exact ht.over hp hf hc hm fun left h => nomatch hno.symm.trans h
    · rw [ht.unwritten _ hnew]
      exact ⟨List.nil_prefix, .inr (.inr ⟨_, hpc⟩)⟩

theorem Forwards.write (ht : Forwards w begun t) {n : ℕ} (hpc : t.pc.writing = some (r, left))
    (hmem : r ∈ streams t.trace) (hpc' : t'.pc.writing = some (r, left.drop n))
    (hs : streams t'.trace = streams t.trace) (hp : t'.payload = t.payload)
    (hf : ∀ s k, .failed s k ∈ t.trace → .failed s k ∈ t'.trace) (hc : t.pc ≠ .cancelled) :
    Forwards (fun s => w s ++ t.writes s (.write n)) (fun s => begun s ∨ t'.Begins s) t' := by
  have hwrites : ∀ s, t.writes s (.write n) = if r = s then left.take n else [] := by
    intro s
    simp only [Call.writes, hpc]
  have hcur : w r ++ t.writes r (.write n) ++ left.drop n = frame t'.payload := by
    rw [hwrites, if_pos rfl, List.append_assoc, List.take_append_drop, hp]
    exact ht.current r left hpc
  refine ⟨fun s => ?_, fun s hn => ?_, fun s l h => ?_, fun s hm => ?_⟩
  · rw [ht.begun_iff, hs]
    refine or_iff_left_of_imp fun h => ?_
    have hrs : r = s := congrArg Prod.fst (Option.some.inj (hpc'.symm.trans h))
    exact hrs ▸ hmem
  · have hne : r ≠ s := fun he => hn (hs ▸ he ▸ hmem)
    rw [hwrites, if_neg hne, List.append_nil]
    exact ht.unwritten s (hs ▸ hn)
  · cases hpc'.symm.trans h
    exact hcur
  · by_cases he : r = s
    · subst he
      exact ⟨⟨_, hcur⟩, .inr (.inr ⟨_, hpc'⟩)⟩
    · rw [hwrites, if_neg he, List.append_nil]
      refine ht.over hp hf hc (hs ▸ hm) fun l h => ?_
      cases hpc.symm.trans h
      exact absurd rfl he

theorem Forwards.keep (ht : Forwards w begun t) (hs : streams t'.trace = streams t.trace)
    (hp : t'.payload = t.payload) (hf : ∀ s k, .failed s k ∈ t.trace → .failed s k ∈ t'.trace)
    (hc : t.pc ≠ .cancelled) (hb : ∀ s, t'.Begins s → s ∈ streams t'.trace)
    (hcur : t'.pc.writing = none ∨ t'.pc.writing = t.pc.writing)
    (hpast : ∀ s left, t.pc.writing = some (s, left) →
      left = [] ∨ t'.Interrupted s ∨ t'.pc.writing = t.pc.writing) :
    Forwards w (fun s => begun s ∨ t'.Begins s) t' := by
  refine ⟨fun s => ?_, fun s hn => ?_, fun s left hw => ?_, fun s hm => ?_⟩
  · rw [ht.begun_iff, hs]
    exact or_iff_left_of_imp fun h => hs ▸ hb s h
  · exact ht.unwritten s (hs ▸ hn)
  · rcases hcur with h | h <;> rw [h] at hw
    · cases hw
    · rw [hp]
      exact ht.current s left hw
  · refine ht.over hp hf hc (hs ▸ hm) fun left h => ?_
    rcases hpast s left h with rfl | hint | hsame
    · exact .inl (by rw [← ht.current s [] h, List.append_nil])
    · exact .inr (.inl hint)
    · exact .inr (.inr ⟨left, hsame.trans h⟩)

theorem Forwards.idle (ht : Forwards w begun t) (hs : streams t'.trace = streams t.trace)
    (hp : t'.payload = t.payload) (hf : ∀ s k, .failed s k ∈ t.trace → .failed s k ∈ t'.trace)
    (hc : t.pc ≠ .cancelled) (hpc : t.pc.writing = none) (hpc' : t'.pc.writing = none) :
    Forwards w (fun s => begun s ∨ t'.Begins s) t' :=
  ht.keep hs hp hf hc (fun _ h => nomatch hpc'.symm.trans h) (.inl hpc')
    (fun _ _ h => nomatch hpc.symm.trans h)

theorem Reads.not_writing {s : TcpStream} {n len : ℕ} {io : Io} {head buf : List (Answer × UInt8)}
    (h : Reads s n io len head buf) (attempt : Attempt) (conn : PooledConnection) :
    (Pc.exchange attempt conn io).writing = none := by
  cases h <;> rfl

/-- **What a step of a call writes.** -/
theorem forwards_step (htr : TraceOk K i P.opened t) (htr' : TraceOk K i P'.opened t')
    (ht : Forwards w begun t) (h : sendStep K i P t a = some (P', t')) :
    Forwards (fun s => w s ++ t.writes s a) (fun s => begun s ∨ t'.Begins s) t' := by
  have hp := sendStep_payload h
  have hbegins : ∀ s, t'.Begins s → s ∈ streams t'.trace := fun s hb => htr'.writing hb
  have hempty : t.pc = .getConnection ∨ t.pc = .connect → t.trace = [] := by
    intro hc
    unfold TraceOk at htr
    rcases hc with hc | hc <;> rw [hc] at htr <;> exact htr
  cases sendStep_cases h with
  | @write attempt conn left n hc h0 hn =>
    have hw : t.pc.writing = some (conn.stream.id, left) := by rw [hc]; rfl
    refine ht.write hw (htr.writing hw) rfl ?_ hp (fun s k => List.mem_append_left _)
      (by simp [hc])
    rw [streams_append]
    split <;> simp [streams]
  | pop hc =>
    simp only [Call.writes, List.append_nil]
    exact ht.start rfl (by simp [hempty (.inl hc), streams]) (streams_append _ _) rfl
      (fun s k => List.mem_append_left _) (by simp [hc]) (by rw [hc]; rfl)
  | connected hc =>
    simp only [Call.writes, List.append_nil]
    exact ht.start rfl (by simp [hempty (.inr hc), streams]) (streams_append _ _) rfl
      (fun s k => List.mem_append_left _) (by simp [hc]) (by rw [hc]; rfl)
  | reconnected hc =>
    obtain ⟨hstreams, hlt⟩ := htr.reconnect hc
    have hnew : P.opened ∉ streams t.trace := by
      rw [hstreams, List.mem_singleton]
      exact hlt.ne'
    simp only [Call.writes, List.append_nil]
    exact ht.start rfl hnew (streams_append _ _) rfl (fun s k => List.mem_append_left _)
      (by simp [hc]) (by rw [hc]; rfl)
  | reject hc | accept hc | wait hc | putBack hc | acquired hc | unavailable hc | connectFailed hc
  | reconnectFailed hc | cancelStart hc | upstreamReconnect hc | upstreamReturn hc
  | readLength hc =>
    simp only [Call.writes, List.append_nil]
    exact ht.idle rfl rfl (fun _ _ => id) (by simp [hc]) (by rw [hc]; rfl) rfl
  | cancelBefore hc =>
    simp only [Call.writes, List.append_nil]
    rcases hc with hc | hc <;>
      exact ht.idle rfl rfl (fun _ _ => id) (by simp [hc]) (by rw [hc]; rfl) rfl
  | readMore hc hr =>
    simp only [Call.writes, List.append_nil]
    exact ht.idle rfl rfl (fun _ _ => id) (by simp [hc]) (by rw [hc, hr.not_writing]) rfl
  | replied hc hr | unanswerable hc hr =>
    simp only [Call.writes, List.append_nil]
    exact ht.idle (by simp [streams]) rfl (fun s k => List.mem_append_left _) (by simp [hc])
      (by rw [hc, hr.not_writing]) rfl
  | @flush attempt conn hc =>
    simp only [Call.writes, List.append_nil]
    refine ht.keep rfl rfl (fun _ _ => id) (by simp [hc]) hbegins (.inl rfl) ?_
    intro s left hw
    rw [hc] at hw
    cases hw
    exact .inl rfl
  | @retry conn io kind hc | @exchangeFailed attempt conn io kind hc =>
    simp only [Call.writes, List.append_nil]
    refine ht.keep (by simp [streams]) rfl (fun s k => List.mem_append_left _)
      (by simp [hc]) hbegins (.inl rfl) ?_
    intro s left hw
    rw [hc] at hw
    cases io with
    | write l =>
      cases hw
      exact .inr (.inl (.inl ⟨kind, List.mem_append_right _ (List.mem_singleton_self _)⟩))
    | _ => cases hw
  | cancelHolding hc =>
    simp only [Call.writes, List.append_nil]
    refine ht.keep rfl rfl (fun _ _ => id) (fun he => ?_) hbegins (.inl rfl)
      fun s left _ => .inr (.inl (.inr rfl))
    rw [he] at hc
    cases hc
  | @upstreamExchange attempt conn io act s' hc hs =>
    have hsame : (Pc.exchange attempt ⟨s'⟩ io).writing = t.pc.writing := by
      rw [hc]
      cases io with
      | write left => exact congrArg (fun s => some (s, left)) (TcpStream.upstream_id hs)
      | _ => rfl
    simp only [Call.writes, List.append_nil]
    exact ht.keep rfl rfl (fun _ _ => id) (by simp [hc]) hbegins (.inr hsame)
      fun s left _ => .inr (.inr hsame)

end Step

/-! ## Every run -/

/-- `Forwards`, also for a call that has not arrived yet. -/
def Forwarded (w : ℕ → Bytes) (begun : ℕ → Prop) : Option Call → Prop
  | some t => Forwards w begun t
  | none => ∀ s, w s = [] ∧ ¬ begun s

theorem begins_iff {i s : ℕ} {c : PoolConf} {t : Call} (ht : c.tasks[i]? = some t) :
    Begins i s c ↔ t.Begins s := by
  simp [Begins, ht]

theorem Forwarded.other {w : ℕ → Bytes} {begun : ℕ → Prop} {i : ℕ} {c c' : PoolConf}
    (h : Forwarded w begun c.tasks[i]?) (hsame : c'.tasks[i]? = c.tasks[i]?)
    (htr : ∀ t, c'.tasks[i]? = some t → TraceOk K i c'.shared.opened t) :
    Forwarded w (fun s => begun s ∨ Begins i s c') c'.tasks[i]? := by
  cases ht : c'.tasks[i]? with
  | none =>
    rw [← hsame, ht] at h
    refine fun s => ⟨(h s).1, ?_⟩
    simp [(h s).2, Begins, ht]
  | some t =>
    rw [← hsame, ht] at h
    refine ⟨fun s => ?_, h.unwritten, h.current, h.past⟩
    rw [begins_iff ht, h.begun_iff]
    exact or_iff_left_of_imp (htr t ht).writing

theorem forwards_new {w : ℕ → Bytes} {begun : ℕ → Prop} (h : ∀ s, w s = [] ∧ ¬ begun s)
    (payload : Bytes) : Forwards w (fun s => begun s ∨ (Call.new payload).Begins s)
      (Call.new payload) where
  begun_iff s := by simp [(h s).2, Call.Begins, Call.new, Pc.writing, streams]
  unwritten s _ := (h s).1
  current s left hw := by cases hw
  past s hm := by cases hm

theorem forwarded_step {i : ℕ} {w : ℕ → Bytes} {begun : ℕ → Prop} {c c' : PoolConf} {a : PoolAct}
    (htr : ∀ j t, c.tasks[j]? = some t → TraceOk K j c.shared.opened t)
    (htr' : ∀ j t, c'.tasks[j]? = some t → TraceOk K j c'.shared.opened t)
    (hc : Forwarded w begun c.tasks[i]?) (h : poolStep K c a = some c') :
    Forwarded (fun s => w s ++ writes i s c a) (fun s => begun s ∨ Begins i s c')
      c'.tasks[i]? := by
  cases a with
  | env e =>
    obtain ⟨P', -, rfl⟩ := Tasks.step_env h
    simp only [writes, List.append_nil]
    exact hc.other rfl (htr' i)
  | spawn payload =>
    obtain rfl := Tasks.step_spawn h
    simp only [writes, List.append_nil]
    by_cases hi : i = c.tasks.length
    · subst hi
      have hnew : (c.tasks ++ [Call.new payload])[c.tasks.length]? = some (Call.new payload) := by
        simp
      rw [List.getElem?_eq_none le_rfl] at hc
      have hf := forwards_new hc payload
      have hb : ∀ s, Begins c.tasks.length s ⟨c.shared, c.tasks ++ [Call.new payload]⟩ ↔
        (Call.new payload).Begins s := fun s => begins_iff hnew
      simp only [poolProgram, hnew, hb]
      exact hf
    · refine hc.other ?_ (htr' i)
      rw [List.getElem?_append]
      split_ifs with hlt
      · rfl
      · rw [List.getElem?_eq_none (by simp; omega), List.getElem?_eq_none (by omega)]
  | task j a =>
    obtain ⟨t, P', t', ht, hr, rfl⟩ := Tasks.step_task h
    by_cases hj : j = i
    · subst hj
      have hlt := (List.getElem?_eq_some_iff.mp ht).1
      have ht' : (c.tasks.set j t')[j]? = some t' := List.getElem?_set_self hlt
      rw [ht] at hc
      have hf := forwards_step (htr j t ht) (htr' j t' ht') hc hr
      have hb : ∀ s, Begins j s ⟨P', c.tasks.set j t'⟩ ↔ t'.Begins s := fun s => begins_iff ht'
      simp only [writes, if_true, ht, Option.elim, ht', hb]
      exact hf
    · simp only [writes, if_neg hj, List.append_nil]
      exact hc.other (List.getElem?_set_ne hj) (htr' i)

/-- **What a run writes.** -/
theorem forwarded_run (maxConnections i : ℕ) {acts : List PoolAct} {c : PoolConf}
    (h : exec (poolStep K) (poolInit maxConnections) acts = some c) :
    Forwarded (sent K maxConnections acts i) (StartsWriting K maxConnections acts i)
      c.tasks[i]? := by
  have htr : ∀ {acts c}, exec (poolStep K) (poolInit maxConnections) acts = some c →
      ∀ j t, c.tasks[j]? = some t → TraceOk K j c.shared.opened t := fun hu j t ht =>
    ((traced_reaches ⟨_, hu⟩).2 j t ht).2
  refine exec_history (I := fun acts c => Forwarded (sent K maxConnections acts i)
    (StartsWriting K maxConnections acts i) c.tasks[i]?) ?_ ?_ h
  · rintro s
    refine ⟨rfl, ?_⟩
    rintro ⟨t, ht, -⟩
    cases ht
  · intro acts u a v hu hf hs
    have hv := exec_snoc_eq_some.mpr ⟨u, hu, hs⟩
    have hstep := forwarded_step (htr hu) (htr hv) hf hs
    have hw : sent K maxConnections (acts ++ [a]) i =
        fun s => sent K maxConnections acts i s ++ writes i s u a := by
      funext s
      rw [← arrivals_eq_writes (streams_unique ⟨_, hu⟩) (streams_unique ⟨_, hv⟩) hs]
      exact outputs_snoc hu hs
    have hb : StartsWriting K maxConnections (acts ++ [a]) i =
        fun s => StartsWriting K maxConnections acts i s ∨ Begins i s v :=
      funext fun s => propext (passes_snoc hu hs)
    rw [hw, hb]
    exact hstep

theorem checked_reaches {maxConnections i : ℕ} {c : PoolConf} {t : Call}
    (h : Reaches (poolStep K) (poolInit maxConnections) c) (ht : c.tasks[i]? = some t) :
    Checked K t := checked_invariant.reaches h ht

/-- What `send_and_receive` writes for a payload. -/
def requestBytes (payload : Bytes) : Bytes := u32le payload.length ++ payload

theorem Forwardable.frame {payload : Bytes} (h : Forwardable K payload) :
    frame payload = requestBytes payload := by
  obtain ⟨-, -, -, hlen⟩ := h
  have hlt : payload.length < 2 ^ 32 := by
    unfold maxMessageSizeBytes at hlen
    omega
  rw [Wire.frame, Nat.mod_eq_of_lt hlt, requestBytes]

/-- The bytes that arrived in an attempt: a prefix of the request, and all of it unless the attempt
failed, the call was dropped, or it is still writing what is missing. -/
def Attempted (t : Call) (s : ℕ) (bytes : Bytes) : Prop :=
  bytes <+: requestBytes t.payload ∧
    (bytes = requestBytes t.payload ∨ t.Interrupted s ∨
      ∃ left, t.pc.writing = some (s, left) ∧ bytes ++ left = requestBytes t.payload)

/-- A call that may not be forwarded has no permit and no connection, none of its steps touches the
semaphore or the idle pool, and its result is an error reply, or `RequestTooLarge`. -/
structure Refused (K : BinaryPort) (c : PoolConf) (i : ℕ) (t : Call) : Prop where
  trace : t.trace = []
  permits : t.pc.permits = 0
  untouched : ∀ a c', poolStep K c (.task i a) = some c' →
    c'.shared.semaphore = c.shared.semaphore ∧ c'.shared.pool = c.shared.pool ∧
      c'.shared.opened = c.shared.opened
  result : ∀ result, t.pc = .finished result →
    (Oversize K t.payload ∧
      result = .error (.requestTooLarge maxMessageSizeBytes t.payload.length)) ∨
    (¬ Oversize K t.payload ∧ (ErrorsEncode K t.payload → ErrorReply K t.payload result))

theorem Checked.refused (hK : K.Lawful) {c : PoolConf} {i : ℕ} {t : Call} (h : Checked K t)
    (ht : c.tasks[i]? = some t) (hno : ¬ Forwardable K t.payload) : Refused K c i t := by
  have hcheck : checkRequest K t.payload ≠ .ok () := fun hok => hno (checkRequest_eq_ok.mp hok)
  obtain ⟨htrace, haway⟩ := h.rejected hcheck
  refine ⟨htrace, ?_, fun a c' hs => ?_, fun result hpc => ?_⟩
  · rcases haway with hpc | hpc | ⟨result, hpc, -⟩ <;> rw [hpc] <;> rfl
  · obtain ⟨u, P', u', hu, hr, rfl⟩ := Tasks.step_task hs
    cases ht.symm.trans hu
    exact sendStep_turnedAway h hcheck hr
  · rcases haway with hs | hs | ⟨result', hs, herr⟩
    · cases hs.symm.trans hpc
    · cases hs.symm.trans hpc
    · cases hs.symm.trans hpc
      rcases checkRequest_eq_error herr with hover | ⟨hover, code, rfl⟩
      · exact .inl hover
      · exact .inr ⟨hover, fun hE => buildErrorResponse_reply hK hE code⟩

/-- **Requests reach the upstream verbatim or not at all.** A call starts writing to a stream if and
only if it obtained that stream and its payload is forwardable; what arrives there of it is its
length and its payload, or a prefix of that, and nothing of it arrives elsewhere. A forwardable
payload is turned away only without a connection; any other one leaves the pool alone. -/
theorem requests_verbatim (hK : K.Lawful) (maxConnections : ℕ) {acts : List PoolAct} {c : PoolConf}
    (h : exec (poolStep K) (poolInit maxConnections) acts = some c) {i : ℕ} {t : Call}
    (ht : c.tasks[i]? = some t) :
    (∀ s, StartsWriting K maxConnections acts i s ↔
      s ∈ streams t.trace ∧ Forwardable K t.payload) ∧
    (∀ s, StartsWriting K maxConnections acts i s →
      Attempted t s (sent K maxConnections acts i s)) ∧
    (∀ s, ¬ StartsWriting K maxConnections acts i s → sent K maxConnections acts i s = []) ∧
    (Forwardable K t.payload → t.trace = [] → t.pc.Unconnected) ∧
    (¬ Forwardable K t.payload → Refused K c i t) := by
  have hch := checked_reaches ⟨acts, h⟩ ht
  have hf := forwarded_run maxConnections i h
  rw [ht] at hf
  have hfw : ∀ s, s ∈ streams t.trace → Forwardable K t.payload := by
    intro s hs
    by_contra hno
    rw [(hch.refused hK ht hno).trace] at hs
    cases hs
  refine ⟨fun s => ?_, fun s hs => ?_, fun s hs => ?_, fun hok hnil => ?_, hch.refused hK ht⟩
  · rw [hf.begun_iff]
    exact (and_iff_left_of_imp (hfw s)).symm
  · have hmem := (hf.begun_iff s).mp hs
    unfold Attempted
    rw [← (hfw s hmem).frame]
    obtain ⟨hpre, hfull | hint | ⟨left, hleft⟩⟩ := hf.past s hmem
    · exact ⟨hpre, .inl hfull⟩
    · exact ⟨hpre, .inr (.inl hint)⟩
    · exact ⟨hpre, .inr (.inr ⟨left, hleft, hf.current s left hleft⟩)⟩
  · exact hf.unwritten s fun hmem => hs ((hf.begun_iff s).mpr hmem)
  · exact hch.accepted (checkRequest_eq_ok.mpr hok) hnil

/-- A request for the peers. -/
def peersRequest : Bytes := [1, 0, 0, 7, 0, 1, 3, 0, 0, 0, 0, 0]

/-- A call is answered, and then one asks for the peers. -/
def refusedRun : List PoolAct := answeredRun ++ [.spawn peersRequest, .task 1 .begin]

theorem peersRequest_not_forwardable : ¬ Forwardable wirePort peersRequest := fun h => by
  have hok : checkRequest wirePort peersRequest = .ok () := checkRequest_eq_ok.mpr h
  cases hok

/-- The first call wrote all of its request; the second one is refused. -/
theorem requests_verbatim_refused :
    sent wirePort 1 refusedRun 0 0 = requestBytes uptimeRequest ∧
    ∃ c t u, exec (poolStep wirePort) (poolInit 1) refusedRun = some c ∧ c.tasks = [t, u] ∧
      (∀ s, StartsWriting wirePort 1 refusedRun 0 s ↔
        s ∈ streams t.trace ∧ Forwardable wirePort uptimeRequest) ∧
      Refused wirePort c 1 u := by
  refine ⟨rfl, ?_⟩
  have hrun : (exec (poolStep wirePort) (poolInit 1) refusedRun).map
      (fun c => c.tasks.map Call.payload) = some [uptimeRequest, peersRequest] := rfl
  obtain ⟨c, hc, hpayloads⟩ := Option.map_eq_some_iff.mp hrun
  obtain ⟨t, l, hl, htp, hrest⟩ := List.map_eq_cons_iff.mp hpayloads
  obtain ⟨u, l', rfl, hup, hnil⟩ := List.map_eq_cons_iff.mp hrest
  obtain rfl := List.map_eq_nil_iff.mp hnil
  have ht : c.tasks[0]? = some t := by rw [hl]; rfl
  have hu : c.tasks[1]? = some u := by rw [hl]; rfl
  refine ⟨c, t, u, hc, hl, ?_, ?_⟩
  · rw [← htp]
    exact (requests_verbatim wirePort_lawful 1 hc ht).1
  · refine (requests_verbatim wirePort_lawful 1 hc hu).2.2.2.2 ?_
    rw [hup]
    exact peersRequest_not_forwardable

end CasperNodeProxy
