import CasperNodeProxy.Binary.Alignment
import CasperNodeProxy.Binary.WireFormat

/-!
# What calls did with streams

* `Obtained`, `Traced`: which events the trace of a call can consist of.
* `traced_step`, `traced_owned`: the invariant behind it, with the one of the streams.
* `Replied`, `WritesTwice`: what a trace says about replies and about writes.
* **`responses_not_crossed`**: idle connections are clean, a reply is the answer to the very call
  that got it, and a frame is written at most twice.
-/

namespace CasperNodeProxy

open Run Wire

variable {K : BinaryPort}

/-! ## Traces -/

/-- The first byte of a frame was written, or not. -/
def wrote (begun : Bool) (stream : ℕ) : List StreamEvent := if begun then [.wrote stream] else []

/-- The events up to the one that gives a call the stream of an attempt. -/
inductive Obtained : Attempt → ℕ → List StreamEvent → Prop
  | popped (s : ℕ) : Obtained .first s [.popped s]
  | opened (s : ℕ) : Obtained .first s [.opened s]
  | reopened {a s : ℕ} {pre : List StreamEvent} (h : Obtained .first a pre) (begun : Bool)
      {k : ErrorKind} (hk : k.retryable = true) (hlt : a < s) :
      Obtained .second s (pre ++ wrote begun a ++ [.failed a k] ++ [.opened s])

/-- The traces a call can have, and the answer it got. -/
inductive Traced (i : ℕ) (payload : Bytes) : List StreamEvent → Option Answer → Prop
  | empty : Traced i payload [] none
  | exchanging {attempt : Attempt} {s : ℕ} {pre : List StreamEvent} (h : Obtained attempt s pre)
      (begun : Bool) : Traced i payload (pre ++ wrote begun s) none
  | failed {attempt : Attempt} {s : ℕ} {pre : List StreamEvent} (h : Obtained attempt s pre)
      (begun : Bool) (k : ErrorKind) :
      Traced i payload (pre ++ wrote begun s ++ [.failed s k]) none
  | replied {attempt : Attempt} {s : ℕ} {pre : List StreamEvent} (h : Obtained attempt s pre)
      {a : Answer} (ha : a.Answers i payload s) :
      Traced i payload (pre ++ [.wrote s] ++ [.reply s (mark a (frame a.reply))]) (some a)

/-- A call fails so for want of a connection, or by an error on one. -/
def BinaryError.OfConnection : BinaryError → Prop
  | .connectionUnavailable | .io _ => True
  | _ => False

/-- The trace of a call at its await points, when `opened` streams have been opened. -/
def TraceOk (K : BinaryPort) (i opened : ℕ) (c : Call) : Prop :=
  match c.pc with
  | .start | .getConnection | .acquire | .connect => c.trace = []
  | .exchange attempt conn io => conn.stream.id < opened ∧
      ∃ pre begun, Obtained attempt conn.stream.id pre ∧
        c.trace = pre ++ wrote begun conn.stream.id ∧
        (begun = false ↔ io = .write (frame c.payload))
  | .reconnect conn => conn.stream.id < opened ∧
      ∃ pre begun k, Obtained .first conn.stream.id pre ∧ k.retryable = true ∧
        c.trace = pre ++ wrote begun conn.stream.id ++ [.failed conn.stream.id k]
  | .returnConnection conn rewritten => conn.stream.id < opened ∧
      ∃ a, Traced i c.payload c.trace (some a) ∧ answerFor K c.payload a.reply = .ok rewritten
  | .finished result =>
      (∃ a, Traced i c.payload c.trace (some a) ∧ answerFor K c.payload a.reply = result) ∨
      (c.trace = [] ∧ checkRequest K c.payload = .error result) ∨
      (Traced i c.payload c.trace none ∧
        ∃ err : BinaryError, result = .error err ∧ err.OfConnection)
  | .cancelled => ∃ got, Traced i c.payload c.trace got

/-- The idle connections are among the streams opened so far. -/
def IdleOpened (P : BinaryPool) : Prop := ∀ conn ∈ P.pool, conn.stream.id < P.opened

/-- At whatever await point a call is dropped, its trace is one of the possible ones. -/
theorem TraceOk.traced {i opened : ℕ} {c : Call} (h : TraceOk K i opened c) :
    ∃ got, Traced i c.payload c.trace got := by
  unfold TraceOk at h
  split at h
  · exact ⟨none, h ▸ .empty⟩
  · exact ⟨none, h ▸ .empty⟩
  · exact ⟨none, h ▸ .empty⟩
  · exact ⟨none, h ▸ .empty⟩
  · obtain ⟨-, pre, begun, hob, ht, -⟩ := h
    exact ⟨none, ht ▸ .exchanging hob begun⟩
  · obtain ⟨-, pre, begun, k, hob, -, ht⟩ := h
    exact ⟨none, ht ▸ .failed hob begun k⟩
  · obtain ⟨-, a, ht, -⟩ := h
    exact ⟨some a, ht⟩
  · rcases h with ⟨a, ht, -⟩ | ⟨hnil, -⟩ | ⟨ht, -⟩
    · exact ⟨some a, ht⟩
    · exact ⟨none, hnil ▸ .empty⟩
    · exact ⟨none, ht⟩
  · exact h

theorem drop_ne_frame {i n : ℕ} {payload left : Bytes} {s : TcpStream} (h0 : 0 < n)
    (hn : n ≤ left.length) (h : IoAligned i payload s (.write left)) :
    left.drop n ≠ frame payload := by
  intro he
  have h2 := congrArg List.length he
  rw [List.length_drop] at h2
  cases h with
  | write hsplit =>
    have h1 := congrArg List.length hsplit
    rw [List.length_append] at h1
    omega
  | written =>
    rw [List.length_nil] at hn
    omega

theorem Reads.ne_write {s : TcpStream} {n len : ℕ} {io : Io} {head buf : List (Answer × UInt8)}
    (h : Reads s n io len head buf) (left : Bytes) : io ≠ .write left := by
  cases h <;> nofun

/-- The reply that a call has read in full is the answer to its frame. -/
theorem traced_reply {i n len opened : ℕ} {c : Call} {attempt : Attempt} {conn : PooledConnection}
    {io : Io} {head buf : List (Answer × UInt8)} (hal : IoAligned i c.payload conn.stream io)
    (hc : conn.stream.id < opened ∧ ∃ pre begun, Obtained attempt conn.stream.id pre ∧
      c.trace = pre ++ wrote begun conn.stream.id ∧
      (begun = false ↔ io = .write (frame c.payload)))
    (hr : Reads conn.stream n io len head buf) (hlen : buf.length = len) :
    ∃ a : Answer, Traced i c.payload (c.trace ++ [.reply conn.stream.id (head ++ buf)]) (some a) ∧
      a.reply = buf.map Prod.snd := by
  obtain ⟨-, pre, begun, hob, ht, hb⟩ := hc
  obtain ⟨h4, hu, -, haw⟩ := awaits_reads hal hr
  obtain ⟨a, ha, hbytes, -⟩ := awaits_complete haw h4 (hlen.trans hu)
  have hbegun : begun = true := by
    rw [← Bool.not_eq_false, hb]
    exact hr.ne_write _
  refine ⟨a, ?_, ?_⟩
  · rw [hbytes, ht, hbegun]
    exact .replied hob ha
  · -- behind the four bytes of the length
    have hsnd := congrArg (fun l => (l.map Prod.snd).drop 4) hbytes
    rw [List.map_append, List.drop_left' (by rw [List.length_map, h4]), map_snd_mark, frame,
      List.drop_left' (length_u32le _)] at hsnd
    exact hsnd.symm

/-- **Traces.** One case for each exit of an await point. -/
theorem traced_step {i : ℕ} {P P' : BinaryPool} {c c' : Call} {a : SendAct} (hP : IdleOpened P)
    (hal : PcAligned i c.payload c.pc) (hc : TraceOk K i P.opened c)
    (h : sendStep K i P c a = some (P', c')) :
    IdleOpened P' ∧ TraceOk K i P'.opened c' ∧ P.opened ≤ P'.opened := by
  have hcancel := hc.traced
  unfold TraceOk at hc
  cases sendStep_cases h with
  | reject hpc hr =>
    rw [hpc] at hc
    exact ⟨hP, .inr (.inl ⟨hc, hr⟩), le_rfl⟩
  | unavailable hpc | connectFailed hpc =>
    rw [hpc] at hc
    exact ⟨hP, .inr (.inr ⟨hc ▸ .empty, _, rfl, trivial⟩), le_rfl⟩
  | accept hpc | wait hpc | acquired hpc =>
    rw [hpc] at hc
    exact ⟨hP, hc, le_rfl⟩
  | cancelStart | cancelBefore | cancelHolding => exact ⟨hP, hcancel, le_rfl⟩
  | pop hpc hp =>
    rw [hpc] at hc
    unfold IdleOpened at hP
    rw [hp] at hP
    refine ⟨fun conn hmem => hP conn (List.mem_cons_of_mem _ hmem), ⟨hP _ List.mem_cons_self, ?_⟩,
      le_rfl⟩
    exact ⟨_, false, .popped _, by simp [Call.exchange, wrote, hc], by simp [Call.exchange]⟩
  | connected hpc =>
    rw [hpc] at hc
    refine ⟨fun conn hmem => (hP conn hmem).trans (Nat.lt_succ_self _),
      ⟨Nat.lt_succ_self _, ?_⟩, Nat.le_succ _⟩
    exact ⟨_, false, .opened _, by simp [Call.exchange, wrote, hc, TcpStream.connect],
      by simp [Call.exchange]⟩
  | reconnected hpc =>
    rw [hpc] at hc
    obtain ⟨hlt, pre, begun, k, hob, hk, ht⟩ := hc
    refine ⟨fun conn hmem => (hP conn hmem).trans (Nat.lt_succ_self _),
      ⟨Nat.lt_succ_self _, ?_⟩, Nat.le_succ _⟩
    exact ⟨_, false, .reopened hob begun hk hlt,
      by simp [Call.exchange, wrote, ht, TcpStream.connect],
      by simp [Call.exchange]⟩
  | retry hpc hk =>
    rw [hpc] at hc
    obtain ⟨hlt, pre, begun, hob, ht, -⟩ := hc
    exact ⟨hP, ⟨hlt, pre, begun, _, hob, hk, by rw [ht]⟩, le_rfl⟩
  | reconnectFailed hpc =>
    rw [hpc] at hc
    obtain ⟨-, pre, begun, k, hob, -, ht⟩ := hc
    have htr : Traced i c.payload c.trace none := ht ▸ .failed hob begun k
    exact ⟨hP, .inr (.inr ⟨htr, _, rfl, trivial⟩), le_rfl⟩
  | exchangeFailed hpc =>
    rw [hpc] at hc
    obtain ⟨-, pre, begun, hob, ht, -⟩ := hc
    rw [ht]
    exact ⟨hP, .inr (.inr ⟨.failed hob begun _, _, rfl, trivial⟩), le_rfl⟩
  | @write attempt conn left n hpc h0 hn =>
    rw [hpc] at hc hal
    obtain ⟨hlt, pre, begun, hob, ht, hb⟩ := hc
    have hne := drop_ne_frame h0 hn hal.2
    refine ⟨hP, ⟨hlt, pre, true, hob, ?_, iff_of_false nofun ?_⟩, le_rfl⟩
    · -- the first byte is written when nothing was written before
      by_cases hl : left = frame c.payload
      · have hbegun : begun = false := hb.mpr (congrArg Io.write hl)
        dsimp only
        rw [if_pos hl, ht, hbegun]
        simp [wrote]
      · have hbegun : begun = true := by
          rw [← Bool.not_eq_false, hb]
          exact fun he => hl (Io.write.inj he)
        dsimp only
        rw [if_neg hl, ht, hbegun, List.append_nil]
        rfl
    · exact fun he => hne (Io.write.inj he)
  | flush hpc =>
    rw [hpc] at hc
    obtain ⟨hlt, pre, begun, hob, ht, hb⟩ := hc
    have hne : Io.write [] ≠ Io.write (frame c.payload) :=
      fun he => frame_ne_nil _ (Io.write.inj he).symm
    exact ⟨hP, ⟨hlt, pre, begun, hob, ht, iff_of_false (fun hf => hne (hb.mp hf)) nofun⟩, le_rfl⟩
  | readLength hpc h4 hn =>
    rw [hpc] at hc
    obtain ⟨hlt, pre, begun, hob, ht, hb⟩ := hc
    exact ⟨hP, ⟨hlt, pre, begun, hob, ht, hb.trans (by simp)⟩, le_rfl⟩
  | readMore hpc hr hne =>
    rw [hpc] at hc
    obtain ⟨hlt, pre, begun, hob, ht, hb⟩ := hc
    have hbegun : begun ≠ false := fun hf => hr.ne_write _ (hb.mp hf)
    exact ⟨hP, ⟨hlt, pre, begun, hob, ht, iff_of_false hbegun nofun⟩, le_rfl⟩
  | replied hpc hr hlen ha =>
    rw [hpc] at hc hal
    obtain ⟨answer, htr, hreply⟩ := traced_reply hal.2 hc hr hlen
    rw [← hreply] at ha
    exact ⟨hP, ⟨hc.1, answer, htr, ha⟩, le_rfl⟩
  | unanswerable hpc hr hlen ha =>
    rw [hpc] at hc hal
    obtain ⟨answer, htr, hreply⟩ := traced_reply hal.2 hc hr hlen
    rw [← hreply] at ha
    exact ⟨hP, .inl ⟨answer, htr, ha⟩, le_rfl⟩
  | putBack hpc =>
    rw [hpc] at hc
    obtain ⟨hlt, a, ht, ha⟩ := hc
    refine ⟨fun conn hmem => ?_, .inl ⟨a, ht, ha⟩, le_rfl⟩
    rcases List.mem_cons.mp hmem with rfl | hmem
    · exact hlt
    · exact hP conn hmem
  | upstreamExchange hpc hs =>
    rw [hpc] at hc
    obtain ⟨hlt, pre, begun, hob, ht, hb⟩ := hc
    have hid := TcpStream.upstream_id hs
    refine ⟨hP, ⟨hid ▸ hlt, pre, begun, hid ▸ hob, hid ▸ ht, hb⟩, le_rfl⟩
  | upstreamReconnect hpc hs =>
    rw [hpc] at hc
    obtain ⟨hlt, pre, begun, k, hob, hk, ht⟩ := hc
    have hid := TcpStream.upstream_id hs
    exact ⟨hP, ⟨hid ▸ hlt, pre, begun, k, hid ▸ hob, hk, hid ▸ ht⟩, le_rfl⟩
  | upstreamReturn hpc hs =>
    rw [hpc] at hc
    obtain ⟨hlt, a, ht, ha⟩ := hc
    exact ⟨hP, ⟨TcpStream.upstream_id hs ▸ hlt, a, ht, ha⟩, le_rfl⟩

theorem idleOpened_idleStep {P P' : BinaryPool} {a : IdleAct} (hP : IdleOpened P)
    (h : idleStep P a = some P') : IdleOpened P' ∧ P.opened ≤ P'.opened := by
  simp only [idleStep, Option.bind_eq_some_iff, Option.map_eq_some_iff] at h
  obtain ⟨conn, hconn, s, hs, rfl⟩ := h
  refine ⟨fun d hd => ?_, le_rfl⟩
  rcases List.mem_or_eq_of_mem_set hd with hd | rfl
  · exact hP d hd
  · have hlt := hP conn (List.mem_of_getElem? hconn)
    rw [← TcpStream.upstream_id hs] at hlt
    exact hlt

theorem TraceOk.mono {i n m : ℕ} {c : Call} (h : TraceOk K i n c) (hnm : n ≤ m) :
    TraceOk K i m c := by
  unfold TraceOk at h ⊢
  split at h
  · exact h
  · exact h
  · exact h
  · exact h
  · exact ⟨h.1.trans_le hnm, h.2⟩
  · exact ⟨h.1.trans_le hnm, h.2⟩
  · exact ⟨h.1.trans_le hnm, h.2⟩
  · exact h
  · exact h

theorem traced_owned : Tasks.OwnedInvariant (poolProgram K)
    (fun P => IdleClean P ∧ IdleOpened P)
    (fun P i c => PcAligned i c.payload c.pc ∧ TraceOk K i P.opened c)
    (fun P P' => P.opened ≤ P'.opened) where
  task i P c a P' c' hP hc h := by
    obtain ⟨hclean, hal⟩ := aligned_step hP.1 hc.1 h
    obtain ⟨hopened, htr, hle⟩ := traced_step hP.2 hc.1 hc.2 h
    exact ⟨⟨hclean, hopened⟩, ⟨hal, htr⟩, hle⟩
  env P a P' hP h := by
    obtain ⟨hopened, hle⟩ := idleOpened_idleStep hP.2 h
    exact ⟨⟨idleClean_idleStep hP.1 h, hopened⟩, hle⟩
  spawn _ _ _ _ := ⟨trivial, rfl⟩
  stable _ _ _ _ _ hle hc := ⟨hc.1, hc.2.mono hle⟩

theorem traced_reaches {maxConnections : ℕ} {c : PoolConf}
    (h : Reaches (poolStep K) (poolInit maxConnections) c) :
    Tasks.Holds (fun P => IdleClean P ∧ IdleOpened P)
      (fun P i c => PcAligned i c.payload c.pc ∧ TraceOk K i P.opened c) c := by
  refine traced_owned.reaches ?_ h
  exact ⟨⟨nofun, nofun⟩, nofun⟩

/-! ## What a trace says -/

/-- The streams that a frame was written on, in order. -/
def written (trace : List StreamEvent) : List ℕ :=
  trace.filterMap fun
    | .wrote s => some s
    | _ => none

/-- The frame is written on at most two streams; the second one was opened for this call, right
after a retryable error on the first. -/
def WritesTwice (trace : List StreamEvent) : Prop :=
  (written trace).length ≤ 2 ∧ ∀ a b, written trace = [a, b] →
    ∃ k : ErrorKind, k.retryable = true ∧ a < b ∧ [.failed a k, .opened b, .wrote b] <:+: trace

/-- The bytes read from the stream are, in full, the answer of the upstream to the frame that this
very call wrote there; and when the call has ended, or has its answer, it reports that answer. -/
def Replied (K : BinaryPort) (i : ℕ) (c : Call) (stream : ℕ) (bytes : List (Answer × UInt8)) :
    Prop :=
  ∃ a : Answer, a.Answers i c.payload stream ∧ bytes = mark a (frame a.reply) ∧
    match c.pc with
    | .returnConnection _ rewritten => answerFor K c.payload a.reply = .ok rewritten
    | .finished result => answerFor K c.payload a.reply = result
    | .cancelled => True
    | _ => False

theorem Obtained.no_reply {attempt : Attempt} {s : ℕ} {pre : List StreamEvent}
    (h : Obtained attempt s pre) {r : ℕ} {b : List (Answer × UInt8)} : .reply r b ∉ pre := by
  induction h with
  | popped | opened => simp
  | reopened h begun hk hlt ih => cases begun <;> simp [wrote, ih]

theorem Traced.reply {i : ℕ} {payload : Bytes} {trace : List StreamEvent} {got : Option Answer}
    (h : Traced i payload trace got) {s : ℕ} {bytes : List (Answer × UInt8)}
    (hmem : .reply s bytes ∈ trace) :
    ∃ a, got = some a ∧ a.Answers i payload s ∧ bytes = mark a (frame a.reply) := by
  cases h with
  | empty => cases hmem
  | exchanging h begun =>
    have hno := h.no_reply (r := s) (b := bytes)
    cases begun <;> simp [wrote, hno] at hmem
  | failed h begun k =>
    have hno := h.no_reply (r := s) (b := bytes)
    cases begun <;> simp [wrote, hno] at hmem
  | @replied attempt r pre h a ha =>
    have hno := h.no_reply (r := s) (b := bytes)
    rcases List.mem_append.mp hmem with hmem | hmem
    · simp [hno] at hmem
    · obtain ⟨rfl, rfl⟩ : s = r ∧ bytes = mark a (frame a.reply) := by simpa using hmem
      exact ⟨a, rfl, ha, rfl⟩

theorem Traced.answer {i : ℕ} {payload : Bytes} {trace : List StreamEvent} {a : Answer}
    (h : Traced i payload trace (some a)) :
    ∃ s, a.Answers i payload s ∧ .reply s (mark a (frame a.reply)) ∈ trace := by
  cases h with
  | replied hob ha => exact ⟨_, ha, List.mem_append_right _ List.mem_cons_self⟩

theorem written_append (l₁ l₂ : List StreamEvent) :
    written (l₁ ++ l₂) = written l₁ ++ written l₂ := List.filterMap_append

/-- Before a stream is written to, the frame was written at most once, and then on a stream that
failed in a way worth a retry, right before this one was opened. -/
theorem Obtained.writes {attempt : Attempt} {s : ℕ} {pre : List StreamEvent}
    (h : Obtained attempt s pre) : written pre = [] ∨
      ∃ a k pre₀, k.retryable = true ∧ a < s ∧ pre = pre₀ ++ [.failed a k, .opened s] ∧
        written pre = [a] := by
  cases h with
  | popped | opened => exact .inl rfl
  | @reopened a s pre h begun k hk hlt =>
    have hpre : written pre = [] := by cases h <;> rfl
    rw [written_append, written_append, written_append, hpre]
    cases begun with
    | false => exact .inl rfl
    | true => exact .inr ⟨a, k, pre ++ [.wrote a], hk, hlt, by simp [wrote], rfl⟩

theorem writesTwice_append {attempt : Attempt} {s : ℕ} {pre rest : List StreamEvent} (begun : Bool)
    (h : Obtained attempt s pre) (hrest : written rest = []) :
    WritesTwice (pre ++ wrote begun s ++ rest) := by
  have hw : written (wrote begun s) = if begun then [s] else [] := by cases begun <;> rfl
  unfold WritesTwice
  rw [written_append, written_append, hrest, List.append_nil, hw]
  rcases h.writes with hpre | ⟨a, k, pre₀, hk, hlt, hsplit, hpre⟩
  · rw [hpre]
    cases begun <;> simp
  · rw [hpre]
    cases begun with
    | false => simp
    | true =>
      refine ⟨le_rfl, fun a' b' he => ?_⟩
      obtain ⟨rfl, rfl⟩ : a = a' ∧ s = b' := by simpa using he
      exact ⟨k, hk, hlt, pre₀, rest, by simp [hsplit, wrote]⟩

theorem Traced.writesTwice {i : ℕ} {payload : Bytes} {trace : List StreamEvent}
    {got : Option Answer} (h : Traced i payload trace got) : WritesTwice trace := by
  cases h with
  | empty => exact ⟨Nat.zero_le _, nofun⟩
  | exchanging h begun =>
    rw [← List.append_nil (_ ++ wrote begun _)]
    exact writesTwice_append begun h rfl
  | failed h begun k => exact writesTwice_append begun h rfl
  | replied h ha => exact writesTwice_append true h rfl

/-! ## Every run -/

theorem TraceOk.replied {i opened : ℕ} {c : Call} (h : TraceOk K i opened c) {s : ℕ}
    {bytes : List (Answer × UInt8)} (hmem : .reply s bytes ∈ c.trace) : Replied K i c s bytes := by
  have hnone : ¬ Traced i c.payload c.trace none := by
    intro htr
    obtain ⟨a, ha, -⟩ := htr.reply hmem
    cases ha
  have hempty : c.trace ≠ [] := List.ne_nil_of_mem hmem
  unfold TraceOk at h
  unfold Replied
  split at h
  · exact absurd h hempty
  · exact absurd h hempty
  · exact absurd h hempty
  · exact absurd h hempty
  · obtain ⟨-, pre, begun, hob, ht, -⟩ := h
    exact absurd (ht ▸ .exchanging hob begun) hnone
  · obtain ⟨-, pre, begun, k, hob, -, ht⟩ := h
    exact absurd (ht ▸ .failed hob begun k) hnone
  · next hpc =>
    obtain ⟨-, a, htr, hanswer⟩ := h
    obtain ⟨b, hb, ha, hbytes⟩ := htr.reply hmem
    cases hb
    rw [hpc]
    exact ⟨a, ha, hbytes, hanswer⟩
  · next hpc =>
    rcases h with ⟨a, htr, hanswer⟩ | ⟨hnil, -⟩ | ⟨htr, -⟩
    · obtain ⟨b, hb, ha, hbytes⟩ := htr.reply hmem
      cases hb
      rw [hpc]
      exact ⟨a, ha, hbytes, hanswer⟩
    · exact absurd hnil hempty
    · exact absurd htr hnone
  · next hpc =>
    obtain ⟨got, htr⟩ := h
    obtain ⟨a, -, ha, hbytes⟩ := htr.reply hmem
    rw [hpc]
    exact ⟨a, ha, hbytes, trivial⟩

theorem TraceOk.answered {i opened : ℕ} {c : Call} {bytes : Bytes} (h : TraceOk K i opened c)
    (hc : c.pc = .finished (.ok bytes)) :
    checkRequest K c.payload = .error (.ok bytes) ∨ ∃ s b, .reply s b ∈ c.trace := by
  unfold TraceOk at h
  rw [hc] at h
  rcases h with ⟨a, htr, -⟩ | ⟨-, hcheck⟩ | ⟨-, err, herr, -⟩
  · obtain ⟨s, -, hmem⟩ := htr.answer
    exact .inr ⟨s, _, hmem⟩
  · exact .inl hcheck
  · cases herr

/-- **Responses are never crossed.** In every reachable state every idle connection is clean; a
reply that a call got is the upstream's answer to the frame of that very call, in full, and what the
call answers is that reply; a call that succeeds was rejected up front or got a reply; and a frame
is written on at most two streams, the second one fresh after a retryable error. -/
theorem responses_not_crossed (maxConnections : ℕ) {c : PoolConf}
    (h : Reaches (poolStep K) (poolInit maxConnections) c) :
    (∀ conn ∈ c.shared.pool, conn.stream.Clean) ∧
    ∀ i t, c.tasks[i]? = some t →
      (∀ s bytes, .reply s bytes ∈ t.trace → Replied K i t s bytes) ∧
      (∀ bytes, t.pc = .finished (.ok bytes) →
        checkRequest K t.payload = .error (.ok bytes) ∨ ∃ s b, .reply s b ∈ t.trace) ∧
      WritesTwice t.trace := by
  obtain ⟨hG, hL⟩ := traced_reaches h
  refine ⟨hG.1, fun i t ht => ?_⟩
  obtain ⟨-, htr⟩ := hL i t ht
  obtain ⟨got, hgot⟩ := htr.traced
  exact ⟨fun s bytes hmem => htr.replied hmem, fun bytes hpc => htr.answered hpc,
    hgot.writesTwice⟩

/-- A call that opens a connection, gets a reply and puts the connection into the idle pool. -/
def answeredRun : List PoolAct :=
  [.spawn uptimeRequest, .task 0 .begin, .task 0 .lock, .task 0 .acquire, .task 0 .connected,
    .task 0 (.write 16), .task 0 .flush, .task 0 (.upstream (.answer failureReply)),
    .task 0 (.read 4), .task 0 (.read 9), .task 0 .lock]

/-- The idle connection is closed, and a second call pops it. It writes a part of its frame, the
connection is reset, and it is answered on a new one. -/
def retriedRun : List PoolAct :=
  answeredRun ++ [.env ⟨0, .close 0⟩, .spawn uptimeRequest, .task 1 .begin, .task 1 .lock,
    .task 1 (.write 7), .task 1 (.ioError .connectionReset), .task 1 .connected,
    .task 1 (.write 10), .task 1 (.write 6), .task 1 .flush,
    .task 1 (.upstream (.answer uptimeAnswer)), .task 1 (.read 4), .task 1 (.read 20),
    .task 1 (.read 14), .task 1 .lock]

theorem retriedRun_seen : (exec (poolStep wirePort) (poolInit 1) retriedRun).map (fun c =>
    (c.tasks.map fun t => (t.payload, t.pc, written t.trace), c.shared.pool.length)) =
    some ([(uptimeRequest, .finished (.ok failureReply), [0]),
      (uptimeRequest, .finished (.ok uptimeAnswer), [0, 1])], 1) := rfl

/-- Each call reports the answer to its own frame, and the second one wrote its frame twice. -/
theorem responses_not_crossed_retried :
    ∃ c t u, exec (poolStep wirePort) (poolInit 1) retriedRun = some c ∧ c.tasks = [t, u] ∧
      c.shared.pool.length = 1 ∧ (∀ conn ∈ c.shared.pool, conn.stream.Clean) ∧
      t.pc = .finished (.ok failureReply) ∧ u.pc = .finished (.ok uptimeAnswer) ∧
      (∃ s b, .reply s b ∈ t.trace ∧ Replied wirePort 0 t s b) ∧
      (∃ s b, .reply s b ∈ u.trace ∧ Replied wirePort 1 u s b) ∧
      written t.trace = [0] ∧ written u.trace = [0, 1] ∧
      ∃ k : ErrorKind, k.retryable = true ∧ [.failed 0 k, .opened 1, .wrote 1] <:+: u.trace := by
  obtain ⟨c, hc, hseen⟩ := Option.map_eq_some_iff.mp retriedRun_seen
  obtain ⟨hcalls, hone⟩ := Prod.mk.inj hseen
  obtain ⟨t, l, hl, ht, hrest⟩ := List.map_eq_cons_iff.mp hcalls
  obtain ⟨u, rfl, hu⟩ := List.map_eq_singleton_iff.mp hrest
  simp only [Prod.mk.injEq] at ht hu
  obtain ⟨htp, htpc, htw⟩ := ht
  obtain ⟨hup, hupc, huw⟩ := hu
  have haccepted : ∀ bytes, checkRequest wirePort uptimeRequest ≠ .error (.ok bytes) := nofun
  obtain ⟨hclean, hcall⟩ := responses_not_crossed (K := wirePort) 1 ⟨_, hc⟩
  obtain ⟨htr, htans, -⟩ := hcall 0 t (by rw [hl]; rfl)
  obtain ⟨hur, huans, hutwice⟩ := hcall 1 u (by rw [hl]; rfl)
  rw [htp] at htans
  rw [hup] at huans
  obtain ⟨s, b, hs⟩ := (htans _ htpc).resolve_left (haccepted _)
  obtain ⟨s', b', hs'⟩ := (huans _ hupc).resolve_left (haccepted _)
  obtain ⟨k, hk, -, hinfix⟩ := hutwice.2 0 1 huw
  exact ⟨c, t, u, hc, hl, hone, hclean, htpc, hupc, ⟨s, b, hs, htr s b hs⟩,
    ⟨s', b', hs', hur s' b' hs'⟩, htw, huw, k, hk, hinfix⟩

end CasperNodeProxy
