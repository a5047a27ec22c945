import CasperNodeProxy.Binary.Traces
import CasperNodeProxy.Binary.WireFormat

/-!
# Calls can be completed

A call that has what it waits for is never at a dead end: over a stream that is open it ends with
the answer to what the upstream replies, by steps of its own and of that stream.

* `HoldsRest`, `PcHolds`: an open stream on which the upstream has answered holds the rest of the
  answer; **`holds_step`**: every step keeps that.
* `Smooth`, `Completes`: steps without errors, and a call that they bring to its end.
* `Call.AnsweredBy`, `EndsWith`: what the call has read or its stream holds, and the reply it ends
  with: that one, or, if there is none yet, the one that the upstream is still to give.
* **`call_completes`**: from every reachable state.
-/

namespace CasperNodeProxy

open Run Wire Channel

variable {K : BinaryPort}

/-! ## What an open stream holds -/

/-- An open stream on which the upstream has answered, with `buf` read so far, holds the rest of
the answer. -/
def HoldsRest (s : TcpStream) (buf : List (Answer × UInt8)) : Prop :=
  s.closed = false → s.inbox = [] →
    ∃ a : Answer, a.reply.length < 2 ^ 32 ∧ buf ++ s.outbox = mark a (frame a.reply)

/-- What the stream of an exchange holds, as soon as the frame is written. -/
def IoHolds (s : TcpStream) : Io → Prop
  | .write left => left = [] → HoldsRest s []
  | .readLength buf => HoldsRest s buf
  | .readResponse _ head buf => HoldsRest s (head ++ buf)

/-- What is kept of the stream that a call holds. -/
def PcHolds : Pc → Prop
  | .exchange _ conn io => IoHolds conn.stream io
  | _ => True

theorem holdsRest_of_inbox {s : TcpStream} {buf : List (Answer × UInt8)} (h : s.inbox ≠ []) :
    HoldsRest s buf := fun _ hin => absurd hin h

theorem HoldsRest.skip {s : TcpStream} {buf : List (Answer × UInt8)} (h : HoldsRest s buf)
    (n : ℕ) : HoldsRest (s.skip n) (buf ++ s.outbox.take n) := by
  intro hopen hin
  obtain ⟨a, hr, ha⟩ := h hopen hin
  refine ⟨a, hr, ?_⟩
  rw [TcpStream.skip, List.append_assoc, List.take_append_drop]
  exact ha

theorem HoldsRest.upstream {i : ℕ} {payload : Bytes} {s s' : TcpStream} {u : UpstreamAct}
    {buf : List (Answer × UInt8)} (hp : payload.length < 2 ^ 32) (haw : Awaits i payload s buf)
    (h : s.upstream u = some s') : HoldsRest s' buf := by
  cases u with
  | close kept =>
    cases h
    intro hopen
    cases hopen
  | answer reply =>
    cases haw with
    | outstanding hin hout hbuf =>
      obtain ⟨a, ha, hr, -, -, hout'⟩ := TcpStream.answer_frame hp hin hout h
      intro _ _
      refine ⟨a, ha.reply, ?_⟩
      rw [hbuf, hout', hr, List.nil_append]
    | answered a ha hin hout =>
      have hn : ¬ HasFrame (s.inbox.map Prod.snd) := by
        rw [hin]
        exact TcpStream.not_hasFrame_nil
      rw [TcpStream.upstream, TcpStream.answer_incomplete hn] at h
      cases h

theorem ioHolds_upstream {i : ℕ} {payload : Bytes} {s s' : TcpStream} {u : UpstreamAct} {io : Io}
    (hp : payload.length < 2 ^ 32) (hal : IoAligned i payload s io)
    (h : s.upstream u = some s') : IoHolds s' io := by
  cases hal with
  | write hsplit hleft hin hout => exact fun hnil => absurd hnil hleft
  | written haw => exact fun _ => HoldsRest.upstream hp haw h
  | readLength hbuf haw => exact HoldsRest.upstream hp haw h
  | readResponse hhead hlen hbuf haw => exact HoldsRest.upstream hp haw h

theorem Reads.holds {s : TcpStream} {n len : ℕ} {io : Io} {head buf : List (Answer × UInt8)}
    (hr : Reads s n io len head buf) (h : IoHolds s io) : HoldsRest (s.skip n) (head ++ buf) := by
  cases hr with
  | length h4 hn =>
    rw [List.append_nil]
    exact HoldsRest.skip h n
  | response hlen hn =>
    rw [← List.append_assoc]
    exact HoldsRest.skip h n

/-- **An open stream keeps the rest of the answer.** -/
theorem holds_step {i : ℕ} {P P' : BinaryPool} {c c' : Call} {a : SendAct}
    (hal : PcAligned i c.payload c.pc) (hc : PcHolds c.pc)
    (h : sendStep K i P c a = some (P', c')) : PcHolds c'.pc := by
  have hstart : ∀ s : TcpStream, IoHolds s (.write (frame c.payload)) :=
    fun s hnil => absurd hnil (frame_ne_nil _)
  cases sendStep_cases h with
  | reject | accept | wait | putBack | acquired | unavailable | connectFailed | reconnectFailed
  | retry | exchangeFailed | replied | unanswerable | upstreamReconnect | upstreamReturn
  | cancelStart | cancelBefore | cancelHolding => trivial
  | pop | connected | reconnected => exact hstart _
  | @write attempt conn left n hpc h0 hn =>
    -- what was just written has not been taken yet
    intro _
    refine holdsRest_of_inbox fun hnil => ?_
    have hlen := congrArg List.length (List.append_eq_nil_iff.mp hnil).2
    rw [length_mark, List.length_take_of_le hn, List.length_nil] at hlen
    omega
  | flush hpc =>
    rw [hpc] at hc
    exact hc rfl
  | readLength hpc h4 hn =>
    rw [hpc] at hc
    exact HoldsRest.skip hc _
  | readMore hpc hr hne =>
    rw [hpc] at hc
    exact hr.holds hc
  | upstreamExchange hpc hs =>
    rw [hpc] at hal
    exact ioHolds_upstream (lt_of_fits hal.1) hal.2 hs

theorem holds_owned : Tasks.OwnedInvariant (poolProgram K) IdleClean
    (fun _ i c => PcAligned i c.payload c.pc ∧ PcHolds c.pc) (fun _ _ => True) where
  task i P c a P' c' hP hc h := by
    obtain ⟨hclean, hal⟩ := aligned_step hP hc.1 h
    exact ⟨hclean, ⟨hal, holds_step hc.1 hc.2 h⟩, trivial⟩
  env P a P' hP h := ⟨idleClean_idleStep hP h, trivial⟩
  spawn _ _ _ _ := ⟨trivial, trivial⟩
  stable _ _ _ _ _ _ hc := hc

theorem holds_reaches {maxConnections : ℕ} {c : PoolConf}
    (h : Reaches (poolStep K) (poolInit maxConnections) c) :
    Tasks.Holds IdleClean (fun _ i c => PcAligned i c.payload c.pc ∧ PcHolds c.pc) c :=
  holds_owned.reaches ⟨fun _ hmem => (by cases hmem), fun _ _ ht => (by cases ht)⟩ h

/-! ## Completing a call -/

/-- A step without an error: nothing fails, nobody closes a stream, and the call is not dropped. -/
def SendAct.Smooth : SendAct → Prop
  | .ioError _ | .cancel | .upstream (.close _) => False
  | _ => True

/-- Smooth steps of the call and of its stream end it with the answer to `reply`. -/
def Completes (K : BinaryPort) (i : ℕ) (P : BinaryPool) (c : Call) (reply : Bytes) : Prop :=
  ∃ acts P' c', (∀ a ∈ acts, SendAct.Smooth a) ∧
    exec ((poolProgram K).solo i) (P, c) acts = some (P', c') ∧
    c'.pc = .finished (answerFor K c.payload reply)

theorem completes_finished {i : ℕ} {P : BinaryPool} {c : Call} {reply : Bytes}
    (h : c.pc = .finished (answerFor K c.payload reply)) : Completes K i P c reply :=
  ⟨[], P, c, fun _ ha => (by cases ha), rfl, h⟩

theorem Completes.cons {i : ℕ} {P P₁ : BinaryPool} {c c₁ : Call} {reply : Bytes} (a : SendAct)
    (hs : sendStep K i P c a = some (P₁, c₁)) (ha : a.Smooth) (h : Completes K i P₁ c₁ reply) :
    Completes K i P c reply := by
  obtain ⟨acts, P', c', hacts, hrun, hend⟩ := h
  refine ⟨a :: acts, P', c', ?_, ?_, ?_⟩
  · intro b hb
    rcases List.mem_cons.mp hb with rfl | hb
    · exact ha
    · exact hacts b hb
  · exact exec_cons_eq_some.mpr ⟨(P₁, c₁), hs, hrun⟩
  · rw [hend, sendStep_payload hs]

section Stages

variable {i : ℕ} {P : BinaryPool} {c : Call} {attempt : Attempt} {conn : PooledConnection}

theorem completes_received (K : BinaryPort) (i : ℕ) (P : BinaryPool) (c : Call)
    (conn : PooledConnection) (head buf : List (Answer × UInt8)) :
    Completes K i (received K P c conn head buf).1 (received K P c conn head buf).2
      (buf.map Prod.snd) := by
  unfold received
  dsimp only
  split
  · next rewritten hans =>
    refine Completes.cons .lock rfl trivial (completes_finished ?_)
    rw [← hans]
    rfl
  · next err hans =>
    refine completes_finished ?_
    rw [← hans]
    rfl

theorem answer_split {a : Answer} {head buf : List (Answer × UInt8)}
    (h : head ++ buf = mark a (frame a.reply)) (h4 : head.length = 4)
    (hr : a.reply.length < 2 ^ 32) :
    u32Of (head.map Prod.snd) = a.reply.length ∧ buf.map Prod.snd = a.reply := by
  rw [frame, Nat.mod_eq_of_lt hr, mark_append] at h
  obtain ⟨hhead, hbuf⟩ := List.append_inj h (by rw [h4, length_mark, length_u32le])
  have hu := u32Of_u32le hr []
  rw [List.append_nil] at hu
  rw [hhead, hbuf, map_snd_mark, map_snd_mark]
  exact ⟨hu, rfl⟩

theorem completes_readResponse {a : Answer} {len : ℕ} {head buf : List (Answer × UInt8)}
    (hpc : c.pc = .exchange attempt conn (.readResponse len head buf)) (h4 : head.length = 4)
    (hlen : len = u32Of (head.map Prod.snd)) (hbuf : buf.length < len)
    (hr : a.reply.length < 2 ^ 32)
    (hrest : head ++ buf ++ conn.stream.outbox = mark a (frame a.reply)) :
    Completes K i P c a.reply := by
  rw [List.append_assoc] at hrest
  obtain ⟨hu, hreply⟩ := answer_split hrest h4 hr
  have hout : buf.length + conn.stream.outbox.length = len := by
    rw [hlen, hu, ← hreply, List.length_map, List.length_append]
  have hs : sendStep K i P c (.read conn.stream.outbox.length) =
      some (received K P c ⟨conn.stream.skip conn.stream.outbox.length⟩ head
        (buf ++ conn.stream.outbox)) := by
    simp only [sendStep, hpc, exchangeStep]
    rw [if_pos ⟨by omega, hout.le, le_rfl⟩, readOn, List.take_length,
      if_pos (by rw [List.length_append, hout])]
  rw [← hreply]
  exact Completes.cons _ hs trivial (completes_received K i P c _ head _)

theorem completes_readLength {a : Answer} {buf : List (Answer × UInt8)}
    (hpc : c.pc = .exchange attempt conn (.readLength buf)) (hbuf : buf.length < 4)
    (hr : a.reply.length < 2 ^ 32)
    (hrest : buf ++ conn.stream.outbox = mark a (frame a.reply)) :
    Completes K i P c a.reply := by
  generalize hn : 4 - buf.length = n
  generalize hhead : buf ++ conn.stream.outbox.take n = head
  have hle : n ≤ conn.stream.outbox.length := by
    have hlen := congrArg List.length hrest
    rw [List.length_append, length_mark, length_frame] at hlen
    omega
  have h4 : head.length = 4 := by
    rw [← hhead, List.length_append, List.length_take_of_le hle]
    omega
  have hall : head ++ (conn.stream.skip n).outbox = mark a (frame a.reply) := by
    rw [← hhead, TcpStream.skip, List.append_assoc, List.take_append_drop]
    exact hrest
  have hs : sendStep K i P c (.read n) =
      some (readOn K P c attempt ⟨conn.stream.skip n⟩ (u32Of (head.map Prod.snd)) head []) := by
    simp only [sendStep, hpc, exchangeStep]
    rw [if_pos ⟨by omega, by omega, hle⟩, hhead, if_pos h4]
  obtain ⟨hu, hreply⟩ := answer_split hall h4 hr
  by_cases hempty : a.reply.length = 0
  · rw [readOn, hu, hempty, List.length_nil, if_pos rfl] at hs
    rw [List.eq_nil_of_length_eq_zero hempty]
    exact Completes.cons _ hs trivial (completes_received K i P c _ head [])
  · rw [readOn, hu, List.length_nil, if_neg fun h0 => hempty h0.symm] at hs
    refine Completes.cons _ hs trivial (completes_readResponse rfl h4 hu.symm ?_ hr ?_)
    · exact Nat.pos_of_ne_zero hempty
    · rw [List.append_nil]
      exact hall

theorem completes_written {io : Io} (hpc : c.pc = .exchange attempt conn io)
    (hio : io = .write [] ∨ io = .readLength []) {a : Answer} (hr : a.reply.length < 2 ^ 32)
    (hrest : conn.stream.outbox = mark a (frame a.reply)) : Completes K i P c a.reply := by
  rcases hio with rfl | rfl
  · have hs : sendStep K i P c .flush =
        some (P, { c with pc := .exchange attempt conn (.readLength []) }) := by
      simp only [sendStep, hpc, exchangeStep]
    exact Completes.cons _ hs trivial (completes_readLength rfl (Nat.succ_pos 3) hr hrest)
  · exact completes_readLength hpc (Nat.succ_pos 3) hr hrest

theorem completes_outstanding {io : Io} (hpc : c.pc = .exchange attempt conn io)
    (hio : io = .write [] ∨ io = .readLength []) (hp : c.payload.length < 2 ^ 32)
    (hin : conn.stream.inbox = mark i (frame c.payload)) (hout : conn.stream.outbox = [])
    (hopen : conn.stream.closed = false) {reply : Bytes} (hr : reply.length < 2 ^ 32) :
    Completes K i P c reply := by
  have hframe : HasFrame (conn.stream.inbox.map Prod.snd) := by
    have hu := u32Of_frame hp []
    rw [List.append_nil] at hu
    rw [hin, map_snd_mark, HasFrame, hu, length_frame]
    exact ⟨Nat.le_add_right _ _, le_rfl⟩
  have hanswer : (conn.stream.answer reply).isSome := by
    unfold TcpStream.answer
    dsimp only
    rw [if_pos ⟨hopen, hframe, hr⟩]
    rfl
  obtain ⟨s', hs'⟩ := Option.isSome_iff_exists.mp hanswer
  obtain ⟨a, ha, rfl, -, -, hout'⟩ := TcpStream.answer_frame hp hin hout hs'
  have hs : sendStep K i P c (.upstream (.answer a.reply)) =
      some (P, { c with pc := .exchange attempt ⟨s'⟩ io }) := by
    simp only [sendStep, hpc, TcpStream.upstream, hs', Option.map_some]
  exact Completes.cons _ hs trivial (completes_written rfl hio hr hout')

/-- The upstream has not answered the frame of the exchange yet. -/
def Unanswered (s : TcpStream) (io : Io) : Prop := s.inbox ≠ [] ∨ ∃ b left, io = .write (b :: left)

theorem unanswered_outstanding {s : TcpStream} {payload : Bytes} {io : Io}
    (hin : s.inbox = mark i (frame payload)) : Unanswered s io := by
  refine .inl fun hnil => ?_
  rw [hnil, mark, eq_comm, List.map_eq_nil_iff] at hin
  exact frame_ne_nil _ hin

/-- What has been read of the response. -/
def Io.received : Io → List (Answer × UInt8)
  | .write _ => []
  | .readLength buf => buf
  | .readResponse _ head buf => head ++ buf

/-- **An exchange over an open stream can be completed**: with any reply if there is none yet, and
else with the one whose frame is partly read and partly still on the stream. -/
theorem completes_exchange {io : Io} (hpc : c.pc = .exchange attempt conn io)
    (hp : c.payload.length < 2 ^ 32) (hal : IoAligned i c.payload conn.stream io)
    (hh : IoHolds conn.stream io) (hopen : conn.stream.closed = false) {reply : Bytes}
    (hr : reply.length < 2 ^ 32) :
    ∃ reply', Completes K i P c reply' ∧ (Unanswered conn.stream io → reply' = reply) ∧
      (¬ Unanswered conn.stream io → ∃ a : Answer,
        io.received ++ conn.stream.outbox = mark a (frame a.reply) ∧ a.reply = reply') := by
  cases hal with
  | @write done left hsplit hleft hin hout =>
    have hlen : 0 < left.length := List.length_pos_of_ne_nil hleft
    have hinbox : (conn.stream.write i left).inbox = mark i (frame c.payload) := by
      rw [← hsplit, mark_append, ← hin]
      rfl
    obtain ⟨c', hs, hpc', hpay⟩ : ∃ c', sendStep K i P c (.write left.length) = some (P, c') ∧
        c'.pc = .exchange attempt ⟨conn.stream.write i left⟩ (.write []) ∧
        c'.payload = c.payload := by
      simp only [sendStep, hpc, exchangeStep]
      rw [if_pos ⟨hlen, le_rfl⟩, List.take_length, List.drop_length]
      exact ⟨_, rfl, rfl, rfl⟩
    rw [← hpay] at hp hinbox
    refine ⟨reply, Completes.cons _ hs trivial
      (completes_outstanding hpc' (.inl rfl) hp hinbox hout hopen hr), fun _ => rfl, fun hno => ?_⟩
    obtain ⟨b, rest, rfl⟩ := List.exists_cons_of_ne_nil hleft
    exact absurd (.inr ⟨b, rest, rfl⟩) hno
  | written haw =>
    cases haw with
    | outstanding hin hout hbuf =>
      exact ⟨reply, completes_outstanding hpc (.inl rfl) hp hin hout hopen hr, fun _ => rfl,
        fun hno => absurd (unanswered_outstanding hin) hno⟩
    | answered a ha hin hout =>
      obtain ⟨b, hb, hrest⟩ := hh rfl hopen hin
      refine ⟨b.reply, completes_written hpc (.inl rfl) hb hrest, fun hun => ?_,
        fun _ => ⟨b, hrest, rfl⟩⟩
      rcases hun with hun | ⟨x, left, hun⟩
      · exact absurd hin hun
      · cases hun
  | readLength hbuf haw =>
    cases haw with
    | outstanding hin hout hnil =>
      rw [hnil] at hpc
      exact ⟨reply, completes_outstanding hpc (.inr rfl) hp hin hout hopen hr, fun _ => rfl,
        fun hno => absurd (unanswered_outstanding hin) hno⟩
    | answered a ha hin hout =>
      obtain ⟨b, hb, hrest⟩ := hh hopen hin
      refine ⟨b.reply, completes_readLength hpc hbuf hb hrest, fun hun => ?_,
        fun _ => ⟨b, hrest, rfl⟩⟩
      rcases hun with hun | ⟨x, left, hun⟩
      · exact absurd hin hun
      · cases hun
  | readResponse hhead hlen hbuf haw =>
    cases haw with
    | outstanding hin hout hnil =>
      have h4 := congrArg List.length hnil
      rw [List.length_append, hhead, List.length_nil] at h4
      omega
    | answered a ha hin hout =>
      obtain ⟨b, hb, hrest⟩ := hh hopen hin
      refine ⟨b.reply, completes_readResponse hpc hhead hlen hbuf hb hrest, fun hun => ?_,
        fun _ => ⟨b, hrest, rfl⟩⟩
      rcases hun with hun | ⟨x, left, hun⟩
      · exact absurd hin hun
      · cases hun

theorem completes_begun (P : BinaryPool) (c : Call) (attempt : Attempt) (event : StreamEvent)
    (hp : c.payload.length ≤ maxMessageSizeBytes) (hclean : conn.stream.Clean)
    (hopen : conn.stream.closed = false) {reply : Bytes} (hr : reply.length < 2 ^ 32) :
    Completes K i P (c.exchange attempt conn event) reply := by
  have hne : ∃ b left, Io.write (frame c.payload) = .write (b :: left) := by
    obtain ⟨b, left, hframe⟩ := List.exists_cons_of_ne_nil (frame_ne_nil c.payload)
    exact ⟨b, left, by rw [hframe]⟩
  have hpc : (c.exchange attempt conn event).pc =
      .exchange attempt conn (.write (frame c.payload)) := rfl
  obtain ⟨reply', h, hreply, -⟩ := completes_exchange (P := P) hpc (lt_of_fits hp)
    (ioAligned_start _ hclean) (fun hnil => absurd hnil (frame_ne_nil _)) hopen hr
  rwa [hreply (.inr hne)] at h

end Stages

/-! ## From every reachable state -/

/-- The call can go on: its stream is open, or it can get one. -/
def CanGoOn (P : BinaryPool) : Pc → Prop
  | .getConnection =>
    match P.pool with
    | conn :: _ => conn.stream.closed = false
    | [] => 0 < P.semaphore.permits ∧ P.semaphore.closed = false
  | .acquire => 0 < P.semaphore.permits ∧ P.semaphore.closed = false
  | .exchange _ conn _ => conn.stream.closed = false
  | .connect | .reconnect _ | .returnConnection _ _ => True
  | .start | .finished _ | .cancelled => False

/-- The upstream has not answered the call yet. -/
def Pc.unanswered : Pc → Prop
  | .exchange _ conn io => Unanswered conn.stream io
  | .returnConnection _ _ => False
  | _ => True

/-- The upstream has answered the call with this answer: it is partly read and partly still on the
stream, or the call has read it. -/
def Call.AnsweredBy (c : Call) (a : Answer) : Prop :=
  match c.pc with
  | .exchange _ conn io => io.received ++ conn.stream.outbox = mark a (frame a.reply)
  | .returnConnection _ _ => ∃ stream, .reply stream (mark a (frame a.reply)) ∈ c.trace
  | _ => False

/-- The call ends with the reply that it is given if the upstream has not answered it yet, and else
with the reply of the upstream. -/
structure EndsWith (K : BinaryPort) (i : ℕ) (P : BinaryPool) (c : Call) (reply reply' : Bytes) :
    Prop where
  completes : Completes K i P c reply'
  given : c.pc.unanswered → reply' = reply
  answered : ¬ c.pc.unanswered → ∃ a : Answer, c.AnsweredBy a ∧ a.reply = reply'

theorem EndsWith.of_unanswered {i : ℕ} {P : BinaryPool} {c : Call} {reply : Bytes}
    (h : Completes K i P c reply) (hun : c.pc.unanswered) : EndsWith K i P c reply reply :=
  ⟨h, fun _ => rfl, fun hno => absurd hun hno⟩

theorem completes_of_ready {i : ℕ} {P : BinaryPool} {c : Call} (hclean : IdleClean P)
    (hal : PcAligned i c.payload c.pc) (hh : PcHolds c.pc) (htr : TraceOk K i P.opened c)
    (hgo : CanGoOn P c.pc) {reply : Bytes} (hr : reply.length < 2 ^ 32) :
    ∃ reply', EndsWith K i P c reply reply' := by
  have hopened : ∀ (P : BinaryPool) (c : Call), c.pc = .connect →
      c.payload.length ≤ maxMessageSizeBytes → Completes K i P c reply := by
    intro P c hpc hp
    have hs : sendStep K i P c .connected = some ({ P with opened := P.opened + 1 },
        c.exchange .first ⟨.connect P.opened⟩ (.opened P.opened)) := by
      simp only [sendStep, hpc]
    exact Completes.cons _ hs trivial
      (completes_begun _ _ _ _ hp (TcpStream.connect_clean _) rfl hr)
  have hacquired : ∀ (P : BinaryPool) (c : Call), c.pc = .acquire →
      c.payload.length ≤ maxMessageSizeBytes → 0 < P.semaphore.permits →
      P.semaphore.closed = false → Completes K i P c reply := by
    intro P c hpc hp hpermits hclosed
    have hacq : ∃ sem, P.semaphore.acquire = .ok sem := by
      unfold Semaphore.acquire
      rw [hclosed, if_pos hpermits]
      exact ⟨_, rfl⟩
    obtain ⟨sem, hsem⟩ := hacq
    have hs : sendStep K i P c .acquire = some ({ P with semaphore := sem },
        { c with pc := .connect }) := by
      simp only [sendStep, hpc, hsem]
    exact Completes.cons _ hs trivial (hopened _ _ rfl hp)
  cases hpc : c.pc with
  | start | finished | cancelled =>
    rw [hpc] at hgo
    exact hgo.elim
  | getConnection =>
    rw [hpc] at hal hgo
    refine ⟨reply, .of_unanswered ?_ (by rw [hpc]; trivial)⟩
    unfold CanGoOn at hgo
    cases hpool : P.pool with
    | nil =>
      rw [hpool] at hgo
      have hs : sendStep K i P c .lock = some (P, { c with pc := .acquire }) := by
        simp only [sendStep, hpc, hpool]
      exact Completes.cons _ hs trivial (hacquired _ _ rfl hal hgo.1 hgo.2)
    | cons conn rest =>
      rw [hpool] at hgo
      have hs : sendStep K i P c .lock = some ({ P with pool := rest },
          c.exchange .first conn (.popped conn.stream.id)) := by
        simp only [sendStep, hpc, hpool]
      refine Completes.cons _ hs trivial (completes_begun _ _ _ _ hal ?_ hgo hr)
      exact hclean conn (by rw [hpool]; exact List.mem_cons_self)
  | acquire =>
    rw [hpc] at hal hgo
    exact ⟨reply, .of_unanswered (hacquired P c hpc hal hgo.1 hgo.2) (by rw [hpc]; trivial)⟩
  | connect =>
    rw [hpc] at hal
    exact ⟨reply, .of_unanswered (hopened P c hpc hal) (by rw [hpc]; trivial)⟩
  | exchange attempt conn io =>
    rw [hpc] at hal hgo hh
    obtain ⟨reply', h, hgiven, hanswered⟩ :=
      completes_exchange (P := P) (K := K) hpc (lt_of_fits hal.1) hal.2 hh hgo hr
    refine ⟨reply', h, ?_, ?_⟩
    · rw [hpc]
      exact hgiven
    · simp only [Call.AnsweredBy, hpc]
      exact hanswered
  | reconnect conn =>
    rw [hpc] at hal
    have hs : sendStep K i P c .connected = some ({ P with opened := P.opened + 1 },
        c.exchange .second ⟨.connect P.opened⟩ (.opened P.opened)) := by
      simp only [sendStep, hpc]
    exact ⟨reply, .of_unanswered (Completes.cons _ hs trivial
      (completes_begun _ _ _ _ hal (TcpStream.connect_clean _) rfl hr)) (by rw [hpc]; trivial)⟩
  | returnConnection conn rewritten =>
    unfold TraceOk at htr
    rw [hpc] at htr
    obtain ⟨-, a, htr, ha⟩ := htr
    obtain ⟨stream, -, hread⟩ := htr.answer
    have hs : sendStep K i P c .lock = some
        ((({ P with pool := conn :: P.pool }).count .ok).leave, c.finish (.ok rewritten)) := by
      simp only [sendStep, hpc]
    refine ⟨a.reply, Completes.cons _ hs trivial (completes_finished ?_), fun hun => ?_,
      fun _ => ⟨a, ?_, rfl⟩⟩
    · rw [Call.finish, ← ha]
    · rw [hpc] at hun
      exact hun.elim
    · rw [Call.AnsweredBy, hpc]
      exact ⟨stream, hread⟩

/-- **No reachable state is a dead end for a call** whose stream is open, or that can get one: there
are steps of this call and of its stream alone, without an error, a reset or a cancellation, with
which it ends and reports the answer to a reply: to any given one if the upstream has not answered
yet, and else to the reply that the call has read or that its stream holds the rest of. -/
theorem call_completes {maxConnections : ℕ} {c : PoolConf}
    (h : Reaches (poolStep K) (poolInit maxConnections) c) {i : ℕ} {t : Call}
    (ht : c.tasks[i]? = some t) (hgo : CanGoOn c.shared t.pc) {reply : Bytes}
    (hr : reply.length < 2 ^ 32) :
    ∃ (acts : List SendAct) (c' : PoolConf) (t' : Call) (reply' : Bytes),
      (∀ a ∈ acts, a.Smooth) ∧ exec (poolStep K) c (acts.map (.task i)) = some c' ∧
      c'.tasks[i]? = some t' ∧ t'.pc = .finished (answerFor K t.payload reply') ∧
      (t.pc.unanswered → reply' = reply) ∧
      (¬ t.pc.unanswered → ∃ a : Answer, t.AnsweredBy a ∧ a.reply = reply') := by
  obtain ⟨hclean, hL⟩ := holds_reaches h
  obtain ⟨hal, hh⟩ := hL i t ht
  have htr := ((traced_reaches h).2 i t ht).2
  obtain ⟨reply', ⟨acts, P', t', hacts, hrun, hend⟩, hgiven, hanswered⟩ :=
    completes_of_ready hclean hal hh htr hgo hr
  refine ⟨acts, _, t', reply', hacts, Tasks.exec_solo ht hrun, ?_, hend, hgiven, hanswered⟩
  exact List.getElem?_set_self (List.getElem?_eq_some_iff.mp ht).1

/-- A call that is about to write its frame. -/
def exchanging : PoolConf :=
  ⟨⟨⟨0, false⟩, [], ⟨0, 0, 0, 0, 1⟩, 1⟩,
    [⟨uptimeRequest, .exchange .first ⟨.connect 0⟩ (.write (frame uptimeRequest)), [.opened 0]⟩]⟩

theorem exchanging_reached : exec (poolStep wirePort) (poolInit 1) [.spawn uptimeRequest,
    .task 0 .begin, .task 0 .lock, .task 0 .acquire, .task 0 .connected] = some exchanging := rfl

theorem call_completes_exchanging : ∃ (acts : List SendAct) (c' : PoolConf) (t' : Call),
    (∀ a ∈ acts, a.Smooth) ∧ exec (poolStep wirePort) exchanging (acts.map (.task 0)) = some c' ∧
      c'.tasks[0]? = some t' ∧ t'.pc = .finished (.ok failureReply) := by
  obtain ⟨acts, c', t', reply', hacts, hrun, ht', hpc, hreply, -⟩ :=
    call_completes (i := 0) ⟨_, exchanging_reached⟩ rfl rfl
      (show failureReply.length < 2 ^ 32 by decide)
  refine ⟨acts, c', t', hacts, hrun, ht', ?_⟩
  rw [hpc, hreply (.inr ⟨_, _, rfl⟩)]
  rfl

end CasperNodeProxy
