import CasperNodeProxy.Binary.Pool

/-!
# Streams stay aligned with calls

* `Awaits`, `IoAligned`: what a stream holds while a call is in the middle of an exchange on it.
* `PcAligned`: the invariant of one call; the one of the pool is that idle streams are clean.
* **`awaits_complete`**: a response that is read to its end is the answer to the call's own frame.
* `aligned_step`: every step keeps the invariant.
-/

namespace CasperNodeProxy

open Run Wire

/-- The frame of call `i` is written, and `buf` has been read: either the upstream has not answered
yet, or what was read and what can be read is the beginning of its answer. -/
inductive Awaits (i : ℕ) (payload : Bytes) (s : TcpStream) (buf : List (Answer × UInt8)) : Prop
  | outstanding (hin : s.inbox = mark i (frame payload)) (hout : s.outbox = []) (hbuf : buf = [])
  | answered (a : Answer) (ha : a.Answers i payload s.id) (hin : s.inbox = [])
      (hout : buf ++ s.outbox <+: mark a (frame a.reply))

/-- What the stream holds at the await points of `send_and_receive`. -/
inductive IoAligned (i : ℕ) (payload : Bytes) (s : TcpStream) : Io → Prop
  | write {done left : Bytes} (hsplit : done ++ left = frame payload) (hleft : left ≠ [])
      (hin : s.inbox = mark i done) (hout : s.outbox = []) : IoAligned i payload s (.write left)
  | written (h : Awaits i payload s []) : IoAligned i payload s (.write [])
  | readLength {buf : List (Answer × UInt8)} (hbuf : buf.length < 4) (h : Awaits i payload s buf) :
      IoAligned i payload s (.readLength buf)
  | readResponse {len : ℕ} {head buf : List (Answer × UInt8)} (hhead : head.length = 4)
      (hlen : len = u32Of (head.map Prod.snd)) (hbuf : buf.length < len)
      (h : Awaits i payload s (head ++ buf)) : IoAligned i payload s (.readResponse len head buf)

/-! ## Streams in an exchange -/

theorem awaits_close {i : ℕ} {payload : Bytes} {s : TcpStream} {buf : List (Answer × UInt8)}
    (h : Awaits i payload s buf) (kept : ℕ) : Awaits i payload (s.close kept) buf := by
  cases h with
  | outstanding hin hout hbuf => exact .outstanding hin (by simp [TcpStream.close, hout]) hbuf
  | answered a ha hin hout =>
    refine .answered a ha hin (List.IsPrefix.trans ?_ hout)
    exact List.prefix_append_right_inj _ |>.mpr (List.take_prefix _ _)

/-- The upstream answers an outstanding frame, and only that. -/
theorem awaits_answer {i : ℕ} {payload reply : Bytes} {s s' : TcpStream}
    {buf : List (Answer × UInt8)} (hp : payload.length < 2 ^ 32) (h : Awaits i payload s buf)
    (hs : s.answer reply = some s') : Awaits i payload s' buf := by
  cases h with
  | outstanding hin hout hbuf =>
    obtain ⟨a, ha, hr, hid, hin', hout'⟩ := TcpStream.answer_frame hp hin hout hs
    have hall : buf ++ s'.outbox = mark a (frame a.reply) := by
      rw [hbuf, hout', hr, List.nil_append]
    exact .answered a (hid ▸ ha) hin' (hall ▸ List.prefix_refl _)
  | answered a ha hin hout =>
    have hn : ¬ HasFrame (s.inbox.map Prod.snd) := by
      rw [hin]
      exact TcpStream.not_hasFrame_nil
    rw [TcpStream.answer_incomplete hn] at hs
    cases hs

theorem awaits_upstream {i : ℕ} {payload : Bytes} {s s' : TcpStream} {u : UpstreamAct}
    {buf : List (Answer × UInt8)} (hp : payload.length < 2 ^ 32) (h : Awaits i payload s buf)
    (hs : s.upstream u = some s') : Awaits i payload s' buf := by
  cases u with
  | answer reply => exact awaits_answer hp h hs
  | close kept =>
    cases hs
    exact awaits_close h kept

/-- Whatever the upstream does, a stream in an exchange stays aligned. -/
theorem ioAligned_upstream {i : ℕ} {payload : Bytes} {s s' : TcpStream} {u : UpstreamAct} {io : Io}
    (hp : payload.length < 2 ^ 32) (h : IoAligned i payload s io) (hs : s.upstream u = some s') :
    IoAligned i payload s' io := by
  cases h with
  | write hsplit hleft hin hout =>
    cases u with
    | answer reply =>
      have hn : ¬ HasFrame (s.inbox.map Prod.snd) := by
        rw [hin, map_snd_mark]
        exact frame_prefix_incomplete hp hsplit hleft
      rw [TcpStream.upstream, TcpStream.answer_incomplete hn] at hs
      cases hs
    | close kept =>
      cases hs
      exact .write hsplit hleft hin (by simp [TcpStream.close, hout])
  | written h => exact .written (awaits_upstream hp h hs)
  | readLength hbuf h => exact .readLength hbuf (awaits_upstream hp h hs)
  | readResponse hhead hlen hbuf h =>
    exact .readResponse hhead hlen hbuf (awaits_upstream hp h hs)

theorem frame_ne_nil (payload : Bytes) : frame payload ≠ [] := by
  intro h
  have := congrArg List.length h
  simp at this

theorem ioAligned_start {i : ℕ} (payload : Bytes) {s : TcpStream} (hs : s.Clean) :
    IoAligned i payload s (.write (frame payload)) := by
  exact .write (List.nil_append _) (frame_ne_nil _) hs.inbox hs.outbox

theorem ioAligned_write {i n : ℕ} {payload left : Bytes} {s : TcpStream} (hn : n ≤ left.length)
    (h0 : 0 < n) (h : IoAligned i payload s (.write left)) :
    IoAligned i payload (s.write i (left.take n)) (.write (left.drop n)) := by
  cases h with
  | write hsplit hleft hin hout =>
    next done =>
    have hin' : (s.write i (left.take n)).inbox = mark i (done ++ left.take n) := by
      rw [mark_append, ← hin]
      rfl
    by_cases hend : left.drop n = []
    · have htake : left.take n = left := by
        rw [← List.append_nil (left.take n), ← hend, List.take_append_drop]
      rw [hend]
      rw [htake, hsplit] at hin'
      rw [htake]
      exact .written (.outstanding hin' hout rfl)
    · refine .write ?_ hend hin' hout
      rw [List.append_assoc, List.take_append_drop, hsplit]
  | written h =>
    have : n ≤ 0 := hn
    omega

theorem awaits_skip {i n : ℕ} {payload : Bytes} {s : TcpStream} {buf : List (Answer × UInt8)}
    (h : Awaits i payload s buf) : Awaits i payload (s.skip n)
      (buf ++ s.outbox.take n) := by
  cases h with
  | outstanding hin hout hbuf =>
    refine .outstanding hin ?_ ?_
    · simp [TcpStream.skip, hout]
    · simp [hbuf, hout]
  | answered a ha hin hout =>
    refine .answered a ha hin ?_
    rw [TcpStream.skip, List.append_assoc, List.take_append_drop]
    exact hout

/-- **A response that is read to its end is the whole answer**, and leaves the stream clean. -/
theorem awaits_complete {i : ℕ} {payload : Bytes} {s : TcpStream}
    {head buf : List (Answer × UInt8)} (h : Awaits i payload s (head ++ buf))
    (hhead : head.length = 4) (hbuf : buf.length = u32Of (head.map Prod.snd)) :
    ∃ a : Answer, a.Answers i payload s.id ∧ head ++ buf = mark a (frame a.reply) ∧ s.Clean := by
  cases h with
  | outstanding hin hout hnil =>
    have := congrArg List.length hnil
    rw [List.length_append, hhead, List.length_nil] at this
    omega
  | answered a ha hin hout =>
    obtain ⟨rest, hrest⟩ := hout
    -- the four bytes of the length are those of the answer
    have hu : u32Of (head.map Prod.snd) = a.reply.length := by
      have hbytes := congrArg (List.map Prod.snd) hrest
      rw [map_snd_mark, List.append_assoc, List.append_assoc, List.map_append] at hbytes
      have h4 : 4 ≤ (head.map Prod.snd).length := by rw [List.length_map, hhead]
      rw [← u32Of_append h4, hbytes, ← List.append_nil (frame a.reply), u32Of_frame ha.reply]
    have hlen := congrArg List.length hrest
    simp only [List.length_append, length_mark, length_frame] at hlen
    have hout : s.outbox = [] := List.eq_nil_of_length_eq_zero (by omega)
    have hnil : rest = [] := List.eq_nil_of_length_eq_zero (by omega)
    rw [hout, hnil, List.append_nil, List.append_nil] at hrest
    exact ⟨a, ha, hrest, hin, hout⟩

theorem awaits_reads {i n len : ℕ} {payload : Bytes} {s : TcpStream} {io : Io}
    {head buf : List (Answer × UInt8)} (h : IoAligned i payload s io)
    (hr : Reads s n io len head buf) :
    head.length = 4 ∧ len = u32Of (head.map Prod.snd) ∧ buf.length ≤ len ∧
      Awaits i payload (s.skip n) (head ++ buf) := by
  cases hr with
  | length h4 hn =>
    cases h with
    | readLength hbuf h =>
      refine ⟨?_, rfl, Nat.zero_le _, ?_⟩
      · rw [List.length_append, List.length_take_of_le hn, h4]
      · rw [List.append_nil]
        exact awaits_skip h
  | response hlen hn =>
    cases h with
    | readResponse hhead hl hbuf h =>
      refine ⟨hhead, hl, ?_, ?_⟩
      · rw [List.length_append, List.length_take_of_le hn]
        exact hlen
      · rw [← List.append_assoc]
        exact awaits_skip h

theorem ioAligned_flush {i : ℕ} {payload : Bytes} {s : TcpStream}
    (h : IoAligned i payload s (.write [])) : IoAligned i payload s (.readLength []) := by
  cases h with
  | write _ hleft => exact absurd rfl hleft
  | written h => exact .readLength (Nat.succ_pos 3) h

/-! ## The invariant of the streams -/

/-- Every idle connection is clean. -/
def IdleClean (P : BinaryPool) : Prop := ∀ conn ∈ P.pool, conn.stream.Clean

/-- What the stream that call `i` owns holds; a payload whose frame is written fits a frame. -/
def PcAligned (i : ℕ) (payload : Bytes) : Pc → Prop
  | .getConnection | .acquire | .connect | .reconnect _ => payload.length ≤ maxMessageSizeBytes
  | .exchange _ conn io =>
    payload.length ≤ maxMessageSizeBytes ∧ IoAligned i payload conn.stream io
  | .returnConnection conn _ => conn.stream.Clean
  | .start | .finished _ | .cancelled => True

variable {K : BinaryPort}

theorem lt_of_fits {n : ℕ} (h : n ≤ maxMessageSizeBytes) : n < 2 ^ 32 := by
  unfold maxMessageSizeBytes at h
  omega

/-- **Streams stay aligned.** One case for each exit of an await point. -/
theorem aligned_step {i : ℕ} {P P' : BinaryPool} {c c' : Call} {a : SendAct} (hP : IdleClean P)
    (hc : PcAligned i c.payload c.pc) (h : sendStep K i P c a = some (P', c')) :
    IdleClean P' ∧ PcAligned i c'.payload c'.pc := by
  cases sendStep_cases h with
  | reject hpc | unavailable hpc | connectFailed hpc | reconnectFailed hpc | exchangeFailed hpc
  | unanswerable hpc | cancelStart hpc | cancelBefore hpc | cancelHolding hpc =>
    exact ⟨hP, trivial⟩
  | accept hpc hr => exact ⟨hP, checkRequest_fits hr⟩
  | wait hpc | acquired hpc =>
    rw [hpc] at hc
    exact ⟨hP, hc⟩
  | pop hpc hp =>
    rw [hpc] at hc
    unfold IdleClean at hP
    rw [hp] at hP
    refine ⟨fun conn hmem => hP conn (List.mem_cons_of_mem _ hmem), hc, ?_⟩
    exact ioAligned_start _ (hP _ List.mem_cons_self)
  | putBack hpc =>
    rw [hpc] at hc
    refine ⟨fun conn hmem => ?_, trivial⟩
    rcases List.mem_cons.mp hmem with rfl | hmem
    · exact hc
    · exact hP conn hmem
  | connected hpc | reconnected hpc =>
    rw [hpc] at hc
    exact ⟨hP, hc, ioAligned_start _ (TcpStream.connect_clean _)⟩
  | retry hpc =>
    rw [hpc] at hc
    exact ⟨hP, hc.1⟩
  | write hpc h0 hn =>
    rw [hpc] at hc
    exact ⟨hP, hc.1, ioAligned_write hn h0 hc.2⟩
  | flush hpc =>
    rw [hpc] at hc
    exact ⟨hP, hc.1, ioAligned_flush hc.2⟩
  | readLength hpc h4 hn =>
    rw [hpc] at hc
    cases hc.2 with
    | readLength _ haw =>
      refine ⟨hP, hc.1, .readLength ?_ (awaits_skip haw)⟩
      rw [List.length_append, List.length_take_of_le hn]
      exact h4
  | readMore hpc hr hne =>
    rw [hpc] at hc
    obtain ⟨h4, hlen, hle, haw⟩ := awaits_reads hc.2 hr
    exact ⟨hP, hc.1, .readResponse h4 hlen (Nat.lt_of_le_of_ne hle hne) haw⟩
  | replied hpc hr hlen =>
    rw [hpc] at hc
    obtain ⟨h4, hu, -, haw⟩ := awaits_reads hc.2 hr
    obtain ⟨-, -, -, hclean⟩ := awaits_complete haw h4 (hlen.trans hu)
    exact ⟨hP, hclean⟩
  | upstreamExchange hpc hs =>
    rw [hpc] at hc
    exact ⟨hP, hc.1, ioAligned_upstream (lt_of_fits hc.1) hc.2 hs⟩
  | upstreamReconnect hpc hs =>
    rw [hpc] at hc
    exact ⟨hP, hc⟩
  | upstreamReturn hpc hs =>
    rw [hpc] at hc
    exact ⟨hP, hc.upstream hs⟩

theorem idleClean_idleStep {P P' : BinaryPool} {a : IdleAct} (hP : IdleClean P)
    (h : idleStep P a = some P') : IdleClean P' := by
  simp only [idleStep, Option.bind_eq_some_iff, Option.map_eq_some_iff] at h
  obtain ⟨conn, hconn, s, hs, rfl⟩ := h
  intro d hd
  rcases List.mem_or_eq_of_mem_set hd with hd | rfl
  · exact hP d hd
  · exact (hP conn (List.mem_of_getElem? hconn)).upstream hs

end CasperNodeProxy
