import CasperNodeProxy.Lib.Wire
import CasperNodeProxy.Binary.Request

/-!
# Upstream streams

A stream to the upstream node is a queue of bytes in each direction. The upstream answers every
complete frame with one complete response frame; the stream may break at any byte, and the peer may
close it at any time.

Every byte carries what it belongs to: a byte written, the call that wrote it; a byte to be read,
the `Answer` it is part of. Nothing the program does depends on these marks.

* `answer_frame`: what the upstream does with the frame of one call.
-/

namespace CasperNodeProxy

open Wire

/-- The answer of the upstream to one frame: the stream, the call that wrote each byte of the
frame, the message of the frame, and the reply. -/
structure Answer where
  stream : ℕ
  writers : List ℕ
  request : Bytes
  reply : Bytes
  deriving DecidableEq

/-- A stream to the upstream node, with its two queues. -/
structure TcpStream where
  id : ℕ
  /-- Written and not yet taken by the upstream. -/
  inbox : List (ℕ × UInt8)
  /-- Sent by the upstream and not yet read. -/
  outbox : List (Answer × UInt8)
  closed : Bool
  deriving DecidableEq

/-- What the upstream does on a stream. -/
inductive UpstreamAct
  | answer (reply : Bytes)
  | close (kept : ℕ)

/-- Bytes with a mark. -/
def mark {α : Type} (a : α) (b : Bytes) : List (α × UInt8) := b.map fun x => (a, x)

section Mark

variable {α : Type} (a : α) (b c : Bytes)

@[simp] theorem map_snd_mark : (mark a b).map Prod.snd = b := by
  simp [mark, Function.comp_def]

@[simp] theorem map_fst_mark : (mark a b).map Prod.fst = List.replicate b.length a := by
  simp [mark, Function.comp_def]

@[simp] theorem length_mark : (mark a b).length = b.length := by simp [mark]

theorem mark_append : mark a (b ++ c) = mark a b ++ mark a c := by simp [mark]

end Mark

namespace TcpStream

/-- `TcpStream::connect`. -/
def connect (id : ℕ) : TcpStream := ⟨id, [], [], false⟩

/-- Call `i` writes bytes. -/
def write (s : TcpStream) (i : ℕ) (b : Bytes) : TcpStream := { s with inbox := s.inbox ++ mark i b }

/-- `n` bytes have been read. -/
def skip (s : TcpStream) (n : ℕ) : TcpStream := { s with outbox := s.outbox.drop n }

/-- The upstream takes a complete frame and sends a complete response frame. -/
def answer (s : TcpStream) (reply : Bytes) : Option TcpStream :=
  let bytes := s.inbox.map Prod.snd
  if s.closed = false ∧ HasFrame bytes ∧ reply.length < 2 ^ 32 then
    let n := 4 + u32Of bytes
    let a : Answer := ⟨s.id, (s.inbox.take n).map Prod.fst, frameMessage bytes, reply⟩
    some { s with inbox := s.inbox.drop n, outbox := s.outbox ++ mark a (frame reply) }
  else none

/-- The stream is closed; of what the upstream sent only `kept` bytes arrive. -/
def close (s : TcpStream) (kept : ℕ) : TcpStream :=
  { s with closed := true, outbox := s.outbox.take kept }

/-- What the upstream does on the stream. -/
def upstream (s : TcpStream) : UpstreamAct → Option TcpStream
  | .answer reply => s.answer reply
  | .close kept => some (s.close kept)

/-- No partly written request, no outstanding request and no unread response byte. -/
structure Clean (s : TcpStream) : Prop where
  inbox : s.inbox = []
  outbox : s.outbox = []

theorem connect_clean (id : ℕ) : (connect id).Clean := ⟨rfl, rfl⟩

@[simp] theorem write_id (s : TcpStream) (i : ℕ) (b : Bytes) : (s.write i b).id = s.id := rfl

theorem answer_id {s s' : TcpStream} {reply : Bytes} (h : s.answer reply = some s') :
    s'.id = s.id := by
  simp only [answer] at h
  split at h
  · cases h
    rfl
  · cases h

theorem upstream_id {s s' : TcpStream} {u : UpstreamAct} (h : s.upstream u = some s') :
    s'.id = s.id := by
  cases u with
  | answer reply => exact answer_id h
  | close kept => cases h; rfl

theorem answer_incomplete {s : TcpStream} (h : ¬ HasFrame (s.inbox.map Prod.snd)) (reply : Bytes) :
    s.answer reply = none := by
  simp [answer, h]

theorem not_hasFrame_nil : ¬ HasFrame [] := by
  rintro ⟨h, -⟩
  simp at h

/-- **A clean stream stays clean** whatever the upstream does. -/
theorem Clean.upstream {s s' : TcpStream} (hs : s.Clean) {u : UpstreamAct}
    (h : s.upstream u = some s') : s'.Clean := by
  cases u with
  | answer reply =>
    have hn : ¬ HasFrame (s.inbox.map Prod.snd) := by
      rw [hs.inbox]
      exact not_hasFrame_nil
    simp [TcpStream.upstream, answer_incomplete hn] at h
  | close kept =>
    cases h
    exact ⟨hs.inbox, by simp [close, hs.outbox]⟩

end TcpStream

/-- `a` answers the frame of `payload` that call `i`, and nobody else, wrote on the stream. -/
structure Answer.Answers (a : Answer) (i : ℕ) (payload : Bytes) (stream : ℕ) : Prop where
  stream : a.stream = stream
  writers : a.writers = List.replicate (frame payload).length i
  request : a.request = payload
  reply : a.reply.length < 2 ^ 32

/-- **The upstream's answer to a frame of one call.** -/
theorem TcpStream.answer_frame {s s' : TcpStream} {i : ℕ} {payload reply : Bytes}
    (hp : payload.length < 2 ^ 32) (hin : s.inbox = mark i (frame payload)) (hout : s.outbox = [])
    (h : s.answer reply = some s') :
    ∃ a : Answer, a.Answers i payload s.id ∧ a.reply = reply ∧ s'.id = s.id ∧ s'.inbox = [] ∧
      s'.outbox = mark a (frame reply) := by
  have hu := u32Of_frame hp []
  rw [List.append_nil] at hu
  have hlen : (mark i (frame payload)).length = 4 + payload.length := by simp
  simp only [answer, hin, hout, map_snd_mark, hu, List.nil_append] at h
  split at h
  · next hc =>
    cases h
    rw [← hlen, List.take_length, List.drop_length]
    exact ⟨_, ⟨rfl, map_fst_mark _ _, frameMessage_frame hp, hc.2.2⟩, rfl, rfl, rfl, rfl⟩
  · cases h

end CasperNodeProxy
