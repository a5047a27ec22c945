import Mathlib.Algebra.Group.Nat.Defs
import Mathlib.Data.List.Basic

/-!
# Broadcast queues, wake-ups and permits

The primitives of `tokio::sync` that asynchronous tasks hand data and resources over with.

* `Sender`, `Receiver`, `recv`: a broadcast queue. The ring keeps the last `slots` values; a
  receiver that falls further behind is told how many it missed and jumps to the oldest one left.
* `recv_ok`, `recv_lagged`: what the two outcomes mean for the position of the receiver.
* `Notify`, `Notified`: `notifyWaiters` wakes every `Notified` future created before the call,
  polled or not.
* `Semaphore`: `acquire` takes a permit when there is one, `release` gives it back.
-/

namespace Channel

/-! ## Broadcast -/

/-- The sending half, with everything sent so far; only the last `slots` values can be read. -/
structure Sender (α : Type*) where
  slots : ℕ
  sent : List α

/-- A receiver: the position in `sent` of the value it reads next. -/
structure Receiver where
  next : ℕ
  deriving DecidableEq

/-- The ring has the capacity rounded up to a power of two. -/
def ringSize (capacity : ℕ) : ℕ := if capacity ≤ 1 then 1 else 2 ^ (Nat.log2 (capacity - 1) + 1)

variable {α : Type*}

/-- A channel with nothing sent yet. -/
def channel (capacity : ℕ) : Sender α := ⟨ringSize capacity, []⟩

/-- A value is sent to all receivers. -/
def Sender.send (s : Sender α) (a : α) : Sender α := { s with sent := s.sent ++ [a] }

/-- A new receiver sees the values sent from now on. -/
def Sender.subscribe (s : Sender α) : Receiver := ⟨s.sent.length⟩

/-- `Ok` and `RecvError::Lagged` of `recv`, and a `recv` that stays pending. The sender is never
dropped while a receiver of it is read. -/
inductive Recv (α : Type*)
  | ok (a : α)
  | lagged (skipped : ℕ)
  | pending

/-- Read the next value, or report the values that were overwritten before they were read. -/
def Sender.recv (s : Sender α) (rx : Receiver) : Recv α × Receiver :=
  if rx.next + s.slots < s.sent.length then
    (.lagged (s.sent.length - s.slots - rx.next), ⟨s.sent.length - s.slots⟩)
  else
    match s.sent[rx.next]? with
    | some a => (.ok a, ⟨rx.next + 1⟩)
    | none => (.pending, rx)

theorem recv_ok {s : Sender α} {rx rx' : Receiver} {a : α} (h : s.recv rx = (.ok a, rx')) :
    s.sent[rx.next]? = some a ∧ rx'.next = rx.next + 1 := by
  unfold Sender.recv at h
  split at h
  · cases h
  · split at h
    · next b hb => cases h; exact ⟨hb, rfl⟩
    · cases h

/-- The skipped values are the ones between the old and the new position, all of them sent. -/
theorem recv_lagged {s : Sender α} {rx rx' : Receiver} {n : ℕ} (h : s.recv rx = (.lagged n, rx')) :
    rx'.next = rx.next + n ∧ rx'.next ≤ s.sent.length ∧ rx'.next + s.slots = s.sent.length := by
  unfold Sender.recv at h
  split at h
  · cases h
    refine ⟨?_, ?_, ?_⟩ <;> dsimp only <;> omega
  · split at h <;> cases h

/-! ## Wake-ups -/

/-- The number of `notify_waiters` calls so far. -/
structure Notify where
  calls : ℕ
  deriving DecidableEq

/-- A `Notified` future remembers how many calls there had been when it was created. -/
structure Notified where
  seen : ℕ
  deriving DecidableEq

/-- A `Notify` that was never called. -/
def Notify.new : Notify := ⟨0⟩

/-- The future of `notified()`. -/
def Notify.notified (n : Notify) : Notified := ⟨n.calls⟩

/-- All futures that exist are woken. -/
def Notify.notifyWaiters (n : Notify) : Notify := ⟨n.calls + 1⟩

/-- The future completes when it is polled: a wake-up is pending. -/
def Notify.wakes (n : Notify) (f : Notified) : Bool := f.seen < n.calls

theorem Notify.wakes_iff {n : Notify} {f : Notified} : n.wakes f = true ↔ f.seen < n.calls := by
  simp [Notify.wakes]

/-! ## Permits -/

/-- A semaphore: the permits nobody holds. -/
structure Semaphore where
  permits : ℕ
  closed : Bool
  deriving DecidableEq

/-- A semaphore with these permits. -/
def Semaphore.new (permits : ℕ) : Semaphore := ⟨permits, false⟩

/-- The outcomes of polling `acquire`. -/
inductive Acquire
  | ok (s : Semaphore)
  | closed
  | pending

/-- `acquire` is polled. -/
def Semaphore.acquire (s : Semaphore) : Acquire :=
  if s.closed then .closed
  else if 0 < s.permits then .ok { s with permits := s.permits - 1 }
  else .pending

/-- A permit is dropped. -/
def Semaphore.release (s : Semaphore) : Semaphore := { s with permits := s.permits + 1 }

theorem acquire_ok {s s' : Semaphore} (h : s.acquire = .ok s') : s.permits = s'.permits + 1 := by
  unfold Semaphore.acquire at h
  split at h
  · cases h
  · split at h
    · cases h
      dsimp only
      omega
    · cases h

end Channel
