import CasperNodeProxy.Lib.Refinement
import CasperNodeProxy.Binary.Marks
import CasperNodeProxy.Binary.Socket
import CasperNodeProxy.Binary.WireFormat

/-!
# Websockets over the pool

The sockets of a network make calls of the pool: whatever they do is a run of calls that arrive one
by one. So what holds of every run of the pool holds of the server.

* `callsOf`: the calls of one socket, in order.
* `Follows`: a socket and its calls; `Serves`: all sockets, and the pool under them.
* **`sockets_simulate`**: every step of the sockets is matched by the pool;
  **`sockets_refine_pool`**: and so is every run.
-/

namespace CasperNodeProxy

open Run Wire

variable {G : Governor} {K : BinaryPort}

/-! ## Which call is made for which socket -/

/-- The calls that were made for socket `i`, when `owners` has the socket of each call. -/
def callsOf (owners : List ℕ) (i : ℕ) : List ℕ :=
  (List.range owners.length).filter fun k => owners[k]? = some i

theorem mem_callsOf {owners : List ℕ} {i k : ℕ} : k ∈ callsOf owners i ↔ owners[k]? = some i := by
  simp only [callsOf, List.mem_filter, List.mem_range, decide_eq_true_eq, and_iff_right_iff_imp]
  exact fun h => (List.getElem?_eq_some_iff.mp h).1

theorem callsOf_snoc (owners : List ℕ) (i j : ℕ) :
    callsOf (owners ++ [j]) i = callsOf owners i ++ if j = i then [owners.length] else [] := by
  have hold : (List.range owners.length).filter (fun k => (owners ++ [j])[k]? = some i) =
      callsOf owners i := by
    refine List.filter_congr fun k hk => ?_
    rw [List.getElem?_append_left (List.mem_range.mp hk)]
  rw [callsOf, List.length_append, List.length_singleton, List.range_succ, List.filter_append, hold]
  simp only [List.filter_cons, List.filter_nil, List.getElem?_concat_length, Option.some.injEq,
    decide_eq_true_eq]

/-- `f` gives every call its socket. -/
def Names (owners : List ℕ) (f : ℕ → ℕ) : Prop := ∀ k i : ℕ, owners[k]? = some i → f k = i

theorem Names.of_snoc {owners : List ℕ} {i : ℕ} {f : ℕ → ℕ} (h : Names (owners ++ [i]) f) :
    Names owners f := by
  intro k j hk
  refine h k j ?_
  rw [List.getElem?_append_left (List.getElem?_eq_some_iff.mp hk).1]
  exact hk

theorem names_getD (owners : List ℕ) : Names owners fun k => owners[k]?.getD 0 := by
  intro k i hk
  simp only [hk, Option.getD_some]

/-! ## A socket and its calls -/

/-- The reply is what `pool.send` returned. -/
def Reply.fromPool : Reply → Bool
  | .rateLimited _ => false
  | .binary _ | .error _ => true

/-- The replies of a socket that came from the pool, each with its message. -/
def Socket.answers (s : Socket G) : List (Bytes × Reply) := s.replies.filter fun r => r.2.fromPool

/-- Call `k` has ended, and this is its message and what was replied. -/
def EndedWith (calls : List Call) (k : ℕ) (answer : Bytes × Reply) : Prop :=
  ∃ c result, calls[k]? = some c ∧ c.pc = .finished result ∧ answer = (c.payload, replyOf result)

/-- The replies of a socket are the results of its calls, in order; the call that it awaits is the
last one. -/
def Follows (owners : List ℕ) (calls : List Call) (i : ℕ) (s : Socket G) : Prop :=
  match s.pc with
  | .sending call => ∃ ended k c, callsOf owners i = ended ++ [k] ∧ calls[k]? = some c ∧
      (∀ f, Names owners f → call = c.rename f) ∧ (∀ result, c.pc ≠ .finished result) ∧
      List.Forall₂ (EndedWith calls) ended s.answers
  | _ => List.Forall₂ (EndedWith calls) (callsOf owners i) s.answers

/-- The sockets, and the pool that serves them. -/
structure Serves (c : SocketConf G) (d : PoolConf) (owners : List ℕ) : Prop where
  calls : owners.length = d.tasks.length
  owned : ∀ k i : ℕ, owners[k]? = some i → i < c.tasks.length
  shared : ∃ requests limited, ∀ f, Names owners f → c.shared = d.shared.seen f requests limited
  sockets : ∀ (i : ℕ) (s : Socket G), c.tasks[i]? = some s → Follows owners d.tasks i s

theorem Follows.idle {owners : List ℕ} {calls : List Call} {i : ℕ} {s : Socket G}
    (h : Follows owners calls i s) (hpc : ∀ call, s.pc ≠ .sending call) :
    List.Forall₂ (EndedWith calls) (callsOf owners i) s.answers := by
  unfold Follows at h
  split at h
  · next call hc => exact absurd hc (hpc call)
  · exact h

theorem follows_of_idle {owners : List ℕ} {calls : List Call} {i : ℕ} {s : Socket G}
    (hpc : ∀ call, s.pc ≠ .sending call)
    (h : List.Forall₂ (EndedWith calls) (callsOf owners i) s.answers) :
    Follows owners calls i s := by
  unfold Follows
  split
  · next call hc => exact absurd hc (hpc call)
  · exact h

theorem Follows.sending {owners : List ℕ} {calls : List Call} {i : ℕ} {s : Socket G} {call : Call}
    (h : Follows owners calls i s) (hpc : s.pc = .sending call) :
    ∃ ended k c, callsOf owners i = ended ++ [k] ∧ calls[k]? = some c ∧
      (∀ f, Names owners f → call = c.rename f) ∧ (∀ result, c.pc ≠ .finished result) ∧
      List.Forall₂ (EndedWith calls) ended s.answers := by
  unfold Follows at h
  rw [hpc] at h
  exact h

/-! ## What other calls do -/

theorem EndedWith.set {calls : List Call} {k n : ℕ} {x : Bytes × Reply} {c c' : Call}
    (h : EndedWith calls k x) (hc : calls[n]? = some c) (hf : ∀ result, c.pc ≠ .finished result) :
    EndedWith (calls.set n c') k x := by
  obtain ⟨d, result, hd, hpc, hx⟩ := h
  refine ⟨d, result, ?_, hpc, hx⟩
  by_cases hk : n = k
  · subst hk
    obtain rfl : c = d := Option.some.inj (hc.symm.trans hd)
    exact absurd hpc (hf result)
  · rw [List.getElem?_set_ne hk, hd]

theorem EndedWith.snoc {calls : List Call} {k : ℕ} {x : Bytes × Reply} (h : EndedWith calls k x)
    (c : Call) : EndedWith (calls ++ [c]) k x := by
  obtain ⟨d, result, hd, hpc, hx⟩ := h
  refine ⟨d, result, ?_, hpc, hx⟩
  rw [List.getElem?_append_left (List.getElem?_eq_some_iff.mp hd).1]
  exact hd

/-- The call of one socket goes on, and the others do not notice. -/
theorem Follows.set {owners : List ℕ} {calls : List Call} {i j n : ℕ} {s : Socket G} {c c' : Call}
    (h : Follows owners calls j s) (hn : owners[n]? = some i) (hij : i ≠ j)
    (hc : calls[n]? = some c) (hf : ∀ result, c.pc ≠ .finished result) :
    Follows owners (calls.set n c') j s := by
  by_cases hpc : ∃ call, s.pc = .sending call
  · obtain ⟨call, hpc⟩ := hpc
    obtain ⟨ended, k, d, hcalls, hd, hcall, hd', hended⟩ := h.sending hpc
    have hk : n ≠ k := by
      rintro rfl
      have hown : owners[n]? = some j := by
        rw [← mem_callsOf, hcalls]
        exact List.mem_append_right _ List.mem_cons_self
      rw [hn] at hown
      exact hij (Option.some.inj hown)
    unfold Follows
    rw [hpc]
    refine ⟨ended, k, d, hcalls, ?_, hcall, hd', hended.imp fun _ _ hx => hx.set hc hf⟩
    rw [List.getElem?_set_ne hk, hd]
  · have hidle : ∀ call, s.pc ≠ .sending call := fun call hcall => hpc ⟨call, hcall⟩
    exact follows_of_idle hidle ((h.idle hidle).imp fun _ _ hx => hx.set hc hf)

theorem Follows.snoc {owners : List ℕ} {calls : List Call} {i j : ℕ} {s : Socket G}
    (h : Follows owners calls j s) (hij : i ≠ j) (c : Call) :
    Follows (owners ++ [i]) (calls ++ [c]) j s := by
  have hcalls : callsOf (owners ++ [i]) j = callsOf owners j := by
    rw [callsOf_snoc, if_neg hij, List.append_nil]
  by_cases hpc : ∃ call, s.pc = .sending call
  · obtain ⟨call, hpc⟩ := hpc
    obtain ⟨ended, k, d, hk, hd, hcall, hd', hended⟩ := h.sending hpc
    unfold Follows
    rw [hpc, hcalls]
    refine ⟨ended, k, d, hk, ?_, fun f hf => hcall f hf.of_snoc, hd',
      hended.imp fun _ _ hx => hx.snoc c⟩
    rw [List.getElem?_append_left (List.getElem?_eq_some_iff.mp hd).1]
    exact hd
  · have hidle : ∀ call, s.pc ≠ .sending call := fun call hcall => hpc ⟨call, hcall⟩
    refine follows_of_idle hidle ?_
    rw [hcalls]
    exact (h.idle hidle).imp fun _ _ hx => hx.snoc c

/-! ## The steps of the sockets -/

theorem serves_init (maxConnections : ℕ) :
    Serves (socketInit G maxConnections) (poolInit maxConnections) [] where
  calls := rfl
  owned _ _ h := by cases h
  shared := ⟨0, 0, fun _ _ => rfl⟩
  sockets _ _ h := by cases h

section Steps

variable {c : SocketConf G} {d : PoolConf} {owners : List ℕ} {i : ℕ} {s s' : Socket G}
  {P' : BinaryPool}

theorem Serves.idle (h : Serves c d owners) (hs : c.tasks[i]? = some s)
    (hpc : ∀ call, s.pc ≠ .sending call) (hpc' : ∀ call, s'.pc ≠ .sending call)
    (hanswers : s'.answers = s.answers)
    (hP : ∃ requests limited, ∀ f, Names owners f → P' = d.shared.seen f requests limited) :
    Serves ⟨P', c.tasks.set i s'⟩ d owners := by
  refine ⟨h.calls, fun k j hk => ?_, hP, fun j t ht => ?_⟩
  · rw [List.length_set]
    exact h.owned k j hk
  · by_cases hij : i = j
    · subst hij
      rw [List.getElem?_set_self (List.getElem?_eq_some_iff.mp hs).1] at ht
      cases ht
      refine follows_of_idle hpc' ?_
      rw [hanswers]
      exact (h.sockets i s hs).idle hpc
    · rw [List.getElem?_set_ne hij] at ht
      exact h.sockets j t ht

theorem Serves.pass (h : Serves c d owners) (hs : c.tasks[i]? = some s)
    (hpc : ∀ call, s.pc ≠ .sending call) {payload : Bytes}
    (hpc' : s'.pc = .sending (.new payload)) (hanswers : s'.answers = s.answers)
    (hP : ∃ requests limited, ∀ f, Names owners f → P' = d.shared.seen f requests limited) :
    Serves ⟨P', c.tasks.set i s'⟩ ⟨d.shared, d.tasks ++ [.new payload]⟩ (owners ++ [i]) := by
  have hi : i < c.tasks.length := (List.getElem?_eq_some_iff.mp hs).1
  obtain ⟨requests, limited, hshared⟩ := hP
  refine ⟨?_, fun k j hk => ?_, ⟨requests, limited, fun f hf => hshared f hf.of_snoc⟩,
    fun j t ht => ?_⟩
  · rw [List.length_append, List.length_append, h.calls]
    rfl
  · rw [List.length_set]
    rcases Nat.lt_or_ge k owners.length with hlt | hge
    · rw [List.getElem?_append_left hlt] at hk
      exact h.owned k j hk
    · rw [List.getElem?_append_right hge, List.getElem?_singleton] at hk
      split_ifs at hk
      cases hk
      exact hi
  · by_cases hij : i = j
    · subst hij
      rw [List.getElem?_set_self hi] at ht
      cases ht
      unfold Follows
      rw [hpc']
      refine ⟨callsOf owners i, d.tasks.length, .new payload, ?_, ?_, fun _ _ => rfl, nofun, ?_⟩
      · rw [callsOf_snoc, if_pos rfl, h.calls]
      · exact List.getElem?_concat_length
      · rw [hanswers]
        exact ((h.sockets i s hs).idle hpc).imp fun _ _ hx => hx.snoc _
    · rw [List.getElem?_set_ne hij] at ht
      exact (h.sockets j t ht).snoc hij _

/-- Call `k` of the pool is the one that socket `i` awaits. -/
structure Awaited (owners : List ℕ) (d : PoolConf) (i k : ℕ) (s : Socket G) (call b : Call) :
    Prop where
  stored : d.tasks[k]? = some b
  owner : owners[k]? = some i
  same : ∀ f, Names owners f → call = b.rename f
  running : ∀ result, b.pc ≠ .finished result
  ended : ∃ ended, callsOf owners i = ended ++ [k] ∧
    List.Forall₂ (EndedWith d.tasks) ended s.answers

theorem Serves.awaited (h : Serves c d owners) (hs : c.tasks[i]? = some s) {call : Call}
    (hpc : s.pc = .sending call) : ∃ k b, Awaited owners d i k s call b := by
  obtain ⟨ended, k, b, hcalls, hb, hsame, hrun, hended⟩ := (h.sockets i s hs).sending hpc
  refine ⟨k, b, hb, ?_, hsame, hrun, ended, hcalls, hended⟩
  rw [← mem_callsOf, hcalls]
  exact List.mem_append_right _ List.mem_cons_self

/-- The pool takes the step that a call of a socket takes. -/
theorem Serves.matches (h : Serves c d owners) {call call' b : Call} {a : SendAct} {k : ℕ}
    (hk : Awaited owners d i k s call b)
    (hstep : sendStep K i c.shared call a = some (P', call')) :
    ∃ Q' b', sendStep K k d.shared b a = some (Q', b') ∧
      (∃ requests limited, ∀ f, Names owners f → P' = Q'.seen f requests limited) ∧
      ∀ f, Names owners f → call' = b'.rename f := by
  obtain ⟨requests, limited, hshared⟩ := h.shared
  have hseen : ∀ f, Names owners f →
      (sendStep K k d.shared b a).map (seenStep f requests limited) = some (P', call') := by
    intro f hf
    rw [← sendStep_seen, hf k i hk.owner, ← hshared f hf, ← hk.same f hf, hstep]
  obtain ⟨⟨Q', b'⟩, hb', -⟩ := Option.map_eq_some_iff.mp (hseen _ (names_getD owners))
  simp only [hb', Option.map_some, Option.some.injEq, seenStep, Prod.mk.injEq] at hseen
  exact ⟨Q', b', hb', ⟨requests, limited, fun f hf => (hseen f hf).1.symm⟩,
    fun f hf => (hseen f hf).2.symm⟩

theorem Serves.moved (h : Serves c d owners) {call b b' : Call} {k : ℕ} {Q' : BinaryPool}
    (hs : c.tasks[i]? = some s) (hk : Awaited owners d i k s call b)
    (hP : ∃ requests limited, ∀ f, Names owners f → P' = Q'.seen f requests limited)
    (hf : Follows owners (d.tasks.set k b') i s') :
    Serves ⟨P', c.tasks.set i s'⟩ ⟨Q', d.tasks.set k b'⟩ owners := by
  refine ⟨?_, fun n j hn => ?_, hP, fun j t ht => ?_⟩
  · rw [List.length_set]
    exact h.calls
  · rw [List.length_set]
    exact h.owned n j hn
  · by_cases hij : i = j
    · subst hij
      rw [List.getElem?_set_self (List.getElem?_eq_some_iff.mp hs).1] at ht
      cases ht
      exact hf
    · rw [List.getElem?_set_ne hij] at ht
      exact (h.sockets j t ht).set hk.owner hij hk.stored hk.running

theorem Awaited.goesOn {call call' b b' : Call} {k : ℕ} (hk : Awaited owners d i k s call b)
    (hsame : ∀ f, Names owners f → call' = b'.rename f)
    (hrun : ∀ result, b'.pc ≠ .finished result) :
    Follows owners (d.tasks.set k b') i { s with pc := .sending call' } := by
  obtain ⟨ended, hcalls, hended⟩ := hk.ended
  refine ⟨ended, k, b', hcalls, ?_, hsame, hrun,
    hended.imp fun _ _ hx => hx.set hk.stored hk.running⟩
  exact List.getElem?_set_self (List.getElem?_eq_some_iff.mp hk.stored).1

theorem Awaited.ends {call b b' : Call} {k : ℕ} {result : Except BinaryError Bytes}
    {pc : SocketPc} (hk : Awaited owners d i k s call b) (hpc : ∀ call, pc ≠ .sending call)
    (hend : b'.pc = .finished result) :
    Follows owners (d.tasks.set k b') i { s.reply b'.payload (replyOf result) with pc := pc } := by
  obtain ⟨ended, hcalls, hended⟩ := hk.ended
  refine follows_of_idle hpc ?_
  have hanswers : ({ s.reply b'.payload (replyOf result) with pc := pc } : Socket G).answers =
      s.answers ++ [(b'.payload, replyOf result)] := by
    have hpool : (replyOf result).fromPool = true := by cases result <;> rfl
    simp [Socket.answers, Socket.reply, hpool]
  rw [hcalls, hanswers]
  refine List.rel_append (hended.imp fun _ _ hx => hx.set hk.stored hk.running) ?_
  refine .cons ⟨b', result, ?_, hend, rfl⟩ .nil
  exact List.getElem?_set_self (List.getElem?_eq_some_iff.mp hk.stored).1

end Steps

theorem Pc.rename_finished {f : ℕ → ℕ} {pc : Pc} {result : Except BinaryError Bytes} :
    pc.rename f = .finished result ↔ pc = .finished result := by
  cases pc <;> simp [Pc.rename]

/-! ## Every run -/

variable {perMinute burstSize : ℕ}

theorem answers_reply {s : Socket G} {payload : Bytes} {r : Reply} (hr : r.fromPool = false) :
    (s.reply payload r).answers = s.answers := by
  simp [Socket.answers, Socket.reply, hr]

theorem serves_socketStep {c : SocketConf G} {d : PoolConf} {owners : List ℕ}
    (h : Serves c d owners) {i : ℕ} {s s' : Socket G} {P' : BinaryPool} {a : SocketAct}
    (hs : c.tasks[i]? = some s) (hstep : SocketStep K i c.shared s a P' s') :
    ∃ d' owners', Reaches (poolStep K) d d' ∧ Serves ⟨P', c.tasks.set i s'⟩ d' owners' := by
  obtain ⟨requests, limited, hshared⟩ := h.shared
  have hsame : ∃ requests limited, ∀ f, Names owners f →
      c.shared = d.shared.seen f requests limited := h.shared
  have hrequest : ∃ requests limited, ∀ f, Names owners f →
      c.shared.request = d.shared.seen f requests limited := by
    refine ⟨requests + 1, limited, fun f hf => ?_⟩
    rw [hshared f hf]
    rfl
  cases hstep with
  | limit hpc hc =>
    exact ⟨d, owners, .refl d, h.idle hs (by simp [hpc]) (by simp) (answers_reply rfl) hrequest⟩
  | @pass payload checkedAt now hpc hc =>
    refine ⟨⟨d.shared, d.tasks ++ [.new payload]⟩, owners ++ [i], ?_, ?_⟩
    · exact .single (a := .spawn payload) rfl
    · refine h.pass hs ?_ ?_ ?_ hrequest
      · simp [hpc]
      · rfl
      · rfl
  | other hpc =>
    exact ⟨d, owners, .refl d, h.idle hs (by simp [hpc]) (by simp [hpc]) rfl hsame⟩
  | close hpc =>
    exact ⟨d, owners, .refl d, h.idle hs (by simp [hpc]) (by simp) rfl hsame⟩
  | counted hpc =>
    refine ⟨d, owners, .refl d, h.idle hs (by simp [hpc]) (by simp) rfl ?_⟩
    refine ⟨requests, limited + 1, fun f hf => ?_⟩
    rw [hshared f hf]
    rfl
  | @replied isResponse delivered hpc =>
    refine ⟨d, owners, .refl d, h.idle hs (by simp [hpc]) (fun call => ?_) rfl hsame⟩
    dsimp only
    split_ifs <;> simp
  | @send call call' P' a hpc ha hr hf =>
    obtain ⟨k, b, hk⟩ := h.awaited hs hpc
    obtain ⟨Q', b', hb', hP, hsame'⟩ := h.matches hk hr
    refine ⟨⟨Q', d.tasks.set k b'⟩, owners, .single (a := .task k a) ?_,
      h.moved hs hk hP (hk.goesOn hsame' fun result hend => hf result ?_)⟩
    · simp [Tasks.Program.step, poolProgram, hk.stored, hb']
    · rw [hsame' _ (names_getD owners)]
      exact Pc.rename_finished.mpr hend
  | @finish call call' P' a result hpc ha hr hf =>
    obtain ⟨k, b, hk⟩ := h.awaited hs hpc
    obtain ⟨Q', b', hb', hP, hsame'⟩ := h.matches hk hr
    have hcall := hsame' _ (names_getD owners)
    rw [hcall] at hf ⊢
    refine ⟨⟨Q', d.tasks.set k b'⟩, owners, .single (a := .task k a) ?_,
      h.moved hs hk hP (hk.ends (by simp) (Pc.rename_finished.mp hf))⟩
    simp [Tasks.Program.step, poolProgram, hk.stored, hb']

/-- **Every step of the sockets is matched by the pool.** -/
theorem sockets_simulate : Simulates (socketsStep G K perMinute burstSize) (poolStep K)
    fun c d => ∃ owners, Serves c d owners := by
  rintro c d a c' ⟨owners, h⟩ hs
  cases a with
  | task i a =>
    obtain ⟨s, P', s', hi, hr, rfl⟩ := Tasks.step_task hs
    obtain ⟨d', owners', hd, h'⟩ := serves_socketStep h hi (socketStep_cases hr)
    exact ⟨d', hd, owners', h'⟩
  | env e =>
    obtain ⟨P', hr, rfl⟩ := Tasks.step_env hs
    obtain ⟨requests, limited, hshared⟩ := h.shared
    have hseen : ∀ f, Names owners f →
        (idleStep d.shared e).map (BinaryPool.seen f requests limited) = some P' := by
      intro f hf
      rw [← idleStep_seen, ← hshared f hf]
      exact hr
    obtain ⟨Q', hQ', -⟩ := Option.map_eq_some_iff.mp (hseen _ (names_getD owners))
    simp only [hQ', Option.map_some, Option.some.injEq] at hseen
    refine ⟨⟨Q', d.tasks⟩, .single (a := .env e) ?_, owners, h.calls, h.owned,
      ⟨requests, limited, fun f hf => (hseen f hf).symm⟩, h.sockets⟩
    simp [Tasks.Program.step, poolProgram, hQ']
  | spawn x =>
    obtain rfl := Tasks.step_spawn hs
    refine ⟨d, .refl d, owners, h.calls, fun k i hk => ?_, h.shared, fun i s hi => ?_⟩
    · rw [List.length_append]
      exact Nat.lt_add_right _ (h.owned k i hk)
    · rcases Nat.lt_or_ge i c.tasks.length with hlt | hge
      · rw [List.getElem?_append_left hlt] at hi
        exact h.sockets i s hi
      · -- no call was made yet for the new socket
        have hnone : callsOf owners i = [] := by
          refine List.eq_nil_iff_forall_not_mem.mpr fun k hk => ?_
          exact absurd (h.owned k i (mem_callsOf.mp hk)) (Nat.not_lt.mpr hge)
        rw [List.getElem?_append_right hge, List.getElem?_singleton] at hi
        split_ifs at hi
        cases hi
        refine follows_of_idle (fun _ hc => by cases hc) ?_
        rw [hnone]
        exact .nil

/-- **Every run of the sockets is a run of the pool**: the calls of the pool are those that the
sockets make, each for one of them, and the replies of a socket are the results of its calls. -/
theorem sockets_refine_pool {maxConnections : ℕ} {c : SocketConf G}
    (h : Reaches (socketsStep G K perMinute burstSize) (socketInit G maxConnections) c) :
    ∃ d owners, Reaches (poolStep K) (poolInit maxConnections) d ∧ Serves c d owners := by
  obtain ⟨d, hd, owners, hserves⟩ := sockets_simulate.reaches ⟨[], serves_init maxConnections⟩ h
  exact ⟨d, owners, hd, hserves⟩

/-- The steps of the first socket for a message that is answered over a connection that it opens. -/
def answeredSocket (message reply : Bytes) : List SocketsAct :=
  [.task 0 (.message message 0 0), .task 0 (.send .begin), .task 0 (.send .lock),
    .task 0 (.send .acquire), .task 0 (.send .connected),
    .task 0 (.send (.write (frame message).length)), .task 0 (.send .flush),
    .task 0 (.send (.upstream (.answer reply))), .task 0 (.send (.read 4)),
    .task 0 (.send (.read reply.length)), .task 0 (.send .lock), .task 0 (.sent true)]

/-- The replies of the only socket after a run. -/
def repliesOf (c : SocketConf G) : List (Bytes × Reply) := (c.tasks.map Socket.replies).flatten

theorem answeredSocket_replies :
    (exec (socketsStep gcraGovernor wirePort 60 1) (socketInit gcraGovernor 1)
      (.spawn () :: answeredSocket uptimeRequest failureReply)).map repliesOf =
        some [(uptimeRequest, .binary failureReply)] := rfl

theorem sockets_refine_pool_answered :
    ∃ c, repliesOf c = [(uptimeRequest, .binary failureReply)] ∧
      ∃ d owners, Reaches (poolStep wirePort) (poolInit 1) d ∧
        Serves (G := gcraGovernor) c d owners := by
  obtain ⟨c, hc, hreplies⟩ := Option.map_eq_some_iff.mp answeredSocket_replies
  exact ⟨c, hreplies, sockets_refine_pool ⟨_, hc⟩⟩

end CasperNodeProxy
