import Usbws.Wakeup.Basic

/-!
# No wake-up is lost

The waiting functions test their conditions with their lock, and every function that makes such a
condition false signals under the same lock afterwards.  `usbws_session_discontinue` clears `cont`
without a lock, but takes both locks for its signals, so it cannot pass them while a waiter is
between its test and its call of `pthread_cond_wait`; and behind the signal the waiter finds `cont`
cleared at its next test.

* `Task.uses_send`, `Task.uses_recv` : every task keeps the discipline of the two locks.
* `Wakeup.Ok` : what every step keeps.
* `Wakeup.no_lost_wakeup` : the waiters are woken in every reachable state.
-/

namespace Usbws

open Monitor

/-! ### One statement of a task -/

namespace Task

variable {N : Type*} {sh sh' : Shared N} {t : N} {sent : ℤ} {k k' : Task}

/-- A statement uses one of the two locks at most. -/
theorem uses_of_next (h : k.next sh t sent = some (sh', k')) :
    Uses t sh.send sh'.send k.holdsSend k'.holdsSend ∧
      Uses t sh.recv sh'.recv k.holdsRecv k'.holdsRecv := by
  cases k with
  | idle => cases h
  | completing | sendLock =>
    obtain ⟨m, hm, hr⟩ := Option.map_eq_some_iff.1 h
    cases hr
    exact ⟨.lock hm, .keep rfl rfl⟩
  | arrived | closing | recvLock =>
    obtain ⟨m, hm, hr⟩ := Option.map_eq_some_iff.1 h
    cases hr
    exact ⟨.keep rfl rfl, .lock hm⟩
  | completed | sendSignal => cases h; exact ⟨.signal rfl rfl rfl, .keep rfl rfl⟩
  | queued | recvSignal => cases h; exact ⟨.keep rfl rfl, .signal rfl rfl rfl⟩
  | completionDone | sendUnlock => cases h; exact ⟨.unlock rfl rfl rfl, .keep rfl rfl⟩
  | arrivalDone | unlinked | recvUnlock => cases h; exact ⟨.keep rfl rfl, .unlock rfl rfl rfl⟩
  | written => cases h; constructor <;> exact .keep rfl (by split_ifs <;> rfl)
  | _ => cases h; exact ⟨.keep rfl rfl, .keep rfl rfl⟩

theorem uses_send (h : k.next sh t sent = some (sh', k')) :
    Uses t sh.send sh'.send k.holdsSend k'.holdsSend := (uses_of_next h).1

theorem uses_recv (h : k.next sh t sent = some (sh', k')) :
    Uses t sh.recv sh'.recv k.holdsRecv k'.holdsRecv := (uses_of_next h).2

/-- No statement continues a discontinued session, and behind `session->cont = 0` it is
discontinued. -/
theorem cont_of_next (h : k.next sh t sent = some (sh', k')) :
    (sh.session.cont = false → sh'.session.cont = false) ∧
      (k'.behindCont = true → k.behindCont = true ∨ sh'.session.cont = false) := by
  cases k with
  | idle => cases h
  | arrived | closing | completing | sendLock | recvLock =>
    obtain ⟨m, -, hr⟩ := Option.map_eq_some_iff.1 h
    cases hr
    exact ⟨id, .inl⟩
  | written =>
    cases h
    refine ⟨id, fun hb => ?_⟩
    split_ifs at hb <;> cases hb
  | discontinuing => cases h; exact ⟨fun _ => rfl, fun _ => .inr rfl⟩
  | sendSignal | sendUnlock | recvSignal => cases h; exact ⟨id, fun _ => .inl rfl⟩
  | _ => cases h; exact ⟨id, fun hb => by cases hb⟩

/-- What `usbws_session_close` has done: its two parts do not end in front of `session->cont = 0`,
and it does not get behind the last lock without taking it. -/
theorem inClose_of_next (h : k.next sh t sent = some (sh', k')) (hk : k.inClose = true) :
    k'.inClose = true ∧ (k'.pastCont = true → k.pastCont = true ∨ sh'.session.cont = false) ∧
      (k'.pastRecvLock = true → k.pastRecvLock = true ∨ k'.holdsRecv = true) := by
  cases k with
  | closing | sendLock | recvLock =>
    obtain ⟨m, -, hr⟩ := Option.map_eq_some_iff.1 h
    cases hr
    simp [inClose, pastCont, pastRecvLock, behindCont, holdsRecv]
  | unlinking | unlinked | discontinuing | sendSignal | sendUnlock | recvSignal | recvUnlock =>
    cases h
    simp [inClose, pastCont, pastRecvLock, behindCont, holdsRecv, Shared.setSession]
  | idle => cases h
  | _ => cases hk

/-- A task passes its two signals with the lock of the one who is waiting for it. -/
theorem behind_of_next (h : k.next sh t sent = some (sh', k')) :
    (k'.behindSend = true →
        k.behindSend = true ∨ k.holdsSend = true ∧ sh'.send = sh.send.signal) ∧
      (k'.behindRecv = true → k.holdsRecv = true ∧ sh'.recv = sh.recv.signal) := by
  cases k with
  | idle => cases h
  | arrived | closing | completing | sendLock =>
    obtain ⟨m, -, hr⟩ := Option.map_eq_some_iff.1 h
    cases hr
    exact ⟨nofun, nofun⟩
  | recvLock =>
    obtain ⟨m, -, hr⟩ := Option.map_eq_some_iff.1 h
    cases hr
    exact ⟨fun _ => .inl rfl, nofun⟩
  | written => cases h; constructor <;> intro hb <;> split_ifs at hb <;> cases hb
  | sendSignal => cases h; exact ⟨fun _ => .inr ⟨rfl, rfl⟩, nofun⟩
  | sendUnlock => cases h; exact ⟨fun _ => .inl rfl, nofun⟩
  | recvSignal => cases h; exact ⟨fun _ => .inl rfl, fun _ => ⟨rfl, rfl⟩⟩
  | _ => cases h; exact ⟨nofun, nofun⟩

/-- The queue becomes non-empty only by `list_add_tail`, which is followed by a signal. -/
theorem recvQueue_of_next (h : k.next sh t sent = some (sh', k'))
    (hq : sh'.session.recvQueue ≠ []) : k' = .queued ∨ sh.session.recvQueue ≠ [] ∧
      (k = .queued → k.holdsRecv = true ∧ sh'.recv = sh.recv.signal) := by
  cases k with
  | idle => cases h
  | arrived | closing | completing | sendLock | recvLock =>
    obtain ⟨m, -, hr⟩ := Option.map_eq_some_iff.1 h
    cases hr
    exact .inr ⟨hq, fun hk => by cases hk⟩
  | queueing => cases h; exact .inl rfl
  | queued => cases h; exact .inr ⟨hq, fun _ => ⟨rfl, rfl⟩⟩
  | unlinking => cases h; exact absurd rfl hq
  | _ => cases h; exact .inr ⟨hq, fun hk => by cases hk⟩

/-- `send_buf` becomes NULL only in `__send_data`, which signals before it goes on. -/
theorem sendBuf_of_next (h : k.next sh t sent = some (sh', k'))
    (hb : sh'.session.sendBuf = none) : k'.owesSend = true ∨ sh.session.sendBuf = none ∧
      (k.owesSend = true → k.holdsSend = true ∧ sh'.send = sh.send.signal) := by
  cases k with
  | idle => cases h
  | arrived | closing | completing | sendLock | recvLock =>
    obtain ⟨m, -, hr⟩ := Option.map_eq_some_iff.1 h
    cases hr
    exact .inr ⟨hb, fun hk => by cases hk⟩
  | clearing | cleared => cases h; exact .inl rfl
  | completed => cases h; exact .inr ⟨hb, fun _ => ⟨rfl, rfl⟩⟩
  | _ => cases h; exact .inr ⟨hb, fun hk => by cases hk⟩

theorem discontinued_of_next (h : k.next sh t sent = some (sh', k'))
    (hd : sh'.discontinued = true) : sh.discontinued = true ∨ k = .recvUnlock := by
  cases k with
  | idle => cases h
  | arrived | closing | completing | sendLock | recvLock =>
    obtain ⟨m, -, hr⟩ := Option.map_eq_some_iff.1 h
    cases hr
    exact .inl hd
  | recvUnlock => exact .inr rfl
  | _ => cases h; exact .inl hd

end Task

/-! ### One statement of a waiting function -/

section Waiting

variable {N : Type*} {sh sh' : Shared N}

/-- What `usbws_recv` does in a statement: it decides to wait only on a continuing session with an
empty queue, and leaves what belongs to the sender alone. -/
structure RecvPoint.Step (sh sh' : Shared N) : Prop where
  recv : sh.recv.Waits sh'.recv (sh.session.cont = true ∧ sh'.session.recvQueue = [])
  send : sh'.send = sh.send
  cont : sh'.session.cont = sh.session.cont
  sendBuf : sh'.session.sendBuf = sh.session.sendBuf
  recvQueue : sh.session.recvQueue = [] → sh'.session.recvQueue = []
  discontinued : sh'.discontinued = sh.discontinued

/-- `usbws_recv` waits only in its inner loop. -/
theorem RecvPoint.runs_of_next {pc pc' : RecvPoint} (h : pc.next sh = some (sh', pc')) :
    Runs (sh.session.cont = true ∧ sh'.session.recvQueue = []) sh.recv pc.place sh'.recv
      pc'.place := by
  cases pc with
  | idle => cases h
  | outer | check | judge => cases h; split_ifs <;> exact .keep
  | copy | done => cases h; exact .keep
  | locking =>
    obtain ⟨m, hm, hr⟩ := Option.map_eq_some_iff.1 h
    cases hr
    exact .enter hm
  | loop c =>
    obtain ⟨m, hm, hr⟩ := Option.map_eq_some_iff.1 h
    cases hr
    rw [show place (if m.stage = .inside then check c else loop c) =
      if m.stage = .inside then Place.behind else .loop by split_ifs <;> rfl]
    exact .turn hm fun hb => by simpa [Shared.setRecv] using hb
  | failing | unlocking =>
    obtain ⟨m, hm, hr⟩ := Option.map_eq_some_iff.1 h
    cases hr
    exact .leave hm

theorem RecvPoint.step_of_next {pc pc' : RecvPoint} (h : pc.next sh = some (sh', pc')) :
    Step sh sh' := by
  have hw := (runs_of_next h).waits
  cases pc with
  | idle => cases h
  | outer | check | judge | done => cases h; exact ⟨hw, rfl, rfl, rfl, id, rfl⟩
  | locking | loop | failing | unlocking =>
    obtain ⟨m, -, hr⟩ := Option.map_eq_some_iff.1 h
    cases hr
    exact ⟨hw, rfl, rfl, rfl, id, rfl⟩
  | copy c =>
    cases h
    refine ⟨hw, rfl, rfl, rfl, fun hq => ?_, rfl⟩
    simp [Shared.setSession, Session.recvLocked, hq]

/-- What `usbws_send` does in a statement: it decides to wait only on a continuing session with a
pending transfer, and leaves what belongs to the reader alone. -/
structure SendPoint.Step (sh sh' : Shared N) : Prop where
  send : sh.send.Waits sh'.send (sh.session.cont = true ∧ sh'.session.sendBuf ≠ none)
  recv : sh'.recv = sh.recv
  cont : sh'.session.cont = sh.session.cont
  recvQueue : sh'.session.recvQueue = sh.session.recvQueue
  sendBuf : sh'.session.sendBuf = none → sh.session.sendBuf = none
  discontinued : sh'.discontinued = sh.discontinued

/-- `usbws_send` waits only in its wait loop. -/
theorem SendPoint.runs_of_next {pc pc' : SendPoint} (h : pc.next sh = some (sh', pc')) :
    Runs (sh.session.cont = true ∧ sh'.session.sendBuf ≠ none) sh.send pc.place sh'.send
      pc'.place := by
  cases pc with
  | idle => cases h
  | bufSet | lenSet | request | leaving => cases h; exact .keep
  | locking =>
    obtain ⟨m, hm, hr⟩ := Option.map_eq_some_iff.1 h
    cases hr
    exact .enter hm
  | loop b =>
    obtain ⟨m, hm, hr⟩ := Option.map_eq_some_iff.1 h
    cases hr
    rw [show place (if m.stage = .inside then unlocking b else loop b) =
      if m.stage = .inside then Place.behind else .loop by split_ifs <;> rfl]
    exact .turn hm fun hb => by
      simpa [Shared.setSend, Option.isSome_iff_ne_none] using hb
  | unlocking =>
    obtain ⟨m, hm, hr⟩ := Option.map_eq_some_iff.1 h
    cases hr
    exact .leave hm

theorem SendPoint.step_of_next {pc pc' : SendPoint} (h : pc.next sh = some (sh', pc')) :
    Step sh sh' := by
  have hw := (runs_of_next h).waits
  cases pc with
  | idle => cases h
  | bufSet | lenSet | request | leaving => cases h; exact ⟨hw, rfl, rfl, rfl, id, rfl⟩
  | locking | loop | unlocking =>
    obtain ⟨m, -, hr⟩ := Option.map_eq_some_iff.1 h
    cases hr
    exact ⟨hw, rfl, rfl, rfl, id, rfl⟩

end Waiting

/-! ### What a task relies on -/

section Tasks

variable {N : Type*} {sh sh' : Shared N} {t t' : N} {sent : ℤ} {k k' : Task}

/-- What is known at the program point of a task. -/
structure Task.Ok (sh : Shared N) (t : N) (k : Task) : Prop where
  send : k.holdsSend = true → sh.send.owner = some (.notifier t)
  recv : k.holdsRecv = true → sh.recv.owner = some (.notifier t)
  cont : k.behindCont = true → sh.session.cont = false
  sendQuiet : k.behindSend = true → sh.send.Quiet
  recvQuiet : k.behindRecv = true → sh.recv.Quiet

/-- What the steps of other threads leave to a task run by `t`. -/
structure Shared.Frame (sh sh' : Shared N) (t : N) : Prop where
  send : sh.send.owner = some (.notifier t) → sh'.send.owner = some (.notifier t)
  recv : sh.recv.owner = some (.notifier t) → sh'.recv.owner = some (.notifier t)
  cont : sh.session.cont = false → sh'.session.cont = false
  sendQuiet : sh.session.cont = false → sh.send.Quiet → sh'.send.Quiet
  recvQuiet : sh.session.cont = false → sh.recv.Quiet → sh'.recv.Quiet

theorem Task.behindCont_of_behindSend (h : k.behindSend = true) : k.behindCont = true := by
  cases k <;> first | rfl | cases h

theorem Task.behindCont_of_behindRecv (h : k.behindRecv = true) : k.behindCont = true := by
  cases k <;> first | rfl | cases h

theorem Task.holdsRecv_of_entry (h : k.entry = true) : k.holdsRecv = false := by
  cases k <;> first | rfl | cases h

/-- In front of its first statement a task relies on nothing. -/
theorem Task.Ok.of_entry (h : k = .idle ∨ k.entry = true) : Task.Ok sh t k := by
  cases k with
  | idle | arrived | writing | closing | discontinuing => constructor <;> intro hk <;> cases hk
  | _ => simp [Task.entry] at h

theorem Task.Ok.frame (h : Task.Ok sh t k) (hf : sh.Frame sh' t) : Task.Ok sh' t k where
  send hk := hf.send (h.send hk)
  recv hk := hf.recv (h.recv hk)
  cont hk := hf.cont (h.cont hk)
  sendQuiet hk := hf.sendQuiet (h.cont (Task.behindCont_of_behindSend hk)) (h.sendQuiet hk)
  recvQuiet hk := hf.recvQuiet (h.cont (Task.behindCont_of_behindRecv hk)) (h.recvQuiet hk)

/-- A statement of another task. -/
theorem Task.Ok.frame_of_next (h : Task.Ok sh t k) (hk : k.next sh t sent = some (sh', k'))
    (ht : t' ≠ t) : sh.Frame sh' t' where
  send := (Task.uses_send hk).frame ht h.send
  recv := (Task.uses_recv hk).frame ht h.recv
  cont := (Task.cont_of_next hk).1
  sendQuiet _ := (Task.uses_send hk).quiet
  recvQuiet _ := (Task.uses_recv hk).quiet

/-- A statement of the task itself. -/
theorem Task.Ok.next (h : Task.Ok sh t k) (hs : sh.send.Ok) (hr : sh.recv.Ok)
    (hk : k.next sh t sent = some (sh', k')) : Task.Ok sh' t k' where
  send := (Task.uses_send hk).owner h.send
  recv := (Task.uses_recv hk).owner h.recv
  cont hb := by
    rcases (Task.cont_of_next hk).2 hb with hb' | hc
    · exact (Task.cont_of_next hk).1 (h.cont hb')
    · exact hc
  sendQuiet hb := by
    rcases (Task.behind_of_next hk).1 hb with hb' | ⟨hh, hm⟩
    · exact (Task.uses_send hk).quiet (h.sendQuiet hb')
    · rw [hm]
      exact hs.signal_quiet (h.send hh)
  recvQuiet hb := by
    obtain ⟨hh, hm⟩ := (Task.behind_of_next hk).2 hb
    rw [hm]
    exact hr.signal_quiet (h.recv hh)

theorem RecvPoint.Step.frame (h : RecvPoint.Step sh sh') (hr : sh.recv.Ok) : sh.Frame sh' t where
  send := by rw [h.send]; exact id
  recv := h.recv.owner hr
  cont := by rw [h.cont]; exact id
  sendQuiet _ := by rw [h.send]; exact id
  recvQuiet hc := h.recv.quiet fun hn => by rw [hc] at hn; cases hn.1

theorem SendPoint.Step.frame (h : SendPoint.Step sh sh') (hs : sh.send.Ok) : sh.Frame sh' t where
  send := h.send.owner hs
  recv := by rw [h.recv]; exact id
  cont := by rw [h.cont]; exact id
  sendQuiet hc := h.send.quiet fun hn => by rw [hc] at hn; cases hn.1
  recvQuiet _ := by rw [h.recv]; exact id

end Tasks

/-! ### The invariant -/

namespace Wakeup

variable {T : Type*}

/-- What every step keeps. -/
structure Ok (p : Wakeup T) : Prop where
  send : p.shared.send.Ok
  recv : p.shared.recv.Ok
  task : ∀ t, Task.Ok p.shared t (p.task t)
  /-- A completed call of `usbws_session_discontinue` leaves both monitors quiet. -/
  discontinued : p.shared.discontinued = true →
    p.shared.session.cont = false ∧ p.shared.send.Quiet ∧ p.shared.recv.Quiet
  /-- A reader that rests while the queue is not empty will be signalled. -/
  reader : ¬ p.shared.recv.Quiet → p.shared.session.recvQueue ≠ [] → ∃ t, p.task t = .queued
  /-- A sender that rests while its transfer is finished will be signalled. -/
  sender : ¬ p.shared.send.Quiet → p.shared.session.sendBuf = none → ∃ t, (p.task t).owesSend = true

theorem start_ok (now : ℤ) : (start T now).Ok where
  send := free_ok
  recv := free_ok
  task _ := .of_entry (.inl rfl)
  discontinued h := by cases h
  reader _ hq := absurd rfl hq
  sender hs := absurd rfl hs

variable [DecidableEq T] {p p' : Wakeup T} {l : Label T} {tr : List (Move T)}

/-- The tasks that are due to signal, behind a step of the task of `t`. -/
theorem exists_update {P : Task → Prop} {t : Option T} {k : Task}
    (h : ∃ t, P (p.task t)) (ht : P (p.task t) → P k) :
    ∃ t', P (Function.update p.task t k t') := by
  obtain ⟨t', h⟩ := h
  by_cases htt : t' = t
  · subst htt
    exact ⟨t', by rw [Function.update_self]; exact ht h⟩
  · exact ⟨t', by rw [Function.update_of_ne htt]; exact h⟩

/-- A thread enters a function. -/
theorem Ok.begin (h : p.Ok) {t : Option T} {k : Task} (ht : p.task t = .idle)
    (hk : k.entry = true) : Ok { p with task := Function.update p.task t k } where
  send := h.send
  recv := h.recv
  task t' := by
    by_cases htt : t' = t
    · subst htt
      simpa using Task.Ok.of_entry (.inr hk)
    · simpa [htt] using h.task t'
  discontinued := h.discontinued
  reader hr hq := by
    refine exists_update (P := (· = .queued)) (h.reader hr hq) fun hn => ?_
    rw [ht] at hn
    cases hn
  sender hs hb := by
    refine exists_update (P := fun k => k.owesSend = true) (h.sender hs hb) fun hn => ?_
    rw [ht] at hn
    cases hn

/-- A statement of a task. -/
theorem Ok.task_next (h : p.Ok) {t : Option T} {sent : ℤ} {sh : Shared (Option T)} {k : Task}
    (hk : (p.task t).next p.shared t sent = some (sh, k)) :
    Ok { p with shared := sh, task := Function.update p.task t k } := by
  have hsend := Task.uses_send hk
  have hrecv := Task.uses_recv hk
  have hnext := (h.task t).next h.send h.recv hk
  refine ⟨hsend.ok (h.task t).send h.send, hrecv.ok (h.task t).recv h.recv, ?_, ?_, ?_, ?_⟩
  · intro t'
    by_cases ht : t' = t
    · subst ht
      simpa using hnext
    · simpa [ht] using (h.task t').frame ((h.task t).frame_of_next hk ht)
  · intro hd
    have hf : p.shared.session.cont = false ∧ p.shared.send.Quiet ∧ p.shared.recv.Quiet := by
      rcases Task.discontinued_of_next hk hd with hd | hp
      · exact h.discontinued hd
      · -- the task is about to complete its call
        have ht := h.task t
        rw [hp] at ht
        exact ⟨ht.cont rfl, ht.sendQuiet rfl, ht.recvQuiet rfl⟩
    exact ⟨(Task.cont_of_next hk).1 hf.1, hsend.quiet hf.2.1, hrecv.quiet hf.2.2⟩
  · intro hr hq
    rcases Task.recvQueue_of_next hk hq with hk' | ⟨hq', hsig⟩
    · exact ⟨t, by simpa using hk'⟩
    · refine exists_update (P := (· = .queued))
        (h.reader (fun hn => hr (hrecv.quiet hn)) hq') fun hp => ?_
      obtain ⟨hh, hm⟩ := hsig hp
      rw [hm] at hr
      exact absurd (h.recv.signal_quiet ((h.task t).recv hh)) hr
  · intro hs hb
    rcases Task.sendBuf_of_next hk hb with hk' | ⟨hb', hsig⟩
    · exact ⟨t, by simpa using hk'⟩
    · refine exists_update (P := fun k => k.owesSend = true)
        (h.sender (fun hn => hs (hsend.quiet hn)) hb') fun hp => ?_
      obtain ⟨hh, hm⟩ := hsig hp
      rw [hm] at hs
      exact absurd (h.send.signal_quiet ((h.task t).send hh)) hs

omit [DecidableEq T] in
/-- A statement of the reader. -/
theorem Ok.reader_next (h : p.Ok) {sh : Shared (Option T)} {pc : RecvPoint}
    (hst : RecvPoint.Step p.shared sh) : Ok { p with shared := sh, reader := pc } where
  send := by simp only [hst.send]; exact h.send
  recv := hst.recv.ok h.recv
  task t := (h.task t).frame (hst.frame h.recv)
  discontinued hd := by
    obtain ⟨hc, hs, hr⟩ := h.discontinued (hst.discontinued ▸ hd)
    have hf : p.shared.Frame sh none := hst.frame h.recv
    exact ⟨hf.cont hc, hf.sendQuiet hc hs, hf.recvQuiet hc hr⟩
  reader hr hq := by
    refine h.reader (fun hn => hr ?_) fun hn => hq (hst.recvQueue hn)
    exact hst.recv.quiet (fun hc => hq hc.2) hn
  sender hs hb := by
    simp only [hst.send, hst.sendBuf] at hs hb
    exact h.sender hs hb

omit [DecidableEq T] in
/-- A statement of the sender. -/
theorem Ok.sender_next (h : p.Ok) {sh : Shared (Option T)} {pc : SendPoint} {n : ℕ}
    (hst : SendPoint.Step p.shared sh) : Ok { p with shared := sh, sender := pc, calls := n } where
  send := hst.send.ok h.send
  recv := by simp only [hst.recv]; exact h.recv
  task t := (h.task t).frame (hst.frame h.send)
  discontinued hd := by
    obtain ⟨hc, hs, hr⟩ := h.discontinued (hst.discontinued ▸ hd)
    have hf : p.shared.Frame sh none := hst.frame h.send
    exact ⟨hf.cont hc, hf.sendQuiet hc hs, hf.recvQuiet hc hr⟩
  reader hr hq := by
    simp only [hst.recv, hst.recvQueue] at hr hq
    exact h.reader hr hq
  sender hs hb := by
    refine h.sender (fun hn => hs ?_) (hst.sendBuf hb)
    exact hst.send.quiet (fun hc => hc.2 hb) hn

theorem Ok.step (h : p.Ok) (hst : (lts T).step p l p') : p'.Ok := by
  cases step_of_next hst with
  | recv => exact ⟨h.send, h.recv, h.task, h.discontinued, h.reader, h.sender⟩
  | reader hr => exact h.reader_next (RecvPoint.step_of_next hr)
  | send => exact h.sender_next ⟨.keep rfl, rfl, rfl, rfl, (by intro hb; cases hb), rfl⟩
  | sender _ hs => exact h.sender_next (SendPoint.step_of_next hs)
  | request ht => exact h.begin ht rfl
  | begin ht hk => exact h.begin ht hk
  | task hk => exact h.task_next hk

theorem Ok.exec {p₀ : Wakeup T} (h : p₀.Ok) (he : (lts T).Exec p₀ tr p) : p.Ok :=
  he.invariant h fun _ _ _ h hst => h.step hst

end Wakeup

/-! ### Calls after a discontinuation -/

namespace Wakeup

variable {T : Type*} [DecidableEq T] {p p' : Wakeup T} {l : Label T} {tr : List (Move T)}

/-- Both functions are where their program points say. -/
def Placed (p : Wakeup T) : Prop :=
  p.reader.place.Ok p.shared.recv.stage ∧ p.sender.place.Ok p.shared.send.stage

theorem Placed.step (h : p.Placed) (hst : (lts T).step p l p') : p'.Placed := by
  cases step_of_next hst with
  | recv hr =>
    rw [Placed, hr] at h
    exact h
  | reader hr =>
    refine ⟨(RecvPoint.runs_of_next hr).ok h.1, ?_⟩
    simp only [(RecvPoint.step_of_next hr).send]
    exact h.2
  | send hs =>
    rw [Placed, hs] at h
    exact h
  | sender _ hs =>
    refine ⟨?_, (SendPoint.runs_of_next hs).ok h.2⟩
    simp only [(SendPoint.step_of_next hs).recv]
    exact h.1
  | request | begin => exact h
  | task hk =>
    obtain ⟨hsend, hrecv⟩ := Task.uses_of_next hk
    exact ⟨hrecv.place h.1, hsend.place h.2⟩

/-- Without `cont` a reader that does not wait goes on like that. -/
theorem recv_not_waits_step (hst : (lts T).step p l p')
    (h : p.shared.session.cont = false ∧ p.shared.recv.stage.waits = false) :
    p'.shared.session.cont = false ∧ p'.shared.recv.stage.waits = false := by
  obtain ⟨hc, hw⟩ := h
  cases step_of_next hst with
  | recv | send | request | begin => exact ⟨hc, hw⟩
  | reader hr =>
    have hs := RecvPoint.step_of_next hr
    exact ⟨hs.cont.trans hc, hs.recv.not_waits (fun hn => by rw [hc] at hn; cases hn.1) hw⟩
  | sender _ hr =>
    have hs := SendPoint.step_of_next hr
    exact ⟨hs.cont.trans hc, by simp only [hs.recv]; exact hw⟩
  | task hk => exact ⟨(Task.cont_of_next hk).1 hc, (Task.uses_recv hk).not_waits hw⟩

/-- Without `cont` a sender that does not wait goes on like that. -/
theorem send_not_waits_step (hst : (lts T).step p l p')
    (h : p.shared.session.cont = false ∧ p.shared.send.stage.waits = false) :
    p'.shared.session.cont = false ∧ p'.shared.send.stage.waits = false := by
  obtain ⟨hc, hw⟩ := h
  cases step_of_next hst with
  | recv | send | request | begin => exact ⟨hc, hw⟩
  | reader hr =>
    have hs := RecvPoint.step_of_next hr
    exact ⟨hs.cont.trans hc, by simp only [hs.send]; exact hw⟩
  | sender _ hr =>
    have hs := SendPoint.step_of_next hr
    exact ⟨hs.cont.trans hc, hs.send.not_waits (fun hn => by rw [hc] at hn; cases hn.1) hw⟩
  | task hk => exact ⟨(Task.cont_of_next hk).1 hc, (Task.uses_send hk).not_waits hw⟩

/-! ### The result -/

theorem not_quiet_of_asleep {N : Type*} {m : Monitor N} (h : m.stage = .asleep) : ¬ m.Quiet := by
  simp [Quiet, h, Stage.rests]

/-- **No wake-up is lost.**  In every reachable state:

* a reader that sleeps unsignalled while the queue is not empty will be signalled by a
  `usbws_handle_recv` that has queued its frame, and a sender that sleeps unsignalled while
  `send_buf` is NULL by a `__send_data` that has cleared it;
* neither of them sleeps unsignalled behind a completed `usbws_session_discontinue`;
* a call of `usbws_recv` or `usbws_send` that begins behind such a completion never waits. -/
theorem no_lost_wakeup {now : ℤ} (he : (lts T).Exec (start T now) tr p) :
    (p.shared.recv.stage = .asleep → p.shared.session.recvQueue ≠ [] →
        ∃ t, p.task t = .queued) ∧
      (p.shared.send.stage = .asleep → p.shared.session.sendBuf = none →
        ∃ t, (p.task t).owesSend = true) ∧
      (p.shared.session.cont = false → p.shared.discontinued = true →
        p.shared.recv.stage ≠ .asleep ∧ p.shared.send.stage ≠ .asleep) ∧
      (p.shared.discontinued = true → ∀ tr' p', (lts T).Exec p tr' p' →
        (p.reader = .idle → p'.shared.recv.stage.waits = false) ∧
        (p.sender = .idle → p'.shared.send.stage.waits = false)) := by
  have h : p.Ok := (start_ok now).exec he
  have hplace : p.Placed := he.invariant ⟨rfl, rfl⟩ fun _ _ _ hI hst => hI.step hst
  refine ⟨fun ha hq => h.reader (not_quiet_of_asleep ha) hq,
    fun ha hb => h.sender (not_quiet_of_asleep ha) hb, fun _ hd => ?_, fun hd tr' p' he' => ?_⟩
  · obtain ⟨-, hs, hr⟩ := h.discontinued hd
    exact ⟨fun ha => not_quiet_of_asleep ha hr, fun ha => not_quiet_of_asleep ha hs⟩
  · have hc := (h.discontinued hd).1
    refine ⟨fun hi => ?_, fun hi => ?_⟩
    · have hw := hplace.1.not_waits (by rw [hi]; nofun)
      exact (he'.invariant ⟨hc, hw⟩ fun _ _ _ hI hst => recv_not_waits_step hst hI).2
    · have hw := hplace.2.not_waits (by rw [hi]; nofun)
      exact (he'.invariant ⟨hc, hw⟩ fun _ _ _ hI hst => send_not_waits_step hst hI).2

/-- A reader sleeps, and a frame has just been queued. -/
theorem signalled_of_frame : ∃ tr p, (lts Unit).Exec (start Unit 0) tr p ∧
    p.shared.recv.stage = .asleep ∧ ∃ t, p.task t = .queued := by
  obtain ⟨tr, p, he, ha, hq⟩ : ∃ tr p, (lts Unit).Exec (start Unit 0) tr p ∧
      p.shared.recv.stage = .asleep ∧ p.shared.session.recvQueue ≠ [] :=
    LTS.exists_exec_of_replay
      [.recv 1 false, .reader, .reader, .reader, .reader, .begin () (.arrived [7]),
        .task (some ()) 0, .task (some ()) 0] _ (fun _ _ _ h => h) (by decide)
  exact ⟨tr, p, he, ha, (no_lost_wakeup he).1 ha hq⟩

end Wakeup

end Usbws
