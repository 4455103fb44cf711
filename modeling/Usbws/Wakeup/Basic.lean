import Mathlib.Logic.Function.Basic
import Usbws.Lts.Basic
import Usbws.Session.Callback
import Usbws.Sync.Monitor

/-!
# Statements and wake-ups

The threads of a session statement by statement.  `usbws_send` and `usbws_recv` wait for
`send_complete_cond` and `recv_queue_cond`, which are signalled by three functions that other
threads run: `usbws_handle_recv`, `__send_data` and `usbws_session_discontinue`.  The last one
clears `cont` outside of both locks.

* `Shared` : the session with its two locks.
* `Task` : the program points of the functions that signal, with `usbws_session_close`, which
  discontinues; `Task.next` is one statement.
* `RecvPoint`, `SendPoint` : the program points of the two functions that wait.
* `Wakeup` : the reader and the sender of a session with the tasks of other threads `T`.  The task
  `none` is the sender's own broadcast.

The tests that decide whether `__send_data` is entered, and `writable_lock` around it, are left out:
a task may enter it at any time.
-/

namespace Usbws

/-- What the threads of a session share. -/
structure Shared (N : Type*) where
  /-- The session. -/
  session : Session
  /-- `send_complete_lock` and `send_complete_cond`. -/
  send : Monitor N
  /-- `recv_queue_lock` and `recv_queue_cond`. -/
  recv : Monitor N
  /-- A call of `usbws_session_discontinue` has completed. -/
  discontinued : Bool

/-- The program points of the functions that signal; each is named by the statement to come. -/
inductive Task where
  /-- In none of the functions. -/
  | idle
  /-- `usbws_handle_recv` with its copy of the frame, at the lock. -/
  | arrived (f : Bytes)
  /-- At `list_add_tail`. -/
  | queueing (f : Bytes)
  /-- At the signal, behind `list_add_tail`. -/
  | queued
  /-- At the unlock. -/
  | arrivalDone
  /-- `__send_data`, at `lws_write` and `session->send_offset += sent`. -/
  | writing
  /-- At `if (session->send_offset >= session->send_len)`. -/
  | written
  /-- At the lock. -/
  | completing
  /-- At `session->send_buf = NULL`. -/
  | clearing
  /-- At `session->send_len = 0`. -/
  | cleared
  /-- At the signal. -/
  | completed
  /-- At the unlock. -/
  | completionDone
  /-- At `session->writable = 0`. -/
  | revoking
  /-- `usbws_session_close`, at the lock. -/
  | closing
  /-- At the loop that unlinks the queue. -/
  | unlinking
  /-- At the unlock. -/
  | unlinked
  /-- `usbws_session_discontinue`, at `session->cont = 0`. -/
  | discontinuing
  /-- At its six calls for the two locks. -/
  | sendLock
  | sendSignal
  | sendUnlock
  | recvLock
  | recvSignal
  | recvUnlock
  deriving DecidableEq, Repr

namespace Task

/-- The points at which a function begins. -/
def entry : Task → Bool
  | arrived _ | writing | closing | discontinuing => true
  | _ => false

/-- The task is inside of `send_complete_lock`. -/
def holdsSend : Task → Bool
  | clearing | cleared | completed | completionDone | sendSignal | sendUnlock => true
  | _ => false

/-- The task is inside of `recv_queue_lock`. -/
def holdsRecv : Task → Bool
  | queueing _ | queued | arrivalDone | unlinking | unlinked | recvSignal | recvUnlock => true
  | _ => false

/-- The task is in `__send_data` between clearing `send_buf` and its signal. -/
def owesSend : Task → Bool
  | cleared | completed => true
  | _ => false

/-- The task is in `usbws_session_discontinue`, behind `session->cont = 0`. -/
def behindCont : Task → Bool
  | sendLock | sendSignal | sendUnlock | recvLock | recvSignal | recvUnlock => true
  | _ => false

/-- ... behind its signal to the sender. -/
def behindSend : Task → Bool
  | sendUnlock | recvLock | recvSignal | recvUnlock => true
  | _ => false

/-- ... behind its signal to the reader. -/
def behindRecv : Task → Bool
  | recvUnlock => true
  | _ => false

/-- The task is in `usbws_session_close`, or it has returned. -/
def inClose : Task → Bool
  | closing | unlinking | unlinked | discontinuing | idle => true
  | k => k.behindCont

/-- ... behind `session->cont = 0`. -/
def pastCont : Task → Bool
  | idle => true
  | k => k.behindCont

/-- ... behind the lock of the queue that `usbws_session_discontinue` takes. -/
def pastRecvLock : Task → Bool
  | recvSignal | recvUnlock | idle => true
  | _ => false

end Task

/-- The program points of `usbws_recv`. -/
inductive RecvPoint where
  | idle
  /-- At `while (session->cont)`. -/
  | outer (c : RecvCall)
  /-- At the lock. -/
  | locking (c : RecvCall)
  /-- In the inner loop; the stage of the monitor says where. -/
  | loop (c : RecvCall)
  /-- At `if (!session->cont)`. -/
  | check (c : RecvCall)
  /-- At the unlock in front of `return -1`. -/
  | failing (c : RecvCall)
  /-- At the traversal. -/
  | copy (c : RecvCall)
  /-- At the unlock behind the traversal. -/
  | unlocking (c : RecvCall)
  /-- At `if ((!all && total > 0) || total >= len)`. -/
  | judge (c : RecvCall)
  /-- At `return ret`. -/
  | done (c : RecvCall) (ret : ℤ)
  deriving DecidableEq, Repr

/-- Where the reader is with respect to its inner loop. -/
def RecvPoint.place : RecvPoint → Place
  | loop _ => .loop
  | check _ | failing _ | copy _ | unlocking _ => .behind
  | idle | outer _ | locking _ | judge _ | done _ _ => .outside

/-- The program points of `usbws_send`. -/
inductive SendPoint where
  | idle
  /-- Behind `session->send_buf = buf`. -/
  | bufSet (b : SendBuf)
  /-- Behind `session->send_len = len`. -/
  | lenSet (b : SendBuf)
  /-- In `usbws_request_send`. -/
  | request (b : SendBuf)
  /-- At the lock. -/
  | locking (b : SendBuf)
  /-- In the wait loop; the stage of the monitor says where. -/
  | loop (b : SendBuf)
  /-- At the unlock. -/
  | unlocking (b : SendBuf)
  /-- At `if (!session->cont)` and the return. -/
  | leaving (b : SendBuf)
  deriving DecidableEq, Repr

/-- Where the sender is with respect to its wait loop. -/
def SendPoint.place : SendPoint → Place
  | loop _ => .loop
  | unlocking _ => .behind
  | idle | bufSet _ | lenSet _ | request _ | locking _ | leaving _ => .outside

/-! ### Single statements -/

section Statements

variable {N : Type*}

namespace Shared

/-- Assign to fields of the session. -/
def setSession (sh : Shared N) (s : Session) : Shared N := { sh with session := s }

/-- A step of the first lock. -/
def setSend (sh : Shared N) (m : Monitor N) : Shared N := { sh with send := m }

/-- A step of the second lock. -/
def setRecv (sh : Shared N) (m : Monitor N) : Shared N := { sh with recv := m }

end Shared

/-- The next statement of a task run by the thread `t`; `sent` is the result of `lws_write`. -/
def Task.next (sh : Shared N) (t : N) (sent : ℤ) : Task → Option (Shared N × Task)
  | .idle => none
  | .arrived f => (sh.recv.lock t).map fun m => (sh.setRecv m, .queueing f)
  | .queueing f =>
    some (sh.setSession { sh.session with recvQueue := sh.session.recvQueue ++ [f] }, .queued)
  | .queued => some (sh.setRecv sh.recv.signal, .arrivalDone)
  | .arrivalDone => some (sh.setRecv sh.recv.unlock, .idle)
  | .writing =>
    some (sh.setSession { sh.session with sendOffset := sh.session.sendOffset + sent }, .written)
  | .written =>
    some (sh, if sh.session.sendOffset ≥ sh.session.sendLen then .completing else .revoking)
  | .completing => (sh.send.lock t).map fun m => (sh.setSend m, .clearing)
  | .clearing => some (sh.setSession { sh.session with sendBuf := none }, .cleared)
  | .cleared => some (sh.setSession { sh.session with sendLen := 0 }, .completed)
  | .completed => some (sh.setSend sh.send.signal, .completionDone)
  | .completionDone => some (sh.setSend sh.send.unlock, .revoking)
  | .revoking => some (sh.setSession { sh.session with writable := false }, .idle)
  | .closing => (sh.recv.lock t).map fun m => (sh.setRecv m, .unlinking)
  | .unlinking => some (sh.setSession { sh.session with recvQueue := [] }, .unlinked)
  | .unlinked => some (sh.setRecv sh.recv.unlock, .discontinuing)
  | .discontinuing => some (sh.setSession { sh.session with cont := false }, .sendLock)
  | .sendLock => (sh.send.lock t).map fun m => (sh.setSend m, .sendSignal)
  | .sendSignal => some (sh.setSend sh.send.signal, .sendUnlock)
  | .sendUnlock => some (sh.setSend sh.send.unlock, .recvLock)
  | .recvLock => (sh.recv.lock t).map fun m => (sh.setRecv m, .recvSignal)
  | .recvSignal => some (sh.setRecv sh.recv.signal, .recvUnlock)
  | .recvUnlock => some ({ sh.setRecv sh.recv.unlock with discontinued := true }, .idle)

/-- The next statement of `usbws_recv`. -/
def RecvPoint.next (sh : Shared N) : RecvPoint → Option (Shared N × RecvPoint)
  | .idle => none
  | .outer c => some (sh, if sh.session.cont then .locking c else .done c c.total)
  | .locking c => sh.recv.enter.map fun m => (sh.setRecv m, .loop c)
  | .loop c => (sh.recv.turn (sh.session.cont && sh.session.recvQueue.isEmpty)).map fun m =>
      (sh.setRecv m, if m.stage = .inside then .check c else .loop c)
  | .check c => some (sh, if sh.session.cont then .copy c else .failing c)
  | .failing c => sh.recv.leave.map fun m => (sh.setRecv m, .done c (-1))
  | .copy c =>
    some (sh.setSession (sh.session.recvLocked c).1, .unlocking (sh.session.recvLocked c).2)
  | .unlocking c => sh.recv.leave.map fun m => (sh.setRecv m, .judge c)
  | .judge c => some (sh, if c.satisfied then .done c c.total else .outer c)
  | .done _ _ => some (sh, .idle)

/-- The next statement of `usbws_send`, in the broadcast its end. -/
def SendPoint.next (sh : Shared N) : SendPoint → Option (Shared N × SendPoint)
  | .idle => none
  | .bufSet b => some (sh.setSession (sh.session.setSendLen b), .lenSet b)
  | .lenSet b => some (sh.setSession sh.session.setSendOffset, .request b)
  | .request b => some (sh, .locking b)
  | .locking b => sh.send.enter.map fun m => (sh.setSend m, .loop b)
  | .loop b => (sh.send.turn (sh.session.cont && sh.session.sendBuf.isSome)).map fun m =>
      (sh.setSend m, if m.stage = .inside then .unlocking b else .loop b)
  | .unlocking b => sh.send.leave.map fun m => (sh.setSend m, .leaving b)
  | .leaving _ => some (sh, .idle)

end Statements

/-! ### The system -/

/-- A session with its reader, its sender and the tasks of the threads `T`. -/
structure Wakeup (T : Type*) where
  /-- What the threads share. -/
  shared : Shared (Option T)
  /-- Where the reader is. -/
  reader : RecvPoint
  /-- Where the sender is. -/
  sender : SendPoint
  /-- Where the tasks are; `none` is the one of the sender's own broadcast. -/
  task : Option T → Task
  /-- The number of the sender's next call. -/
  calls : ℕ

namespace Wakeup

variable {T : Type*}

/-- The steps of the system. -/
inductive Label (T : Type*) where
  /-- A call of `usbws_recv`. -/
  | recv (len : ℕ) (all : Bool)
  /-- The next statement of the reader. -/
  | reader
  /-- A call of `usbws_send`, with its first assignment. -/
  | send (data : Bytes)
  /-- The next statement of the sender. -/
  | sender
  /-- The sender's own broadcast enters `__send_data`. -/
  | request
  /-- A thread enters one of the functions. -/
  | begin (t : T) (k : Task)
  /-- The next statement of a task. -/
  | task (t : Option T) (sent : ℤ)

variable [DecidableEq T]

/-- The successor function. -/
def next (p : Wakeup T) : Label T → Option (Wakeup T)
  | .recv len all =>
    if p.reader = .idle then some { p with reader := .outer { len := len, all := all } } else none
  | .reader => (p.reader.next p.shared).map fun r => { p with shared := r.1, reader := r.2 }
  | .send data =>
    if p.sender = .idle then
      let b : SendBuf := ⟨p.calls, data⟩
      some { p with
        shared := p.shared.setSession (p.shared.session.setSendBuf b)
        sender := .bufSet b, calls := p.calls + 1 }
    else none
  | .sender =>
    -- a sender whose broadcast is in `__send_data` goes on with the task
    if p.task none = .idle then
      (p.sender.next p.shared).map fun r => { p with shared := r.1, sender := r.2 }
    else none
  | .request =>
    match p.sender with
    | .request _ =>
      if p.task none = .idle then some { p with task := Function.update p.task none .writing }
      else none
    | _ => none
  | .begin t k =>
    if p.task (some t) = .idle ∧ k.entry then
      some { p with task := Function.update p.task (some t) k }
    else none
  | .task t sent =>
    ((p.task t).next p.shared t sent).map fun r =>
      { p with shared := r.1, task := Function.update p.task t r.2 }

/-- The system. -/
def lts (T : Type*) [DecidableEq T] : LTS (Wakeup T) (Label T) := .ofNext next

/-- A freshly established session on which nothing has been called. -/
def start (T : Type*) (now : ℤ) : Wakeup T :=
  ⟨⟨.init now, .free, .free, false⟩, .idle, .idle, fun _ => .idle, 0⟩

/-- The moves of the system. -/
abbrev Move (T : Type*) := LTS.Move (Wakeup T) (Label T)

/-- The steps of the system one by one. -/
inductive Step (p : Wakeup T) : Label T → Wakeup T → Prop
  | recv {len : ℕ} {all : Bool} : p.reader = .idle → Step p (.recv len all)
      { p with reader := .outer { len := len, all := all } }
  | reader {sh : Shared (Option T)} {pc : RecvPoint} : p.reader.next p.shared = some (sh, pc) →
      Step p .reader { p with shared := sh, reader := pc }
  | send {data : Bytes} : p.sender = .idle → Step p (.send data)
      { p with
        shared := p.shared.setSession (p.shared.session.setSendBuf ⟨p.calls, data⟩)
        sender := .bufSet ⟨p.calls, data⟩, calls := p.calls + 1 }
  | sender {sh : Shared (Option T)} {pc : SendPoint} : p.task none = .idle →
      p.sender.next p.shared = some (sh, pc) →
      Step p .sender { p with shared := sh, sender := pc }
  | request : p.task none = .idle → Step p .request
      { p with task := Function.update p.task none .writing }
  | begin {t : T} {k : Task} : p.task (some t) = .idle → k.entry = true → Step p (.begin t k)
      { p with task := Function.update p.task (some t) k }
  | task {t : Option T} {sent : ℤ} {sh : Shared (Option T)} {k : Task} :
      (p.task t).next p.shared t sent = some (sh, k) → Step p (.task t sent)
      { p with shared := sh, task := Function.update p.task t k }

variable {p p' : Wakeup T} {l : Label T}

theorem step_of_next (h : (lts T).step p l p') : Step p l p' := by
  change next p l = some p' at h
  cases l with
  | recv =>
    simp only [next, Option.ite_none_right_eq_some, Option.some.injEq] at h
    obtain ⟨hr, rfl⟩ := h
    exact .recv hr
  | reader =>
    simp only [next, Option.map_eq_some_iff] at h
    obtain ⟨r, hr, rfl⟩ := h
    exact .reader hr
  | send =>
    simp only [next, Option.ite_none_right_eq_some, Option.some.injEq] at h
    obtain ⟨hs, rfl⟩ := h
    exact .send hs
  | sender =>
    simp only [next, Option.ite_none_right_eq_some, Option.map_eq_some_iff] at h
    obtain ⟨ht, r, hr, rfl⟩ := h
    exact .sender ht hr
  | request =>
    simp only [next] at h
    split at h
    · simp only [Option.ite_none_right_eq_some, Option.some.injEq] at h
      obtain ⟨ht, rfl⟩ := h
      exact .request ht
    · cases h
  | begin =>
    simp only [next, Option.ite_none_right_eq_some, Option.some.injEq] at h
    obtain ⟨⟨ht, hk⟩, rfl⟩ := h
    exact .begin ht hk
  | task =>
    simp only [next, Option.map_eq_some_iff] at h
    obtain ⟨r, hr, rfl⟩ := h
    exact .task hr

end Wakeup

end Usbws
