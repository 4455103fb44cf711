import Mathlib.Logic.Function.Basic
import Usbws.Lts.Basic
import Usbws.Session.Callback

/-!
# The permission to write

libwebsockets calls back once for each `lws_callback_on_writable` request, and the callback permits
one `lws_write`.  The session keeps the permission in its flag `writable`.  Three functions use it,
each in a section under `writable_lock`: `usbws_handle_writable`, `usbws_handle_send_request` and
`usbws_send_ping`.  The sections may run in any order and on any threads, and `lws_write` may
return anything.

* `Permit` : a session with its sender, the broadcasts of other senders (the threads `T`) and the
  request the library keeps for its connection.
* `Session.UsesPermit` : what a section does with the permission.
* `Permit.writesSince` : the calls of `lws_write` since the latest `WRITEABLE` callback.
* `Permit.Step` : the steps one by one.
-/

namespace Usbws

/-- The number of `lws_write` calls among some effects. -/
def lwsWrites (es : List Effect) : ℕ :=
  es.countP fun
    | .writeBinary _ | .writePing _ => true
    | _ => false

@[simp] theorem lwsWrites_nil : lwsWrites [] = 0 := rfl

namespace Session

variable {s : Session} {sent : ℤ}

/-- Code with the effects `es` that finds the permission `w` and leaves `w'` : it keeps the
permission and writes nothing, or uses it for one `lws_write` and asks for the next one. -/
inductive UsesPermit (w w' : Bool) (es : List Effect) : Prop
  | kept : w' = w → lwsWrites es = 0 → Effect.callbackOnWritable ∉ es → UsesPermit w w' es
  | used : w = true → w' = false → lwsWrites es = 1 → Effect.callbackOnWritable ∈ es →
      UsesPermit w w' es

theorem UsesPermit.nothing (w : Bool) : UsesPermit w w [] := .kept rfl rfl List.not_mem_nil

theorem sendData_usesPermit :
    UsesPermit true (s.sendData sent).session.writable (s.sendData sent).effects := by
  refine .used rfl (by simp) ?_ ?_
  all_goals
    simp only [sendData]
    split_ifs <;> simp [lwsWrites]

theorem sendPing_usesPermit :
    UsesPermit true (s.sendPing sent).session.writable (s.sendPing sent).effects :=
  .used rfl (by simp) rfl (by simp [sendPing])

theorem sendRequestLocked_usesPermit : UsesPermit s.writable
    (s.sendRequestLocked sent).session.writable (s.sendRequestLocked sent).effects := by
  unfold sendRequestLocked
  split_ifs with hw
  · rw [hw]
    exact sendData_usesPermit
  · exact .nothing _

theorem usbwsSendPing_usesPermit : UsesPermit s.writable
    (s.usbwsSendPing sent).session.writable (s.usbwsSendPing sent).effects := by
  have hw' : (s.usbwsSendPing sent).session.writable = false := by rw [usbwsSendPing_session]
  cases hw : s.writable with
  | false =>
    rw [hw']
    refine .kept rfl ?_ ?_ <;> simp [usbwsSendPing, hw]
  | true =>
    refine .used rfl hw' ?_ ?_
    all_goals
      simp only [usbwsSendPing, hw, if_true]
      split_ifs <;> simp [sendPing, lwsWrites]

theorem handleWritable_usesPermit : UsesPermit true
    (s.handleWritable sent).session.writable (s.handleWritable sent).effects := by
  simp only [handleWritable]
  split_ifs
  · exact sendData_usesPermit
  · exact sendPing_usesPermit
  · exact .nothing _

end Session

/-- The program points of a sender with the buffer of its current call. -/
inductive BroadcastPc where
  /-- Not in `usbws_send`. -/
  | idle
  /-- Behind `session->send_buf = buf`. -/
  | bufSet (b : SendBuf)
  /-- Behind `session->send_len = len`. -/
  | lenSet (b : SendBuf)
  /-- In its broadcast, which has not visited the sender's own session yet. -/
  | published (b : SendBuf)
  /-- In `usbws_handle_send_request` for its own session, between the test and the lock. -/
  | tested (b : SendBuf)
  /-- Behind the lock, with the result of the section. -/
  | unlocked (b : SendBuf) (ret : ℤ)
  /-- In its broadcast, which has visited the sender's own session. -/
  | visited (b : SendBuf)
  /-- In the wait loop. -/
  | waiting (b : SendBuf)
  deriving DecidableEq, Repr

namespace BroadcastPc

/-- The sender is in `usbws_send`, in front of the visit of its own session. -/
def ahead : BroadcastPc → Bool
  | bufSet _ | lenSet _ | published _ | tested _ => true
  | _ => false

/-- The visit of the sender's own session is over, apart from a `lws_cancel_service` that it still
has to call. -/
def settled : BroadcastPc → Bool
  | unlocked _ ret => ret != 0
  | visited _ | waiting _ => true
  | _ => false

theorem ahead_of_settled {pc : BroadcastPc} (h : pc.settled = true) : pc.ahead = false := by
  cases pc <;> first | rfl | cases h

end BroadcastPc

/-- A session, its sender, the broadcasts of the threads `T` and the request of the library. -/
structure Permit (T : Type*) where
  /-- The shared session. -/
  session : Session
  /-- Where the sender of the session is. -/
  pc : BroadcastPc
  /-- The threads that are between their test of `send_buf` and the lock. -/
  others : T → Bool
  /-- The number of the sender's next call. -/
  calls : ℕ
  /-- A `lws_callback_on_writable` request is outstanding. -/
  requested : Bool

namespace Permit

variable {T : Type*}

/-- The steps of the sender, of the threads `T` and of the service thread.  A number is the
result of the `lws_write` call the step may make. -/
inductive Label (T : Type*) where
  /-- A call of `usbws_send` with its first assignment. -/
  | setSendBuf (data : Bytes)
  | setSendLen
  | setSendOffset
  /-- The own session is visited by the sender's broadcast. -/
  | test
  | locked (sent : ℤ)
  /-- The end of `usbws_handle_send_request`, with its `lws_cancel_service`. -/
  | cancel
  /-- The broadcast is over and the sender enters its wait loop. -/
  | wait
  /-- The sender finds its loop condition false and returns. -/
  | leave
  | otherTest (t : T)
  | otherLocked (t : T) (sent : ℤ)
  /-- A `WRITEABLE` callback. -/
  | writeable (sent : ℤ)
  /-- `usbws_send_ping`. -/
  | ping (sent : ℤ)
  /-- `usbws_session_discontinue`. -/
  | discontinue

namespace Label

/-- The step is a `WRITEABLE` callback. -/
def isWriteable : Label T → Bool
  | writeable _ => true
  | _ => false

/-- The step belongs to the service thread. -/
def isService : Label T → Bool
  | writeable _ | ping _ => true
  | _ => false

/-- The result of the `lws_write` call the step may make. -/
def sent : Label T → Option ℤ
  | locked sent | otherLocked _ sent | writeable sent | ping sent => some sent
  | _ => none

end Label

/-- What the session code does in a step. -/
def outcome (p : Permit T) : Label T → Outcome
  | .locked sent | .otherLocked _ sent => p.session.sendRequestLocked sent
  | .cancel =>
    match p.pc with
    | .unlocked _ ret => ⟨p.session, if ret = 0 then [.cancelService] else [], ret⟩
    | _ => ⟨p.session, [], 0⟩
  | .writeable sent => p.session.handleWritable sent
  | .ping sent => p.session.usbwsSendPing sent
  | .discontinue => p.session.discontinue
  | _ => ⟨p.session, [], 0⟩

/-- What becomes of the library's request: a `WRITEABLE` callback answers it, and a call of
`lws_callback_on_writable` makes a new one. -/
def requests (p : Permit T) (l : Label T) : Bool :=
  (p.requested && !l.isWriteable) || decide (Effect.callbackOnWritable ∈ (p.outcome l).effects)

/-- The state behind the locked section or the callback of a step. -/
def perform (p : Permit T) (l : Label T) : Permit T :=
  { p with session := (p.outcome l).session, requested := p.requests l }

variable [DecidableEq T]

/-- The successor function. -/
def next (p : Permit T) (l : Label T) : Option (Permit T) :=
  match l, p.pc with
  | .setSendBuf data, .idle =>
    let b : SendBuf := ⟨p.calls, data⟩
    some { p with session := p.session.setSendBuf b, pc := .bufSet b, calls := p.calls + 1 }
  | .setSendLen, .bufSet b => some { p with session := p.session.setSendLen b, pc := .lenSet b }
  | .setSendOffset, .lenSet b =>
    some { p with session := p.session.setSendOffset, pc := .published b }
  | .test, .published b =>
    some { p with pc := if p.session.sendBuf.isNone then .visited b else .tested b }
  | .locked sent, .tested b =>
    some { p.perform (.locked sent) with pc := .unlocked b (p.outcome (.locked sent)).ret }
  | .cancel, .unlocked b _ => some { p with pc := .visited b }
  | .wait, .visited b => some { p with pc := .waiting b }
  | .leave, .waiting _ =>
    if p.session.cont && p.session.sendBuf.isSome then none else some { p with pc := .idle }
  | .otherTest t, _ =>
    if p.others t then none
    else some { p with others := Function.update p.others t p.session.sendBuf.isSome }
  | .otherLocked t sent, _ =>
    if p.others t then
      some { p.perform (.otherLocked t sent) with others := Function.update p.others t false }
    else none
  | .writeable sent, _ => some (p.perform (.writeable sent))
  | .ping sent, _ => some (p.perform (.ping sent))
  | .discontinue, _ => some (p.perform .discontinue)
  | _, _ => none

/-- The system. -/
def lts (T : Type*) [DecidableEq T] : LTS (Permit T) (Label T) := .ofNext next

/-- A freshly established session: its `ESTABLISHED` callback has made a request. -/
def start (T : Type*) (now : ℤ) : Permit T := ⟨.init now, .idle, fun _ => false, 0, true⟩

/-- The moves of the system. -/
abbrev Move (T : Type*) := LTS.Move (Permit T) (Label T)

/-- The number of `lws_write` calls in a move. -/
def writes (m : Move T) : ℕ := lwsWrites (m.pre.outcome m.label).effects

/-- The number of `lws_write` calls of a run since its latest `WRITEABLE` callback, those of the
callback included. -/
def writesSince : List (Move T) → ℕ
  | [] => 0
  | m :: tr => if m.label.isWriteable then writes m else writesSince tr + writes m

/-! ### The steps -/

/-- The steps of the system one by one. -/
inductive Step (p : Permit T) : Label T → Permit T → Prop
  | setSendBuf {data : Bytes} : p.pc = .idle → Step p (.setSendBuf data)
      { p with
        session := p.session.setSendBuf ⟨p.calls, data⟩, pc := .bufSet ⟨p.calls, data⟩
        calls := p.calls + 1 }
  | setSendLen {b : SendBuf} : p.pc = .bufSet b → Step p .setSendLen
      { p with session := p.session.setSendLen b, pc := .lenSet b }
  | setSendOffset {b : SendBuf} : p.pc = .lenSet b → Step p .setSendOffset
      { p with session := p.session.setSendOffset, pc := .published b }
  | testNull {b : SendBuf} : p.pc = .published b → p.session.sendBuf = none → Step p .test
      { p with pc := .visited b }
  | test {b : SendBuf} : p.pc = .published b → p.session.sendBuf.isSome = true → Step p .test
      { p with pc := .tested b }
  | locked {b : SendBuf} {sent : ℤ} : p.pc = .tested b → Step p (.locked sent)
      { p.perform (.locked sent) with pc := .unlocked b (p.session.sendRequestLocked sent).ret }
  | cancel {b : SendBuf} {ret : ℤ} : p.pc = .unlocked b ret → Step p .cancel
      { p with pc := .visited b }
  | wait {b : SendBuf} : p.pc = .visited b → Step p .wait { p with pc := .waiting b }
  | leave {b : SendBuf} : p.pc = .waiting b → p.session.cont = false ∨ p.session.sendBuf = none →
      Step p .leave { p with pc := .idle }
  | otherTest {t : T} : p.others t = false → Step p (.otherTest t)
      { p with others := Function.update p.others t p.session.sendBuf.isSome }
  | otherLocked {t : T} {sent : ℤ} : p.others t = true → Step p (.otherLocked t sent)
      { p.perform (.otherLocked t sent) with others := Function.update p.others t false }
  | writeable {sent : ℤ} : Step p (.writeable sent) (p.perform (.writeable sent))
  | ping {sent : ℤ} : Step p (.ping sent) (p.perform (.ping sent))
  | discontinue : Step p .discontinue (p.perform .discontinue)

variable {p p' : Permit T} {l : Label T}

theorem step_of_next (h : (lts T).step p l p') : Step p l p' := by
  change next p l = some p' at h
  simp only [next] at h
  split at h
  case h_1 hpc => cases h; exact .setSendBuf hpc
  case h_2 hpc => cases h; exact .setSendLen hpc
  case h_3 hpc => cases h; exact .setSendOffset hpc
  case h_4 hpc =>
    cases h
    split_ifs with hb
    · exact .testNull hpc (by simpa using hb)
    · exact .test hpc (by simpa [Option.isSome_iff_ne_none] using hb)
  case h_5 hpc => cases h; exact .locked hpc
  case h_6 hpc => cases h; exact .cancel hpc
  case h_7 hpc => cases h; exact .wait hpc
  case h_8 hpc =>
    split_ifs at h with hb
    cases h
    refine .leave hpc ?_
    cases hc : p.session.cont
    · exact .inl rfl
    · exact .inr (by simpa [hc] using hb)
  case h_9 =>
    split_ifs at h with ht
    cases h
    exact .otherTest (by simpa using ht)
  case h_10 =>
    split_ifs at h with ht
    cases h
    exact .otherLocked ht
  case h_11 => cases h; exact .writeable
  case h_12 => cases h; exact .ping
  case h_13 => cases h; exact .discontinue
  case h_14 => cases h

theorem cancel_step {b : SendBuf} {ret : ℤ} (h : p.pc = .unlocked b ret) :
    (lts T).step p .cancel { p with pc := .visited b } := by
  change next p .cancel = some _
  simp only [next, h]

theorem wait_step {b : SendBuf} (h : p.pc = .visited b) :
    (lts T).step p .wait { p with pc := .waiting b } := by
  change next p .wait = some _
  simp only [next, h]

end Permit

end Usbws
