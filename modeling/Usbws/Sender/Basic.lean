import Mathlib.Logic.Function.Basic
import Usbws.Lts.Basic
import Usbws.Session.Callback

/-!
# A session, its sender and the broadcasts of other senders

The sender of a session calls `usbws_send` again and again.  Its three assignments to the session
are made without a lock, and `usbws_handle_send_request`, which it runs by its own broadcast and
which other senders (the threads `T`) run by theirs, tests `send_buf` before it takes
`writable_lock`.  Meanwhile the service thread delivers `WRITEABLE` callbacks.  In between of
these steps any other thread may run, so they are kept apart:

* `setSendBuf`, `setSendLen`, `setSendOffset` are the single assignments, and `publish` makes the
  three in one step;
* `test` and `locked` are the two parts of `usbws_handle_send_request` run by the own sender,
  `otherTest` and `otherLocked` those run by another one.

Each state remembers which call made the last assignment to `send_len` and to `send_offset`.
-/

namespace Usbws

/-- The program points of a sender with the buffer of its current call. -/
inductive SendPc where
  /-- Not in `usbws_send`. -/
  | idle
  /-- Behind `session->send_buf = buf`. -/
  | bufSet (b : SendBuf)
  /-- Behind `session->send_len = len`. -/
  | lenSet (b : SendBuf)
  /-- At `usbws_request_send`. -/
  | published (b : SendBuf)
  /-- In `usbws_handle_send_request`, between the test and the lock. -/
  | tested (b : SendBuf)
  /-- In the wait loop. -/
  | waiting (b : SendBuf)
  deriving DecidableEq, Repr

namespace SendPc

/-- The sender is between its first and its third assignment. -/
def publishing : SendPc → Bool
  | bufSet _ | lenSet _ => true
  | _ => false

/-- The sender is between its test of `send_buf` and the lock. -/
def isTested : SendPc → Bool
  | tested _ => true
  | _ => false

end SendPc

/-- A session with its sender and the broadcasts of the threads `T`. -/
structure Sender (T : Type*) where
  /-- The shared session. -/
  session : Session
  /-- Where the sender is. -/
  pc : SendPc
  /-- The threads that are between their test of `send_buf` and the lock. -/
  others : T → Bool
  /-- The number of the sender's next call. -/
  calls : ℕ
  /-- The call that assigned `send_len` last. -/
  lenOf : ℕ
  /-- The call that assigned `send_offset` last. -/
  offOf : ℕ

namespace Sender

variable {T : Type*}

/-- The steps of the sender, of the threads `T` and of the service thread.  A number is the
result of the `lws_write` call the step may make. -/
inductive Label (T : Type*) where
  /-- A call of `usbws_send` with its first assignment. -/
  | setSendBuf (data : Bytes)
  | setSendLen
  | setSendOffset
  /-- A call of `usbws_send` with its three assignments. -/
  | publish (data : Bytes)
  | test
  | locked (sent : ℤ)
  /-- The sender finds its loop condition false and returns. -/
  | leave
  | otherTest (t : T)
  | otherLocked (t : T) (sent : ℤ)
  /-- A `WRITEABLE` callback. -/
  | writeable (sent : ℤ)

/-- The step is a `WRITEABLE` callback. -/
def Label.isWriteable : Label T → Bool
  | .writeable _ => true
  | _ => false

/-- The step is one of the separate assignments of `usbws_send`. -/
def Label.isAssignment : Label T → Bool
  | .setSendBuf _ | .setSendLen | .setSendOffset => true
  | _ => false

/-- What the session code does in a step. -/
def outcome (p : Sender T) : Label T → Outcome
  | .locked sent | .otherLocked _ sent => p.session.sendRequestLocked sent
  | .writeable sent => p.session.handleWritable sent
  | _ => ⟨p.session, [], 0⟩

/-- The data writes of a step; there is one exactly if the step enters `__send_data`. -/
def writes (p : Sender T) (l : Label T) : List DataWrite := dataWrites (p.outcome l).effects

variable [DecidableEq T]

/-- The successor function; `lws_write` gives one of its documented results. -/
def next (p : Sender T) (l : Label T) : Option (Sender T) :=
  if ∀ w ∈ p.writes l, w.Valid then
    match l, p.pc with
    | .setSendBuf data, .idle =>
      let b : SendBuf := ⟨p.calls, data⟩
      some { p with session := p.session.setSendBuf b, pc := .bufSet b, calls := p.calls + 1 }
    | .setSendLen, .bufSet b =>
      some { p with session := p.session.setSendLen b, pc := .lenSet b, lenOf := b.call }
    | .setSendOffset, .lenSet b =>
      some { p with session := p.session.setSendOffset, pc := .published b, offOf := b.call }
    | .publish data, .idle =>
      let b : SendBuf := ⟨p.calls, data⟩
      some { p with
        session := p.session.publish b, pc := .published b, calls := p.calls + 1
        lenOf := b.call, offOf := b.call }
    | .test, .published b =>
      some { p with pc := if p.session.sendBuf.isNone then .waiting b else .tested b }
    | .locked sent, .tested b =>
      some { p with session := (p.outcome (.locked sent)).session, pc := .waiting b }
    | .leave, .waiting _ =>
      if p.session.cont && p.session.sendBuf.isSome then none else some { p with pc := .idle }
    | .otherTest t, _ =>
      if p.others t then none
      else some { p with others := Function.update p.others t p.session.sendBuf.isSome }
    | .otherLocked t sent, _ =>
      if p.others t then
        some { p with
          session := (p.outcome (.otherLocked t sent)).session
          others := Function.update p.others t false }
      else none
    | .writeable sent, _ => some { p with session := (p.outcome (.writeable sent)).session }
    | _, _ => none
  else none

/-- The system. -/
def lts (T : Type*) [DecidableEq T] : LTS (Sender T) (Label T) := .ofNext next

/-- A freshly established session whose sender has not called yet. -/
def start (T : Type*) (now : ℤ) : Sender T := ⟨.init now, .idle, fun _ => false, 1, 0, 0⟩

/-- The moves of the system. -/
abbrev Move (T : Type*) := LTS.Move (Sender T) (Label T)

/-! ### The steps -/

/-- The steps of the system one by one. -/
inductive Step (p : Sender T) : Label T → Sender T → Prop
  | setSendBuf {data : Bytes} : p.pc = .idle → Step p (.setSendBuf data)
      { p with
        session := p.session.setSendBuf ⟨p.calls, data⟩, pc := .bufSet ⟨p.calls, data⟩
        calls := p.calls + 1 }
  | setSendLen {b : SendBuf} : p.pc = .bufSet b → Step p .setSendLen
      { p with session := p.session.setSendLen b, pc := .lenSet b, lenOf := b.call }
  | setSendOffset {b : SendBuf} : p.pc = .lenSet b → Step p .setSendOffset
      { p with session := p.session.setSendOffset, pc := .published b, offOf := b.call }
  | publish {data : Bytes} : p.pc = .idle → Step p (.publish data)
      { p with
        session := p.session.publish ⟨p.calls, data⟩, pc := .published ⟨p.calls, data⟩
        calls := p.calls + 1, lenOf := p.calls, offOf := p.calls }
  | testNull {b : SendBuf} : p.pc = .published b → p.session.sendBuf = none → Step p .test
      { p with pc := .waiting b }
  | test {b : SendBuf} : p.pc = .published b → p.session.sendBuf.isSome = true → Step p .test
      { p with pc := .tested b }
  | locked {b : SendBuf} {sent : ℤ} : p.pc = .tested b →
      (∀ w ∈ dataWrites (p.session.sendRequestLocked sent).effects, w.Valid) →
      Step p (.locked sent)
        { p with session := (p.session.sendRequestLocked sent).session, pc := .waiting b }
  | leave {b : SendBuf} : p.pc = .waiting b → p.session.cont = false ∨ p.session.sendBuf = none →
      Step p .leave { p with pc := .idle }
  | otherTest {t : T} : p.others t = false → Step p (.otherTest t)
      { p with others := Function.update p.others t p.session.sendBuf.isSome }
  | otherLocked {t : T} {sent : ℤ} : p.others t = true →
      (∀ w ∈ dataWrites (p.session.sendRequestLocked sent).effects, w.Valid) →
      Step p (.otherLocked t sent)
        { p with
          session := (p.session.sendRequestLocked sent).session
          others := Function.update p.others t false }
  | writeable {sent : ℤ} :
      (∀ w ∈ dataWrites (p.session.handleWritable sent).effects, w.Valid) →
      Step p (.writeable sent) { p with session := (p.session.handleWritable sent).session }

variable {p p' : Sender T} {l : Label T}

theorem step_of_next (h : (lts T).step p l p') : Step p l p' := by
  change next p l = some p' at h
  simp only [next, Option.ite_none_right_eq_some] at h
  obtain ⟨hw, h⟩ := h
  split at h
  case h_1 hpc => cases h; exact .setSendBuf hpc
  case h_2 hpc => cases h; exact .setSendLen hpc
  case h_3 hpc => cases h; exact .setSendOffset hpc
  case h_4 hpc => cases h; exact .publish hpc
  case h_5 hpc =>
    cases h
    split_ifs with hb
    · exact .testNull hpc (by simpa using hb)
    · exact .test hpc (by simpa [Option.isSome_iff_ne_none] using hb)
  case h_6 hpc => cases h; exact .locked hpc hw
  case h_7 hpc =>
    split_ifs at h with hb
    cases h
    refine .leave hpc ?_
    cases hc : p.session.cont
    · exact .inl rfl
    · exact .inr (by simpa [hc] using hb)
  case h_8 t _ =>
    split_ifs at h with ht
    cases h
    exact .otherTest (by simpa using ht)
  case h_9 t sent _ =>
    split_ifs at h with ht
    cases h
    exact .otherLocked ht hw
  case h_10 sent _ => cases h; exact .writeable hw
  case h_11 => cases h

end Sender

end Usbws
