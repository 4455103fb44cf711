import Usbws.Lts.Basic
import Usbws.Session.Callback

/-!
# Connections

A connection is a session with the thread that calls `usbws_send` on it.  Its events are the
callbacks of `usbws_handle_session`, each one step, the calls of its sender, whose publication is
one step, the traversals of its reader, and `usbws_shutdown`.  A `SEND_REQUEST` callback may come at
any time: it belongs to the broadcast of some sender of the context.

* `Conn.next` : the successor function, where each `lws_write` of data has a result that satisfies
  `ok`.
* `Conn.Step` : its steps one by one.
* `Conn.writesOf`, `Conn.sendsOf`, `Conn.returnsOf` : the history of a run.
* `Conn.Owned` : which buffers `send_buf` may refer to.
-/

namespace Usbws

/-- The program points of a sender with the buffer of its current call. -/
inductive CallPc where
  /-- Not in `usbws_send`. -/
  | idle
  /-- In `usbws_send`, up to the end of the wait loop. -/
  | pending (b : SendBuf)
  /-- Behind the wait loop. -/
  | left (b : SendBuf)
  deriving DecidableEq, Repr

namespace CallPc

/-- The buffer of the call in progress. -/
def buf : CallPc → Option SendBuf
  | idle => none
  | pending b | left b => some b

/-- The call has not left its wait loop. -/
def isPending : CallPc → Bool
  | pending _ => true
  | _ => false

end CallPc

/-- A session with its sender. -/
structure Conn where
  /-- The session. -/
  session : Session
  /-- Where its sender is. -/
  pc : CallPc
  /-- The number of the sender's next call. -/
  calls : ℕ
  deriving DecidableEq, Repr

/-- What can happen to a connection. -/
inductive Event where
  /-- Its sender calls `usbws_send` and publishes the buffer. -/
  | send (data : Bytes)
  /-- Its sender finds the condition of the wait loop false. -/
  | leave
  /-- Its sender returns from `usbws_send`. -/
  | ret
  /-- `usbws_handle_session` is called for it. -/
  | callback (reason : Reason) (env : Env) (buf : Bytes)
  /-- `usbws_shutdown`. -/
  | shutdown
  /-- A traversal of its queue by `usbws_recv`. -/
  | recv (c : RecvCall)
  deriving DecidableEq, Repr

namespace Conn

/-- A freshly established session whose sender has not called yet. -/
def start (now : ℤ) : Conn := ⟨.init now, .idle, 0⟩

/-- The result of `usbws_send` behind its wait loop. -/
def sendResult (s : Session) : ℤ := if !s.cont then -1 else s.sendOffset

/-- What the session code does at an event. -/
def outcome (pingPong : ℤ) (k : Conn) : Event → Outcome
  | .callback reason env buf => k.session.handleSession pingPong env reason buf
  | .shutdown => k.session.discontinue
  | .recv c => ⟨(k.session.recvLocked c).1, [], 0⟩
  | _ => ⟨k.session, [], 0⟩

/-- The data writes of an event. -/
def writes (pingPong : ℤ) (k : Conn) (e : Event) : List DataWrite :=
  dataWrites (k.outcome pingPong e).effects

/-- The buffer published by an event. -/
def published (k : Conn) : Event → Option SendBuf
  | .send data => some ⟨k.calls, data⟩
  | _ => none

/-- The call that returns at an event, and its result. -/
def returned (k : Conn) : Event → Option (SendBuf × ℤ)
  | .ret =>
    match k.pc with
    | .left b => some (b, sendResult k.session)
    | _ => none
  | _ => none

/-- The successor function. -/
def next (pingPong : ℤ) (ok : DataWrite → Prop) [DecidablePred ok] (k : Conn) (e : Event) :
    Option Conn :=
  if ∀ w ∈ k.writes pingPong e, ok w then
    match e, k.pc with
    | .send data, .idle =>
      let b : SendBuf := ⟨k.calls, data⟩
      some ⟨k.session.publish b, .pending b, k.calls + 1⟩
    | .leave, .pending b =>
      if k.session.cont && k.session.sendBuf.isSome then none else some { k with pc := .left b }
    | .ret, .left _ => some { k with pc := .idle }
    | .callback reason env buf, _ =>
      if reason.opens then none
      else some { k with session := (k.outcome pingPong (.callback reason env buf)).session }
    | .shutdown, _ => some { k with session := (k.outcome pingPong .shutdown).session }
    | .recv c, _ => some { k with session := (k.outcome pingPong (.recv c)).session }
    | _, _ => none
  else none

/-- The system of a connection. -/
def lts (pingPong : ℤ) (ok : DataWrite → Prop) [DecidablePred ok] : LTS Conn Event :=
  .ofNext (next pingPong ok)

/-- The moves of a connection. -/
abbrev Move := LTS.Move Conn Event

/-! ### The history of a run -/

/-- The data written in a run, oldest first. -/
def writesOf (pingPong : ℤ) : List Move → List DataWrite
  | [] => []
  | m :: tr => writesOf pingPong tr ++ m.pre.writes pingPong m.label

/-- The buffers published in a run, oldest first. -/
def sendsOf : List Move → List SendBuf
  | [] => []
  | m :: tr => sendsOf tr ++ (m.pre.published m.label).toList

/-- The calls that have returned in a run, with their results, oldest first. -/
def returnsOf : List Move → List (SendBuf × ℤ)
  | [] => []
  | m :: tr => returnsOf tr ++ (m.pre.returned m.label).toList

/-- The bytes accepted on the connection. -/
def wireOf (pingPong : ℤ) (tr : List Move) : List (Option UInt8) :=
  (writesOf pingPong tr).flatMap DataWrite.accepted

theorem mem_writesOf {pingPong : ℤ} {tr : List Move} {w : DataWrite} :
    w ∈ writesOf pingPong tr ↔ ∃ m ∈ tr, w ∈ m.pre.writes pingPong m.label := by
  induction tr with
  | nil => simp [writesOf]
  | cons m tr ih =>
    simp only [writesOf, List.mem_append, ih, List.mem_cons, exists_eq_or_imp]
    exact or_comm

/-! ### The steps -/

/-- The steps of a connection one by one. -/
inductive Step (pingPong : ℤ) (k : Conn) : Event → Conn → Prop
  | send {data : Bytes} : k.pc = .idle → Step pingPong k (.send data)
      ⟨k.session.publish ⟨k.calls, data⟩, .pending ⟨k.calls, data⟩, k.calls + 1⟩
  | leave {b : SendBuf} : k.pc = .pending b → k.session.cont = false ∨ k.session.sendBuf = none →
      Step pingPong k .leave { k with pc := .left b }
  | ret {b : SendBuf} : k.pc = .left b → Step pingPong k .ret { k with pc := .idle }
  | callback {reason : Reason} {env : Env} {buf : Bytes} : reason.opens = false →
      Step pingPong k (.callback reason env buf)
        { k with session := (k.session.handleSession pingPong env reason buf).session }
  | shutdown : Step pingPong k .shutdown { k with session := k.session.discontinue.session }
  | recv {c : RecvCall} :
      Step pingPong k (.recv c) { k with session := (k.session.recvLocked c).1 }

variable {pingPong : ℤ} {ok : DataWrite → Prop} [DecidablePred ok] {k k' : Conn} {e : Event}

theorem step_of_next (h : (lts pingPong ok).step k e k') : Step pingPong k e k' := by
  change next pingPong ok k e = some k' at h
  simp only [next, Option.ite_none_right_eq_some] at h
  replace h := h.2
  split at h
  case h_1 hpc => cases h; exact .send hpc
  case h_2 hpc =>
    split_ifs at h with hb
    cases h
    refine .leave hpc ?_
    cases hc : k.session.cont
    · exact .inl rfl
    · exact .inr (by simpa [hc] using hb)
  case h_3 hpc => cases h; exact .ret hpc
  case h_4 reason env buf _ =>
    split_ifs at h with ho
    cases h
    exact .callback (by simpa using ho)
  case h_5 => cases h; exact .shutdown
  case h_6 c _ => cases h; exact .recv
  case h_7 => cases h

/-- A callback can come at any time. -/
theorem callback_step {reason : Reason} {env : Env} {buf : Bytes} (ho : reason.opens = false)
    (hw : ∀ w ∈ dataWrites (k.session.handleSession pingPong env reason buf).effects, ok w) :
    (lts pingPong ok).step k (.callback reason env buf)
      { k with session := (k.session.handleSession pingPong env reason buf).session } := by
  have hw' : ∀ w ∈ k.writes pingPong (.callback reason env buf), ok w := hw
  change next pingPong ok k (.callback reason env buf) = some _
  simp only [next, if_pos hw', ho, Bool.false_eq_true, if_false, outcome]

/-- The results of `lws_write` are what they are supposed to be. -/
theorem ok_of_next (h : (lts pingPong ok).step k e k') : ∀ w ∈ k.writes pingPong e, ok w := by
  change next pingPong ok k e = some k' at h
  simp only [next, Option.ite_none_right_eq_some] at h
  exact h.1

/-- **What a step does to the transfer**: a call publishes its buffer, and every other event
transmits at most once. -/
theorem transmits_of_step (h : (lts pingPong ok).step k e k') :
    (∃ data, e = .send data ∧ k.pc = .idle ∧
      k' = ⟨k.session.publish ⟨k.calls, data⟩, .pending ⟨k.calls, data⟩, k.calls + 1⟩) ∨
    (k.published e = none ∧ k'.calls = k.calls ∧ k'.session = (k.outcome pingPong e).session ∧
      k.session.Transmits (k.outcome pingPong e)) := by
  cases step_of_next h with
  | send hpc => exact .inl ⟨_, rfl, hpc, rfl⟩
  | leave | ret => exact .inr ⟨rfl, rfl, rfl, .quiet (.refl _) rfl⟩
  | callback ho => exact .inr ⟨rfl, rfl, rfl, Session.handleSession_transmits ho⟩
  | shutdown | recv => exact .inr ⟨rfl, rfl, rfl, .quiet ⟨rfl, rfl, rfl⟩ rfl⟩

/-- **A step writes data at most once**, from the current buffer at the current offset. -/
theorem writes_of_step (h : (lts pingPong ok).step k e k') : k.writes pingPong e = [] ∨
    ∃ b sent, k.session.sendBuf = some b ∧
      (k.session.sendData sent).session.SameTransfer k'.session ∧
      k.writes pingPong e = [⟨some b, k.session.sendOffset, k.session.chunkLen, sent⟩] := by
  rcases transmits_of_step h with ⟨data, rfl, -, -⟩ | ⟨-, -, hs, ⟨-, hd⟩ | ⟨b, sent, hb, ht, hd⟩⟩
  · exact .inl rfl
  · exact .inl hd
  · exact .inr ⟨b, sent, hb, hs ▸ ht, hd⟩

/-- No step continues a discontinued session. -/
theorem cont_of_step (h : (lts pingPong ok).step k e k') (hc : k'.session.cont = true) :
    k.session.cont = true := by
  cases step_of_next h with
  | send | leave | ret | recv => exact hc
  | callback ho => exact Session.handleSession_cont ho hc
  | shutdown => cases hc

/-! ### Ownership -/

/-- Which buffers `send_buf` may refer to. -/
structure Owned (k : Conn) : Prop where
  /-- Only buffers of calls made so far. -/
  fresh : ∀ b, k.session.sendBuf = some b ∨ k.pc.buf = some b → b.call < k.calls
  /-- During a call only the buffer of this call. -/
  current : ∀ b b', k.pc.buf = some b → k.session.sendBuf = some b' → b' = b
  /-- None outside of the wait loop, while the session continues. -/
  free : k.pc.isPending = false → k.session.cont = true → k.session.sendBuf = none

theorem start_owned (now : ℤ) : (start now).Owned where
  fresh _ h := by rcases h with h | h <;> cases h
  current _ _ h := by cases h
  free _ _ := rfl

/-- Only `usbws_send` sets `send_buf`. -/
theorem Owned.update {s : Session} (h : k.Owned)
    (hb : ∀ b, s.sendBuf = some b → k.session.sendBuf = some b)
    (hc : s.cont = true → k.session.cont = true) : Owned { k with session := s } where
  fresh b hs := h.fresh b (hs.imp_left (hb b))
  current b b' hp hs := h.current b b' hp (hb b' hs)
  free hp hcont := by
    have hnone := h.free hp (hc hcont)
    by_contra hs
    obtain ⟨b, hs⟩ := Option.ne_none_iff_exists'.1 hs
    rw [hb b hs] at hnone
    cases hnone

theorem Owned.step (h : k.Owned) (hst : (lts pingPong ok).step k e k') : k'.Owned := by
  cases step_of_next hst with
  | @send data hpc =>
    have hcur : ∀ b, some (SendBuf.mk k.calls data) = some b → b = ⟨k.calls, data⟩ := by
      intro b hb
      exact (Option.some.inj hb).symm
    refine ⟨?_, ?_, (fun hp => by cases hp)⟩
    · rintro b (hb | hb)
      all_goals
        obtain rfl := hcur b hb
        exact Nat.lt_succ_self _
    · intro b b' hp hb
      rw [hcur b hp, hcur b' hb]
  | @leave b hpc hl =>
    -- the wait loop ends with `send_buf` NULL unless the session is discontinued
    have hbuf : k.pc.buf = some b := by rw [hpc]; rfl
    refine ⟨?_, ?_, ?_⟩
    · intro b' hb'
      exact h.fresh b' (hb'.imp_right fun hp => hbuf.trans hp)
    · intro b₁ b₂ hp hb
      exact h.current b₁ b₂ (hbuf.trans hp) hb
    · intro _ hc
      exact hl.resolve_left fun hn => Bool.false_ne_true (hn.symm.trans hc)
  | @ret b hpc =>
    refine ⟨?_, (fun _ _ hp => by cases hp), ?_⟩
    · rintro b' (hb | hb)
      · exact h.fresh b' (.inl hb)
      · cases hb
    · intro _ hc
      exact h.free (by rw [hpc]; rfl) hc
  | callback ho =>
    exact h.update (fun b hb => (Session.handleSession_transmits ho).sendBuf_eq hb)
      (Session.handleSession_cont ho)
  | shutdown => exact h.update (fun _ hb => hb) fun hc => by cases hc
  | recv => exact h.update (fun _ hb => hb) id

/-- A call that returns leaves everything as it is, and finds `send_buf` NULL if the session
continues. -/
theorem Owned.returned (h : k.Owned) (hst : (lts pingPong ok).step k e k') {x : SendBuf × ℤ}
    (hx : k.returned e = some x) :
    e = .ret ∧ k.pc.buf = some x.1 ∧ x.2 = sendResult k.session ∧ k'.session = k.session ∧
      k'.calls = k.calls ∧ (k.session.cont = true → k.session.sendBuf = none) := by
  cases step_of_next hst with
  | @ret b hpc =>
    simp only [Conn.returned, hpc, Option.some.injEq] at hx
    subst hx
    exact ⟨rfl, by rw [hpc]; rfl, rfl, rfl, rfl, h.free (by rw [hpc]; rfl)⟩
  | _ => cases hx

/-- Only `usbws_send` begins a call. -/
theorem buf_of_step (hst : (lts pingPong ok).step k e k') (hp : k.published e = none)
    {b : SendBuf} (hb : k'.pc.buf = some b) : k.pc.buf = some b := by
  cases step_of_next hst with
  | send => cases hp
  | leave hpc => rw [hpc]; exact hb
  | ret => cases hb
  | callback | shutdown | recv => exact hb

theorem owned_of_exec {now : ℤ} {tr : List Move} (he : (lts pingPong ok).Exec (start now) tr k) :
    k.Owned :=
  he.invariant (start_owned now) fun _ _ _ h hst => h.step hst

end Conn

end Usbws
