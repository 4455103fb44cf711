import Usbws.Context.Frames
import Usbws.Sender.Request

/-!
# Separate assignments and publication in one step

In a connection a call of `usbws_send` publishes its buffer in one step, and
`usbws_handle_send_request` is one step.  A sender makes three assignments, and a thread tests
`send_buf` before it takes the lock.

* `Sender.conn` : the connection that a sender looks like.  A buffer is there from the third
  assignment on.
* `Sender.refines_conn` : every run of timely moves is one of this connection, with the same writes,
  sends and results.
* `Sender.exact_of_timely` : then chunked sending is exact.
-/

namespace Usbws

/-- The buffer with its call numbered from 0, as the calls of a connection are. -/
def SendBuf.renumber (b : SendBuf) : SendBuf := ⟨b.call - 1, b.data⟩

theorem SendBuf.renumber_inj {b b' : SendBuf} (hb : 0 < b.call) (hb' : 0 < b'.call)
    (h : b.renumber = b'.renumber) : b = b' := by
  obtain ⟨n, data⟩ := b
  obtain ⟨n', data'⟩ := b'
  simp only [SendBuf.renumber, SendBuf.mk.injEq] at h hb hb' ⊢
  exact ⟨by omega, h.2⟩

/-- The write with its call numbered from 0. -/
def DataWrite.renumber (w : DataWrite) : DataWrite := { w with buf := w.buf.map SendBuf.renumber }

/-- The session with its call numbered from 0. -/
def Session.renumber (s : Session) : Session := { s with sendBuf := s.sendBuf.map SendBuf.renumber }

/-- The buffer of the call in progress. -/
def SendPc.buf : SendPc → Option SendBuf
  | idle => none
  | bufSet b | lenSet b | published b | tested b | waiting b => some b

/-- What a sender looks like at a program point. -/
def SendPc.coarse : SendPc → CallPc
  | idle | bufSet _ | lenSet _ => .idle
  | published b | tested b | waiting b => .pending b.renumber

namespace Conn

variable {pingPong : ℤ} {ok : DataWrite → Prop} [DecidablePred ok] {k : Conn} {b : SendBuf}

theorem send_step (hp : k.pc = .idle) (data : Bytes) : (lts pingPong ok).step k (.send data)
    ⟨k.session.publish ⟨k.calls, data⟩, .pending ⟨k.calls, data⟩, k.calls + 1⟩ := by
  change next pingPong ok k (.send data) = some _
  have hw : ∀ w ∈ k.writes pingPong (.send data), ok w := fun w hw => by cases hw
  simp only [next, if_pos hw, hp]

theorem ret_step (hp : k.pc = .left b) : (lts pingPong ok).step k .ret { k with pc := .idle } := by
  change next pingPong ok k .ret = some _
  have hw : ∀ w ∈ k.writes pingPong .ret, ok w := fun w hw => by cases hw
  simp only [next, if_pos hw, hp]

end Conn

namespace Sender

variable {T : Type*}

/-- The connection that a sender looks like. -/
def conn (p : Sender T) : Conn where
  session :=
    if p.pc.publishing then { p.session with sendBuf := none, sendLen := 0 }
    else p.session.renumber
  pc := p.pc.coarse
  calls := if p.pc.publishing then p.calls - 2 else p.calls - 1

/-! ### The history of a run -/

/-- The buffer of a call that has made its last assignment. -/
def published (p : Sender T) : Label T → Option SendBuf
  | .setSendOffset =>
    match p.pc with
    | .lenSet b => some b
    | _ => none
  | .publish data => some ⟨p.calls, data⟩
  | _ => none

/-- The call that returns in a step, and its result. -/
def returned (p : Sender T) : Label T → Option (SendBuf × ℤ)
  | .leave =>
    match p.pc with
    | .waiting b => some (b, Conn.sendResult p.session)
    | _ => none
  | _ => none

/-- The data written in a run, oldest first. -/
def writesOf : List (Move T) → List DataWrite
  | [] => []
  | m :: tr => writesOf tr ++ m.pre.writes m.label

/-- The buffers published in a run, oldest first. -/
def sendsOf : List (Move T) → List SendBuf
  | [] => []
  | m :: tr => sendsOf tr ++ (m.pre.published m.label).toList

/-- The calls that have returned in a run, with their results, oldest first. -/
def returnsOf : List (Move T) → List (SendBuf × ℤ)
  | [] => []
  | m :: tr => returnsOf tr ++ (m.pre.returned m.label).toList

/-- The bytes accepted in a run. -/
def wireOf (tr : List (Move T)) : List (Option UInt8) := (writesOf tr).flatMap DataWrite.accepted

/-- The buffer that is being sent. -/
def current (p : Sender T) : Option SendBuf := if p.pc.publishing then none else p.session.sendBuf

/-- The sends of a run whose buffers have been taken as a whole: all but the current one. -/
def completedOf (tr : List (Move T)) (p : Sender T) : List SendBuf :=
  if p.current.isSome then (sendsOf tr).dropLast else sendsOf tr

/-- The first `send_offset` bytes of the current buffer. -/
def sentPart (p : Sender T) : Bytes :=
  p.current.elim [] fun b => b.data.take p.session.sendOffset.toNat

/-- Both have seen the same. -/
structure Agrees (pingPong : ℤ) (tr : List (Move T)) (tr' : List Conn.Move) : Prop where
  writes : Conn.writesOf pingPong tr' = (writesOf tr).map DataWrite.renumber
  sends : Conn.sendsOf tr' = (sendsOf tr).map SendBuf.renumber
  returns : Conn.returnsOf tr' = (returnsOf tr).map fun x => (x.1.renumber, x.2)

/-- What holds of the calls of a sender in a run of timely moves. -/
structure Calls (p : Sender T) : Prop where
  ok : p.Ok
  cont : p.session.cont = true
  free : p.pc = .idle → p.session.sendBuf = none
  /-- A transfer that is finished leaves no length behind. -/
  len : p.session.sendBuf = none → p.session.sendLen = 0
  pos : 0 < p.calls
  buf : ∀ b, p.pc.buf = some b → 0 < b.call
  publishing : p.pc.publishing = true → ∀ b, p.pc.buf = some b → b.call + 1 = p.calls

variable {p p' : Sender T} {l : Label T} {s : Session} {sent : ℤ} {pingPong : ℤ}

/-! ### Numbers of calls -/

theorem sendData_renumber :
    (s.renumber.sendData sent).session = (s.sendData sent).session.renumber ∧
      dataWrites (s.renumber.sendData sent).effects =
        (dataWrites (s.sendData sent).effects).map DataWrite.renumber := by
  rw [Session.sendData_session, Session.sendData_session]
  by_cases h : s.sendLen ≤ s.sendOffset + sent <;>
    simp [Session.renumber, DataWrite.renumber, Session.chunkLen, h]

theorem handleWritable_renumber :
    (s.renumber.handleWritable sent).session = (s.handleWritable sent).session.renumber ∧
      dataWrites (s.renumber.handleWritable sent).effects =
        (dataWrites (s.handleWritable sent).effects).map DataWrite.renumber := by
  unfold Session.handleWritable
  by_cases hb : s.sendBuf.isSome = true
  · simpa [Session.renumber, hb] using
      @sendData_renumber { s with writable := true, pingPending := false } sent
  · by_cases hp : s.pingPending = true <;> simp [Session.renumber, hb, hp]

/-- With a buffer `usbws_handle_send_request` is its locked section. -/
theorem handleSendRequest_of_isSome (hb : s.sendBuf.isSome = true) :
    (s.handleSendRequest sent).session = (s.sendRequestLocked sent).session ∧
      dataWrites (s.handleSendRequest sent).effects =
        dataWrites (s.sendRequestLocked sent).effects := by
  unfold Session.handleSendRequest
  have hn : s.sendBuf.isNone = false := by simpa [← Option.not_isSome] using hb
  simp only [hn, Bool.false_eq_true, if_false]
  split_ifs with hret
  · refine ⟨rfl, ?_⟩
    rw [dataWrites_append]
    exact List.append_nil _
  · exact ⟨rfl, rfl⟩

/-- A thread that has found a buffer, or does not find the socket writable, does in its locked
section what `usbws_handle_send_request` does in one step. -/
theorem handleSendRequest_renumber (h : s.sendBuf.isSome = true ∨ s.writable = false) :
    (s.renumber.handleSendRequest sent).session =
        (s.sendRequestLocked sent).session.renumber ∧
      dataWrites (s.renumber.handleSendRequest sent).effects =
        (dataWrites (s.sendRequestLocked sent).effects).map DataWrite.renumber := by
  by_cases hb : s.sendBuf.isSome = true
  · obtain ⟨hs, hd⟩ := @handleSendRequest_of_isSome s.renumber sent (by simpa [Session.renumber])
    rw [hs, hd]
    unfold Session.sendRequestLocked
    by_cases hw : s.writable = true
    · simpa [Session.renumber, hw] using @sendData_renumber s sent
    · simp [Session.renumber, hw]
  · have hw := h.resolve_left hb
    have hn : s.sendBuf = none := by simpa using hb
    simp [Session.handleSendRequest, Session.sendRequestLocked, Session.renumber, hn, hw]

theorem sendRequestLocked_keeps : s.Keeps (s.sendRequestLocked sent).session := by
  unfold Session.sendRequestLocked
  split_ifs <;> constructor <;> simp

/-! ### The calls -/

theorem start_calls (now : ℤ) : (start T now).Calls where
  ok := start_ok now
  cont := rfl
  free _ := rfl
  len _ := rfl
  pos := Nat.one_pos
  buf _ hb := by cases hb
  publishing hp := by cases hp

/-- A transmission leaves the calls as they are. -/
theorem Calls.transmit {pc : SendPc} {others : T → Bool} {o : Outcome} (h : p.Calls)
    (hk : p.session.Keeps o.session) (ht : p.session.Transmits o)
    (hpc : pc = .idle → p.pc = .idle) (hbuf : pc.buf = p.pc.buf)
    (hpub : pc.publishing = p.pc.publishing)
    (hok : Ok { p with session := o.session, pc := pc, others := others }) :
    Calls { p with session := o.session, pc := pc, others := others } := by
  refine ⟨hok, hk.cont.trans h.cont, fun hi => ?_, fun hn => ?_, h.pos,
    fun b hb => h.buf b (hbuf ▸ hb), fun hp b hb => h.publishing (hpub ▸ hp) b (hbuf ▸ hb)⟩
  · by_contra hsome
    obtain ⟨b, hb⟩ := Option.ne_none_iff_exists'.1 hsome
    have hfree := h.free (hpc hi)
    rw [ht.sendBuf_eq hb] at hfree
    cases hfree
  · rcases ht with ⟨⟨hb, hl, -⟩, -⟩ | ⟨b, sent, hb, ⟨hb', hl', -⟩, -⟩
    · exact hl.trans (h.len (hb ▸ hn))
    · rw [hb', Session.sendData_session] at hn
      rw [hl', Session.sendData_session]
      by_cases hdone : p.session.sendLen ≤ p.session.sendOffset + sent
      · simp [hdone]
      · simp [hdone, hb] at hn

variable [DecidableEq T]

/-- **A timely move leaves the calls in order.** -/
theorem Calls.step (h : p.Calls) (hst : (lts T).step p l p') (hm : Timely ⟨p, l, p'⟩) :
    p'.Calls := by
  have hok := h.ok.step hst hm
  have hbuf := h.buf
  have hpub := h.publishing
  cases step_of_next hst with
  | setSendBuf hpc =>
    refine ⟨hok, h.cont, nofun, nofun, Nat.succ_pos _, fun b hb => ?_, fun _ b hb => ?_⟩ <;>
      cases hb
    · exact h.pos
    · rfl
  | setSendLen hpc =>
    rw [hpc] at hbuf hpub
    refine ⟨hok, h.cont, nofun, fun hn => ?_, h.pos, hbuf, fun _ => hpub rfl⟩
    have hsome := (hok.lenSet _ rfl).1
    rw [hn] at hsome
    cases hsome
  | setSendOffset hpc =>
    rw [hpc] at hbuf
    exact ⟨hok, h.cont, nofun, h.len, h.pos, hbuf, nofun⟩
  | publish hpc =>
    refine ⟨hok, h.cont, nofun, nofun, Nat.succ_pos _, fun b hb => ?_, nofun⟩
    cases hb
    exact h.pos
  | testNull hpc | test hpc =>
    rw [hpc] at hbuf
    exact ⟨hok, h.cont, nofun, h.len, h.pos, hbuf, nofun⟩
  | leave hpc hb =>
    have hnone : p.session.sendBuf = none := hb.resolve_left (by simp [h.cont])
    exact ⟨hok, h.cont, fun _ => hnone, h.len, h.pos, nofun, nofun⟩
  | otherTest => exact ⟨hok, h.cont, h.free, h.len, h.pos, h.buf, h.publishing⟩
  | locked hpc =>
    have hreq := h.ok.requested (.inl (by rw [hpc]; rfl))
    exact h.transmit sendRequestLocked_keeps (Session.sendRequestLocked_transmits hreq) nofun
      (by rw [hpc]; rfl) (by rw [hpc]; rfl) hok
  | otherLocked ht =>
    have hreq := h.ok.requested (.inr ⟨_, ht⟩)
    exact h.transmit sendRequestLocked_keeps (Session.sendRequestLocked_transmits hreq) id rfl rfl
      hok
  | writeable =>
    exact h.transmit Session.handleWritable_keeps Session.handleWritable_transmits id rfl rfl hok

/-! ### The connection -/

omit [DecidableEq T] in
/-- Nothing is seen of a step. -/
theorem Agrees.skip {tr : List (Move T)} {tr' : List Conn.Move} (h : Agrees pingPong tr tr')
    (hw : p.writes l = []) (hp : p.published l = none) (hr : p.returned l = none) :
    Agrees pingPong (⟨p, l, p'⟩ :: tr) tr' := by
  refine ⟨?_, ?_, ?_⟩
  · rw [writesOf, hw, List.append_nil]
    exact h.writes
  · rw [sendsOf, hp, Option.toList_none, List.append_nil]
    exact h.sends
  · rw [returnsOf, hr, Option.toList_none, List.append_nil]
    exact h.returns

omit [DecidableEq T] in
/-- A step and an event with the same writes, sends and results. -/
theorem Agrees.cons {tr : List (Move T)} {tr' : List Conn.Move} {k k' : Conn} {e : Event}
    (h : Agrees pingPong tr tr') (hw : k.writes pingPong e = (p.writes l).map DataWrite.renumber)
    (hp : k.published e = (p.published l).map SendBuf.renumber)
    (hr : k.returned e = (p.returned l).map fun x => (x.1.renumber, x.2)) :
    Agrees pingPong (⟨p, l, p'⟩ :: tr) (⟨k, e, k'⟩ :: tr') := by
  refine ⟨?_, ?_, ?_⟩
  · rw [writesOf, Conn.writesOf, List.map_append, h.writes, hw]
  · rw [sendsOf, Conn.sendsOf, List.map_append, h.sends, hp, Option.toList_map]
  · rw [returnsOf, Conn.returnsOf, List.map_append, h.returns, hr, Option.toList_map]

/-- The steps of a connection that match a step. -/
def Matched (pingPong : ℤ) (ok : DataWrite → Prop) [DecidablePred ok] (m : Move T) : Prop :=
  ∃ run, (Conn.lts pingPong ok).Exec m.pre.conn run m.post.conn ∧
    ∀ tr tr', Agrees pingPong tr tr' → Agrees pingPong (m :: tr) (run ++ tr')

variable {ok : DataWrite → Prop} [DecidablePred ok]

omit [DecidableEq T] in
theorem matched_skip (hc : p'.conn = p.conn) (hw : p.writes l = []) (hp : p.published l = none)
    (hr : p.returned l = none) : Matched pingPong ok ⟨p, l, p'⟩ :=
  ⟨[], hc ▸ .nil, fun _ _ h => h.skip hw hp hr⟩

omit [DecidableEq T] in
theorem matched_single {e : Event} (hst : (Conn.lts pingPong ok).step p.conn e p'.conn)
    (hw : p.conn.writes pingPong e = (p.writes l).map DataWrite.renumber)
    (hp : p.conn.published e = (p.published l).map SendBuf.renumber)
    (hr : p.conn.returned e = (p.returned l).map fun x => (x.1.renumber, x.2)) :
    Matched pingPong ok ⟨p, l, p'⟩ :=
  ⟨[⟨p.conn, e, p'.conn⟩], .snoc .nil hst, fun _ _ h => h.cons hw hp hr⟩

omit [DecidableEq T] in
/-- The first assignment is not seen yet. -/
theorem Calls.conn_setSendBuf (h : p.Calls) (hpc : p.pc = .idle) (data : Bytes) :
    conn { p with
      session := p.session.setSendBuf ⟨p.calls, data⟩, pc := .bufSet ⟨p.calls, data⟩
      calls := p.calls + 1 } = p.conn := by
  have hb := h.free hpc
  simp [conn, hpc, SendPc.publishing, SendPc.coarse, Session.renumber, Session.setSendBuf, hb,
    h.len hb]

omit [DecidableEq T] in
/-- The three assignments at once. -/
theorem Calls.conn_publish (h : p.Calls) (hpc : p.pc = .idle) (data : Bytes) :
    conn { p with
      session := p.session.publish ⟨p.calls, data⟩, pc := .published ⟨p.calls, data⟩
      calls := p.calls + 1, lenOf := p.calls, offOf := p.calls } =
      ⟨p.conn.session.publish (SendBuf.renumber ⟨p.calls, data⟩),
        .pending (SendBuf.renumber ⟨p.calls, data⟩), p.conn.calls + 1⟩ ∧
    SendBuf.renumber ⟨p.calls, data⟩ = ⟨p.conn.calls, data⟩ := by
  have hpos := h.pos
  constructor
  · simp only [conn, hpc, SendPc.publishing, SendPc.coarse, Session.renumber, Session.setSendBuf,
      Session.setSendLen, Session.setSendOffset, Session.publish, SendBuf.renumber,
      Bool.false_eq_true, if_false, Option.map_some, Conn.mk.injEq, true_and]
    omega
  · simp [SendBuf.renumber, conn, hpc, SendPc.publishing]

omit [DecidableEq T] in
/-- With the third assignment the buffer is there. -/
theorem Calls.conn_setSendOffset {b : SendBuf} (h : p.Calls) (hpc : p.pc = .lenSet b) :
    conn { p with session := p.session.setSendOffset, pc := .published b, offOf := b.call } =
      ⟨p.conn.session.publish b.renumber, .pending b.renumber, p.conn.calls + 1⟩ ∧
    b.renumber = ⟨p.conn.calls, b.data⟩ := by
  obtain ⟨hb, -, hlen⟩ := h.ok.lenSet b hpc
  have hpos := h.buf b (by rw [hpc]; rfl)
  have hcalls := h.publishing (by rw [hpc]; rfl) b (by rw [hpc]; rfl)
  constructor
  · simp only [conn, hpc, SendPc.publishing, SendPc.coarse, Session.renumber, Session.setSendBuf,
      Session.setSendLen, Session.setSendOffset, Session.publish, SendBuf.renumber, hb, hlen,
      Bool.false_eq_true, if_false, if_true, Option.map_some, Conn.mk.injEq, true_and]
    omega
  · simp only [SendBuf.renumber, conn, hpc, SendPc.publishing, if_true, SendBuf.mk.injEq, and_true]
    omega

omit [DecidableEq T] in
/-- Outside of the assignments. -/
theorem conn_of_not_publishing (h : p.pc.publishing = false) :
    p.conn = ⟨p.session.renumber, p.pc.coarse, p.calls - 1⟩ := by
  simp [conn, h]

omit [DecidableEq T] in
/-- A call that leaves its wait loop returns in the same step. -/
theorem matched_leave {b : SendBuf} (hpc : p.pc = .waiting b) (hb : p.session.sendBuf = none) :
    Matched pingPong ok ⟨p, .leave, { p with pc := .idle }⟩ := by
  have hconn := @conn_of_not_publishing _ p (by rw [hpc]; rfl)
  have hpend : p.conn.pc = .pending b.renumber := by
    rw [hconn, hpc]
    rfl
  have hbuf : p.conn.session.sendBuf = none := by
    rw [hconn]
    simp [Session.renumber, hb]
  have hleave := @Conn.leave_step pingPong p.conn b.renumber ok _ hpend hbuf
  have hidle : conn { p with pc := .idle } = { p.conn with pc := .idle } := by
    rw [hconn, conn_of_not_publishing rfl]
    rfl
  have hret : (Conn.lts pingPong ok).step { p.conn with pc := .left b.renumber } .ret
      (conn { p with pc := .idle }) := hidle ▸ Conn.ret_step rfl
  refine ⟨_, (LTS.Exec.nil.snoc hleave).snoc hret, fun tr tr' h => ?_⟩
  have hres : Conn.sendResult p.conn.session = Conn.sendResult p.session := by
    rw [hconn]
    rfl
  refine ⟨?_, ?_, ?_⟩
  · simpa [Conn.writesOf, Conn.writes, Conn.outcome, writesOf, writes, outcome] using h.writes
  · simpa [Conn.sendsOf, Conn.published, sendsOf, published] using h.sends
  · simp [Conn.returnsOf, Conn.returned, returnsOf, returned, hpc, h.returns, hres]

omit [DecidableEq T] in
/-- A step in which a call of the connection publishes its buffer. -/
theorem matched_send {b : SendBuf} (hpc : p.conn.pc = .idle) (hw : p.writes l = [])
    (hp : p.published l = some b) (hr : p.returned l = none)
    (hb : b.renumber = ⟨p.conn.calls, b.data⟩)
    (hc : p'.conn = ⟨p.conn.session.publish b.renumber, .pending b.renumber, p.conn.calls + 1⟩) :
    Matched pingPong ok ⟨p, l, p'⟩ := by
  have hstep : (Conn.lts pingPong ok).step p.conn (.send b.data) p'.conn := by
    rw [hc, hb]
    exact Conn.send_step hpc b.data
  refine matched_single hstep ?_ ?_ ?_
  · rw [hw]
    rfl
  · rw [hp, Option.map_some, hb]
    rfl
  · rw [hr]
    rfl

omit [DecidableEq T] in
/-- A callback that does what a step does. -/
theorem matched_callback {reason : Reason} {o : Outcome} {pc : SendPc} {others : T → Bool}
    (ho : reason.opens = false) (hp : p.pc.publishing = false) (hpc : pc.publishing = false)
    (hcoarse : pc.coarse = p.pc.coarse) (hl : p.outcome l = o)
    (hok : ∀ w ∈ p.writes l, ok w.renumber) (hpub : p.published l = none)
    (hret : p.returned l = none)
    (hs : (p.session.renumber.handleSession pingPong { sent := sent } reason []).session =
      o.session.renumber)
    (hd : dataWrites
        (p.session.renumber.handleSession pingPong { sent := sent } reason []).effects =
      (dataWrites o.effects).map DataWrite.renumber) :
    Matched pingPong ok ⟨p, l, { p with session := o.session, pc := pc, others := others }⟩ := by
  have hconn := conn_of_not_publishing hp
  have hwrites : p.conn.writes pingPong (.callback reason { sent := sent } []) =
      (p.writes l).map DataWrite.renumber := by
    rw [hconn, Conn.writes, Conn.outcome, writes, hl]
    exact hd
  have hstep : (Conn.lts pingPong ok).step p.conn (.callback reason { sent := sent } [])
      (conn { p with session := o.session, pc := pc, others := others }) := by
    have hnext : conn { p with session := o.session, pc := pc, others := others } =
        { p.conn with session :=
            (p.conn.session.handleSession pingPong { sent := sent } reason []).session } := by
      rw [hconn, hs]
      simp [conn, hpc, hcoarse]
    rw [hnext]
    refine Conn.callback_step ho fun w hw => ?_
    have hmem : w ∈ (p.writes l).map DataWrite.renumber := hwrites ▸ hw
    obtain ⟨w', hw', rfl⟩ := List.mem_map.1 hmem
    exact hok w' hw'
  refine matched_single hstep hwrites ?_ ?_
  · rw [hpub]
    rfl
  · rw [hret]
    rfl

/-- **Each timely move is matched by the connection.** -/
theorem Calls.matched (h : p.Calls) (hst : (lts T).step p l p') (hm : Timely ⟨p, l, p'⟩)
    (hok : ∀ w ∈ p.writes l, ok w.renumber) : Matched pingPong ok ⟨p, l, p'⟩ := by
  have hok' := h.ok.step hst hm
  cases step_of_next hst with
  | setSendBuf hpc => exact matched_skip (h.conn_setSendBuf hpc _) rfl rfl rfl
  | setSendLen hpc =>
    refine matched_skip ?_ rfl rfl rfl
    simp [conn, hpc, SendPc.publishing, SendPc.coarse, Session.setSendLen]
  | setSendOffset hpc =>
    obtain ⟨hconn, hb⟩ := h.conn_setSendOffset hpc
    exact matched_send (by simp [conn, hpc, SendPc.coarse]) rfl (by simp [published, hpc]) rfl hb
      hconn
  | @publish data hpc =>
    obtain ⟨hconn, hb⟩ := h.conn_publish hpc data
    exact @matched_send _ p _ _ pingPong ok _ ⟨p.calls, data⟩ (by simp [conn, hpc, SendPc.coarse])
      rfl rfl rfl hb hconn
  | testNull hpc | test hpc =>
    refine matched_skip ?_ rfl rfl rfl
    simp [conn, hpc, SendPc.publishing, SendPc.coarse]
  | leave hpc hb =>
    have hnone : p.session.sendBuf = none := hb.resolve_left (by simp [h.cont])
    exact matched_leave hpc hnone
  | otherTest => exact matched_skip rfl rfl rfl rfl
  | @locked b sent hpc hw =>
    have hreq := h.ok.requested (.inl (by rw [hpc]; rfl))
    obtain ⟨hs, hd⟩ := @handleSendRequest_renumber p.session sent hreq
    exact @matched_callback _ p _ sent pingPong ok _ .sendRequest _ (.waiting b) p.others rfl
      (by rw [hpc]; rfl) rfl (by rw [hpc]; rfl) rfl hok rfl rfl hs hd
  | @otherLocked t sent ht =>
    by_cases hpub : p.pc.publishing = true
    · -- between two assignments the socket is not found writable
      have hw : p.session.writable = false := by
        by_contra hwr
        rw [Bool.not_eq_false] at hwr
        exact absurd (hm.published hwr) (by simp [hpub])
      have hquiet : p.session.sendRequestLocked sent = ⟨p.session, [], 0⟩ := by
        simp [Session.sendRequestLocked, hw]
      exact matched_skip (by rw [hquiet]; rfl) (by simp [writes, outcome, hquiet]) rfl rfl
    · rw [Bool.not_eq_true] at hpub
      obtain ⟨hs, hd⟩ := @handleSendRequest_renumber p.session sent (h.ok.requested (.inr ⟨t, ht⟩))
      exact @matched_callback _ p _ sent pingPong ok _ .sendRequest _ p.pc _ rfl hpub hpub rfl rfl
        hok rfl rfl hs hd
  | @writeable sent =>
    have hpub : p.pc.publishing = false := by
      by_contra hp
      rw [Bool.not_eq_false] at hp
      exact absurd (hm.published (h.ok.isSome_of_publishing hp)) (by simp [hp])
    obtain ⟨hs, hd⟩ := @handleWritable_renumber p.session sent
    exact @matched_callback _ p _ sent pingPong ok _ .serverWriteable _ p.pc p.others rfl hpub hpub
      rfl rfl hok rfl rfl hs hd

variable {tr : List (Move T)} {now : ℤ}

/-- **The assignments refine the publication in one step.**  Every run of timely moves, with any
number of threads, is one of the connection: with the same writes, sends and results. -/
theorem refines_conn (pingPong : ℤ) (he : (lts T).Exec (start T now) tr p)
    (hC : ∀ m ∈ tr, Timely m) (hok : ∀ m ∈ tr, ∀ w ∈ m.pre.writes m.label, ok w.renumber) :
    ∃ tr', (Conn.lts pingPong ok).Exec (Conn.start now) tr' p.conn ∧ Agrees pingPong tr tr' := by
  have hrun := he.simulate_of_moves (B := Conn.lts pingPong ok) (I := Calls)
    (C := fun m => Timely m ∧ ∀ w ∈ m.pre.writes m.label, ok w.renumber) (Q := Agrees pingPong)
    conn (fun m hm => ⟨hC m hm, hok m hm⟩) (start_calls now) ⟨rfl, rfl, rfl⟩
    fun p l p' h hst hm => ⟨h.step hst hm.1, h.matched hst hm.1 hm.2⟩
  exact hrun.2

/-- A call whose first byte is sent by another thread that has tested `send_buf` between two of the
assignments, and a call of the connection that returns the same. -/
theorem refines_conn_of_two_threads : ∃ tr p tr', (lts Bool).Exec (start Bool 0) tr p ∧
    (Conn.lts 0 DataWrite.Valid).Exec (Conn.start 0) tr' p.conn ∧
    Conn.returnsOf tr' = [(⟨0, [1, 2]⟩, 2)] := by
  obtain ⟨tr, p, he, hr, hC, hv⟩ : ∃ tr p, (lts Bool).Exec (start Bool 0) tr p ∧
      returnsOf tr = [(⟨1, [1, 2]⟩, 2)] ∧ (∀ m ∈ tr, Timely m) ∧
      ∀ m ∈ tr, ∀ w ∈ m.pre.writes m.label, w.renumber.Valid :=
    LTS.exists_exec_of_replay
      [.writeable 0, .setSendBuf [1, 2], .setSendLen, .otherTest true, .setSendOffset, .test,
        .otherLocked true 1, .locked 0, .writeable 1, .leave] _ (fun _ _ _ h => h) (by decide)
  obtain ⟨tr', he', h⟩ := refines_conn 0 he hC hv
  exact ⟨tr, p, tr', he, he', by rw [h.returns, hr]; rfl⟩

/-! ### Chunked sending -/

omit [DecidableEq T] in
theorem mem_writesOf {w : DataWrite} : w ∈ writesOf tr ↔ ∃ m ∈ tr, w ∈ m.pre.writes m.label := by
  induction tr with
  | nil => simp [writesOf]
  | cons m tr ih =>
    simp only [writesOf, List.mem_append, ih, List.mem_cons, exists_eq_or_imp]
    exact or_comm

omit [DecidableEq T] in
theorem Calls.pos_of_published {b : SendBuf} (h : p.Calls) (hb : p.published l = some b) :
    0 < b.call := by
  unfold published at hb
  split at hb
  · split at hb
    · rename_i hpc
      cases hb
      exact h.buf b (by rw [hpc]; rfl)
    · cases hb
  · cases hb
    exact h.pos
  · cases hb

omit [DecidableEq T] in
theorem Calls.pos_of_returned {x : SendBuf × ℤ} (h : p.Calls) (hx : p.returned l = some x) :
    0 < x.1.call := by
  unfold returned at hx
  split at hx
  · split at hx
    · rename_i b hpc
      cases hx
      exact h.buf b (by rw [hpc]; rfl)
    · cases hx
  · cases hx

/-- The calls are numbered from 1. -/
theorem pos_of_timely (he : (lts T).Exec (start T now) tr p) (hC : ∀ m ∈ tr, Timely m) :
    (∀ b ∈ sendsOf tr, 0 < b.call) ∧ ∀ x ∈ returnsOf tr, 0 < x.1.call := by
  have hmoves : ∀ m ∈ tr, (∀ b ∈ m.pre.published m.label, 0 < b.call) ∧
      ∀ x ∈ m.pre.returned m.label, 0 < x.1.call := by
    exact he.forall_moves hC (start_calls now) (fun _ _ _ h hst hm => h.step hst hm)
      fun _ _ _ h _ _ => ⟨fun _ hb => h.pos_of_published hb, fun _ hx => h.pos_of_returned hx⟩
  clear he hC
  induction tr with
  | nil => exact ⟨nofun, nofun⟩
  | cons m tr ih =>
    rw [List.forall_mem_cons] at hmoves
    obtain ⟨⟨hp, hr⟩, hmoves⟩ := hmoves
    obtain ⟨hps, hrs⟩ := ih hmoves
    exact ⟨fun b hb => (List.mem_append.1 hb).elim (hps b) fun hb => hp b (Option.mem_toList.1 hb),
      fun x hx => (List.mem_append.1 hx).elim (hrs x) fun hx => hr x (Option.mem_toList.1 hx)⟩

omit [DecidableEq T] in
theorem wireOf_eq {tr' : List Conn.Move} (h : Agrees pingPong tr tr') :
    Conn.wireOf pingPong tr' = wireOf tr := by
  rw [Conn.wireOf, h.writes, wireOf, List.flatMap_map]
  refine List.flatMap_congr fun w _ => ?_
  cases hb : w.buf <;> simp [DataWrite.accepted, DataWrite.chunk, DataWrite.renumber, hb,
    SendBuf.renumber, SendBuf.peek]

omit [DecidableEq T] in
theorem completedOf_eq {tr' : List Conn.Move} (h : Agrees pingPong tr tr') :
    Conn.completedOf tr' p.conn = (completedOf tr p).map SendBuf.renumber := by
  have hsome : p.conn.session.sendBuf.isSome = p.current.isSome := by
    unfold conn current
    by_cases hp : p.pc.publishing = true <;> simp [hp, Session.renumber]
  rw [Conn.completedOf, completedOf, hsome, h.sends]
  split_ifs
  · exact List.map_dropLast.symm
  · rfl

omit [DecidableEq T] in
theorem sentPart_eq (p : Sender T) : Conn.sentPart p.conn = sentPart p := by
  unfold Conn.sentPart sentPart conn current
  by_cases hp : p.pc.publishing = true
  · simp [hp]
  · cases hb : p.session.sendBuf <;> simp [hp, hb, Session.renumber, SendBuf.renumber]

omit [DecidableEq T] in
theorem completedOf_subset : completedOf tr p ⊆ sendsOf tr := by
  unfold completedOf
  split_ifs
  · exact List.dropLast_subset _
  · exact fun _ h => h

/-- **Chunked sending is exact with separate assignments, too.**  In every run of timely moves in
which `lws_write` always accepts some prefix, and with any number of threads: the bytes accepted are
those of the completed sends and the first `send_offset` bytes of the current one, each write offers
at most 1500 bytes, and every call that has returned has completed and has returned its length. -/
theorem exact_of_timely (he : (lts T).Exec (start T now) tr p) (hC : ∀ m ∈ tr, Timely m)
    (hacc : ∀ m ∈ tr, ∀ w ∈ m.pre.writes m.label, w.Accepting) :
    wireOf tr = (((completedOf tr p).map SendBuf.data).flatten ++ sentPart p).map some ∧
      (∀ w ∈ writesOf tr, w.bytes ≤ 1500) ∧
      ∀ x ∈ returnsOf tr, x.2 = x.1.data.length ∧ x.1 ∈ completedOf tr p := by
  obtain ⟨tr', he', h⟩ := @refines_conn T p _ DataWrite.Accepting _ tr now 0 he hC hacc
  have hcont : p.conn.session.cont = true := by
    have hcalls : p.Calls := he.invariant_of_moves hC (start_calls now)
      fun _ _ _ h hst hm => h.step hst hm
    unfold conn
    by_cases hp : p.pc.publishing = true <;> simp [hp, Session.renumber, hcalls.cont]
  obtain ⟨ch, -, href⟩ := Conn.exists_refines he' hcont
  have hwire := href.wire_eq
  rw [wireOf_eq h, completedOf_eq h, sentPart_eq] at hwire
  refine ⟨?_, fun w hw => ?_, fun x hx => ?_⟩
  · rw [hwire, List.map_map]
    rfl
  · have hb := Conn.bytes_le he' w.renumber (by rw [h.writes]; exact List.mem_map_of_mem hw)
    exact hb
  · obtain ⟨hlen, hmem⟩ := href.returned (x.1.renumber, x.2)
      (by rw [h.returns]; exact List.mem_map_of_mem hx)
    refine ⟨hlen, ?_⟩
    rw [completedOf_eq h] at hmem
    obtain ⟨b, hb, heq⟩ := List.mem_map.1 hmem
    have hpos := (pos_of_timely he hC).2 x hx
    have hpos' := (pos_of_timely he hC).1 b (completedOf_subset hb)
    rwa [← SendBuf.renumber_inj hpos' hpos heq]

/-- A call that has returned, and a call between its assignments. -/
theorem exact_of_two_calls : ∃ tr p, (lts Unit).Exec (start Unit 0) tr p ∧ p.pc = .lenSet ⟨2, [3]⟩ ∧
    wireOf tr = [some 1, some 2] ∧
    wireOf tr = (((completedOf tr p).map SendBuf.data).flatten ++ sentPart p).map some := by
  obtain ⟨tr, p, he, hpc, hw, hC, hacc⟩ : ∃ tr p, (lts Unit).Exec (start Unit 0) tr p ∧
      p.pc = .lenSet ⟨2, [3]⟩ ∧ wireOf tr = [some 1, some 2] ∧ (∀ m ∈ tr, Timely m) ∧
      ∀ m ∈ tr, ∀ w ∈ m.pre.writes m.label, w.Accepting :=
    LTS.exists_exec_of_replay
      [.setSendBuf [1, 2], .setSendLen, .setSendOffset, .test, .otherTest (), .writeable 1,
        .locked 0, .otherLocked () 0, .writeable 1, .leave, .setSendBuf [3], .setSendLen]
      _ (fun _ _ _ h => h) (by decide)
  exact ⟨tr, p, he, hpc, hw, (exact_of_timely he hC hacc).1⟩

end Sender

end Usbws
