import Usbws.Session.Basic

/-!
# Transmitting

The functions of `usbws_session.c` that write to the socket: `__send_data`,
`usbws_handle_send_request`, `__send_ping`, `usbws_send_ping`, `usbws_handle_writable`, and the
assignments by which `usbws_send` publishes a buffer.

Everything later results need about the transfer fields is in `Session.Transmits`: a call
either leaves `send_buf`, `send_len` and `send_offset` alone and writes no data, or it runs
`__send_data` once on a non-NULL `send_buf`.
-/

namespace Usbws

namespace Session

/-! ### The functions -/

/-- `SEND_CONTENT`. -/
def sendContent : ℤ := 1500

/-- The number of bytes `__send_data` offers to `lws_write`. -/
def chunkLen (s : Session) : ℤ :=
  let bytes := s.sendLen - s.sendOffset
  if bytes > sendContent then sendContent else bytes

/-- `__send_data`; `sent` is the result of `lws_write`. -/
def sendData (s : Session) (sent : ℤ) : Outcome :=
  let w : DataWrite := ⟨s.sendBuf, s.sendOffset, s.chunkLen, sent⟩
  let s := { s with sendOffset := s.sendOffset + sent }
  if s.sendOffset ≥ s.sendLen then
    ⟨{ s with sendBuf := none, sendLen := 0, writable := false },
      [.writeBinary w, .signalSendComplete, .callbackOnWritable], sent⟩
  else
    ⟨{ s with writable := false }, [.writeBinary w, .callbackOnWritable], sent⟩

/-- The section of `usbws_handle_send_request` under `writable_lock`. -/
def sendRequestLocked (s : Session) (sent : ℤ) : Outcome :=
  if s.writable then s.sendData sent else ⟨s, [], 0⟩

/-- `usbws_handle_send_request`. -/
def handleSendRequest (s : Session) (sent : ℤ) : Outcome :=
  if s.sendBuf.isNone then ⟨s, [], 0⟩
  else
    let o := s.sendRequestLocked sent
    if o.ret = 0 then { o with effects := o.effects ++ [.cancelService] } else o

/-- `__send_ping`. -/
def sendPing (s : Session) (sent : ℤ) : Outcome :=
  let s := if sent > 0 then { s with pinged := true } else s
  ⟨{ s with writable := false }, [.writePing sent, .callbackOnWritable], sent⟩

/-- `usbws_send_ping`. -/
def usbwsSendPing (s : Session) (sent : ℤ) : Outcome :=
  let o := if s.writable then s.sendPing sent else ⟨s, [], 0⟩
  if o.ret = 0 then { o with session := { o.session with pingPending := true } } else o

/-- `usbws_handle_writable`. -/
def handleWritable (s : Session) (sent : ℤ) : Outcome :=
  let s := { s with writable := true }
  if s.sendBuf.isSome then { s with pingPending := false }.sendData sent
  else if s.pingPending then { s with pingPending := false }.sendPing sent
  else ⟨s, [], 0⟩

/-- `session->send_buf = buf` in `usbws_send`. -/
def setSendBuf (s : Session) (b : SendBuf) : Session := { s with sendBuf := some b }

/-- `session->send_len = len` in `usbws_send`. -/
def setSendLen (s : Session) (b : SendBuf) : Session := { s with sendLen := b.data.length }

/-- `session->send_offset = 0` in `usbws_send`. -/
def setSendOffset (s : Session) : Session := { s with sendOffset := 0 }

/-- The three assignments of `usbws_send` together. -/
def publish (s : Session) (b : SendBuf) : Session := ((s.setSendBuf b).setSendLen b).setSendOffset

/-! ### What `__send_data` does -/

variable (s : Session) (sent : ℤ)

/-- The session after `__send_data`: the transfer is finished exactly when the new offset
reaches `send_len`. -/
@[simp] theorem sendData_session : (s.sendData sent).session =
    { s with
      sendBuf := if s.sendLen ≤ s.sendOffset + sent then none else s.sendBuf
      sendLen := if s.sendLen ≤ s.sendOffset + sent then 0 else s.sendLen
      sendOffset := s.sendOffset + sent
      writable := false } := by
  simp only [sendData, ge_iff_le]
  split_ifs <;> rfl

/-- The transfer goes on exactly while the new offset is below `send_len`. -/
theorem isSome_sendData_sendBuf : (s.sendData sent).session.sendBuf.isSome = true ↔
    s.sendBuf.isSome = true ∧ s.sendOffset + sent < s.sendLen := by
  rw [sendData_session]
  by_cases h : s.sendLen ≤ s.sendOffset + sent
  · simp [h]
  · simp [h, Int.not_le.1 h]

@[simp] theorem dataWrites_sendData : dataWrites (s.sendData sent).effects =
    [⟨s.sendBuf, s.sendOffset, s.chunkLen, sent⟩] := by
  simp only [sendData, ge_iff_le]
  split_ifs <;> rfl

@[simp] theorem sendData_ret : (s.sendData sent).ret = sent := by
  simp only [sendData, ge_iff_le]
  split_ifs <;> rfl

theorem chunkLen_le_sendContent : s.chunkLen ≤ sendContent := by
  simp only [chunkLen]; split_ifs <;> omega

theorem chunkLen_le_rest : s.chunkLen ≤ s.sendLen - s.sendOffset := by
  simp only [chunkLen]; split_ifs <;> omega

/-- While the offset is within the transfer, the chunk size is not negative. -/
theorem chunkLen_nonneg {s : Session} (h : s.sendOffset ≤ s.sendLen) : 0 ≤ s.chunkLen := by
  simp only [chunkLen, sendContent]; split_ifs <;> omega

/-! ### What a call can do to the transfer -/

variable {s} {sent}

/-- The transfer fields agree. -/
def SameTransfer (s s' : Session) : Prop :=
  s'.sendBuf = s.sendBuf ∧ s'.sendLen = s.sendLen ∧ s'.sendOffset = s.sendOffset

theorem SameTransfer.refl (s : Session) : s.SameTransfer s := ⟨rfl, rfl, rfl⟩

/-- What a call may do to the transfer of a session: nothing, or one `__send_data`. -/
inductive Transmits (s : Session) (o : Outcome) : Prop
  | quiet : s.SameTransfer o.session → dataWrites o.effects = [] → Transmits s o
  | wrote (b : SendBuf) (sent : ℤ) : s.sendBuf = some b →
      (s.sendData sent).session.SameTransfer o.session →
      dataWrites o.effects = [⟨some b, s.sendOffset, s.chunkLen, sent⟩] → Transmits s o

theorem Transmits.of_sendData {b : SendBuf} (hb : s.sendBuf = some b) :
    s.Transmits (s.sendData sent) :=
  .wrote b sent hb (.refl _) (by rw [dataWrites_sendData, hb])

theorem handleSendRequest_transmits : s.Transmits (s.handleSendRequest sent) := by
  unfold handleSendRequest
  cases hb : s.sendBuf with
  | none => exact .quiet (.refl _) rfl
  | some b =>
    simp only [Option.isNone_some, Bool.false_eq_true, ↓reduceIte, sendRequestLocked]
    by_cases hw : s.writable = true
    · simp only [hw, ↓reduceIte]
      have h : s.Transmits (s.sendData sent) := .of_sendData hb
      obtain ⟨h, hd⟩ | ⟨b', sent', hb', h, hd⟩ := h
      · split_ifs
        · exact .quiet h (by simp only [dataWrites_append, hd]; rfl)
        · exact .quiet h hd
      · split_ifs
        · exact .wrote b' sent' hb' h (by simp only [dataWrites_append, hd]; rfl)
        · exact .wrote b' sent' hb' h hd
    · simp only [hw, Bool.false_eq_true, ↓reduceIte]
      exact .quiet (.refl _) rfl

@[simp] theorem sendPing_session : (s.sendPing sent).session =
    { s with pinged := s.pinged || decide (0 < sent), writable := false } := by
  by_cases h : 0 < sent <;> simp [sendPing, h]

@[simp] theorem dataWrites_sendPing : dataWrites (s.sendPing sent).effects = [] := rfl

@[simp] theorem sendPing_ret : (s.sendPing sent).ret = sent := rfl

/-- `usbws_send_ping` writes a ping when the socket is writable, and otherwise, or when
`lws_write` took nothing, leaves it to the next `WRITEABLE` callback. -/
theorem usbwsSendPing_session : (s.usbwsSendPing sent).session =
    { s with
      pinged := s.pinged || (s.writable && decide (0 < sent))
      pingPending := s.pingPending || !s.writable || decide (sent = 0)
      writable := false } := by
  simp only [usbwsSendPing]
  by_cases hw : s.writable = true
  · by_cases h : sent = 0 <;> simp [hw, h]
  · rw [Bool.not_eq_true] at hw
    simp [hw]

/-- ... and does not touch the transfer. -/
theorem usbwsSendPing_quiet : s.SameTransfer (s.usbwsSendPing sent).session ∧
    dataWrites (s.usbwsSendPing sent).effects = [] := by
  refine ⟨by simp [usbwsSendPing_session, SameTransfer], ?_⟩
  simp only [usbwsSendPing]
  split_ifs <;> simp

theorem handleWritable_transmits : s.Transmits (s.handleWritable sent) := by
  simp only [handleWritable]
  split_ifs with hb
  · obtain ⟨b, hb⟩ := Option.isSome_iff_exists.1 hb
    exact .wrote b sent hb (by simp [SameTransfer]) (by simp [hb, chunkLen])
  · exact .quiet (by simp [SameTransfer]) (by simp)
  · exact .quiet ⟨rfl, rfl, rfl⟩ rfl

/-! ### The other fields -/

/-- The fields no transmitting function touches agree. -/
structure Keeps (s s' : Session) : Prop where
  cont : s'.cont = s.cont
  stamp : s'.stamp = s.stamp
  recvQueue : s'.recvQueue = s.recvQueue
  recvOffset : s'.recvOffset = s.recvOffset

theorem handleSendRequest_session : (s.handleSendRequest sent).session =
    if s.sendBuf.isSome ∧ s.writable = true then (s.sendData sent).session else s := by
  simp only [handleSendRequest, sendRequestLocked, ← Option.not_isSome]
  by_cases hb : s.sendBuf.isSome = true
  · by_cases hw : s.writable = true
    · by_cases h : sent = 0 <;> simp [hb, hw, h]
    · simp [hb, hw]
  · simp [hb]

theorem handleSendRequest_keeps : s.Keeps (s.handleSendRequest sent).session := by
  rw [handleSendRequest_session]
  split_ifs <;> constructor <;> simp

theorem usbwsSendPing_keeps : s.Keeps (s.usbwsSendPing sent).session := by
  rw [usbwsSendPing_session]
  constructor <;> rfl

theorem handleWritable_keeps : s.Keeps (s.handleWritable sent).session := by
  simp only [handleWritable]
  split_ifs <;> constructor <;> simp

/-- `usbws_handle_writable` disposes of a pending ping, whatever becomes of it. -/
theorem handleWritable_pingPending : (s.handleWritable sent).session.pingPending = false := by
  simp only [handleWritable]
  split_ifs <;> simp_all

/-- ... and the ping is written only if no data is waiting. -/
theorem handleWritable_pinged : (s.handleWritable sent).session.pinged =
    (s.pinged || (s.sendBuf.isNone && s.pingPending && decide (0 < sent))) := by
  simp only [handleWritable, ← Option.not_isSome]
  split_ifs <;> simp_all

/-! ### Transfers in order -/

/-- The three transfer fields describe one transfer: `send_len` is the length of the buffer and
`send_offset` lies within it. -/
def SendOk (s : Session) : Prop :=
  ∀ b, s.sendBuf = some b → s.sendLen = b.data.length ∧ 0 ≤ s.sendOffset ∧ s.sendOffset ≤ s.sendLen

theorem publish_sendOk (b : SendBuf) : (s.publish b).SendOk := by
  rintro b' hb'
  obtain rfl : b = b' := by simpa [publish, setSendBuf, setSendLen, setSendOffset] using hb'
  simp [publish, setSendBuf, setSendLen, setSendOffset]

theorem SendOk.congr {s' : Session} (h : s.SendOk) (hs : s.SameTransfer s') : s'.SendOk := by
  obtain ⟨hb, hl, ho⟩ := hs
  unfold SendOk
  rw [hb, hl, ho]
  exact h

/-- `__send_data` keeps a transfer in order unless it moves the offset below the start: a write
that reaches the end finishes the transfer. -/
theorem SendOk.sendData (h : s.SendOk) (h₀ : 0 ≤ s.sendOffset + sent) :
    (s.sendData sent).session.SendOk := by
  intro b hb
  simp only [sendData_session] at hb ⊢
  split_ifs at hb ⊢ with hdone
  exact ⟨(h b hb).1, h₀, by omega⟩

/-- A call that moves the offset below the start by none of its writes keeps a transfer in
order. -/
theorem SendOk.transmits {o : Outcome} (h : s.SendOk) (ht : s.Transmits o)
    (h₀ : ∀ w ∈ dataWrites o.effects, 0 ≤ w.off + w.sent) : o.session.SendOk := by
  rcases ht with ⟨hs, -⟩ | ⟨b, sent, -, hs, hd⟩
  · exact h.congr hs
  · rw [hd, List.forall_mem_singleton] at h₀
    exact (h.sendData h₀).congr hs

/-- No call replaces the buffer by another one. -/
theorem Transmits.sendBuf_eq {o : Outcome} {b : SendBuf} (h : s.Transmits o)
    (hb : o.session.sendBuf = some b) : s.sendBuf = some b := by
  rcases h with ⟨⟨hs, -, -⟩, -⟩ | ⟨b', sent, hb', ⟨hs, -, -⟩, -⟩
  · rw [← hs, hb]
  · rw [hs, sendData_session] at hb
    simp only at hb
    split_ifs at hb
    exact hb

/-! ### The locked section -/

theorem sendRequestLocked_transmits (h : s.sendBuf.isSome = true ∨ s.writable = false) :
    s.Transmits (s.sendRequestLocked sent) := by
  unfold sendRequestLocked
  split_ifs with hw
  · obtain ⟨b, hb⟩ := Option.isSome_iff_exists.1 (h.resolve_right (by simp [hw]))
    exact .of_sendData hb
  · exact .quiet (.refl _) rfl

/-- Behind the locked section the socket is not known to be writable. -/
theorem sendRequestLocked_writable : (s.sendRequestLocked sent).session.writable = false := by
  unfold sendRequestLocked
  split_ifs with hw
  · simp
  · simpa using hw

/-- With something to write `usbws_handle_writable` leaves the socket not writable. -/
theorem handleWritable_writable (h : s.sendBuf.isSome = true ∨ s.pingPending = true) :
    (s.handleWritable sent).session.writable = false := by
  simp only [handleWritable]
  split_ifs <;> simp_all

end Session

end Usbws
