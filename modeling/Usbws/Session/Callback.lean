import Usbws.Data.CString
import Usbws.Session.Receive
import Usbws.Session.Transmit

/-!
# Callbacks

`usbws_handle_session`, the protocol callback, with the functions it dispatches to that neither
transmit nor receive: `usbws_session_init`, `usbws_session_discontinue`, `usbws_session_close`
and `usbws_check_session`.

`usbws_wait_recv`, which precedes `usbws_session_close`, only reads the queue and sleeps; it
leaves no trace in the state.

`usbws_check_session` computes with values of type `int`.  Its limit `ping_pong +
USBWS_PING_PONG_TIMEOUT` wraps around beyond the largest of them (`limit`), and `delta` is the
time since `stamp` as long as that is one of them (`Env.delta`).

`Session.handleSession_transmits` and `Session.handleSession_cont` say once for all reasons what
a callback can do to a transfer and to `cont`.
-/

namespace Usbws

/-- `USBWS_PING_PONG_TIMEOUT`. -/
def pingPongTimeout : ℤ := 60

/-- `ping_pong + USBWS_PING_PONG_TIMEOUT` in `usbws_check_session`. -/
def limit (pingPong : ℤ) : ℤ := intOf (pingPong + pingPongTimeout)

/-- `delta` in `usbws_check_session`, for a session with this `stamp`. -/
def Env.delta (env : Env) (stamp : ℤ) : ℤ :=
  if IsInt (env.now - stamp) then env.now - stamp else env.cast

/-- The callback reasons `usbws_handle_session` distinguishes. -/
inductive Reason where
  | established
  | clientEstablished
  | closed
  | clientConnectionError
  | receive
  | clientReceive
  | receivePong
  | serverWriteable
  | clientWriteable
  | healthCheck
  | sendRequest
  | other
  deriving DecidableEq, Repr

namespace Reason

/-- The reasons at which a session begins. -/
def opens : Reason → Bool
  | established | clientEstablished => true
  | _ => false

/-- The reasons for which the first `switch` rejects a NULL session. -/
def needsSession : Reason → Bool
  | established | clientEstablished | closed | receive | clientReceive | receivePong
  | healthCheck | sendRequest => true
  | _ => false

/-- A `RECEIVE` callback of either side. -/
def receives : Reason → Bool
  | receive | clientReceive => true
  | _ => false

/-- A `WRITEABLE` callback of either side. -/
def writes : Reason → Bool
  | serverWriteable | clientWriteable => true
  | _ => false

end Reason

namespace Session

/-! ### The functions -/

/-- `usbws_session_init`. -/
def init (now : ℤ) : Session where
  cont := true
  writable := false
  pinged := false
  pingPending := false
  stamp := now
  sendBuf := none
  sendLen := 0
  sendOffset := 0
  recvQueue := []
  recvOffset := 0

/-- `usbws_session_discontinue`, also reached as `usbws_shutdown`. -/
def discontinue (s : Session) : Outcome :=
  ⟨{ s with cont := false }, [.signalSendComplete, .signalRecvQueue], 0⟩

/-- `usbws_session_close`. -/
def close (s : Session) : Outcome := { s with recvQueue := [] }.discontinue

/-- `usbws_session_handled`. -/
def handled (s : Session) (now : ℤ) : Session := { s with stamp := now }

/-- `usbws_check_session`. -/
def checkSession (s : Session) (pingPong : ℤ) (env : Env) : Outcome :=
  let delta := env.delta s.stamp
  if !s.cont then
    let o := s.usbwsSendPing env.sent
    ⟨o.session, o.effects ++ [.closeReason], -1⟩
  else if pingPong = 0 then ⟨s, [], 0⟩
  else if delta ≥ limit pingPong then
    let d := s.discontinue
    let o := d.session.usbwsSendPing env.sent
    ⟨o.session, d.effects ++ o.effects ++ [.closeReason], -1⟩
  else if delta ≥ pingPong ∧ !s.pinged then { s.usbwsSendPing env.sent with ret := 0 }
  else ⟨s, [], 0⟩

/-- The second `switch` of `usbws_handle_session`. -/
def handleSession (s : Session) (pingPong : ℤ) (env : Env) (reason : Reason) (buf : Bytes) :
    Outcome :=
  match reason with
  | .established | .clientEstablished => ⟨init env.now, [.callbackOnWritable], env.start⟩
  | .closed => { s.close with ret := env.stop }
  | .clientConnectionError => ⟨s, [], env.stop⟩
  | .receive | .clientReceive =>
    -- the result of `usbws_handle_recv` is not used
    let o := s.handleRecv env buf
    ⟨o.session.handled env.now, o.effects, 0⟩
  | .receivePong =>
    if !s.cont then ⟨s, [.closeReason], -1⟩
    else ⟨{ s.handled env.now with pinged := false }, [], 0⟩
  | .serverWriteable | .clientWriteable => { s.handleWritable env.sent with ret := 0 }
  | .healthCheck => s.checkSession pingPong env
  | .sendRequest => s.handleSendRequest env.sent
  | .other => ⟨s, [], 0⟩

end Session

/-- `usbws_handle_session`, where `wsi2session` may give NULL.  The result `none` stands for the
NULL dereference in `usbws_handle_writable`, which the first `switch` does not exclude. -/
def usbwsHandleSession (session : Option Session) (pingPong : ℤ) (env : Env) (reason : Reason)
    (buf : Bytes) : Option (Option Session × List Effect × ℤ) :=
  match session with
  | some s =>
    let o := s.handleSession pingPong env reason buf
    some (some o.session, o.effects, o.ret)
  | none =>
    if reason.needsSession then some (none, [], -1)
    else if reason.writes then none
    else some (none, [], if reason = .clientConnectionError then env.stop else 0)

/-- A NULL session is dereferenced exactly by the `WRITEABLE` callbacks: the first `switch` covers
all other reasons that need a session. -/
theorem usbwsHandleSession_eq_none_iff {session : Option Session} {pingPong : ℤ} {env : Env}
    {reason : Reason} {buf : Bytes} : usbwsHandleSession session pingPong env reason buf = none ↔
      session = none ∧ reason.writes = true := by
  cases session with
  | some s => simp [usbwsHandleSession]
  | none => cases reason <;> simp [usbwsHandleSession, Reason.needsSession, Reason.writes]

/-- `LWS_CALLBACK_SERVER_WRITEABLE` without a session. -/
example : usbwsHandleSession none 60 {} .serverWriteable [] = none :=
  usbwsHandleSession_eq_none_iff.2 ⟨rfl, rfl⟩

/-! ### The arithmetic of a health check -/

section Limit

variable {pingPong stamp : ℤ} {env : Env}

theorem limit_eq (h : IsInt (pingPong + pingPongTimeout)) :
    limit pingPong = pingPong + pingPongTimeout :=
  intOf_eq_self_iff.2 h

/-- A limit that wraps around is negative. -/
theorem limit_neg (hi : IsInt pingPong) (h : ¬ IsInt (pingPong + pingPongTimeout)) :
    limit pingPong < 0 := by
  obtain ⟨hl, hu⟩ := hi
  have hle : (2 ^ 31 : ℤ) ≤ pingPong + pingPongTimeout := by
    simp only [IsInt, pingPongTimeout, not_and, not_lt] at h ⊢
    omega
  have := intOf_le_of_le hle
  simp only [limit, pingPongTimeout] at this ⊢
  omega

/-- The limit is never later than the sum. -/
theorem limit_le (hi : IsInt pingPong) (hpp : 0 < pingPong) :
    limit pingPong ≤ pingPong + pingPongTimeout := by
  by_cases h : IsInt (pingPong + pingPongTimeout)
  · exact (limit_eq h).le
  · have := limit_neg hi h
    simp only [pingPongTimeout]
    omega

theorem delta_eq (h : IsInt (env.now - stamp)) : env.delta stamp = env.now - stamp := if_pos h

/-- Without overflow a health check compares the seconds. -/
theorem limit_le_delta_iff (hl : IsInt (pingPong + pingPongTimeout))
    (hd : IsInt (env.now - stamp)) :
    limit pingPong ≤ env.delta stamp ↔ pingPong + pingPongTimeout ≤ env.now - stamp := by
  rw [limit_eq hl, delta_eq hd]

end Limit

namespace Session

variable {s : Session} {pingPong : ℤ} {env : Env} {reason : Reason} {buf : Bytes}

/-! ### Transfers and `cont` under callbacks -/

theorem handleRecv_transmits : s.Transmits (s.handleRecv env buf) := by
  simp only [handleRecv]
  split_ifs <;> exact .quiet ⟨rfl, rfl, rfl⟩ rfl

/-- Adding effects that write no data to a call changes nothing for the transfer. -/
theorem Transmits.of_effects {o o' : Outcome} (h : s.Transmits o) (hs : o'.session = o.session)
    (hd : dataWrites o'.effects = dataWrites o.effects) : s.Transmits o' := by
  obtain ⟨ht, hw⟩ | ⟨b, sent, hb, ht, hw⟩ := h
  · exact .quiet (hs ▸ ht) (hd.trans hw)
  · exact .wrote b sent hb (hs ▸ ht) (hd.trans hw)

/-- A health check does not touch the transfer. -/
theorem checkSession_quiet : s.SameTransfer (s.checkSession pingPong env).session ∧
    dataWrites (s.checkSession pingPong env).effects = [] := by
  simp only [checkSession]
  split_ifs
  · refine ⟨usbwsSendPing_quiet.1, ?_⟩
    simp only [dataWrites_append, usbwsSendPing_quiet.2]
    rfl
  · exact ⟨.refl _, rfl⟩
  · refine ⟨usbwsSendPing_quiet.1, ?_⟩
    simp only [dataWrites_append, usbwsSendPing_quiet.2]
    rfl
  · exact usbwsSendPing_quiet
  · exact ⟨.refl _, rfl⟩

/-- **What a callback can do to a transfer**, whatever its reason: nothing, or one
`__send_data`. -/
theorem handleSession_transmits (h : reason.opens = false) :
    s.Transmits (s.handleSession pingPong env reason buf) := by
  cases reason with
  | established | clientEstablished => simp [Reason.opens] at h
  | closed => exact .quiet ⟨rfl, rfl, rfl⟩ rfl
  | clientConnectionError | other => exact .quiet (.refl _) rfl
  | receive | clientReceive =>
    have h : s.Transmits (s.handleRecv env buf) := handleRecv_transmits
    obtain ⟨ht, hw⟩ | ⟨b, sent, hb, ht, hw⟩ := h
    · exact .quiet ht hw
    · exact .wrote b sent hb ht hw
  | receivePong =>
    simp only [handleSession]
    split_ifs <;> exact .quiet ⟨rfl, rfl, rfl⟩ rfl
  | serverWriteable | clientWriteable => exact handleWritable_transmits.of_effects rfl rfl
  | healthCheck => exact .quiet checkSession_quiet.1 checkSession_quiet.2
  | sendRequest => exact handleSendRequest_transmits

theorem checkSession_cont (h : (s.checkSession pingPong env).session.cont = true) :
    s.cont = true := by
  by_contra hc
  rw [Bool.not_eq_true] at hc
  simp [checkSession, hc, usbwsSendPing_keeps.cont] at h

/-- What a health check does that leaves the session continuing. -/
theorem checkSession_of_cont (hpp : pingPong ≠ 0)
    (h : (s.checkSession pingPong env).session.cont = true) :
    env.delta s.stamp < limit pingPong ∧
      (s.checkSession pingPong env).session =
        if pingPong ≤ env.delta s.stamp ∧ s.pinged = false then (s.usbwsSendPing env.sent).session
        else s := by
  have hc := checkSession_cont h
  by_cases ht : env.delta s.stamp ≥ limit pingPong
  · simp [checkSession, hc, hpp, ht, usbwsSendPing_keeps.cont, discontinue] at h
  · refine ⟨by omega, ?_⟩
    simp only [checkSession, hc, hpp, ht, Bool.not_true, Bool.false_eq_true, if_false, ge_iff_le,
      Bool.not_eq_true']
    split_ifs <;> rfl

/-- No callback continues a discontinued session. -/
theorem handleSession_cont (h : reason.opens = false)
    (hc : (s.handleSession pingPong env reason buf).session.cont = true) : s.cont = true := by
  cases reason with
  | established | clientEstablished => simp [Reason.opens] at h
  | closed => simp [handleSession, close, discontinue] at hc
  | clientConnectionError | other => exact hc
  | receive | clientReceive =>
    simp only [handleSession, handleRecv, handled] at hc
    split_ifs at hc <;> exact hc
  | receivePong =>
    simp only [handleSession] at hc
    split_ifs at hc <;> exact hc
  | serverWriteable | clientWriteable => rwa [handleSession, handleWritable_keeps.cont] at hc
  | healthCheck => exact checkSession_cont hc
  | sendRequest => rwa [handleSession, handleSendRequest_keeps.cont] at hc

end Session

end Usbws
