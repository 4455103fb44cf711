import Usbws.Conn.Basic

/-!
# The pings of a connection

A ping is written at once by a health check, or later by a `WRITEABLE` callback when the socket was
not writable at the check or `lws_write` took nothing.  `pinged` is set by a successful write and
reset by a pong.

* `pingsWritten` : the successful pings among some effects.
* `Session.CountsPings` : a call sets `pinged` exactly when it writes a ping, and defers a ping only
  on a socket that is not writable and has no unanswered ping.
* `Conn.pinged_eq_pings_sub_pongs` : as long as a session continues, `pinged` is the number of pings
  written minus the number of pongs received.
-/

namespace Usbws

/-- The number of pings among some effects that `lws_write` took. -/
def pingsWritten (es : List Effect) : ℕ :=
  es.countP fun
    | .writePing sent => decide (0 < sent)
    | _ => false

@[simp] theorem pingsWritten_nil : pingsWritten [] = 0 := rfl

/-- The event is a `RECEIVE_PONG` callback. -/
def Event.isPong : Event → Bool
  | .callback .receivePong _ _ => true
  | _ => false

namespace Session

variable {s : Session} {sent pingPong : ℤ} {env : Env} {reason : Reason} {buf : Bytes}

/-! ### The pings of a call -/

/-- A deferred ping waits for a socket that is not writable, and for no pong. -/
def DeferOk (s : Session) : Prop :=
  s.pingPending = true → s.writable = false ∧ s.pinged = false

/-- A call that sets `pinged` exactly when it writes a ping. -/
structure CountsPings (s : Session) (o : Outcome) : Prop where
  count : o.session.pinged.toNat = s.pinged.toNat + pingsWritten o.effects
  deferOk : o.session.DeferOk

/-- A call that writes no ping and does not make the socket writable. -/
theorem CountsPings.of_quiet {o : Outcome} (h : s.DeferOk)
    (hp : o.session.pinged = s.pinged) (hd : o.session.pingPending = s.pingPending)
    (hw : s.writable = false → o.session.writable = false)
    (he : pingsWritten o.effects = 0) : s.CountsPings o := by
  refine ⟨by rw [hp, he, Nat.add_zero], fun hpend => ?_⟩
  rw [hd] at hpend
  rw [hp]
  exact ⟨hw (h hpend).1, (h hpend).2⟩

theorem pingsWritten_sendData : pingsWritten (s.sendData sent).effects = 0 := by
  simp only [sendData]
  split_ifs <;> rfl

theorem pingsWritten_usbwsSendPing : pingsWritten (s.usbwsSendPing sent).effects =
    (s.writable && decide (0 < sent)).toNat := by
  have hping : pingsWritten (s.sendPing sent).effects = (decide (0 < sent)).toNat := by
    by_cases h : 0 < sent <;> simp [sendPing, pingsWritten, h]
  simp only [usbwsSendPing]
  by_cases hw : s.writable = true
  · simp only [hw, if_true, Bool.true_and, ← hping]
    split_ifs <;> rfl
  · simp [hw]

/-- `usbws_send_ping` is called when no ping is unanswered.  It defers the ping if the socket is not
writable, or if `lws_write` has taken nothing. -/
theorem usbwsSendPing_countsPings (h : s.DeferOk) (hp : s.pinged = false) :
    s.CountsPings (s.usbwsSendPing sent) := by
  refine ⟨?_, ?_⟩
  · rw [pingsWritten_usbwsSendPing, usbwsSendPing_session]
    simp [hp]
  · intro hd
    rw [usbwsSendPing_session] at hd ⊢
    refine ⟨rfl, ?_⟩
    cases hw : s.writable with
    | false => simp [hp]
    | true =>
      have hpend : s.pingPending = false := by
        by_contra hn
        have := (h (by simpa using hn)).1
        rw [hw] at this
        cases this
      have hsent : sent = 0 := by simpa [hw, hpend] using hd
      simp [hp, hsent]

theorem handleWritable_countsPings (h : s.DeferOk) : s.CountsPings (s.handleWritable sent) := by
  refine ⟨?_, fun hd => ?_⟩
  · have hw : pingsWritten (s.handleWritable sent).effects =
        (s.sendBuf.isNone && s.pingPending && decide (0 < sent)).toNat := by
      simp only [handleWritable, ← Option.not_isSome]
      split_ifs with hb hpend
      · simp [pingsWritten_sendData, show s.sendBuf.isSome = true from hb]
      · have hb' : s.sendBuf.isSome = false := by simpa using hb
        by_cases hs : 0 < sent <;> simp [sendPing, pingsWritten, hb', hpend, hs]
      · simp [hpend]
    rw [handleWritable_pinged, hw]
    cases hpend : s.pingPending with
    | false => simp
    | true => simp [(h hpend).2]
  · rw [handleWritable_pingPending] at hd
    cases hd

theorem handleSendRequest_countsPings (h : s.DeferOk) :
    s.CountsPings (s.handleSendRequest sent) := by
  have he : pingsWritten (s.handleSendRequest sent).effects = 0 := by
    simp only [handleSendRequest, sendRequestLocked]
    split_ifs
    · rfl
    · have hdata : pingsWritten (s.sendData sent).effects = 0 := pingsWritten_sendData
      simpa [pingsWritten, List.countP_append] using hdata
    · exact pingsWritten_sendData
    all_goals rfl
  refine .of_quiet h ?_ ?_ ?_ he
  all_goals
    rw [handleSendRequest_session]
    split_ifs <;> simp

/-- A health check that leaves the session continuing sends a ping only if none is unanswered. -/
theorem checkSession_countsPings (h : s.DeferOk)
    (hc : (s.checkSession pingPong env).session.cont = true) :
    s.CountsPings (s.checkSession pingPong env) := by
  have hcont := checkSession_cont hc
  simp only [checkSession, hcont, Bool.not_true, Bool.false_eq_true, if_false] at hc ⊢
  split_ifs with hpp ht hdue
  · exact .of_quiet h rfl rfl id rfl
  · -- the session has timed out
    simp [hpp, ht, usbwsSendPing_keeps.cont, discontinue] at hc
  · have hping : s.CountsPings (s.usbwsSendPing env.sent) :=
      usbwsSendPing_countsPings h (by simpa using hdue.2)
    exact ⟨hping.count, hping.deferOk⟩
  · exact .of_quiet h rfl rfl id rfl

/-- **What a callback does to the pings** of a session that goes on; a pong is not covered. -/
theorem handleSession_countsPings (h : s.DeferOk) (ho : reason.opens = false)
    (hr : reason ≠ .receivePong)
    (hc : (s.handleSession pingPong env reason buf).session.cont = true) :
    s.CountsPings (s.handleSession pingPong env reason buf) := by
  cases reason with
  | established | clientEstablished => simp [Reason.opens] at ho
  | closed => simp [handleSession, close, discontinue] at hc
  | clientConnectionError | other => exact .of_quiet h rfl rfl id rfl
  | receive | clientReceive =>
    simp only [handleSession, handleRecv, handled]
    split_ifs <;> exact .of_quiet h rfl rfl id rfl
  | receivePong => exact absurd rfl hr
  | serverWriteable | clientWriteable =>
    have hw : s.CountsPings (s.handleWritable env.sent) := handleWritable_countsPings h
    exact ⟨hw.count, hw.deferOk⟩
  | healthCheck => exact checkSession_countsPings h hc
  | sendRequest => exact handleSendRequest_countsPings h

/-- A pong answers the ping, if the session goes on. -/
theorem receivePong_session (hc : s.cont = true) :
    (s.handleSession pingPong env .receivePong buf).session =
      { s with stamp := env.now, pinged := false } := by
  simp [handleSession, hc, handled]

end Session

namespace Conn

/-! ### The pings of a run -/

/-- The number of pings successfully written in a run. -/
def pingsOf (pingPong : ℤ) : List Move → ℕ
  | [] => 0
  | m :: tr => pingsOf pingPong tr + pingsWritten (m.pre.outcome pingPong m.label).effects

/-- The number of pongs received in a run. -/
def pongsOf : List Move → ℕ
  | [] => 0
  | m :: tr => pongsOf tr + m.label.isPong.toNat

/-- The peer answers each ping with at most one pong and sends no other pongs: a pong is received
only while fewer pongs than pings have come. -/
def Answering (pingPong : ℤ) : List Move → Prop
  | [] => True
  | m :: tr => Answering pingPong tr ∧ (m.label.isPong = true → pongsOf tr < pingsOf pingPong tr)

instance decidableAnswering (pingPong : ℤ) : ∀ tr, Decidable (Answering pingPong tr)
  | [] => inferInstanceAs (Decidable True)
  | _ :: tr =>
    have := decidableAnswering pingPong tr
    inferInstanceAs (Decidable (_ ∧ (_ → _)))

/-- The pings and pongs of a run of a continuing session. -/
structure PingsOk (pingPong : ℤ) (tr : List Move) (k : Conn) : Prop where
  count : pingsOf pingPong tr = pongsOf tr + k.session.pinged.toNat
  deferOk : k.session.DeferOk

variable {pingPong now : ℤ} {ok : DataWrite → Prop} [DecidablePred ok] {k k' : Conn} {e : Event}
  {tr : List Move}

theorem start_pingsOk (now : ℤ) : PingsOk pingPong [] (start now) where
  count := rfl
  deferOk h := by cases h

/-- An event other than a pong, given what the session code does in it. -/
theorem PingsOk.counts (h : PingsOk pingPong tr k)
    (hs : k.session.CountsPings (k.outcome pingPong e))
    (hk : k'.session = (k.outcome pingPong e).session) (he : e.isPong = false) :
    PingsOk pingPong (⟨k, e, k'⟩ :: tr) k' := by
  refine ⟨?_, hk ▸ hs.deferOk⟩
  have hcount := hs.count
  simp only [pingsOf, pongsOf, h.count, he, hk, Bool.toNat_false]
  omega

/-- A pong comes for a ping that has been written. -/
theorem PingsOk.pong (h : PingsOk pingPong tr k) {env : Env} {buf : Bytes}
    (hc : k.session.cont = true) (ha : pongsOf tr < pingsOf pingPong tr)
    (hk : k'.session = (k.session.handleSession pingPong env .receivePong buf).session) :
    PingsOk pingPong (⟨k, .callback .receivePong env buf, k'⟩ :: tr) k' := by
  rw [Session.receivePong_session hc] at hk
  have hp : k.session.pinged = true := by
    by_contra hn
    have := h.count
    rw [Bool.not_eq_true] at hn
    rw [hn] at this
    simp only [Bool.toNat_false] at this
    omega
  refine ⟨?_, ?_⟩
  · have hw : pingsWritten (k.outcome pingPong (.callback .receivePong env buf)).effects = 0 := by
      simp [outcome, Session.handleSession, hc]
    simp only [pingsOf, pongsOf, hw, h.count, hk, hp, Event.isPong, Bool.toNat_true,
      Bool.toNat_false]
  · rw [hk]
    intro hd
    have := (h.deferOk hd).2
    rw [hp] at this
    cases this

theorem PingsOk.step (h : PingsOk pingPong tr k) (hst : (lts pingPong ok).step k e k')
    (hc : k'.session.cont = true) (ha : e.isPong = true → pongsOf tr < pingsOf pingPong tr) :
    PingsOk pingPong (⟨k, e, k'⟩ :: tr) k' := by
  have hcont := cont_of_step hst hc
  cases step_of_next hst with
  | send => exact ⟨h.count, h.deferOk⟩
  | leave | ret | recv => exact h.counts (.of_quiet h.deferOk rfl rfl id rfl) rfl rfl
  | shutdown => cases hc
  | @callback reason env buf ho =>
    by_cases hr : reason = .receivePong
    · subst hr
      exact h.pong hcont (ha rfl) rfl
    · refine h.counts (Session.handleSession_countsPings h.deferOk ho hr hc) rfl ?_
      cases reason <;> first | rfl | exact absurd rfl hr

theorem pingsOk_of_exec (he : (lts pingPong ok).Exec (start now) tr k)
    (hc : k.session.cont = true) (ha : Answering pingPong tr) : PingsOk pingPong tr k := by
  induction he with
  | nil => exact start_pingsOk now
  | snoc _ hst ih => exact (ih (cont_of_step hst hc) ha.1).step hst hc ha.2

/-- **At most one ping is outstanding.**  In every run of a continuing session whose peer answers
each ping at most once, `pinged` counts the pings written without an answer, so that there is never
more than one, and a ping is deferred only while the socket is not writable and none is
unanswered. -/
theorem pinged_eq_pings_sub_pongs (he : (lts pingPong ok).Exec (start now) tr k)
    (hc : k.session.cont = true) (ha : Answering pingPong tr) :
    (k.session.pinged.toNat : ℤ) = pingsOf pingPong tr - pongsOf tr ∧
      ((pingsOf pingPong tr : ℤ) - pongsOf tr = 0 ∨ (pingsOf pingPong tr : ℤ) - pongsOf tr = 1) ∧
      (k.session.pingPending = true → k.session.writable = false ∧ k.session.pinged = false) := by
  have h := pingsOk_of_exec he hc ha
  have hcount := h.count
  have hle : k.session.pinged.toNat ≤ 1 := Bool.toNat_le _
  exact ⟨by omega, by omega, h.deferOk⟩

/-- A deferred ping is written by the next `WRITEABLE` callback and answered, and a further one is
written by a health check. -/
theorem pinged_of_two_pings : ∃ tr k, (lts 60 DataWrite.Valid).Exec (start 0) tr k ∧
    pingsOf 60 tr = 2 ∧ pongsOf tr = 1 ∧
    (k.session.pinged.toNat : ℤ) = pingsOf 60 tr - pongsOf tr := by
  obtain ⟨tr, k, he, hc, ha, hpings, hpongs⟩ : ∃ tr k,
      (lts 60 DataWrite.Valid).Exec (start 0) tr k ∧ k.session.cont = true ∧ Answering 60 tr ∧
      pingsOf 60 tr = 2 ∧ pongsOf tr = 1 :=
    LTS.exists_exec_of_replay
      [.callback .healthCheck { now := 60 } [], .callback .serverWriteable { sent := 1 } [],
        .callback .receivePong { now := 61 } [], .callback .serverWriteable {} [],
        .callback .healthCheck { now := 121, sent := 1 } []] _ (fun _ _ _ h => h) (by decide)
  exact ⟨tr, k, he, hpings, hpongs, (pinged_eq_pings_sub_pongs he hc ha).1⟩

end Conn

end Usbws
