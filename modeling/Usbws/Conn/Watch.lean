import Usbws.Conn.Incoming
import Usbws.Conn.PingPong

/-!
# How long a session continues

A session is discontinued for one of three reasons: `usbws_shutdown`, its `CLOSED` callback, or a
health check that finds that nothing has come from the peer for `ping_pong +
USBWS_PING_PONG_TIMEOUT` seconds, in the arithmetic of `int`.  From then on every health check and
every pong asks the library to close the connection.

* `Conn.lastTraffic` : when something has come from the peer.
* `Conn.Alive` : none of the three has happened in a run.
* `Conn.cont_iff_alive` : a session continues exactly as long as that.
* `Conn.closeReason_iff` : which callbacks ask for the end of the connection.
-/

namespace Usbws

namespace Conn

/-- The time of the last frame or pong in the run of a session established at `t₀`. -/
def lastTraffic (t₀ : ℤ) : List Move → ℤ
  | [] => t₀
  | m :: tr => m.label.traffic.getD (lastTraffic t₀ tr)

/-- The event ends a session from which nothing has been heard since `t`. -/
def ends (pingPong t : ℤ) : Event → Bool
  | .shutdown => true
  | .callback .closed _ _ => true
  | .callback .healthCheck env _ =>
    decide (pingPong ≠ 0 ∧ limit pingPong ≤ env.delta t)
  | _ => false

/-- No event of the run has ended the session. -/
def Alive (pingPong t₀ : ℤ) : List Move → Prop
  | [] => True
  | m :: tr => Alive pingPong t₀ tr ∧ ends pingPong (lastTraffic t₀ tr) m.label = false

/-- The event is a health check or a pong. -/
def asksPeer : Event → Bool
  | .callback reason _ _ => reason = .healthCheck || reason = .receivePong
  | _ => false

instance decidableAlive (pingPong t₀ : ℤ) : ∀ tr, Decidable (Alive pingPong t₀ tr)
  | [] => inferInstanceAs (Decidable True)
  | _ :: tr =>
    have := decidableAlive pingPong t₀ tr
    inferInstanceAs (Decidable (_ ∧ _))

variable {pingPong t₀ : ℤ} {ok : DataWrite → Prop} [DecidablePred ok] {k k' : Conn} {e : Event}
  {tr : List Move} {env : Env} {buf : Bytes}

/-- A health check keeps a session exactly if it continues and has not timed out. -/
theorem checkSession_cont_iff (s : Session) : (s.checkSession pingPong env).session.cont = true ↔
    s.cont = true ∧ ¬ (pingPong ≠ 0 ∧ limit pingPong ≤ env.delta s.stamp) := by
  by_cases hc : s.cont = true
  · by_cases hpp : pingPong = 0
    · simp [Session.checkSession, hc, hpp]
    · by_cases ht : env.delta s.stamp ≥ limit pingPong
      · simp [Session.checkSession, hc, hpp, ht, Session.usbwsSendPing_keeps.cont,
          Session.discontinue]
      · have hcheck := @Session.checkSession_cont s pingPong env
        refine iff_of_true ?_ ⟨hc, fun h => ht h.2⟩
        simp only [Session.checkSession, hc, hpp, ht, Bool.not_true, Bool.false_eq_true, if_false]
        split_ifs
        · rw [Session.usbwsSendPing_keeps.cont, hc]
        · exact hc
  · refine iff_of_false (fun h => hc (Session.checkSession_cont h)) fun h => hc h.1

/-- A step keeps a session exactly if it continues and the step does not end it. -/
theorem cont_step_iff (hst : (lts pingPong ok).step k e k') : k'.session.cont = true ↔
    k.session.cont = true ∧ ends pingPong k.session.stamp e = false := by
  cases step_of_next hst with
  | send | leave | ret | recv => exact ⟨fun h => ⟨h, rfl⟩, And.left⟩
  | shutdown => simp [ends, Session.discontinue]
  | @callback reason env buf ho =>
    cases reason with
    | established | clientEstablished => cases ho
    | closed => simp [ends, Session.handleSession, Session.close, Session.discontinue]
    | clientConnectionError | other => exact ⟨fun h => ⟨h, rfl⟩, And.left⟩
    | receive | clientReceive =>
      have hr := (@receive_step pingPong .receive env buf k.session rfl).1
      exact ⟨fun h => ⟨hr ▸ h, rfl⟩, fun h => hr.trans h.1⟩
    | receivePong =>
      by_cases hc : k.session.cont = true <;> simp [ends, Session.handleSession, hc,
        Session.handled]
    | serverWriteable | clientWriteable =>
      simp [ends, Session.handleSession, Session.handleWritable_keeps.cont]
    | sendRequest => simp [ends, Session.handleSession, Session.handleSendRequest_keeps.cont]
    | healthCheck =>
      simp only [Session.handleSession, checkSession_cont_iff, ends, decide_eq_false_iff_not]

/-- While a session continues, its stamp is the time of the last traffic. -/
theorem stamp_eq_lastTraffic {now : ℤ} (he : (lts pingPong ok).Exec (start now) tr k)
    (hc : k.session.cont = true) : k.session.stamp = lastTraffic now tr := by
  induction he with
  | nil => rfl
  | snoc _ hst ih => rw [stamp_step hst hc, ih (cont_of_step hst hc), lastTraffic]

/-- **Why sessions end.**  In every run a session continues exactly as long as there has been no
`usbws_shutdown`, no `CLOSED` callback, and no health check that has found the peer silent for
`ping_pong + USBWS_PING_PONG_TIMEOUT` seconds, both numbers taken as `int`, with an interval other
than 0. -/
theorem cont_iff_alive {now : ℤ} (he : (lts pingPong ok).Exec (start now) tr k) :
    k.session.cont = true ↔ Alive pingPong now tr := by
  induction he with
  | nil => exact iff_of_true rfl trivial
  | @snoc tr k k' e hex hst ih =>
    rw [cont_step_iff hst, Alive, ih]
    refine and_congr_right fun ha => ?_
    rw [stamp_eq_lastTraffic hex (ih.2 ha)]

/-- A frame comes every minute, so no health check ends the session; then it is shut down. -/
theorem alive_until_shutdown : ∃ tr k, (lts 60 DataWrite.Valid).Exec (start 0) tr k ∧
    k.session.cont = false ∧ ¬ Alive 60 0 tr := by
  obtain ⟨tr, k, he, hc⟩ : ∃ tr k, (lts 60 DataWrite.Valid).Exec (start 0) tr k ∧
      k.session.cont = false :=
    LTS.exists_exec_of_replay
      [.callback .receive { now := 60 } [1], .callback .healthCheck { now := 60 } [],
        .callback .receive { now := 120 } [2], .callback .healthCheck { now := 120 } [], .shutdown]
      _ (fun _ _ _ h => h) (by decide)
  refine ⟨tr, k, he, hc, fun ha => ?_⟩
  rw [(cont_iff_alive he).2 ha] at hc
  cases hc

/-! ### Asking for the end -/

theorem closeReason_not_mem_sendData (s : Session) (sent : ℤ) :
    .closeReason ∉ (s.sendData sent).effects := by
  simp only [Session.sendData]
  split_ifs <;> simp

theorem closeReason_not_mem_usbwsSendPing (s : Session) (sent : ℤ) :
    .closeReason ∉ (s.usbwsSendPing sent).effects := by
  simp only [Session.usbwsSendPing, Session.sendPing]
  split_ifs <;> simp

theorem closeReason_not_mem_handleWritable (s : Session) (sent : ℤ) :
    .closeReason ∉ (s.handleWritable sent).effects := by
  simp only [Session.handleWritable]
  split_ifs
  · exact closeReason_not_mem_sendData _ _
  · simp [Session.sendPing]
  · simp

theorem closeReason_not_mem_handleSendRequest (s : Session) (sent : ℤ) :
    .closeReason ∉ (s.handleSendRequest sent).effects := by
  simp only [Session.handleSendRequest, Session.sendRequestLocked]
  split_ifs <;> simp [closeReason_not_mem_sendData]

theorem closeReason_not_mem_handleRecv (s : Session) (buf : Bytes) :
    .closeReason ∉ (s.handleRecv env buf).effects := by
  simp only [Session.handleRecv]
  split_ifs <;> simp

/-- A health check asks for the end of the connection, and returns -1, exactly if it leaves the
session discontinued. -/
theorem closeReason_checkSession (s : Session) :
    (.closeReason ∈ (s.checkSession pingPong env).effects ↔
      (s.checkSession pingPong env).session.cont = false) ∧
    (s.checkSession pingPong env).ret =
      if (s.checkSession pingPong env).session.cont then 0 else -1 := by
  have hping := closeReason_not_mem_usbwsSendPing s env.sent
  have hkeep := @Session.usbwsSendPing_keeps s env.sent
  by_cases hc : s.cont = true
  · by_cases hpp : pingPong = 0
    · simp [Session.checkSession, hc, hpp]
    · by_cases ht : env.delta s.stamp ≥ limit pingPong
      · simp [Session.checkSession, hc, hpp, ht, Session.usbwsSendPing_keeps.cont,
          Session.discontinue]
      · simp only [Session.checkSession, hc, hpp, ht, Bool.not_true, Bool.false_eq_true, if_false]
        split_ifs <;> simp_all [hkeep.cont]
  · simp [Session.checkSession, hc, hkeep.cont]

/-- A callback asks for the end of the connection exactly if it is a health check or a pong and
leaves the session discontinued, and then it returns -1. -/
theorem closeReason_step (hst : (lts pingPong ok).step k e k') :
    (.closeReason ∈ (k.outcome pingPong e).effects ↔
      asksPeer e = true ∧ k'.session.cont = false) ∧
    (asksPeer e = true →
      (k.outcome pingPong e).ret = if k'.session.cont then 0 else -1) := by
  have hquiet : asksPeer e = false → .closeReason ∉ (k.outcome pingPong e).effects →
      (.closeReason ∈ (k.outcome pingPong e).effects ↔
        asksPeer e = true ∧ k'.session.cont = false) ∧
      (asksPeer e = true →
        (k.outcome pingPong e).ret = if k'.session.cont then 0 else -1) := by
    intro ha hno
    rw [ha]
    exact ⟨iff_of_false hno (by simp), fun h => by cases h⟩
  cases step_of_next hst with
  | send | leave | ret | recv => exact hquiet rfl (by simp [outcome])
  | shutdown => exact hquiet rfl (by simp [outcome, Session.discontinue])
  | @callback reason env buf ho =>
    cases reason with
    | established | clientEstablished => cases ho
    | closed =>
      exact hquiet rfl (by simp [outcome, Session.handleSession, Session.close,
        Session.discontinue])
    | clientConnectionError | other => exact hquiet rfl (by simp [outcome, Session.handleSession])
    | receive | clientReceive => exact hquiet rfl (closeReason_not_mem_handleRecv _ _)
    | serverWriteable | clientWriteable => exact hquiet rfl (closeReason_not_mem_handleWritable _ _)
    | sendRequest => exact hquiet rfl (closeReason_not_mem_handleSendRequest _ _)
    | receivePong =>
      by_cases hc : k.session.cont = true <;> simp [outcome, asksPeer, Session.handleSession, hc,
        Session.handled]
    | healthCheck =>
      have h := @closeReason_checkSession pingPong env k.session
      exact ⟨h.1.trans (by simp [asksPeer, Session.handleSession]), fun _ => h.2⟩

/-- **Which callbacks ask the library to close the connection**: in every run exactly the health
checks and the pongs behind which the session has ended, and these return -1; the others of both
return 0. -/
theorem closeReason_iff {now : ℤ} (he : (lts pingPong ok).Exec (start now) tr k) (m : Move)
    (tr' : List Move) (hm : m :: tr' <:+ tr) :
    (.closeReason ∈ (m.pre.outcome pingPong m.label).effects ↔
      asksPeer m.label = true ∧ ¬ Alive pingPong now (m :: tr')) ∧
    (asksPeer m.label = true → ((m.pre.outcome pingPong m.label).ret = -1 ↔
      ¬ Alive pingPong now (m :: tr'))) := by
  induction he with
  | nil => simp at hm
  | @snoc tr k k' e hex hst ih =>
    rcases List.suffix_cons_iff.1 hm with h | h
    · cases h
      obtain ⟨hr, hv⟩ := closeReason_step hst
      rw [← cont_iff_alive (hex.snoc hst), Bool.not_eq_true]
      refine ⟨hr, fun ha => ?_⟩
      rw [hv ha]
      cases k'.session.cont <;> simp
    · exact ih h

/-- A session whose peer is silent for two minutes ends at the second health check, which asks for
the end of the connection. -/
theorem closeReason_of_silence : ∃ tr k m tr',
    (lts 60 DataWrite.Valid).Exec (start 0) tr k ∧ m :: tr' <:+ tr ∧
    Alive 60 0 tr' ∧ .closeReason ∈ (m.pre.outcome 60 m.label).effects := by
  obtain ⟨tr, k, he, hp, ha, hn⟩ : ∃ tr k, (lts 60 DataWrite.Valid).Exec (start 0) tr k ∧
      tr.head?.any (fun m => asksPeer m.label) = true ∧ Alive 60 0 tr.tail ∧ ¬ Alive 60 0 tr :=
    LTS.exists_exec_of_replay
      [.callback .serverWriteable {} [], .callback .healthCheck { now := 60, sent := 1 } [],
        .callback .healthCheck { now := 120 } []] _ (fun _ _ _ h => h) (by decide)
  cases tr with
  | nil => cases hp
  | cons m tr' =>
    exact ⟨m :: tr', k, m, tr', he, List.suffix_rfl, ha,
      (closeReason_iff he m tr' List.suffix_rfl).1.2 ⟨hp, hn⟩⟩

end Conn

end Usbws
