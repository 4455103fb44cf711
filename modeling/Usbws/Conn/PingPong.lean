import Usbws.Conn.Basic
import Usbws.Ctx.Interval

/-!
# Ping and pong

`usbws_check_session` sends a ping when nothing has come from the peer for `ping_pong` seconds, and
gives the session up when nothing has come for `ping_pong + USBWS_PING_PONG_TIMEOUT` seconds.  The
daemon makes its health checks up to `ping_pong` seconds apart, so for an interval beyond the
timeout one check may come too early for the ping and the next one too late.  Also a ping that
waits for the socket to become writable is dropped if there is data to send first, and one that
`lws_write` refuses is not repeated before the next check.  If the sum is no `int`, already the
first check gives the session up.

* `Conn.pinged_iff` : at a timeout check the ping has been written exactly when the check before
  it asked for one (`Conn.dueOf`) and it is neither waiting nor lost (`Conn.lostOf`).
* `Conn.dueOf_of_gap_le` : a check at most `USBWS_PING_PONG_TIMEOUT` seconds before has asked for
  one.
* `Conn.pinged_at_timeouts_iff` : the statement for whole runs.
-/

namespace Usbws

/-- The time an event reads from the clock. -/
def Event.clock : Event → Option ℤ
  | .callback reason env _ =>
    if reason.receives || reason = .receivePong || reason = .healthCheck then some env.now else none
  | _ => none

/-- The time of a health check. -/
def Event.checkTime : Event → Option ℤ
  | .callback .healthCheck env _ => some env.now
  | _ => none

/-- What a health check is told. -/
def Event.check : Event → Option Env
  | .callback .healthCheck env _ => some env
  | _ => none

/-- The time of an incoming frame or pong. -/
def Event.traffic : Event → Option ℤ
  | .callback reason env _ =>
    if reason.receives || reason = .receivePong then some env.now else none
  | _ => none

namespace Conn

/-! ### The clock of a run -/

/-- The last time read from the clock in the run of a session established at `t₀`. -/
def lastTime (t₀ : ℤ) : List Move → ℤ
  | [] => t₀
  | m :: tr => m.label.clock.getD (lastTime t₀ tr)

/-- The time of the last health check, or of the establishment. -/
def lastCheck (t₀ : ℤ) : List Move → ℤ
  | [] => t₀
  | m :: tr => m.label.checkTime.getD (lastCheck t₀ tr)

/-- The clock does not go back, and health checks come at most `pingPong` seconds apart. -/
def Timed (pingPong t₀ : ℤ) : List Move → Prop
  | [] => True
  | m :: tr => Timed pingPong t₀ tr ∧ (∀ t ∈ m.label.clock, lastTime t₀ tr ≤ t) ∧
    ∀ t ∈ m.label.checkTime, t ≤ lastCheck t₀ tr + pingPong

/-! ### The pings of a run -/

/-- At the last health check a ping was due, waiting or unanswered. -/
def dueOf (pingPong : ℤ) : List Move → Bool
  | [] => false
  | m :: tr =>
    match m.label with
    | .callback .healthCheck env _ =>
      decide (pingPong ≤ env.delta m.pre.session.stamp) || m.pre.session.pinged ||
        m.pre.session.pingPending
    | _ => dueOf pingPong tr

/-- Since the last health check, inclusively, a ping was refused by `lws_write`, or dropped for
data. -/
def lostOf (pingPong : ℤ) : List Move → Bool
  | [] => false
  | m :: tr =>
    match m.label with
    | .callback .healthCheck env _ =>
      decide (pingPong ≤ env.delta m.pre.session.stamp) && !m.pre.session.pinged &&
        m.pre.session.writable && decide (env.sent < 0)
    | .callback .serverWriteable env _ | .callback .clientWriteable env _ =>
      lostOf pingPong tr ||
        (m.pre.session.pingPending && (m.pre.session.sendBuf.isSome || decide (env.sent ≤ 0)))
    | _ => lostOf pingPong tr

/-- The move is a health check that gives up a continuing session. -/
def TimesOut (pingPong : ℤ) (m : Move) : Prop :=
  m.pre.session.cont = true ∧
    ∃ env ∈ m.label.check, limit pingPong ≤ env.delta m.pre.session.stamp

/-- The check before asked for a ping, and it is neither waiting nor lost. -/
def PingOut (pingPong : ℤ) (tr : List Move) (k : Conn) : Prop :=
  dueOf pingPong tr = true ∧ k.session.pingPending = false ∧ lostOf pingPong tr = false

/-- At each timeout check of a run the check before asked for a ping, which is neither waiting nor
lost. -/
def PingsOut (pingPong : ℤ) : List Move → Prop
  | [] => True
  | m :: tr => PingsOut pingPong tr ∧ (TimesOut pingPong m → PingOut pingPong tr m.pre)

instance decidableTimed (pingPong t₀ : ℤ) : ∀ tr, Decidable (Timed pingPong t₀ tr)
  | [] => inferInstanceAs (Decidable True)
  | _ :: tr =>
    have := decidableTimed pingPong t₀ tr
    inferInstanceAs (Decidable (_ ∧ _ ∧ _))

instance (pingPong : ℤ) (m : Move) : Decidable (TimesOut pingPong m) :=
  inferInstanceAs (Decidable (_ ∧ _))

instance (pingPong : ℤ) (tr : List Move) (k : Conn) : Decidable (PingOut pingPong tr k) :=
  inferInstanceAs (Decidable (_ ∧ _ ∧ _))

instance decidablePingsOut (pingPong : ℤ) : ∀ tr, Decidable (PingsOut pingPong tr)
  | [] => inferInstanceAs (Decidable True)
  | m :: tr =>
    have := decidablePingsOut pingPong tr
    inferInstanceAs (Decidable (_ ∧ (TimesOut pingPong m → PingOut pingPong tr m.pre)))

/-- How the times of a run relate to the stamp of a continuing session. -/
structure ClockOk (pingPong t₀ : ℤ) (tr : List Move) (k : Conn) : Prop where
  check : lastCheck t₀ tr ≤ lastTime t₀ tr
  stamp : k.session.stamp ≤ lastTime t₀ tr
  /-- No session survives a health check whose limit wraps around. -/
  overflow : ¬ IsInt (pingPong + pingPongTimeout) →
    dueOf pingPong tr = false ∧ lastCheck t₀ tr ≤ k.session.stamp

/-- How the pings of a run relate to the state of a continuing session. -/
structure PingOk (pingPong t₀ : ℤ) (tr : List Move) (k : Conn) : Prop where
  pending : k.session.pingPending = true → k.session.pinged = false ∧ k.session.writable = false
  lost : lostOf pingPong tr = true → k.session.pinged = false ∧ k.session.pingPending = false
  notDue : dueOf pingPong tr = false → k.session.pinged = false ∧ k.session.pingPending = false ∧
    (IsInt (lastCheck t₀ tr - k.session.stamp) → lastCheck t₀ tr - k.session.stamp < pingPong)
  due : dueOf pingPong tr = true → k.session.pinged = true ∨ k.session.pingPending = true ∨
    lostOf pingPong tr = true ∨ lastCheck t₀ tr ≤ k.session.stamp

/-- The fields about pings agree, and the socket has not become writable. -/
structure SamePing (s s' : Session) : Prop where
  pinged : s'.pinged = s.pinged
  pingPending : s'.pingPending = s.pingPending
  stamp : s'.stamp = s.stamp
  writable : s.writable = false → s'.writable = false

variable {pingPong t₀ : ℤ} {ok : DataWrite → Prop} [DecidablePred ok] {k k' : Conn} {e : Event}
  {tr : List Move} {env : Env} {buf : Bytes}

/-! ### The clock and the stamp -/

theorem exists_of_check {m : Move} (h : m.label.check = some env) :
    ∃ buf, m.label = .callback .healthCheck env buf := by
  obtain ⟨k, e, k'⟩ := m
  cases e with
  | callback reason env' buf =>
    cases reason with
    | healthCheck => cases h; exact ⟨buf, rfl⟩
    | _ => cases h
  | _ => cases h

/-- Only a health check changes what is known of the last one. -/
theorem cons_of_check_eq_none {m : Move} (h : m.label.check = none) :
    dueOf pingPong (m :: tr) = dueOf pingPong tr ∧ lastCheck t₀ (m :: tr) = lastCheck t₀ tr := by
  obtain ⟨k, e, k'⟩ := m
  cases e with
  | callback reason env buf =>
    cases reason with
    | healthCheck => cases h
    | _ => exact ⟨rfl, rfl⟩
  | _ => exact ⟨rfl, rfl⟩

theorem clock_of_traffic {t : ℤ} (h : e.traffic = some t) : e.clock = some t := by
  cases e with
  | callback reason env buf =>
    simp only [Event.traffic, Event.clock, Option.ite_none_right_eq_some, Bool.or_eq_true,
      Option.some.injEq] at h ⊢
    exact ⟨.inl h.1, h.2⟩
  | _ => cases h

theorem checkSession_stamp (s : Session) :
    (s.checkSession pingPong env).session.stamp = s.stamp := by
  simp only [Session.checkSession]
  split_ifs
  · exact Session.usbwsSendPing_keeps.stamp
  · rfl
  · exact Session.usbwsSendPing_keeps.stamp
  · exact Session.usbwsSendPing_keeps.stamp
  · rfl

/-- A step stamps a continuing session with the time of the traffic. -/
theorem stamp_step (hst : (lts pingPong ok).step k e k') (hc : k'.session.cont = true) :
    k'.session.stamp = e.traffic.getD k.session.stamp := by
  have hcont := cont_of_step hst hc
  cases step_of_next hst with
  | send | leave | ret | recv => rfl
  | shutdown => cases hc
  | @callback reason env buf ho =>
    cases reason with
    | established | clientEstablished => cases ho
    | closed => cases hc
    | clientConnectionError | other => rfl
    | receive | clientReceive => rfl
    | receivePong => simp [Session.handleSession, hcont, Session.handled, Event.traffic]
    | serverWriteable | clientWriteable => exact Session.handleWritable_keeps.stamp
    | sendRequest => exact Session.handleSendRequest_keeps.stamp
    | healthCheck => exact checkSession_stamp k.session

theorem start_clockOk (now : ℤ) : ClockOk pingPong now [] (start now) :=
  ⟨le_rfl, le_rfl, fun _ => ⟨rfl, le_rfl⟩⟩

/-- A health check that comes in time behind one that is no later than the stamp computes its
`delta` without overflow. -/
theorem ClockOk.delta_eq (h : ClockOk pingPong t₀ tr k) (hi : IsInt pingPong)
    (hle : lastCheck t₀ tr ≤ k.session.stamp) (hclock : lastTime t₀ tr ≤ env.now)
    (hcheck : env.now ≤ lastCheck t₀ tr + pingPong) :
    env.delta k.session.stamp = env.now - k.session.stamp ∧ k.session.stamp ≤ env.now ∧
      env.now ≤ k.session.stamp + pingPong := by
  have hst := h.stamp
  have hub := hi.2
  exact ⟨Usbws.delta_eq ⟨by omega, by omega⟩, by omega, by omega⟩

/-- **Every step of a continuing session keeps its times in order.** -/
theorem ClockOk.step (h : ClockOk pingPong t₀ tr k) (hpp : 0 < pingPong) (hi : IsInt pingPong)
    (hst : (lts pingPong ok).step k e k') (hcont : k'.session.cont = true)
    (hclock : ∀ t ∈ e.clock, lastTime t₀ tr ≤ t)
    (hcheck : ∀ t ∈ e.checkTime, t ≤ lastCheck t₀ tr + pingPong) :
    ClockOk pingPong t₀ (⟨k, e, k'⟩ :: tr) k' := by
  have hstamp := stamp_step hst hcont
  cases hch : e.check with
  | none =>
    obtain ⟨hdue, hlast⟩ := @cons_of_check_eq_none pingPong t₀ tr ⟨k, e, k'⟩ hch
    have htime : lastTime t₀ tr ≤ lastTime t₀ (⟨k, e, k'⟩ :: tr) := by
      cases hc : e.clock with
      | none => simp [lastTime, hc]
      | some t => simpa [lastTime, hc] using hclock t hc
    -- the stamp is the old one, or the time
    have hnew : k'.session.stamp = k.session.stamp ∨
        k'.session.stamp = lastTime t₀ (⟨k, e, k'⟩ :: tr) := by
      cases ht : e.traffic with
      | none => exact .inl (by rw [hstamp, ht]; rfl)
      | some t => exact .inr (by simp [hstamp, ht, lastTime, clock_of_traffic ht])
    refine ⟨hlast ▸ h.check.trans htime, ?_, fun ho => ⟨hdue ▸ (h.overflow ho).1, ?_⟩⟩
    · rcases hnew with hs | hs <;> rw [hs]
      exact h.stamp.trans htime
    · rw [hlast]
      rcases hnew with hs | hs <;> rw [hs]
      · exact (h.overflow ho).2
      · exact h.check.trans htime
  | some env =>
    obtain ⟨buf, rfl⟩ := @exists_of_check env ⟨k, e, k'⟩ hch
    have hnow : lastTime t₀ tr ≤ env.now := hclock _ rfl
    refine ⟨le_rfl, ?_, fun ho => absurd hcont ?_⟩
    · rw [hstamp]
      exact h.stamp.trans hnow
    · -- the limit is negative and `delta` is not
      cases step_of_next hst with
      | callback _ =>
        intro hc
        have hlt := (Session.checkSession_of_cont (Int.ne_of_gt hpp) hc).1
        obtain ⟨hd, hle, -⟩ := h.delta_eq hi (h.overflow ho).2 hnow (hcheck _ rfl)
        have hneg := limit_neg hi ho
        omega

/-- While a session continues, its times are in order. -/
theorem clockOk_of_exec {now : ℤ} (hpp : 0 < pingPong) (hi : IsInt pingPong)
    (he : (lts pingPong ok).Exec (start now) tr k) (ht : Timed pingPong now tr)
    (hc : k.session.cont = true) : ClockOk pingPong now tr k := by
  induction he with
  | nil => exact start_clockOk now
  | snoc _ hst ih =>
    exact (ih ht.1 (cont_of_step hst hc)).step hpp hi hst hc ht.2.1 ht.2.2

/-! ### The account of the pings -/

theorem start_pingOk (h : 0 < pingPong) (now : ℤ) : PingOk pingPong now [] (start now) where
  pending h := by cases h
  lost h := by cases h
  notDue _ := ⟨rfl, rfl, fun _ => by simpa [lastCheck, start, Session.init] using h⟩
  due h := by cases h

/-- An event that has nothing to do with pings. -/
theorem PingOk.same (h : PingOk pingPong t₀ tr k) (hs : SamePing k.session k'.session)
    (hl : lostOf pingPong (⟨k, e, k'⟩ :: tr) = lostOf pingPong tr)
    (hd : dueOf pingPong (⟨k, e, k'⟩ :: tr) = dueOf pingPong tr)
    (hch : e.checkTime = none) : PingOk pingPong t₀ (⟨k, e, k'⟩ :: tr) k' := by
  obtain ⟨hp, hpp, hst, hw⟩ := hs
  constructor
  · rw [hpp, hp]
    exact fun hpend => ⟨(h.pending hpend).1, hw (h.pending hpend).2⟩
  · rw [hl, hp, hpp]
    exact h.lost
  · simp only [hd, hp, hpp, hst, lastCheck, hch, Option.getD_none]
    exact h.notDue
  · simp only [hd, hl, hp, hpp, hst, lastCheck, hch, Option.getD_none]
    exact h.due

/-- Incoming traffic refreshes the stamp. -/
theorem PingOk.receive (h : PingOk pingPong t₀ tr k) (hpp : 0 < pingPong) {now : ℤ}
    (hl : lostOf pingPong (⟨k, e, k'⟩ :: tr) = lostOf pingPong tr)
    (hd : dueOf pingPong (⟨k, e, k'⟩ :: tr) = dueOf pingPong tr)
    (hch : e.checkTime = none) (hle : lastCheck t₀ tr ≤ now) (hst : k'.session.stamp = now)
    (hp : k'.session.pinged = true → k.session.pinged = true)
    (hpend : k'.session.pingPending = k.session.pingPending)
    (hw : k'.session.writable = k.session.writable) :
    PingOk pingPong t₀ (⟨k, e, k'⟩ :: tr) k' := by
  have hnp : k.session.pinged = false → k'.session.pinged = false := by
    intro hf
    by_contra hn
    rw [hp (by simpa using hn)] at hf
    cases hf
  constructor
  · rw [hpend, hw]
    exact fun hx => ⟨hnp (h.pending hx).1, (h.pending hx).2⟩
  · rw [hl, hpend]
    exact fun hx => ⟨hnp (h.lost hx).1, (h.lost hx).2⟩
  · simp only [hd, hpend, hst, lastCheck, hch, Option.getD_none]
    intro hx
    obtain ⟨h₁, h₂, -⟩ := h.notDue hx
    exact ⟨hnp h₁, h₂, fun _ => by omega⟩
  · simp only [hst, lastCheck, hch, Option.getD_none]
    exact fun _ => .inr (.inr (.inr hle))

/-- A `WRITEABLE` callback writes a waiting ping, or loses it. -/
theorem PingOk.writeable (h : PingOk pingPong t₀ tr k) {sent : ℤ}
    (hs : k'.session = (k.session.handleWritable sent).session)
    (hl : lostOf pingPong (⟨k, e, k'⟩ :: tr) = (lostOf pingPong tr ||
      (k.session.pingPending && (k.session.sendBuf.isSome || decide (sent ≤ 0)))))
    (hd : dueOf pingPong (⟨k, e, k'⟩ :: tr) = dueOf pingPong tr)
    (hch : e.checkTime = none) : PingOk pingPong t₀ (⟨k, e, k'⟩ :: tr) k' := by
  have hpend : k'.session.pingPending = false := by
    rw [hs, Session.handleWritable_pingPending]
  have hp : k'.session.pinged = (k.session.pinged ||
      (k.session.sendBuf.isNone && k.session.pingPending && decide (0 < sent))) := by
    rw [hs, Session.handleWritable_pinged]
  have hst : k'.session.stamp = k.session.stamp := by
    rw [hs, Session.handleWritable_keeps.stamp]
  constructor
  · rw [hpend]
    intro hx
    cases hx
  · rw [hl, hp, hpend, Bool.or_eq_true, Bool.and_eq_true, Bool.or_eq_true]
    rintro (hx | ⟨hx, hx'⟩)
    · obtain ⟨h₁, h₂⟩ := h.lost hx
      simp [h₁, h₂]
    · have hnot : (k.session.sendBuf.isNone && decide (0 < sent)) = false := by
        rcases hx' with hb | hle
        · rw [Option.isSome_iff_ne_none, ne_eq, ← Option.isNone_iff_eq_none] at hb
          simp [hb]
        · simpa using fun _ => of_decide_eq_true hle
      simp [(h.pending hx).1, hx, hnot]
  · simp only [hd, hp, hpend, hst, lastCheck, hch, Option.getD_none]
    intro hx
    obtain ⟨h₁, h₂, h₃⟩ := h.notDue hx
    exact ⟨by simp [h₁, h₂], trivial, h₃⟩
  · simp only [hd, hl, hp, hpend, hst, lastCheck, hch, Option.getD_none]
    intro hx
    rcases h.due hx with h₁ | h₁ | h₁ | h₁
    · exact .inl (by simp [h₁])
    · -- the waiting ping is written, or it is lost now
      by_cases hb : k.session.sendBuf = none
      · by_cases hw : 0 < sent
        · exact .inl (by simp [h₁, hb, hw])
        · exact .inr (.inr (.inl (by simpa [h₁, hb] using .inr (by omega))))
      · exact .inr (.inr (.inl (by simp [h₁, Option.isSome_iff_ne_none, hb])))
    · exact .inr (.inr (.inl (by simp [h₁])))
    · exact .inr (.inr (.inr h₁))

/-- A health check that finds a ping due and none unanswered writes one, or leaves it to the next
`WRITEABLE` callback. -/
theorem PingOk.check_due (h : PingOk pingPong t₀ tr k) (hd : pingPong ≤ env.delta k.session.stamp)
    (hp : k.session.pinged = false)
    (hs : k'.session = (k.session.usbwsSendPing env.sent).session) :
    PingOk pingPong t₀ (⟨k, .callback .healthCheck env buf, k'⟩ :: tr) k' := by
  rw [Session.usbwsSendPing_session] at hs
  have hdue : dueOf pingPong (⟨k, .callback .healthCheck env buf, k'⟩ :: tr) = true := by
    simp [dueOf, hd]
  have hlost : lostOf pingPong (⟨k, .callback .healthCheck env buf, k'⟩ :: tr) =
      (k.session.writable && decide (env.sent < 0)) := by
    simp [lostOf, hd, hp]
  cases hw : k.session.writable with
  | false =>
    -- the ping waits for the socket
    constructor
    · simp [hs, hp, hw]
    · simp [hlost, hw]
    · simp [hdue]
    · simp [hs, hw]
  | true =>
    -- `lws_write` takes the ping, takes nothing, so that it waits, or refuses it
    have hpend : k.session.pingPending = false := by
      by_contra hn
      rw [(h.pending (by simpa using hn)).2] at hw
      cases hw
    constructor
    · simpa [hs, hp, hw, hpend] using Int.le_of_eq
    · simp only [hlost, hs, hp, hw, hpend, Bool.true_and, Bool.false_or, Bool.not_true,
        decide_eq_true_eq, decide_eq_false_iff_not]
      omega
    · simp [hdue]
    · simp only [hlost, hs, hp, hw, hpend, Bool.true_and, Bool.false_or, Bool.not_true,
        decide_eq_true_eq]
      omega

/-- A health check that finds no ping due, or one unanswered, does nothing. -/
theorem PingOk.check_quiet (h : PingOk pingPong t₀ tr k)
    (hq : ¬ (pingPong ≤ env.delta k.session.stamp ∧ k.session.pinged = false))
    (hs : k'.session = k.session) :
    PingOk pingPong t₀ (⟨k, .callback .healthCheck env buf, k'⟩ :: tr) k' := by
  have hlost : lostOf pingPong (⟨k, .callback .healthCheck env buf, k'⟩ :: tr) = false := by
    simp only [lostOf]
    by_contra hn
    simp only [Bool.not_eq_false, Bool.and_eq_true, decide_eq_true_eq, Bool.not_eq_true'] at hn
    exact hq hn.1.1
  constructor
  · rw [hs]
    exact h.pending
  · simp [hlost]
  · rw [hs]
    simp only [dueOf, Bool.or_eq_false_iff, decide_eq_false_iff_not]
    rintro ⟨⟨h₁, h₂⟩, h₃⟩
    refine ⟨h₂, h₃, ?_⟩
    simp only [lastCheck, Event.checkTime, Option.getD_some]
    intro hint
    rw [delta_eq hint] at h₁
    omega
  · rw [hs]
    simp only [dueOf, Bool.or_eq_true, decide_eq_true_eq]
    rintro ((h₁ | h₁) | h₁)
    · refine .inl ?_
      by_contra hn
      exact hq ⟨h₁, by simpa using hn⟩
    · exact .inl h₁
    · exact .inr (.inl h₁)

/-- A health check that does not give the session up. -/
theorem PingOk.check (h : PingOk pingPong t₀ tr k) (hpp : 0 < pingPong)
    (hs : k'.session = (k.session.checkSession pingPong env).session)
    (hcont : k'.session.cont = true) :
    PingOk pingPong t₀ (⟨k, .callback .healthCheck env buf, k'⟩ :: tr) k' := by
  obtain ⟨-, hs'⟩ := Session.checkSession_of_cont (Int.ne_of_gt hpp) (hs ▸ hcont)
  rw [← hs] at hs'
  split_ifs at hs' with hdue
  · exact h.check_due hdue.1 hdue.2 hs'
  · exact h.check_quiet hdue hs'

/-- **Every step of a continuing session keeps track of its pings.** -/
theorem PingOk.step (h : PingOk pingPong t₀ tr k) (hpp : 0 < pingPong)
    (hst : (lts pingPong ok).step k e k') (hcont : k'.session.cont = true)
    (hle : ∀ t ∈ e.clock, lastCheck t₀ tr ≤ t) : PingOk pingPong t₀ (⟨k, e, k'⟩ :: tr) k' := by
  cases step_of_next hst with
  | send | leave | ret | recv => exact h.same ⟨rfl, rfl, rfl, id⟩ rfl rfl rfl
  | shutdown => cases hcont
  | @callback reason env buf ho =>
    cases reason with
    | established | clientEstablished => cases ho
    | closed => cases hcont
    | clientConnectionError | other => exact h.same ⟨rfl, rfl, rfl, id⟩ rfl rfl rfl
    | receive | clientReceive =>
      refine h.receive hpp rfl rfl rfl (hle _ rfl) rfl ?_ ?_ ?_ <;>
        simp only [Session.handleSession, Session.handleRecv, Session.handled] <;>
        split_ifs <;> first | rfl | exact id
    | receivePong =>
      -- the stamp is refreshed and no ping is outstanding any more
      have hc : k.session.cont = true := Session.handleSession_cont ho hcont
      have hs : (k.session.handleSession pingPong env .receivePong buf).session =
          { k.session with stamp := env.now, pinged := false } := by
        simp [Session.handleSession, hc, Session.handled]
      rw [hs]
      exact h.receive hpp rfl rfl rfl (hle _ rfl) rfl (fun hx => by cases hx) rfl rfl
    | serverWriteable | clientWriteable => exact h.writeable rfl rfl rfl rfl
    | healthCheck => exact h.check hpp rfl hcont
    | sendRequest =>
      refine h.same ?_ rfl rfl rfl
      simp only [Session.handleSession, Session.handleSendRequest_session]
      split_ifs
      · constructor <;> simp
      · exact ⟨rfl, rfl, rfl, id⟩

/-- While a session continues, its pings are accounted for. -/
theorem pingOk_of_exec {now : ℤ} (hpp : 0 < pingPong) (hi : IsInt pingPong)
    (he : (lts pingPong ok).Exec (start now) tr k) (ht : Timed pingPong now tr)
    (hc : k.session.cont = true) : PingOk pingPong now tr k := by
  induction he with
  | nil => exact start_pingOk hpp now
  | snoc hex hst ih =>
    have hcont := cont_of_step hst hc
    have hok := clockOk_of_exec hpp hi hex ht.1 hcont
    exact (ih ht.1 hcont).step hpp hst hc fun t htime => hok.check.trans (ht.2.1 t htime)

/-- **At a timeout check the ping has been written** exactly when the check before asked for it
and it is neither waiting nor lost. -/
theorem PingOk.pinged_iff (h : PingOk pingPong t₀ tr k) (hok : ClockOk pingPong t₀ tr k)
    (hi : IsInt pingPong) (hclock : lastTime t₀ tr ≤ env.now)
    (hcheck : env.now ≤ lastCheck t₀ tr + pingPong)
    (hd : limit pingPong ≤ env.delta k.session.stamp) :
    k.session.pinged = true ↔ PingOut pingPong tr k := by
  constructor
  · intro hp
    refine ⟨?_, ?_, ?_⟩
    · by_contra hn
      rw [(h.notDue (by simpa using hn)).1] at hp
      cases hp
    · by_contra hn
      rw [(h.pending (by simpa using hn)).1] at hp
      cases hp
    · by_contra hn
      rw [(h.lost (by simpa using hn)).1] at hp
      cases hp
  · rintro ⟨hdue, hpend, hlost⟩
    rcases h.due hdue with hp | hp | hp | hp
    · exact hp
    · rw [hpend] at hp
      cases hp
    · rw [hlost] at hp
      cases hp
    · -- with traffic since the last check the session does not time out, unless the limit wraps
      obtain ⟨hdelta, -, hle⟩ := hok.delta_eq hi hp hclock hcheck
      by_cases hl : IsInt (pingPong + pingPongTimeout)
      · rw [hdelta, limit_eq hl, pingPongTimeout] at hd
        omega
      · rw [(hok.overflow hl).1] at hdue
        cases hdue

/-- A check at most `USBWS_PING_PONG_TIMEOUT` seconds before a timeout check has asked for a
ping. -/
theorem PingOk.dueOf_of_gap_le (h : PingOk pingPong t₀ tr k) {t : ℤ} (hpp : 0 < pingPong)
    (hle : lastCheck t₀ tr ≤ t) (ht : t ≤ lastCheck t₀ tr + pingPongTimeout)
    (hint : IsInt (t - k.session.stamp))
    (hd : pingPong + pingPongTimeout ≤ t - k.session.stamp) : dueOf pingPong tr = true := by
  by_contra hn
  obtain ⟨-, -, hlt⟩ := h.notDue (by simpa using hn)
  obtain ⟨hlb, hub⟩ := hint
  simp only [pingPongTimeout] at ht hd
  have := hlt ⟨by omega, by omega⟩
  omega

/-- **A session is timed out only after an unanswered ping**, in a run of a daemon session, exactly
when at every timeout check the check before has asked for a ping that is neither waiting nor
lost. -/
theorem pinged_at_timeouts_iff {now : ℤ} (hpp : 0 < pingPong) (hi : IsInt pingPong)
    (he : (lts pingPong ok).Exec (start now) tr k) (ht : Timed pingPong now tr) :
    (∀ m ∈ tr, TimesOut pingPong m → m.pre.session.pinged = true) ↔ PingsOut pingPong tr := by
  induction he with
  | nil => exact iff_of_true (fun _ h => by cases h) trivial
  | @snoc tr k k' e hex hst ih =>
    simp only [List.forall_mem_cons, PingsOut, ih ht.1]
    have hiff : TimesOut pingPong ⟨k, e, k'⟩ →
        (k.session.pinged = true ↔ PingOut pingPong tr k) := by
      rintro ⟨hc, env, hch, hd⟩
      obtain ⟨buf, rfl⟩ := @exists_of_check env ⟨k, e, k'⟩ hch
      exact (pingOk_of_exec hpp hi hex ht.1 hc).pinged_iff (clockOk_of_exec hpp hi hex ht.1 hc) hi
        (ht.2.1 _ rfl) (ht.2.2 _ rfl) hd
    constructor
    · rintro ⟨h₁, h₂⟩
      exact ⟨h₂, fun hto => (hiff hto).1 (h₁ hto)⟩
    · rintro ⟨h₂, h₁⟩
      exact ⟨fun hto => (hiff hto).2 (h₁ hto), h₂⟩

/-- With the default interval a peer that is quiet for two minutes gets a ping at the first health
check. -/
theorem pinged_at_timeout_of_default : ∃ tr k, (lts 60 DataWrite.Valid).Exec (start 0) tr k ∧
    (∃ m ∈ tr, TimesOut 60 m) ∧ ∀ m ∈ tr, TimesOut 60 m → m.pre.session.pinged = true := by
  obtain ⟨tr, k, he, ht, hto, hp⟩ : ∃ tr k, (lts 60 DataWrite.Valid).Exec (start 0) tr k ∧
      Timed 60 0 tr ∧ (∃ m ∈ tr, TimesOut 60 m) ∧ PingsOut 60 tr :=
    LTS.exists_exec_of_replay
      [.callback .serverWriteable {} [], .callback .healthCheck { now := 60, sent := 1 } [],
        .callback .healthCheck { now := 120 } []] _ (fun _ _ _ h => h) (by decide)
  have hi : IsInt 60 := isInt_pingPongOf []
  exact ⟨tr, k, he, hto, (pinged_at_timeouts_iff (by decide) hi he ht).2 hp⟩

/-- With an interval of 61 seconds a quiet peer on a writable socket is given up by the second
health check; the first one comes a second too early for a ping. -/
theorem not_pinged_at_timeout : ∃ tr k, (lts 61 DataWrite.Valid).Exec (start 0) tr k ∧
    Timed 61 0 tr ∧ ∃ m ∈ tr, TimesOut 61 m ∧ m.pre.session.writable = true ∧
      m.pre.session.pinged = false :=
  LTS.exists_exec_of_replay
    [.callback .serverWriteable {} [], .callback .healthCheck { now := 60 } [],
      .callback .healthCheck { now := 121 } []] _ (fun _ _ _ h => h) (by decide)

/-- A health check writes no data, so it can come at any time. -/
theorem healthCheck_step (k : Conn) (env : Env) :
    (lts pingPong DataWrite.Valid).step k (.callback .healthCheck env [])
      { k with session := (k.session.checkSession pingPong env).session } := by
  refine callback_step rfl fun w hw => ?_
  rw [Session.handleSession, Session.checkSession_quiet.2] at hw
  cases hw

/-- If the limit wraps around, the first health check gives up a session just established. -/
theorem exists_timeout_of_overflow (hpp : 0 < pingPong) (hi : IsInt pingPong)
    (ho : ¬ IsInt (pingPong + pingPongTimeout)) :
    ∃ tr k, (lts pingPong DataWrite.Valid).Exec (start 0) tr k ∧ Timed pingPong 0 tr ∧
      ∃ m ∈ tr, TimesOut pingPong m ∧ m.pre.session.pinged = false := by
  refine ⟨_, _, LTS.Exec.nil.snoc (healthCheck_step (start 0) {}), ?_, _, List.mem_cons_self,
    ⟨rfl, {}, rfl, ?_⟩, rfl⟩
  · simp [Timed, Event.clock, Event.checkTime, lastTime, lastCheck, hpp.le]
  · have hneg := limit_neg hi ho
    simp only [start, Session.init, @delta_eq 0 {} (by decide)]
    omega

/-- **Beyond the timeout a quiet peer can be given up without a ping**, whatever the interval. -/
theorem exists_timeout_without_ping (h : pingPongTimeout < pingPong) (hi : IsInt pingPong) :
    ∃ tr k, (lts pingPong DataWrite.Valid).Exec (start 0) tr k ∧ Timed pingPong 0 tr ∧
      ∃ m ∈ tr, TimesOut pingPong m ∧ m.pre.session.pinged = false := by
  by_cases hl : IsInt (pingPong + pingPongTimeout)
  swap
  · exact exists_timeout_of_overflow (Int.lt_trans (by decide) h) hi hl
  have hlimit := limit_eq hl
  simp only [pingPongTimeout] at h hlimit
  -- the first check comes too early for a ping, and the second one too late
  have hearly : ((Session.init 0).checkSession pingPong { now := 60 }).session = .init 0 := by
    have hd : ({ now := 60 } : Env).delta 0 = 60 := rfl
    have hne : pingPong ≠ 0 := by omega
    have h₁ : ¬ (60 : ℤ) ≥ limit pingPong := by omega
    have h₂ : ¬ (60 : ℤ) ≥ pingPong := by omega
    simp [Session.checkSession, Session.init, hd, hne, h₁, h₂]
  have h₁ := @healthCheck_step pingPong (start 0) { now := 60 }
  have h₂ := @healthCheck_step pingPong (start 0) { now := pingPong + 60 }
  simp only [start, hearly] at h₁ h₂
  refine ⟨_, _, (LTS.Exec.nil.snoc h₁).snoc h₂, ?_, _, List.mem_cons_self,
    ⟨rfl, { now := pingPong + 60 }, rfl, ?_⟩, rfl⟩
  · simp [Timed, Event.clock, Event.checkTime, lastTime, lastCheck]
    omega
  · rw [delta_eq (by simpa [Session.init, pingPongTimeout] using hl), hlimit]
    simp [Session.init]

end Conn

end Usbws
