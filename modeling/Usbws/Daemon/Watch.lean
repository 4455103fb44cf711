import Mathlib.Data.Fintype.Basic
import Usbws.Conn.Watch

/-!
# The watch of the daemon

`usbws_service` calls `lws_service`, with the interval as timeout, and then `usbws_health_check`,
which visits every session of the context.  Meanwhile sessions are established and closed, and the
threads of the USB/IP library send, receive and shut down.

The health checks themselves take no time.  `lws_service` returns when its timeout is over, but the
handling of `CLOSED` may take longer: `usbws_wait_recv` sleeps, and `usbws_service_stop_session`
waits for the thread of the session.

* `Daemon` : the clock, the loop and the sessions.
* `Daemon.heard` : when something has come from the peer of a session.
* `Daemon.silence_lt` : no session continues with a peer that has been silent for two intervals and
  `USBWS_PING_PONG_TIMEOUT`, and the time spent on `CLOSED`; as long as the clock counts the seconds
  since the beginning in an `int`.
* `Daemon.given_up_iff` : and none is given up by the daemon before an interval and
  `USBWS_PING_PONG_TIMEOUT`, if that is an `int`.
-/

namespace Usbws

/-- The program points of the loop in `usbws_service`. -/
inductive LoopPc (ι : Type*) where
  /-- At `while (!usbws_ctx_stopped(&service_ctx))`. -/
  | test
  /-- In `lws_service`. -/
  | service
  /-- In `usbws_health_check`, with the sessions still to visit. -/
  | check (rest : List ι)
  /-- Behind the loop. -/
  | ended
  deriving DecidableEq, Repr

/-- The daemon with its sessions. -/
structure Daemon (ι : Type*) where
  /-- The time. -/
  clock : ℤ
  /-- `cont` of `service_ctx`. -/
  cont : Bool
  /-- Where the loop is. -/
  pc : LoopPc ι
  /-- When `lws_service` was entered last. -/
  entered : ℤ
  /-- How long it has handled `CLOSED` since then. -/
  busy : ℤ
  /-- The sessions between `ESTABLISHED` and `CLOSED`. -/
  conn : ι → Option Conn

namespace Daemon

variable {ι : Type*}

/-- What can happen in the daemon. -/
inductive Label (ι : Type*) where
  /-- The loop condition is evaluated. -/
  | test
  /-- Time passes in `lws_service`. -/
  | wait (d : ℕ)
  /-- A session is established. -/
  | established (i : ι)
  /-- An event of a session other than those of `ESTABLISHED`, `CLOSED` and a health check. -/
  | event (i : ι) (e : Event)
  /-- `CLOSED` is handled, in `d` seconds. -/
  | closed (i : ι) (d : ℕ)
  /-- `lws_service` returns; the health check will visit the sessions in the given order. -/
  | back (ok : Bool) (order : List ι)
  /-- The health check visits its next session. -/
  | visit (env : Env)
  /-- The health check is over. -/
  | checked
  /-- SIGINT has stopped the context. -/
  | stop
  deriving DecidableEq, Repr

/-- The event may happen at a program point of the loop: the callbacks apart from the broadcasts of
senders are delivered by `lws_service`. -/
def eventOk (inService : Bool) : Event → Bool
  | .callback .sendRequest _ _ => true
  | .callback reason _ _ =>
    inService && !reason.opens && !decide (reason = .closed) && !decide (reason = .healthCheck)
  | _ => true

section Next

variable [DecidableEq ι]

/-- A session makes a step. -/
def perform (pingPong : ℤ) (p : Daemon ι) (i : ι) (e : Event) : Option (Daemon ι) :=
  (p.conn i).bind fun k => (k.next pingPong DataWrite.Valid e).map fun k' =>
    { p with conn := Function.update p.conn i (some k') }

/-- The successor function. -/
def next [Fintype ι] (pingPong : ℤ) (p : Daemon ι) : Label ι → Option (Daemon ι)
  | .test =>
    if p.pc = .test then
      if p.cont then some { p with pc := .service, entered := p.clock, busy := 0 }
      else some { p with pc := .ended }
    else none
  | .wait d =>
    if p.pc = .service ∧ p.clock + d ≤ p.entered + p.busy + pingPong then
      some { p with clock := p.clock + d }
    else none
  | .established i =>
    if p.pc = .service ∧ p.conn i = none then
      some { p with conn := Function.update p.conn i (some (.start p.clock)) }
    else none
  | .event i e =>
    if eventOk (p.pc = .service) e = true ∧ ∀ t ∈ e.clock, t = p.clock then p.perform pingPong i e
    else none
  | .closed i d =>
    if p.pc = .service ∧ (p.conn i).isSome then
      some { p with
        clock := p.clock + d, busy := p.busy + d, conn := Function.update p.conn i none }
    else none
  | .back ok order =>
    if p.pc = .service then
      if ok then
        if ∀ i, (p.conn i).isSome = true → i ∈ order then some { p with pc := .check order }
        else none
      else some { p with pc := .ended }
    else none
  | .visit env =>
    match p.pc with
    | .check (i :: rest) =>
      if (p.conn i).isSome then
        if env.now = p.clock then
          ({ p with pc := .check rest } : Daemon ι).perform pingPong i
            (.callback .healthCheck env [])
        else none
      else some { p with pc := .check rest }
    | _ => none
  | .checked => if p.pc = .check [] then some { p with pc := .test } else none
  | .stop => some { p with cont := false }

/-- The system. -/
def lts [Fintype ι] (pingPong : ℤ) : LTS (Daemon ι) (Label ι) := .ofNext (next pingPong)

end Next

/-- The daemon in front of its loop. -/
def start (now : ℤ) : Daemon ι := ⟨now, true, .test, now, 0, fun _ => none⟩

/-- The moves of the system. -/
abbrev Move (ι : Type*) := LTS.Move (Daemon ι) (Label ι)

/-- When something has come from the peer of a session last; the establishment counts as well. -/
def heard [DecidableEq ι] (i : ι) : List (Move ι) → Option ℤ
  | [] => none
  | m :: tr =>
    match m.label with
    | .established j => if j = i then some m.pre.clock else heard i tr
    | .event j e => if j = i then e.traffic.or (heard i tr) else heard i tr
    | .closed j _ => if j = i then none else heard i tr
    | _ => heard i tr

/-- The session whose health check a move is, and what the check is told. -/
def visited (m : Move ι) : Option (ι × Env) :=
  match m.label, m.pre.pc with
  | .visit env, .check (i :: _) => some (i, env)
  | _, _ => none

variable [DecidableEq ι] [Fintype ι] {pingPong : ℤ} {p p' : Daemon ι} {l : Label ι} {i : ι}
  {tr : List (Move ι)} {k k' : Conn} {t₀ : ℤ} {env : Env}

/-! ### The steps -/

/-- The steps of the system one by one. -/
inductive Step (pingPong : ℤ) (p : Daemon ι) : Label ι → Daemon ι → Prop
  | enter : p.pc = .test → p.cont = true →
      Step pingPong p .test { p with pc := .service, entered := p.clock, busy := 0 }
  | leave : p.pc = .test → p.cont = false → Step pingPong p .test { p with pc := .ended }
  | wait {d : ℕ} : p.pc = .service → p.clock + d ≤ p.entered + p.busy + pingPong →
      Step pingPong p (.wait d) { p with clock := p.clock + d }
  | established {i : ι} : p.pc = .service → p.conn i = none → Step pingPong p (.established i)
      { p with conn := Function.update p.conn i (some (.start p.clock)) }
  | event {i : ι} {e : Event} {k k' : Conn} : eventOk (p.pc = .service) e = true →
      (∀ t ∈ e.clock, t = p.clock) → p.conn i = some k →
      (Conn.lts pingPong DataWrite.Valid).step k e k' →
      Step pingPong p (.event i e) { p with conn := Function.update p.conn i (some k') }
  | closed {i : ι} {d : ℕ} : p.pc = .service → Step pingPong p (.closed i d)
      { p with clock := p.clock + d, busy := p.busy + d, conn := Function.update p.conn i none }
  | back {order : List ι} : p.pc = .service → (∀ i, (p.conn i).isSome = true → i ∈ order) →
      Step pingPong p (.back true order) { p with pc := .check order }
  | fail {order : List ι} : p.pc = .service → Step pingPong p (.back false order)
      { p with pc := .ended }
  | visit {env : Env} {i : ι} {rest : List ι} {k k' : Conn} : p.pc = .check (i :: rest) →
      p.conn i = some k → env.now = p.clock →
      (Conn.lts pingPong DataWrite.Valid).step k (.callback .healthCheck env []) k' →
      Step pingPong p (.visit env)
        { p with pc := .check rest, conn := Function.update p.conn i (some k') }
  | skip {env : Env} {i : ι} {rest : List ι} : p.pc = .check (i :: rest) → p.conn i = none →
      Step pingPong p (.visit env) { p with pc := .check rest }
  | checked : p.pc = .check [] → Step pingPong p .checked { p with pc := .test }
  | stop : Step pingPong p .stop { p with cont := false }

theorem step_of_next (h : (lts pingPong).step p l p') : Step pingPong p l p' := by
  change next pingPong p l = some p' at h
  cases l with
  | test =>
    simp only [next, Option.ite_none_right_eq_some] at h
    obtain ⟨hpc, h⟩ := h
    split_ifs at h with hc
    · cases h
      exact .enter hpc hc
    · cases h
      exact .leave hpc (by simpa using hc)
  | wait d =>
    simp only [next, Option.ite_none_right_eq_some, Option.some.injEq] at h
    obtain ⟨⟨hpc, hd⟩, rfl⟩ := h
    exact .wait hpc hd
  | established i =>
    simp only [next, Option.ite_none_right_eq_some, Option.some.injEq] at h
    obtain ⟨⟨hpc, hn⟩, rfl⟩ := h
    exact .established hpc hn
  | event i e =>
    simp only [next, Option.ite_none_right_eq_some] at h
    obtain ⟨⟨he, ht⟩, h⟩ := h
    obtain ⟨k, hk, h⟩ := Option.bind_eq_some_iff.1 h
    obtain ⟨k', hk', rfl⟩ := Option.map_eq_some_iff.1 h
    exact .event he ht hk hk'
  | closed i d =>
    simp only [next, Option.ite_none_right_eq_some, Option.some.injEq] at h
    obtain ⟨⟨hpc, -⟩, rfl⟩ := h
    exact .closed hpc
  | back ok order =>
    simp only [next, Option.ite_none_right_eq_some] at h
    obtain ⟨hpc, h⟩ := h
    cases ok with
    | true =>
      simp only [if_true, Option.ite_none_right_eq_some, Option.some.injEq] at h
      obtain ⟨ho, rfl⟩ := h
      exact .back hpc ho
    | false => cases h; exact .fail hpc
  | visit env =>
    simp only [next] at h
    split at h
    · rename_i i rest hpc
      split_ifs at h with hi hn
      · obtain ⟨k, hk, h⟩ := Option.bind_eq_some_iff.1 h
        obtain ⟨k', hk', rfl⟩ := Option.map_eq_some_iff.1 h
        exact .visit hpc hk hn hk'
      · cases h
        exact .skip hpc (by simpa using hi)
    · cases h
  | checked =>
    simp only [next, Option.ite_none_right_eq_some, Option.some.injEq] at h
    obtain ⟨hpc, rfl⟩ := h
    exact .checked hpc
  | stop => cases h; exact .stop

/-! ### The invariant -/

omit [DecidableEq ι] [Fintype ι] in
/-- Traffic is stamped with the clock. -/
theorem traffic_eq_clock {e : Event} {c t : ℤ} (ht : ∀ t ∈ e.clock, t = c) (h : t ∈ e.traffic) :
    t = c :=
  ht t (Conn.clock_of_traffic h)

omit [DecidableEq ι] [Fintype ι] in
/-- The stamp of a session that continues is the old one or the time. -/
theorem stamp_of_event {e : Event} {c : ℤ} (ht : ∀ t ∈ e.clock, t = c)
    (hst : (Conn.lts pingPong DataWrite.Valid).step k e k') (hc : k'.session.cont = true) :
    k'.session.stamp = k.session.stamp ∨ k'.session.stamp = c := by
  rw [Conn.stamp_step hst hc]
  cases htr : e.traffic with
  | none => exact .inl rfl
  | some t => exact .inr (traffic_eq_clock ht (Option.mem_def.2 htr))

/-- No session that continues was stamped before the beginning or in the future. -/
structure Stamped (t₀ : ℤ) (p : Daemon ι) : Prop where
  began : t₀ ≤ p.clock
  stamp : ∀ i k, p.conn i = some k → k.session.cont = true →
    t₀ ≤ k.session.stamp ∧ k.session.stamp ≤ p.clock

omit [DecidableEq ι] [Fintype ι] in
theorem start_stamped (now : ℤ) : (start now : Daemon ι).Stamped now :=
  ⟨le_rfl, fun _ _ h => by cases h⟩

/-- The clock does not go back. -/
theorem clock_le_of_step (hst : (lts pingPong).step p l p') : p.clock ≤ p'.clock := by
  cases step_of_next hst with
  | wait | closed => exact Int.le_add_of_nonneg_right (Int.natCast_nonneg _)
  | _ => exact le_rfl

omit [DecidableEq ι] [Fintype ι] in
theorem Stamped.later (h : p.Stamped t₀) (d : ℕ) {conn : ι → Option Conn}
    (hconn : ∀ i k, conn i = some k → p.conn i = some k) (pc : LoopPc ι) (entered busy : ℤ)
    (cont : Bool) : Stamped t₀ ⟨p.clock + d, cont, pc, entered, busy, conn⟩ := by
  have hb := h.began
  refine ⟨by dsimp only; omega, fun i k hk hc => ?_⟩
  obtain ⟨h₁, h₂⟩ := h.stamp i k (hconn i k hk) hc
  exact ⟨h₁, by dsimp only; omega⟩

omit [Fintype ι] in
/-- A session is stamped with the time, if at all. -/
theorem Stamped.update (h : p.Stamped t₀) {pc : LoopPc ι}
    (hs : k'.session.cont = true → t₀ ≤ k'.session.stamp ∧ k'.session.stamp ≤ p.clock) :
    Stamped t₀ { p with pc := pc, conn := Function.update p.conn i (some k') } := by
  refine ⟨h.began, fun j x hx hcx => ?_⟩
  by_cases hj : j = i
  · subst hj
    simp only [Function.update_self, Option.some.injEq] at hx
    subst hx
    exact hs hcx
  · simp only [Function.update_of_ne hj] at hx
    exact h.stamp j x hx hcx

theorem Stamped.step (h : p.Stamped t₀) (hst : (lts pingPong).step p l p') : p'.Stamped t₀ := by
  cases step_of_next hst with
  | enter | leave | back | fail | skip | checked | stop => exact ⟨h.began, h.stamp⟩
  | @wait d => exact h.later d (fun _ _ hk => hk) _ _ _ _
  | @closed i d =>
    refine h.later d (fun j k hk => ?_) _ _ _ _
    have hj : j ≠ i := by
      rintro rfl
      simp at hk
    rwa [Function.update_of_ne hj] at hk
  | established => exact h.update fun _ => ⟨h.began, le_rfl⟩
  | @event i e k k' _ ht hk hs =>
    refine h.update fun hc => ?_
    have hold := h.stamp i k hk (Conn.cont_of_step hs hc)
    rcases stamp_of_event ht hs hc with hstamp | hstamp <;> rw [hstamp]
    · exact hold
    · exact ⟨h.began, le_rfl⟩
  | @visit env i rest k k' _ hk _ hs =>
    refine h.update fun hc => ?_
    rw [Conn.stamp_step hs hc]
    exact h.stamp i k hk (Conn.cont_of_step hs hc)

/-- The session has been visited since `lws_service` returned. -/
def passedBy (i : ι) : LoopPc ι → Prop
  | .test => True
  | .check rest => i ∉ rest
  | .service | .ended => False

/-- What the loop knows about the sessions that continue. -/
structure WatchOk (pingPong : ℤ) (p : Daemon ι) : Prop where
  /-- `lws_service` returns in time, but for `CLOSED`. -/
  clock : p.clock ≤ p.entered + p.busy + pingPong
  entered : p.entered ≤ p.clock
  /-- The last health check has found no session silent for too long. -/
  stamp : ∀ i k, p.conn i = some k → k.session.cont = true →
    p.entered < k.session.stamp + pingPong + pingPongTimeout
  /-- Nor has the present one. -/
  passed : ∀ i k, p.conn i = some k → k.session.cont = true → passedBy i p.pc →
    p.clock < k.session.stamp + pingPong + pingPongTimeout

omit [DecidableEq ι] [Fintype ι] in
theorem start_watchOk (hpp : 0 < pingPong) (now : ℤ) :
    (start now : Daemon ι).WatchOk pingPong where
  clock := by simp only [start]; omega
  entered := le_rfl
  stamp _ _ h := by cases h
  passed _ _ h := by cases h

omit [Fintype ι] in
/-- A session makes a step, and the health check may go on behind it. -/
theorem WatchOk.update (h : p.WatchOk pingPong) (hpp : 0 < pingPong) {pc : LoopPc ι}
    (hk : p.conn i = some k) (hc : k'.session.cont = true → k.session.cont = true)
    (hs : k'.session.cont = true →
      k'.session.stamp = k.session.stamp ∨ k'.session.stamp = p.clock)
    (hp : ∀ j, passedBy j pc → passedBy j p.pc ∨ j = i ∧ (k'.session.cont = true →
      p.clock < k'.session.stamp + pingPong + pingPongTimeout)) :
    WatchOk pingPong { p with pc := pc, conn := Function.update p.conn i (some k') } := by
  have he := h.entered
  simp only [pingPongTimeout] at hp
  refine ⟨h.clock, he, ?_, ?_⟩
  · intro j x hx hcx
    by_cases hj : j = i
    · subst hj
      simp only [Function.update_self, Option.some.injEq] at hx
      subst hx
      have hold := h.stamp j k hk (hc hcx)
      simp only [pingPongTimeout] at hold ⊢
      rcases hs hcx with hst | hst <;> rw [hst]
      · exact hold
      · omega
    · simp only [Function.update_of_ne hj] at hx
      exact h.stamp j x hx hcx
  · intro j x hx hcx hpass
    by_cases hj : j = i
    · subst hj
      simp only [Function.update_self, Option.some.injEq] at hx
      subst hx
      rcases hp j hpass with hpass | ⟨-, hnew⟩
      · have hold := h.passed j k hk (hc hcx) hpass
        simp only [pingPongTimeout] at hold ⊢
        rcases hs hcx with hst | hst <;> rw [hst]
        · exact hold
        · omega
      · exact hnew hcx
    · simp only [Function.update_of_ne hj] at hx
      exact h.passed j x hx hcx ((hp j hpass).resolve_right fun hn => hj hn.1)

omit [DecidableEq ι] [Fintype ι] in
/-- While `lws_service` runs no session counts as visited. -/
theorem not_passedBy_of_service (hpc : p.pc = .service) : ¬ passedBy i p.pc := by
  rw [hpc]
  exact id

omit [Fintype ι] in
/-- A new session has just been heard. -/
theorem WatchOk.established (h : p.WatchOk pingPong) (hpp : 0 < pingPong) (hpc : p.pc = .service)
    (i : ι) : WatchOk pingPong
      { p with conn := Function.update p.conn i (some (.start p.clock)) } := by
  have hent := h.entered
  refine ⟨h.clock, hent, fun j x hx hc => ?_, fun j x _ _ hp => ?_⟩
  · by_cases hj : j = i
    · subst hj
      simp only [Function.update_self, Option.some.injEq] at hx
      subst hx
      simp only [Conn.start, Session.init, pingPongTimeout]
      omega
    · simp only [Function.update_of_ne hj] at hx
      exact h.stamp j x hx hc
  · exact absurd hp (not_passedBy_of_service hpc)

omit [Fintype ι] in
/-- The time that `CLOSED` takes is counted apart. -/
theorem WatchOk.closed (h : p.WatchOk pingPong) (hpc : p.pc = .service) (i : ι) (d : ℕ) :
    WatchOk pingPong { p with
      clock := p.clock + d, busy := p.busy + d, conn := Function.update p.conn i none } := by
  have hclock := h.clock
  have hent := h.entered
  refine ⟨?_, ?_, fun j x hx hc => ?_, fun j x _ _ hp => ?_⟩
  · dsimp only
    omega
  · dsimp only
    omega
  · have hj : j ≠ i := by
      rintro rfl
      simp at hx
    simp only [Function.update_of_ne hj] at hx
    exact h.stamp j x hx hc
  · exact absurd hp (not_passedBy_of_service hpc)

/-- **Every step of the daemon keeps its watch**, as long as the clock counts in an `int`. -/
theorem WatchOk.step (h : p.WatchOk pingPong) (hpp : 0 < pingPong) (hi : IsInt pingPong)
    (hs₀ : p.Stamped t₀) (hb : p.clock - t₀ < 2 ^ 31) (hst : (lts pingPong).step p l p') :
    p'.WatchOk pingPong := by
  have hclock := h.clock
  have hent := h.entered
  cases step_of_next hst with
  | enter hpc =>
    refine ⟨?_, le_rfl, ?_, fun _ _ _ _ hp => hp.elim⟩
    · dsimp only
      omega
    · intro i k hk hc
      exact h.passed i k hk hc (by rw [hpc]; trivial)
  | leave | fail => exact ⟨hclock, hent, h.stamp, fun _ _ _ _ hp => hp.elim⟩
  | wait hpc hd =>
    refine ⟨hd, ?_, h.stamp, ?_⟩
    · dsimp only
      omega
    · intro i k _ _ hp
      exact absurd hp (not_passedBy_of_service hpc)
  | established hpc => exact h.established hpp hpc _
  | event _ ht hk hs =>
    exact h.update hpp hk (Conn.cont_of_step hs) (stamp_of_event ht hs) fun _ => .inl
  | closed hpc => exact h.closed hpc _ _
  | back hpc hall =>
    refine ⟨hclock, hent, h.stamp, ?_⟩
    intro i k hk hc hp
    exact absurd (hall i (by rw [hk]; rfl)) hp
  | @visit env i rest k k' hpc hk hn hs =>
    have hiff := Conn.cont_step_iff hs
    have hstamp : k'.session.cont = true → k'.session.stamp = k.session.stamp := fun hc => by
      rw [Conn.stamp_step hs hc]
      rfl
    refine h.update hpp hk (Conn.cont_of_step hs) (fun hc => .inl (hstamp hc)) ?_
    intro j hj
    by_cases hji : j = i
    · refine .inr ⟨hji, fun hc => ?_⟩
      -- the check has not given the session up
      have hends := (hiff.1 hc).2
      simp only [Conn.ends, decide_eq_false_iff_not, not_and, not_le] at hends
      have hlt := hends (Int.ne_of_gt hpp)
      obtain ⟨h₁, h₂⟩ := hs₀.stamp i k hk (hiff.1 hc).1
      rw [delta_eq ⟨by omega, by omega⟩, hn] at hlt
      have hle := limit_le hi hpp
      rw [hstamp hc]
      omega
    · refine .inl ?_
      rw [hpc]
      simpa [passedBy, hji] using hj
  | @skip env i rest hpc hn =>
    refine ⟨hclock, hent, h.stamp, ?_⟩
    intro j k hk hc hp
    refine h.passed j k hk hc ?_
    have hji : j ≠ i := by
      rintro rfl
      rw [hn] at hk
      cases hk
    rw [hpc]
    simpa [passedBy, hji] using hp
  | checked hpc =>
    refine ⟨hclock, hent, h.stamp, ?_⟩
    intro i k hk hc _
    exact h.passed i k hk hc (by rw [hpc]; exact List.not_mem_nil)
  | stop => exact ⟨hclock, hent, h.stamp, h.passed⟩

/-! ### What has been heard -/

/-- A session that continues was stamped when something was heard last. -/
theorem heard_eq {now : ℤ} (he : (lts pingPong).Exec (start now) tr p) (hk : p.conn i = some k)
    (hc : k.session.cont = true) : heard i tr = some k.session.stamp := by
  induction he generalizing k with
  | nil => cases hk
  | @snoc tr p p' l hex hst ih =>
    cases step_of_next hst with
    | enter | leave | wait | back | fail | skip | checked | stop => exact ih hk hc
    | @established j _ hn =>
      by_cases hj : j = i
      · subst hj
        simp only [Function.update_self, Option.some.injEq] at hk
        subst hk
        simp [heard, Conn.start, Session.init]
      · simp only [Function.update_of_ne (Ne.symm hj)] at hk
        simpa [heard, hj] using ih hk hc
    | @event j e x x' _ ht hx hs =>
      by_cases hj : j = i
      · subst hj
        simp only [Function.update_self, Option.some.injEq] at hk
        subst hk
        have hold := ih hx (Conn.cont_of_step hs hc)
        rw [Conn.stamp_step hs hc]
        cases htr : e.traffic <;> simp [heard, htr, hold]
      · simp only [Function.update_of_ne (Ne.symm hj)] at hk
        simpa [heard, hj] using ih hk hc
    | @closed j d =>
      have hj : j ≠ i := by
        rintro rfl
        simp at hk
      simp only [Function.update_of_ne (Ne.symm hj)] at hk
      simpa [heard, hj] using ih hk hc
    | @visit env j rest x x' _ hx _ hs =>
      by_cases hj : j = i
      · subst hj
        simp only [Function.update_self, Option.some.injEq] at hk
        subst hk
        rw [Conn.stamp_step hs hc]
        exact ih hx (Conn.cont_of_step hs hc)
      · simp only [Function.update_of_ne (Ne.symm hj)] at hk
        exact ih hk hc

/-- **A silent peer is noticed.**  In every run of the daemon with an interval, and at any time
until the seconds since the beginning are no `int` any more, each session that continues has heard
from its peer less than two intervals and `USBWS_PING_PONG_TIMEOUT` ago, not counting the time that
the present `lws_service` has spent on `CLOSED`. -/
theorem silence_lt {now : ℤ} (hpp : 0 < pingPong) (hi : IsInt pingPong)
    (he : (lts pingPong).Exec (start now) tr p) (hb : p.clock - now < 2 ^ 31)
    (hk : p.conn i = some k) (hc : k.session.cont = true) :
    ∃ t ∈ heard i tr, p.clock - t < 2 * pingPong + pingPongTimeout + p.busy := by
  have hall : p.Stamped now ∧ (p.clock - now < 2 ^ 31 → p.WatchOk pingPong) := by
    refine he.invariant (I := fun p => p.Stamped now ∧ (p.clock - now < 2 ^ 31 →
      p.WatchOk pingPong)) ⟨start_stamped now, fun _ => start_watchOk hpp now⟩ ?_
    intro p l p' h hst
    refine ⟨h.1.step hst, fun hb => ?_⟩
    have hle := clock_le_of_step hst
    have hb' : p.clock - now < 2 ^ 31 := by omega
    exact (h.2 hb').step hpp hi h.1 hb' hst
  have hok := hall.2 hb
  refine ⟨k.session.stamp, heard_eq he hk hc, ?_⟩
  have hclock := hok.clock
  have hstamp := hok.stamp i k hk hc
  omega

/-- A session is established and nothing comes; the daemon has not yet looked at it for the second
time. -/
theorem silence_lt_of_one_visit : ∃ tr p k, (lts 60).Exec (start 0 : Daemon Unit) tr p ∧
    p.conn () = some k ∧ k.session.cont = true ∧ p.clock = 120 ∧
    ∃ t ∈ heard () tr, p.clock - t < 2 * 60 + pingPongTimeout + p.busy := by
  obtain ⟨tr, p, he, hp, hc⟩ : ∃ tr p, (lts 60).Exec (start 0 : Daemon Unit) tr p ∧
      (p.conn ()).any (fun k => k.session.cont) = true ∧ p.clock = 120 :=
    LTS.exists_exec_of_replay
      [.test, .established (), .wait 60, .back true [()], .visit { now := 60 }, .checked, .test,
        .wait 60] _ (fun _ _ _ h => h) (by decide)
  cases hk : p.conn () with
  | none =>
    rw [hk] at hp
    cases hp
  | some k =>
    rw [hk] at hp
    exact ⟨tr, p, k, he, hk, hp, hc,
      silence_lt (by decide) (by decide) he (by rw [hc]; decide) hk hp⟩

/-! ### Who is given up -/

omit [DecidableEq ι] [Fintype ι] in
/-- Only `usbws_shutdown` ends a session outside `CLOSED` and the health checks. -/
theorem ends_iff_of_eventOk {inService : Bool} {e : Event} {t : ℤ}
    (h : eventOk inService e = true) : Conn.ends pingPong t e = true ↔ e = .shutdown := by
  cases e with
  | shutdown => simp [Conn.ends]
  | callback reason env buf => cases reason <;> simp_all [eventOk, Conn.ends]
  | _ => simp [Conn.ends]

/-- What discontinues a session, by its stamp. -/
theorem discontinued_iff_of_step (hst : (lts pingPong).step p l p') (hk : p.conn i = some k)
    (hk' : p'.conn i = some k') (hc : k.session.cont = true) :
    k'.session.cont = false ↔ l = .event i .shutdown ∨
      ∃ env, visited ⟨p, l, p'⟩ = some (i, env) ∧ env.now = p.clock ∧ pingPong ≠ 0 ∧
        limit pingPong ≤ env.delta k.session.stamp := by
  -- a step that has nothing to do with the session
  have hother : some k = some k' → l ≠ .event i .shutdown →
      (∀ env, visited ⟨p, l, p'⟩ ≠ some (i, env)) →
      (k'.session.cont = false ↔ l = .event i .shutdown ∨
        ∃ env, visited ⟨p, l, p'⟩ = some (i, env) ∧ env.now = p.clock ∧ pingPong ≠ 0 ∧
          limit pingPong ≤ env.delta k.session.stamp) := by
    rintro h hl hv
    cases h
    simp [hc, hl, hv]
  cases step_of_next hst with
  | enter | leave | wait | back | fail | checked | stop =>
    exact hother (hk.symm.trans hk') (by simp) (by simp [visited])
  | @established j _ hn =>
    have hj : i ≠ j := by
      rintro rfl
      rw [hk] at hn
      cases hn
    simp only [Function.update_of_ne hj] at hk'
    exact hother (hk.symm.trans hk') (by simp) (by simp [visited])
  | @closed j d =>
    have hj : i ≠ j := by
      rintro rfl
      simp at hk'
    simp only [Function.update_of_ne hj] at hk'
    exact hother (hk.symm.trans hk') (by simp) (by simp [visited])
  | @event j e x x' hok ht hx hs =>
    by_cases hj : i = j
    · subst hj
      simp only [Function.update_self, Option.some.injEq] at hk'
      subst hk'
      cases hk.symm.trans hx
      rw [← Bool.not_eq_true, Conn.cont_step_iff hs]
      simp only [hc, visited, Label.event.injEq, true_and, reduceCtorEq, false_and, exists_false,
        or_false, Bool.not_eq_false]
      exact ends_iff_of_eventOk hok
    · simp only [Function.update_of_ne hj] at hk'
      exact hother (hk.symm.trans hk') (by simp [Ne.symm hj]) (by simp [visited])
  | @visit env j rest x x' hpc hx hn hs =>
    by_cases hj : i = j
    · subst hj
      simp only [Function.update_self, Option.some.injEq] at hk'
      subst hk'
      cases hk.symm.trans hx
      rw [← Bool.not_eq_true, Conn.cont_step_iff hs]
      simp [hc, visited, hpc, Conn.ends, hn]
    · simp only [Function.update_of_ne hj] at hk'
      exact hother (hk.symm.trans hk') (by simp) (by simp [visited, hpc, Ne.symm hj])
  | @skip env j rest hpc hn =>
    have hj : j ≠ i := by
      rintro rfl
      rw [hk] at hn
      cases hn
    exact hother (hk.symm.trans hk') (by simp) (by simp [visited, hpc, hj])

/-- **Who is given up.**  In every run of the daemon, a session that continues is discontinued by a
step, other than the handling of its `CLOSED`, exactly if its thread shuts it down or if a health
check visits it with an interval other than 0 and nothing has been heard of its peer for the
interval and `USBWS_PING_PONG_TIMEOUT`, both numbers taken as `int`. -/
theorem given_up_iff {now : ℤ} (he : (lts pingPong).Exec (start now) tr p) (m : Move ι)
    (tr' : List (Move ι)) (hm : m :: tr' <:+ tr) (hk : m.pre.conn i = some k)
    (hk' : m.post.conn i = some k') (hc : k.session.cont = true) :
    k'.session.cont = false ↔ m.label = .event i .shutdown ∨
      ∃ env, visited m = some (i, env) ∧ env.now = m.pre.clock ∧ pingPong ≠ 0 ∧
        ∃ t ∈ heard i tr', limit pingPong ≤ env.delta t := by
  induction he with
  | nil => simp at hm
  | @snoc tr p p' l hex hst ih =>
    rcases List.suffix_cons_iff.1 hm with h | h
    · cases h
      rw [discontinued_iff_of_step hst hk hk' hc, heard_eq hex hk hc]
      simp
    · exact ih h

/-- The first health check keeps a silent session, the second one gives it up. -/
theorem given_up_of_two_visits : ∃ tr p m tr' k k',
    (lts 60).Exec (start 0 : Daemon Unit) tr p ∧ m :: tr' <:+ tr ∧ m.pre.conn () = some k ∧
    m.post.conn () = some k' ∧ k.session.cont = true ∧ k'.session.cont = false ∧
    ∃ env, visited m = some ((), env) ∧ ∃ t ∈ heard () tr', limit 60 ≤ env.delta t := by
  obtain ⟨tr, p, he, h⟩ : ∃ tr p, (lts 60).Exec (start 0 : Daemon Unit) tr p ∧
      tr.head?.any (fun m => (m.pre.conn ()).any (fun k => k.session.cont) &&
        (m.post.conn ()).any (fun k => !k.session.cont) && (visited m).isSome) = true :=
    LTS.exists_exec_of_replay
      [.test, .established (), .wait 60, .back true [()], .visit { now := 60 }, .checked, .test,
        .wait 60, .back true [()], .visit { now := 120 }] _ (fun _ _ _ h => h) (by decide)
  cases tr with
  | nil => cases h
  | cons m tr' =>
    simp only [List.head?_cons, Option.any_some, Bool.and_eq_true, Option.any_eq_true,
      Bool.not_eq_true'] at h
    obtain ⟨⟨⟨k, hk, hc⟩, k', hk', hc'⟩, hv⟩ := h
    rcases (given_up_iff he m tr' List.suffix_rfl hk hk' hc).1 hc' with hl | ⟨env, hv, -, -, ht⟩
    · simp [visited, hl] at hv
    · exact ⟨m :: tr', p, m, tr', k, k', he, List.suffix_rfl, hk, hk', hc, hc', env, hv, ht⟩

end Daemon

end Usbws
