import Usbws.Data.CString
import Usbws.Session.Callback

/-!
# The interval of ping and pong

The option `-i` of the daemon and of the commands gives the interval for ping and pong in seconds.
It is a `long` for `strtol`, an `int` in the context, and from there three computations take it:
the timeouts of `lws_service` in milliseconds, in the daemon and in a client, and the time behind
which `usbws_check_session` gives a session up.

* `setPingPong`, `pingPongOf` : the interval of the context.
* `serviceTimeout`, `clientTimeout`, `killAfter` : the three computations; `none` is an overflow.
* `DaemonSafe`, `ClientSafe` : in either program the interval is kept, nothing overflows and the
  timeout is positive.
* `interval_safe_iff` : for which values they hold.

Nothing checks the value.  The value 0, which turns ping and pong off, gives the daemon a timeout of
0; a client adds a margin.
-/

namespace Usbws

/-- `USBWS_PING_PONG_DEFAULT`. -/
def pingPongDefault : ℤ := 60

/-- `USBWS_PING_PONG_CLIENT_MARGIN`. -/
def pingPongClientMargin : ℤ := 60

/-- `usbws_ctx_set_ping_pong` with a `long`, which is converted to `int`. -/
def setPingPong (n : ℤ) : ℤ := intOf n

/-- `ctx->ping_pong` behind the options, given the arguments of `-i` in their order. -/
def pingPongOf (args : List CStr) : ℤ :=
  args.foldl (fun _ arg => setPingPong (strtol arg)) pingPongDefault

/-- `timeout` in `usbws_service`. -/
def serviceTimeout (pingPong : ℤ) : Option ℤ := checkInt (pingPong * 1000)

/-- `timeout` in `usbws_client`. -/
def clientTimeout (pingPong : ℤ) : Option ℤ :=
  (checkInt (pingPong + pingPongClientMargin)).bind fun n => checkInt (n * 1000)

/-- The seconds without traffic behind which `usbws_check_session` gives a session up. -/
def killAfter (pingPong : ℤ) : Option ℤ := checkInt (pingPong + pingPongTimeout)

/-- The daemon works with the value given for the interval. -/
structure DaemonSafe (n : ℤ) : Prop where
  stored : setPingPong n = n
  timeout : ∃ t, serviceTimeout (setPingPong n) = some t ∧ 0 < t
  kill : killAfter (setPingPong n) ≠ none

/-- A client works with the value given for the interval. -/
structure ClientSafe (n : ℤ) : Prop where
  stored : setPingPong n = n
  timeout : ∃ t, clientTimeout (setPingPong n) = some t ∧ 0 < t
  kill : killAfter (setPingPong n) ≠ none

/-! ### The interval of the context -/

/-- The last argument counts. -/
theorem pingPongOf_append (args : List CStr) (arg : CStr) :
    pingPongOf (args ++ [arg]) = setPingPong (strtol arg) := by
  simp [pingPongOf]

/-- The interval is a value of type `int`, whatever the arguments. -/
theorem isInt_pingPongOf (args : List CStr) : IsInt (pingPongOf args) := by
  rcases List.eq_nil_or_concat args with rfl | ⟨init, arg, rfl⟩
  · decide
  · rw [List.concat_eq_append, pingPongOf_append]
    exact isInt_intOf _

/-! ### The computations -/

theorem serviceTimeout_eq_some_iff {n t : ℤ} :
    serviceTimeout n = some t ↔ IsInt (n * 1000) ∧ n * 1000 = t := checkInt_eq_some_iff

theorem clientTimeout_eq_some_iff {n t : ℤ} : clientTimeout n = some t ↔
    IsInt (n + 60) ∧ IsInt ((n + 60) * 1000) ∧ (n + 60) * 1000 = t := by
  simp only [clientTimeout, pingPongClientMargin, Option.bind_eq_some_iff, checkInt_eq_some_iff]
  constructor
  · rintro ⟨m, ⟨hm, rfl⟩, ht⟩
    exact ⟨hm, ht⟩
  · rintro ⟨hm, ht⟩
    exact ⟨_, ⟨hm, rfl⟩, ht⟩

theorem killAfter_ne_none_iff {n : ℤ} : killAfter n ≠ none ↔ IsInt (n + 60) := by
  unfold killAfter pingPongTimeout checkInt
  split_ifs with h <;> simp [h]

/-- Where `usbws_check_session` computes its limit without overflow, it gives a continuing session
up exactly when that much time has passed. -/
theorem checkSession_of_killAfter {s : Session} {n t : ℤ} {env : Env} (hc : s.cont = true)
    (hn : n ≠ 0) (ht : killAfter n = some t) (hi : IsInt (env.now - s.stamp)) :
    (s.checkSession n env).session.cont = false ↔ t ≤ env.now - s.stamp := by
  obtain ⟨hl, rfl⟩ := checkInt_eq_some_iff.1 ht
  rw [← limit_le_delta_iff hl hi]
  by_cases hd : env.delta s.stamp ≥ limit n
  · refine iff_of_true ?_ hd
    simp [Session.checkSession, hc, hn, hd, Session.usbwsSendPing_keeps.cont, Session.discontinue]
  · refine iff_of_false ?_ hd
    simp only [Session.checkSession, hc, hn, hd, Bool.not_true, Bool.false_eq_true, if_false]
    split_ifs
    · simp [Session.usbwsSendPing_keeps.cont, hc]
    · simp [hc]

/-! ### The safe values -/

theorem daemonSafe_iff (n : ℤ) : DaemonSafe n ↔ 1 ≤ n ∧ n ≤ 2147483 := by
  constructor
  · rintro ⟨hs, ⟨t, ht, hpos⟩, -⟩
    rw [hs, serviceTimeout_eq_some_iff] at ht
    obtain ⟨⟨-, hlt⟩, rfl⟩ := ht
    omega
  · rintro ⟨h₁, h₂⟩
    have hs : setPingPong n = n := intOf_eq_self_iff.2 ⟨by omega, by omega⟩
    refine ⟨hs, ⟨n * 1000, ?_, by omega⟩, ?_⟩
    · rw [hs, serviceTimeout_eq_some_iff]
      exact ⟨⟨by omega, by omega⟩, rfl⟩
    · rw [hs, killAfter_ne_none_iff]
      exact ⟨by omega, by omega⟩

theorem clientSafe_iff (n : ℤ) : ClientSafe n ↔ -59 ≤ n ∧ n ≤ 2147423 := by
  constructor
  · rintro ⟨hs, ⟨t, ht, hpos⟩, -⟩
    rw [hs, clientTimeout_eq_some_iff] at ht
    obtain ⟨-, ⟨-, hlt⟩, rfl⟩ := ht
    omega
  · rintro ⟨h₁, h₂⟩
    have hs : setPingPong n = n := intOf_eq_self_iff.2 ⟨by omega, by omega⟩
    refine ⟨hs, ⟨(n + 60) * 1000, ?_, by omega⟩, ?_⟩
    · rw [hs, clientTimeout_eq_some_iff]
      exact ⟨⟨by omega, by omega⟩, ⟨by omega, by omega⟩, rfl⟩
    · rw [hs, killAfter_ne_none_iff]
      exact ⟨by omega, by omega⟩

/-- **The arithmetic of the interval is safe** exactly from 1 to 2147483 in the daemon, and from -59
to 2147423 in a client. -/
theorem interval_safe_iff (n : ℤ) : (DaemonSafe n ↔ 1 ≤ n ∧ n ≤ 2147483) ∧
    (ClientSafe n ↔ -59 ≤ n ∧ n ≤ 2147423) ∧
    (DaemonSafe n ∧ ClientSafe n ↔ 1 ≤ n ∧ n ≤ 2147423) := by
  refine ⟨daemonSafe_iff n, clientSafe_iff n, ?_⟩
  rw [daemonSafe_iff, clientSafe_iff]
  omega

/-- The default is safe. -/
example : DaemonSafe pingPongDefault ∧ ClientSafe pingPongDefault :=
  ⟨(daemonSafe_iff _).2 (by decide), (clientSafe_iff _).2 (by decide)⟩

/-- The interval 0 makes the daemon call `lws_service` with a timeout of 0, and an interval of 25
days makes the computation overflow. -/
theorem not_interval_safe : serviceTimeout (pingPongOf ["0".toList]) = some 0 ∧
    serviceTimeout (pingPongOf ["2147484".toList]) = none ∧
    pingPongOf ["4294967297".toList] = 1 ∧
    ¬ ∀ arg, DaemonSafe (strtol arg) ∧ ClientSafe (strtol arg) := by
  refine ⟨by decide, by decide, by decide, ?_⟩
  intro h
  obtain ⟨t, ht, hpos⟩ := (h "0".toList).1.timeout
  have hzero : serviceTimeout (setPingPong (strtol "0".toList)) = some 0 := by decide
  rw [hzero] at ht
  cases ht
  exact absurd hpos (by decide)

end Usbws
