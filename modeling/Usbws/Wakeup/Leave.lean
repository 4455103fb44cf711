import Usbws.Wakeup.Teardown

/-!
# Who is in a call when a session is released

Behind `usbws_session_close` the session is discontinued, and a thread of the USB/IP library that is
in `usbws_send` or `usbws_recv` waits no more: the statements that it has left before it returns are
known from its program point.  The daemon waits for them, for it joins the thread of the session.
A client releases the session whether they have been made or not.

* `RecvPoint.left`, `SendPoint.left` : the statements that a call has left.
* `Teardown.owed`, `Teardown.made` : the statements that a thread has left when
  `usbws_session_close` returns or when it enters a call later, and those that it has made since.
* `Teardown.calls_over_at_release` : no call outlives the session in the daemon, and in a client
  exactly if all have been made.
-/

namespace Usbws

/-! ### The statements that a call has left -/

/-- The statements of `usbws_recv` that a reader of a discontinued session has left; in its inner
loop it has `turns` steps there. -/
def RecvPoint.left (turns : ℕ) : RecvPoint → ℕ
  | idle => 0
  | done _ _ => 1
  | outer _ | failing _ => 2
  | check _ => 3
  | loop _ => 3 + turns
  | locking _ => 5
  -- no reader is at its traversal any more
  | copy _ => 5
  | unlocking c => if c.satisfied then 3 else 4
  | judge c => if c.satisfied then 2 else 3

/-- The statements of `usbws_send` that a sender of a discontinued session has left, without those
of its broadcast; in its wait loop it has `turns` steps there. -/
def SendPoint.left (turns : ℕ) : SendPoint → ℕ
  | idle => 0
  | leaving _ => 1
  | unlocking _ => 2
  | loop _ => 2 + turns
  | locking _ => 4
  | request _ => 5
  | lenSet _ => 6
  | bufSet _ => 7

/-- The statements that a thread has left. -/
def CallPoint.left (sendTurns recvTurns : ℕ) : CallPoint → ℕ
  | idle => 0
  | recv pc => pc.left recvTurns
  | send pc => pc.left sendTurns

theorem RecvPoint.left_of_next {N : Type*} {sh sh' : Shared N} {pc pc' : RecvPoint}
    (h : pc.next sh = some (sh', pc')) (hc : sh.session.cont = false) (hp : ∀ c, pc ≠ .copy c) :
    pc'.left sh'.recv.stage.turns + 1 = pc.left sh.recv.stage.turns := by
  cases pc with
  | idle => cases h
  | outer | check =>
    simp only [RecvPoint.next, hc, Bool.false_eq_true, if_false, Option.some.injEq,
      Prod.mk.injEq] at h
    rw [← h.2]
    rfl
  | locking =>
    obtain ⟨m, hm, hr⟩ := Option.map_eq_some_iff.1 h
    cases hr
    simp only [Monitor.enter, Option.ite_none_right_eq_some, Option.some.injEq] at hm
    rw [← hm.2]
    rfl
  | loop =>
    obtain ⟨m, hm, hr⟩ := Option.map_eq_some_iff.1 h
    cases hr
    rw [hc, Bool.false_and] at hm
    rcases Monitor.turns_of_turn hm with ⟨hi, ht⟩ | ⟨hi, ht⟩
    · simp [left, hi, ht]
    · simp only [Shared.setRecv, hi, if_false, left]
      omega
  | copy c => exact absurd rfl (hp c)
  | failing =>
    obtain ⟨m, -, hr⟩ := Option.map_eq_some_iff.1 h
    cases hr
    rfl
  | unlocking c =>
    obtain ⟨m, -, hr⟩ := Option.map_eq_some_iff.1 h
    cases hr
    simp only [left]
    split_ifs <;> rfl
  | judge c =>
    cases h
    simp only [left]
    split_ifs <;> rfl
  | done => cases h; rfl

theorem SendPoint.left_of_next {N : Type*} {sh sh' : Shared N} {pc pc' : SendPoint}
    (h : pc.next sh = some (sh', pc')) (hc : sh.session.cont = false) :
    pc'.left sh'.send.stage.turns + 1 = pc.left sh.send.stage.turns := by
  cases pc with
  | idle => cases h
  | bufSet | lenSet | request | leaving => cases h; rfl
  | locking =>
    obtain ⟨m, hm, hr⟩ := Option.map_eq_some_iff.1 h
    cases hr
    simp only [Monitor.enter, Option.ite_none_right_eq_some, Option.some.injEq] at hm
    rw [← hm.2]
    rfl
  | loop =>
    obtain ⟨m, hm, hr⟩ := Option.map_eq_some_iff.1 h
    cases hr
    rw [hc, Bool.false_and] at hm
    rcases Monitor.turns_of_turn hm with ⟨hi, ht⟩ | ⟨hi, ht⟩
    · simp [left, hi, ht]
    · simp only [Shared.setSend, hi, if_false, left]
      omega
  | unlocking =>
    obtain ⟨m, -, hr⟩ := Option.map_eq_some_iff.1 h
    cases hr
    rfl

namespace CallPoint

/-- A thread is in a function only between its first and its last statement. -/
def proper : CallPoint → Bool
  | recv .idle | send .idle => false
  | _ => true

@[simp] theorem proper_ofRecv (pc : RecvPoint) : (ofRecv pc).proper = true := by cases pc <;> rfl

@[simp] theorem proper_ofSend (pc : SendPoint) : (ofSend pc).proper = true := by cases pc <;> rfl

theorem left_ofRecv {m n : ℕ} (pc : RecvPoint) : (ofRecv pc).left m n = pc.left n := by
  cases pc <;> rfl

theorem left_ofSend {m n : ℕ} (pc : SendPoint) : (ofSend pc).left m n = pc.left m := by
  cases pc <;> rfl

/-- Only a thread in no call has none left. -/
theorem left_eq_zero {m n : ℕ} {pt : CallPoint} (h : pt.proper = true) :
    pt.left m n = 0 ↔ pt = .idle := by
  cases pt with
  | idle => simp [left]
  | recv pc =>
    refine iff_of_false ?_ nofun
    cases pc with
    | idle => cases h
    | loop => simp [left, RecvPoint.left]
    | unlocking | judge => simp only [left, RecvPoint.left]; split_ifs <;> nofun
    | _ => nofun
  | send pc =>
    refine iff_of_false ?_ nofun
    cases pc with
    | idle => cases h
    | loop => simp [left, SendPoint.left]
    | _ => nofun

end CallPoint

namespace Teardown

variable {U T : Type*}

/-- The statements that a thread has left once the session is discontinued. -/
def left (p : Teardown U T) (u : U) : ℕ :=
  (p.point u).left (p.send.stage u).turns (p.recv.stage u).turns

variable [DecidableEq U]

/-- The move is a statement of a call, behind `usbws_session_close`. -/
def makes (u : U) (m : Move U T) : Bool :=
  m.pre.closed.past && match m.label with
    | .caller v => decide (v = u)
    | _ => false

/-- The statements that the move leaves to the thread: when `usbws_session_close` returns those of
the call it is in, and behind that those of a call that it begins. -/
def owes (u : U) (m : Move U T) : ℕ :=
  match m.label with
  | .handling => if m.pre.closed = .closing then m.post.left u else 0
  | .recv v _ _ | .send v _ => if m.pre.closed.past = true ∧ v = u then m.post.left u else 0
  | _ => 0

/-- The statements of its calls that a thread has made behind `usbws_session_close`. -/
def made (u : U) (tr : List (Move U T)) : ℕ := tr.countP (makes u)

/-- The statements of its calls that a thread was to make behind `usbws_session_close`. -/
def owed (u : U) (tr : List (Move U T)) : ℕ := (tr.map (owes u)).sum

variable [DecidableEq T] [Fintype U] {role : Role} {p p' : Teardown U T} {l : Label U T}
  {tr : List (Move U T)} {u v : U}

theorem proper_step (h : ∀ v, (p.point v).proper = true) (hst : (lts U T role).step p l p')
    (v : U) : (p'.point v).proper = true := by
  cases step_of_next hst with
  | lend | giveBack | request | begin | task | closed => exact h v
  | recv | send | reads | sends =>
    simp only [Function.update_apply]
    split_ifs
    · first | rfl | simp
    · exact h v
  | handling hh => cases hh <;> exact h v

/-! ### What a step adds and takes -/

omit [DecidableEq T] [Fintype U] in
/-- A step that the waiter `w` sees, and that takes no thread but `w` to another point, leaves to
all the others what they had left. -/
theorem left_setShared {w : Option U} {sh : Shared (U ⊕ Runner U T)} {pt : U → CallPoint}
    {k : Runner U T → Task} (hw : w ≠ some v) (hp : pt v = p.point v) :
    left { p.setShared w sh with point := pt, task := k } v = p.left v := by
  simp only [left, setShared, hp, Crowd.put_stage_of_ne hw]

/-- A statement of a thread is one of those that it has left, and none of another thread's. -/
theorem left_caller (hc : p.session.cont = false) (hcopy : ∀ u c, p.point u ≠ .recv (.copy c))
    (hst : (lts U T role).step p (.caller v) p') :
    (decide (v = u)).toNat + p'.left u = p.left u := by
  by_cases hv : v = u
  · subst hv
    suffices p'.left v + 1 = p.left v by simp; omega
    cases step_of_next hst with
    | @reads _ pc pc' sh hp hr =>
      have h := RecvPoint.left_of_next hr hc fun c hn => hcopy v c (hn ▸ hp)
      simp only [left, setShared, Function.update_self, CallPoint.left_ofRecv, hp,
        Crowd.put_stage_self]
      exact h
    | @sends _ pc pc' sh hp hr =>
      have h := SendPoint.left_of_next hr hc
      simp only [left, setShared, Function.update_self, CallPoint.left_ofSend, hp,
        Crowd.put_stage_self]
      exact h
  · have hw : some v ≠ some u := fun hn => hv (Option.some.inj hn)
    have hu : u ≠ v := fun hn => hv hn.symm
    suffices p'.left u = p.left u by simp [hv, this]
    cases step_of_next hst with
    | reads | sends => exact left_setShared hw (Function.update_of_ne hu ..)

/-- No statement of a task is one of those that a thread has left: a signal at most wakes it. -/
theorem left_task {w : Runner U T} {sent : ℤ} {x : Option U}
    (hst : (lts U T role).step p (.task w sent x) p') : p'.left u = p.left u := by
  cases step_of_next hst with
  | task hk =>
    obtain ⟨hsend, hrecv⟩ := Task.uses_of_next hk
    have hs := Crowd.turns_of_uses hsend u
    have hr := Crowd.turns_of_uses hrecv u
    simp only [left, setShared, hs, hr]

/-- What a thread has left, once `usbws_session_close` has returned. -/
def rest (p : Teardown U T) (u : U) : ℕ := if p.closed.past then p.left u else 0

/-- The accounts are opened when `usbws_session_close` returns. -/
theorem owes_of_not_past (hst : (lts U T role).step p l p') (hp : p.closed.past = false) :
    p'.rest u = owes u ⟨p, l, p'⟩ := by
  cases step_of_next hst with
  | handling hh =>
    cases hh with
    | wait hc | join hc | stop hc => simp [rest, owes, hc, ClosedPc.past]
    | joined hc | stopping hc => rw [hc] at hp; cases hp
  | closed hc => simp [rest, owes, ClosedPc.past]
  | _ => simp [rest, owes, hp, setShared]

/-- Behind `usbws_session_close` a thread pays with each of its statements for one that it has
left, and begins a call with those of the whole call. -/
theorem owes_of_past (h : p.Ended) (hst : (lts U T role).step p l p')
    (hp : p.closed.past = true) : p'.closed.past = true ∧
      (makes u ⟨p, l, p'⟩).toNat + p'.left u = p.left u + owes u ⟨p, l, p'⟩ := by
  have hcont := h.cont (.inl hp)
  have hcopy := h.copy (.inl hp)
  cases step_of_next hst with
  | lend | giveBack | request | begin => exact ⟨hp, by simp [makes, owes, left]⟩
  | @recv v _ _ _ hi | @send v _ _ _ _ hi =>
    refine ⟨hp, ?_⟩
    by_cases hv : v = u
    · subst hv
      simp [makes, owes, hp, left, hi, CallPoint.left]
    · simp [makes, owes, hv, left, Function.update_of_ne (fun hn => hv hn.symm)]
  | reads | sends =>
    exact ⟨hp, by simpa [makes, owes, hp] using left_caller (u := u) hcont hcopy hst⟩
  | task => exact ⟨hp, by simp [makes, owes, left_task (u := u) hst]⟩
  | closed hc => rw [hc] at hp; cases hp
  | handling hh =>
    cases hh with
    | wait hc | join hc | stop hc => rw [hc] at hp; cases hp
    | joined hc => exact ⟨rfl, by simp [makes, owes, hc, left]⟩
    | stopping hc hpc =>
      refine ⟨?_, by simp [makes, owes, hc, left]⟩
      rcases hpc with rfl | ⟨k, rfl⟩ <;> rfl

/-- **The accounts of the calls.** -/
theorem made_add_rest {now : ℤ} (he : (lts U T role).Exec (start U T now) tr p) (u : U) :
    made u tr + p.rest u = owed u tr := by
  have h : (p.Locked ∧ p.Ended) ∧
      tr.countP (makes u) + p.rest u = (start U T now).rest u + (tr.map (owes u)).sum := by
    refine he.countP_add_rank_eq (I := fun p => p.Locked ∧ p.Ended) (r := fun p => p.rest u)
      ⟨start_locked now, start_ended now⟩ ?_
    rintro p l p' ⟨hl, hE⟩ hst
    have hl' := hl.step hst
    refine ⟨⟨hl', hE.step hl' hst⟩, ?_⟩
    cases hp : p.closed.past with
    | false =>
      have ho := owes_of_not_past (u := u) hst hp
      simp [makes, rest, hp, ← ho]
    | true =>
      obtain ⟨hp', ho⟩ := owes_of_past (u := u) hE hst hp
      simpa [rest, hp, hp'] using ho
  simpa [made, owed, rest, start, ClosedPc.past] using h.2

/-! ### The daemon -/

/-- The daemon waits for the use of the socket to be over. -/
structure Waited (p : Teardown U T) : Prop where
  idle : p.usage = .over → ∀ u, p.point u = .idle
  stopping : ∀ k, p.closed ≠ .stopping k
  released : p.closed = .returned → p.usage = .over

theorem Waited.step (h : p.Waited) (hst : (lts U T .daemon).step p l p') : p'.Waited := by
  cases step_of_next hst with
  | lend hu => exact ⟨nofun, h.stopping, fun hr => by rw [h.released hr] at hu; cases hu⟩
  | giveBack hi => exact ⟨fun _ => hi rfl, h.stopping, fun _ => rfl⟩
  | recv hu | send hu =>
    refine ⟨fun ho => ?_, h.stopping, h.released⟩
    rw [show p.usage = .over from ho] at hu
    cases hu
  | reads hp | sends hp =>
    -- a thread in a call has the socket
    refine ⟨fun ho => ?_, h.stopping, h.released⟩
    rw [h.idle ho] at hp
    cases hp
  | request | begin | task => exact ⟨h.idle, h.stopping, h.released⟩
  | closed => exact ⟨h.idle, nofun, nofun⟩
  | handling hh =>
    cases hh with
    | wait => exact ⟨h.idle, nofun, nofun⟩
    | join => exact ⟨h.idle, nofun, nofun⟩
    | stop _ _ hr => cases hr
    | joined _ hu => exact ⟨h.idle, nofun, fun _ => hu⟩
    | stopping hc => exact absurd hc (h.stopping _)

/-! ### The result -/

/-- **No operation outlives its session** in the daemon.  In a client, once the handling of `CLOSED`
has returned, no thread is in `usbws_send` or `usbws_recv` exactly if each has made all the
statements that it had left when `usbws_session_close` returned, and all those of the calls it has
begun since. -/
theorem calls_over_at_release {now : ℤ} (he : (lts U T role).Exec (start U T now) tr p)
    (hr : p.closed = .returned) :
    (∀ u, p.point u = .idle) ↔ role = .daemon ∨ ∀ u, made u tr = owed u tr := by
  cases role with
  | daemon =>
    have h : p.Waited := he.invariant ⟨nofun, nofun, nofun⟩ fun _ _ _ hI hst => hI.step hst
    exact iff_of_true (h.idle (h.released hr)) (.inl rfl)
  | client =>
    have hproper : ∀ u, (p.point u).proper = true :=
      he.invariant (I := fun p => ∀ u, (p.point u).proper = true) (fun _ => rfl)
        fun _ _ _ hI hst => proper_step hI hst
    have haccount : ∀ u, p.point u = .idle ↔ made u tr = owed u tr := fun u => by
      have hleft : p.left u = 0 ↔ p.point u = .idle := CallPoint.left_eq_zero (hproper u)
      have hsum : made u tr + p.left u = owed u tr := by
        simpa [rest, hr, ClosedPc.past] using made_add_rest he u
      rw [← hleft]
      omega
    simp [haccount]

/-- A reader sleeps when `CLOSED` is delivered, and is woken.  The daemon joins the thread of the
session then, and in a client the reader returns in time. -/
theorem calls_over_of_woken :
    (∃ tr p, (lts Unit Empty .daemon).Exec (start Unit Empty 0) tr p ∧
        p.closed = .returned ∧ ∀ u, p.point u = .idle) ∧
      ∃ tr p, (lts Unit Empty .client).Exec (start Unit Empty 0) tr p ∧
        p.closed = .returned ∧ owed () tr = 5 ∧ ∀ u, p.point u = .idle := by
  constructor
  · obtain ⟨tr, p, he, hr⟩ : ∃ tr p, (lts Unit Empty .daemon).Exec (start Unit Empty 0) tr p ∧
        p.closed = .returned :=
      LTS.exists_exec_of_replay
        ([.lend, .recv () 1 false] ++ List.replicate 4 (.caller ()) ++ [.closed, .handling] ++
          List.replicate 8 (.task .service 0 none) ++
          [.task .service 0 (some ()), .task .service 0 none, .handling] ++
          List.replicate 5 (.caller ()) ++ [.giveBack, .handling]) _ (fun _ _ _ h => h)
        (by decide +kernel)
    exact ⟨tr, p, he, hr, (calls_over_at_release he hr).2 (.inl rfl)⟩
  · obtain ⟨tr, p, he, hr, ho, hm⟩ :
        ∃ tr p, (lts Unit Empty .client).Exec (start Unit Empty 0) tr p ∧
          p.closed = .returned ∧ owed () tr = 5 ∧ made () tr = 5 :=
      LTS.exists_exec_of_replay
        ([.lend, .recv () 1 false] ++ List.replicate 4 (.caller ()) ++ [.closed, .handling] ++
          List.replicate 8 (.task .service 0 none) ++
          [.task .service 0 (some ()), .task .service 0 none, .handling] ++
          List.replicate 5 (.caller ()) ++ List.replicate 7 .handling) _ (fun _ _ _ h => h)
        (by decide +kernel)
    exact ⟨tr, p, he, hr, ho, (calls_over_at_release he hr).2 (.inr fun u => by rw [hm, ho])⟩

/-- In a client a reader that has been signalled may still be in `usbws_recv` when the handling
returns: it has made none of the statements that it had left. -/
theorem exists_call_at_release : ∃ tr p,
    (lts Unit Empty .client).Exec (start Unit Empty 0) tr p ∧ p.closed = .returned ∧
      owed () tr = 5 ∧ made () tr = 0 ∧ p.recv.stage () = .signalled ∧
      p.point () = .recv (.loop { len := 1, all := false }) :=
  LTS.exists_exec_of_replay
    ([.lend, .recv () 1 false] ++ List.replicate 4 (.caller ()) ++ [.closed, .handling] ++
      List.replicate 8 (.task .service 0 none) ++
      [.task .service 0 (some ()), .task .service 0 none] ++ List.replicate 8 .handling) _
    (fun _ _ _ h => h) (by decide +kernel)

end Teardown

end Usbws
