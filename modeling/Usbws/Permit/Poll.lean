import Usbws.Permit.Discipline

/-!
# The poll of the service thread

`lws_service` blocks the service thread in a poll.  A request for a `WRITEABLE` callback that is
made before the poll starts is noticed by it; one that another thread makes meanwhile is noticed
only after `lws_cancel_service`, for which `usbws_handle_send_request` has its workaround: it
cancels the service when its locked section returns `0`, that is when it did not write or
`lws_write` took nothing.  A direct write that takes a part of the buffer makes the next request
too, but returns the number of bytes and cancels nothing.

* `Poll` : a session with its threads and the poll of the service thread.
* `Poll.DirectPart` : a step that makes such a write while the service thread is in its poll.
* `Poll.woken_of_no_directPart` : without such steps a blocked sender has woken the service thread.
* `Poll.exists_unwoken_of_directPart` : after such a step it may block without having done so.
-/

namespace Usbws

/-- A session with its threads, and the poll of the service thread. -/
structure Poll (T : Type*) where
  /-- The session, its senders and the library's request for its connection. -/
  permit : Permit T
  /-- The service thread is blocked in its poll. -/
  polling : Bool
  /-- The poll in progress notices the request. -/
  noticed : Bool

namespace Poll

variable {T : Type*}

/-- The steps of the system. -/
inductive Label (T : Type*) where
  /-- The service thread starts a poll. -/
  | enter
  /-- The poll returns. -/
  | wake
  /-- A call of `lws_cancel_service` in another place: a broadcast that visits another session of
  the context, or `usbws_ctx_stop`. -/
  | cancel
  /-- A step of the session's threads or a callback of the service thread. -/
  | own (l : Permit.Label T)

namespace Label

/-- The result of the `lws_write` call the step may make. -/
def sent : Label T → Option ℤ
  | own l => l.sent
  | _ => none

/-- The result of the `lws_write` call that the sender's own broadcast may make in the step. -/
def direct : Label T → Option ℤ
  | own (.locked sent) => some sent
  | _ => none

end Label

/-- What the poll notices behind a step: `lws_cancel_service` draws its attention to the request. -/
def notices (q : Poll T) (p' : Permit T) (l : Permit.Label T) : Bool :=
  if Effect.cancelService ∈ (q.permit.outcome l).effects then p'.requested else q.noticed

variable [DecidableEq T]

/-- The successor function.  The callbacks come while the service thread is not in its poll. -/
def next (q : Poll T) : Label T → Option (Poll T)
  | .enter =>
    if q.polling then none else some { q with polling := true, noticed := q.permit.requested }
  | .wake => if q.polling then some { q with polling := false } else none
  | .cancel => some { q with noticed := q.permit.requested }
  | .own l =>
    if l.isService && q.polling then none
    else (q.permit.next l).map fun p => { q with permit := p, noticed := q.notices p l }

/-- The system. -/
def lts (T : Type*) [DecidableEq T] : LTS (Poll T) (Label T) := .ofNext next

/-- A freshly established session; the service thread is in its `ESTABLISHED` callback. -/
def start (T : Type*) (now : ℤ) : Poll T := ⟨.start T now, false, false⟩

/-- The moves of the system. -/
abbrev Move (T : Type*) := LTS.Move (Poll T) (Label T)

/-- What the session and its threads see of a run. -/
def view (tr : List (Move T)) : List (Permit.Move T) :=
  LTS.project permit (fun m => match m.label with | .own l => some l | _ => none) tr

/-- If `usbws_send` waits on a continuing session with unsent bytes and the service thread is
blocked in its poll, there is a request and the poll notices it. -/
def Woken (q : Poll T) : Prop :=
  ∀ b, q.permit.pc = .waiting b → q.permit.session.cont = true →
    q.permit.session.sendBuf.isSome = true →
    q.permit.session.sendOffset < q.permit.session.sendLen → q.polling = true →
    q.permit.requested = true ∧ q.noticed = true

/-- No `lws_write` of the move fails. -/
def Accepting (m : Move T) : Prop := ∀ sent ∈ m.label.sent, 0 ≤ sent

/-- While the service thread is in its poll, the sender's own broadcast finds the socket writable
and `lws_write` takes some of the bytes left, but not all of them. -/
def DirectPart (m : Move T) : Prop :=
  ∃ sent ∈ m.label.direct, m.pre.polling = true ∧ m.pre.permit.session.writable = true ∧ 0 < sent ∧
    m.pre.permit.session.sendOffset + sent < m.pre.permit.session.sendLen

instance (m : Move T) : Decidable (Accepting m) :=
  inferInstanceAs (Decidable (∀ sent ∈ m.label.sent, 0 ≤ sent))

instance (m : Move T) : Decidable (DirectPart m) :=
  inferInstanceAs (Decidable (∃ sent ∈ m.label.direct, _ ∧ _ ∧ _ ∧ _))

variable {q q' : Poll T} {l : Label T} {tr : List (Move T)} {now : ℤ}

/-! ### The steps -/

/-- The steps of the system one by one. -/
inductive Step (q : Poll T) : Label T → Poll T → Prop
  | enter : q.polling = false → Step q .enter
      { q with polling := true, noticed := q.permit.requested }
  | wake : q.polling = true → Step q .wake { q with polling := false }
  | cancel : Step q .cancel { q with noticed := q.permit.requested }
  | own {l : Permit.Label T} {p' : Permit T} : (l.isService = true → q.polling = false) →
      (Permit.lts T).step q.permit l p' →
      Step q (.own l) { q with permit := p', noticed := q.notices p' l }

theorem step_of_next (h : (lts T).step q l q') : Step q l q' := by
  change next q l = some q' at h
  cases l with
  | enter =>
    simp only [next, Option.ite_none_left_eq_some, Option.some.injEq] at h
    obtain ⟨hp, rfl⟩ := h
    exact .enter (by simpa using hp)
  | wake =>
    simp only [next, Option.ite_none_right_eq_some, Option.some.injEq] at h
    obtain ⟨hp, rfl⟩ := h
    exact .wake hp
  | cancel => cases h; exact .cancel
  | own l =>
    simp only [next, Option.ite_none_left_eq_some, Option.map_eq_some_iff] at h
    obtain ⟨hs, p', hp', rfl⟩ := h
    refine .own (fun hl => ?_) hp'
    simpa [hl] using hs

/-- A step of the session's threads that is none of the service thread. -/
theorem own_step {l : Permit.Label T} {p' : Permit T} (hl : l.isService = false)
    (h : (Permit.lts T).step q.permit l p') :
    (lts T).step q (.own l) { q with permit := p', noticed := q.notices p' l } := by
  have h' : q.permit.next l = some p' := h
  change next q (.own l) = some _
  simp only [next, hl, Bool.false_and, Bool.false_eq_true, if_false, h', Option.map_some]

/-- The session and its threads see a run of their own. -/
theorem exec_view (he : (lts T).Exec (start T now) tr q) :
    (Permit.lts T).Exec (Permit.start T now) (view tr) q.permit := by
  refine he.project permit _ ?_ ?_
  · intro q l q' hst e he
    cases step_of_next hst with
    | enter | wake | cancel => cases he
    | own _ hp => cases he; exact hp
  · intro q l q' hst he
    cases step_of_next hst with
    | enter | wake | cancel => rfl
    | own => cases he

/-! ### Blocked senders -/

/-- A poll in progress notices the request of a transfer that its sender has settled. -/
def Noticed (q : Poll T) : Prop :=
  q.permit.session.sendBuf.isSome = true → q.permit.pc.settled = true → q.polling = true →
    q.noticed = true

omit [DecidableEq T] in
/-- What the discipline of the permission says of such a transfer. -/
theorem requested_of_settled {tr : List (Permit.Move T)} {p : Permit T}
    (h : Permit.Disciplined tr p) (hb : p.session.sendBuf.isSome = true)
    (hs : p.pc.settled = true) : p.requested = true := by
  rw [h.requested, h.unparked hb (BroadcastPc.ahead_of_settled hs)]
  rfl

/-- A step of the session's threads that cancels no service. -/
theorem Noticed.own (h : q.Noticed) {l : Permit.Label T} {p' : Permit T}
    (hs : l.isService = true → q.polling = false) (hst : (Permit.lts T).step q.permit l p')
    (ha : ∀ sent ∈ l.sent, 0 ≤ sent) (hd : ¬ DirectPart ⟨q, .own l, q'⟩)
    (hc : Effect.cancelService ∉ (q.permit.outcome l).effects)
    (hb : p'.session.sendBuf.isSome = true) (hpc : p'.pc.settled = true) (hp : q.polling = true) :
    q.noticed = true := by
  cases Permit.step_of_next hst with
  | setSendBuf | setSendLen | setSendOffset | test | leave => cases hpc
  | testNull _ hnone =>
    rw [show q.permit.session.sendBuf = none from hnone] at hb
    cases hb
  | @locked b sent hpre =>
    -- a section that settles the visit has written, and does not finish the transfer
    exfalso
    simp only [Permit.perform, Permit.outcome, Session.sendRequestLocked] at hb hpc
    split_ifs at hb hpc with hw
    · simp only [Session.sendData_ret, BroadcastPc.settled, bne_iff_ne, ne_eq] at hpc
      have hpos := ha sent rfl
      exact hd ⟨sent, rfl, hp, hw, by omega, ((Session.isSome_sendData_sendBuf _ _).1 hb).2⟩
    · cases hpc
  | @cancel b ret hpre =>
    refine h hb ?_ hp
    have hret : ret ≠ 0 := by
      rintro rfl
      simp [Permit.outcome, hpre] at hc
    simpa [hpre, BroadcastPc.settled] using hret
  | wait hpre => exact h hb (by rw [hpre]; rfl) hp
  | otherTest | discontinue => exact h hb hpc hp
  | otherLocked =>
    refine h ?_ hpc hp
    simp only [Permit.perform, Permit.outcome, Session.sendRequestLocked] at hb
    split_ifs at hb
    · exact ((Session.isSome_sendData_sendBuf _ _).1 hb).1
    · exact hb
  | writeable | ping =>
    rw [hs rfl] at hp
    cases hp

theorem Noticed.step (h : q.Noticed) {tr tr' : List (Permit.Move T)}
    (hq : Permit.Disciplined tr q.permit) (hq' : Permit.Disciplined tr' q'.permit)
    (hst : (lts T).step q l q') (ha : Accepting ⟨q, l, q'⟩) (hd : ¬ DirectPart ⟨q, l, q'⟩) :
    q'.Noticed := by
  intro hb hpc hp
  cases step_of_next hst with
  | enter => exact requested_of_settled hq hb hpc
  | wake => cases hp
  | cancel => exact requested_of_settled hq hb hpc
  | own hs hown =>
    simp only [notices]
    split_ifs with hc
    · exact requested_of_settled hq' hb hpc
    · exact h.own hs hown ha hd hc hb hpc hp

/-- **A blocked sender has woken the service thread** in every run in which no write fails and,
while the service thread is in its poll, no write of the sender's own broadcast takes only a part of
the bytes left. -/
theorem woken_of_no_directPart (he : (lts T).Exec (start T now) tr q)
    (ha : ∀ m ∈ tr, Accepting m) (hd : ∀ m ∈ tr, ¬ DirectPart m) : q.Woken := by
  have hn : q.Noticed := by
    induction he with
    | nil => exact fun hb => by cases hb
    | snoc hex hst ih =>
      rw [List.forall_mem_cons] at ha hd
      exact (ih ha.2 hd.2).step (Permit.disciplined_of_exec (exec_view hex))
        (Permit.disciplined_of_exec (exec_view (hex.snoc hst))) hst ha.1 hd.1
  intro b hpc _ hb _ hp
  have hs : q.permit.pc.settled = true := by rw [hpc]; rfl
  exact ⟨requested_of_settled (Permit.disciplined_of_exec (exec_view he)) hb hs, hn hb hs hp⟩

/-! ### The condition is tight -/

/-- A poll in progress notices only a request there is. -/
theorem requested_of_noticed (he : (lts T).Exec (start T now) tr q) :
    q.polling = true → q.noticed = true → q.permit.requested = true := by
  refine he.invariant (I := fun q => q.polling = true → q.noticed = true →
    q.permit.requested = true) (fun hp => by cases hp) ?_
  intro q l q' h hst hp hn
  cases step_of_next hst with
  | enter | cancel => exact hn
  | wake => cases hp
  | @own l p' hs hown =>
    simp only [notices] at hn
    split_ifs at hn with hc
    · exact hn
    · have hl : l.isWriteable = false := by
        by_contra hw
        have := hs (by cases l <;> first | rfl | exact absurd rfl hw)
        rw [show q.polling = true from hp] at this
        cases this
      rw [(Permit.permit_of_step hown).2, Permit.requests, h hp hn, hl]
      rfl

/-- A sender behind an unfinished transfer that has cancelled no service goes on to its wait
loop. -/
theorem exists_unwoken_of_unlocked (he : (lts T).Exec (start T now) tr q) {b : SendBuf} {ret : ℤ}
    (hpc : q.permit.pc = .unlocked b ret) (hret : ret ≠ 0) (hc : q.permit.session.cont = true)
    (hb : q.permit.session.sendBuf.isSome = true)
    (hlt : q.permit.session.sendOffset < q.permit.session.sendLen) (hp : q.polling = true)
    (hn : q.noticed = false) : ∃ tr' q', (lts T).Exec (start T now) tr' q' ∧ ¬ q'.Woken := by
  have h₁ := own_step (q := q) rfl (Permit.cancel_step hpc)
  have hn₁ : q.notices { q.permit with pc := .visited b } .cancel = false := by
    simp [notices, Permit.outcome, hpc, hret, hn]
  rw [hn₁] at h₁
  have h₂ := own_step (q := ⟨{ q.permit with pc := .visited b }, q.polling, false⟩) rfl
    (Permit.wait_step rfl)
  refine ⟨_, _, (he.snoc h₁).snoc h₂, fun hw => ?_⟩
  have hn₂ := (hw b rfl hc hb hlt hp).2
  simp [notices, Permit.outcome] at hn₂

/-- **After a direct write of a part the sender may block unnoticed.** -/
theorem exists_unwoken_of_directPart (he : (lts T).Exec (start T now) tr q)
    (hst : (lts T).step q l q') (hd : DirectPart ⟨q, l, q'⟩)
    (hc : q.permit.session.cont = true) (hb : q.permit.session.sendBuf.isSome = true) :
    ∃ tr' q'', (lts T).Exec (start T now) tr' q'' ∧ ¬ q''.Woken := by
  obtain ⟨sent, hsent, hp, hw, hpos, hlt⟩ := hd
  simp only at hp hw hlt
  obtain rfl : l = .own (.locked sent) := by
    match l, hsent with
    | .own (.locked _), rfl => rfl
  have hnoticed : q.noticed = false := by
    by_contra hn
    have := requested_of_noticed he hp (by simpa using hn)
    rw [(Permit.disciplined_of_exec (exec_view he)).requested, hw] at this
    cases this
  have hlocked : q.permit.session.sendRequestLocked sent = q.permit.session.sendData sent := by
    rw [Session.sendRequestLocked, if_pos hw]
  have hcancel : Effect.cancelService ∉ (q.permit.session.sendData sent).effects := by
    simp only [Session.sendData]
    split_ifs <;> simp
  have hgoesOn := (q.permit.session.isSome_sendData_sendBuf sent).2 ⟨hb, hlt⟩
  have he' := he.snoc hst
  cases step_of_next hst with
  | @own _ p' _ hown =>
    cases Permit.step_of_next hown with
    | @locked b _ hpc =>
      have hret : (q.permit.session.sendRequestLocked sent).ret = sent := by
        rw [hlocked, Session.sendData_ret]
      refine exists_unwoken_of_unlocked he' rfl (by rw [hret]; omega) ?_ ?_ ?_ hp ?_
      · simpa only [Permit.perform, Permit.outcome, hlocked, Session.sendData_session] using hc
      · simpa only [Permit.perform, Permit.outcome, hlocked] using hgoesOn
      · simp only [Permit.perform, Permit.outcome, hlocked, Session.sendData_session]
        rwa [if_neg (by omega)]
      · rw [notices, if_neg, hnoticed]
        simpa only [Permit.outcome, hlocked] using hcancel

/-- A sender that writes a piece of its buffer at once, before the service thread starts its poll,
blocks with a request that the poll notices. -/
theorem woken_of_late_poll : ∃ tr q, (lts Empty).Exec (start Empty 0) tr q ∧
    q.permit.pc = .waiting ⟨0, [1, 2]⟩ ∧ q.polling = true ∧ q.permit.requested = true ∧
    q.noticed = true := by
  obtain ⟨tr, q, he, ⟨ha, hd⟩, hpc, hc, hb, hoff, hp⟩ : ∃ tr q,
      (lts Empty).Exec (start Empty 0) tr q ∧
      ((∀ m ∈ tr, Accepting m) ∧ ∀ m ∈ tr, ¬ DirectPart m) ∧ q.permit.pc = .waiting ⟨0, [1, 2]⟩ ∧
      q.permit.session.cont = true ∧ q.permit.session.sendBuf.isSome = true ∧
      q.permit.session.sendOffset < q.permit.session.sendLen ∧ q.polling = true :=
    LTS.exists_exec_of_replay
      [.own (.writeable 0), .own (.setSendBuf [1, 2]), .own .setSendLen, .own .setSendOffset,
        .own .test, .own (.locked 1), .enter, .own .cancel, .own .wait] _ (fun _ _ _ h => h)
      (by decide)
  have hw := woken_of_no_directPart he ha hd _ hpc hc hb hoff hp
  exact ⟨tr, q, he, hpc, hp, hw⟩

/-- A sender that writes a piece of its buffer at once, while the service thread is in its poll,
blocks with a request that the poll does not notice. -/
theorem not_woken_of_direct_part : ∃ tr q, (lts Empty).Exec (start Empty 0) tr q ∧
    (∀ m ∈ tr, Accepting m) ∧ ¬ q.Woken := by
  obtain ⟨tr, q, he, ha, hpc, hc, hb, hoff, hp, hn⟩ : ∃ tr q,
      (lts Empty).Exec (start Empty 0) tr q ∧ (∀ m ∈ tr, Accepting m) ∧
      q.permit.pc = .waiting ⟨0, [1, 2]⟩ ∧ q.permit.session.cont = true ∧
      q.permit.session.sendBuf.isSome = true ∧
      q.permit.session.sendOffset < q.permit.session.sendLen ∧ q.polling = true ∧
      q.noticed = false :=
    LTS.exists_exec_of_replay
      [.enter, .wake, .own (.writeable 0), .enter, .own (.setSendBuf [1, 2]), .own .setSendLen,
        .own .setSendOffset, .own .test, .own (.locked 1), .own .cancel, .own .wait] _
      (fun _ _ _ h => h) (by decide)
  refine ⟨tr, q, he, ha, fun hw => ?_⟩
  rw [(hw _ hpc hc hb hoff hp).2] at hn
  cases hn

end Poll

end Usbws
