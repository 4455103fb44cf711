import Usbws.Sender.Publish

/-!
# Send requests of several senders

Every sender of a context runs `usbws_handle_send_request` for every session.  Even if
`usbws_send` published its buffer in one step, the test of `send_buf` in
`usbws_handle_send_request` would not protect its locked section: before the lock is taken the
service thread may finish the transfer, and a further `WRITEABLE` callback may report the socket
writable.  The locked section then runs `__send_data` on a NULL buffer.

* `Sender.pending_of_undisturbed` : if this does not happen, and no write fails at the beginning
  of a buffer, `__send_data` is entered only with a pending send.
* `Sender.Ok.enters_of_disturbed` : if one of the two happens, `__send_data` can be entered without
  a pending send in the next step.
* `Sender.exists_inconsistent` : the conditions of `Sender.consistent_of_timely` are tight in the
  same way.
-/

namespace Usbws

namespace Sender

variable {T : Type*}

/-- There is a buffer to send, and the offset lies within it. -/
def Pending (p : Sender T) : Prop :=
  p.session.sendBuf.isSome = true ∧ 0 ≤ p.session.sendOffset ∧
    p.session.sendOffset ≤ p.session.sendLen

/-- The moves that do not fall between a test of `send_buf` and the lock. -/
structure Undisturbed (m : Move T) : Prop where
  /-- No `WRITEABLE` callback without anything to send comes between a test of `send_buf` and
  the lock. -/
  requested : m.label.isWriteable = true → m.pre.session.sendBuf = none →
    m.pre.session.pingPending = false → ¬ m.pre.Requested
  /-- No write fails at the beginning of a buffer. -/
  failed : ∀ w ∈ m.pre.writes m.label, w.sent = -1 → 0 < w.off

instance (p : Sender T) : Decidable p.Pending := inferInstanceAs (Decidable (_ ∧ _ ∧ _))

instance [Fintype T] (m : Move T) : Decidable (Undisturbed m) :=
  decidable_of_iff
    ((m.label.isWriteable = true → m.pre.session.sendBuf = none →
        m.pre.session.pingPending = false → ¬ m.pre.Requested) ∧
      ∀ w ∈ m.pre.writes m.label, w.sent = -1 → 0 < w.off)
    ⟨fun ⟨h₁, h₂⟩ => ⟨h₁, h₂⟩, fun ⟨h₁, h₂⟩ => ⟨h₁, h₂⟩⟩

theorem Consistent.pending {p : Sender T} (h : p.Consistent) : p.Pending := by
  obtain ⟨b, hb, -, -, -, h₀, hle, -⟩ := h
  exact ⟨by rw [hb]; rfl, h₀, hle⟩

/-- An undisturbed move of a sender that is not publishing is timely. -/
theorem Undisturbed.timely {m : Move T} (h : Undisturbed m) (hp : m.pre.pc.publishing = false) :
    Timely m :=
  ⟨fun _ => hp, h.requested, h.failed⟩

variable [DecidableEq T] {p p' : Sender T} {l : Label T}

/-- Without separate assignments the sender is never between two of them. -/
theorem not_publishing_step (h : p.pc.publishing = false) (hst : (lts T).step p l p')
    (hl : l.isAssignment = false) : p'.pc.publishing = false := by
  cases step_of_next hst with
  | setSendBuf | setSendLen | setSendOffset => cases hl
  | publish | testNull | test | locked | leave => rfl
  | otherTest | otherLocked | writeable => exact h

/-- **No transmission without a pending send.**  If `usbws_send` publishes in one step, then in
every run of undisturbed moves, with any number of threads, `__send_data` is entered only with a
buffer and an offset within it. -/
theorem pending_of_undisturbed {now : ℤ} {tr : List (Move T)}
    (he : (lts T).Exec (start T now) tr p) (hpub : ∀ m ∈ tr, m.label.isAssignment = false)
    (hC : ∀ m ∈ tr, Undisturbed m) : ∀ m ∈ tr, enters m = true → m.pre.Pending := by
  have hnot : ∀ m ∈ tr, m.pre.pc.publishing = false :=
    he.forall_moves (I := fun p => p.pc.publishing = false) hpub rfl
      (fun _ _ _ h hst hl => not_publishing_step h hst hl) fun _ _ _ h _ _ => h
  have htimely : ∀ m ∈ tr, Timely m := fun m hm => (hC m hm).timely (hnot m hm)
  have hent : ∀ m ∈ tr, enters m = true → m.pre.Consistent :=
    he.forall_moves htimely (start_ok now) (fun _ _ _ h hst hm => h.step hst hm)
      fun _ _ _ h hst hm hent => h.consistent hst hm hent
  exact fun m hm h => (hent m hm h).pending

/-- Two threads and two transfers. -/
theorem pending_of_two_threads : ∃ tr p, (lts Bool).Exec (start Bool 0) tr p ∧
    p.session.sendBuf = none ∧ p.calls = 3 ∧ ∀ m ∈ tr, enters m = true → m.pre.Pending := by
  obtain ⟨tr, p, he, hb, hcalls, hpub, hC⟩ : ∃ tr p, (lts Bool).Exec (start Bool 0) tr p ∧
      p.session.sendBuf = none ∧ p.calls = 3 ∧ (∀ m ∈ tr, m.label.isAssignment = false) ∧
      ∀ m ∈ tr, Undisturbed m :=
    LTS.exists_exec_of_replay
      [.writeable 0, .publish [1, 2], .otherTest true, .otherTest false, .test,
        .otherLocked true 1, .locked 0, .writeable 1, .otherLocked false 0, .leave,
        .writeable 0, .publish [3], .test, .locked 1, .leave] _ (fun _ _ _ h => h) (by decide)
  exact ⟨tr, p, he, hb, hcalls, pending_of_undisturbed he hpub hC⟩

/-- Another sender tests `send_buf` of a transfer that is finished, and followed by a `WRITEABLE`
callback, before that sender has the lock. -/
theorem not_pending_behind_test : ∃ tr p, (lts Unit).Exec (start Unit 0) tr p ∧
    (∀ m ∈ tr, m.label.isAssignment = false) ∧
    ∃ m ∈ tr, enters m = true ∧ m.pre.session.sendBuf = none ∧ ¬ m.pre.Pending :=
  LTS.exists_exec_of_replay
    [.publish [1], .otherTest (), .writeable 1, .writeable 0, .otherLocked () (-1)]
    _ (fun _ _ _ h => h) (by decide)

/-! ### The conditions are tight

A move that does not meet the conditions enters `__send_data` with an inconsistent triple, or
leaves a state from which it can be entered without a pending send in the next step. -/

omit [DecidableEq T] in
/-- That a write fails is always possible. -/
theorem writes_neg_one (hl : p.outcome l = p.session.sendRequestLocked (-1) ∨
    p.outcome l = p.session.handleWritable (-1)) : ∀ w ∈ p.writes l, w.Valid := by
  intro w hw
  refine .inl ?_
  unfold writes at hw
  rcases hl with hl | hl
  · simp only [hl, Session.sendRequestLocked] at hw
    split_ifs at hw
    · rw [Session.dataWrites_sendData, List.mem_singleton] at hw
      rw [hw]
    · cases hw
  · simp only [hl, Session.handleWritable] at hw
    split_ifs at hw
    · rw [Session.dataWrites_sendData, List.mem_singleton] at hw
      rw [hw]
    · cases hw
    · cases hw

/-- A thread behind its test can always take the lock. -/
theorem exists_locked (hr : p.Requested) : ∃ l q, (lts T).step p l q ∧
    enters ⟨p, l, q⟩ = p.session.writable := by
  rcases hr with hpc | ⟨t, ht⟩
  · cases hb : p.pc with
    | tested b =>
      have hv : ∀ w ∈ p.writes (.locked (-1)), w.Valid := writes_neg_one (.inl rfl)
      obtain ⟨q, hq⟩ := Option.isSome_iff_exists.1
        (show (next p (.locked (-1))).isSome = true by simp only [next, if_pos hv, hb]; rfl)
      exact ⟨_, q, hq, rfl⟩
    | _ =>
      rw [hb] at hpc
      cases hpc
  · have hv : ∀ w ∈ p.writes (.otherLocked t (-1)), w.Valid := writes_neg_one (.inl rfl)
    obtain ⟨q, hq⟩ := Option.isSome_iff_exists.1
      (show (next p (.otherLocked t (-1))).isSome = true by
        simp only [next, if_pos hv, if_pos ht]; rfl)
    exact ⟨_, q, hq, rfl⟩

/-- A `WRITEABLE` callback can come at any time. -/
theorem exists_writeable (p : Sender T) : ∃ l q, (lts T).step p l q ∧
    enters ⟨p, l, q⟩ = p.session.sendBuf.isSome := by
  have hv : ∀ w ∈ p.writes (.writeable (-1)), w.Valid := writes_neg_one (.inr rfl)
  obtain ⟨q, hq⟩ := Option.isSome_iff_exists.1
    (show (next p (.writeable (-1))).isSome = true by simp only [next, if_pos hv]; rfl)
  exact ⟨_, q, hq, rfl⟩

/-- What a step transmits when everything is in order. -/
theorem Ok.transmits (h : p.Ok) (hst : (lts T).step p l p') (hw : p.writes l ≠ []) :
    p'.session = (p.outcome l).session ∧ p.session.Transmits (p.outcome l) := by
  cases step_of_next hst with
  | locked hpc _ =>
    have hreq := h.requested (.inl (by rw [hpc]; rfl))
    exact ⟨rfl, Session.sendRequestLocked_transmits hreq⟩
  | otherLocked ht _ =>
    exact ⟨rfl, Session.sendRequestLocked_transmits (h.requested (.inr ⟨_, ht⟩))⟩
  | writeable _ => exact ⟨rfl, Session.handleWritable_transmits⟩
  | _ => exact absurd rfl hw

/-- Behind a write that failed at the beginning of a buffer the offset is negative. -/
theorem Ok.negative_of_failed (h : p.Ok) (hp : p.pc.publishing = false)
    (hst : (lts T).step p l p') {w : DataWrite} (hw : w ∈ p.writes l) (hs : w.sent = -1)
    (hoff : w.off ≤ 0) : p'.session.sendBuf.isSome = true ∧ p'.session.sendOffset < 0 := by
  obtain ⟨hs', ht⟩ := h.transmits hst (List.ne_nil_of_mem hw)
  unfold writes at hw
  rcases ht with ⟨-, hd⟩ | ⟨b, sent, hb, ⟨hb', -, hoff'⟩, hd⟩
  · rw [hd] at hw
    cases hw
  · rw [hd, List.mem_singleton] at hw
    subst hw
    simp only at hs hoff
    have hlen := (h.sendOk hp b hb).1
    have hrest : ¬ p.session.sendLen ≤ p.session.sendOffset + sent := by omega
    rw [hs', hb', hoff', Session.sendData_session]
    simp only [if_neg hrest, hb, Option.isSome_some, true_and]
    omega

/-- **A disturbed move lets `__send_data` be entered without a pending send.** -/
theorem Ok.enters_of_disturbed (h : p.Ok) (hp : p.pc.publishing = false)
    (hst : (lts T).step p l p') (hm : ¬ Undisturbed ⟨p, l, p'⟩) :
    ∃ l' q, (lts T).step p' l' q ∧ enters ⟨p', l', q⟩ = true ∧ ¬ p'.Pending := by
  by_cases hreq : l.isWriteable = true ∧ p.session.sendBuf = none ∧
      p.session.pingPending = false ∧ p.Requested
  · -- a thread waits for the lock, the socket is writable and there is no buffer
    obtain ⟨hl, hb, hping, hr⟩ := hreq
    cases step_of_next hst with
    | @writeable sent _ =>
      have hs : p.session.handleWritable sent =
          ⟨{ p.session with writable := true }, [], 0⟩ := by
        simp [Session.handleWritable, hb, hping]
      obtain ⟨l', q, hq, hent⟩ := @exists_locked T _
        { p with session := (p.session.handleWritable sent).session } hr
      refine ⟨l', q, hq, by rw [hent, hs], ?_⟩
      rintro ⟨hb', -⟩
      simp [hs, hb] at hb'
    | _ => cases hl
  · -- a write has failed at the beginning of the buffer
    have hfail : ∃ w ∈ p.writes l, w.sent = -1 ∧ w.off ≤ 0 := by
      by_contra hn
      push Not at hn
      exact hm ⟨fun hl hb hping hr => hreq ⟨hl, hb, hping, hr⟩, hn⟩
    obtain ⟨w, hw, hs, hoff⟩ := hfail
    obtain ⟨hb, hneg⟩ := h.negative_of_failed hp hst hw hs hoff
    obtain ⟨l', q, hq, hent⟩ := exists_writeable p'
    refine ⟨l', q, hq, by rw [hent, hb], ?_⟩
    rintro ⟨-, h₀, -⟩
    omega

/-- The assignments of a call are younger than those of the calls before. -/
structure Fresh (p : Sender T) : Prop where
  lenOf : p.lenOf < p.calls
  offOf : p.offOf < p.calls
  bufSet : ∀ b, p.pc = .bufSet b → p.lenOf < b.call ∧ p.offOf < b.call ∧ b.call < p.calls
  lenSet : ∀ b, p.pc = .lenSet b → p.offOf < b.call ∧ b.call < p.calls

omit [DecidableEq T] in
theorem start_fresh (now : ℤ) : (start T now).Fresh where
  lenOf := Nat.zero_lt_one
  offOf := Nat.zero_lt_one
  bufSet _ hb := by cases hb
  lenSet _ hb := by cases hb

theorem Fresh.step (h : p.Fresh) (hst : (lts T).step p l p') : p'.Fresh := by
  cases step_of_next hst with
  | setSendBuf _ =>
    refine ⟨h.lenOf.trans (Nat.lt_succ_self _), h.offOf.trans (Nat.lt_succ_self _), fun b hb => ?_,
      (fun _ hb => by cases hb)⟩
    cases hb
    exact ⟨h.lenOf, h.offOf, Nat.lt_succ_self _⟩
  | setSendLen hpc =>
    obtain ⟨-, hoff, hlt⟩ := h.bufSet _ hpc
    refine ⟨hlt, h.offOf, (fun _ hb => by cases hb), fun b hb => ?_⟩
    cases hb
    exact ⟨hoff, hlt⟩
  | setSendOffset hpc =>
    exact ⟨h.lenOf, (h.lenSet _ hpc).2, (fun _ hb => by cases hb), fun _ hb => by cases hb⟩
  | publish _ =>
    refine ⟨Nat.lt_succ_self _, Nat.lt_succ_self _, ?_, ?_⟩ <;> exact fun _ hb => by cases hb
  | testNull | test | locked | leave =>
    exact ⟨h.lenOf, h.offOf, (fun _ hb => by cases hb), fun _ hb => by cases hb⟩
  | otherTest | otherLocked | writeable => exact ⟨h.lenOf, h.offOf, h.bufSet, h.lenSet⟩

omit [DecidableEq T] in
/-- Between two assignments there is a buffer. -/
theorem Ok.isSome_of_publishing (h : p.Ok) (hp : p.pc.publishing = true) :
    p.session.sendBuf.isSome = true := by
  cases hpc : p.pc with
  | bufSet b => rw [h.bufSet b hpc]; rfl
  | lenSet b => rw [(h.lenSet b hpc).1]; rfl
  | _ =>
    rw [hpc] at hp
    cases hp

omit [DecidableEq T] in
/-- Between two assignments the fields do not belong to one call. -/
theorem Ok.not_consistent (h : p.Ok) (hf : p.Fresh) (hp : p.pc.publishing = true) :
    ¬ p.Consistent := by
  rintro ⟨b', hb', hl, ho, -⟩
  cases hpc : p.pc with
  | bufSet b =>
    obtain rfl : b = b' := Option.some.inj ((h.bufSet b hpc).symm.trans hb')
    exact absurd hl (Nat.ne_of_lt (hf.bufSet b hpc).1)
  | lenSet b =>
    obtain rfl : b = b' := Option.some.inj ((h.lenSet b hpc).1.symm.trans hb')
    exact absurd ho (Nat.ne_of_lt (hf.lenSet b hpc).1)
  | _ =>
    rw [hpc] at hp
    cases hp

/-- **The conditions are tight.**  In a run of timely moves so far, a move that is not timely
enters `__send_data` with an inconsistent triple, or makes it possible in the next step. -/
theorem exists_inconsistent {now : ℤ} {tr : List (Move T)} (he : (lts T).Exec (start T now) tr p)
    (hC : ∀ m ∈ tr, Timely m) (hst : (lts T).step p l p') (hm : ¬ Timely ⟨p, l, p'⟩) :
    (enters ⟨p, l, p'⟩ = true ∧ ¬ p.Consistent) ∨
      ∃ l' q, (lts T).step p' l' q ∧ enters ⟨p', l', q⟩ = true ∧ ¬ p'.Consistent := by
  have hok := ok_of_timely he hC
  cases hp : p.pc.publishing with
  | true =>
    -- there is a buffer already, so `__send_data` is entered if anything is out of time
    have hb : p.session.sendBuf.isSome = true := hok.isSome_of_publishing hp
    have hf : p.Fresh := he.invariant (start_fresh now) fun _ _ _ h hst => h.step hst
    refine .inl ⟨?_, hok.not_consistent hf hp⟩
    by_contra hent
    refine hm ⟨fun h => absurd h hent, fun _ hn => ?_, fun w hw => ?_⟩
    · rw [hn] at hb
      cases hb
    · exact absurd (enters_iff.2 (List.ne_nil_of_mem hw)) hent
  | false =>
    obtain ⟨l', q, hq, hent, hnp⟩ := hok.enters_of_disturbed hp hst fun hu => hm (hu.timely hp)
    exact .inr ⟨l', q, hq, hent, fun hc => hnp hc.pending⟩

end Sender

end Usbws
