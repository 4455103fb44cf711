import Mathlib.Data.Fintype.Basic
import Usbws.Sender.Basic

/-!
# Publishing a send request

`__send_data` relies on the three fields `send_buf`, `send_len` and `send_offset` to describe one
call of `usbws_send` (`Sender.Consistent`).  The fields keep values of the previous transfer
between the assignments, the test in `usbws_handle_send_request` is made without the lock, and a
failed write moves the offset back, so this is not always so.

`Sender.consistent_of_timely` : in every run whose moves are timely (`Sender.Timely`) the triple
is consistent whenever `__send_data` is entered.
-/

namespace Usbws

namespace Sender

variable {T : Type*}

/-- The move enters `__send_data`. -/
def enters (m : Move T) : Bool :=
  match m.label with
  | .locked _ | .otherLocked _ _ => m.pre.session.writable
  | .writeable _ => m.pre.session.sendBuf.isSome
  | _ => false

/-- Some thread is between its test of `send_buf` and the lock. -/
def Requested (p : Sender T) : Prop := p.pc.isTested = true ∨ ∃ t, p.others t = true

/-- `send_buf`, `send_len` and `send_offset` belong to one call. -/
def Consistent (p : Sender T) : Prop :=
  ∃ b, p.session.sendBuf = some b ∧ p.lenOf = b.call ∧ p.offOf = b.call ∧
    p.session.sendLen = b.data.length ∧ 0 ≤ p.session.sendOffset ∧
    p.session.sendOffset ≤ p.session.sendLen ∧ 0 ≤ p.session.chunkLen

/-- The moves that do not fall between two things that belong together. -/
structure Timely (m : Move T) : Prop where
  /-- `__send_data` is not entered between the first and the third assignment of a call. -/
  published : enters m = true → m.pre.pc.publishing = false
  /-- No `WRITEABLE` callback without anything to send comes between a test of `send_buf` and
  the lock. -/
  requested : m.label.isWriteable = true → m.pre.session.sendBuf = none →
    m.pre.session.pingPending = false → ¬ m.pre.Requested
  /-- No write fails at the beginning of a buffer. -/
  failed : ∀ w ∈ m.pre.writes m.label, w.sent = -1 → 0 < w.off

instance [Fintype T] (p : Sender T) : Decidable p.Requested :=
  inferInstanceAs (Decidable (_ ∨ _))

instance [Fintype T] (m : Move T) : Decidable (Timely m) :=
  decidable_of_iff
    ((enters m = true → m.pre.pc.publishing = false) ∧
      (m.label.isWriteable = true → m.pre.session.sendBuf = none →
        m.pre.session.pingPending = false → ¬ m.pre.Requested) ∧
      ∀ w ∈ m.pre.writes m.label, w.sent = -1 → 0 < w.off)
    ⟨fun ⟨h₁, h₂, h₃⟩ => ⟨h₁, h₂, h₃⟩, fun ⟨h₁, h₂, h₃⟩ => ⟨h₁, h₂, h₃⟩⟩

/-- What holds at every time of a run of timely moves. -/
structure Ok (p : Sender T) : Prop where
  bufSet : ∀ b, p.pc = .bufSet b → p.session.sendBuf = some b
  lenSet : ∀ b, p.pc = .lenSet b → p.session.sendBuf = some b ∧ p.lenOf = b.call ∧
    p.session.sendLen = b.data.length
  /-- The three fields were assigned by one call. -/
  owned : p.pc.publishing = false → ∀ b, p.session.sendBuf = some b →
    p.lenOf = b.call ∧ p.offOf = b.call
  sendOk : p.pc.publishing = false → p.session.SendOk
  /-- A thread between its test and the lock will find a buffer, or the socket not writable. -/
  requested : p.Requested → p.session.sendBuf.isSome = true ∨ p.session.writable = false

variable {p p' : Sender T} {l : Label T}

/-- `__send_data` is entered exactly by the steps that write data. -/
theorem enters_iff : enters ⟨p, l, p'⟩ = true ↔ p.writes l ≠ [] := by
  cases l with
  | locked sent | otherLocked t sent =>
    simp only [enters, writes, outcome, Session.sendRequestLocked]
    split_ifs with hw <;> simp [hw]
  | writeable sent =>
    simp only [enters, writes, outcome, Session.handleWritable]
    split_ifs with hb <;> simp [hb]
  | _ => simp [enters, writes, outcome]

theorem start_ok (now : ℤ) : (start T now).Ok where
  bufSet _ h := by cases h
  lenSet _ h := by cases h
  owned _ _ h := by cases h
  sendOk _ _ h := by cases h
  requested _ := .inr rfl

/-- A transmission at a good time keeps everything in order. -/
theorem Ok.transmit {pc : SendPc} {others : T → Bool} {o : Outcome} (h : p.Ok)
    (ht : p.session.Transmits o) (hpc : pc = p.pc ∨ p.pc.publishing = false ∧ pc.publishing = false)
    (hp : dataWrites o.effects ≠ [] → p.pc.publishing = false)
    (hw : ∀ w ∈ dataWrites o.effects, w.Valid ∧ (w.sent = -1 → 0 < w.off))
    (hr : Requested { p with session := o.session, pc := pc, others := others } →
      o.session.sendBuf.isSome = true ∨ o.session.writable = false) :
    Ok { p with session := o.session, pc := pc, others := others } := by
  have hpub : pc.publishing = p.pc.publishing := by
    rcases hpc with rfl | ⟨h₁, h₂⟩
    · rfl
    · rw [h₁, h₂]
  -- between two assignments nothing is transmitted
  have hsame : p.pc.publishing = true → pc = p.pc ∧ p.session.SameTransfer o.session := by
    intro hpp
    refine ⟨hpc.resolve_right (fun hc => by rw [hc.1] at hpp; cases hpp), ?_⟩
    rcases ht with ⟨hs, -⟩ | ⟨b, sent, -, -, hd⟩
    · exact hs
    · rw [hp (by simp [hd])] at hpp
      cases hpp
  constructor
  · rintro b rfl
    obtain ⟨he, hs, -, -⟩ := hsame (by rw [← hpub]; rfl)
    exact hs.trans (h.bufSet b he.symm)
  · rintro b rfl
    obtain ⟨he, hs, hl, -⟩ := hsame (by rw [← hpub]; rfl)
    obtain ⟨h₁, h₂, h₃⟩ := h.lenSet b he.symm
    exact ⟨hs.trans h₁, h₂, hl.trans h₃⟩
  · intro hpp b hb
    exact h.owned (by rwa [← hpub]) b (ht.sendBuf_eq hb)
  · intro hpp
    have hok := h.sendOk (by rwa [← hpub])
    refine hok.transmits ht fun w hwm => ?_
    obtain ⟨hv, hf⟩ := hw w hwm
    rcases ht with ⟨-, hd⟩ | ⟨b, sent, hb, -, hd⟩
    · rw [hd] at hwm
      cases hwm
    · rw [hd, List.mem_singleton] at hwm
      subst hwm
      have hoff := (hok b hb).2.1
      rcases hv with hv | hv
      · have := hf hv
        simp only at this hv ⊢
        omega
      · exact Int.add_nonneg hoff hv.1
  · exact hr

/-- Between the assignments and the transmissions only the program points change. -/
theorem Ok.move (pc : SendPc) (others : T → Bool) (h : p.Ok)
    (hpc : pc = p.pc ∨ p.pc.publishing = false ∧ pc.publishing = false)
    (hr : Requested { p with pc := pc, others := others } →
      p.session.sendBuf.isSome = true ∨ p.session.writable = false) :
    Ok { p with pc := pc, others := others } :=
  h.transmit (o := ⟨p.session, [], 0⟩) (.quiet (.refl _) rfl) hpc (fun hd => absurd rfl hd)
    (fun _ hw => by cases hw) hr

/-- A timely write is a documented one that does not fail at the beginning of a buffer. -/
theorem Timely.writes (h : Timely ⟨p, l, p'⟩) (hv : ∀ w ∈ p.writes l, w.Valid) :
    ∀ w ∈ p.writes l, w.Valid ∧ (w.sent = -1 → 0 < w.off) :=
  fun w hw => ⟨hv w hw, h.failed w hw⟩

/-- A thread that tests `send_buf` goes on to the lock only if it finds a buffer. -/
theorem Ok.otherTest [DecidableEq T] (h : p.Ok) (t : T) :
    Ok { p with others := Function.update p.others t p.session.sendBuf.isSome } := by
  refine h.move p.pc _ (.inl rfl) ?_
  rintro (hr | ⟨t', ht'⟩)
  · exact h.requested (.inl hr)
  · simp only [Function.update_apply] at ht'
    split_ifs at ht'
    · exact .inl ht'
    · exact h.requested (.inr ⟨t', ht'⟩)

/-- The first assignment. -/
theorem Ok.setSendBuf (data : Bytes) : Ok { p with
    session := p.session.setSendBuf ⟨p.calls, data⟩, pc := .bufSet ⟨p.calls, data⟩
    calls := p.calls + 1 } := by
  refine ⟨fun b hb => ?_, (fun _ hb => by cases hb), (fun hp => by cases hp),
    (fun hp => by cases hp), fun _ => .inl rfl⟩
  cases hb
  rfl

/-- The second assignment. -/
theorem Ok.setSendLen {b : SendBuf} (h : p.Ok) (hpc : p.pc = .bufSet b) :
    Ok { p with session := p.session.setSendLen b, pc := .lenSet b, lenOf := b.call } := by
  have hb : p.session.sendBuf = some b := h.bufSet b hpc
  refine ⟨(fun _ hb => by cases hb), fun b' hb' => ?_, (fun hp => by cases hp),
    (fun hp => by cases hp), fun _ => .inl (by simp [Session.setSendLen, hb])⟩
  cases hb'
  exact ⟨hb, rfl, rfl⟩

/-- The third assignment completes what the first two have begun. -/
theorem Ok.setSendOffset {b : SendBuf} (h : p.Ok) (hpc : p.pc = .lenSet b) :
    Ok { p with session := p.session.setSendOffset, pc := .published b, offOf := b.call } := by
  obtain ⟨hb, hl, hlen⟩ := h.lenSet b hpc
  refine ⟨(fun _ hb => by cases hb), (fun _ hb => by cases hb), fun _ b' hb' => ?_,
    fun _ b' hb' => ?_, fun _ => .inl (by simp [Session.setSendOffset, hb])⟩
  · obtain rfl : b = b' := Option.some.inj (hb.symm.trans hb')
    exact ⟨hl, rfl⟩
  · obtain rfl : b = b' := Option.some.inj (hb.symm.trans hb')
    refine ⟨hlen, Int.le_refl 0, ?_⟩
    change (0 : ℤ) ≤ p.session.sendLen
    rw [hlen]
    exact Int.natCast_nonneg _

/-- The three assignments at once. -/
theorem Ok.publish (data : Bytes) : Ok { p with
    session := p.session.publish ⟨p.calls, data⟩, pc := .published ⟨p.calls, data⟩
    calls := p.calls + 1, lenOf := p.calls, offOf := p.calls } := by
  refine ⟨(fun _ hb => by cases hb), (fun _ hb => by cases hb), fun _ b hb => ?_,
    fun _ => Session.publish_sendOk _, fun _ => .inl rfl⟩
  cases hb
  exact ⟨rfl, rfl⟩

variable [DecidableEq T]

/-- **A timely move keeps the transfer and the requests in order.** -/
theorem Ok.step (h : p.Ok) (hst : (lts T).step p l p') (hm : Timely ⟨p, l, p'⟩) : p'.Ok := by
  cases step_of_next hst with
  | setSendBuf _ => exact .setSendBuf _
  | setSendLen hpc => exact h.setSendLen hpc
  | setSendOffset hpc => exact h.setSendOffset hpc
  | publish _ => exact .publish _
  | testNull hpc _ | leave hpc _ =>
    refine h.move _ p.others (.inr ⟨by rw [hpc]; rfl, rfl⟩) fun hr => h.requested ?_
    exact hr.imp (fun he => by cases he) id
  | test hpc hb =>
    exact h.move _ p.others (.inr ⟨by rw [hpc]; rfl, rfl⟩) fun _ => .inl hb
  | locked hpc hv =>
    have hreq := h.requested (.inl (by rw [hpc]; rfl))
    exact h.transmit (Session.sendRequestLocked_transmits hreq) (.inr ⟨by rw [hpc]; rfl, rfl⟩)
      (fun _ => by rw [hpc]; rfl) (hm.writes hv) fun _ => .inr Session.sendRequestLocked_writable
  | otherTest _ => exact h.otherTest _
  | @otherLocked t sent ht hv =>
    have hreq := h.requested (.inr ⟨t, ht⟩)
    exact h.transmit (Session.sendRequestLocked_transmits hreq) (.inl rfl)
      (fun hd => hm.published (enters_iff.2 hd)) (hm.writes hv)
      fun _ => .inr Session.sendRequestLocked_writable
  | @writeable sent hv =>
    refine h.transmit Session.handleWritable_transmits (.inl rfl)
      (fun hd => hm.published (enters_iff.2 hd)) (hm.writes hv) fun hr => .inr ?_
    refine Session.handleWritable_writable ?_
    by_contra hn
    simp only [not_or, Bool.not_eq_true, Option.isSome_eq_false_iff,
      Option.isNone_iff_eq_none] at hn
    exact hm.requested rfl hn.1 hn.2 hr

/-- Where everything is in order `__send_data` is entered with a consistent triple. -/
theorem Ok.consistent (h : p.Ok) (hst : (lts T).step p l p') (hm : Timely ⟨p, l, p'⟩)
    (he : enters ⟨p, l, p'⟩ = true) : p.Consistent := by
  have hp : p.pc.publishing = false := hm.published he
  have hb : p.session.sendBuf.isSome = true := by
    cases step_of_next hst with
    | locked hpc _ =>
      exact (h.requested (.inl (by rw [hpc]; rfl))).resolve_right (by simpa [enters] using he)
    | otherLocked ht _ =>
      exact (h.requested (.inr ⟨_, ht⟩)).resolve_right (by simpa [enters] using he)
    | writeable _ => exact he
    | _ => cases he
  obtain ⟨b, hb⟩ := Option.isSome_iff_exists.1 hb
  obtain ⟨hl, ho⟩ := h.owned hp b hb
  obtain ⟨hlen, h₀, hle⟩ := h.sendOk hp b hb
  exact ⟨b, hb, hl, ho, hlen, h₀, hle, Session.chunkLen_nonneg hle⟩

theorem ok_of_timely {now : ℤ} {tr : List (Move T)} (he : (lts T).Exec (start T now) tr p)
    (hC : ∀ m ∈ tr, Timely m) : p.Ok :=
  he.invariant_of_moves hC (start_ok now) fun _ _ _ h hst hm => h.step hst hm

/-- **A send request is published consistently** in every run of timely moves: whenever
`__send_data` is entered, the three fields belong to one call. -/
theorem consistent_of_timely {now : ℤ} {tr : List (Move T)}
    (he : (lts T).Exec (start T now) tr p) (hC : ∀ m ∈ tr, Timely m) :
    ∀ m ∈ tr, enters m = true → m.pre.Consistent :=
  he.forall_moves hC (start_ok now) (fun _ _ _ h hst hm => h.step hst hm)
    fun _ _ _ h hst hm hent => h.consistent hst hm hent

/-- A call for two bytes sent in two pieces. -/
theorem consistent_of_two_pieces : ∃ tr p, (lts Empty).Exec (start Empty 0) tr p ∧
    p.pc = .idle ∧ p.session.sendOffset = 2 ∧ ∀ m ∈ tr, enters m = true → m.pre.Consistent := by
  obtain ⟨tr, p, he, hpc, hoff, hC⟩ : ∃ tr p, (lts Empty).Exec (start Empty 0) tr p ∧
      p.pc = .idle ∧ p.session.sendOffset = 2 ∧ ∀ m ∈ tr, Timely m :=
    LTS.exists_exec_of_replay
      [.writeable 0, .setSendBuf [1, 2], .setSendLen, .setSendOffset, .test, .locked 1,
        .writeable 1, .leave] _ (fun _ _ _ h => h) (by decide)
  exact ⟨tr, p, he, hpc, hoff, consistent_of_timely he hC⟩

/-- Behind a finished call for one byte, a `WRITEABLE` callback between the first two assignments
of the next call finds the new buffer with the old length and offset. -/
theorem not_consistent_between_assignments : ∃ tr p, (lts Empty).Exec (start Empty 0) tr p ∧
    ∃ m ∈ tr, enters m = true ∧ m.pre.session.sendBuf = some ⟨2, [2, 3]⟩ ∧
      m.pre.session.chunkLen = -1 ∧ ¬ m.pre.Consistent := by
  obtain ⟨tr, p, he, m, hm, hent, hb, hc⟩ : ∃ tr p, (lts Empty).Exec (start Empty 0) tr p ∧
      ∃ m ∈ tr, enters m = true ∧ m.pre.session.sendBuf = some ⟨2, [2, 3]⟩ ∧
        m.pre.session.chunkLen = -1 :=
    LTS.exists_exec_of_replay
      [.setSendBuf [1], .setSendLen, .setSendOffset, .test, .locked 0, .writeable 1, .leave,
        .setSendBuf [2, 3], .writeable (-1)] _ (fun _ _ _ h => h) (by decide)
  refine ⟨tr, p, he, m, hm, hent, hb, hc, ?_⟩
  rintro ⟨b, -, -, -, -, -, -, h₀⟩
  omega

end Sender

end Usbws
