import Usbws.Permit.Basic

/-!
# Write-permission discipline

The flag `writable` and the library's request for the connection are complementary: a section that
uses the permission makes the next request, and the `WRITEABLE` callback that answers a request
gives the permission.  A transfer whose sender has visited its own session by its broadcast never
waits with the permission unused: the visit uses it, and so does every later callback.

* `Permit.permit_of_step` : what a step does with the permission.
* `Permit.Disciplined` : the relation of the flag, the request and the history of a run.
* `Permit.write_permission_discipline` : it holds in every reachable state.
-/

namespace Usbws

namespace Permit

open Session

variable {T : Type*} [DecidableEq T] {p p' : Permit T} {l : Label T} {tr : List (Move T)}

/-! ### One step -/

/-- **What a step does with the permission**: a `WRITEABLE` callback begins with it, any other step
with the one there is, and it is kept or used once. -/
theorem permit_of_step (h : (lts T).step p l p') :
    UsesPermit (l.isWriteable || p.session.writable) p'.session.writable (p.outcome l).effects ∧
      p'.requested = p.requests l := by
  cases step_of_next h with
  | setSendBuf | setSendLen | setSendOffset | testNull | test | wait | leave | otherTest =>
    exact ⟨.nothing _, by simp [requests, Label.isWriteable, outcome]⟩
  | @cancel b ret hpc =>
    have hes : (p.outcome .cancel).effects = if ret = 0 then [.cancelService] else [] := by
      simp only [outcome, hpc]
    have hmem : Effect.callbackOnWritable ∉ (p.outcome .cancel).effects := by
      rw [hes]
      split_ifs <;> simp
    refine ⟨.kept rfl ?_ hmem, by simp [requests, hmem, Label.isWriteable]⟩
    rw [hes]
    split_ifs <;> rfl
  | locked | otherLocked => exact ⟨sendRequestLocked_usesPermit, rfl⟩
  | writeable => exact ⟨handleWritable_usesPermit, rfl⟩
  | ping => exact ⟨usbwsSendPing_usesPermit, rfl⟩
  | discontinue => exact ⟨.kept rfl rfl (by simp [outcome, discontinue]), rfl⟩

/-- A transfer whose sender has visited its own session waits without the permission. -/
def Unparked (p : Permit T) : Prop :=
  p.session.sendBuf.isSome = true → p.pc.ahead = false → p.session.writable = false

omit [DecidableEq T] in
/-- What a section may do to a waiting transfer. -/
theorem Unparked.transmits {o : Outcome} (h : p.Unparked) (ht : p.session.Transmits o)
    (hw : p.session.sendBuf.isSome = true → p.session.writable = false → o.session.writable = false)
    (hb : o.session.sendBuf.isSome = true) (ha : p.pc.ahead = false) :
    o.session.writable = false := by
  obtain ⟨b, hb⟩ := Option.isSome_iff_exists.1 hb
  have hb' : p.session.sendBuf.isSome = true := by rw [ht.sendBuf_eq hb]; rfl
  exact hw hb' (h hb' ha)

theorem Unparked.step (h : p.Unparked) (hst : (lts T).step p l p') : p'.Unparked := by
  intro hb ha
  cases step_of_next hst with
  | setSendBuf | setSendLen | setSendOffset | test => cases ha
  | testNull _ hnone =>
    rw [show p.session.sendBuf = none from hnone] at hb
    cases hb
  | locked | otherLocked => exact sendRequestLocked_writable
  | cancel hpc | wait hpc | leave hpc => exact h hb (by rw [hpc]; rfl)
  | otherTest | discontinue => exact h hb ha
  | writeable =>
    exact h.transmits handleWritable_transmits (fun hs _ => handleWritable_writable (.inl hs)) hb ha
  | ping => simp [perform, outcome, usbwsSendPing_session]

/-! ### Whole runs -/

/-- The flag, the request of the library and the history of a run. -/
structure Disciplined (tr : List (Move T)) (p : Permit T) : Prop where
  /-- With the permission nothing was written since the latest `WRITEABLE` callback. -/
  unwritten : p.session.writable = true → writesSince tr = 0
  /-- A `WRITEABLE` callback permits one write. -/
  atMostOne : writesSince tr ≤ 1
  /-- Before the first `WRITEABLE` callback nothing may be written. -/
  before : (∀ m ∈ tr, m.label.isWriteable = false) →
    p.session.writable = false ∧ writesSince tr = 0
  /-- Without the permission there is a request. -/
  requested : p.requested = !p.session.writable
  unparked : p.Unparked

omit [DecidableEq T] in
theorem start_disciplined (now : ℤ) : Disciplined [] (start T now) where
  unwritten _ := rfl
  atMostOne := Nat.zero_le _
  before _ := ⟨rfl, rfl⟩
  requested := rfl
  unparked _ _ := rfl

theorem Disciplined.step (h : Disciplined tr p) (hst : (lts T).step p l p') :
    Disciplined (⟨p, l, p'⟩ :: tr) p' := by
  obtain ⟨hperm, hreq⟩ := permit_of_step hst
  have hunparked := h.unparked.step hst
  rw [requests, h.requested] at hreq
  cases hl : l.isWriteable with
  | true =>
    -- the callback begins a new period
    simp only [hl, Bool.true_or, Bool.not_true, Bool.and_false, Bool.false_or] at hperm hreq
    have hnot : ¬ ∀ m ∈ (⟨p, l, p'⟩ :: tr : List (Move T)), m.label.isWriteable = false := by
      simp [hl]
    rcases hperm with ⟨hw, hes, hmem⟩ | ⟨-, hw, hes, hmem⟩
    all_goals
      refine ⟨?_, ?_, fun hn => absurd hn hnot, by simp [hreq, hmem, hw], hunparked⟩
      all_goals simp [writesSince, writes, hl, hes, hw]
  | false =>
    simp only [hl, Bool.false_or, Bool.not_false, Bool.and_true] at hperm hreq
    have hbefore : (∀ m ∈ (⟨p, l, p'⟩ :: tr : List (Move T)), m.label.isWriteable = false) →
        p.session.writable = false ∧ writesSince tr = 0 := fun hn =>
      h.before fun m hm => hn m (List.mem_cons_of_mem _ hm)
    have hsince : writesSince (⟨p, l, p'⟩ :: tr) =
        writesSince tr + lwsWrites (p.outcome l).effects := by
      simp [writesSince, writes, hl]
    rcases hperm with ⟨hw, hes, hmem⟩ | ⟨hwt, hw, hes, hmem⟩
    · rw [hes, Nat.add_zero] at hsince
      refine ⟨?_, ?_, ?_, by simp [hreq, hmem, hw], hunparked⟩
      all_goals rw [hsince]
      · rw [hw]; exact h.unwritten
      · exact h.atMostOne
      · rw [hw]; exact hbefore
    · rw [hes, h.unwritten hwt] at hsince
      refine ⟨?_, ?_, ?_, by simp [hreq, hmem, hw], hunparked⟩
      all_goals rw [hsince]
      · rw [hw]; intro hf; cases hf
      · intro hn
        rw [(hbefore hn).1] at hwt
        cases hwt

theorem disciplined_of_exec {now : ℤ} (he : (lts T).Exec (start T now) tr p) :
    Disciplined tr p := by
  induction he with
  | nil => exact start_disciplined now
  | snoc _ hst ih => exact ih.step hst

/-- **Write-permission discipline.**  In every reachable state: with `writable` set there was no
`lws_write` since the latest `WRITEABLE` callback; there was at most one since then in any case, and
none before the first one; with `writable` clear a request is outstanding; and so it is while
`send_buf` is not NULL behind the visit of the sender's broadcast, with `writable` clear. -/
theorem write_permission_discipline {now : ℤ} (he : (lts T).Exec (start T now) tr p) :
    (p.session.writable = true → writesSince tr = 0) ∧
      (writesSince tr ≤ 1 ∧ ((∀ m ∈ tr, m.label.isWriteable = false) → writesSince tr = 0)) ∧
      (p.session.writable = false → p.requested = true) ∧
      (p.session.sendBuf.isSome = true → p.pc.ahead = false →
        p.requested = true ∧ p.session.writable = false) := by
  have h := disciplined_of_exec he
  refine ⟨h.unwritten, ⟨h.atMostOne, fun hn => (h.before hn).2⟩, fun hw => ?_, fun hb ha => ?_⟩
  · rw [h.requested, hw]; rfl
  · have hw := h.unparked hb ha
    exact ⟨by rw [h.requested, hw]; rfl, hw⟩

/-- A sender writes the first piece of its buffer at once, a `WRITEABLE` callback the second one,
and a further piece waits for the next callback. -/
theorem disciplined_of_three_pieces : ∃ tr p, (lts Empty).Exec (start Empty 0) tr p ∧
    p.pc = .waiting ⟨0, [1, 2, 3]⟩ ∧ p.session.sendOffset = 2 ∧
    p.requested = true ∧ p.session.writable = false := by
  obtain ⟨tr, p, he, hpc, hoff, hb⟩ : ∃ tr p, (lts Empty).Exec (start Empty 0) tr p ∧
      p.pc = .waiting ⟨0, [1, 2, 3]⟩ ∧ p.session.sendOffset = 2 ∧ p.session.sendBuf.isSome = true :=
    LTS.exists_exec_of_replay
      [.writeable 0, .setSendBuf [1, 2, 3], .setSendLen, .setSendOffset, .test, .locked 1, .cancel,
        .wait, .writeable 1] _ (fun _ _ _ h => h) (by decide)
  exact ⟨tr, p, he, hpc, hoff, (write_permission_discipline he).2.2.2 hb (by rw [hpc]; rfl)⟩

end Permit

end Usbws
