import Mathlib.Algebra.Ring.Int.Defs
import Usbws.Context.Basic

/-!
# Giving the buffer back

The caller of `usbws_send` may reuse its buffer as soon as the call has returned, so no later step
may transmit from it (`Conn.GivesBack`).  A call that leaves the wait loop because its transfer is
finished finds `send_buf` NULL.  A call that leaves it because the session was discontinued may
return while `send_buf` still refers to its buffer, and the next `WRITEABLE` callback transmits
from there.

`Conn.Transferred` relates the transfer fields to the results of `lws_write` so far.
`Context.givesBack_iff` : in every run of a context the finished calls have given their buffers
back exactly when no call was released by a discontinuation before `lws_write` had taken its whole
buffer (`Conn.Completed`).
-/

namespace Usbws

namespace Conn

/-- Behind the move `send_buf` does not refer to the buffer of the call `n`, and the move does not
write from it. -/
def Free (pingPong : ℤ) (n : ℕ) (m : Move) : Prop :=
  (∀ b ∈ m.post.session.sendBuf, b.call ≠ n) ∧
    ∀ w ∈ m.pre.writes pingPong m.label, ∀ b ∈ w.buf, b.call ≠ n

/-- From their return on the buffers of all calls are free. -/
def GivesBack (pingPong : ℤ) : List Move → Prop
  | [] => True
  | m :: tr => GivesBack pingPong tr ∧ ∀ x ∈ returnsOf (m :: tr), Free pingPong x.1.call m

/-- The results of the writes made from the buffer `b`. -/
def resultsFor (b : SendBuf) (ws : List DataWrite) : List ℤ :=
  (ws.filter fun w => w.buf = some b).map DataWrite.sent

/-- There has been a write from the buffer `b`, and the results add up to its length. -/
def SentWhole (b : SendBuf) (ws : List DataWrite) : Prop :=
  resultsFor b ws ≠ [] ∧ (b.data.length : ℤ) ≤ (resultsFor b ws).sum

/-- No call returns on a discontinued session before its buffer has been sent as a whole. -/
def Completed (pingPong : ℤ) : List Move → Prop
  | [] => True
  | m :: tr => Completed pingPong tr ∧ (m.pre.session.cont = false →
    ∀ x ∈ m.pre.returned m.label, SentWhole x.1 (writesOf pingPong tr))

instance (pingPong : ℤ) (n : ℕ) (m : Move) : Decidable (Free pingPong n m) :=
  inferInstanceAs (Decidable (_ ∧ _))

instance decidableGivesBack (pingPong : ℤ) : ∀ tr, Decidable (GivesBack pingPong tr)
  | [] => inferInstanceAs (Decidable True)
  | _ :: tr =>
    have := decidableGivesBack pingPong tr
    inferInstanceAs (Decidable (_ ∧ _))

instance (b : SendBuf) (ws : List DataWrite) : Decidable (SentWhole b ws) :=
  inferInstanceAs (Decidable (_ ∧ _))

instance decidableCompleted (pingPong : ℤ) : ∀ tr, Decidable (Completed pingPong tr)
  | [] => inferInstanceAs (Decidable True)
  | m :: tr =>
    have := decidableCompleted pingPong tr
    inferInstanceAs (Decidable (_ ∧ (m.pre.session.cont = false →
      ∀ x ∈ m.pre.returned m.label, SentWhole x.1 (writesOf pingPong tr))))

/-- How the writes of a run relate to the transfer fields. -/
structure Transferred (pingPong : ℤ) (tr : List Move) (k : Conn) : Prop where
  /-- Writes were made for calls made so far. -/
  older : ∀ w ∈ writesOf pingPong tr, ∀ b ∈ w.buf, b.call < k.calls
  /-- While `send_buf` is set, `send_offset` is the sum of the results, and below `send_len` once
  there are any. -/
  unfinished : ∀ b, k.session.sendBuf = some b → k.session.sendLen = b.data.length ∧
    k.session.sendOffset = (resultsFor b (writesOf pingPong tr)).sum ∧
    ¬ SentWhole b (writesOf pingPong tr)
  /-- When it is NULL, the buffer of the call in progress has been sent as a whole. -/
  finished : ∀ b, k.pc.buf = some b → k.session.sendBuf = none →
    SentWhole b (writesOf pingPong tr)

/-- The calls that have returned are older than the next one, and `send_buf` refers to none of
their buffers. -/
def Released (tr : List Move) (k : Conn) : Prop :=
  ∀ x ∈ returnsOf tr, x.1.call < k.calls ∧ ∀ b ∈ k.session.sendBuf, b.call ≠ x.1.call

variable {pingPong : ℤ} {ok : DataWrite → Prop} [DecidablePred ok] {k k' : Conn} {e : Event}
  {tr : List Move}

/-- What a step does to buffers given back: it does not take them again. -/
theorem Released.free (h : Released tr k) (hst : (lts pingPong ok).step k e k')
    {x : SendBuf × ℤ} (hx : x ∈ returnsOf tr) : Free pingPong x.1.call ⟨k, e, k'⟩ := by
  obtain ⟨hlt, hne⟩ := h x hx
  refine ⟨fun b hb => ?_, fun w hw b hb => hne b ?_⟩
  · rcases transmits_of_step hst with ⟨data, -, -, rfl⟩ | ⟨-, -, hs, ht⟩
    · cases hb
      exact hlt.ne'
    · exact hne b (ht.sendBuf_eq (hs ▸ hb))
  · rcases writes_of_step hst with hn | ⟨b', sent, hb', -, hn⟩
    · rw [hn] at hw
      cases hw
    · rw [hn, List.mem_singleton] at hw
      rw [hw] at hb
      exact hb'.trans hb

/-! ### The transfer of a call -/

theorem start_transferred (now : ℤ) : Transferred pingPong [] (start now) where
  older _ hw := by cases hw
  unfinished _ hb := by cases hb
  finished _ hp := by cases hp

/-- A call begins without writes: all of them were made for older ones. -/
theorem Transferred.send (h : Transferred pingPong tr k) (data : Bytes) :
    Transferred pingPong (⟨k, .send data, ⟨k.session.publish ⟨k.calls, data⟩,
      .pending ⟨k.calls, data⟩, k.calls + 1⟩⟩ :: tr)
      ⟨k.session.publish ⟨k.calls, data⟩, .pending ⟨k.calls, data⟩, k.calls + 1⟩ := by
  have hnew : resultsFor ⟨k.calls, data⟩ (writesOf pingPong tr) = [] := by
    simp only [resultsFor, List.map_eq_nil_iff, List.filter_eq_nil_iff, decide_eq_true_eq]
    intro w hw hbuf
    exact lt_irrefl _ (h.older w hw ⟨k.calls, data⟩ hbuf)
  have hwrites : writesOf pingPong (⟨k, .send data, ⟨k.session.publish ⟨k.calls, data⟩,
      .pending ⟨k.calls, data⟩, k.calls + 1⟩⟩ :: tr) = writesOf pingPong tr := List.append_nil _
  refine ⟨fun w hw b hb => ?_, fun b hb => ?_, fun b _ hn => ?_⟩
  · rw [hwrites] at hw
    exact (h.older w hw b hb).trans (Nat.lt_succ_self _)
  · obtain rfl : SendBuf.mk k.calls data = b := Option.some.inj hb
    rw [hwrites, SentWhole, hnew]
    exact ⟨rfl, rfl, fun hs => hs.1 rfl⟩
  · cases hn

theorem resultsFor_write (b : SendBuf) (ws : List DataWrite) (off bytes sent : ℤ) :
    resultsFor b (ws ++ [⟨some b, off, bytes, sent⟩]) = resultsFor b ws ++ [sent] := by
  simp [resultsFor]

/-- A write adds its result to the offset, and finishes the transfer exactly when the results
reach the length. -/
theorem Transferred.write (h : Transferred pingPong tr k) (ho : k.Owned) {b : SendBuf} {sent : ℤ}
    (hb : k.session.sendBuf = some b)
    (hs : (k.session.sendData sent).session.SameTransfer k'.session) (hc : k'.calls = k.calls)
    (hpc : ∀ b, k'.pc.buf = some b → k.pc.buf = some b)
    (hw : k.writes pingPong e = [⟨some b, k.session.sendOffset, k.session.chunkLen, sent⟩]) :
    Transferred pingPong (⟨k, e, k'⟩ :: tr) k' := by
  obtain ⟨hlen, hsum, -⟩ := h.unfinished b hb
  obtain ⟨hb', hl', hoff'⟩ := hs
  rw [Session.sendData_session] at hb' hl' hoff'
  simp only at hb' hl' hoff'
  have hwrites : writesOf pingPong (⟨k, e, k'⟩ :: tr) = writesOf pingPong tr ++
      [⟨some b, k.session.sendOffset, k.session.chunkLen, sent⟩] := by
    rw [writesOf, hw]
  have hsum' : (resultsFor b (writesOf pingPong (⟨k, e, k'⟩ :: tr))).sum =
      k.session.sendOffset + sent := by
    rw [hwrites, resultsFor_write, List.sum_append, List.sum_singleton, hsum]
  have hwhole : SentWhole b (writesOf pingPong (⟨k, e, k'⟩ :: tr)) ↔
      k.session.sendLen ≤ k.session.sendOffset + sent := by
    rw [SentWhole, hsum', hlen, hwrites, resultsFor_write]
    simp
  refine ⟨fun w hmem b' hbuf => ?_, fun b' hcur => ?_, fun b' hp hn => ?_⟩
  · rw [hwrites, List.mem_append, List.mem_singleton] at hmem
    rw [hc]
    rcases hmem with hmem | rfl
    · exact h.older w hmem b' hbuf
    · obtain rfl : b = b' := Option.some.inj hbuf
      exact ho.fresh b (.inl hb)
  · rw [hb'] at hcur
    split_ifs at hcur with hdone
    obtain rfl : b = b' := Option.some.inj (hb.symm.trans hcur)
    rw [hl', hoff', hsum', hwhole]
    exact ⟨by rw [if_neg hdone, hlen], rfl, hdone⟩
  · -- `send_buf` has become NULL by this write
    obtain rfl := ho.current b' b (hpc b' hp) hb
    rw [hwhole]
    by_contra hdone
    rw [hb', if_neg hdone, hb] at hn
    cases hn

theorem Transferred.step (h : Transferred pingPong tr k) (ho : k.Owned)
    (hst : (lts pingPong ok).step k e k') : Transferred pingPong (⟨k, e, k'⟩ :: tr) k' := by
  rcases transmits_of_step hst with ⟨data, rfl, -, rfl⟩ |
    ⟨hpub, hc, hs, ⟨⟨hb, hl, hoff⟩, hd⟩ | ⟨b, sent, hb, ht, hd⟩⟩
  · exact h.send data
  · have hwrites : writesOf pingPong (⟨k, e, k'⟩ :: tr) = writesOf pingPong tr := by
      rw [writesOf, show k.writes pingPong e = [] from hd, List.append_nil]
    constructor
    · rw [hwrites, hc]
      exact h.older
    · rw [hwrites, hs, hb, hl, hoff]
      exact h.unfinished
    · rw [hwrites, hs, hb]
      exact fun b hp => h.finished b (buf_of_step hst hpub hp)
  · exact h.write ho hb (hs ▸ ht) hc (fun _ hp => buf_of_step hst hpub hp) hd

/-- In a run the offset is the sum of the results of the current call. -/
theorem transferred_of_exec {now : ℤ} (he : (lts pingPong ok).Exec (start now) tr k) :
    Transferred pingPong tr k := by
  induction he with
  | nil => exact start_transferred now
  | snoc hex hst ih => exact ih.step (owned_of_exec hex) hst

/-- The buffer of a call has been sent as a whole exactly when `send_buf` is NULL again. -/
theorem Transferred.sentWhole_iff (h : Transferred pingPong tr k) (ho : k.Owned) {b : SendBuf}
    (hp : k.pc.buf = some b) :
    SentWhole b (writesOf pingPong tr) ↔ k.session.sendBuf = none := by
  refine ⟨fun hw => ?_, h.finished b hp⟩
  by_contra hn
  obtain ⟨b', hb'⟩ := Option.ne_none_iff_exists'.1 hn
  obtain rfl := ho.current b b' hp hb'
  exact (h.unfinished b' hb').2.2 hw

/-! ### Released buffers -/

/-- A return with `send_buf` NULL gives its buffer back. -/
theorem Released.step (h : Released tr k) (ho : k.Owned) (hst : (lts pingPong ok).step k e k')
    (hm : ∀ x ∈ k.returned e, k.session.sendBuf = none) : Released (⟨k, e, k'⟩ :: tr) k' := by
  intro x hx
  simp only [returnsOf, List.mem_append, Option.mem_toList] at hx
  rcases hx with hx | hx
  · refine ⟨?_, (h.free hst hx).1⟩
    rcases transmits_of_step hst with ⟨data, -, -, rfl⟩ | ⟨-, hc, -, -⟩
    · exact (h x hx).1.trans (Nat.lt_succ_self _)
    · rw [hc]
      exact (h x hx).1
  · obtain ⟨rfl, hbuf, -, hs, hc, -⟩ := ho.returned hst hx
    refine ⟨hc ▸ ho.fresh _ (.inr hbuf), fun b hb => ?_⟩
    rw [hs, hm x hx] at hb
    cases hb

/-- The buffer of a call is free at its return exactly when `send_buf` is NULL. -/
theorem Owned.free_iff (h : k.Owned) (hst : (lts pingPong ok).step k e k') {x : SendBuf × ℤ}
    (hx : x ∈ k.returned e) : Free pingPong x.1.call ⟨k, e, k'⟩ ↔ k.session.sendBuf = none := by
  obtain ⟨rfl, hbuf, -, hs, -⟩ := h.returned hst hx
  constructor
  · intro hf
    by_contra hn
    obtain ⟨b, hb⟩ := Option.ne_none_iff_exists'.1 hn
    refine hf.1 b (hs ▸ hb) ?_
    rw [h.current x.1 b hbuf hb]
  · refine fun hn => ⟨fun b hb => ?_, fun w hw => by cases hw⟩
    rw [hs, hn] at hb
    cases hb

/-- **Giving the buffer back**, for one connection. -/
theorem givesBack_iff_of_exec {now : ℤ} (he : (lts pingPong ok).Exec (start now) tr k) :
    (GivesBack pingPong tr ↔ Completed pingPong tr) ∧ (Completed pingPong tr → Released tr k) := by
  induction he with
  | nil => exact ⟨Iff.rfl, fun _ _ hx => by cases hx⟩
  | @snoc tr k k' e hex hst ih =>
    obtain ⟨ihiff, ihrel⟩ := ih
    have ho := owned_of_exec hex
    -- a call that returns finds `send_buf` NULL if the session continues, and otherwise exactly
    -- when its buffer has been sent as a whole
    have hnull : (k.session.cont = false →
        ∀ x ∈ k.returned e, SentWhole x.1 (writesOf pingPong tr)) ↔
          ∀ x ∈ k.returned e, k.session.sendBuf = none := by
      constructor
      · intro h x hx
        obtain ⟨-, hbuf, -, -, -, hfree⟩ := ho.returned hst hx
        cases hc : k.session.cont with
        | true => exact hfree hc
        | false => exact ((transferred_of_exec hex).sentWhole_iff ho hbuf).1 (h hc x hx)
      · intro h _ x hx
        obtain ⟨-, hbuf, -⟩ := ho.returned hst hx
        exact ((transferred_of_exec hex).sentWhole_iff ho hbuf).2 (h x hx)
    simp only [GivesBack, Completed, ihiff, hnull]
    refine ⟨⟨?_, ?_⟩, fun ⟨htr, hm⟩ => (ihrel htr).step ho hst hm⟩
    · rintro ⟨htr, hfree⟩
      refine ⟨htr, fun x hx => (ho.free_iff hst hx).1 (hfree x ?_)⟩
      exact List.mem_append.2 (.inr (Option.mem_toList.2 hx))
    · rintro ⟨htr, hm⟩
      refine ⟨htr, fun x hx => ?_⟩
      simp only [returnsOf, List.mem_append, Option.mem_toList] at hx
      rcases hx with hx | hx
      · exact (ihrel htr).free hst hx
      · exact (ho.free_iff hst hx).2 (hm x hx)

end Conn

namespace Context

variable {ι : Type*} [DecidableEq ι] {pingPong : ℤ} {ok : DataWrite → Prop} [DecidablePred ok]
  {now : ι → ℤ} {c : Context ι} {tr : List (Move ι)}

/-- **A finished send gives the buffer back**, in every run of a context and on every connection,
exactly when no call returns on a discontinued session before `lws_write` has taken its whole
buffer. -/
theorem givesBack_iff (he : (lts pingPong ok).Exec (start now) tr c) :
    (∀ i, Conn.GivesBack pingPong (view i tr)) ↔ ∀ i, Conn.Completed pingPong (view i tr) :=
  forall_congr' fun i => (Conn.givesBack_iff_of_exec (exec_view he i)).1

/-- Two connections: one call is transmitted by the broadcast of the other sender, and the other
is shut down when its transfer is finished. -/
theorem givesBack_of_two_connections : ∃ tr c,
    (lts 0 DataWrite.Valid).Exec (start fun _ : Bool => 0) tr c ∧
    Conn.returnsOf (view true tr) = [(⟨0, [1]⟩, 1)] ∧
    Conn.returnsOf (view false tr) = [(⟨0, [2]⟩, -1)] ∧
    ∀ i, Conn.GivesBack 0 (view i tr) := by
  obtain ⟨tr, c, he, ht, hf, hm⟩ : ∃ tr c,
      (lts 0 DataWrite.Valid).Exec (start fun _ : Bool => 0) tr c ∧
      Conn.returnsOf (view true tr) = [(⟨0, [1]⟩, 1)] ∧
      Conn.returnsOf (view false tr) = [(⟨0, [2]⟩, -1)] ∧
      ∀ i, Conn.Completed 0 (view i tr) :=
    LTS.exists_exec_of_replay
      [.own true (.callback .serverWriteable {} []), .send true [1] [true],
        .send false [2] [true, false], .request false { sent := 1 }, .request false {},
        .own false (.callback .serverWriteable { sent := 1 } []), .leave false,
        .own false .shutdown, .own false .ret, .request true {}, .leave true, .own true .ret]
      _ (fun _ _ _ h => h) (by decide)
  exact ⟨tr, c, he, ht, hf, (givesBack_iff he).2 hm⟩

/-- A call that returns by a shutdown before anything was written; the next `WRITEABLE` callback
writes from its buffer. -/
theorem not_givesBack_of_shutdown : ∃ tr c,
    (lts 0 DataWrite.Valid).Exec (start fun _ : Unit => 0) tr c ∧
    Conn.returnsOf (view () tr) = [(⟨0, [1]⟩, -1)] ∧
    Conn.writesOf 0 (view () tr) = [⟨some ⟨0, [1]⟩, 0, 1, 1⟩] ∧
    ¬ Conn.GivesBack 0 (view () tr) :=
  LTS.exists_exec_of_replay
    [.send () [1] [()], .request () {}, .own () .shutdown, .leave (), .own () .ret,
      .own () (.callback .serverWriteable { sent := 1 } [])] _ (fun _ _ _ h => h) (by decide)

end Context

end Usbws
