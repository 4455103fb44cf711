import Usbws.Context.Basic

/-!
# Failed writes

`lws_write` returns `-1` when it fails.  `__send_data` adds the result to `send_offset` without
looking at it, whereas `__send_ping` tests `sent > 0`.  So a failed write moves the offset one
byte back: in front of the buffer when nothing has been accepted, and otherwise to a byte that has
been accepted and is sent again.

`Context.uncorrupted_iff` : in every run of a context the transfers are uncorrupted
(`Conn.Uncorrupted`) exactly when no write of data fails.
-/

namespace Usbws

namespace DataWrite

/-- All bytes offered lie inside of the caller's buffer. -/
def Inside (w : DataWrite) : Prop :=
  ∃ b, w.buf = some b ∧ 0 ≤ w.off ∧ 0 ≤ w.bytes ∧ w.off + w.bytes ≤ b.data.length

/-- The later write `w'` offers a byte that was accepted by `w`. -/
def Repeats (w w' : DataWrite) : Prop :=
  w.buf = w'.buf ∧ ∃ i, w.off ≤ i ∧ i < w.off + w.sent ∧ w'.off ≤ i ∧ i < w'.off + w'.bytes

end DataWrite

namespace Conn

/-- A failing write of the move leaves `send_offset` as it was. -/
def KeepsOffset (pingPong : ℤ) (m : Move) : Prop :=
  ∀ w ∈ m.pre.writes pingPong m.label, w.sent = -1 →
    m.post.session.sendOffset = m.pre.session.sendOffset

instance (pingPong : ℤ) (m : Move) : Decidable (KeepsOffset pingPong m) :=
  inferInstanceAs (Decidable (∀ w ∈ m.pre.writes pingPong m.label, w.sent = -1 →
    m.post.session.sendOffset = m.pre.session.sendOffset))

/-- The failed writes of a run do no harm to the transfers. -/
structure Uncorrupted (pingPong : ℤ) (tr : List Move) : Prop where
  kept : ∀ m ∈ tr, KeepsOffset pingPong m
  /-- In every state the offset lies within the transfer. -/
  inOrder : ∀ m ∈ tr, m.post.session.SendOk
  inside : ∀ w ∈ writesOf pingPong tr, w.Inside
  /-- No accepted byte is offered again. -/
  once : (writesOf pingPong tr).Pairwise fun w w' => ¬ w.Repeats w'

/-- How the writes of a run without failures relate to the current transfer. -/
structure Written (pingPong : ℤ) (tr : List Move) (k : Conn) : Prop where
  sendOk : k.session.SendOk
  /-- Each write was made for a call, and the current call is behind what it accepted. -/
  behind : ∀ w ∈ writesOf pingPong tr, ∃ b, w.buf = some b ∧ b.call < k.calls ∧
    (k.session.sendBuf = some b → w.off + w.sent ≤ k.session.sendOffset)

variable {pingPong : ℤ} {k k' : Conn} {e : Event} {tr : List Move}

theorem start_written (now : ℤ) : Written pingPong [] (start now) where
  sendOk _ hb := by cases hb
  behind _ hw := by cases hw

/-- A write begins inside of the buffer and behind all bytes accepted before. -/
theorem Written.write (h : Written pingPong tr k) {b : SendBuf} (hb : k.session.sendBuf = some b)
    (sent : ℤ) : (DataWrite.mk (some b) k.session.sendOffset k.session.chunkLen sent).Inside ∧
      ∀ w ∈ writesOf pingPong tr,
        ¬ w.Repeats ⟨some b, k.session.sendOffset, k.session.chunkLen, sent⟩ := by
  obtain ⟨hlen, h₀, hle⟩ := h.sendOk b hb
  constructor
  · refine ⟨b, rfl, h₀, Session.chunkLen_nonneg hle, ?_⟩
    have := k.session.chunkLen_le_rest
    simp only
    omega
  · rintro w hw ⟨hbuf, i, -, hi, hi', -⟩
    obtain ⟨b', hb', -, hbehind⟩ := h.behind w hw
    obtain rfl : b' = b := Option.some.inj (hb'.symm.trans hbuf)
    have := hbehind hb
    simp only at hi'
    omega

/-- The writes of a step, of which there is at most one. -/
theorem Written.writes {ok : DataWrite → Prop} [DecidablePred ok] (h : Written pingPong tr k)
    (hst : (lts pingPong ok).step k e k') : ∀ w ∈ k.writes pingPong e, w.Inside ∧
      ∀ w₀ ∈ writesOf pingPong tr, ¬ w₀.Repeats w := by
  rcases writes_of_step hst with hw | ⟨b, sent, hb, -, hw⟩
  · simp [hw]
  · rw [hw, List.forall_mem_singleton]
    exact h.write hb sent

theorem pairwise_writes {ok : DataWrite → Prop} [DecidablePred ok]
    {R : DataWrite → DataWrite → Prop} (hst : (lts pingPong ok).step k e k') :
    (k.writes pingPong e).Pairwise R := by
  rcases writes_of_step hst with hw | ⟨b, sent, -, -, hw⟩ <;> simp [hw]

/-- A write that does not fail leaves the transfer in order and behind what has been accepted. -/
theorem Written.step {ok : DataWrite → Prop} [DecidablePred ok] (h : Written pingPong tr k)
    (ho : k.Owned) (hst : (lts pingPong ok).step k e k')
    (hw : ∀ w ∈ k.writes pingPong e, w.Accepting) : Written pingPong (⟨k, e, k'⟩ :: tr) k' := by
  rcases transmits_of_step hst with ⟨data, rfl, -, rfl⟩ | ⟨-, hc, hs, ht⟩
  · -- the new call has not written anything
    refine ⟨Session.publish_sendOk _, fun w hw => ?_⟩
    simp only [writesOf, List.mem_append] at hw
    obtain ⟨b, hb, hlt, -⟩ := h.behind w (hw.resolve_right fun hn => by cases hn)
    refine ⟨b, hb, hlt.trans (Nat.lt_succ_self _), fun hcur => ?_⟩
    obtain rfl : SendBuf.mk k.calls data = b := Option.some.inj hcur
    exact absurd hlt (lt_irrefl _)
  · have h₀ : ∀ w ∈ k.writes pingPong e, 0 ≤ w.off → 0 ≤ w.off + w.sent := fun w hmem hoff =>
      Int.add_nonneg hoff (hw w hmem).1
    rcases ht with ⟨⟨hb, hl, hoff⟩, hd⟩ | ⟨b, sent, hb, ⟨hb', hl', hoff'⟩, hd⟩
    · have hwrites : k.writes pingPong e = [] := hd
      refine ⟨?_, fun w hmem => ?_⟩
      · rw [hs]
        exact h.sendOk.congr ⟨hb, hl, hoff⟩
      · simp only [writesOf, hwrites, List.append_nil] at hmem
        rw [hs, hb, hoff, hc]
        exact h.behind w hmem
    · have hwrites : k.writes pingPong e =
          [⟨some b, k.session.sendOffset, k.session.chunkLen, sent⟩] := hd
      rw [hwrites, List.forall_mem_singleton] at hw h₀
      obtain ⟨-, hpos, -⟩ := h.sendOk b hb
      refine ⟨?_, fun w hmem => ?_⟩
      · rw [hs]
        exact (h.sendOk.sendData (h₀ hpos)).congr ⟨hb', hl', hoff'⟩
      · simp only [writesOf, hwrites, List.mem_append, List.mem_singleton] at hmem
        rw [hs, hb', hoff', hc, Session.sendData_session]
        simp only
        have hsent : 0 ≤ sent := hw.1
        -- the offset only grows during a transfer
        rcases hmem with hmem | rfl
        · obtain ⟨b', hb₁, hlt, hbehind⟩ := h.behind w hmem
          refine ⟨b', hb₁, hlt, fun hcur => ?_⟩
          split_ifs at hcur
          have := hbehind hcur
          omega
        · exact ⟨b, rfl, ho.fresh b (.inl hb), fun _ => Int.le_refl _⟩

/-- A write moves the offset by its result, whatever that is. -/
theorem sendOffset_of_step {ok : DataWrite → Prop} [DecidablePred ok]
    (hst : (lts pingPong ok).step k e k') {w : DataWrite} (hw : w ∈ k.writes pingPong e) :
    k'.session.sendOffset = k.session.sendOffset + w.sent := by
  rcases writes_of_step hst with hn | ⟨b, sent, -, ht, hn⟩
  · rw [hn] at hw
    cases hw
  · rw [hn, List.mem_singleton] at hw
    rw [ht.2.2, Session.sendData_session, hw]

/-- Without failures the transfers are uncorrupted. -/
theorem uncorrupted_of_not_failed {now : ℤ}
    (he : (lts pingPong DataWrite.Valid).Exec (start now) tr k)
    (hf : ∀ w ∈ writesOf pingPong tr, w.sent ≠ -1) :
    Uncorrupted pingPong tr ∧ Written pingPong tr k := by
  induction he with
  | nil =>
    refine ⟨⟨?_, ?_, ?_, .nil⟩, start_written now⟩
    all_goals
      intro _ h
      cases h
  | @snoc tr k k' e hex hst ih =>
    simp only [writesOf, List.mem_append] at hf
    obtain ⟨hun, hwr⟩ := ih fun w hw => hf w (.inl hw)
    have ho := owned_of_exec hex
    have hacc : ∀ w ∈ k.writes pingPong e, w.Accepting := fun w hw =>
      (ok_of_next hst w hw).resolve_left (hf w (.inr hw))
    have hwr' := hwr.step ho hst hacc
    have hnew := hwr.writes hst
    refine ⟨⟨?_, ?_, ?_, ?_⟩, hwr'⟩
    · refine List.forall_mem_cons.2 ⟨fun w hw hn => ?_, hun.kept⟩
      exact absurd hn (hf w (.inr hw))
    · exact List.forall_mem_cons.2 ⟨hwr'.sendOk, hun.inOrder⟩
    · intro w hw
      rcases List.mem_append.1 hw with hw | hw
      · exact hun.inside w hw
      · exact (hnew w hw).1
    · refine List.pairwise_append.2 ⟨hun.once, ?_, fun w hw w' hw' => (hnew w' hw').2 w hw⟩
      exact pairwise_writes hst

/-- **Failed writes**, for one connection. -/
theorem uncorrupted_iff_of_exec {now : ℤ}
    (he : (lts pingPong DataWrite.Valid).Exec (start now) tr k) :
    Uncorrupted pingPong tr ↔ ∀ w ∈ writesOf pingPong tr, w.sent ≠ -1 := by
  refine ⟨fun h w hw hn => ?_, fun hf => (uncorrupted_of_not_failed he hf).1⟩
  obtain ⟨m, hm, hw⟩ := mem_writesOf.1 hw
  have hoff : ∀ m ∈ tr, ∀ w ∈ m.pre.writes pingPong m.label,
      m.post.session.sendOffset = m.pre.session.sendOffset + w.sent :=
    he.forall_moves (C := fun _ => True) (I := fun _ => True) (fun _ _ => trivial) trivial
      (fun _ _ _ _ _ _ => trivial) fun _ _ _ _ hst _ w hw => sendOffset_of_step hst hw
  have hkept := h.kept m hm w hw hn
  rw [hoff m hm w hw, hn] at hkept
  omega

end Conn

namespace Context

variable {ι : Type*} [DecidableEq ι] {pingPong : ℤ} {now : ι → ℤ} {c : Context ι}
  {tr : List (Move ι)}

/-- **Failed writes.**  In every run of a context, with the documented results of `lws_write`, the
transfers of all connections are uncorrupted exactly when no write of data fails. -/
theorem uncorrupted_iff (he : (lts pingPong DataWrite.Valid).Exec (start now) tr c) :
    (∀ i, Conn.Uncorrupted pingPong (view i tr)) ↔
      ∀ i, ∀ w ∈ Conn.writesOf pingPong (view i tr), w.sent ≠ -1 :=
  forall_congr' fun i => Conn.uncorrupted_iff_of_exec (exec_view he i)

/-- A buffer of two bytes sent in two pieces, the first one by the sender itself. -/
theorem uncorrupted_of_two_pieces : ∃ tr c,
    (lts 0 DataWrite.Valid).Exec (start fun _ : Unit => 0) tr c ∧
    Conn.returnsOf (view () tr) = [(⟨0, [1, 2]⟩, 2)] ∧
    ∀ i, Conn.Uncorrupted 0 (view i tr) := by
  obtain ⟨tr, c, he, hr, hw⟩ : ∃ tr c,
      (lts 0 DataWrite.Valid).Exec (start fun _ : Unit => 0) tr c ∧
      Conn.returnsOf (view () tr) = [(⟨0, [1, 2]⟩, 2)] ∧
      ∀ w ∈ Conn.writesOf 0 (view () tr), w.sent ≠ -1 :=
    LTS.exists_exec_of_replay
      [.own () (.callback .serverWriteable {} []), .send () [1, 2] [()],
        .request () { sent := 1 }, .own () (.callback .serverWriteable { sent := 1 } []),
        .leave (), .own () .ret] _ (fun _ _ _ h => h) (by decide)
  exact ⟨tr, c, he, hr, (uncorrupted_iff he).2 fun _ => hw⟩

/-- A failure behind the first byte: it is sent twice. -/
theorem not_uncorrupted_of_failure : ∃ tr c,
    (lts 0 DataWrite.Valid).Exec (start fun _ : Unit => 0) tr c ∧
    Conn.wireOf 0 (view () tr) = [some 1, some 1, some 2] ∧
    Conn.returnsOf (view () tr) = [(⟨0, [1, 2]⟩, 2)] ∧
    ¬ Conn.Uncorrupted 0 (view () tr) := by
  obtain ⟨tr, c, he, hw, hr, m, hm, hk⟩ : ∃ tr c,
      (lts 0 DataWrite.Valid).Exec (start fun _ : Unit => 0) tr c ∧
      Conn.wireOf 0 (view () tr) = [some 1, some 1, some 2] ∧
      Conn.returnsOf (view () tr) = [(⟨0, [1, 2]⟩, 2)] ∧
      ∃ m ∈ view () tr, ¬ Conn.KeepsOffset 0 m :=
    LTS.exists_exec_of_replay
      [.send () [1, 2] [()], .request () {}, .own () (.callback .serverWriteable { sent := 1 } []),
        .own () (.callback .serverWriteable { sent := -1 } []),
        .own () (.callback .serverWriteable { sent := 2 } []), .leave (), .own () .ret]
      _ (fun _ _ _ h => h) (by decide)
  exact ⟨tr, c, he, hw, hr, fun h => hk (h.kept m hm)⟩

end Context

end Usbws
