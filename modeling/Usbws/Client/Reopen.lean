import Usbws.Client.Notes
import Usbws.Ctx.Lifetime

/-!
# Opening a connection again

`usbws_ctx_stop` clears `ctx->cont`, and only `usbws_client_init` sets it, so the thread of a later
`usbws_client_open` leaves its loop at once.  Nothing sets `client->started` back to 0 either, so
the opener takes the notification of an earlier connection for its own.

* `Opening.Spent` : the context is stopped and no client thread is in `lws_service`.
* `Opening.cont_of_stop` : so it is behind the end of a connection.
* `Opening.reopen_fails` : then there is no connection any more, and what `usbws_client_open`
  returns is the outcome of the last one.
-/

namespace Usbws

/-- The callback is to notify a start. -/
def CallbackPc.starts : CallbackPc → Bool
  | setWsi | lock .start | store .start => true
  | _ => false

/-- The thread is in `lws_service`, or in a callback that notifies a start. -/
def ThreadPc.mayStart : ThreadPc → Bool
  | service | serving _ => true
  | closing k => k.starts
  | _ => false

/-- The thread is in `lws_service`. -/
def ThreadPc.inService : ThreadPc → Bool
  | service | serving _ => true
  | _ => false

/-- The callback has stopped the context and is to notify that. -/
def CallbackPc.stopped : CallbackPc → Bool
  | cancel | lock .stop | store .stop => true
  | _ => false

/-- The thread is in such a callback. -/
def ThreadPc.stopped : ThreadPc → Bool
  | serving k | closing k => k.stopped
  | _ => false

/-- A stop does not become a start. -/
theorem CallbackPc.starts_of_next {i : ℕ} {h h' : Handshake} {k : CallbackPc}
    {k' : Option CallbackPc} {o : Option Ctx.Op} (hk : k.next i h = some (h', k', o))
    (hs : k.starts = false) : (∀ x ∈ k', x.starts = false) ∧ ∀ n ∈ k.note, n = .stop := by
  cases k with
  | lock n =>
    obtain ⟨m, -, hr⟩ := Option.map_eq_some_iff.1 hk
    cases hr
    cases n with
    | start => cases hs
    | stop =>
      refine ⟨?_, nofun⟩
      rintro x ⟨⟩
      rfl
  | store n =>
    cases hk
    cases n with
    | start => cases hs
    | stop =>
      refine ⟨?_, fun n hn => (Option.some.inj hn).symm⟩
      rintro x ⟨⟩
      rfl
  | setWsi => cases hs
  | clearWsi | stop | cancel | signal =>
    cases hk
    refine ⟨?_, nofun⟩
    rintro x ⟨⟩
    rfl
  | unlock => cases hk; exact ⟨nofun, nofun⟩

/-- A thread of a stopped context does not enter `lws_service`. -/
theorem ThreadPc.mayStart_of_next {i : ℕ} {c : Ctx} {h h' : Handshake} {ok : Bool}
    {pc pc' : ThreadPc} {o : Option Ctx.Op} (hk : pc.next i c h ok = some (h', pc', o))
    (hc : c.cont = false) (hs : pc.mayStart = false) :
    pc'.mayStart = false ∧ ∀ n ∈ pc.note, n = .stop := by
  cases pc with
  | absent | returned => cases hk
  | service | serving => cases hs
  | test =>
    cases hk
    rw [hc]
    exact ⟨rfl, nofun⟩
  | closing k =>
    obtain ⟨r, hr, he⟩ := Option.map_eq_some_iff.1 hk
    cases he
    obtain ⟨hk', hn⟩ := CallbackPc.starts_of_next hr hs
    refine ⟨?_, hn⟩
    cases hx : r.2.1 with
    | none => rfl
    | some x => exact hk' x hx
  | destroyTest =>
    cases hk
    refine ⟨?_, nofun⟩
    split_ifs <;> rfl
  | discontinue | destroy | destroying | clear => cases hk; exact ⟨rfl, nofun⟩

theorem ThreadPc.mayStart_of_deliver {n : Note} {pc pc' : ThreadPc} (h : pc.deliver n = some pc')
    (hs : pc.mayStart = false) : pc'.mayStart = false := by
  obtain ⟨rfl, rfl⟩ | ⟨rfl, rfl, rfl⟩ := deliver_cases h
  · cases hs
  · rfl

theorem ThreadPc.inService_of_next {i : ℕ} {c : Ctx} {h h' : Handshake} {ok : Bool}
    {pc pc' : ThreadPc} {o : Option Ctx.Op} (hk : pc.next i c h ok = some (h', pc', o))
    (hs : pc.mayStart = true → pc.inService = true) (hm : pc'.mayStart = true) :
    pc'.inService = true := by
  cases pc with
  | absent | returned => cases hk
  | test =>
    cases hk
    by_cases hc : c.cont = true
    · rw [if_pos hc]
      rfl
    · rw [if_neg hc] at hm
      cases hm
  | service =>
    cases hk
    split_ifs at hm <;> cases hm
  | serving k =>
    obtain ⟨r, hr, he⟩ := Option.map_eq_some_iff.1 hk
    cases he
    cases r.2.1 <;> rfl
  | closing k =>
    obtain ⟨r, hr, he⟩ := Option.map_eq_some_iff.1 hk
    cases he
    have hk' : k.starts = false := by
      by_contra hn
      have hin := hs (by rwa [Bool.not_eq_false] at hn)
      cases hin
    cases hx : r.2.1 with
    | none =>
      rw [hx] at hm
      cases hm
    | some x =>
      rw [hx] at hm
      have hno := (CallbackPc.starts_of_next hr hk').1 x hx
      exact absurd hm (by simpa [mayStart] using hno)
  | destroyTest =>
    cases hk
    split_ifs at hm <;> cases hm
  | discontinue | destroy | destroying | clear => cases hk; cases hm

theorem ThreadPc.inService_of_deliver {n : Note} {pc pc' : ThreadPc}
    (h : pc.deliver n = some pc') (hm : pc'.mayStart = true) : pc'.inService = true := by
  obtain ⟨-, rfl⟩ | ⟨-, rfl, rfl⟩ := deliver_cases h
  · rfl
  · cases hm

/-- A stop is notified behind the stop of the context. -/
theorem CallbackPc.stopped_of_next {i : ℕ} {h h' : Handshake} {k : CallbackPc}
    {k' : Option CallbackPc} {o : Option Ctx.Op} (hk : k.next i h = some (h', k', o)) :
    (∀ x ∈ k', x.stopped = true → k.stopped = true ∨ o = some .stop) ∧
      (k.note = some .stop → k.stopped = true) := by
  cases k with
  | lock n =>
    obtain ⟨m, -, hr⟩ := Option.map_eq_some_iff.1 hk
    cases hr
    refine ⟨?_, nofun⟩
    rintro x ⟨⟩ hx
    cases n with
    | start => cases hx
    | stop => exact .inl rfl
  | store n =>
    cases hk
    refine ⟨?_, ?_⟩
    · rintro x ⟨⟩ hx
      cases hx
    · rintro ⟨⟩
      rfl
  | stop =>
    cases hk
    exact ⟨fun _ _ _ => .inr rfl, nofun⟩
  | cancel =>
    cases hk
    exact ⟨fun _ _ _ => .inl rfl, nofun⟩
  | setWsi | clearWsi | signal =>
    cases hk
    refine ⟨?_, nofun⟩
    rintro x ⟨⟩ hx
    cases hx
  | unlock => cases hk; exact ⟨nofun, nofun⟩

theorem ThreadPc.stopped_of_next {i : ℕ} {c c' : Ctx} {h h' : Handshake} {ok : Bool}
    {pc pc' : ThreadPc} {o : Option Ctx.Op} (hk : pc.next i c h ok = some (h', pc', o))
    (hc : c.perform o = some c') :
    (pc'.stopped = true → pc.stopped = true ∨ c'.cont = false) ∧
      (pc.note = some .stop → pc.stopped = true) := by
  cases pc with
  | absent | returned => cases hk
  | serving k | closing k =>
    obtain ⟨r, hr, he⟩ := Option.map_eq_some_iff.1 hk
    cases he
    obtain ⟨hstop, hnote⟩ := CallbackPc.stopped_of_next hr
    refine ⟨fun hs => ?_, hnote⟩
    cases hx : r.2.1 with
    | none =>
      rw [hx] at hs
      cases hs
    | some x =>
      rw [hx] at hs
      refine (hstop x hx hs).imp_right fun ho => ?_
      rw [ho] at hc
      cases hc
      rfl
  | test | service | destroyTest =>
    cases hk
    refine ⟨fun hs => ?_, nofun⟩
    split_ifs at hs <;> cases hs
  | discontinue | destroy | destroying | clear => cases hk; exact ⟨nofun, nofun⟩

theorem ThreadPc.stopped_of_deliver {n : Note} {pc pc' : ThreadPc} (h : pc.deliver n = some pc') :
    pc'.stopped = false := by
  obtain ⟨-, rfl⟩ | ⟨-, rfl, rfl⟩ := deliver_cases h
  · cases n <;> rfl
  · rfl

/-- The opener leaves its wait loop with a notification, and takes a negative one for a failure. -/
theorem OpenerPc.told_of_next {signed ok : Bool} {c : Ctx} {h h' : Handshake} {pc pc' : OpenerPc}
    {o : Option Ctx.Op} (hk : pc.next signed c h ok = some (h', pc', o))
    (hz : pc = .waitUnlock ∨ pc = .verdict → h.started ≠ 0) :
    (pc' = .waitUnlock ∨ pc' = .verdict → h.started ≠ 0) ∧
      (pc' = .done true → h.started ≠ 0 ∧ ¬ intOfChar signed h.started < 0) := by
  cases pc with
  | idle | done | spawn => cases hk
  | waitLock =>
    obtain ⟨m, -, hr⟩ := Option.map_eq_some_iff.1 hk
    cases hr
    exact ⟨nofun, nofun⟩
  | waitLoop =>
    obtain ⟨m, hm, hr⟩ := Option.map_eq_some_iff.1 hk
    cases hr
    by_cases hin : m.stage = .inside
    · have hne := Monitor.not_cond_of_inside hm hin
      rw [beq_eq_false_iff_ne] at hne
      rw [if_pos hin]
      exact ⟨fun _ => hne, nofun⟩
    · rw [if_neg hin]
      exact ⟨nofun, nofun⟩
  | waitUnlock =>
    obtain ⟨m, -, hr⟩ := Option.map_eq_some_iff.1 hk
    cases hr
    exact ⟨fun _ => hz (.inl rfl), nofun⟩
  | verdict =>
    cases hk
    by_cases hneg : intOfChar signed h.started < 0
    · rw [if_pos hneg]
      exact ⟨nofun, nofun⟩
    · rw [if_neg hneg]
      exact ⟨nofun, fun _ => ⟨hz (.inr rfl), hneg⟩⟩
  | create | setProxy | connect | calloc | destroyTest =>
    cases hk
    split_ifs <;> exact ⟨nofun, nofun⟩
  | register | install | freeSock | destroy | clear =>
    cases hk
    exact ⟨nofun, nofun⟩

namespace Opening

/-- The context is stopped, and no client thread can notify a start any more. -/
structure Spent (p : Opening) : Prop where
  cont : p.ctx.cont = false
  quiet : ∀ i, (p.thread i).mayStart = false

variable {signed : Bool} {p p' : Opening} {l : Label} {tr tr' : List Move} {m : Move}

theorem Spent.step (h : p.Spent) (hst : (lts signed).step p l p') :
    p'.Spent ∧ ∀ n ∈ noteOf ⟨p, l, p'⟩, n = .stop := by
  have hcont := Ctx.cont_of_perform (perform_op hst) h.cont
  cases step_of_next hst with
  | call | spawnFails => exact ⟨⟨hcont, h.quiet⟩, nofun⟩
  | opener hr hc => exact ⟨⟨hcont, h.quiet⟩, nofun⟩
  | spawn hpc =>
    refine ⟨⟨hcont, fun i => ?_⟩, nofun⟩
    simp only [Function.update_apply]
    split_ifs
    · rfl
    · exact h.quiet i
  | @thread i ok sh pc o c hr hc =>
    obtain ⟨hpc, hn⟩ := ThreadPc.mayStart_of_next hr h.cont (h.quiet i)
    refine ⟨⟨hcont, fun j => ?_⟩, hn⟩
    simp only [Function.update_apply]
    split_ifs
    · exact hpc
    · exact h.quiet j
  | @callback i n pc hd =>
    refine ⟨⟨hcont, fun j => ?_⟩, nofun⟩
    simp only [Function.update_apply]
    split_ifs
    · exact ThreadPc.mayStart_of_deliver hd (h.quiet i)
    · exact h.quiet j
  | handler hh => exact ⟨⟨hcont, h.quiet⟩, nofun⟩

/-- What later openers know, since `client->started` had the value `v` and there had been `n` opens:
only that value and stops. -/
structure Stale (signed : Bool) (v : BitVec 8) (n : ℕ) (p : Opening) : Prop where
  started : p.shake.started = v ∨ p.shake.started = charOfInt Note.stop.val
  opens : n ≤ p.opens
  told : n < p.opens → p.opener = .waitUnlock ∨ p.opener = .verdict → p.shake.started ≠ 0
  verdict : n < p.opens → p.opener = .done true → signed = true →
    v ≠ 0 ∧ v ≠ charOfInt Note.stop.val

/-- With a signed `char`, what is not negative is no stop. -/
theorem intOfChar_stop : intOfChar true (charOfInt Note.stop.val) < 0 := by decide

theorem Stale.step {v : BitVec 8} {n : ℕ} (h : Stale signed v n p) (hs : p.Spent)
    (hst : (lts signed).step p l p') : Stale signed v n p' := by
  have hnote := (hs.step hst).2
  have hstarted := started_of_step hst
  cases step_of_next hst with
  | call hfree =>
    exact ⟨h.started, Nat.le_succ_of_le h.opens, nofun, nofun⟩
  | @opener ok sh pc o c hr hc =>
    have hsame : sh.started = p.shake.started := OpenerPc.started_of_next hr
    refine ⟨hsame ▸ h.started, h.opens, fun hn => ?_, fun hn hdone => ?_⟩
    · simp only [hsame]
      exact (OpenerPc.told_of_next hr (h.told hn)).1
    · obtain ⟨hne, hneg⟩ := (OpenerPc.told_of_next hr (h.told hn)).2 hdone
      rintro rfl
      have hstop : p.shake.started ≠ charOfInt Note.stop.val := by
        intro hv
        rw [hv] at hneg
        exact hneg intOfChar_stop
      have hv := h.started.resolve_right hstop
      exact ⟨hv ▸ hne, hv ▸ hstop⟩
  | spawn => exact ⟨h.started, h.opens, nofun, nofun⟩
  | spawnFails => exact ⟨h.started, h.opens, nofun, nofun⟩
  | @thread i ok sh pc o c hr hc =>
    cases hn : (p.thread i).note with
    | none =>
      have hsame : sh.started = p.shake.started := by simpa [noteOf, hn, noted] using hstarted
      exact ⟨hsame ▸ h.started, h.opens, fun ho => hsame ▸ h.told ho, h.verdict⟩
    | some note =>
      have hstop : note = .stop := hnote note (by simp [noteOf, hn])
      have hsame : sh.started = charOfInt Note.stop.val := by
        simpa [noteOf, hn, noted, hstop] using hstarted
      exact ⟨.inr hsame, h.opens, fun _ _ => hsame ▸ charOfInt_val_ne_zero _, h.verdict⟩
  | callback => exact ⟨h.started, h.opens, h.told, h.verdict⟩
  | handler => exact ⟨h.started, h.opens, h.told, h.verdict⟩

theorem Spent.exec (h : p.Spent) (he : (lts signed).Exec p tr' p') :
    p'.Spent ∧ Stale signed p.shake.started p.opens p' := by
  have h₀ : Stale signed p.shake.started p.opens p :=
    ⟨.inl rfl, Nat.le_refl _, fun hn => absurd hn (Nat.lt_irrefl _),
      fun hn => absurd hn (Nat.lt_irrefl _)⟩
  exact he.invariant (I := fun q => q.Spent ∧ Stale signed p.shake.started p.opens q) ⟨h, h₀⟩
    fun s l s' hs hst => ⟨(hs.1.step hst).1, hs.2.step hs.1 hst⟩

/-! ### What a stop leaves behind -/

theorem mayStart_of_exec (he : (lts signed).Exec start tr p) (i : ℕ)
    (hm : (p.thread i).mayStart = true) : (p.thread i).inService = true := by
  induction he with
  | nil => cases hm
  | @snoc tr p p' l hex hst ih =>
    cases step_of_next hst with
    | call | opener | spawnFails | handler => exact ih hm
    | spawn hpc =>
      simp only [Function.update_apply] at hm ⊢
      split_ifs at hm ⊢
      · cases hm
      · exact ih hm
    | thread hr hc =>
      simp only [Function.update_apply] at hm ⊢
      split_ifs at hm ⊢ with hi
      · subst hi
        exact ThreadPc.inService_of_next hr ih hm
      · exact ih hm
    | callback hd =>
      simp only [Function.update_apply] at hm ⊢
      split_ifs at hm ⊢ with hi
      · exact ThreadPc.inService_of_deliver hd hm
      · exact ih hm

/-- Behind a stop the context is stopped. -/
theorem cont_of_stop (he : (lts signed).Exec start tr p) (hn : lastNote tr = some .stop) :
    p.ctx.cont = false := by
  suffices h : (∀ i, (p.thread i).stopped = true → p.ctx.cont = false) ∧
      (lastNote tr = some .stop → p.ctx.cont = false) from h.2 hn
  clear hn
  induction he with
  | nil => exact ⟨nofun, nofun⟩
  | @snoc tr p p' l hex hst ih =>
    obtain ⟨hthread, hnote⟩ := ih
    have hkeep := Ctx.cont_of_perform (perform_op hst)
    rw [lastNote_cons]
    cases step_of_next hst with
    | call | opener | spawnFails | handler =>
      exact ⟨fun i hi => hkeep (hthread i hi), fun hn => hkeep (hnote hn)⟩
    | spawn hpc =>
      refine ⟨fun i hi => ?_, fun hn => hkeep (hnote hn)⟩
      simp only [Function.update_apply] at hi
      split_ifs at hi
      · cases hi
      · exact hthread i hi
    | @thread i ok sh pc o c hr hc =>
      obtain ⟨hpc, hlast⟩ := ThreadPc.stopped_of_next hr hc
      refine ⟨fun j hj => ?_, fun hn => ?_⟩
      · simp only [Function.update_apply] at hj
        split_ifs at hj
        · exact (hpc hj).elim (fun hs => hkeep (hthread i hs)) id
        · exact hkeep (hthread j hj)
      · cases hnote' : (p.thread i).note with
        | none =>
          simp only [noteOf, hnote', Option.none_or] at hn
          exact hkeep (hnote hn)
        | some n =>
          simp only [noteOf, hnote', Option.some_or, Option.some.injEq] at hn
          subst hn
          exact hkeep (hthread i (hlast hnote'))
    | @callback i n pc hd =>
      refine ⟨fun j hj => ?_, fun hn => hkeep (hnote hn)⟩
      simp only [Function.update_apply] at hj
      split_ifs at hj
      · rw [ThreadPc.stopped_of_deliver hd] at hj
        cases hj
      · exact hthread j hj

/-- **A client opens a connection once.**  When its context has been stopped and no client thread is
in `lws_service`, none will come there again; and if `usbws_client_open` returns a socket for a
later call, then that is owing to a `char` without sign or to the start of an earlier connection.
-/
theorem reopen_fails (he : (lts signed).Exec start tr p) (hc : p.ctx.cont = false)
    (hs : ∀ i < p.spawned, (p.thread i).inService = false) (he' : (lts signed).Exec p tr' p') :
    (∀ i, (p'.thread i).inService = false) ∧
      (p.opens < p'.opens → p'.opener = .done true → signed = true →
        lastNote tr = some .start) := by
  have hspent : p.Spent := by
    refine ⟨hc, fun i => ?_⟩
    by_contra hm
    rw [Bool.not_eq_false] at hm
    have hin := mayStart_of_exec he i hm
    have hlt : i < p.spawned := by
      by_contra hn
      rw [absent_of_exec he i (Nat.le_of_not_lt hn)] at hin
      cases hin
    rw [hs i hlt] at hin
    cases hin
  obtain ⟨h, hstale⟩ := hspent.exec he'
  refine ⟨fun i => ?_, fun hn hdone hsigned => ?_⟩
  · have hq := h.quiet i
    cases hpc : p'.thread i with
    | service | serving => rw [hpc] at hq; cases hq
    | _ => rfl
  · obtain ⟨hne, hstop⟩ := hstale.verdict hn hdone hsigned
    rw [started_of_exec he] at hne hstop
    cases hl : lastNote tr with
    | none => exact absurd (by rw [hl]; rfl) hne
    | some note =>
      cases note with
      | start => rfl
      | stop => exact absurd (by rw [hl]; rfl) hstop

/-- Behind a closed connection another open fails, and connects to nothing. -/
theorem reopen_fails_of_closed : ∃ tr p tr' p', (lts true).Exec start tr p ∧
    lastNote tr = some .stop ∧ (lts true).Exec p tr' p' ∧ p.opens < p'.opens ∧
    (∀ i, (p'.thread i).inService = false) ∧ p'.opener ≠ .done true := by
  obtain ⟨tr, p, he, hn, hs, hr⟩ : ∃ tr p, (lts true).Exec start tr p ∧
      lastNote tr = some .stop ∧ (∀ i < p.spawned, (p.thread i).inService = false) ∧
      (LTS.replay (next true) [] p (.call :: .replicate 6 (.opener true) ++ [.spawn true] ++
        .replicate 6 (.thread 1 true) ++ .replicate 5 (.opener true))).any (fun r =>
          decide (p.opens < r.2.opens)) = true :=
    LTS.exists_exec_of_replay
      (.call :: .replicate 6 (.opener true) ++ [.spawn true, .thread 0 true, .callback 0 .start] ++
        .replicate 5 (.thread 0 true) ++ .replicate 4 (.opener true) ++ [.callback 0 .stop] ++
        .replicate 14 (.thread 0 true)) _
      (fun _ _ _ h => h) (by decide)
  obtain ⟨tr', p', he', ho⟩ : ∃ tr' p', (lts true).Exec p tr' p' ∧ p.opens < p'.opens :=
    LTS.exists_exec_of_replay _ (fun _ (q : Opening) => p.opens < q.opens) (fun _ _ _ h => h) hr
  obtain ⟨hq, hv⟩ := reopen_fails he (cont_of_stop he hn) hs he'
  refine ⟨tr, p, tr', p', he, hn, he', ho, hq, fun hd => ?_⟩
  have hstart := hv ho hd rfl
  rw [hn] at hstart
  cases hstart

end Opening

end Usbws
