import Usbws.Client.Open
import Usbws.Ctx.Lifetime

/-!
# Who releases the context

`usbws_client_open` hands its context over to the thread that it creates: the thread destroys the
context at its end, and the opener does so only if there is no thread.  Both go by the pointer in
`struct usbws_ctx`, which the next open overwrites, so the handover works as long as a connection is
opened only behind the end of the last thread.

* `Opening.phase` : what has become of the context, by who manages it.
* `Opening.Alone` : each context is created behind the end of all client threads.
* `Opening.contexts_released` : then each context is destroyed once, and used only before that, but
  for the stop of a session in `lws_context_destroy` itself.
* `Opening.context_lost_iff` : a context whose thread is overtaken by another open is never
  destroyed.
* `Opening.sockets_eq` : a socket is lost exactly if the thread for it cannot be created.
-/

namespace Usbws

/-- The phase while the opener manages the context, which is from `usbws_ctx_create` to
`pthread_create`. -/
def OpenerPc.phase : OpenerPc → Option Phase
  | setProxy | connect | calloc | register | install | spawn | destroyTest | destroy => some .held
  | clear => some .released
  | idle | create | waitLock | waitLoop | waitUnlock | verdict | freeSock | done _ => none

/-- The phase while a client thread manages the context. -/
def ThreadPc.phase : ThreadPc → Phase
  | absent | returned => .none
  | test | service | serving _ | discontinue | destroyTest | destroy => .held
  | destroying | closing _ | clear => .released

/-! ### The program points -/

/-- What the next statement of the opener means for the context; behind the last one of those that
manage it, the threads do. -/
theorem OpenerPc.fits_of_next {signed ok : Bool} {c c' : Ctx} {h h' : Handshake} {pc pc' : OpenerPc}
    {o : Option Ctx.Op} {ph : Phase} (hk : pc.next signed c h ok = some (h', pc', o))
    (hc : c.perform o = some c') (hph : pc.phase = some ph) (hf : c.Fits ph) :
    c'.Fits (pc'.phase.getD .none) := by
  cases pc with
  | setProxy | connect | calloc =>
    cases hk
    cases hph
    cases hc
    cases ok <;> exact hf
  | register | install =>
    cases hk
    cases hph
    exact hf.perform hc (by rintro x ⟨⟩; rfl)
  | destroyTest =>
    cases hk
    cases hph
    cases hc
    rw [if_pos hf.isSome]
    exact hf
  | destroy =>
    cases hk
    cases hph
    exact hf.destroy hc
  | clear =>
    cases hk
    cases hph
    exact hf.clear hc
  | spawn => cases hk
  | idle | create | waitLock | waitLoop | waitUnlock | verdict | freeSock | done => cases hph

theorem OpenerPc.phase_of_isFree {pc : OpenerPc} (h : pc.isFree = true) : pc.phase = none := by
  cases pc with
  | idle | done => rfl
  | _ => cases h

/-- While the opener does not manage a context, its statements leave it alone, apart from
`usbws_ctx_create`. -/
theorem OpenerPc.phase_of_next {signed ok : Bool} {c : Ctx} {h h' : Handshake} {pc pc' : OpenerPc}
    {o : Option Ctx.Op} (hk : pc.next signed c h ok = some (h', pc', o)) (hph : pc.phase = none)
    (hpc : pc ≠ .create) : pc'.phase = none ∧ o = none := by
  cases pc with
  | create => exact absurd rfl hpc
  | idle | done => cases hk
  | waitLock | waitLoop | waitUnlock =>
    obtain ⟨m, -, hr⟩ := Option.map_eq_some_iff.1 hk
    cases hr
    refine ⟨?_, rfl⟩
    first | rfl | (split_ifs <;> rfl)
  | verdict =>
    cases hk
    refine ⟨?_, rfl⟩
    split_ifs <;> rfl
  | freeSock => cases hk; exact ⟨rfl, rfl⟩
  | setProxy | connect | calloc | register | install | spawn | destroyTest | destroy
  | clear => cases hph

/-- A session callback does not touch the pointer to the context. -/
theorem CallbackPc.onContext_of_next {i : ℕ} {h h' : Handshake} {k : CallbackPc}
    {k' : Option CallbackPc} {o : Option Ctx.Op} (hk : k.next i h = some (h', k', o)) :
    ∀ x ∈ o, x.onContext = false := by
  cases k with
  | lock n =>
    obtain ⟨m, -, hr⟩ := Option.map_eq_some_iff.1 hk
    cases hr
    exact nofun
  | stop =>
    cases hk
    rintro x ⟨⟩
    rfl
  | setWsi | clearWsi | cancel | store | signal | unlock => cases hk; exact nofun

/-- What the next statement of a client thread means for the context. -/
theorem ThreadPc.fits_of_next {i : ℕ} {ok : Bool} {c c' : Ctx} {h h' : Handshake}
    {pc pc' : ThreadPc} {o : Option Ctx.Op} (hk : pc.next i c h ok = some (h', pc', o))
    (hc : c.perform o = some c') (hf : c.Fits pc.phase) : c'.Fits pc'.phase := by
  cases pc with
  | absent | returned => cases hk
  | test | service =>
    cases hk
    cases hc
    split_ifs <;> exact hf
  | serving k | closing k =>
    obtain ⟨r, hr, he⟩ := Option.map_eq_some_iff.1 hk
    cases he
    have hfits := hf.perform hc (CallbackPc.onContext_of_next hr)
    cases r.2.1 <;> exact hfits
  | discontinue | destroying =>
    cases hk
    cases hc
    exact hf
  | destroyTest =>
    cases hk
    cases hc
    rw [if_pos hf.isSome]
    exact hf
  | destroy => cases hk; exact hf.destroy hc
  | clear => cases hk; exact hf.clear hc

theorem ThreadPc.phase_of_deliver {n : Note} {pc pc' : ThreadPc} (h : pc.deliver n = some pc') :
    pc'.phase = pc.phase ∧ pc.phase ≠ .none := by
  obtain ⟨rfl, rfl⟩ | ⟨rfl, rfl, rfl⟩ := deliver_cases h
  all_goals exact ⟨rfl, nofun⟩

/-- Libwebsockets works with the context, or the thread with a connection of it. -/
def ThreadPc.usesContext : ThreadPc → Bool
  | service | serving _ | discontinue => true
  | _ => false

namespace Opening

/-- The phase of the context: the opener manages it until it has created the thread. -/
def phase (p : Opening) : Phase := p.opener.phase.getD (p.thread (p.spawned - 1)).phase

/-- No client thread is running. -/
def Over (p : Opening) : Prop := ∀ i < p.spawned, (p.thread i).phase = .none

/-- The move is a call of `usbws_ctx_create`. -/
def creates (m : Move) : Bool :=
  match m.label with
  | .opener _ => decide (m.pre.opener = .create)
  | _ => false

/-- Each call of `usbws_ctx_create` finds no client thread running. -/
def Alone (tr : List Move) : Prop := ∀ m ∈ tr, creates m = true → m.pre.Over

instance (p : Opening) : Decidable p.Over :=
  inferInstanceAs (Decidable (∀ i < p.spawned, (p.thread i).phase = .none))

instance (tr : List Move) : Decidable (Alone tr) :=
  inferInstanceAs (Decidable (∀ m ∈ tr, creates m = true → m.pre.Over))

variable {signed : Bool} {p p' : Opening} {l : Label} {tr : List Move} {m : Move}

/-- What the opener and the client threads agree on. -/
structure Managed (p : Opening) : Prop where
  fits : p.ctx.Fits p.phase
  /-- Only the latest thread may be running, and only behind its creation. -/
  quiet : ∀ i, i + 1 ≠ p.spawned ∨ p.opener.phase ≠ none → (p.thread i).phase = .none

theorem start_managed : start.Managed := by
  have hb : Ctx.init.ledger.Balanced := Ledger.accounts_nil.1 Ledger.accounts_empty
  exact ⟨.none rfl hb, fun _ _ => rfl⟩

/-- The threads to come do not run either. -/
theorem Managed.phase_of_over (h : p.Managed) (hover : p.Over) (i : ℕ) :
    (p.thread i).phase = .none := by
  by_cases hi : i < p.spawned
  · exact hover i hi
  · exact h.quiet i (.inl (by omega))

/-- A thread that goes on is the latest one, and manages the context. -/
theorem Managed.of_running (h : p.Managed) {i : ℕ} (hi : (p.thread i).phase ≠ .none) :
    i + 1 = p.spawned ∧ p.opener.phase = none ∧ p.phase = (p.thread i).phase := by
  have hs : i + 1 = p.spawned := by
    by_contra hn
    exact hi (h.quiet i (.inl hn))
  have ho : p.opener.phase = none := by
    by_contra hn
    exact hi (h.quiet i (.inr hn))
  have hlast : p.spawned - 1 = i := by omega
  exact ⟨hs, ho, by rw [phase, ho, hlast]; rfl⟩

/-- A thread that goes on takes the context with it. -/
theorem Managed.update (h : p.Managed) {i : ℕ} (hi : (p.thread i).phase ≠ .none) {pc : ThreadPc}
    {c : Ctx} {sh : Handshake} (hf : c.Fits pc.phase) :
    { p with ctx := c, shake := sh, thread := Function.update p.thread i pc }.Managed := by
  obtain ⟨hs, ho, -⟩ := h.of_running hi
  have hlast : p.spawned - 1 = i := by omega
  refine ⟨?_, fun j hj => ?_⟩
  · simp only [phase, ho, Option.getD_none, hlast, Function.update_self]
    exact hf
  · have hne : j ≠ i := by
      rintro rfl
      exact hj.elim (fun hj => hj hs) fun hj => hj ho
    simp only [Function.update_of_ne hne]
    exact h.quiet j (.inl fun hj => hne (by omega))

/-- While the opener manages the context, no thread is running. -/
theorem Managed.phase_of_opener (h : p.Managed) {ph : Phase} (hph : p.opener.phase = some ph)
    (i : ℕ) : (p.thread i).phase = .none :=
  h.quiet i (.inr (by rw [hph]; nofun))

/-- The opener creates a context when there is none. -/
theorem Managed.create (h : p.Managed) (ho : p.opener = .create) (hover : p.Over) {ok : Bool}
    {c : Ctx} {sh : Handshake} (hc : p.ctx.apply (.create ok) = some c) :
    { p with ctx := c, shake := sh, opener := if ok then .setProxy else .done false }.Managed := by
  have hthread := h.phase_of_over hover
  have hph : p.phase = .none := by
    rw [phase, ho]
    exact hthread _
  have hfits := h.fits
  rw [hph] at hfits
  refine ⟨?_, fun i _ => hthread i⟩
  have hcreate := hfits.create hc
  cases ok with
  | true => exact hcreate
  | false =>
    rw [phase]
    exact (hthread _).symm ▸ hcreate

theorem Managed.step (h : p.Managed) (hst : (lts signed).step p l p')
    (hC : creates ⟨p, l, p'⟩ = true → p.Over) : p'.Managed := by
  cases step_of_next hst with
  | call hfree =>
    have hno := OpenerPc.phase_of_isFree hfree
    have hfits := h.fits
    rw [phase, hno] at hfits
    exact ⟨hfits, fun i hi => h.quiet i (hi.imp_right fun hn => absurd rfl hn)⟩
  | @opener ok sh pc o c hr hc =>
    by_cases hpc : p.opener = .create
    · rw [hpc] at hr
      cases hr
      exact h.create hpc (hC (by simp [creates, hpc])) hc
    · cases hph : p.opener.phase with
      | some ph =>
        have hfits : p.ctx.Fits ph := by simpa [phase, hph] using h.fits
        have hnext := OpenerPc.fits_of_next hr hc hph hfits
        refine ⟨?_, fun i _ => h.phase_of_opener hph i⟩
        rw [phase]
        exact (h.phase_of_opener hph _).symm ▸ hnext
      | none =>
        obtain ⟨hph', rfl⟩ := OpenerPc.phase_of_next hr hph hpc
        cases hc
        refine ⟨?_, fun i hi => h.quiet i (hi.imp_right fun hn => absurd hph' hn)⟩
        have hfits := h.fits
        simp only [phase, hph] at hfits
        simpa only [phase, hph'] using hfits
  | spawn hpc =>
    have hover := h.phase_of_opener (show p.opener.phase = some .held by rw [hpc]; rfl)
    have hfits : p.ctx.Fits .held := by simpa [phase, hpc, OpenerPc.phase] using h.fits
    refine ⟨?_, fun i hi => ?_⟩
    · simpa [phase, OpenerPc.phase, ThreadPc.phase] using hfits
    · have hne : i ≠ p.spawned := by
        rintro rfl
        exact hi.elim (fun hi => hi rfl) fun hi => hi rfl
      simp only [Function.update_of_ne hne]
      exact hover i
  | spawnFails hpc =>
    have hover := h.phase_of_opener (show p.opener.phase = some .held by rw [hpc]; rfl)
    have hfits : p.ctx.Fits .held := by simpa [phase, hpc, OpenerPc.phase] using h.fits
    exact ⟨hfits, fun i _ => hover i⟩
  | @thread i ok sh pc o c hr hc =>
    have hi : (p.thread i).phase ≠ .none := by
      intro hn
      cases hpc : p.thread i with
      | absent | returned => rw [hpc] at hr; cases hr
      | _ => rw [hpc] at hn; cases hn
    obtain ⟨-, -, hph⟩ := h.of_running hi
    exact h.update hi (ThreadPc.fits_of_next hr hc (hph ▸ h.fits))
  | @callback i n pc hd =>
    obtain ⟨hpc, hi⟩ := ThreadPc.phase_of_deliver hd
    obtain ⟨-, -, hph⟩ := h.of_running hi
    exact h.update hi (by rw [hpc, ← hph]; exact h.fits)
  | handler hh => exact ⟨h.fits.apply (o := .handler _) hh rfl, h.quiet⟩

theorem managed_of_exec (he : (lts signed).Exec start tr p) (ha : Alone tr) : p.Managed :=
  he.invariant_of_moves (C := fun m : Move => creates m = true → m.pre.Over) ha start_managed
    fun _ _ _ h hst hC => h.step hst hC

/-- Libwebsockets is called with the context, or with a connection of it, in front of
`lws_context_destroy`. -/
def InUse (p : Opening) : Prop :=
  p.opener = .setProxy ∨ p.opener = .connect ∨ ∃ i, (p.thread i).usesContext = true

/-- **While the context is held**, and only then, the pointer to it is usable. -/
theorem Managed.usable_iff (h : p.Managed) : p.ctx.Usable ↔ p.phase = .held := by
  have hfits := h.fits
  generalize p.phase = ph at hfits
  cases hfits with
  | none hc => simp [Ctx.Usable, hc]
  | @held n hc hb => exact iff_of_true (Ctx.Fits.held hc hb).usable rfl
  | @released n hc hb =>
    refine iff_of_false ?_ fun h => by cases h
    rintro ⟨m, -, hlt, hd⟩
    exact hd (hb.mem_iff.2 (List.mem_range.2 (by rwa [Ctx.fresh_ledger])))

theorem Managed.usable (h : p.Managed) (hu : p.InUse) : p.ctx.Usable := by
  rw [h.usable_iff]
  rcases hu with ho | ho | ⟨i, hi⟩
  · rw [phase, ho]
    rfl
  · rw [phase, ho]
    rfl
  · have hi' : (p.thread i).phase = .held := by
      cases hpc : p.thread i with
      | service | serving | discontinue => rfl
      | _ => rw [hpc] at hi; cases hi
    rw [(h.of_running (by rw [hi']; nofun)).2.2, hi']

/-- In `lws_context_destroy` the pointer refers to the context that is destroyed there. -/
theorem Managed.destroying (h : p.Managed) (hok : p.ctx.Ok) {i : ℕ} {k : CallbackPc}
    (hi : p.thread i = .closing k) : ∃ n, p.ctx.context = some n ∧ n ∈ p.ctx.destroyed := by
  have hfits := h.fits
  rw [(h.of_running (i := i) (by rw [hi]; nofun)).2.2, hi] at hfits
  cases hfits with
  | @released n hc hb =>
    refine ⟨n, hc, hb.mem_iff.2 (List.mem_range.2 ?_)⟩
    rw [Ctx.fresh_ledger]
    exact hok.1 n hc

/-- **Each context is destroyed once**, in every run in which no context is created before the
client threads of the earlier ones have come to their end.  It is used only before that, with two
exceptions: the stop of a session in `lws_context_destroy` cancels the service of the context that
is being destroyed, and the handler of SIGINT finds what the pointer refers to at that time. -/
theorem contexts_released (he : (lts signed).Exec start tr p) (ha : Alone tr) :
    p.ctx.destroyed.Nodup ∧ (p.InUse → p.ctx.Usable) ∧
      (∀ i, p.thread i = .closing .cancel →
        ∃ n, p.ctx.context = some n ∧ n ∈ p.ctx.destroyed) ∧
      (p.ctx.Usable ↔ p.phase = .held) ∧
      (p.opener.isFree = true → p.Over → p.ctx.ledger.Balanced) := by
  have h := managed_of_exec he ha
  refine ⟨h.fits.nodup, h.usable, fun i hi => h.destroying (Ctx.ok_of_exec (exec_view he)) hi,
    h.usable_iff, fun hfree hover => ?_⟩
  have hno := OpenerPc.phase_of_isFree hfree
  have hfits := h.fits
  rw [phase, hno, Option.getD_none, h.phase_of_over hover] at hfits
  cases hfits with
  | none _ hb => exact hb

/-- A connection is opened and closed, and behind the end of its thread another open fails. -/
theorem contexts_released_of_two_opens : ∃ tr p, (lts true).Exec start tr p ∧ p.opens = 2 ∧
    p.ctx.created = 2 ∧ p.ctx.destroyed.Nodup ∧ p.ctx.ledger.Balanced := by
  obtain ⟨tr, p, he, ha, ho, hc, hfree, hover⟩ : ∃ tr p, (lts true).Exec start tr p ∧ Alone tr ∧
      p.opens = 2 ∧ p.ctx.created = 2 ∧ p.opener.isFree = true ∧ p.Over :=
    LTS.exists_exec_of_replay
      ([.call, .opener true, .opener true, .opener true, .opener true, .opener true, .opener true,
        .spawn true, .thread 0 true, .callback 0 .start] ++ .replicate 5 (.thread 0 true) ++
        .replicate 4 (.opener true) ++ [.callback 0 .stop] ++ .replicate 14 (.thread 0 true) ++
        [.call, .opener true, .opener false, .opener true, .opener true, .opener true]) _
      (fun _ _ _ h => h) (by decide)
  obtain ⟨hnodup, -, -, -, hb⟩ := contexts_released he ha
  exact ⟨tr, p, he, ho, hc, hnodup, hb hfree hover⟩

/-! ### Contexts that are lost -/

/-- Nothing brings back a context that nothing refers to. -/
theorem dropped_of_exec {n : ℕ} (h : p.ctx.Dropped n) (he : (lts signed).Exec p tr p') :
    p'.ctx.Dropped n :=
  he.invariant (I := fun q => q.ctx.Dropped n) h fun _ _ _ hs hst => hs.perform (perform_op hst)

/-- The context is never destroyed, however the program goes on. -/
def Lost (signed : Bool) (n : ℕ) (p : Opening) : Prop :=
  n < p.ctx.created ∧ ∀ tr q, (lts signed).Exec p tr q → n ∉ q.ctx.destroyed

theorem balanced_of_not_held {c : Ctx} {i : ℕ} (hf : c.Fits (p.thread i).phase)
    (hn : ¬ ∃ i, (p.thread i).phase = .held) : c.ledger.Balanced := by
  generalize hph : (p.thread i).phase = ph at hf
  cases hf with
  | none _ hb | released _ hb => exact hb
  | held => exact absurd ⟨i, hph⟩ hn

/-- An opener that cannot set its proxy destroys its context. -/
theorem exists_destroyed {n : ℕ} (ho : p.opener = .setProxy) (hc : p.ctx.context = some n) :
    ∃ tr q, (lts signed).Exec p tr q ∧ q.ctx.destroyed = n :: p.ctx.destroyed := by
  have h₁ : next signed p (.opener false) = some { p with opener := .destroyTest } := by
    simp [next, ho, OpenerPc.next, Ctx.perform]
  have h₂ : next signed { p with opener := .destroyTest } (.opener true) =
      some { p with opener := .destroy } := by
    simp [next, OpenerPc.next, Ctx.perform, hc]
  have h₃ : next signed { p with opener := .destroy } (.opener true) = some { p with
      ctx := { p.ctx with destroyed := n :: p.ctx.destroyed }, opener := .clear } := by
    simp [next, OpenerPc.next, Ctx.perform, Ctx.apply, hc]
  exact ⟨_, _, ((LTS.Exec.nil.snoc h₁).snoc h₂).snoc h₃, rfl⟩

/-- **An open loses a context** exactly if, at its `usbws_ctx_create`, it overtakes a client thread
that has not come to `lws_context_destroy`. -/
theorem context_lost_iff (he : (lts signed).Exec start tr p) (ha : Alone tr)
    (ho : p.opener = .create) (hst : (lts signed).step p (.opener true) p') :
    (∃ n, Lost signed n p') ↔ ∃ i, (p.thread i).phase = .held := by
  have h := managed_of_exec he ha
  have hno : p.opener.phase = none := by rw [ho]; rfl
  have hfits := h.fits
  rw [phase, hno, Option.getD_none] at hfits
  cases step_of_next hst with
  | opener hr hc =>
    rw [ho] at hr
    cases hr
    cases hc
    constructor
    · rintro ⟨n, hlt, hn⟩
      by_contra hheld
      -- the opener may fail and destroy its own context, and all the others have been destroyed
      obtain ⟨tr', q, hq, hd⟩ := @exists_destroyed signed { p with
        opener := .setProxy, ctx := { p.ctx with
          context := some p.ctx.created, created := p.ctx.created + 1 } } _ rfl rfl
      refine hn tr' q hq ?_
      rw [hd, List.mem_cons]
      by_cases hnew : n = p.ctx.created
      · exact .inl hnew
      · refine .inr (((balanced_of_not_held hfits hheld).mem_iff).2 (List.mem_range.2 ?_))
        rw [Ctx.fresh_ledger]
        exact Nat.lt_of_le_of_ne (Nat.le_of_lt_succ hlt) hnew
    · rintro ⟨i, hi⟩
      have hlast := (h.of_running (by rw [hi]; nofun)).2.2
      rw [phase, hno, Option.getD_none, hi] at hlast
      rw [hlast] at hfits
      cases hfits with
      | @held n hn hb =>
        obtain ⟨hlt, hnf⟩ := hb.live_iff.2 (List.mem_singleton.2 rfl)
        rw [Ctx.fresh_ledger] at hlt
        have hdrop : Ctx.Dropped { p.ctx with
            context := some p.ctx.created, created := p.ctx.created + 1 } n :=
          ⟨fun he => Nat.ne_of_gt hlt (Option.some.inj he), Nat.lt_succ_of_lt hlt, hnf⟩
        exact ⟨n, Nat.lt_succ_of_lt hlt, fun tr q hq => (dropped_of_exec hdrop hq).2.2⟩

/-- A second connection is opened while the first one is in use, and a callback of the first one
comes between the call and its `usbws_ctx_create`. -/
theorem context_lost_of_two_opens : ∃ tr p p', (lts true).Exec start tr p ∧ p.opens = 2 ∧
    (lts true).step p (.opener true) p' ∧ ∃ n, Lost true n p' := by
  obtain ⟨tr, p, he, ha, ho, hn, hi⟩ : ∃ tr p, (lts true).Exec start tr p ∧ Alone tr ∧
      p.opener = .create ∧ p.opens = 2 ∧ (p.thread 0).phase = .held :=
    LTS.exists_exec_of_replay
      ([.call, .opener true, .opener true, .opener true, .opener true, .opener true, .opener true,
        .spawn true, .thread 0 true, .callback 0 .start] ++ .replicate 5 (.thread 0 true) ++
        .replicate 4 (.opener true) ++ [.call, .callback 0 .stop]) _
      (fun _ _ _ h => h) (by decide)
  obtain ⟨p', hst⟩ : ∃ p', (lts true).step p (.opener true) p' :=
    ⟨_, by simp [lts, next, ho, OpenerPc.next, Ctx.perform, Ctx.apply]; rfl⟩
  exact ⟨tr, p, p', he, hn, hst, (context_lost_iff he ha ho hst).2 ⟨0, hi⟩⟩

end Opening

/-! ### Sockets -/

/-- The opener has a socket. -/
def OpenerPc.hasSocket : OpenerPc → Bool
  | register | install | spawn | waitLock | waitLoop | waitUnlock | verdict | freeSock => true
  | idle | create | setProxy | connect | calloc | destroyTest | destroy | clear | done _ => false

/-- What the next statement of the opener does with the socket. -/
theorem OpenerPc.socket_of_next {signed ok : Bool} {c : Ctx} {h h' : Handshake} {pc pc' : OpenerPc}
    {o : Option Ctx.Op} (hk : pc.next signed c h ok = some (h', pc', o)) :
    pc.hasSocket.toNat + (if (ok && decide (pc = .calloc)) = true then 1 else 0) =
      pc'.hasSocket.toNat +
        (if (decide (pc = .verdict) && decide (pc' = .done true)) = true then 1 else 0) +
        (if decide (pc = .freeSock) = true then 1 else 0) := by
  cases pc with
  | idle | done | spawn => cases hk
  | waitLock | waitUnlock =>
    obtain ⟨m, -, hr⟩ := Option.map_eq_some_iff.1 hk
    cases hr
    simp [hasSocket]
  | waitLoop =>
    obtain ⟨m, -, hr⟩ := Option.map_eq_some_iff.1 hk
    cases hr
    by_cases hm : m.stage = .inside <;> simp [hm, hasSocket]
  | verdict =>
    cases hk
    by_cases hneg : intOfChar signed h.started < 0 <;> simp [hneg, hasSocket]
  | destroyTest =>
    cases hk
    by_cases hs : c.context.isSome = true <;> simp [hs, hasSocket]
  | create | setProxy | connect | calloc | register | install | freeSock | destroy | clear =>
    cases hk
    cases ok <;> rfl

namespace Opening

/-- `calloc` has a socket. -/
def allocates (m : Move) : Bool :=
  match m.label with
  | .opener ok => ok && decide (m.pre.opener = .calloc)
  | _ => false

/-- The socket is returned. -/
def hands (m : Move) : Bool :=
  match m.label with
  | .opener _ => decide (m.pre.opener = .verdict) && decide (m.post.opener = .done true)
  | _ => false

/-- The socket is freed. -/
def frees (m : Move) : Bool :=
  match m.label with
  | .opener _ => decide (m.pre.opener = .freeSock)
  | _ => false

/-- `pthread_create` fails. -/
def spawnFails (m : Move) : Bool :=
  match m.label with
  | .spawn ok => !ok
  | _ => false

variable {signed : Bool} {p : Opening} {tr : List Move}

/-- **Every socket is returned or freed**, apart from those for which the thread could not be
created. -/
theorem sockets_eq (he : (lts signed).Exec start tr p) :
    tr.countP allocates = tr.countP hands + tr.countP frees + tr.countP spawnFails +
      p.opener.hasSocket.toNat := by
  induction he with
  | nil => rfl
  | @snoc tr p p' l hex hst ih =>
    simp only [List.countP_cons]
    cases step_of_next hst with
    | call hfree =>
      have hno : p.opener.hasSocket = false := by
        cases ho : p.opener with
        | idle | done => rfl
        | _ => rw [ho] at hfree; cases hfree
      rw [hno] at ih
      exact ih
    | opener hr =>
      have hsocket := OpenerPc.socket_of_next hr
      simp only [allocates, hands, frees, spawnFails, Bool.false_eq_true, if_false,
        Bool.and_eq_true, decide_eq_true_eq] at hsocket ⊢
      omega
    | spawn hpc =>
      rw [hpc] at ih
      exact ih
    | spawnFails hpc =>
      rw [hpc] at ih
      simp only [allocates, hands, frees, spawnFails, Bool.false_eq_true, if_false, Bool.not_false,
        if_true]
      simp only [OpenerPc.hasSocket, Bool.toNat_true] at ih
      simp only [OpenerPc.hasSocket, Bool.toNat_false]
      omega
    | thread | callback | handler => exact ih

/-- `pthread_create` fails, and the socket is lost. -/
theorem sockets_eq_of_spawnFails : ∃ tr p, (lts true).Exec start tr p ∧ p.opener = .done false ∧
    tr.countP allocates = 1 ∧ tr.countP hands + tr.countP frees = 0 := by
  obtain ⟨tr, p, he, ho, ha, hf⟩ : ∃ tr p, (lts true).Exec start tr p ∧ p.opener = .done false ∧
      tr.countP allocates = 1 ∧ tr.countP spawnFails = 1 :=
    LTS.exists_exec_of_replay
      ([.call, .opener true, .opener true, .opener true, .opener true, .opener true, .opener true,
        .spawn false] ++ .replicate 3 (.opener true)) _
      (fun _ _ _ h => h) (by decide)
  have hs := sockets_eq he
  rw [ho, ha, hf] at hs
  simp only [OpenerPc.hasSocket, Bool.toNat_false] at hs
  exact ⟨tr, p, he, ho, ha, by omega⟩

end Opening

end Usbws
