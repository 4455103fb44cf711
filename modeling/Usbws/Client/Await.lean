import Usbws.Client.Notes

/-!
# Waiting for a client thread

The opener waits until a session callback stores a notification.  A client thread that leaves its
loop because of a SIGINT or of an error of `lws_service`, before any session callback, notifies
nobody, and `lws_context_destroy` need not deliver a callback for a connection that was never
established.

* `Opening.Stuck` : a client thread has returned and the opener waits for the first notification.
* `Opening.ReturnsTold` : a client thread returns only behind a session callback.
* `Opening.not_stuck` : then the opener is never stuck.
* `Opening.exists_stuck_of_untold` : from any other return the opener may come to be stuck.
-/

namespace Usbws

/-- The callback has not stored its notification yet. -/
def CallbackPc.owes : CallbackPc → Bool
  | signal | unlock => false
  | _ => true

/-- The thread is in a callback that has not stored its notification yet. -/
def ThreadPc.owes : ThreadPc → Bool
  | serving k | closing k => k.owes
  | _ => false

/-- The thread is in a callback. -/
def ThreadPc.inCallback : ThreadPc → Bool
  | serving _ | closing _ => true
  | _ => false

theorem CallbackPc.owes_of_next {i : ℕ} {h h' : Handshake} {k : CallbackPc}
    {k' : Option CallbackPc} {o : Option Ctx.Op} (hk : k.next i h = some (h', k', o))
    (ho : k.owes = true) : k.note ≠ none ∨ ∃ k'' ∈ k', k''.owes = true := by
  cases k with
  | lock n =>
    obtain ⟨m, -, hr⟩ := Option.map_eq_some_iff.1 hk
    cases hr
    exact .inr ⟨_, rfl, rfl⟩
  | store n => exact .inl (Option.some_ne_none n)
  | setWsi | clearWsi | stop | cancel => cases hk; exact .inr ⟨_, rfl, rfl⟩
  | signal | unlock => cases ho

/-- A thread in such a callback stays in it until it stores the notification. -/
theorem ThreadPc.owes_of_next {i : ℕ} {c : Ctx} {h h' : Handshake} {ok : Bool}
    {pc pc' : ThreadPc} {o : Option Ctx.Op} (hk : pc.next i c h ok = some (h', pc', o))
    (ho : pc.owes = true) : pc.note ≠ none ∨ pc'.owes = true := by
  cases pc with
  | serving k | closing k =>
    obtain ⟨r, hr, he⟩ := Option.map_eq_some_iff.1 hk
    cases he
    rcases CallbackPc.owes_of_next hr ho with hn | ⟨k', hk', hn⟩
    · exact .inl hn
    · rw [Option.mem_def.1 hk']
      exact .inr hn
  | absent | returned => cases hk
  | test | service | discontinue | destroyTest | destroy | destroying | clear => cases ho

/-- A thread to which a callback is delivered is in `lws_service` or `lws_context_destroy`, and
then in the callback. -/
theorem ThreadPc.owes_of_deliver {n : Note} {pc pc' : ThreadPc} (h : pc.deliver n = some pc') :
    pc ≠ .absent ∧ pc'.owes = true := by
  obtain ⟨rfl, rfl⟩ | ⟨rfl, rfl, rfl⟩ := deliver_cases h
  · exact ⟨nofun, by cases n <;> rfl⟩
  · exact ⟨nofun, rfl⟩

/-- Outside of callbacks a thread leaves what it shares alone. -/
theorem ThreadPc.calm_of_next {i : ℕ} {c : Ctx} {h h' : Handshake} {ok : Bool} {pc pc' : ThreadPc}
    {o : Option Ctx.Op} (hk : pc.next i c h ok = some (h', pc', o)) (hc : pc.inCallback = false) :
    h' = h ∧ pc'.inCallback = false := by
  cases pc with
  | serving | closing => cases hc
  | absent | returned => cases hk
  | test | service | destroyTest =>
    cases hk
    refine ⟨rfl, ?_⟩
    split_ifs <;> rfl
  | discontinue | destroy | destroying | clear => cases hk; exact ⟨rfl, rfl⟩

/-- The opener waits until `client->started` is not 0. -/
theorem OpenerPc.waits_of_next {signed ok : Bool} {c : Ctx} {h h' : Handshake} {pc pc' : OpenerPc}
    {o : Option Ctx.Op} (hk : pc.next signed c h ok = some (h', pc', o)) (hs : h.started = 0)
    (hpc : pc = .waitLock ∨ pc = .waitLoop) : pc' = .waitLoop := by
  rcases hpc with rfl | rfl
  · obtain ⟨m, -, hr⟩ := Option.map_eq_some_iff.1 hk
    cases hr
    rfl
  · obtain ⟨m, hm, hr⟩ := Option.map_eq_some_iff.1 hk
    cases hr
    rw [if_neg]
    intro hin
    have := Monitor.not_cond_of_inside hm hin
    rw [hs] at this
    cases this

/-- What the opener shares in front of the first callback. -/
structure Handshake.Calm (h : Handshake) (pc : OpenerPc) : Prop where
  started : h.started = 0
  free : pc ≠ .waitLoop → h.lock = .free
  loop : pc = .waitLoop → h.lock.stage = .testing ∨ h.lock.stage.waits = true

theorem OpenerPc.calm_of_next {signed ok : Bool} {c : Ctx} {h h' : Handshake} {pc pc' : OpenerPc}
    {o : Option Ctx.Op} (hk : pc.next signed c h ok = some (h', pc', o)) (hc : h.Calm pc) :
    h'.Calm pc' := by
  cases pc with
  | waitLock =>
    obtain ⟨m, hm, hr⟩ := Option.map_eq_some_iff.1 hk
    cases hr
    rw [hc.free nofun] at hm
    cases hm
    exact ⟨hc.started, nofun, fun _ => .inl rfl⟩
  | waitLoop =>
    have hpc := OpenerPc.waits_of_next hk hc.started (.inr rfl)
    obtain ⟨m, hm, hr⟩ := Option.map_eq_some_iff.1 hk
    cases hr
    refine ⟨hc.started, fun hn => absurd hpc hn,
      fun _ => (Monitor.stage_of_turn hm).resolve_left ?_⟩
    intro hin
    rw [if_pos hin] at hpc
    cases hpc
  | waitUnlock =>
    obtain ⟨m, hm, -⟩ := Option.map_eq_some_iff.1 hk
    rw [hc.free nofun] at hm
    cases hm
  | idle | done | spawn => cases hk
  | register | install | freeSock | destroy | clear =>
    cases hk
    exact ⟨hc.started, fun _ => hc.free nofun, nofun⟩
  | create | setProxy | connect | calloc | verdict | destroyTest =>
    cases hk
    refine ⟨hc.started, fun _ => hc.free nofun, fun hn => ?_⟩
    split_ifs at hn

namespace Opening

/-- A client thread has returned, and the opener waits for the first notification. -/
def Stuck (p : Opening) : Prop :=
  (∃ i, p.thread i = .returned) ∧ p.opener = .waitLoop ∧ p.shake.lock.stage.waits = true ∧
    p.shake.started = 0

/-- A client thread returns. -/
def returns (m : Move) : Bool :=
  match m.label with
  | .thread i _ => decide (m.post.thread i = .returned)
  | _ => false

/-- A session callback begins. -/
def Label.isCallback : Label → Bool
  | callback _ _ => true
  | _ => false

/-- A session callback has been delivered. -/
def Told (tr : List Move) : Prop := ∃ m ∈ tr, m.label.isCallback = true

/-- Every return of a client thread comes behind a session callback. -/
def ReturnsTold (tr : List Move) : Prop := LTS.Preceded returns Told tr

instance (tr : List Move) : Decidable (Told tr) :=
  inferInstanceAs (Decidable (∃ m ∈ tr, m.label.isCallback = true))

variable {signed : Bool} {p p' : Opening} {l : Label} {tr : List Move} {m : Move}

theorem told_cons : Told (m :: tr) ↔ m.label.isCallback = true ∨ Told tr := by
  simp only [Told, List.mem_cons, exists_eq_or_imp]

theorem Told.of_cons (h : Told (m :: tr)) (hl : m.label.isCallback = false) : Told tr := by
  rw [told_cons, hl] at h
  exact h.resolve_left nofun

theorem Told.of_suffix {tr' : List Move} (h : Told tr') (hs : tr' <:+ tr) : Told tr := by
  obtain ⟨m, hm, hl⟩ := h
  exact ⟨m, hs.subset hm, hl⟩

instance (tr : List Move) : Decidable (ReturnsTold tr) :=
  inferInstanceAs (Decidable (LTS.Preceded returns Told tr))

/-- What holds until the first notification: there is one client thread at most, and only while the
opener waits; and behind a session callback the thread owes the notification. -/
structure Awaits (tr : List Move) (p : Opening) : Prop where
  absent : ∀ i, p.spawned ≤ i → p.thread i = .absent
  single : p.spawned = 0 ∨ p.spawned = 1 ∧ (p.opener = .waitLock ∨ p.opener = .waitLoop)
  owes : Told tr → (p.thread 0).owes = true

/-- Without a notification every client thread is the first one. -/
theorem Awaits.eq_zero (h : Awaits tr p) {i : ℕ} (hi : p.thread i ≠ .absent) :
    i = 0 ∧ p.spawned = 1 := by
  have hlt : i < p.spawned := by
    by_contra hn
    exact hi (h.absent i (Nat.le_of_not_lt hn))
  rcases h.single with hs | ⟨hs, -⟩
  · rw [hs] at hlt
    cases hlt
  · exact ⟨by omega, hs⟩

theorem Awaits.not_spawned (h : Awaits tr p) (ho : p.opener ≠ .waitLock ∧ p.opener ≠ .waitLoop) :
    p.spawned = 0 := by
  rcases h.single with hs | ⟨-, hw | hw⟩
  · exact hs
  · exact absurd hw ho.1
  · exact absurd hw ho.2

theorem awaits_of_exec (he : (lts signed).Exec start tr p) (hn : lastNote tr = none) :
    Awaits tr p := by
  induction he with
  | nil => exact ⟨fun _ _ => rfl, .inl rfl, fun h => by simp [Told] at h⟩
  | @snoc tr p p' l hex hst ih =>
    rw [lastNote_cons, Option.or_eq_none_iff] at hn
    have h := ih hn.2
    have hstarted := (lastNote_eq_none_iff hex).1 hn.2
    cases step_of_next hst with
    | call hfree =>
      refine ⟨h.absent, .inl (h.not_spawned ?_), fun ht => h.owes (ht.of_cons rfl)⟩
      constructor <;> intro hw <;> rw [hw] at hfree <;> cases hfree
    | opener hr hc =>
      refine ⟨h.absent, ?_, fun ht => h.owes (ht.of_cons rfl)⟩
      rcases h.single with hs | ⟨hs, hw⟩
      · exact .inl hs
      · exact .inr ⟨hs, .inr (OpenerPc.waits_of_next hr hstarted hw)⟩
    | spawn hpc =>
      have hs : p.spawned = 0 := h.not_spawned (by rw [hpc]; exact ⟨nofun, nofun⟩)
      have habs : p.thread 0 = .absent := h.absent 0 (Nat.le_of_eq hs)
      refine ⟨fun i hi => ?_, .inr ⟨by simp [hs], .inl rfl⟩, fun ht => ?_⟩
      · have hne : i ≠ p.spawned := by rintro rfl; exact Nat.not_succ_le_self _ hi
        simp only [Function.update_of_ne hne]
        exact h.absent i (Nat.le_of_succ_le hi)
      · have := h.owes (ht.of_cons rfl)
        rw [habs] at this
        cases this
    | spawnFails hpc =>
      have hs : p.spawned = 0 := h.not_spawned (by rw [hpc]; exact ⟨nofun, nofun⟩)
      exact ⟨h.absent, .inl hs, fun ht => h.owes (ht.of_cons rfl)⟩
    | @thread i ok sh pc o c hr hc =>
      obtain ⟨rfl, hs⟩ := h.eq_zero fun ha => by rw [ha] at hr; cases hr
      refine ⟨fun j hj => ?_, h.single, fun ht => ?_⟩
      · have hne : j ≠ 0 := by rintro rfl; simp [hs] at hj
        simp only [Function.update_of_ne hne]
        exact h.absent j hj
      · have howes := h.owes (ht.of_cons rfl)
        simpa using (ThreadPc.owes_of_next hr howes).resolve_left (not_not_intro hn.1)
    | @callback i n pc hd =>
      obtain ⟨ha, howes⟩ := ThreadPc.owes_of_deliver hd
      obtain ⟨rfl, hs⟩ := h.eq_zero ha
      refine ⟨fun j hj => ?_, h.single, fun _ => by simpa using howes⟩
      have hne : j ≠ 0 := by rintro rfl; simp [hs] at hj
      simp only [Function.update_of_ne hne]
      exact h.absent j hj
    | handler hh => exact ⟨h.absent, h.single, fun ht => h.owes (ht.of_cons rfl)⟩

/-- A thread that has returned has made the step. -/
theorem exists_returns (he : (lts signed).Exec start tr p) {i : ℕ} (hi : p.thread i = .returned) :
    ∃ m tr', m :: tr' <:+ tr ∧ returns m = true := by
  induction he with
  | nil => cases hi
  | @snoc tr p p' l hex hst ih =>
    by_cases hp : p.thread i = .returned
    · obtain ⟨m, tr', hs, hm⟩ := ih hp
      exact ⟨m, tr', hs.trans (List.suffix_cons _ _), hm⟩
    · refine ⟨_, _, List.suffix_refl _, ?_⟩
      cases step_of_next hst with
      | call | opener | spawnFails | handler => exact absurd hi hp
      | spawn =>
        simp only [Function.update_apply] at hi
        split_ifs at hi
        exact absurd hi hp
      | callback hd =>
        simp only [Function.update_apply] at hi
        split_ifs at hi
        · have := (ThreadPc.owes_of_deliver hd).2
          rw [hi] at this
          cases this
        · exact absurd hi hp
      | @thread j =>
        by_cases hij : i = j
        · rw [← hij] at hi ⊢
          simpa [returns] using hi
        · simp only [Function.update_of_ne hij] at hi
          exact absurd hi hp

/-- **Opening never waits on a dead thread** in a run in which every client thread that returns does
so behind a session callback. -/
theorem not_stuck (he : (lts signed).Exec start tr p) (hr : ReturnsTold tr) : ¬ p.Stuck := by
  rintro ⟨⟨i, hi⟩, -, -, hs⟩
  have h := awaits_of_exec he ((lastNote_eq_none_iff he).2 hs)
  obtain ⟨m, tr', hsuf, hm⟩ := exists_returns he hi
  -- the callback has not finished, although the thread has
  have howes := h.owes ((hr m tr' hsuf hm).of_suffix ((List.suffix_cons _ _).trans hsuf))
  obtain ⟨rfl, -⟩ := h.eq_zero (i := i) (by rw [hi]; nofun)
  rw [hi] at howes
  cases howes

/-- A refused connection is notified before the thread returns. -/
theorem not_stuck_of_refused : ∃ tr p, (lts true).Exec start tr p ∧ p.thread 0 = .returned ∧
    p.opener = .waitLoop ∧ ¬ p.Stuck := by
  obtain ⟨tr, p, he, ht, ho, hr⟩ : ∃ tr p, (lts true).Exec start tr p ∧ p.thread 0 = .returned ∧
      p.opener = .waitLoop ∧ ReturnsTold tr :=
    LTS.exists_exec_of_replay
      [.call, .opener true, .opener true, .opener true, .opener true, .opener true, .opener true,
        .spawn true, .opener true, .opener true, .opener true, .thread 0 true, .callback 0 .stop,
        .thread 0 true, .thread 0 true, .thread 0 true, .thread 0 true, .thread 0 true,
        .thread 0 true, .thread 0 true, .thread 0 true, .thread 0 true, .thread 0 true,
        .thread 0 true, .thread 0 true, .thread 0 true, .thread 0 true] _
      (fun _ _ _ h => h) (by decide)
  exact ⟨tr, p, he, ht, ho, not_stuck he hr⟩

/-- A SIGINT in front of the first callback ends the thread, and the opener sleeps. -/
theorem exists_stuck : ∃ tr p, (lts true).Exec start tr p ∧ p.thread 0 = .returned ∧
    p.opener = .waitLoop ∧ p.shake.lock.stage = .asleep ∧ p.shake.started = 0 ∧ p.Stuck := by
  obtain ⟨tr, p, he, ht, ho, ha, hs⟩ : ∃ tr p, (lts true).Exec start tr p ∧
      p.thread 0 = .returned ∧ p.opener = .waitLoop ∧ p.shake.lock.stage = .asleep ∧
      p.shake.started = 0 :=
    LTS.exists_exec_of_replay
      [.call, .opener true, .opener true, .opener true, .opener true, .opener true, .opener true,
        .spawn true, .opener true, .opener true, .opener true, .handler .enter, .handler .stop,
        .handler .cancel, .thread 0 true, .thread 0 true, .thread 0 true, .thread 0 true,
        .thread 0 true, .thread 0 true] _
      (fun _ _ _ h => h) (by decide)
  exact ⟨tr, p, he, ht, ho, ha, hs, ⟨0, ht⟩, ho, by rw [ha]; rfl, hs⟩

/-! ### Returns in front of the first callback -/

/-- What holds in front of the first callback. -/
structure Calm (p : Opening) : Prop where
  thread : ∀ i, (p.thread i).inCallback = false
  shake : p.shake.Calm p.opener

theorem calm_of_exec (he : (lts signed).Exec start tr p) (hn : ¬ Told tr) : Calm p := by
  induction he with
  | nil => exact ⟨fun _ => rfl, rfl, fun _ => rfl, nofun⟩
  | @snoc tr p p' l hex hst ih =>
    rw [told_cons, not_or] at hn
    obtain ⟨hthread, hshake⟩ := ih hn.2
    cases step_of_next hst with
    | call hfree =>
      refine ⟨hthread, hshake.started, fun _ => hshake.free ?_, nofun⟩
      intro hw
      rw [hw] at hfree
      cases hfree
    | opener hr hc => exact ⟨hthread, OpenerPc.calm_of_next hr hshake⟩
    | spawn hpc =>
      refine ⟨fun i => ?_, hshake.started, fun _ => hshake.free (by rw [hpc]; nofun), nofun⟩
      simp only [Function.update_apply]
      split_ifs
      · rfl
      · exact hthread i
    | spawnFails hpc =>
      exact ⟨hthread, hshake.started, fun _ => hshake.free (by rw [hpc]; nofun), nofun⟩
    | @thread i ok sh pc o c hr hc =>
      obtain ⟨rfl, hpc⟩ := ThreadPc.calm_of_next hr (hthread i)
      refine ⟨fun j => ?_, hshake⟩
      simp only [Function.update_apply]
      split_ifs
      · exact hpc
      · exact hthread j
    | callback hd => exact absurd rfl hn.1
    | handler hh => exact ⟨hthread, hshake⟩

/-- In front of the first callback an opener in its wait loop comes to wait. -/
theorem Calm.exists_waits (h : Calm p) (ho : p.opener = .waitLoop) :
    ∃ tr p', (lts signed).Exec p tr p' ∧ p'.thread = p.thread ∧ p'.opener = .waitLoop ∧
      p'.shake.lock.stage.waits = true ∧ p'.shake.started = 0 := by
  rcases h.shake.loop ho with ht | hw
  · have hnext : next signed p (.opener true) = some { p with
        shake := { p.shake with lock := { p.shake.lock with stage := .committed } }
        opener := .waitLoop } := by
      simp [next, ho, OpenerPc.next, Monitor.turn, Monitor.test, ht, h.shake.started, Ctx.perform]
    exact ⟨_, _, .snoc .nil hnext, rfl, rfl, rfl, h.shake.started⟩
  · exact ⟨[], p, .nil, rfl, ho, hw, h.shake.started⟩

/-- **Any other return can leave the opener stuck.** -/
theorem exists_stuck_of_untold (he : (lts signed).Exec start tr p) (hst : (lts signed).step p l p')
    (hr : returns ⟨p, l, p'⟩ = true) (hn : ¬ Told tr) :
    ∃ tr' p'', (lts signed).Exec p' tr' p'' ∧ p''.Stuck := by
  have he' := he.snoc hst
  obtain ⟨i, ok, hl⟩ : ∃ i ok, l = .thread i ok := by
    cases l with
    | thread i ok => exact ⟨i, ok, rfl⟩
    | call | opener | spawn | callback | handler => cases hr
  subst hl
  have hi : p'.thread i = .returned := by simpa [returns] using hr
  have hn' : ¬ Told (⟨p, .thread i ok, p'⟩ :: tr) := by
    rw [told_cons, not_or]
    exact ⟨Bool.false_ne_true, hn⟩
  have hcalm := calm_of_exec he' hn'
  have hawaits := awaits_of_exec he' ((lastNote_eq_none_iff he').2 hcalm.shake.started)
  obtain ⟨-, hs⟩ := hawaits.eq_zero (i := i) (by simp [hi])
  rcases hawaits.single with hs' | ⟨-, ho | ho⟩
  · rw [hs'] at hs
    cases hs
  · -- the opener takes the lock first
    have hnext : next signed p' (.opener true) = some { p' with
        shake := { p'.shake with lock := ⟨some .waiter, .testing⟩ }, opener := .waitLoop } := by
      simp [next, ho, OpenerPc.next, hcalm.shake.free (by simp [ho]), Monitor.enter,
        Monitor.free, Ctx.perform]
    have hcalm' := calm_of_exec (he'.snoc hnext)
      (by rw [told_cons, not_or]; exact ⟨Bool.false_ne_true, hn'⟩)
    obtain ⟨tr', p'', hex, ht, ho', hw, hz⟩ := @Calm.exists_waits signed _ hcalm' rfl
    exact ⟨_, p'', (LTS.Exec.nil.snoc hnext).append hex, ⟨i, by rw [ht]; exact hi⟩, ho', hw, hz⟩
  · obtain ⟨tr', p'', hex, ht, ho', hw, hz⟩ := @Calm.exists_waits signed _ hcalm ho
    exact ⟨tr', p'', hex, ⟨i, by rw [ht]; exact hi⟩, ho', hw, hz⟩

end Opening

end Usbws
