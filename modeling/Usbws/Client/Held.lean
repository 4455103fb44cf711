import Usbws.Client.Release

/-!
# Who holds the context

A client may open a connection while the thread of an earlier one is still running.  Both threads
go by the one pointer in `struct usbws_ctx`, so the context of the later open may be destroyed or
forgotten by the thread of the earlier one.

* `Opening.fate` : what has become of the context of a call of `usbws_ctx_create`, by the program
  points of its opener and of its thread.
* `Opening.Held` : the latest call has succeeded, its context is held, and no thread of an earlier
  open has gone on to `lws_context_destroy` or to `context = NULL` since.
* `Opening.usable_iff_held` : in every run exactly then the pointer to the context is usable.
-/

namespace Usbws

/-- How near the end of its life a context is. -/
def Phase.rank : Phase → ℕ
  | held => 0
  | released => 1
  | none => 2

/-! ### Single statements -/

/-- What a statement does to the context of its party, which is in the phase `ph` : it leaves the
pointer alone, or destroys the context or forgets it.  In `usbws_ctx_destroy` a party that finds no
context goes on, too. -/
inductive Handles (c : Ctx) (o : Option Ctx.Op) (ph ph' : Phase) : Prop
  | keep : ph' = ph → (∀ x ∈ o, x.onContext = false) → Handles c o ph ph'
  | drop : ph.rank < ph'.rank → o = some .destroy ∨ o = some .clear → Handles c o ph ph'
  | skip : ph.rank < ph'.rank → c.context = none → o = none → Handles c o ph ph'

theorem ThreadPc.handles_of_next {i : ℕ} {c : Ctx} {h h' : Handshake} {ok : Bool}
    {pc pc' : ThreadPc} {o : Option Ctx.Op} (hk : pc.next i c h ok = some (h', pc', o)) :
    Handles c o pc.phase pc'.phase := by
  cases pc with
  | absent | returned => cases hk
  | test | service =>
    cases hk
    exact .keep (by split_ifs <;> rfl) nofun
  | serving k | closing k =>
    obtain ⟨r, hr, he⟩ := Option.map_eq_some_iff.1 hk
    cases he
    exact .keep (by cases r.2.1 <;> rfl) (CallbackPc.onContext_of_next hr)
  | discontinue | destroying => cases hk; exact .keep rfl nofun
  | destroyTest =>
    cases hk
    cases hc : c.context with
    | some n => exact .keep rfl nofun
    | none => exact .skip (by decide) hc rfl
  | destroy => cases hk; exact .drop (by decide) (.inl rfl)
  | clear => cases hk; exact .drop (by decide) (.inr rfl)

/-- A statement of an opener that does not manage a context concerns none, apart from
`usbws_ctx_create`. -/
theorem OpenerPc.handles_of_next {signed ok : Bool} {c : Ctx} {h h' : Handshake} {pc pc' : OpenerPc}
    {o : Option Ctx.Op} (hk : pc.next signed c h ok = some (h', pc', o)) (hpc : pc ≠ .create) :
    (pc.phase = none → pc'.phase = none ∧ o = none) ∧
      ∀ ph, pc.phase = some ph → Handles c o ph (pc'.phase.getD .none) := by
  cases pc with
  | create => exact absurd rfl hpc
  | idle | done | spawn => cases hk
  | waitLock | waitUnlock =>
    obtain ⟨m, -, hr⟩ := Option.map_eq_some_iff.1 hk
    cases hr
    exact ⟨fun _ => ⟨rfl, rfl⟩, nofun⟩
  | waitLoop =>
    obtain ⟨m, -, hr⟩ := Option.map_eq_some_iff.1 hk
    cases hr
    exact ⟨fun _ => ⟨by split_ifs <;> rfl, rfl⟩, nofun⟩
  | verdict =>
    cases hk
    exact ⟨fun _ => ⟨by split_ifs <;> rfl, rfl⟩, nofun⟩
  | freeSock => cases hk; exact ⟨fun _ => ⟨rfl, rfl⟩, nofun⟩
  | setProxy | connect | calloc =>
    cases hk
    refine ⟨nofun, ?_⟩
    rintro ph ⟨⟩
    exact .keep (by split_ifs <;> rfl) nofun
  | register | install =>
    cases hk
    refine ⟨nofun, ?_⟩
    rintro ph ⟨⟩
    exact .keep rfl (by rintro x ⟨⟩; rfl)
  | destroyTest =>
    cases hk
    refine ⟨nofun, ?_⟩
    rintro ph ⟨⟩
    cases hc : c.context with
    | some n => exact .keep rfl nofun
    | none => exact .skip (by decide) hc rfl
  | destroy =>
    cases hk
    refine ⟨nofun, ?_⟩
    rintro ph ⟨⟩
    exact .drop (by decide) (.inl rfl)
  | clear =>
    cases hk
    refine ⟨nofun, ?_⟩
    rintro ph ⟨⟩
    exact .drop (by decide) (.inr rfl)

/-- Behind a step that brings a context nearer its end the pointer is not usable. -/
theorem Handles.usable {c c' : Ctx} {o : Option Ctx.Op} {ph ph' : Phase} (h : Handles c o ph ph')
    (hok : c.Ok) (hc : c.perform o = some c') :
    ph' = ph ∧ (c'.Usable ↔ c.Usable) ∨ ph.rank < ph'.rank ∧ ¬ c'.Usable := by
  cases h with
  | keep hph ho =>
    refine .inl ⟨hph, ?_⟩
    cases o with
    | none => cases hc; rfl
    | some x => exact Ctx.usable_of_apply hc (ho x rfl)
  | drop hph ho =>
    refine .inr ⟨hph, ?_⟩
    have hop : ∃ x, o = some x ∧ x.onContext = true ∧ x ≠ .create true := by
      rcases ho with rfl | rfl <;> exact ⟨_, rfl, rfl, nofun⟩
    obtain ⟨x, rfl, hx, hne⟩ := hop
    rwa [Ctx.usable_of_apply_onContext hok hc hx]
  | skip hph hn ho =>
    subst ho
    cases hc
    refine .inr ⟨hph, ?_⟩
    rintro ⟨n, hm, -⟩
    rw [hn] at hm
    cases hm

namespace Opening

/-! ### The context of the latest open -/

/-- What has become of the context that the move has created: the opener manages it until it has
created the thread. -/
def fate (m : Move) (p : Opening) : Phase :=
  p.opener.phase.getD (p.thread m.pre.spawned).phase

/-- The context that the move has created is held, and every thread of an earlier open is in the
phase in which it was at that time. -/
def Intact (m : Move) (p : Opening) : Prop :=
  m.label = .opener true ∧ fate m p = .held ∧
    ∀ i < m.pre.spawned, (p.thread i).phase = (m.pre.thread i).phase

/-- There is a context, and it is the intact one of the latest call of `usbws_ctx_create`. -/
def Held (tr : List Move) (p : Opening) : Prop := ∃ m ∈ tr.find? creates, Intact m p

instance (m : Move) (p : Opening) : Decidable (Intact m p) :=
  inferInstanceAs (Decidable (_ ∧ _ ∧ ∀ i < m.pre.spawned, _))

instance (tr : List Move) (p : Opening) : Decidable (Held tr p) :=
  inferInstanceAs (Decidable (∃ m ∈ tr.find? creates, Intact m p))

/-- What holds since the latest call of `usbws_ctx_create`. -/
structure Since (m : Move) (p : Opening) : Prop where
  spawned : m.pre.spawned ≤ p.spawned ∧ p.spawned ≤ m.pre.spawned + 1
  opener : p.opener.phase ≠ none → p.spawned = m.pre.spawned
  /-- No thread comes back to an earlier phase. -/
  rank : ∀ i < m.pre.spawned, (m.pre.thread i).phase.rank ≤ (p.thread i).phase.rank
  usable : p.ctx.Usable ↔ Intact m p

variable {signed : Bool} {p p' : Opening} {l : Label} {tr : List Move} {m : Move}

/-- What leaves the phases and the usability alone. -/
theorem Since.of_phase (h : Since m p) (hn : p'.spawned = p.spawned)
    (hm : p'.opener.phase ≠ none → p.opener.phase ≠ none) (hf : fate m p' = fate m p)
    (ht : ∀ i < m.pre.spawned, (p'.thread i).phase = (p.thread i).phase)
    (hu : p'.ctx.Usable ↔ p.ctx.Usable) : Since m p' where
  spawned := hn ▸ h.spawned
  opener hn' := hn.trans (h.opener (hm hn'))
  rank i hi := ht i hi ▸ h.rank i hi
  usable := by
    rw [hu, h.usable, Intact, Intact, hf]
    refine and_congr_right fun _ => and_congr_right fun _ => forall_congr' fun i => ?_
    exact forall_congr' fun hi => by rw [ht i hi]

/-- A statement of a thread. -/
theorem Since.thread_next (h : Since m p) (hok : p.ctx.Ok)
    (habs : ∀ i, p.spawned ≤ i → p.thread i = .absent) {i : ℕ} {o : Option Ctx.Op} {c : Ctx}
    {sh : Handshake} {pc : ThreadPc} (hpc : p.thread i ≠ .absent)
    (hh : Handles p.ctx o (p.thread i).phase pc.phase) (hc : p.ctx.perform o = some c) :
    Since m { p with ctx := c, shake := sh, thread := Function.update p.thread i pc } := by
  have hi : i < p.spawned := by
    by_contra hn
    exact hpc (habs i (Nat.le_of_not_lt hn))
  have hphase : ∀ j, (Function.update p.thread i pc j).phase =
      if j = i then pc.phase else (p.thread j).phase := fun j => by
    rw [Function.update_apply, apply_ite ThreadPc.phase]
  rcases hh.usable hok hc with ⟨hsame, hu⟩ | ⟨hlt, hu⟩
  · have hall : ∀ j, (Function.update p.thread i pc j).phase = (p.thread j).phase := fun j => by
      rw [hphase]
      split_ifs with hj
      · rw [hsame, hj]
      · rfl
    exact h.of_phase rfl id (by simp only [fate, hall]) (fun j _ => hall j) hu
  · refine ⟨h.spawned, h.opener, fun j hj => ?_, iff_of_false hu ?_⟩
    · simp only [hphase]
      split_ifs with hji
      · exact Nat.le_of_lt (Nat.lt_of_le_of_lt (hji ▸ h.rank j hj) hlt)
      · exact h.rank j hj
    · rintro ⟨-, hf, hall⟩
      rcases Nat.lt_or_ge i m.pre.spawned with hlt' | hge
      · -- an earlier thread goes on
        have hsame := hall i hlt'
        simp only [hphase, if_pos] at hsame
        have hrank := h.rank i hlt'
        rw [← hsame] at hrank
        omega
      · -- the thread of the latest open, behind which the opener manages nothing
        have him : i = m.pre.spawned := by
          have := h.spawned.2
          omega
        have hno : p.opener.phase = none := by
          by_contra hn
          have := h.opener hn
          omega
        simp only [fate, hno, Option.getD_none, hphase, ← him, if_pos] at hf
        rw [hf] at hlt
        exact Nat.not_lt_zero _ hlt

/-- A statement of the opener other than `usbws_ctx_create`. -/
theorem Since.opener_next (h : Since m p) (hok : p.ctx.Ok)
    (habs : ∀ i, p.spawned ≤ i → p.thread i = .absent) {ok : Bool} {o : Option Ctx.Op} {c : Ctx}
    {sh : Handshake} {pc : OpenerPc} (hr : p.opener.next signed p.ctx p.shake ok = some (sh, pc, o))
    (hc : p.ctx.perform o = some c) (hpc : p.opener ≠ .create) :
    Since m { p with ctx := c, shake := sh, opener := pc } := by
  obtain ⟨hnone, hsome⟩ := OpenerPc.handles_of_next hr hpc
  cases hph : p.opener.phase with
  | none =>
    obtain ⟨hpc', rfl⟩ := hnone hph
    cases hc
    refine h.of_phase rfl (fun hn => absurd hpc' hn) ?_ (fun _ _ => rfl) Iff.rfl
    simp only [fate, hph, hpc']
  | some ph =>
    have hn := h.opener (by rw [hph]; exact Option.some_ne_none _)
    -- there is no thread of this open yet
    have hthread : (p.thread m.pre.spawned).phase = .none := by rw [habs _ (Nat.le_of_eq hn)]; rfl
    have hfate : fate m { p with ctx := c, shake := sh, opener := pc } = pc.phase.getD .none := by
      simp only [fate, hthread]
    rcases (hsome ph hph).usable hok hc with ⟨hsame, hu⟩ | ⟨hlt, hu⟩
    · refine h.of_phase rfl (fun _ => by rw [hph]; exact Option.some_ne_none _) ?_
        (fun _ _ => rfl) hu
      rw [hfate, hsame, fate, hph]
      rfl
    · refine ⟨h.spawned, fun _ => hn, h.rank, iff_of_false hu ?_⟩
      rintro ⟨-, hf, -⟩
      rw [hfate] at hf
      rw [hf] at hlt
      exact Nat.not_lt_zero _ hlt

theorem Since.step (h : Since m p) (hok : p.ctx.Ok)
    (habs : ∀ i, p.spawned ≤ i → p.thread i = .absent) (hst : (lts signed).step p l p')
    (hno : creates ⟨p, l, p'⟩ = false) : Since m p' := by
  cases step_of_next hst with
  | call hfree =>
    have hm : p.opener.phase = none := by
      cases ho : p.opener with
      | idle | done => rfl
      | _ => rw [ho] at hfree; cases hfree
    refine h.of_phase rfl (fun hn => absurd rfl hn) ?_ (fun _ _ => rfl) Iff.rfl
    simp only [fate, hm]
    rfl
  | opener hr hc =>
    refine h.opener_next hok habs hr hc fun hpc => ?_
    simp [creates, hpc] at hno
  | spawn hpc =>
    have hn := h.opener (by rw [hpc]; exact Option.some_ne_none _)
    have hthread : ∀ i < m.pre.spawned,
        Function.update p.thread p.spawned .test i = p.thread i := fun i hi =>
      Function.update_of_ne (by omega) ..
    refine ⟨⟨by simp only [hn]; omega, by simp only [hn]; omega⟩, fun hn' => absurd rfl hn',
      fun i hi => by simp only [hthread i hi]; exact h.rank i hi, ?_⟩
    rw [h.usable, Intact, Intact]
    refine and_congr_right fun _ => and_congr (iff_of_true ?_ ?_) (forall_congr' fun i =>
      forall_congr' fun hi => by simp only [hthread i hi])
    · rw [fate, hpc]
      rfl
    · simp only [fate, hn, Function.update_self]
      rfl
  | spawnFails hpc =>
    refine h.of_phase rfl (fun _ => by rw [hpc]; exact Option.some_ne_none _) ?_ (fun _ _ => rfl)
      Iff.rfl
    simp only [fate, hpc]
    rfl
  | thread hr hc =>
    refine h.thread_next hok habs (fun hn => ?_) (ThreadPc.handles_of_next hr) hc
    rw [hn] at hr
    cases hr
  | @callback i n pc hd =>
    have hph := (ThreadPc.phase_of_deliver hd).1
    exact h.thread_next hok habs (fun hn => by rw [hn] at hd; cases hd)
      (.keep hph fun _ h => by cases h) (o := none) rfl
  | handler hh =>
    exact h.of_phase rfl id rfl (fun _ _ => rfl) (Ctx.usable_of_apply (o := .handler _) hh rfl)

/-- The context has just been created, or could not be. -/
theorem since_of_creates (hok : p.ctx.Ok) (hst : (lts signed).step p l p')
    (hcr : creates ⟨p, l, p'⟩ = true) : Since ⟨p, l, p'⟩ p' := by
  cases step_of_next hst with
  | @opener ok sh pc o c hr hc =>
    have hpc : p.opener = .create := by simpa [creates] using hcr
    rw [hpc] at hr
    cases hr
    have hu := Ctx.usable_of_apply_onContext hok hc rfl
    refine ⟨⟨Nat.le_refl _, Nat.le_succ _⟩, fun _ => rfl, fun _ _ => Nat.le_refl _, hu.trans ?_⟩
    cases ok with
    | true => exact iff_of_true rfl ⟨rfl, rfl, fun _ _ => rfl⟩
    | false => exact iff_of_false (fun h => by cases h) fun h => by cases h.1
  | _ => cases hcr

/-- In front of the first call of `usbws_ctx_create` there is nothing to hold. -/
structure Before (p : Opening) : Prop where
  opener : p.opener = .idle ∨ p.opener = .create
  spawned : p.spawned = 0
  usable : ¬ p.ctx.Usable

theorem Before.step (h : p.Before) (habs : ∀ i, p.spawned ≤ i → p.thread i = .absent)
    (hst : (lts signed).step p l p') (hno : creates ⟨p, l, p'⟩ = false) : p'.Before := by
  have hthread : ∀ i, p.thread i = .absent := fun i =>
    habs i (by rw [h.spawned]; exact Nat.zero_le i)
  cases step_of_next hst with
  | call => exact ⟨.inr rfl, h.spawned, h.usable⟩
  | opener hr =>
    rcases h.opener with ho | ho
    · rw [ho] at hr
      cases hr
    · simp [creates, ho] at hno
  | spawn hpc | spawnFails hpc => rcases h.opener with ho | ho <;> rw [ho] at hpc <;> cases hpc
  | thread hr => rw [hthread] at hr; cases hr
  | callback hd => rw [hthread] at hd; cases hd
  | handler hh =>
    refine ⟨h.opener, h.spawned, ?_⟩
    rw [Ctx.usable_of_apply (o := .handler _) hh rfl]
    exact h.usable

/-- **Who holds the context.**  The pointer to the context is usable exactly if the latest call of
`usbws_ctx_create` has succeeded, its opener or its thread is in front of `lws_context_destroy`, and
no thread of an earlier open has come to its `lws_context_destroy` or its `context = NULL` since. -/
theorem usable_iff_held (he : (lts signed).Exec start tr p) : p.ctx.Usable ↔ Held tr p := by
  suffices h : (tr.find? creates = none → p.Before) ∧ ∀ m ∈ tr.find? creates, Since m p by
    cases hm : tr.find? creates with
    | none =>
      refine iff_of_false (h.1 hm).usable ?_
      rintro ⟨m, hm', -⟩
      rw [hm] at hm'
      cases hm'
    | some m =>
      rw [(h.2 m hm).usable, Held, hm]
      simp
  induction he with
  | nil =>
    have hno : ¬ start.ctx.Usable := by simp [start, Ctx.Usable, Ctx.init]
    exact ⟨fun _ => ⟨.inl rfl, rfl, hno⟩, fun m hm => by simp at hm⟩
  | @snoc tr p p' l hex hst ih =>
    have hok := Ctx.ok_of_exec (exec_view hex)
    have habs := absent_of_exec hex
    rw [List.find?_cons]
    cases hcr : creates ⟨p, l, p'⟩ with
    | true =>
      exact ⟨fun h => (by cases h), fun m hm => Option.some.inj hm ▸ since_of_creates hok hst hcr⟩
    | false =>
      exact ⟨fun hn => (ih.1 hn).step habs hst hcr, fun m hm => (ih.2 m hm).step hok habs hst hcr⟩

end Opening

end Usbws
