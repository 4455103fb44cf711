import Usbws.Ctx.Basic
import Usbws.Data.Ledger

/-!
# The lifetimes of the contexts

A program on `struct usbws_ctx` creates contexts and destroys them by the pointer in the struct.  It
leaves none behind if it creates one only when there is none, and destroys the one that it has.

* `Ctx.ledger` : the contexts created and destroyed.
* `Phase`, `Ctx.Fits` : what has become of the latest context, where each other one has been
  destroyed once; `Ctx.Fits.create`, `Ctx.Fits.destroy` and `Ctx.Fits.clear` lead from one phase to
  the next.
* `Ctx.Dropped` : a context that nothing refers to any more stays undestroyed.
* `Ctx.cont_of_perform` : nothing sets `cont` again.
-/

namespace Usbws

/-- What has become of the latest context. -/
inductive Phase where
  /-- There is none, or the pointer to it has been cleared. -/
  | none
  /-- It is to be destroyed. -/
  | held
  /-- It has been destroyed, and the pointer to it has not been cleared. -/
  | released
  deriving DecidableEq, Repr

namespace Ctx

/-- The ledger of the contexts. -/
def ledger (c : Ctx) : Ledger := ⟨.replicate c.created 0, c.destroyed⟩

@[simp] theorem fresh_ledger (c : Ctx) : c.ledger.fresh = c.created := by
  simp [ledger, Ledger.fresh]

/-- Every context is destroyed once, apart from the one that is held. -/
inductive Fits (c : Ctx) : Phase → Prop
  | none : c.context = none → c.ledger.Balanced → Fits c .none
  | held {n : ℕ} : c.context = some n → c.ledger.Accounts [n] → Fits c .held
  | released {n : ℕ} : c.context = some n → c.ledger.Balanced → Fits c .released

variable {c c' : Ctx} {o : Op} {ph : Phase}

theorem ledger_create (c : Ctx) :
    { c with context := some c.created, created := c.created + 1 }.ledger = c.ledger.alloc 0 := by
  simp [ledger, Ledger.alloc, List.replicate_succ']

theorem Fits.congr (h : c.Fits ph) (hc : c'.context = c.context) (hn : c'.created = c.created)
    (hd : c'.destroyed = c.destroyed) : c'.Fits ph := by
  have hl : c'.ledger = c.ledger := by rw [ledger, ledger, hn, hd]
  cases h with
  | none h h' => exact .none (hc.trans h) (hl ▸ h')
  | held h h' => exact .held (hc.trans h) (hl ▸ h')
  | released h h' => exact .released (hc.trans h) (hl ▸ h')

/-- The other operations do not matter. -/
theorem Fits.apply (h : c.Fits ph) (ha : c.apply o = some c') (ho : o.onContext = false) :
    c'.Fits ph := by
  obtain ⟨h₁, h₂, h₃⟩ := context_of_apply ha ho
  exact h.congr h₁ h₂ h₃

theorem Fits.perform {o : Option Op} (h : c.Fits ph) (hc : c.perform o = some c')
    (ho : ∀ x ∈ o, x.onContext = false) : c'.Fits ph := by
  cases o with
  | none =>
    cases hc
    exact h
  | some x => exact h.apply hc (ho x rfl)

theorem Fits.create (h : c.Fits .none) {ok : Bool} (ha : c.apply (.create ok) = some c') :
    c'.Fits (if ok then .held else .none) := by
  cases h with
  | none hc hb =>
    cases ok with
    | false =>
      cases ha
      exact .none rfl hb
    | true =>
      cases ha
      have halloc := (Ledger.accounts_nil.2 hb).alloc 0
      rw [← ledger_create, fresh_ledger] at halloc
      exact .held rfl halloc

theorem Fits.destroy (h : c.Fits .held) (ha : c.apply .destroy = some c') : c'.Fits .released := by
  cases h with
  | @held n hc hb =>
    cases ha
    have hfree : c.ledger.free n =
        { c with destroyed := c.context.toList ++ c.destroyed }.ledger := by
      rw [hc]
      rfl
    exact .released hc (hfree ▸ Ledger.accounts_nil.1 hb.free)

theorem Fits.clear (h : c.Fits .released) (ha : c.apply .clear = some c') : c'.Fits .none := by
  cases h with
  | released _ hb =>
    cases ha
    exact .none rfl hb

theorem Fits.isSome (h : c.Fits .held) : c.context.isSome = true := by
  cases h with
  | held hc => rw [hc]; rfl

/-- A context that is held is usable. -/
theorem Fits.usable (h : c.Fits .held) : c.Usable := by
  cases h with
  | @held n hc hb =>
    obtain ⟨hlt, hnf⟩ := hb.live_iff.2 (List.mem_singleton.2 rfl)
    rw [fresh_ledger] at hlt
    exact ⟨n, hc, hlt, hnf⟩

/-- No context has been destroyed twice. -/
theorem Fits.nodup (h : c.Fits ph) : c.destroyed.Nodup := by
  cases h with
  | none _ hb | released _ hb => exact (Ledger.accounts_nil.2 hb).nodup_frees
  | held _ hb => exact hb.nodup_frees

/-- The context is not destroyed, and nothing refers to it. -/
def Dropped (c : Ctx) (n : ℕ) : Prop := c.context ≠ some n ∧ n < c.created ∧ n ∉ c.destroyed

theorem Dropped.apply {n : ℕ} (h : c.Dropped n) (ha : c.apply o = some c') : c'.Dropped n := by
  obtain ⟨hc, hn, hd⟩ := h
  cases ho : o.onContext with
  | false =>
    obtain ⟨h₁, h₂, h₃⟩ := context_of_apply ha ho
    rw [Dropped, h₁, h₂, h₃]
    exact ⟨hc, hn, hd⟩
  | true =>
    cases o with
    | create ok =>
      cases ok <;> cases ha
      · exact ⟨nofun, hn, hd⟩
      · exact ⟨fun he => Nat.ne_of_gt hn (Option.some.inj he), Nat.lt_succ_of_lt hn, hd⟩
    | destroy =>
      cases ha
      refine ⟨hc, hn, fun hm => ?_⟩
      rcases List.mem_append.1 hm with hm | hm
      · exact hc (Option.mem_toList.1 hm)
      · exact hd hm
    | clear =>
      cases ha
      exact ⟨nofun, hn, hd⟩
    | register | install | stop | handler => cases ho

theorem Dropped.perform {n : ℕ} {o : Option Op} (h : c.Dropped n) (hc : c.perform o = some c') :
    c'.Dropped n := by
  cases o with
  | none =>
    cases hc
    exact h
  | some o => exact h.apply hc

/-! ### The flag -/

/-- Nothing sets `cont` again. -/
theorem cont_of_perform {o : Option Op} (h : c.perform o = some c')
    (hc : c.cont = false) : c'.cont = false := by
  cases o with
  | none => cases h; exact hc
  | some o =>
    cases o with
    | create ok => cases ok <;> cases h <;> exact hc
    | register | install | destroy | clear => cases h; exact hc
    | stop => cases h; rfl
    | handler s =>
      change c.handle s = some c' at h
      cases s <;>
        simp only [handle, Option.ite_none_right_eq_some, Option.some.injEq] at h
      · obtain ⟨-, rfl⟩ := h
        exact hc
      · obtain ⟨-, rfl⟩ := h
        split_ifs
        · rfl
        · exact hc
      · obtain ⟨-, rfl⟩ := h
        exact hc

end Ctx

end Usbws
