import Mathlib.Data.Fintype.Basic
import Mathlib.Logic.Function.Basic
import Usbws.Sync.Monitor

/-!
# Monitors with many waiters

A lock with a condition variable on which any number of waiters `U` may wait, and with notifiers
`N`.  Each waiter sees a monitor with one waiter, itself, for which all the others are notifiers,
and so do the notifiers: a signal is a step of the monitor of the waiter that it wakes.

* `Crowd` : the owner of the lock and the stages of the waiters.
* `Crowd.view`, `Crowd.put` : the monitor that a waiter sees, and what a step of it makes of the
  lock.
* `Crowd.Ok` : a waiter owns the lock exactly at the stages that say so.
* `Crowd.Ok.waits`, `Crowd.Ok.uses` : a step of a waiter or of a notifier keeps that, and takes the
  lock from nobody.
-/

namespace Usbws

/-- A lock with a condition variable, the waiters `U` and the notifiers `N`. -/
structure Crowd (U N : Type*) where
  /-- The owner of the lock. -/
  owner : Option (U ⊕ N)
  /-- Where the waiters are. -/
  stage : U → Stage

namespace Crowd

variable {U N : Type*} [DecidableEq U]

/-- A free lock without waiters. -/
def free : Crowd U N := ⟨none, fun _ => .away⟩

/-- The lock as the waiter `u` sees it, for which all the others are notifiers; without a waiter
there are only notifiers. -/
def view (k : Crowd U N) : Option U → Monitor (U ⊕ N)
  | some u =>
    ⟨k.owner.map fun w => if w.elim (fun v => decide (v = u)) (fun _ => false) then .waiter
      else .notifier w, k.stage u⟩
  | none => ⟨k.owner.map .notifier, .away⟩

/-- What a step that the waiter `u` sees makes of the lock. -/
def put (k : Crowd U N) (u : Option U) (m : Monitor (U ⊕ N)) : Crowd U N where
  owner := m.owner.bind fun
    | .waiter => u.map .inl
    | .notifier w => some w
  stage := u.elim k.stage fun u => Function.update k.stage u m.stage

/-- A signal may wake `u` : one of the sleeping waiters, and nobody if there is none. -/
def hears [Fintype U] (k : Crowd U N) : Option U → Bool
  | some u => decide (k.stage u = .asleep)
  | none => decide (∀ u, k.stage u ≠ .asleep)

/-- A waiter owns the lock exactly at the stages that say so. -/
def Ok (k : Crowd U N) : Prop := ∀ u, k.owner = some (.inl u) ↔ (k.stage u).owns = true

omit [DecidableEq U] in
theorem free_ok : (free : Crowd U N).Ok := fun _ => by simp [free, Stage.owns]

variable {k : Crowd U N} {m : Monitor (U ⊕ N)} {u : Option U} {v : U} {w : U ⊕ N}

/-! ### The owner of a view -/

theorem view_owner_eq_waiter :
    (k.view (some v)).owner = some .waiter ↔ k.owner = some (.inl v) := by
  simp only [view, Option.map_eq_some_iff]
  constructor
  · rintro ⟨_ | w, ho, hw⟩
    · split_ifs at hw with hv
      rw [ho, of_decide_eq_true hv]
    · cases hw
  · exact fun ho => ⟨.inl v, ho, by simp⟩

theorem view_owner_eq_notifier :
    (k.view u).owner = some (.notifier w) ↔ k.owner = some w ∧ ∀ v, u = some v → w ≠ .inl v := by
  cases u with
  | none => simp [view]
  | some v =>
    simp only [view, Option.map_eq_some_iff, Option.some.injEq, forall_eq']
    constructor
    · rintro ⟨w', ho, hw⟩
      split_ifs at hw with hv
      cases hw
      exact ⟨ho, fun hn => hv (by rw [hn]; simp)⟩
    · rintro ⟨ho, hw⟩
      refine ⟨w, ho, if_neg fun hv => ?_⟩
      rcases w with v' | n
      · exact hw (congrArg Sum.inl (of_decide_eq_true hv))
      · cases hv

theorem view_ok (h : k.Ok) : (k.view (some v)).Ok := view_owner_eq_waiter.trans (h v)

theorem put_owner_eq_some : (k.put u m).owner = some w ↔
    m.owner = some (.notifier w) ∨ m.owner = some .waiter ∧ ∃ v, u = some v ∧ w = .inl v := by
  cases ho : m.owner with
  | none => simp [put, ho]
  | some o =>
    cases o with
    | waiter => simp [put, ho, eq_comm]
    | notifier w' => simp [put, ho]

theorem put_stage_of_ne (hu : u ≠ some v) : (k.put u m).stage v = k.stage v := by
  cases u with
  | none => rfl
  | some u => exact Function.update_of_ne (fun hn => hu (by rw [hn])) _ _

@[simp] theorem put_stage_self : (k.put (some v) m).stage v = m.stage := Function.update_self ..

@[simp] theorem put_view (k : Crowd U N) (u : Option U) : k.put u (k.view u) = k := by
  have ho : (k.put u (k.view u)).owner = k.owner := by
    ext w
    rw [put_owner_eq_some, view_owner_eq_notifier]
    constructor
    · rintro (⟨hw, -⟩ | ⟨hw, v, rfl, rfl⟩)
      · exact hw
      · exact view_owner_eq_waiter.1 hw
    · intro hw
      by_cases hv : ∀ v, u = some v → w ≠ .inl v
      · exact .inl ⟨hw, hv⟩
      · push Not at hv
        obtain ⟨v, rfl, rfl⟩ := hv
        exact .inr ⟨view_owner_eq_waiter.2 hw, v, rfl, rfl⟩
  have hs : (k.put u (k.view u)).stage = k.stage := by
    cases u with
    | none => rfl
    | some u => exact Function.update_eq_self u k.stage
  cases k
  rw [Crowd.mk.injEq]
  exact ⟨ho, hs⟩

/-! ### Steps -/

/-- What a step must leave to the other parties for `Ok` to hold behind it. -/
theorem Ok.put (h : k.Ok) (hm : ∀ v, u = some v → m.Ok)
    (ho : ∀ v, m.owner = some (.notifier (.inl v)) ↔
      (k.view u).owner = some (.notifier (.inl v))) : (k.put u m).Ok := by
  intro v
  rw [put_owner_eq_some, ho v, view_owner_eq_notifier]
  by_cases hu : u = some v
  · subst hu
    simpa [Monitor.Ok] using hm v rfl
  · rw [put_stage_of_ne hu, ← h v]
    constructor
    · rintro (⟨hk, -⟩ | ⟨-, v', rfl, hv⟩)
      · exact hk
      · exact absurd (by rw [Sum.inl.inj hv]) hu
    · exact fun hk => .inl ⟨hk, fun v' hv' hn => hu (by rw [hv', Sum.inl.inj hn])⟩

/-- **A step of a waiter.** -/
theorem Ok.waits (h : k.Ok) {c : Prop} (hw : (k.view (some v)).Waits m c) :
    (k.put (some v) m).Ok ∧
      ∀ w, w ≠ .inl v → k.owner = some w → (k.put (some v) m).owner = some w := by
  refine ⟨h.put (fun _ _ => hw.ok (view_ok h)) fun v' => hw.owner_iff (view_ok h),
    fun w hne ho => put_owner_eq_some.2 (.inl ?_)⟩
  refine hw.owner (view_ok h) (view_owner_eq_notifier.2 ⟨ho, fun v' hv => ?_⟩)
  cases hv
  exact hne

/-- **A step of a notifier**, seen by the waiter whom its signal wakes. -/
theorem Ok.uses (h : k.Ok) {n : N} {holds holds' : Bool}
    (hu : Monitor.Uses (.inr n) (k.view u) m holds holds')
    (hn : holds = true → k.owner = some (.inr n)) : (k.put u m).Ok ∧
      (holds' = true → (k.put u m).owner = some (.inr n)) ∧
      ∀ w, w ≠ .inr n → k.owner = some w → (k.put u m).owner = some w := by
  have hv : holds = true → (k.view u).owner = some (.notifier (.inr n)) := fun hh =>
    view_owner_eq_notifier.2 ⟨hn hh, fun _ _ => nofun⟩
  refine ⟨h.put (fun v hv' => ?_) fun v => hu.owner_iff nofun hv,
    fun hh => put_owner_eq_some.2 (.inl (hu.owner hv hh)), fun w hne ho => ?_⟩
  · subst hv'
    exact hu.ok hv (view_ok h)
  · rw [put_owner_eq_some]
    by_cases hw : ∀ v, u = some v → w ≠ .inl v
    · exact .inl (hu.frame hne hv (view_owner_eq_notifier.2 ⟨ho, hw⟩))
    · push Not at hw
      obtain ⟨v, rfl, rfl⟩ := hw
      exact .inr ⟨hu.waiter hv (view_owner_eq_waiter.2 ho), v, rfl, rfl⟩

/-- A signal leaves the waiters at their stages, or wakes one that sleeps. -/
theorem stage_of_uses {n : N} {holds holds' : Bool}
    (hu : Monitor.Uses (.inr n) (k.view u) m holds holds') (v : U) :
    (k.put u m).stage v = k.stage v ∨
      k.stage v = .asleep ∧ (k.put u m).stage v = .signalled := by
  by_cases hv : u = some v
  · subst hv
    rw [put_stage_self]
    exact hu.stage
  · exact .inl (put_stage_of_ne hv)

/-- A signal leaves to the waiters the turns that they have left. -/
theorem turns_of_uses {n : N} {holds holds' : Bool}
    (hu : Monitor.Uses (.inr n) (k.view u) m holds holds') (v : U) :
    ((k.put u m).stage v).turns = (k.stage v).turns := by
  rcases stage_of_uses hu v with hs | ⟨hs, hs'⟩
  · rw [hs]
  · rw [hs, hs']
    rfl

/-- A signal leaves the waiters at the places of their functions. -/
theorem place_of_uses {n : N} {holds holds' : Bool} {pl : Place}
    (hu : Monitor.Uses (.inr n) (k.view u) m holds holds') (hp : pl.Ok (k.stage v)) :
    pl.Ok ((k.put u m).stage v) := by
  by_cases hv : u = some v
  · subst hv
    rw [put_stage_self]
    exact hu.place hp
  · rwa [put_stage_of_ne hv]

end Crowd

end Usbws
