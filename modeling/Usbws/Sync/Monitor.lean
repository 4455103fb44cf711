import Mathlib.Data.Nat.Notation
import Mathlib.Data.Option.Basic
import Mathlib.Tactic.SplitIfs

/-!
# Monitors with one waiter

A lock with a condition variable.  One thread, the *waiter*, runs the loop
`lock; while (cond) wait; ...; unlock`, and any number of *notifiers* `T` lock, signal and unlock.
Waiting gives the lock back and falls asleep in one step, and a signal wakes only a waiter that is
asleep.  A waiter may also wake up without a signal.

* `Stage` : where the waiter is with respect to the lock.
* `Monitor` : the owner of the lock and the stage of the waiter, with the operations on them.
* `Monitor.Ok` : the waiter owns the lock exactly at the stages that say so.
* `Monitor.Waits` : what a step of the waiting thread does to the monitor.
* `Monitor.Runs` : the same for a statement of a function that waits, with its `Place`.
* `Monitor.Uses` : what a step of a notifier does to the monitor.
* `Monitor.Quiet` : the waiter neither sleeps unsignalled nor is about to.

Behind a signal that is given under the lock the monitor is quiet (`Monitor.Ok.signal_quiet`), and
it stays so until the waiter finds its loop condition true again.
-/

namespace Usbws

/-- Who may own the lock of a monitor. -/
inductive Party (T : Type*) where
  | waiter
  | notifier (t : T)
  deriving DecidableEq, Repr

/-- Where the waiter is. -/
inductive Stage where
  /-- Outside of the lock. -/
  | away
  /-- At the test of its loop condition, with the lock. -/
  | testing
  /-- About to wait, with the lock. -/
  | committed
  /-- Asleep and not signalled. -/
  | asleep
  /-- Signalled, but without the lock yet. -/
  | signalled
  /-- Behind its loop, with the lock. -/
  | inside
  deriving DecidableEq, Repr

namespace Stage

/-- The waiter owns the lock. -/
def owns : Stage → Bool
  | testing | committed | inside => true
  | _ => false

/-- The waiter has found its loop condition true and has not been told to test it again. -/
def rests : Stage → Bool
  | committed | asleep => true
  | _ => false

/-- The waiter is in its call of the wait function, or about to call it. -/
def waits : Stage → Bool
  | committed | asleep | signalled => true
  | _ => false

/-- The steps in which a waiter in its loop gets behind it once the loop condition is false; a
sleeping one must wake up first, and one about to wait falls asleep before that. -/
def turns : Stage → ℕ
  | testing => 1
  | committed => 3
  | _ => 2

end Stage

/-- Where a function that waits is with respect to its loop. -/
inductive Place where
  /-- In front of the lock or behind the unlock. -/
  | outside
  /-- In the loop. -/
  | loop
  /-- Behind the loop, with the lock. -/
  | behind
  deriving DecidableEq, Repr

/-- The stages of the waiter at a place of its function. -/
def Place.Ok (st : Stage) : Place → Prop
  | outside => st = .away
  | loop => st = .testing ∨ st.waits = true
  | behind => st = .inside

/-- A function waits only in its loop. -/
theorem Place.Ok.not_waits {st : Stage} {pl : Place} (h : pl.Ok st) (hl : pl ≠ .loop) :
    st.waits = false := by
  cases pl with
  | loop => exact absurd rfl hl
  | outside | behind => rw [show st = _ from h]; rfl

/-- A lock with a condition variable and its waiter. -/
structure Monitor (T : Type*) where
  /-- The owner of the lock. -/
  owner : Option (Party T)
  /-- The stage of the waiter. -/
  stage : Stage
  deriving DecidableEq, Repr

namespace Monitor

variable {T : Type*}

/-- A free lock, and the waiter outside. -/
def free : Monitor T := ⟨none, .away⟩

/-! ### Notifiers -/

/-- A notifier takes the lock, if it is free. -/
def lock (m : Monitor T) (t : T) : Option (Monitor T) :=
  if m.owner.isNone then some { m with owner := some (.notifier t) } else none

/-- The lock is given back. -/
def unlock (m : Monitor T) : Monitor T := { m with owner := none }

/-- A signal wakes the waiter if it is asleep, and is lost otherwise. -/
def signal (m : Monitor T) : Monitor T :=
  { m with stage := if m.stage = .asleep then .signalled else m.stage }

/-! ### The waiter -/

/-- The waiter takes the lock, if it is free. -/
def enter (m : Monitor T) : Option (Monitor T) :=
  if m.stage = .away ∧ m.owner.isNone then some ⟨some .waiter, .testing⟩ else none

/-- The waiter evaluates its loop condition. -/
def test (m : Monitor T) (cond : Bool) : Option (Monitor T) :=
  if m.stage = .testing then some { m with stage := if cond then .committed else .inside } else none

/-- The waiter falls asleep and gives the lock back. -/
def sleep (m : Monitor T) : Option (Monitor T) :=
  if m.stage = .committed then some ⟨none, .asleep⟩ else none

/-- The wait function returns with the lock. -/
def wake (m : Monitor T) : Option (Monitor T) :=
  if (m.stage = .asleep ∨ m.stage = .signalled) ∧ m.owner.isNone then some ⟨some .waiter, .testing⟩
  else none

/-- The waiter gives the lock back behind its loop. -/
def leave (m : Monitor T) : Option (Monitor T) :=
  if m.stage = .inside then some ⟨none, .away⟩ else none

/-- The next step of the waiter in its loop. -/
def turn (m : Monitor T) (cond : Bool) : Option (Monitor T) :=
  match m.stage with
  | .testing => m.test cond
  | .committed => m.sleep
  | _ => m.wake

/-! ### Ownership -/

/-- The waiter owns the lock exactly at the stages that say so. -/
def Ok (m : Monitor T) : Prop := m.owner = some .waiter ↔ m.stage.owns = true

/-- The waiter neither sleeps unsignalled nor is about to. -/
def Quiet (m : Monitor T) : Prop := m.stage.rests = false

/-- The steps of the waiter. -/
inductive Moves (m : Monitor T) : Monitor T → Prop
  | enter : m.stage = .away → m.owner = none → Moves m ⟨some .waiter, .testing⟩
  | commit : m.stage = .testing → Moves m { m with stage := .committed }
  | go : m.stage = .testing → Moves m { m with stage := .inside }
  | sleep : m.stage = .committed → Moves m ⟨none, .asleep⟩
  | wake : m.stage = .asleep ∨ m.stage = .signalled → m.owner = none →
      Moves m ⟨some .waiter, .testing⟩
  | leave : m.stage = .inside → Moves m ⟨none, .away⟩

variable {m m' : Monitor T} {t : T}

theorem lock_eq_some (h : m.lock t = some m') :
    m.owner = none ∧ m' = { m with owner := some (.notifier t) } := by
  simp only [lock, Option.ite_none_right_eq_some, Option.isNone_iff_eq_none, Option.some.injEq] at h
  exact ⟨h.1, h.2.symm⟩

theorem moves_of_enter (h : m.enter = some m') : m.Moves m' := by
  simp only [enter, Option.ite_none_right_eq_some, Option.isNone_iff_eq_none,
    Option.some.injEq] at h
  obtain ⟨⟨hs, ho⟩, rfl⟩ := h
  exact .enter hs ho

theorem test_eq_some {cond : Bool} (h : m.test cond = some m') : m.stage = .testing ∧
    m' = { m with stage := if cond then .committed else .inside } := by
  simp only [test, Option.ite_none_right_eq_some, Option.some.injEq] at h
  exact ⟨h.1, h.2.symm⟩

theorem moves_of_test {cond : Bool} (h : m.test cond = some m') : m.Moves m' := by
  obtain ⟨hs, rfl⟩ := test_eq_some h
  cases cond
  · exact .go hs
  · exact .commit hs

theorem moves_of_sleep (h : m.sleep = some m') : m.Moves m' := by
  simp only [sleep, Option.ite_none_right_eq_some, Option.some.injEq] at h
  obtain ⟨hs, rfl⟩ := h
  exact .sleep hs

theorem moves_of_wake (h : m.wake = some m') : m.Moves m' := by
  simp only [wake, Option.ite_none_right_eq_some, Option.isNone_iff_eq_none, Option.some.injEq] at h
  obtain ⟨⟨hs, ho⟩, rfl⟩ := h
  exact .wake hs ho

theorem moves_of_leave (h : m.leave = some m') : m.Moves m' := by
  simp only [leave, Option.ite_none_right_eq_some, Option.some.injEq] at h
  obtain ⟨hs, rfl⟩ := h
  exact .leave hs

theorem moves_of_turn {cond : Bool} (h : m.turn cond = some m') : m.Moves m' := by
  unfold turn at h
  split at h
  · exact moves_of_test h
  · exact moves_of_sleep h
  · exact moves_of_wake h

/-- What a step in the loop does: it evaluates the loop condition, or it goes on to sleep or to the
next test. -/
theorem turn_cases {cond : Bool} (h : m.turn cond = some m') :
    m.stage = .testing ∧ m'.stage = (if cond then .committed else .inside) ∨
      m'.stage = .asleep ∨ m'.stage = .testing := by
  unfold turn at h
  split at h
  · obtain ⟨hs, rfl⟩ := test_eq_some h
    exact .inl ⟨hs, rfl⟩
  · simp only [sleep, Option.ite_none_right_eq_some, Option.some.injEq] at h
    rw [← h.2]
    exact .inr (.inl rfl)
  · simp only [wake, Option.ite_none_right_eq_some, Option.some.injEq] at h
    rw [← h.2]
    exact .inr (.inr rfl)

/-- The waiter decides to wait only if its loop condition is true. -/
theorem cond_of_committed {cond : Bool} (h : m.turn cond = some m') (hc : m'.stage = .committed) :
    cond = true := by
  rcases turn_cases h with ⟨-, hs⟩ | hs | hs
  · rw [hc] at hs
    by_contra hn
    simp [hn] at hs
  all_goals rw [hc] at hs; cases hs

/-- The waiter goes on only if its loop condition is false. -/
theorem not_cond_of_inside {cond : Bool} (h : m.turn cond = some m') (hi : m'.stage = .inside) :
    cond = false := by
  rcases turn_cases h with ⟨-, hs⟩ | hs | hs
  · rw [hi] at hs
    by_contra hn
    simp [hn] at hs
  all_goals rw [hi] at hs; cases hs

/-- Where a step in the loop leads. -/
theorem stage_of_turn {cond : Bool} (h : m.turn cond = some m') :
    m'.stage = .inside ∨ m'.stage = .testing ∨ m'.stage.waits = true := by
  rcases turn_cases h with ⟨-, hs⟩ | hs | hs
  · cases cond
    · exact .inl hs
    · exact .inr (.inr (by rw [hs]; rfl))
  · exact .inr (.inr (by rw [hs]; rfl))
  · exact .inr (.inl hs)

/-- With a false loop condition a step in the loop is one of those that the waiter has left. -/
theorem turns_of_turn (h : m.turn false = some m') :
    m'.stage = .inside ∧ m.stage.turns = 1 ∨
      m'.stage ≠ .inside ∧ m'.stage.turns + 1 = m.stage.turns := by
  unfold turn at h
  split at h
  · rename_i hs
    rw [(test_eq_some h).2, hs]
    exact .inl ⟨rfl, rfl⟩
  · rename_i hs
    simp only [sleep, Option.ite_none_right_eq_some, Option.some.injEq] at h
    rw [← h.2, hs]
    exact .inr ⟨nofun, rfl⟩
  · simp only [wake, Option.ite_none_right_eq_some, Option.some.injEq] at h
    obtain ⟨⟨hs | hs, -⟩, rfl⟩ := h
    all_goals rw [hs]; exact .inr ⟨nofun, rfl⟩

theorem free_ok : (free : Monitor T).Ok := by simp [Ok, free, Stage.owns]

/-- Where somebody else owns the lock, or nobody, the waiter is at no stage with the lock. -/
theorem Ok.not_owns (h : m.Ok) (ho : m.owner ≠ some .waiter) : m.stage.owns = false := by
  by_contra hn
  exact ho (h.2 (by simpa using hn))

theorem Ok.lock (h : m.Ok) (hm : m.lock t = some m') : m'.Ok := by
  obtain ⟨ho, rfl⟩ := lock_eq_some hm
  have hs := h.not_owns (by simp [ho])
  simp [Ok, hs]

/-- A notifier gives back a lock that it owns. -/
theorem Ok.unlock (h : m.Ok) (ho : m.owner = some (.notifier t)) : m.unlock.Ok := by
  have hs := h.not_owns (by simp [ho])
  simp [Ok, Monitor.unlock, hs]

theorem Ok.signal (h : m.Ok) : m.signal.Ok := by
  simp only [Ok, Monitor.signal] at h ⊢
  split_ifs with hs
  · rw [h, hs]
    rfl
  · exact h

theorem Ok.moves (h : m.Ok) (hm : m.Moves m') : m'.Ok := by
  cases hm with
  | enter | wake => exact iff_of_true rfl rfl
  | commit hs | go hs => exact iff_of_true (h.2 (by rw [hs]; rfl)) rfl
  | sleep | leave => simp [Ok, Stage.owns]

/-- The waiter takes the lock from no notifier. -/
theorem Moves.owner (hm : m.Moves m') (h : m.Ok) (ho : m.owner = some (.notifier t)) :
    m'.owner = some (.notifier t) := by
  have hw := h.not_owns (by simp [ho])
  cases hm with
  | enter _ hnone | wake _ hnone => rw [ho] at hnone; cases hnone
  | commit | go => exact ho
  | sleep hs | leave hs => rw [hs] at hw; cases hw

/-- The waiter hands the lock to no notifier. -/
theorem Moves.owner_of (hm : m.Moves m') (ho : m'.owner = some (.notifier t)) :
    m.owner = some (.notifier t) := by
  cases hm with
  | enter | sleep | wake | leave => cases ho
  | commit | go => exact ho

/-! ### Steps of the waiting thread -/

/-- What a step of the waiting thread does to its monitor; it decides to wait only if `cond`
holds. -/
inductive Waits (m m' : Monitor T) (cond : Prop) : Prop
  | keep : m' = m → Waits m m' cond
  | move : m.Moves m' → (m'.stage = .committed → cond) → Waits m m' cond

section Waits

variable {cond : Prop}

theorem Waits.of_turn {b : Bool} (h : m.turn b = some m') (hb : b = true → cond) :
    m.Waits m' cond :=
  .move (moves_of_turn h) fun hc => hb (cond_of_committed h hc)

theorem Waits.of_enter (h : m.enter = some m') : m.Waits m' cond := by
  refine .move (moves_of_enter h) fun hc => ?_
  simp only [enter, Option.ite_none_right_eq_some, Option.some.injEq] at h
  rw [← h.2] at hc
  cases hc

theorem Waits.of_leave (h : m.leave = some m') : m.Waits m' cond := by
  refine .move (moves_of_leave h) fun hc => ?_
  simp only [leave, Option.ite_none_right_eq_some, Option.some.injEq] at h
  rw [← h.2] at hc
  cases hc

theorem Waits.ok (h : m.Waits m' cond) (hok : m.Ok) : m'.Ok := by
  cases h with
  | keep hm => exact hm ▸ hok
  | move hm => exact hok.moves hm

theorem Waits.owner (h : m.Waits m' cond) (hok : m.Ok) (ho : m.owner = some (.notifier t)) :
    m'.owner = some (.notifier t) := by
  cases h with
  | keep hm => exact hm ▸ ho
  | move hm => exact hm.owner hok ho

theorem Waits.owner_iff (h : m.Waits m' cond) (hok : m.Ok) :
    m'.owner = some (.notifier t) ↔ m.owner = some (.notifier t) := by
  refine ⟨fun ho => ?_, h.owner hok⟩
  cases h with
  | keep hm => exact hm ▸ ho
  | move hm => exact hm.owner_of ho

end Waits

/-! ### Functions that wait -/

/-- A statement of a function that waits while `cond` holds: it leaves the monitor alone, or it is
the one that the place of the function asks for. -/
inductive Runs (cond : Prop) : Monitor T → Place → Monitor T → Place → Prop
  | keep {m : Monitor T} {pl : Place} : Runs cond m pl m pl
  | enter {m m' : Monitor T} : m.enter = some m' → Runs cond m .outside m' .loop
  | turn {m m' : Monitor T} {b : Bool} : m.turn b = some m' → (b = true → cond) →
      Runs cond m .loop m' (if m'.stage = .inside then .behind else .loop)
  | leave {m m' : Monitor T} : m.leave = some m' → Runs cond m .behind m' .outside

section Runs

variable {cond : Prop} {pl pl' : Place}

theorem Runs.waits (h : Runs cond m pl m' pl') : m.Waits m' cond := by
  cases h with
  | keep => exact .keep rfl
  | enter hm => exact .of_enter hm
  | turn hm hb => exact .of_turn hm hb
  | leave hm => exact .of_leave hm

theorem Runs.ok (h : Runs cond m pl m' pl') (hok : pl.Ok m.stage) : pl'.Ok m'.stage := by
  cases h with
  | keep => exact hok
  | enter hm =>
    simp only [Monitor.enter, Option.ite_none_right_eq_some, Option.some.injEq] at hm
    rw [← hm.2]
    exact .inl rfl
  | turn hm =>
    split_ifs with hs
    · exact hs
    · exact (stage_of_turn hm).resolve_left hs
  | leave hm =>
    simp only [Monitor.leave, Option.ite_none_right_eq_some, Option.some.injEq] at hm
    rw [← hm.2]
    rfl

end Runs

/-! ### Sections of a notifier -/

/-- What a step of the notifier `t` does to a monitor; `holds` and `holds'` say whether the notifier
is at a program point inside of the lock before and after it. -/
inductive Uses (t : T) (m m' : Monitor T) (holds holds' : Bool) : Prop
  | keep : m' = m → holds' = holds → Uses t m m' holds holds'
  | lock : m.lock t = some m' → Uses t m m' holds holds'
  | signal : holds = true → holds' = true → m' = m.signal → Uses t m m' holds holds'
  | unlock : holds = true → holds' = false → m' = m.unlock → Uses t m m' holds holds'

section Uses

variable {holds holds' : Bool}

theorem Uses.owner (h : Uses t m m' holds holds')
    (ho : holds = true → m.owner = some (.notifier t)) (hh : holds' = true) :
    m'.owner = some (.notifier t) := by
  cases h with
  | keep hm hs => exact hm ▸ ho (hs ▸ hh)
  | lock hm => rw [(lock_eq_some hm).2]
  | signal hs _ hm => rw [hm]; exact ho hs
  | unlock _ hs => rw [hs] at hh; cases hh

/-- A notifier takes the lock from no other one. -/
theorem Uses.frame (h : Uses t m m' holds holds') {t' : T} (ht : t' ≠ t)
    (ho : holds = true → m.owner = some (.notifier t)) (ho' : m.owner = some (.notifier t')) :
    m'.owner = some (.notifier t') := by
  cases h with
  | keep hm => rw [hm]; exact ho'
  | lock hm => rw [(lock_eq_some hm).1] at ho'; cases ho'
  | signal _ _ hm => rw [hm]; exact ho'
  | unlock hs =>
    rw [ho hs, Option.some.injEq, Party.notifier.injEq] at ho'
    exact absurd ho'.symm ht

theorem Uses.owner_iff (h : Uses t m m' holds holds') {t' : T} (ht : t' ≠ t)
    (ho : holds = true → m.owner = some (.notifier t)) :
    m'.owner = some (.notifier t') ↔ m.owner = some (.notifier t') := by
  refine ⟨fun ho' => ?_, h.frame ht ho⟩
  cases h with
  | keep hm => exact hm ▸ ho'
  | lock hm =>
    rw [(lock_eq_some hm).2, Option.some.injEq, Party.notifier.injEq] at ho'
    exact absurd ho'.symm ht
  | signal _ _ hm => rw [hm] at ho'; exact ho'
  | unlock _ _ hm => rw [hm] at ho'; cases ho'

/-- A notifier takes the lock from the waiter neither. -/
theorem Uses.waiter (h : Uses t m m' holds holds')
    (ho : holds = true → m.owner = some (.notifier t)) (hw : m.owner = some .waiter) :
    m'.owner = some .waiter := by
  cases h with
  | keep hm => exact hm ▸ hw
  | lock hm => rw [(lock_eq_some hm).1] at hw; cases hw
  | signal _ _ hm => rw [hm]; exact hw
  | unlock hs => rw [ho hs] at hw; cases hw

/-- A notifier leaves the waiter at its stage, or wakes it. -/
theorem Uses.stage (h : Uses t m m' holds holds') :
    m'.stage = m.stage ∨ m.stage = .asleep ∧ m'.stage = .signalled := by
  cases h with
  | keep hm => rw [hm]; exact .inl rfl
  | lock hm => rw [(lock_eq_some hm).2]; exact .inl rfl
  | unlock _ _ hm => rw [hm]; exact .inl rfl
  | signal _ _ hm =>
    rw [hm, Monitor.signal]
    split_ifs with hs
    · exact .inr ⟨hs, rfl⟩
    · exact .inl rfl

/-- A waiter that is woken is in its loop, and stays there. -/
theorem Uses.place {pl : Place} (h : Uses t m m' holds holds') (hok : pl.Ok m.stage) :
    pl.Ok m'.stage := by
  rcases h.stage with hs | ⟨hs, hs'⟩
  · rwa [hs]
  · cases pl with
    | loop => exact .inr (by rw [hs']; rfl)
    | outside | behind => rw [show m.stage = _ from hok] at hs; cases hs

theorem Uses.ok (h : Uses t m m' holds holds')
    (ho : holds = true → m.owner = some (.notifier t)) (hok : m.Ok) : m'.Ok := by
  cases h with
  | keep hm => exact hm ▸ hok
  | lock hm => exact hok.lock hm
  | signal _ _ hm => exact hm ▸ hok.signal
  | unlock hs _ hm => exact hm ▸ hok.unlock (ho hs)

end Uses

/-! ### Quiet monitors -/

/-- **A signal under the lock** leaves the monitor quiet: the waiter is not between its test and its
call of the wait function, for there it owns the lock. -/
theorem Ok.signal_quiet (h : m.Ok) (ho : m.owner = some (.notifier t)) : m.signal.Quiet := by
  have hw := h.not_owns (by simp [ho])
  simp only [Quiet, Monitor.signal]
  split_ifs with ha
  · rfl
  · cases hs : m.stage with
    | testing | committed | inside => rw [hs] at hw; cases hw
    | asleep => exact absurd hs ha
    | away | signalled => rfl

theorem Quiet.signal (h : m.Quiet) : m.signal.Quiet := by
  simp only [Quiet, Monitor.signal] at h ⊢
  split_ifs
  · rfl
  · exact h

/-- No notifier disturbs a quiet monitor. -/
theorem Uses.quiet {holds holds' : Bool} (h : Uses t m m' holds holds') (hq : m.Quiet) :
    m'.Quiet := by
  cases h with
  | keep hm => exact hm ▸ hq
  | lock hm => rw [(lock_eq_some hm).2]; exact hq
  | signal _ _ hm => exact hm ▸ hq.signal
  | unlock _ _ hm => exact hm ▸ hq

/-- A quiet monitor stays so until the waiter finds its loop condition true. -/
theorem Moves.quiet (hm : m.Moves m') (h : m'.stage ≠ .committed) (hq : m.Quiet) : m'.Quiet := by
  cases hm with
  | commit => exact absurd rfl h
  | sleep hs => rw [Quiet, hs] at hq; cases hq
  | enter | go | wake | leave => rfl

theorem Waits.quiet {cond : Prop} (h : m.Waits m' cond) (hc : ¬ cond) (hq : m.Quiet) :
    m'.Quiet := by
  cases h with
  | keep hm => exact hm ▸ hq
  | move hm hcond => exact hm.quiet (fun hn => hc (hcond hn)) hq

/-! ### Waiters that do not wait -/

/-- Unless it finds its loop condition true, a waiter that does not wait goes on like that. -/
theorem Waits.not_waits {cond : Prop} (h : m.Waits m' cond) (hc : ¬ cond)
    (hw : m.stage.waits = false) : m'.stage.waits = false := by
  cases h with
  | keep hm => exact hm ▸ hw
  | move hm hcond =>
    cases hm with
    | commit => exact absurd (hcond rfl) hc
    | sleep hs => rw [hs] at hw; cases hw
    | enter | go | wake | leave => rfl

/-- No notifier makes the waiter wait. -/
theorem Uses.not_waits {holds holds' : Bool} (h : Uses t m m' holds holds')
    (hw : m.stage.waits = false) : m'.stage.waits = false := by
  cases h with
  | keep hm => exact hm ▸ hw
  | lock hm => rw [(lock_eq_some hm).2]; exact hw
  | unlock _ _ hm => exact hm ▸ hw
  | signal _ _ hm =>
    rw [hm, Monitor.signal]
    split_ifs with hs
    · rw [hs] at hw
      cases hw
    · exact hw

end Monitor

end Usbws
