import Usbws.Client.Open

/-!
# Notifications of the opener

`client->started` holds the latest notification that a session callback has stored, and 0 before the
first one.

* `Opening.noteOf`, `Opening.lastNote` : the notification that a move stores, and the latest one of
  a run.
* `Opening.started_of_exec` : `client->started` holds that one.
-/

namespace Usbws

/-- What a notification stores is not 0. -/
theorem charOfInt_val_ne_zero (n : Note) : charOfInt n.val ≠ 0 := by cases n <;> decide

/-- The notification that the next statement of a callback stores. -/
def CallbackPc.note : CallbackPc → Option Note
  | store n => some n
  | _ => none

/-- The notification that the next statement of a client thread stores. -/
def ThreadPc.note : ThreadPc → Option Note
  | serving k | closing k => k.note
  | _ => none

/-- What `client->started` holds behind a statement with or without a notification. -/
def noted (c : BitVec 8) (n : Option Note) : BitVec 8 := n.elim c fun n => charOfInt n.val

theorem CallbackPc.started_of_next {i : ℕ} {h h' : Handshake} {k : CallbackPc}
    {k' : Option CallbackPc} {o : Option Ctx.Op} (hk : k.next i h = some (h', k', o)) :
    h'.started = noted h.started k.note := by
  cases k with
  | lock n =>
    obtain ⟨m, -, hr⟩ := Option.map_eq_some_iff.1 hk
    cases hr
    rfl
  | setWsi | clearWsi | stop | cancel | store | signal | unlock => cases hk; rfl

theorem ThreadPc.started_of_next {i : ℕ} {c : Ctx} {h h' : Handshake} {ok : Bool}
    {pc pc' : ThreadPc} {o : Option Ctx.Op} (hk : pc.next i c h ok = some (h', pc', o)) :
    h'.started = noted h.started pc.note := by
  cases pc with
  | serving k | closing k =>
    obtain ⟨r, hr, he⟩ := Option.map_eq_some_iff.1 hk
    cases he
    exact CallbackPc.started_of_next hr
  | absent | returned => cases hk
  | test | service | discontinue | destroyTest | destroy | destroying | clear => cases hk; rfl

theorem OpenerPc.started_of_next {c : Ctx} {h h' : Handshake} {signed ok : Bool}
    {pc pc' : OpenerPc} {o : Option Ctx.Op} (hk : pc.next signed c h ok = some (h', pc', o)) :
    h'.started = h.started := by
  cases pc with
  | waitLock | waitLoop | waitUnlock =>
    obtain ⟨m, -, hr⟩ := Option.map_eq_some_iff.1 hk
    cases hr
    rfl
  | idle | done | spawn => cases hk
  | create | setProxy | connect | calloc | register | install | verdict | freeSock | destroyTest
  | destroy | clear => cases hk; rfl

namespace Opening

/-- The notification that a move stores. -/
def noteOf (m : Move) : Option Note :=
  match m.label with
  | .thread i _ => (m.pre.thread i).note
  | _ => none

/-- The latest notification of a run. -/
def lastNote (tr : List Move) : Option Note := tr.findSome? noteOf

variable {signed : Bool} {p p' : Opening} {l : Label} {tr : List Move} {m : Move}

theorem lastNote_cons : lastNote (m :: tr) = (noteOf m).or (lastNote tr) := by
  simp only [lastNote, List.findSome?_cons]
  cases noteOf m <;> rfl

theorem lastNote_cons_ne_none (h : lastNote tr ≠ none) : lastNote (m :: tr) ≠ none := by
  rw [lastNote_cons]
  cases noteOf m
  · exact h
  · exact Option.some_ne_none _

theorem started_of_step (h : (lts signed).step p l p') :
    p'.shake.started = noted p.shake.started (noteOf ⟨p, l, p'⟩) := by
  cases step_of_next h with
  | thread hr => exact ThreadPc.started_of_next hr
  | opener hr => exact OpenerPc.started_of_next hr
  | call | spawn | spawnFails | callback | handler => rfl

/-- `client->started` holds the latest notification. -/
theorem started_of_exec (he : (lts signed).Exec start tr p) :
    p.shake.started = noted 0 (lastNote tr) := by
  induction he with
  | nil => rfl
  | snoc _ hst ih =>
    rw [started_of_step hst, lastNote_cons, ih]
    cases noteOf _ <;> rfl

theorem lastNote_eq_none_iff (he : (lts signed).Exec start tr p) :
    lastNote tr = none ↔ p.shake.started = 0 := by
  rw [started_of_exec he]
  cases lastNote tr with
  | none => exact iff_of_true rfl rfl
  | some n => exact iff_of_false (Option.some_ne_none n) (charOfInt_val_ne_zero n)

end Opening

end Usbws
