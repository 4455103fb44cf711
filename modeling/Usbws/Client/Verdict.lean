import Usbws.Client.Notes

/-!
# The verdict on an open

The opener leaves its wait loop when `client->started` is not 0, and reads it again, without the
lock, for its verdict.  A stop stores -1, which is 255 where the C type `char` is unsigned, so that
`client->started < 0` is false there.

* `Opening.found`, `Opening.judged` : the latest notification when the opener left its wait loop,
  and when it read `client->started` for its verdict.
* `Opening.verdict_right_iff` : when the verdict is right.
-/

namespace Usbws

/-- What a notification stores is negative only for a stop, and only where `char` is signed. -/
theorem intOfChar_val_neg_iff (signed : Bool) (n : Note) :
    intOfChar signed (charOfInt n.val) < 0 ↔ signed = true ∧ n = .stop := by
  cases signed <;> cases n <;> decide

namespace Opening

/-- The opener leaves its wait loop. -/
def leavesLoop (m : Move) : Bool :=
  decide (m.pre.opener = .waitLoop) && decide (m.post.opener = .waitUnlock)

/-- The opener reads `client->started` for its verdict. -/
def judges (m : Move) : Bool :=
  decide (m.pre.opener = .verdict) && decide (m.post.opener ≠ .verdict)

/-- The latest notification in front of the last move of a kind. -/
def noteAt (kind : Move → Bool) : List Move → Option Note
  | [] => none
  | m :: tr => if kind m then lastNote tr else noteAt kind tr

/-- The latest notification when the opener left its wait loop. -/
def found (tr : List Move) : Option Note := noteAt leavesLoop tr

/-- The latest notification when the opener read `client->started` for its verdict. -/
def judged (tr : List Move) : Option Note := noteAt judges tr

/-- A socket is returned only if the latest notification observed was a start, and NULL if a stop
was observed. -/
def VerdictRight (tr : List Move) (sock : Bool) : Prop :=
  (sock = true → judged tr = some .start) ∧
    (found tr = some .stop ∨ judged tr = some .stop → sock = false)

variable {signed : Bool} {p p' : Opening} {l : Label} {tr : List Move} {m : Move}

/-! ### The opener -/

/-- What the opener has observed at its program points. -/
def Observed (signed : Bool) (tr : List Move) : OpenerPc → Prop
  | .waitUnlock | .verdict => lastNote tr ≠ none ∧ judged tr = none
  | .freeSock => signed = true ∧ judged tr = some .stop
  | .done true => ∃ n, judged tr = some n ∧ (signed = true → n = .start)
  | .done false => found tr = none ∧ judged tr = none ∨ signed = true ∧ judged tr = some .stop
  | _ => found tr = none ∧ judged tr = none

/-- What holds of the first open. -/
structure Watched (signed : Bool) (tr : List Move) (p : Opening) : Prop where
  idle : p.opens = 0 → p.opener = .idle
  observed : p.opens ≤ 1 → Observed signed tr p.opener

theorem noteAt_cons_of_not {kind : Move → Bool} (h : kind m = false) :
    noteAt kind (m :: tr) = noteAt kind tr := by
  simp [noteAt, h]

/-- A move that neither leaves the wait loop nor judges adds nothing to what was observed. -/
theorem Observed.frame {pc : OpenerPc} (h : Observed signed tr pc) (hl : leavesLoop m = false)
    (hj : judges m = false) : Observed signed (m :: tr) pc := by
  have hf : found (m :: tr) = found tr := noteAt_cons_of_not hl
  have hg : judged (m :: tr) = judged tr := noteAt_cons_of_not hj
  cases pc with
  | waitUnlock | verdict => exact ⟨lastNote_cons_ne_none h.1, hg.trans h.2⟩
  | freeSock => exact ⟨h.1, hg.trans h.2⟩
  | done sock => cases sock <;> simpa only [Observed, hf, hg] using h
  | _ => exact ⟨hf.trans h.1, hg.trans h.2⟩

/-- A move that leaves the opener where it is neither leaves the wait loop nor judges. -/
theorem not_leavesLoop_of_eq (h : m.post.opener = m.pre.opener) :
    leavesLoop m = false ∧ judges m = false := by
  simp only [leavesLoop, judges, h]
  cases m.pre.opener <;> exact ⟨rfl, rfl⟩

/-- Only a move from the wait loop leaves it, and only a move from the verdict judges. -/
theorem not_leavesLoop_of_ne (hw : m.pre.opener ≠ .waitLoop) (hv : m.pre.opener ≠ .verdict) :
    leavesLoop m = false ∧ judges m = false := by
  simp [leavesLoop, judges, hw, hv]

/-- A statement of the opener. -/
theorem Observed.next {pc : OpenerPc} {ok : Bool} {c : Ctx} {h : Handshake} {o : Option Ctx.Op}
    (he : (lts signed).Exec start tr p) (hobs : Observed signed tr p.opener)
    (hr : p.opener.next signed c p.shake ok = some (h, pc, o)) (hm : m.pre = p)
    (hpost : m.post.opener = pc) : Observed signed (m :: tr) pc := by
  cases hpc : p.opener with
  | idle | done | spawn => rw [hpc] at hr; cases hr
  | waitLoop =>
    rw [hpc] at hr hobs
    have hj : judges m = false := by simp [judges, hm, hpc]
    obtain ⟨mon, hmon, hr⟩ := Option.map_eq_some_iff.1 hr
    cases hr
    by_cases hs : mon.stage = .inside
    · -- the loop ends, for `client->started` is not 0
      have hne : p.shake.started ≠ 0 := by simpa using Monitor.not_cond_of_inside hmon hs
      rw [if_pos hs]
      exact ⟨lastNote_cons_ne_none (mt (lastNote_eq_none_iff he).1 hne),
        (noteAt_cons_of_not hj).trans hobs.2⟩
    · rw [if_neg hs] at hpost ⊢
      exact Observed.frame hobs (by simp [leavesLoop, hpost]) hj
  | verdict =>
    rw [hpc] at hr hobs
    obtain ⟨n, hn⟩ := Option.ne_none_iff_exists'.1 hobs.1
    have hst := started_of_exec he
    cases hr
    have hjudged : judged (m :: tr) = some n := by
      have hj : judges m = true := by
        simp only [judges, hm, hpc, hpost]
        split_ifs <;> rfl
      simp [judged, noteAt, hj, hn]
    rw [hn] at hst
    split_ifs with hneg
    · rw [hst] at hneg
      obtain ⟨hs, rfl⟩ := (intOfChar_val_neg_iff signed n).1 hneg
      exact ⟨hs, hjudged⟩
    · rw [hst] at hneg
      refine ⟨n, hjudged, fun hs => ?_⟩
      cases n with
      | start => rfl
      | stop => exact absurd ((intOfChar_val_neg_iff signed .stop).2 ⟨hs, rfl⟩) hneg
  | waitUnlock | waitLock =>
    obtain ⟨hl, hj⟩ := not_leavesLoop_of_ne (m := m) (by simp [hm, hpc]) (by simp [hm, hpc])
    rw [hpc] at hr hobs
    obtain ⟨mon, hmon, hr⟩ := Option.map_eq_some_iff.1 hr
    cases hr
    exact Observed.frame hobs hl hj
  | freeSock =>
    obtain ⟨hl, hj⟩ := not_leavesLoop_of_ne (m := m) (by simp [hm, hpc]) (by simp [hm, hpc])
    rw [hpc] at hr hobs
    cases hr
    have hdone : Observed signed tr (.done false) := .inr hobs
    exact hdone.frame hl hj
  | create | destroyTest =>
    obtain ⟨hl, hj⟩ := not_leavesLoop_of_ne (m := m) (by simp [hm, hpc]) (by simp [hm, hpc])
    rw [hpc] at hr hobs
    cases hr
    refine Observed.frame ?_ hl hj
    split_ifs
    · exact hobs
    · exact .inl hobs
  | setProxy | connect | calloc =>
    obtain ⟨hl, hj⟩ := not_leavesLoop_of_ne (m := m) (by simp [hm, hpc]) (by simp [hm, hpc])
    rw [hpc] at hr hobs
    cases hr
    refine Observed.frame ?_ hl hj
    split_ifs <;> exact hobs
  | clear =>
    obtain ⟨hl, hj⟩ := not_leavesLoop_of_ne (m := m) (by simp [hm, hpc]) (by simp [hm, hpc])
    rw [hpc] at hr hobs
    cases hr
    have hdone : Observed signed tr (.done false) := .inl hobs
    exact hdone.frame hl hj
  | register | install | destroy =>
    obtain ⟨hl, hj⟩ := not_leavesLoop_of_ne (m := m) (by simp [hm, hpc]) (by simp [hm, hpc])
    rw [hpc] at hr hobs
    cases hr
    exact Observed.frame hobs hl hj

theorem watched_of_exec (he : (lts signed).Exec start tr p) : Watched signed tr p := by
  induction he with
  | nil => exact ⟨fun _ => rfl, fun _ => ⟨rfl, rfl⟩⟩
  | @snoc tr p p' l hex hst ih =>
    -- a move that leaves the opener alone
    have hkeep : p'.opener = p.opener → p'.opens = p.opens →
        Watched signed (⟨p, l, p'⟩ :: tr) p' := by
      intro ho hn
      obtain ⟨hl, hj⟩ := not_leavesLoop_of_eq (m := ⟨p, l, p'⟩) ho
      exact ⟨fun h => by rw [ho]; exact ih.idle (hn ▸ h),
        fun h => by rw [ho]; exact (ih.observed (hn ▸ h)).frame hl hj⟩
    cases step_of_next hst with
    | thread | callback | handler => exact hkeep rfl rfl
    | call hfree =>
      refine ⟨fun h => by (cases h), fun h => ?_⟩
      -- this is the first call
      have hidle := ih.idle (Nat.le_zero.1 (Nat.le_of_succ_le_succ h))
      have hobs := ih.observed (Nat.le_of_succ_le h)
      rw [hidle] at hobs
      have hcreate : Observed signed tr .create := hobs
      refine hcreate.frame ?_ ?_ <;> simp [leavesLoop, judges, hidle]
    | opener hr hc =>
      refine ⟨fun h => ?_, fun h => Observed.next hex (ih.observed h) hr rfl rfl⟩
      rw [ih.idle h] at hr
      cases hr
    | spawn hpc | spawnFails hpc =>
      refine ⟨fun h => ?_, fun h => ?_⟩
      · rw [ih.idle h] at hpc
        cases hpc
      · have hobs := ih.observed h
        rw [hpc] at hobs
        refine Observed.frame hobs ?_ ?_ <;> simp [leavesLoop, judges, hpc]

/-- **The verdict on a single open is right** exactly if

* the C type `char` is signed, or the latest notification when `client->started` is read for the
  verdict is no stop; and
* a stop that ended the wait loop has not been overwritten by a start then. -/
theorem verdict_right_iff {sock : Bool} (he : (lts signed).Exec start tr p) (hone : p.opens = 1)
    (hd : p.opener = .done sock) : VerdictRight tr sock ↔
      (signed = true ∨ judged tr ≠ some .stop) ∧
        (found tr = some .stop → judged tr = some .stop) := by
  have hobs := (watched_of_exec he).observed (Nat.le_of_eq hone)
  rw [hd] at hobs
  cases sock with
  | false =>
    refine iff_of_true ⟨fun h => by (cases h), fun _ => rfl⟩ ?_
    rcases hobs with ⟨hf, hj⟩ | ⟨hs, hj⟩
    · simp [hf, hj]
    · exact ⟨.inl hs, fun _ => hj⟩
  | true =>
    obtain ⟨n, hj, hn⟩ := hobs
    simp only [VerdictRight, hj, true_implies, Option.some.injEq, Bool.true_eq_false, imp_false,
      not_or]
    cases n with
    | start => simp
    | stop => simpa using fun hs => hn hs

/-- On a platform where `char` is signed a refused connection is reported. -/
theorem verdict_right_of_signed : ∃ tr p, (lts true).Exec start tr p ∧ p.opens = 1 ∧
    p.opener = .done false ∧ judged tr = some .stop ∧ VerdictRight tr false := by
  obtain ⟨tr, p, he, hone, hd, hj⟩ : ∃ tr p, (lts true).Exec start tr p ∧ p.opens = 1 ∧
      p.opener = .done false ∧ judged tr = some .stop :=
    LTS.exists_exec_of_replay
      [.call, .opener true, .opener true, .opener true, .opener true, .opener true, .opener true,
        .spawn true, .thread 0 true, .callback 0 .stop, .thread 0 true, .thread 0 true,
        .thread 0 true, .thread 0 true, .thread 0 true, .thread 0 true, .thread 0 true,
        .opener true, .opener true, .opener true, .opener true, .opener true] _
      (fun _ _ _ h => h) (by decide)
  exact ⟨tr, p, he, hone, hd, hj, (verdict_right_iff he hone hd).2 ⟨.inl rfl, fun _ => hj⟩⟩

/-- Where `char` is unsigned a refused connection is returned as an open socket. -/
theorem not_verdict_right_of_unsigned : ∃ tr p, (lts false).Exec start tr p ∧ p.opens = 1 ∧
    p.opener = .done true ∧ p.shake.started = 255 ∧ found tr = some .stop ∧
    judged tr = some .stop ∧ ¬ VerdictRight tr true := by
  obtain ⟨tr, p, he, hone, hd, hs, hf, hj⟩ : ∃ tr p, (lts false).Exec start tr p ∧ p.opens = 1 ∧
      p.opener = .done true ∧ p.shake.started = 255 ∧ found tr = some .stop ∧
      judged tr = some .stop :=
    LTS.exists_exec_of_replay
      [.call, .opener true, .opener true, .opener true, .opener true, .opener true, .opener true,
        .spawn true, .thread 0 true, .callback 0 .stop, .thread 0 true, .thread 0 true,
        .thread 0 true, .thread 0 true, .thread 0 true, .thread 0 true, .thread 0 true,
        .opener true, .opener true, .opener true, .opener true] _
      (fun _ _ _ h => h) (by decide)
  exact ⟨tr, p, he, hone, hd, hs, hf, hj, fun h => by cases h.2 (.inr hj)⟩

end Opening

end Usbws
