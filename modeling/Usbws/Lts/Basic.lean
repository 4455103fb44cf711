import Mathlib.Algebra.GroupWithZero.Nat
import Mathlib.Data.Nat.Notation
import Mathlib.Logic.Relation

/-!
# Labelled transition systems and their runs

The threads, callbacks and library events of a concurrent program are modelled as a *labelled
transition system* (LTS).  A run is kept with its whole history, newest move first, so that a
statement can speak about what happened earlier (`m ∈ tr`), about the state before a move
(`m.pre`) and about the order of two moves (`List.Pairwise`).

## Main definitions

* `LTS S L` : the labelled steps of a program with states `S`.
* `LTS.Move S L` : one executed step with the states around it.
* `LTS.Exec A s₀ tr s` : the run `tr` leads from `s₀` to `s`.
* `LTS.Preceded` : every move of a kind comes behind a history with a property.
* `LTS.project` : what one component of a composed system sees of a run.
* `LTS.ofNext` : the system of a partial, executable successor function; `LTS.replay` executes a
  list of labels in it.

## Main results

* `LTS.Exec.invariant` : a predicate kept by every step holds at the end of every run.
* `LTS.Exec.invariant_of_moves` : the same for the runs whose moves all meet a condition, which
  the step lemma may then use.
* `LTS.Exec.forall_moves` : an invariant holds around every move of a run.
* `LTS.Exec.forall_of_last` : what no step establishes and holds in the end has always held.
* `LTS.Exec.countP_add_rank_le` : a rank bounds the number of the moves that make it smaller.
* `LTS.Exec.countP_add_rank_eq` : accounts of what moves add to a rank and take from it.
* `LTS.Exec.project`, `LTS.Exec.project_of_moves` : a component sees a run of its own.
* `LTS.Exec.simulate` : if each step of a system can be followed by another one, so can its runs.
* `LTS.exec_of_replay`, `LTS.exists_exec_of_replay` : what `replay` computes is a run.
-/

namespace Usbws

/-- The possible steps of a program, each with a label that says who makes it and how. -/
structure LTS (S L : Type*) where
  /-- The label leads from the first state to the second one. -/
  step : S → L → S → Prop

namespace LTS

variable {S L : Type*}

/-- One executed step: its label and the states before and after it. -/
structure Move (S L : Type*) where
  /-- The state before the step. -/
  pre : S
  /-- The label performed. -/
  label : L
  /-- The state after the step. -/
  post : S

/-- `A.Exec s₀ tr s` : the moves `tr`, newest first, lead from `s₀` to `s`. -/
inductive Exec (A : LTS S L) (s₀ : S) : List (Move S L) → S → Prop
  | nil : Exec A s₀ [] s₀
  | snoc {tr : List (Move S L)} {s s' : S} {l : L} :
      Exec A s₀ tr s → A.step s l s' → Exec A s₀ (⟨s, l, s'⟩ :: tr) s'

variable {A : LTS S L} {s₀ s : S} {tr : List (Move S L)}

namespace Exec

/-- A run may be continued by another one. -/
theorem append {s₁ s₂ : S} {tr₁ tr₂ : List (Move S L)} (h : A.Exec s₀ tr₁ s₁)
    (h' : A.Exec s₁ tr₂ s₂) : A.Exec s₀ (tr₂ ++ tr₁) s₂ := by
  induction h' with
  | nil => exact h
  | snoc _ hst ih => exact ih.snoc hst

/-- **Invariants of conditioned runs.**  If every move of a run meets `C`, a predicate that
holds initially and is kept by the steps meeting `C` holds at the end of the run. -/
theorem invariant_of_moves {C : Move S L → Prop} {I : S → Prop} (h : A.Exec s₀ tr s)
    (hC : ∀ m ∈ tr, C m) (h₀ : I s₀)
    (hstep : ∀ s l s', I s → A.step s l s' → C ⟨s, l, s'⟩ → I s') : I s := by
  induction h with
  | nil => exact h₀
  | snoc _ hst ih =>
    rw [List.forall_mem_cons] at hC
    exact hstep _ _ _ (ih hC.2) hst hC.1

/-- What no step establishes and holds at the end of a run has held around every move of it. -/
theorem forall_of_last {P : S → Prop} (h : A.Exec s₀ tr s)
    (hback : ∀ s l s', A.step s l s' → P s' → P s) (hs : P s) : ∀ m ∈ tr, P m.pre ∧ P m.post := by
  induction h with
  | nil => simp
  | snoc _ hst ih =>
    rw [List.forall_mem_cons]
    exact ⟨⟨hback _ _ _ hst hs, hs⟩, ih (hback _ _ _ hst hs)⟩

/-- A predicate that holds initially and is kept by every step holds at the end of a run. -/
theorem invariant {I : S → Prop} (h : A.Exec s₀ tr s) (h₀ : I s₀)
    (hstep : ∀ s l s', I s → A.step s l s' → I s') : I s :=
  h.invariant_of_moves (C := fun _ => True) (fun _ _ => trivial) h₀
    fun s l s' hI hst _ => hstep s l s' hI hst

/-- A property of the single moves that follows from an invariant holds of every move of a run
whose moves meet `C`. -/
theorem forall_moves {C : Move S L → Prop} {I : S → Prop} {P : Move S L → Prop}
    (h : A.Exec s₀ tr s) (hC : ∀ m ∈ tr, C m) (h₀ : I s₀)
    (hstep : ∀ s l s', I s → A.step s l s' → C ⟨s, l, s'⟩ → I s')
    (hP : ∀ s l s', I s → A.step s l s' → C ⟨s, l, s'⟩ → P ⟨s, l, s'⟩) : ∀ m ∈ tr, P m := by
  induction h with
  | nil => simp
  | snoc hex hst ih =>
    rw [List.forall_mem_cons] at hC ⊢
    have hI := hex.invariant_of_moves hC.2 h₀ hstep
    exact ⟨hP _ _ _ hI hst hC.1, ih hC.2⟩

theorem countP_cons_toNat {kind : Move S L → Bool} {m : Move S L} :
    List.countP kind (m :: tr) = List.countP kind tr + (kind m).toNat := by
  rw [List.countP_cons]
  cases kind m <;> rfl

/-- **Progress.**  If no step lets a rank grow, and each move of a kind makes it smaller, there are
no more moves of the kind than the rank allows. -/
theorem countP_add_rank_le {I : S → Prop} {r : S → ℕ} {kind : Move S L → Bool}
    (h : A.Exec s₀ tr s) (h₀ : I s₀)
    (hstep : ∀ s l s', I s → A.step s l s' →
      I s' ∧ (kind ⟨s, l, s'⟩).toNat + r s' ≤ r s) :
    I s ∧ tr.countP kind + r s ≤ r s₀ := by
  induction h with
  | nil => exact ⟨h₀, by simp⟩
  | @snoc tr s s' l _ hst ih =>
    obtain ⟨hI, hrank⟩ := hstep s l s' ih.1 hst
    refine ⟨hI, ?_⟩
    rw [countP_cons_toNat]
    omega

/-- **Accounts.**  If each move of a kind pays for one of the units that a rank counts, and `gain`
says what a move adds to them, what has been paid and what is left are what has been added. -/
theorem countP_add_rank_eq {I : S → Prop} {r : S → ℕ} {kind : Move S L → Bool}
    {gain : Move S L → ℕ} (h : A.Exec s₀ tr s) (h₀ : I s₀)
    (hstep : ∀ s l s', I s → A.step s l s' →
      I s' ∧ (kind ⟨s, l, s'⟩).toNat + r s' = r s + gain ⟨s, l, s'⟩) :
    I s ∧ tr.countP kind + r s = r s₀ + (tr.map gain).sum := by
  induction h with
  | nil => exact ⟨h₀, Nat.zero_add _⟩
  | @snoc tr s s' l _ hst ih =>
    obtain ⟨hI, hrank⟩ := hstep s l s' ih.1 hst
    refine ⟨hI, ?_⟩
    rw [countP_cons_toNat, List.map_cons, List.sum_cons]
    omega

end Exec

/-! ### Order of events -/

section Preceded

variable {kind : Move S L → Bool} {P : List (Move S L) → Prop} {m : Move S L}

/-- Every move of a kind comes behind a history with `P`. -/
def Preceded (kind : Move S L → Bool) (P : List (Move S L) → Prop) (tr : List (Move S L)) : Prop :=
  ∀ m tr', m :: tr' <:+ tr → kind m = true → P tr'

theorem preceded_nil : Preceded kind P [] := fun m tr' h => by simp at h

theorem preceded_cons :
    Preceded kind P (m :: tr) ↔ (kind m = true → P tr) ∧ Preceded kind P tr := by
  simp only [Preceded, List.suffix_cons_iff]
  constructor
  · exact fun h => ⟨h m tr (.inl rfl), fun m' tr' hs => h m' tr' (.inr hs)⟩
  · rintro ⟨h, h'⟩ m' tr' (hs | hs)
    · cases hs
      exact h
    · exact h' m' tr' hs

instance decidablePreceded [DecidablePred P] :
    (tr : List (Move S L)) → Decidable (Preceded kind P tr)
  | [] => .isTrue preceded_nil
  | _ :: tr =>
    have := decidablePreceded tr
    decidable_of_iff _ preceded_cons.symm

end Preceded

/-! ### Components -/

section Project

variable {S' L' : Type*}

/-- What a component sees of a run: `view` is its part of the state and `event` its own label of a
step, if it takes part. -/
def project (view : S → S') (event : Move S L → Option L') (tr : List (Move S L)) :
    List (Move S' L') :=
  tr.filterMap fun m => (event m).map fun e => ⟨view m.pre, e, view m.post⟩

theorem project_cons (view : S → S') (event : Move S L → Option L') (m : Move S L)
    (tr : List (Move S L)) : project view event (m :: tr) =
      ((event m).map fun e => ⟨view m.pre, e, view m.post⟩).toList ++ project view event tr := by
  unfold project
  cases h : event m with
  | none => simp [h]
  | some e => simp [h]

/-- **Runs of components.**  If each move of a run that meets `C` is a step of the component or
leaves its part of the state alone, the component sees a run of its own. -/
theorem Exec.project_of_moves {B : LTS S' L'} {C : Move S L → Prop} (view : S → S')
    (event : Move S L → Option L') (hC : ∀ m ∈ tr, C m)
    (hstep : ∀ s l s', A.step s l s' → C ⟨s, l, s'⟩ → ∀ e ∈ event ⟨s, l, s'⟩,
      B.step (view s) e (view s'))
    (hskip : ∀ s l s', A.step s l s' → C ⟨s, l, s'⟩ → event ⟨s, l, s'⟩ = none →
      view s' = view s)
    (h : A.Exec s₀ tr s) : B.Exec (view s₀) (project view event tr) (view s) := by
  induction h with
  | nil => exact .nil
  | @snoc tr s s' l _ hst ih =>
    rw [List.forall_mem_cons] at hC
    simp only [LTS.project, List.filterMap_cons]
    cases he : event ⟨s, l, s'⟩ with
    | none =>
      rw [hskip s l s' hst hC.1 he]
      exact ih hC.2
    | some e => exact (ih hC.2).snoc (hstep s l s' hst hC.1 e he)

/-- **Runs of components.**  If each step of the system is a step of the component or leaves its
part of the state alone, the component sees a run of its own. -/
theorem Exec.project {B : LTS S' L'} (view : S → S') (event : Move S L → Option L')
    (hstep : ∀ s l s', A.step s l s' → ∀ e ∈ event ⟨s, l, s'⟩, B.step (view s) e (view s'))
    (hskip : ∀ s l s', A.step s l s' → event ⟨s, l, s'⟩ = none → view s' = view s)
    (h : A.Exec s₀ tr s) : B.Exec (view s₀) (project view event tr) (view s) :=
  h.project_of_moves (C := fun _ => True) view event (fun _ _ => trivial)
    (fun s l s' hst _ => hstep s l s' hst) fun s l s' hst _ => hskip s l s' hst

end Project

/-! ### Refinement -/

/-- **Simulation.**  If another system can follow every step with the same label and stay related,
it can follow every run. -/
theorem Exec.simulate {S' : Type*} {B : LTS S' L} {R : S → S' → Prop} {t₀ : S'}
    (hsim : ∀ s l s' t, R s t → A.step s l s' → ∃ t', B.step t l t' ∧ R s' t') (h₀ : R s₀ t₀)
    (h : A.Exec s₀ tr s) :
    ∃ tr' t, B.Exec t₀ tr' t ∧ tr'.map Move.label = tr.map Move.label ∧ R s t := by
  induction h with
  | nil => exact ⟨[], t₀, .nil, rfl, h₀⟩
  | @snoc tr s s' l _ hst ih =>
    obtain ⟨tr', t, he, hl, hR⟩ := ih
    obtain ⟨t', hst', hR'⟩ := hsim s l s' t hR hst
    exact ⟨⟨t, l, t'⟩ :: tr', t', he.snoc hst', by simp [hl], hR'⟩

/-- **Simulation by runs.**  If each step that meets `C` is matched by a run of another system,
between the images of its states and with `Q` for the histories, so is each run of such steps. -/
theorem Exec.simulate_of_moves {S' L' : Type*} {B : LTS S' L'} {C : Move S L → Prop} {I : S → Prop}
    {Q : List (Move S L) → List (Move S' L') → Prop} (view : S → S') (h : A.Exec s₀ tr s)
    (hC : ∀ m ∈ tr, C m) (h₀ : I s₀) (hQ : Q [] [])
    (hstep : ∀ s l s', I s → A.step s l s' → C ⟨s, l, s'⟩ → I s' ∧ ∃ run,
      B.Exec (view s) run (view s') ∧ ∀ tr tr', Q tr tr' → Q (⟨s, l, s'⟩ :: tr) (run ++ tr')) :
    I s ∧ ∃ tr', B.Exec (view s₀) tr' (view s) ∧ Q tr tr' := by
  induction h with
  | nil => exact ⟨h₀, [], .nil, hQ⟩
  | @snoc tr s s' l _ hst ih =>
    rw [List.forall_mem_cons] at hC
    obtain ⟨hI, tr', he, hq⟩ := ih hC.2
    obtain ⟨hI', run, hrun, hext⟩ := hstep s l s' hI hst hC.1
    exact ⟨hI', run ++ tr', he.append hrun, hext tr tr' hq⟩

/-! ### Executable systems -/

/-- The system of a partial successor function. -/
def ofNext (next : S → L → Option S) : LTS S L where
  step s l s' := next s l = some s'

@[simp] theorem ofNext_step {next : S → L → Option S} {s s' : S} {l : L} :
    (ofNext next).step s l s' ↔ next s l = some s' := Iff.rfl

/-- Perform a list of labels after the run `tr` has led to `s`. -/
def replay (next : S → L → Option S) :
    List (Move S L) → S → List L → Option (List (Move S L) × S)
  | tr, s, [] => some (tr, s)
  | tr, s, l :: ls =>
    match next s l with
    | none => none
    | some s' => replay next (⟨s, l, s'⟩ :: tr) s' ls

/-- What `replay` computes is a run of every system that has the computed steps. -/
theorem exec_of_replay {next : S → L → Option S} {ls : List L} {tr' : List (Move S L)} {s' : S}
    (hA : ∀ s l s', next s l = some s' → A.step s l s') (h : A.Exec s₀ tr s)
    (hr : replay next tr s ls = some (tr', s')) : A.Exec s₀ tr' s' := by
  induction ls generalizing tr s with
  | nil => cases hr; exact h
  | cons l ls ih =>
    simp only [replay] at hr
    split at hr
    · cases hr
    · rename_i s₁ hs₁
      exact ih (h.snoc (hA _ _ _ hs₁)) hr

/-- A property of a replayed run, decided by evaluation, is one of a run of the system. -/
theorem exists_exec_of_replay {next : S → L → Option S} (ls : List L)
    (P : List (Move S L) → S → Prop) [∀ tr s, Decidable (P tr s)]
    (hA : ∀ s l s', next s l = some s' → A.step s l s')
    (h : (replay next [] s₀ ls).any (fun p => decide (P p.1 p.2)) = true) :
    ∃ tr s, A.Exec s₀ tr s ∧ P tr s := by
  cases hr : replay next [] s₀ ls with
  | none => simp [hr] at h
  | some p =>
    obtain ⟨tr, s⟩ := p
    exact ⟨tr, s, exec_of_replay hA .nil hr, by simpa [hr] using h⟩

end LTS

end Usbws
