import Usbws.ListHead.Basic

/-!
# Deleting traversals

`list_for_each_safe` reads the node behind the current one before it runs the body, so the body may
delete the current node and free it.

* `forEachSafe` : the loop, for a body that changes the memory and a state of its own and may
  `break`.
* `Acts` : the body looks at its own node only, and leaves it in the list or deletes it and leaves
  anything in its place.
* `sweep` : such a traversal of a sequence.
* `forEachSafe_spec` : the loop does to a list what `sweep` does to the sequence of its elements.
* `listHead_implements_sequence` : the operations of `usbws_util.h` implement a sequence.
-/

namespace Usbws

namespace ListHead

open Linked

variable {α σ : Type*}

/-! ### The loop -/

/-- `list_for_each_safe` from the node `pos` on, with `n` read ahead.  The body gives the memory and
the state behind it, and whether it ends in `break`. -/
def forEachSafeFrom [DecidableEq α] (body : α → Heap α → σ → Option (Heap α × σ × Bool))
    (head : α) : ℕ → α → α → Heap α → σ → Option (Heap α × σ)
  | 0, _, _, _, _ => none
  | fuel + 1, pos, n, h, s =>
    if pos = head then some (h, s)
    else
      match body pos h s with
      | none => none
      | some (h, s, true) => some (h, s)
      | some (h, s, false) =>
        match next h n with
        | none => none
        | some n' => forEachSafeFrom body head fuel n n' h s

/-- `list_for_each_safe`. -/
def forEachSafe [DecidableEq α] (body : α → Heap α → σ → Option (Heap α × σ × Bool)) (head : α)
    (fuel : ℕ) (h : Heap α) (s : σ) : Option (Heap α × σ) :=
  match next h head with
  | none => none
  | some pos =>
    match next h pos with
    | none => none
    | some n => forEachSafeFrom body head fuel pos n h s

/-- What the body of a traversal does at an element. -/
structure Turn (σ : Type*) where
  /-- It deletes the element. -/
  delete : Bool
  /-- It ends in `break`. -/
  stop : Bool
  /-- The state behind it. -/
  state : σ

/-- A traversal of a sequence: the elements that stay, and the state behind it. -/
def sweep (act : α → σ → Turn σ) : List α → σ → List α × σ
  | [], s => ([], s)
  | p :: xs, s =>
    let t := act p s
    let r := if t.stop then (xs, t.state) else sweep act xs t.state
    (if t.delete then r.1 else p :: r.1, r.2)

/-- The body does `act`: it leaves the memory alone, or deletes its node and leaves anything in its
place. -/
structure Acts [DecidableEq α] (body : α → Heap α → σ → Option (Heap α × σ × Bool))
    (act : α → σ → Turn σ) : Prop where
  keep : ∀ p h s, (h p).isSome = true → (act p s).delete = false →
    body p h s = some (h, (act p s).state, (act p s).stop)
  delete : ∀ p h h' s, (h p).isSome = true → (act p s).delete = true → listDel h p = some h' →
    ∃ v, body p h s = some (Function.update h' p v, (act p s).state, (act p s).stop)

variable [DecidableEq α] {body : α → Heap α → σ → Option (Heap α × σ × Bool)}
  {act : α → σ → Turn σ} {h h' : Heap α} {head pos n p : α} {xs done rest : List α} {fuel : ℕ}
  {s : σ}

/-- More fuel does not change the result. -/
theorem forEachSafeFrom_mono {r : Heap α × σ} {fuel' : ℕ} (hle : fuel ≤ fuel')
    (hr : forEachSafeFrom body head fuel pos n h s = some r) :
    forEachSafeFrom body head fuel' pos n h s = some r := by
  induction fuel generalizing fuel' pos n h s with
  | zero => cases hr
  | succ fuel ih =>
    obtain ⟨fuel', rfl⟩ := Nat.exists_eq_succ_of_ne_zero (show fuel' ≠ 0 by omega)
    unfold forEachSafeFrom at hr ⊢
    by_cases hp : pos = head
    · rwa [if_pos hp] at hr ⊢
    · rw [if_neg hp] at hr ⊢
      cases hb : body pos h s with
      | none => rw [hb] at hr; cases hr
      | some x =>
        obtain ⟨h₁, s₁, stop⟩ := x
        cases stop with
        | true => rwa [hb] at hr
        | false =>
          cases hn : next h₁ n with
          | none => rw [hb] at hr; simp only [hn] at hr; cases hr
          | some n' =>
            rw [hb] at hr
            simp only [hn] at hr ⊢
            exact ih (by omega) hr

/-- More fuel does not change the result. -/
theorem forEachSafe_mono {r : Heap α × σ} {fuel' : ℕ} (hle : fuel ≤ fuel')
    (hr : forEachSafe body head fuel h s = some r) :
    forEachSafe body head fuel' h s = some r := by
  unfold forEachSafe at hr ⊢
  cases hpos : next h head with
  | none => rw [hpos] at hr; cases hr
  | some pos =>
    cases hn : next h pos with
    | none => simp only [hpos, hn] at hr; cases hr
    | some n =>
      simp only [hpos, hn] at hr ⊢
      exact forEachSafeFrom_mono hle hr

/-! ### A turn -/

omit [DecidableEq α] in
theorem sweep_of_stop (hs : (act p s).stop = true) : sweep act (p :: xs) s =
    (if (act p s).delete then xs else p :: xs, (act p s).state) := by
  simp [sweep, hs]

omit [DecidableEq α] in
theorem sweep_of_next (hs : (act p s).stop = false) : sweep act (p :: xs) s =
    (if (act p s).delete then (sweep act xs (act p s).state).1
      else p :: (sweep act xs (act p s).state).1, (sweep act xs (act p s).state).2) := by
  simp [sweep, hs]

/-- A turn of the body: the list behind it, with its own node or without. -/
theorem Acts.turn (ha : Acts body act) (s : σ) (hr : Circular h head (done ++ p :: rest)) :
    ∃ h', body p h s = some (h', (act p s).state, (act p s).stop) ∧
      Circular h' head (done ++ if (act p s).delete then rest else p :: rest) ∧
      Untouched (head :: (done ++ p :: rest)) h h' := by
  have hv : (h p).isSome = true := hr.isSome (by simp)
  by_cases hd : (act p s).delete = true
  · obtain ⟨h₁, he, hr₁, hu⟩ := listDel_spec hr
    obtain ⟨v, hb⟩ := ha.delete p h h₁ s hv hd he
    have hu' := untouched_update h₁ p v
    refine ⟨_, hb, ?_, (hu.mono sublist_insert.subset).trans (hu'.mono (by simp))⟩
    -- the list behind `list_del` does not reach its node
    rw [if_pos hd]
    refine hu'.circular hr₁ ?_
    intro x hx hm
    rw [List.mem_singleton.1 hm] at hx
    exact hr.notMem hx
  · refine ⟨h, ha.keep p h s hv (by simpa using hd), ?_, fun _ _ => rfl⟩
    rwa [if_neg hd]

/-- The loop from some element on, with `done` left in front of it. -/
theorem forEachSafeFrom_spec (ha : Acts body act) (hr : Circular h head (done ++ rest))
    (hn : next h (behind head rest) = some n) (hf : rest.length < fuel) :
    ∃ h', forEachSafeFrom body head fuel (behind head rest) n h s =
        some (h', (sweep act rest s).2) ∧
      Circular h' head (done ++ (sweep act rest s).1) ∧
      Untouched (head :: (done ++ rest)) h h' := by
  induction rest generalizing done h n s fuel with
  | nil =>
    obtain ⟨fuel, rfl⟩ := Nat.exists_eq_succ_of_ne_zero (show fuel ≠ 0 by omega)
    refine ⟨h, ?_, hr, fun _ _ => rfl⟩
    unfold forEachSafeFrom
    exact if_pos rfl
  | cons p rest ih =>
    obtain ⟨fuel, rfl⟩ := Nat.exists_eq_succ_of_ne_zero (show fuel ≠ 0 by omega)
    have hph : p ≠ head := by
      rintro rfl
      exact (List.nodup_cons.1 hr.nodup).1 (by simp)
    have hpos : behind head (p :: rest) = p := rfl
    obtain rfl : behind head rest = n := by
      rw [hpos, hr.next_eq] at hn
      exact Option.some.inj hn
    obtain ⟨h₁, hb, hr₁, hu₁⟩ := ha.turn s hr
    rw [hpos]
    unfold forEachSafeFrom
    rw [if_neg hph, hb]
    cases hs : (act p s).stop with
    | true =>
      rw [sweep_of_stop hs]
      exact ⟨h₁, rfl, hr₁, hu₁⟩
    | false =>
      rw [sweep_of_next hs]
      by_cases hd : (act p s).delete = true
      · rw [if_pos hd] at hr₁ ⊢
        obtain ⟨n', hn'⟩ := hr₁.exists_next_behind
        obtain ⟨h₂, he, hr₂, hu₂⟩ := ih hr₁ hn' (Nat.lt_of_succ_lt_succ hf)
        refine ⟨h₂, ?_, hr₂, hu₁.trans (hu₂.mono sublist_insert.subset)⟩
        simp only [hn']
        exact he
      · rw [if_neg hd] at hr₁ ⊢
        rw [List.append_cons] at hr₁ ⊢
        obtain ⟨n', hn'⟩ := hr₁.exists_next_behind
        obtain ⟨h₂, he, hr₂, hu₂⟩ := ih hr₁ hn' (Nat.lt_of_succ_lt_succ hf)
        refine ⟨h₂, ?_, hr₂, hu₁.trans ?_⟩
        · simp only [hn']
          exact he
        · rwa [List.append_cons]

/-- **The traversal of a list.**  The loop never accesses an invalid node, ends, does to the
elements what `sweep` does, and leaves every other node alone. -/
theorem forEachSafe_spec (ha : Acts body act) (hr : Circular h head xs) (hf : xs.length < fuel) :
    ∃ h', forEachSafe body head fuel h s = some (h', (sweep act xs s).2) ∧
      Circular h' head (sweep act xs s).1 ∧ Untouched (head :: xs) h h' := by
  have hr₀ : Circular h head ([] ++ xs) := hr
  obtain ⟨n, hn⟩ := hr₀.exists_next_behind
  obtain ⟨h', he, hr', hu⟩ :=
    @forEachSafeFrom_spec α σ _ body act h head n [] xs fuel s ha hr₀ hn hf
  refine ⟨h', ?_, hr', hu⟩
  simp only [forEachSafe, hr.next_head, hn]
  exact he

/-! ### The sequence -/

/-- A body that deletes the nodes of a set, each at its own turn, and leaves in its place what
`junk` says: nothing if the node is freed.  It keeps a record of its turns. -/
def disposing (del : α → Bool) (junk : α → Option (Link α)) (p : α) (h : Heap α)
    (visited : List α) : Option (Heap α × List α × Bool) :=
  if del p then
    (listDel h p).map fun h => (Function.update h p (junk p), visited ++ [p], false)
  else some (h, visited ++ [p], false)

/-- The operations do to the list with the elements `xs` what they are for. -/
structure Implements (h : Heap α) (head : α) (xs : List α) : Prop where
  /-- `list_add_tail` of a fresh node appends it. -/
  add_tail : ∀ neo, neo ∉ head :: xs → (h neo).isSome = true →
    ∃ h', listAddTail h neo head = some h' ∧ Circular h' head (xs ++ [neo]) ∧
      Untouched (neo :: head :: xs) h h'
  /-- `list_del` of a member removes it. -/
  del : ∀ p ∈ xs, ∃ h', listDel h p = some h' ∧ Circular h' head (xs.erase p) ∧
    Untouched (head :: xs) h h'
  /-- `list_empty` says whether there are elements. -/
  empty : listEmpty h head = some xs.isEmpty
  /-- `list_for_each_safe` with a body that deletes and invalidates any of the nodes ends, visits
  all of them in order, and leaves the others.  It does not fail, so it follows no link of a node
  that is invalid by then. -/
  for_each_safe : ∀ del junk fuel, xs.length < fuel →
    ∃ h', forEachSafe (disposing del junk) head fuel h [] = some (h', xs) ∧
      Circular h' head (xs.filter fun p => !del p) ∧ Untouched (head :: xs) h h'

variable {del : α → Bool} {junk : α → Option (Link α)} {visited : List α}

theorem disposing_acts :
    Acts (disposing del junk) fun p visited => ⟨del p, false, visited ++ [p]⟩ where
  keep p h visited _ hd := if_neg (by simpa using hd)
  delete p h h' visited _ hd he := ⟨junk p, by simp [disposing, show del p = true from hd, he]⟩

omit [DecidableEq α] in
theorem sweep_disposing : sweep (fun p visited => ⟨del p, false, visited ++ [p]⟩) xs visited =
    (xs.filter fun p => !del p, visited ++ xs) := by
  induction xs generalizing visited with
  | nil => simp [sweep]
  | cons p xs ih =>
    rw [sweep_of_next rfl, ih]
    cases hd : del p <;> simp [hd]

theorem exists_listDel (hr : Circular h head xs) (hp : p ∈ xs) :
    ∃ h', listDel h p = some h' ∧ Circular h' head (xs.erase p) ∧ Untouched (head :: xs) h h' := by
  obtain ⟨pre, post, rfl⟩ := List.append_of_mem hp
  obtain ⟨h', he, hr', hu⟩ := listDel_spec hr
  have hpre : p ∉ pre := fun hm => hr.notMem (by simp [hm])
  refine ⟨h', he, ?_, hu.mono sublist_insert.subset⟩
  rwa [List.erase_append_right _ hpre, List.erase_cons_head]

/-- **The lists implement sequences.**  `INIT_LIST_HEAD` makes a list without elements, and the
other operations do to every list what they are for. -/
theorem listHead_implements_sequence :
    (∀ (h : Heap α) (head : α), (h head).isSome = true →
      ∃ h', initListHead h head = some h' ∧ Circular h' head [] ∧ Untouched [head] h h') ∧
    ∀ (h : Heap α) (head : α) (xs : List α), Circular h head xs → Implements h head xs := by
  refine ⟨fun h head hv => initListHead_spec hv, fun h head xs hr => ⟨?_, ?_, ?_, ?_⟩⟩
  · exact fun neo hn hv => listAddTail_spec hr hn hv
  · exact fun p hp => exists_listDel hr hp
  · exact listEmpty_spec hr
  · intro del junk fuel hf
    have := @forEachSafe_spec α _ _ _ _ h head xs fuel [] (@disposing_acts α _ del junk) hr hf
    rwa [sweep_disposing, List.nil_append] at this

/-- A list of two nodes, built from an uninitialised head. -/
theorem listHead_implements_sequence_of_two : ∃ h : Heap ℕ, Implements h 0 [1, 2] := by
  let mem : Heap ℕ := fun a => if a ≤ 2 then some ⟨7, 7⟩ else none
  obtain ⟨hinit, hlist⟩ := @listHead_implements_sequence ℕ _
  obtain ⟨h₀, -, hr₀, hu₀⟩ := hinit mem 0 rfl
  have hv₁ : (h₀ 1).isSome = true := by
    rw [hu₀ 1 (by decide)]
    rfl
  obtain ⟨h₁, -, hr₁, hu₁⟩ := (hlist h₀ 0 [] hr₀).add_tail 1 (by decide) hv₁
  have hv₂ : (h₁ 2).isSome = true := by
    rw [hu₁ 2 (by decide), hu₀ 2 (by decide)]
    rfl
  obtain ⟨h₂, -, hr₂, -⟩ := (hlist h₁ 0 [1] hr₁).add_tail 2 (by decide) hv₂
  exact ⟨h₂, hlist h₂ 0 [1, 2] hr₂⟩

end ListHead

end Usbws
