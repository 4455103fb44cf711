import Mathlib.Data.List.Chain
import Mathlib.Data.List.Nodup
import Mathlib.Logic.Function.Basic

/-!
# Doubly linked rings

Nodes are linked both ways and closed to a ring at a head node.  They lie in a memory where a node
may be invalid, because it was never allocated or has been freed, and then every access to it fails.

* `Heap` : the memory, with `next`, `prev`, `setNext`, `setPrev`.
* `Joined` : two nodes are linked to each other; `join` links them and `Spliced` says what that
  changes.
* `Circular` : the nodes of a list, in order, and its head form a ring.
* `Circular.insert`, `Circular.remove` : one node is put into a ring or taken out of it by splicing.
* `Circular.congr` : a ring depends on its own nodes only.
* `Untouched` : nothing outside of some nodes has changed, so other rings are still there.
-/

namespace Usbws

namespace Linked

variable {α : Type*}

/-- The links of a node. -/
structure Link (α : Type*) where
  /-- The node behind it. -/
  next : α
  /-- The node in front of it. -/
  prev : α
  deriving DecidableEq, Repr

/-- A memory of nodes; an invalid node has no links. -/
abbrev Heap (α : Type*) := α → Option (Link α)

/-- Read `next`. -/
def next (h : Heap α) (a : α) : Option α := (h a).map Link.next

/-- Read `prev`. -/
def prev (h : Heap α) (a : α) : Option α := (h a).map Link.prev

/-- `a` and `b` are linked to each other, `a` in front. -/
def Joined (h : Heap α) (a b : α) : Prop := next h a = some b ∧ prev h b = some a

/-- The head and the nodes `xs` are distinct and form a ring in this order. -/
structure Circular (h : Heap α) (head : α) (xs : List α) : Prop where
  nodup : (head :: xs).Nodup
  chain : List.IsChain (Joined h) (head :: (xs ++ [head]))

/-- The first of the nodes behind some place of a ring, or its head. -/
def behind (head : α) (post : List α) : α := post.head?.getD head

/-- The last of the nodes in front of some place of a ring, or its head. -/
def before (head : α) (pre : List α) : α := pre.getLast?.getD head

variable {h h' h'' : Heap α} {a b c p head : α} {xs pre post l l₁ l₂ : List α}

/-! ### Lists -/

theorem head?_behind : (post ++ [head]).head? = some (behind head post) := by
  simp [behind, Option.or_some]

theorem getLast?_before : (head :: pre).getLast? = some (before head pre) := by
  simp [before, List.getLast?_cons]

theorem sublist_insert : (head :: (pre ++ post)).Sublist (head :: (pre ++ p :: post)) :=
  ((List.sublist_cons_self p post).append_left pre).cons_cons head

theorem nodup_insert_iff : (head :: (pre ++ p :: post)).Nodup ↔
    p ∉ head :: (pre ++ post) ∧ (head :: (pre ++ post)).Nodup := by
  rw [(List.perm_middle.cons head).nodup_iff, (List.Perm.swap p head _).nodup_iff,
    List.nodup_cons]

theorem notMem_dropLast (hn : l.Nodup) (ha : l.getLast? = some a) : a ∉ l.dropLast := by
  rw [← List.dropLast_append_getLast? a ha, List.nodup_append] at hn
  intro hm
  exact hn.2.2 a hm a (List.mem_singleton_self a) rfl

theorem notMem_tail (hn : l.Nodup) (hb : l.head? = some b) : b ∉ l.tail := by
  rw [← List.cons_head?_tail hb] at hn
  exact (List.nodup_cons.1 hn).1

/-! ### Reading -/

theorem isSome_of_next (hn : next h a = some b) : (h a).isSome = true := by
  unfold next at hn
  exact Option.isSome_iff_exists.2 ((Option.map_eq_some_iff.1 hn).imp fun _ => And.left)

/-- A node is what its links are. -/
theorem eq_of_next_prev (hn : next h' a = next h a) (hp : prev h' a = prev h a) : h' a = h a := by
  unfold next at hn
  unfold prev at hp
  cases ha : h a with
  | none => simpa [ha] using hn
  | some k =>
    cases ha' : h' a with
    | none => simp [ha, ha'] at hn
    | some k' =>
      obtain ⟨n, q⟩ := k
      obtain ⟨n', q'⟩ := k'
      simp only [ha, ha', Option.map_some, Option.some.injEq] at hn hp
      rw [hn, hp]

namespace Circular

/-- A ring is cut in front of any of its nodes, or of its head. -/
theorem split (hr : Circular h head (pre ++ post)) : (head :: pre).IsChain (Joined h) ∧
    (post ++ [head]).IsChain (Joined h) ∧ Joined h (before head pre) (behind head post) := by
  have hc := hr.chain
  rw [List.append_assoc, ← List.cons_append, List.isChain_append] at hc
  exact ⟨hc.1, hc.2.1, hc.2.2 _ getLast?_before _ head?_behind⟩

theorem next_eq (hr : Circular h head (pre ++ p :: post)) : next h p = some (behind head post) :=
  (hr.split.2.1.rel_head? head?_behind).1

theorem prev_eq (hr : Circular h head (pre ++ p :: post)) : prev h p = some (before head pre) :=
  hr.split.2.2.2

theorem next_head (hr : Circular h head xs) : next h head = some (behind head xs) :=
  (hr.chain.rel_head? head?_behind).1

theorem prev_head (hr : Circular h head xs) : prev h head = some (before head xs) := by
  rw [← List.append_nil xs] at hr
  exact hr.split.2.2.2

/-- The nodes of a ring are valid. -/
theorem isSome (hr : Circular h head xs) (ha : a ∈ head :: xs) : (h a).isSome = true := by
  rcases List.mem_cons.1 ha with rfl | ha
  · exact isSome_of_next hr.next_head
  · obtain ⟨pre, post, rfl⟩ := List.append_of_mem ha
    exact isSome_of_next hr.next_eq

/-- A node is in a ring only once. -/
theorem notMem (hr : Circular h head (pre ++ p :: post)) : p ∉ head :: (pre ++ post) :=
  (nodup_insert_iff.1 hr.nodup).1

/-- A ring depends on its own nodes only. -/
theorem congr (hr : Circular h head xs) (hx : ∀ x ∈ head :: xs, h' x = h x) :
    Circular h' head xs := by
  refine ⟨hr.nodup, hr.chain.imp_of_mem_imp ?_⟩
  intro a b ha hb hab
  have hmem : ∀ x ∈ head :: (xs ++ [head]), x ∈ head :: xs := by simp [or_comm]
  unfold Joined next prev
  rw [hx a (hmem a ha), hx b (hmem b hb)]
  exact hab

end Circular

theorem behind_mem : behind head post ∈ head :: post := by
  have := List.mem_of_head? (@head?_behind _ head post)
  simpa [or_comm] using this

theorem before_mem : before head pre ∈ head :: pre := List.mem_of_getLast? getLast?_before

theorem before_mem_append : before head pre ∈ head :: (pre ++ post) :=
  List.mem_append_left post before_mem

theorem behind_mem_append : behind head post ∈ head :: (pre ++ post) := by
  rcases List.mem_cons.1 (@behind_mem _ head post) with he | hm
  · rw [he]
    exact List.mem_cons_self
  · exact List.mem_cons_of_mem head (List.mem_append_right pre hm)

/-! ### Splicing -/

/-- The nodes outside of `xs` are as they were. -/
def Untouched (xs : List α) (h h' : Heap α) : Prop := ∀ x, x ∉ xs → h' x = h x

namespace Untouched

theorem trans (h₁ : Untouched xs h h') (h₂ : Untouched xs h' h'') : Untouched xs h h'' :=
  fun x hx => (h₂ x hx).trans (h₁ x hx)

theorem mono (hu : Untouched xs h h') (hs : xs ⊆ l) : Untouched l h h' :=
  fun x hx => hu x fun hm => hx (hs hm)

/-- **Other rings are left alone.** -/
theorem circular (hu : Untouched xs h h') (hr : Circular h head l)
    (hd : ∀ y ∈ head :: l, y ∉ xs) : Circular h' head l :=
  hr.congr fun y hy => hu y (hd y hy)

end Untouched

/-- `a` and `b` are joined, and nothing else changes. -/
structure Spliced (h : Heap α) (a b : α) (h' : Heap α) : Prop where
  next_self : next h' a = some b
  prev_self : prev h' b = some a
  next_of_ne : ∀ c, c ≠ a → next h' c = next h c
  prev_of_ne : ∀ c, c ≠ b → prev h' c = prev h c

namespace Spliced

/-- Other nodes are left alone. -/
theorem apply_of_ne (hs : Spliced h a b h') (ha : c ≠ a) (hb : c ≠ b) : h' c = h c :=
  eq_of_next_prev (hs.next_of_ne c ha) (hs.prev_of_ne c hb)

theorem untouched (hs : Spliced h a b h') (ha : a ∈ xs) (hb : b ∈ xs) : Untouched xs h h' :=
  fun _ hx => hs.apply_of_ne (fun he => hx (he ▸ ha)) (fun he => hx (he ▸ hb))

theorem isSome (hs : Spliced h a b h') (hc : (h c).isSome = true) : (h' c).isSome = true := by
  by_cases ha : c = a
  · subst ha
    exact isSome_of_next hs.next_self
  · obtain ⟨k, hk⟩ := Option.isSome_iff_exists.1 hc
    refine isSome_of_next (b := k.next) ?_
    rw [hs.next_of_ne c ha, next, hk, Option.map_some]

/-- A chain keeps its links if none of them is replaced. -/
theorem isChain (hs : Spliced h a b h') (ha : a ∉ l.dropLast) (hb : b ∉ l.tail)
    (hl : l.IsChain (Joined h)) : l.IsChain (Joined h') := by
  induction l with
  | nil => exact .nil
  | cons x l ih =>
    cases l with
    | nil => exact .singleton x
    | cons y l =>
      rw [List.isChain_cons_cons] at hl ⊢
      rw [List.dropLast_cons_cons, List.mem_cons, not_or] at ha
      have hy : y ≠ b := fun he => hb (he ▸ List.mem_cons_self)
      refine ⟨⟨?_, ?_⟩, ih ha.2 (fun hm => hb (List.mem_cons_of_mem y hm)) hl.2⟩
      · rw [hs.next_of_ne x (Ne.symm ha.1)]
        exact hl.1.1
      · rw [hs.prev_of_ne y hy]
        exact hl.1.2

/-- Two chains are linked together at their ends. -/
theorem append (hs : Spliced h a b h') (ha : l₁.getLast? = some a) (hb : l₂.head? = some b)
    (hn₁ : l₁.Nodup) (hn₂ : l₂.Nodup) (ha₂ : a ∉ l₂.dropLast) (hb₁ : b ∉ l₁.tail)
    (h₁ : l₁.IsChain (Joined h)) (h₂ : l₂.IsChain (Joined h)) :
    (l₁ ++ l₂).IsChain (Joined h') := by
  rw [List.isChain_append]
  refine ⟨hs.isChain (notMem_dropLast hn₁ ha) hb₁ h₁, hs.isChain ha₂ (notMem_tail hn₂ hb) h₂, ?_⟩
  intro x hx y hy
  obtain rfl : a = x := Option.some.inj (ha.symm.trans hx)
  obtain rfl : b = y := Option.some.inj (hb.symm.trans hy)
  exact ⟨hs.next_self, hs.prev_self⟩

end Spliced

namespace Circular

theorem exists_next_behind (hr : Circular h head (pre ++ post)) :
    ∃ n, next h (behind head post) = some n := by
  obtain ⟨k, hk⟩ := Option.isSome_iff_exists.1 (hr.isSome behind_mem_append)
  exact ⟨k.next, by rw [next, hk, Option.map_some]⟩

/-- The two parts of a ring do not meet the ends of each other. -/
theorem ends (hn : (head :: (pre ++ post)).Nodup) : (head :: pre).Nodup ∧
    (post ++ [head]).Nodup ∧ before head pre ∉ post ∧ behind head post ∉ pre := by
  obtain ⟨hh, hn⟩ := List.nodup_cons.1 hn
  rw [List.mem_append, not_or] at hh
  obtain ⟨hpre, hpost, hd⟩ := List.nodup_append.1 hn
  refine ⟨List.nodup_cons.2 ⟨hh.1, hpre⟩, ?_, ?_, ?_⟩
  · exact (List.perm_append_singleton head post).nodup_iff.2 (List.nodup_cons.2 ⟨hh.2, hpost⟩)
  · intro hm
    rcases List.mem_cons.1 (@before_mem _ head pre) with he | he
    · exact hh.2 (he ▸ hm)
    · exact hd _ he _ hm rfl
  · intro hm
    rcases List.mem_cons.1 (@behind_mem _ head post) with he | he
    · exact hh.1 (he ▸ hm)
    · exact hd _ hm _ he rfl

/-- A node is taken out of a ring by joining its neighbours. -/
theorem remove (hr : Circular h head (pre ++ p :: post))
    (hs : Spliced h (before head pre) (behind head post) h') : Circular h' head (pre ++ post) := by
  obtain ⟨-, hn⟩ := nodup_insert_iff.1 hr.nodup
  obtain ⟨hn₁, hn₂, ha, hb⟩ := ends hn
  obtain ⟨h₁, h₂, -⟩ := hr.split
  refine ⟨hn, ?_⟩
  rw [List.append_assoc, ← List.cons_append]
  exact hs.append getLast?_before head?_behind hn₁ hn₂ (by rwa [List.dropLast_concat]) hb h₁
    h₂.tail

/-- A node is put into a ring by joining it with the node behind and the node in front. -/
theorem insert (hr : Circular h head (pre ++ post)) (hp : p ∉ head :: (pre ++ post))
    (hs : Spliced h p (behind head post) h') (hs' : Spliced h' (before head pre) p h'') :
    Circular h'' head (pre ++ p :: post) := by
  have hn : (head :: (pre ++ p :: post)).Nodup := nodup_insert_iff.2 ⟨hp, hr.nodup⟩
  obtain ⟨hn₁, hn₂, ha, hb⟩ := ends hr.nodup
  obtain ⟨hc₁, hc₂, -⟩ := hr.split
  simp only [List.mem_cons, List.mem_append, not_or] at hp
  obtain ⟨hph, hpre, hpost⟩ := hp
  have hp₁ : p ∉ head :: pre := by simp [hph, hpre]
  -- first with the node behind, then with the one in front
  have h₁ : (head :: pre).IsChain (Joined h') :=
    hs.isChain (fun hm => hp₁ (List.dropLast_subset _ hm)) hb hc₁
  have h₂ : ([p] ++ (post ++ [head])).IsChain (Joined h') :=
    hs.append rfl head?_behind (List.nodup_singleton p) hn₂ (by rwa [List.dropLast_concat])
      List.not_mem_nil (.singleton p) hc₂
  refine ⟨hn, ?_⟩
  rw [List.append_assoc, List.cons_append, ← List.cons_append]
  refine hs'.append getLast?_before rfl hn₁ ?_ ?_ ?_ h₁ h₂
  · exact List.nodup_cons.2 ⟨by simp [hph, hpost], hn₂⟩
  · rw [← List.cons_append, List.dropLast_concat, List.mem_cons, not_or]
    exact ⟨fun he => hp₁ (he ▸ before_mem), ha⟩
  · exact hpre

end Circular

/-! ### Writing -/

section Write

variable [DecidableEq α]

/-- Write `next`. -/
def setNext (h : Heap α) (a b : α) : Option (Heap α) :=
  (h a).map fun k => Function.update h a (some { k with next := b })

/-- Write `prev`. -/
def setPrev (h : Heap α) (a b : α) : Option (Heap α) :=
  (h a).map fun k => Function.update h a (some { k with prev := b })

/-- Link `a` and `b` to each other. -/
def join (h : Heap α) (a b : α) : Option (Heap α) := (setPrev h b a).bind fun h => setNext h a b

theorem setNext_spec (ha : (h a).isSome = true) : ∃ h', setNext h a b = some h' ∧
    next h' a = some b ∧ (∀ c, c ≠ a → next h' c = next h c) ∧ ∀ c, prev h' c = prev h c := by
  obtain ⟨k, hk⟩ := Option.isSome_iff_exists.1 ha
  refine ⟨_, by rw [setNext, hk, Option.map_some], by simp [next], ?_, ?_⟩
  · intro c hc
    simp [next, Function.update_of_ne hc]
  · intro c
    by_cases hc : c = a
    · subst hc
      simp [prev, hk]
    · simp [prev, Function.update_of_ne hc]

theorem setPrev_spec (ha : (h a).isSome = true) : ∃ h', setPrev h a b = some h' ∧
    prev h' a = some b ∧ (∀ c, c ≠ a → prev h' c = prev h c) ∧ ∀ c, next h' c = next h c := by
  obtain ⟨k, hk⟩ := Option.isSome_iff_exists.1 ha
  refine ⟨_, by rw [setPrev, hk, Option.map_some], by simp [prev], ?_, ?_⟩
  · intro c hc
    simp [prev, Function.update_of_ne hc]
  · intro c
    by_cases hc : c = a
    · subst hc
      simp [next, hk]
    · simp [next, Function.update_of_ne hc]

theorem untouched_update (h : Heap α) (p : α) (v : Option (Link α)) :
    Untouched [p] h (Function.update h p v) := by
  intro x hx
  have hxp : x ≠ p := by simpa using hx
  exact Function.update_of_ne hxp v h

/-- Valid nodes can be joined. -/
theorem exists_join (ha : (h a).isSome = true) (hb : (h b).isSome = true) :
    ∃ h', join h a b = some h' ∧ Spliced h a b h' := by
  obtain ⟨h₁, hset₁, hpb, hp, hn⟩ := @setPrev_spec α h b a _ hb
  have ha₁ : (h₁ a).isSome = true := by
    have := hn a
    unfold next at this
    rw [← Option.isSome_map (f := Link.next), this, Option.isSome_map]
    exact ha
  obtain ⟨h₂, hset₂, hna, hn₂, hp₂⟩ := @setNext_spec α h₁ a b _ ha₁
  refine ⟨h₂, by rw [join, hset₁, Option.bind_some, hset₂], hna, by rw [hp₂, hpb], ?_, ?_⟩
  · intro c hc
    rw [hn₂ c hc, hn]
  · intro c hc
    rw [hp₂, hp c hc]

end Write

end Linked

end Usbws
