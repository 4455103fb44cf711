import Mathlib.Data.List.Basic
import Mathlib.Logic.Relation

/-!
# Channels

A channel carries messages one after the other.  The current message is taken in pieces, as far
as the receiving side accepts; when all of it is taken, it is finished and the next one can be
posted.

## Main definitions

* `Transfer α` : a message with the number of its elements that have been taken.
* `Channel α` : the finished messages, the current transfer and everything taken so far.  That
  these agree is part of the structure, so every channel is exact.
* `Channel.Step` : posting a message, taking a piece, finishing a message.

A program that sends in pieces is exact if what it does are steps of a channel.
-/

namespace Usbws

/-- A message and how much of it has been taken. -/
structure Transfer (α : Type*) where
  /-- The message. -/
  message : List α
  /-- The number of elements taken. -/
  offset : ℕ
  /-- Not more than there are. -/
  offset_le : offset ≤ message.length

namespace Transfer

variable {α : Type*}

/-- The part of the message that has been taken. -/
def taken (t : Transfer α) : List α := t.message.take t.offset

/-- The part that has not. -/
def rest (t : Transfer α) : List α := t.message.drop t.offset

/-- A message of which nothing has been taken. -/
def start (message : List α) : Transfer α := ⟨message, 0, Nat.zero_le _⟩

/-- Take `n` more elements. -/
def advance (t : Transfer α) (n : ℕ) (h : t.offset + n ≤ t.message.length) : Transfer α :=
  ⟨t.message, t.offset + n, h⟩

/-- The whole message has been taken. -/
def Finished (t : Transfer α) : Prop := t.offset = t.message.length

theorem taken_advance (t : Transfer α) (n : ℕ) (h : t.offset + n ≤ t.message.length) :
    (t.advance n h).taken = t.taken ++ t.rest.take n := by
  simp only [taken, advance, rest, List.take_add]

theorem Finished.taken_eq {t : Transfer α} (h : t.Finished) : t.taken = t.message := by
  rw [taken, h, List.take_length]

end Transfer

/-- Messages sent one after the other. -/
structure Channel (α : Type*) where
  /-- The messages that have been taken as a whole, oldest first. -/
  finished : List (List α)
  /-- The message that is being taken. -/
  current : Option (Transfer α)
  /-- All elements that have been taken. -/
  wire : List α
  /-- They are those of the finished messages and of the taken part of the current one. -/
  wire_eq : wire = finished.flatten ++ current.elim [] Transfer.taken

namespace Channel

variable {α : Type*}

/-- A channel that has not been used. -/
def empty : Channel α := ⟨[], none, [], rfl⟩

/-- Begin with a new message. -/
def post (c : Channel α) (message : List α) (h : c.current = none) : Channel α where
  finished := c.finished
  current := some (.start message)
  wire := c.wire
  wire_eq := by rw [c.wire_eq, h]; rfl

/-- Take `n` elements of the current message. -/
def take (c : Channel α) (t : Transfer α) (n : ℕ) (h : c.current = some t)
    (hn : t.offset + n ≤ t.message.length) : Channel α where
  finished := c.finished
  current := some (t.advance n hn)
  wire := c.wire ++ t.rest.take n
  wire_eq := by
    rw [c.wire_eq, h, List.append_assoc, Option.elim_some, Option.elim_some, t.taken_advance n hn]

/-- Be done with the current message. -/
def finish (c : Channel α) (t : Transfer α) (h : c.current = some t) (ht : t.Finished) :
    Channel α where
  finished := c.finished ++ [t.message]
  current := none
  wire := c.wire
  wire_eq := by
    rw [c.wire_eq, h, Option.elim_some, ht.taken_eq, Option.elim_none, List.flatten_append]
    simp

/-- The messages posted so far. -/
def posted (c : Channel α) : List (List α) :=
  c.finished ++ (c.current.map Transfer.message).toList

/-- The steps of a channel. -/
inductive Step : Channel α → Channel α → Prop
  | post (c : Channel α) (message : List α) (h : c.current = none) : Step c (c.post message h)
  | take (c : Channel α) (t : Transfer α) (n : ℕ) (h : c.current = some t)
      (hn : t.offset + n ≤ t.message.length) : Step c (c.take t n h hn)
  | finish (c : Channel α) (t : Transfer α) (h : c.current = some t) (ht : t.Finished) :
      Step c (c.finish t h ht)

/-- What a channel can become. -/
def Reaches : Channel α → Channel α → Prop := Relation.ReflTransGen Step

theorem current_take (c : Channel α) (t : Transfer α) (n : ℕ) (h : c.current = some t)
    (hn : t.offset + n ≤ t.message.length) :
    (c.take t n h hn).current = some (t.advance n hn) := rfl

@[simp] theorem posted_post (c : Channel α) (message : List α) (h : c.current = none) :
    (c.post message h).posted = c.posted ++ [message] := by
  simp [posted, post, Transfer.start, h]

@[simp] theorem posted_take (c : Channel α) (t : Transfer α) (n : ℕ) (h : c.current = some t)
    (hn : t.offset + n ≤ t.message.length) : (c.take t n h hn).posted = c.posted := by
  simp [posted, take, Transfer.advance, h]

@[simp] theorem posted_finish (c : Channel α) (t : Transfer α) (h : c.current = some t)
    (ht : t.Finished) : (c.finish t h ht).posted = c.posted := by
  simp [posted, finish, h]

/-- Between two messages everything posted has been taken. -/
theorem wire_of_current_eq_none (c : Channel α) (h : c.current = none) :
    c.wire = c.posted.flatten := by
  rw [c.wire_eq, posted, h]
  simp

/-- During a message everything posted before it has been taken, and the beginning of it. -/
theorem wire_of_current_eq_some (c : Channel α) {t : Transfer α} (h : c.current = some t) :
    c.posted = c.finished ++ [t.message] ∧ c.wire = c.finished.flatten ++ t.taken := by
  rw [c.wire_eq, posted, h]
  exact ⟨rfl, rfl⟩

end Channel

end Usbws
