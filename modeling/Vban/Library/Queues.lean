import Vban.Library.Run

/-! First-in first-out queues of bounded length, with the bound as a field of the queue, and delay
lines: items come out in order, a fixed number of items after they went in. -/
namespace Vban.Library

structure BoundedQueue (α : Type*) (cap : Nat) where
  items : List α
  bound : items.length ≤ cap

namespace BoundedQueue

variable {α : Type*} {cap : Nat}

@[ext] theorem ext {q p : BoundedQueue α cap} (h : q.items = p.items) : q = p := by
  cases q
  cases p
  simp_all

def empty : BoundedQueue α cap := ⟨[], Nat.zero_le _⟩

/-- The number of items that still fit. -/
def free (q : BoundedQueue α cap) : Nat := cap - q.items.length

/-- Append as many of the items as fit, in order. -/
def push (q : BoundedQueue α cap) (xs : List α) : BoundedQueue α cap :=
  ⟨q.items ++ xs.take q.free, by
    have := q.bound
    simp only [List.length_append, List.length_take, free]
    omega⟩

/-- Remove the oldest items. -/
def pop (q : BoundedQueue α cap) (n : Nat) : BoundedQueue α cap :=
  ⟨q.items.drop n, by
    have := q.bound
    rw [List.length_drop]
    omega⟩

@[simp] theorem empty_items : (empty : BoundedQueue α cap).items = [] := rfl

@[simp] theorem push_items (q : BoundedQueue α cap) (xs : List α) :
    (q.push xs).items = q.items ++ xs.take q.free := rfl

@[simp] theorem pop_items (q : BoundedQueue α cap) (n : Nat) :
    (q.pop n).items = q.items.drop n := rfl

theorem length_add_free (q : BoundedQueue α cap) : q.items.length + q.free = cap :=
  Nat.add_sub_of_le q.bound

theorem free_eq_zero_iff {q : BoundedQueue α cap} : q.free = 0 ↔ q.items.length = cap := by
  have := q.bound
  simp only [free]
  omega

theorem push_items_of_le {q : BoundedQueue α cap} {xs : List α} (h : xs.length ≤ q.free) :
    (q.push xs).items = q.items ++ xs := by
  rw [push_items, List.take_of_length_le h]

theorem push_of_full {q : BoundedQueue α cap} (h : q.free = 0) (xs : List α) :
    q.push xs = q := by
  ext1
  simp [h]

/-- Items go in one by one. -/
theorem push_cons (q : BoundedQueue α cap) (x : α) (xs : List α) :
    q.push (x :: xs) = (q.push [x]).push xs := by
  ext1
  cases hfree : q.free with
  | zero => rw [push_of_full hfree, push_of_full hfree, push_of_full hfree]
  | succ n =>
    have hone : (q.push [x]).items = q.items ++ [x] := push_items_of_le (by simp [hfree])
    have hrest : (q.push [x]).free = n := by
      have hall := q.length_add_free
      have hleft := (q.push [x]).length_add_free
      rw [hone, List.length_append, List.length_singleton] at hleft
      omega
    rw [push_items, push_items, hone, hrest, hfree, List.take_succ_cons, List.append_assoc,
      List.singleton_append]

theorem length_push (q : BoundedQueue α cap) (xs : List α) :
    (q.push xs).items.length = min (q.items.length + xs.length) cap := by
  have hall := q.length_add_free
  rw [push_items, List.length_append, List.length_take]
  omega

end BoundedQueue

section Delay

variable {α : Type*} {held held' : List α} {ls : List (List α × List α)}

/-- A block of items goes in and as many come out, the held ones first. The label is the items
that went in and those that came out. -/
inductive DelayStep : List α → List α × List α → List α → Prop
  | block (held xs : List α) :
      DelayStep held (xs, (held ++ xs).take xs.length) ((held ++ xs).drop xs.length)

theorem delay_length (h : Run DelayStep held ls held') : held'.length = held.length := by
  induction h with
  | refl => rfl
  | snoc _ hs ih =>
    cases hs with
    | block => simpa using ih

theorem delay_conserved (h : Run DelayStep held ls held') :
    held ++ ls.flatMap Prod.fst = ls.flatMap Prod.snd ++ held' := by
  induction h with
  | refl => simp
  | snoc _ hs ih =>
    cases hs with
    | block xs =>
      rw [List.flatMap_append, List.flatMap_append, ← List.append_assoc, ih, List.append_assoc,
        List.append_assoc]
      simp

/-- What came out is what went in, behind the items held at the start. -/
theorem delayed (h : Run DelayStep held ls held') :
    ls.flatMap Prod.snd = (held ++ ls.flatMap Prod.fst).take (ls.flatMap Prod.fst).length := by
  have hlen := congrArg List.length (delay_conserved h)
  have hheld := delay_length h
  rw [List.length_append, List.length_append] at hlen
  rw [delay_conserved h, List.take_left' (by omega)]

end Delay

end Vban.Library
