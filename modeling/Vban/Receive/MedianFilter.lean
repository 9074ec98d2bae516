import Vban.Library.OrderStatistic
import Vban.Library.Window

/-! `MedianFilterInt`: the median of the last fill levels, from an array that is kept in order. -/
namespace Vban

open Library

structure MedianFilterInt where
  size : Nat
  head : Nat
  history : List Int
  sorted : List Int
deriving DecidableEq

namespace MedianFilterInt

variable {m : MedianFilterInt} {u v xs : List Int} {x initial : Int} {size : Nat}

/-- Even window sizes are rounded up. -/
def oddSize (windowSize : Nat) : Nat := if windowSize % 2 = 0 then windowSize + 1 else windowSize

def create (windowSize : Nat) : MedianFilterInt where
  size := oddSize windowSize
  head := 0
  history := List.replicate (oddSize windowSize) 0
  sorted := List.replicate (oddSize windowSize) 0

/-- The first swap loop, from position `i` down. Returns also where it stops. -/
def moveDown (sorted : List Int) : Nat → List Int × Nat
  | 0 => (sorted, 0)
  | i + 1 =>
    if sorted.getD (i + 1) 0 < sorted.getD i 0 then moveDown (swapEntries 0 sorted i (i + 1)) i
    else (sorted, i + 1)

/-- The second swap loop, from position `i` up, with so many positions above it. -/
def moveUp (sorted : List Int) (i : Nat) : Nat → List Int
  | 0 => sorted
  | above + 1 =>
    if sorted.getD i 0 > sorted.getD (i + 1) 0 then
      moveUp (swapEntries 0 sorted i (i + 1)) (i + 1) above
    else sorted

/-- Returns the filter and the median. -/
def process (m : MedianFilterInt) (currentFill : Int) : MedianFilterInt × Int :=
  let oldest := m.history.getD m.head 0
  let found := m.sorted.idxOf oldest
  let i := if found = m.size then 0 else found
  let down := moveDown (m.sorted.set i currentFill) i
  let sorted := moveUp down.1 down.2 (m.size - 1 - down.2)
  ({ m with
    head := (m.head + 1) % m.size
    history := m.history.set m.head currentFill
    sorted := sorted }, sorted.getD (m.size / 2) 0)

def reset (m : MedianFilterInt) (initialValue : Int) : MedianFilterInt :=
  { m with
    head := 0
    history := List.replicate m.history.length initialValue
    sorted := List.replicate m.sorted.length initialValue }

/-- The filter holds the last `size` of `xs`, padded with `initial`, in the order they came and in
increasing order. -/
structure Tracks (m : MedianFilterInt) (size : Nat) (initial : Int) (xs : List Int) : Prop where
  size_eq : m.size = size
  keeps : KeepsRecent size initial xs m.history m.head
  sorted : m.sorted.Pairwise (· ≤ ·)
  perm : m.sorted.Perm m.history

theorem oddSize_pos (windowSize : Nat) : 0 < oddSize windowSize := by
  rw [oddSize]
  split_ifs <;> omega

theorem create_tracks (windowSize : Nat) :
    (create windowSize).Tracks (oddSize windowSize) 0 [] where
  size_eq := rfl
  keeps := keepsRecent_start (oddSize_pos windowSize)
  sorted := List.pairwise_replicate.mpr (.inr le_rfl)
  perm := .refl _

/-- Going down, the entry stops behind entries that are not greater. -/
theorem moveDown_append (hu : u.Pairwise (· ≤ ·)) :
    ∃ u' v', moveDown (u ++ x :: v) u.length = (u' ++ x :: v', u'.length) ∧
      u' ++ v' = u ++ v ∧ ∀ a ∈ u', a ≤ x := by
  induction u using List.reverseRecOn generalizing v with
  | nil => exact ⟨[], v, rfl, rfl, fun a ha => absurd ha List.not_mem_nil⟩
  | append_singleton u b ih =>
    have hsplit : u ++ [b] ++ x :: v = u ++ b :: x :: v := by simp
    have hlength : (u ++ [b]).length = u.length + 1 := by simp
    have hx : (u ++ b :: x :: v).getD (u.length + 1) 0 = x := by simp
    have hb : (u ++ b :: x :: v).getD u.length 0 = b := by simp
    obtain ⟨hsorted, -, hle⟩ := List.pairwise_append.mp hu
    rw [hsplit, hlength, moveDown, hx, hb]
    by_cases hlt : x < b
    · rw [if_pos hlt, swapEntries_append]
      obtain ⟨u', v', hmove, heq, hu'⟩ := ih (v := b :: v) hsorted
      exact ⟨u', v', hmove, by simpa using heq, hu'⟩
    · rw [if_neg hlt]
      refine ⟨u ++ [b], v, by simp, rfl, ?_⟩
      intro a ha
      rcases List.mem_append.mp ha with ha | ha
      · exact (hle a ha b (List.mem_singleton_self b)).trans (not_lt.mp hlt)
      · exact (List.mem_singleton.mp ha).trans_le (not_lt.mp hlt)

/-- Going up from there, it reaches its place. -/
theorem moveUp_append (hs : (u ++ v).Pairwise (· ≤ ·)) (hu : ∀ a ∈ u, a ≤ x) :
    (moveUp (u ++ x :: v) u.length v.length).Pairwise (· ≤ ·) ∧
      (moveUp (u ++ x :: v) u.length v.length).Perm (x :: (u ++ v)) := by
  induction v generalizing u with
  | nil =>
    exact ⟨pairwise_append_cons hs hu fun b hb => absurd hb List.not_mem_nil, List.perm_middle⟩
  | cons b v ih =>
    have hx : (u ++ x :: b :: v).getD u.length 0 = x := by simp
    have hb : (u ++ x :: b :: v).getD (u.length + 1) 0 = b := by simp
    rw [List.length_cons, moveUp, hx, hb]
    by_cases hlt : x > b
    · rw [if_pos hlt, swapEntries_append]
      have hnext := ih (u := u ++ [b]) (by simpa using hs) ?_
      · simpa using hnext
      · intro a ha
        rcases List.mem_append.mp ha with ha | ha
        · exact hu a ha
        · exact (List.mem_singleton.mp ha).trans_le hlt.le
    · rw [if_neg hlt]
      refine ⟨pairwise_append_cons hs hu ?_, List.perm_middle⟩
      obtain ⟨-, hv, -⟩ := List.pairwise_append.mp hs
      intro c hc
      rcases List.mem_cons.mp hc with rfl | hc
      · exact not_lt.mp hlt
      · exact (not_lt.mp hlt).trans ((List.pairwise_cons.mp hv).1 c hc)

/-- The two loops bring the entry to its place. -/
theorem moveUp_moveDown (hs : (u ++ v).Pairwise (· ≤ ·)) (x : Int)
    (hsize : size = u.length + v.length + 1) :
    (moveUp (moveDown (u ++ x :: v) u.length).1 (moveDown (u ++ x :: v) u.length).2
        (size - 1 - (moveDown (u ++ x :: v) u.length).2)).Pairwise (· ≤ ·) ∧
      (moveUp (moveDown (u ++ x :: v) u.length).1 (moveDown (u ++ x :: v) u.length).2
        (size - 1 - (moveDown (u ++ x :: v) u.length).2)).Perm (x :: (u ++ v)) := by
  obtain ⟨u', v', hdown, heq, hle⟩ := moveDown_append (x := x) (v := v)
    (List.pairwise_append.mp hs).1
  have hlength := congrArg List.length heq
  rw [List.length_append, List.length_append] at hlength
  have habove : size - 1 - u'.length = v'.length := by omega
  rw [hdown, ← heq]
  dsimp only
  rw [habove]
  exact moveUp_append (heq ▸ hs) hle

/-- The sorted array after a call holds the new value for the oldest. -/
theorem sorted_process (h : m.Tracks size initial xs) (x : Int) :
    (m.process x).1.sorted.Pairwise (· ≤ ·) ∧
      (m.process x).1.sorted.Perm (m.process x).1.history := by
  have hlength := h.keeps.length_eq
  have hhead : m.head < m.history.length := hlength.symm ▸ h.keeps.index_lt
  obtain ⟨front, back, hhistory, hfront, hset⟩ : ∃ front back,
      m.history = front ++ m.history[m.head] :: back ∧ front.length = m.head ∧
        m.history.set m.head x = front ++ x :: back := List.exists_of_set hhead
  have holdest : m.history.getD m.head 0 = m.history[m.head] := List.getD_eq_getElem _ _ hhead
  have hfound : m.sorted.idxOf m.history[m.head] < m.sorted.length :=
    List.idxOf_lt_length_iff.mpr (h.perm.mem_iff.mpr (List.getElem_mem hhead))
  obtain ⟨u, v, hsorted, hu, hset'⟩ : ∃ u v,
      m.sorted = u ++ m.sorted[m.sorted.idxOf m.history[m.head]] :: v ∧
        u.length = m.sorted.idxOf m.history[m.head] ∧
        m.sorted.set (m.sorted.idxOf m.history[m.head]) x = u ++ x :: v :=
    List.exists_of_set hfound
  rw [List.getElem_idxOf hfound] at hsorted
  generalize m.history[m.head] = oldest at *
  have hperm : (u ++ v).Perm (front ++ back) := by
    have hall := h.perm
    rw [hsorted, hhistory] at hall
    exact ((List.perm_middle.symm.trans hall).trans List.perm_middle).cons_inv
  have hrest : (u ++ v).Pairwise (· ≤ ·) := by
    have hall := h.sorted
    rw [hsorted] at hall
    exact hall.sublist ((List.sublist_cons_self _ v).append_left u)
  have hsize : m.size = m.sorted.length := by
    rw [h.size_eq, ← hlength, h.perm.length_eq]
  have hfound' : m.sorted.idxOf oldest ≠ m.size := hsize ▸ hfound.ne
  simp only [process]
  rw [holdest, if_neg hfound', hset', hset, ← hu]
  rw [hsorted, List.length_append, List.length_cons, ← Nat.add_assoc] at hsize
  obtain ⟨hpairwise, hmoved⟩ := moveUp_moveDown hrest x hsize
  exact ⟨hpairwise, hmoved.trans ((hperm.cons x).trans List.perm_middle.symm)⟩

theorem process_tracks (h : m.Tracks size initial xs) (x : Int) :
    (m.process x).1.Tracks size initial (xs ++ [x]) where
  size_eq := h.size_eq
  keeps := by
    have hpush := h.keeps.push (x := x)
    rwa [← h.size_eq] at hpush ⊢
  sorted := (sorted_process h x).1
  perm := (sorted_process h x).2

theorem process_result (h : m.Tracks size initial xs) (x : Int) :
    (m.process x).2 = median 0 (recent size initial (xs ++ [x])) := by
  have hnext := process_tracks h x
  rw [median, length_recent, ← h.size_eq,
    nthSmallest_of_sorted hnext.sorted (hnext.perm.trans (h.size_eq ▸ hnext.keeps.perm))]
  rfl

theorem reset_tracks (h : m.Tracks size initial xs) (v : Int) :
    (m.reset v).Tracks size v [] where
  size_eq := h.size_eq
  keeps := by
    rw [reset, h.keeps.length_eq]
    exact keepsRecent_start (Nat.zero_lt_of_lt h.keeps.index_lt)
  sorted := List.pairwise_replicate.mpr (.inr le_rfl)
  perm := by
    rw [reset, h.perm.length_eq]

inductive Call
  | process (currentFill : Int)
  | reset (initialValue : Int)

def call (m : MedianFilterInt) : Call → MedianFilterInt
  | .process currentFill => (m.process currentFill).1
  | .reset initialValue => m.reset initialValue

/-- The filter after a sequence of calls. -/
def after (windowSize : Nat) (calls : List Call) : MedianFilterInt :=
  calls.foldl call (create windowSize)

/-- The value of the last reset, and the inputs since. -/
def sinceReset (calls : List Call) : Int × List Int :=
  calls.foldl (fun since c => match c with
    | .process currentFill => (since.1, since.2 ++ [currentFill])
    | .reset initialValue => (initialValue, [])) (0, [])

theorem after_tracks (windowSize : Nat) (calls : List Call) :
    (after windowSize calls).Tracks (oddSize windowSize) (sinceReset calls).1
      (sinceReset calls).2 := by
  induction calls using List.reverseRecOn with
  | nil => exact create_tracks windowSize
  | append_singleton calls c ih =>
    rw [after, sinceReset, List.foldl_concat, List.foldl_concat]
    cases c with
    | process x => exact process_tracks ih x
    | reset v => exact reset_tracks ih v

/-- After any calls the filter tracks the inputs since the last reset, and the next call returns
their median. -/
theorem median_of_window (windowSize : Nat) (calls : List Call) :
    (after windowSize calls).Tracks (oddSize windowSize) (sinceReset calls).1
      (sinceReset calls).2 ∧
    ∀ x, ((after windowSize calls).process x).2 =
      median 0 (recent (oddSize windowSize) (sinceReset (calls ++ [.process x])).1
        (sinceReset (calls ++ [.process x])).2) := by
  refine ⟨after_tracks windowSize calls, fun x => ?_⟩
  rw [sinceReset, List.foldl_concat]
  exact process_result (after_tracks windowSize calls) x

/-- The inputs go into the filter one after the other. -/
def processAll (windowSize : Nat) (inputs : List Int) : MedianFilterInt :=
  after windowSize (inputs.map .process)

theorem processAll_result (windowSize : Nat) (inputs : List Int) (x : Int) :
    ((processAll windowSize inputs).process x).2 =
      median 0 (recent (oddSize windowSize) 0 (inputs ++ [x])) := by
  have hsince : sinceReset (inputs.map .process) = (0, inputs) := by
    induction inputs using List.reverseRecOn with
    | nil => rfl
    | append_singleton inputs y ih =>
      rw [List.map_append, sinceReset, List.map_singleton, List.foldl_concat]
      rw [sinceReset] at ih
      rw [ih]
  have htracks := after_tracks windowSize (inputs.map .process)
  rw [hsince] at htracks
  exact process_result htracks x

end MedianFilterInt

end Vban
