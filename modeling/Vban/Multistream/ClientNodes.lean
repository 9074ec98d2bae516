import Mathlib.Data.List.InsertIdx
import Vban.Library.LinkedList
import Vban.Multistream.ClientList

/-! The client list as it lies in memory. -/
namespace Vban.Multistream.ClientNodes

open Library

variable {α : Type}

/-- Returns the status, the memory and the head of the list. `none` is an access to memory that
is not allocated. -/
def pop (mem : NodeMemory α) (list : Option Nat) : Option (Nat × NodeMemory α × Option Nat) :=
  match list with
  | none => some (1, mem, none)
  | some client => do
    let nextClient := (← mem client).next
    return (0, Function.update mem client none, nextClient)

/-- The loop of `remove_by_index` with the turns left, and the removal behind the node that it
ends at. -/
def removeBehind (mem : NodeMemory α) (current : Nat) : Nat → Option (Nat × NodeMemory α)
  | 0 => do
    let node ← mem current
    match node.next with
    | none => return (1, mem)
    | some tempNode =>
      let mem' := Function.update mem current (some { node with next := (← mem tempNode).next })
      return (0, Function.update mem' tempNode none)
  | turns + 1 => do
    match (← mem current).next with
    | none => return (1, mem)
    | some next => removeBehind mem next turns

def removeByIndex (mem : NodeMemory α) (list : Option Nat) (n : Nat) :
    Option (Nat × NodeMemory α × Option Nat) :=
  if n = 0 then pop mem list
  else do
    let (status, mem) ← removeBehind mem (← list) (n - 1)
    return (status, mem, list)

variable {mem mem' : NodeMemory α} {list : Option Nat} {nodes : List (Nat × α)} {a n : Nat} {x : α}

/-- The `n`-th node is freed, the others are in their places, and nothing else has changed. -/
structure Removed (mem : NodeMemory α) (nodes : List (Nat × α)) (n : Nat) (mem' : NodeMemory α)
    (list' : Option Nat) : Prop where
  linked : Linked mem' list' (nodes.eraseIdx n)
  freed : ∀ node, nodes[n]? = some node → mem' node.1 = none
  untouched : ∀ b, b ∉ nodes.map Prod.fst → mem' b = mem b

theorem removeBehind_of_lt (h : Linked mem (some a) ((a, x) :: nodes)) (hn : n < nodes.length) :
    ∃ mem', removeBehind mem a n = some (0, mem') ∧
      Removed mem ((a, x) :: nodes) (n + 1) mem' (some a) := by
  induction nodes generalizing a x n with
  | nil => cases hn
  | cons second nodes ih =>
    have hnotin := h.head_notMem
    cases h with
    | cons hnode hnext =>
      cases hnext with
      | @cons b y next _ hsecond hrest =>
        have hlinked := hrest.unlink hnode hsecond
        cases n with
        | zero =>
          refine ⟨_, by simp [removeBehind, hnode, hsecond], hlinked, ?_, ?_⟩
          · rintro node hn
            obtain rfl : (b, y) = node := by simpa using hn
            exact Function.update_self _ _ _
          · intro c hc
            simp only [List.map_cons, List.mem_cons, not_or] at hc
            rw [Function.update_of_ne hc.2.1, Function.update_of_ne hc.1]
        | succ n =>
          obtain ⟨mem', heq, hremoved⟩ :=
            ih (Linked.cons hsecond hrest) (Nat.lt_of_succ_lt_succ hn)
          have hhead : mem' a = mem a := hremoved.untouched a hnotin
          refine ⟨mem', by simp [removeBehind, hnode, heq], ?_, hremoved.freed, ?_⟩
          · exact Linked.cons (hhead.trans hnode) hremoved.linked
          · intro c hc
            exact hremoved.untouched c fun hmem => hc (List.mem_cons_of_mem _ hmem)

theorem removeBehind_of_le (h : Linked mem (some a) ((a, x) :: nodes)) (hn : nodes.length ≤ n) :
    removeBehind mem a n = some (1, mem) := by
  induction nodes generalizing a x n with
  | nil =>
    cases h with
    | cons hnode hnext =>
      cases hnext
      cases n <;> simp [removeBehind, hnode]
  | cons second nodes ih =>
    cases n with
    | zero => cases hn
    | succ n =>
      cases h with
      | cons hnode hnext =>
        cases hnext with
        | cons hsecond hrest =>
          have heq := ih (Linked.cons hsecond hrest) (Nat.le_of_succ_le_succ hn)
          simp [removeBehind, hnode, heq]

theorem pop_of_linked (h : Linked mem (some a) ((a, x) :: nodes)) :
    ∃ mem', pop mem (some a) = some (0, mem', nodes.head?.map Prod.fst) ∧
      Removed mem ((a, x) :: nodes) 0 mem' (nodes.head?.map Prod.fst) := by
  have hnotin := h.head_notMem
  cases h with
  | @cons _ _ next _ hnode hnext =>
    have hhead : next = nodes.head?.map Prod.fst := by
      cases hnext <;> rfl
    subst hhead
    refine ⟨Function.update mem a none, by simp [pop, hnode], ?_, ?_, ?_⟩
    · refine hnext.congr fun b hb => ?_
      have hba : b ≠ a := fun he => hnotin (he ▸ hb)
      exact Function.update_of_ne hba _ _
    · rintro node hn
      obtain rfl : (a, x) = node := by simpa using hn
      exact Function.update_self _ _ _
    · intro b hb
      have hba : b ≠ a := (not_or.mp (mt List.mem_cons.mpr hb)).1
      exact Function.update_of_ne hba _ _

/-- The head is the one of the caller, or of the list behind the first client. -/
theorem removeByIndex_of_lt (h : Linked mem list nodes) (hn : n < nodes.length) :
    ∃ mem' list', removeByIndex mem list n = some (0, mem', list') ∧
      Removed mem nodes n mem' list' ∧
      list' = if n = 0 then nodes.tail.head?.map Prod.fst else list := by
  cases h with
  | nil => cases hn
  | @cons a x next nodes hnode hnext =>
    have hlinked := Linked.cons hnode hnext
    cases n with
    | zero =>
      obtain ⟨mem', heq, hremoved⟩ := pop_of_linked hlinked
      exact ⟨mem', _, heq, hremoved, rfl⟩
    | succ n =>
      obtain ⟨mem', heq, hremoved⟩ := removeBehind_of_lt hlinked (Nat.lt_of_succ_lt_succ hn)
      exact ⟨mem', some a, by simp [removeByIndex, heq], hremoved, rfl⟩

theorem removeByIndex_of_le (h : Linked mem list nodes) (hne : nodes ≠ [])
    (hn : nodes.length ≤ n) : removeByIndex mem list n = some (1, mem, list) := by
  cases h with
  | nil => exact absurd rfl hne
  | cons hnode hnext =>
    cases n with
    | zero => cases hn
    | succ n =>
      have heq := removeBehind_of_le (Linked.cons hnode hnext) (Nat.le_of_succ_le_succ hn)
      simp [removeByIndex, heq]

/-- Exactly the client with the index goes, or none does. -/
theorem removeByIndex_spec (h : Linked mem list nodes) (hne : nodes ≠ []) (n : Nat) :
    (n < nodes.length → ∃ mem' list', removeByIndex mem list n = some (0, mem', list') ∧
      Removed mem nodes n mem' list' ∧
      list' = if n = 0 then nodes.tail.head?.map Prod.fst else list) ∧
    (nodes.length ≤ n → removeByIndex mem list n = some (1, mem, list)) :=
  ⟨removeByIndex_of_lt h, removeByIndex_of_le h hne⟩

/-- Three nodes, not in the order of their addresses. -/
def threeNodes : NodeMemory Char
  | 4 => some ⟨'a', some 9⟩
  | 9 => some ⟨'b', some 2⟩
  | 2 => some ⟨'c', none⟩
  | _ => none

theorem threeNodes_linked : Linked threeNodes (some 4) [(4, 'a'), (9, 'b'), (2, 'c')] :=
  .cons rfl (.cons rfl (.cons rfl .nil))

theorem removeByIndex_spec_three :
    (1 < 3 → ∃ mem' list', removeByIndex threeNodes (some 4) 1 = some (0, mem', list') ∧
      Removed threeNodes [(4, 'a'), (9, 'b'), (2, 'c')] 1 mem' list' ∧ list' = some 4) ∧
    (3 ≤ 1 → removeByIndex threeNodes (some 4) 1 = some (1, threeNodes, some 4)) :=
  removeByIndex_spec threeNodes_linked (by decide) 1

/-- What a list in memory is for the server. -/
def clientsOf (nodes : List (Nat × α)) : List α := nodes.map Prod.snd

/-- The list in memory behaves as the list of the server. -/
theorem removeByIndex_refines (h : Linked mem list nodes) (hne : nodes ≠ []) (n : Nat) :
    ∃ status mem' list' nodes', removeByIndex mem list n = some (status, mem', list') ∧
      Linked mem' list' nodes' ∧
      Multistream.removeByIndex (clientsOf nodes) n = .ok (status, clientsOf nodes') := by
  have hlength : (clientsOf nodes).length = nodes.length := List.length_map _
  by_cases hn : n < nodes.length
  · obtain ⟨mem', list', heq, hremoved, -⟩ := removeByIndex_of_lt h hn
    refine ⟨0, mem', list', nodes.eraseIdx n, heq, hremoved.linked, ?_⟩
    rw [removeByIndex_eq (by rwa [hlength]), clientsOf, clientsOf, List.eraseIdx_map]
  · refine ⟨1, mem, list, nodes, removeByIndex_of_le h hne (not_lt.mp hn), h, ?_⟩
    cases nodes with
    | nil => exact absurd rfl hne
    | cons node nodes =>
      cases n with
      | zero => exact absurd (Nat.succ_pos _) hn
      | succ n =>
        have hle : nodes.length ≤ n := Nat.le_of_succ_le_succ (not_lt.mp hn)
        rw [clientsOf, List.map_cons, Multistream.removeByIndex, Multistream.removeBehind_eq,
          if_neg (by simpa using hle), List.eraseIdx_of_length_le (by simpa using hle)]

end Vban.Multistream.ClientNodes
