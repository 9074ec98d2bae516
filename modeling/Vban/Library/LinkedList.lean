import Mathlib.Data.List.Nodup
import Mathlib.Logic.Function.Basic

/-! Singly linked lists in a memory of nodes. -/
namespace Vban.Library

structure Node (α : Type*) where
  value : α
  next : Option Nat

/-- The allocated nodes by their addresses. -/
abbrev NodeMemory (α : Type*) := Nat → Option (Node α)

/-- The list that starts at `p`: the addresses of its nodes, and what is in them. -/
inductive Linked {α : Type*} (mem : NodeMemory α) : Option Nat → List (Nat × α) → Prop
  | nil : Linked mem none []
  | cons {a : Nat} {x : α} {next : Option Nat} {nodes : List (Nat × α)}
      (hnode : mem a = some ⟨x, next⟩) (hnext : Linked mem next nodes) :
      Linked mem (some a) ((a, x) :: nodes)

variable {α : Type*} {mem mem' : NodeMemory α} {p next : Option Nat} {a b : Nat} {x y : α}
  {nodes nodes' : List (Nat × α)}

namespace Linked

theorem unique (h : Linked mem p nodes) (h' : Linked mem p nodes') : nodes = nodes' := by
  induction h generalizing nodes' with
  | nil =>
    cases h'
    rfl
  | cons hnode _ ih =>
    cases h' with
    | cons hnode' hnext' =>
      rw [hnode] at hnode'
      cases hnode'
      rw [ih hnext']

theorem congr (h : Linked mem p nodes) (hmem : ∀ a ∈ nodes.map Prod.fst, mem' a = mem a) :
    Linked mem' p nodes := by
  induction h with
  | nil => exact nil
  | cons hnode _ ih =>
    obtain ⟨hhead, htail⟩ := List.forall_mem_cons.mp hmem
    exact cons (hhead.trans hnode) (ih htail)

/-- From each of its nodes on, a list is one of its ends. -/
theorem suffix_of_mem (h : Linked mem p nodes) (ha : a ∈ nodes.map Prod.fst) :
    ∃ rest, Linked mem (some a) rest ∧ rest <:+ nodes := by
  induction h with
  | nil => cases ha
  | @cons b x next nodes hnode hnext ih =>
    rcases List.mem_cons.mp ha with rfl | htail
    · exact ⟨_, cons hnode hnext, List.suffix_refl _⟩
    · obtain ⟨rest, hrest, hsuffix⟩ := ih htail
      exact ⟨rest, hrest, hsuffix.trans (List.suffix_cons _ _)⟩

/-- A list that ends has no node twice. -/
theorem head_notMem (h : Linked mem (some a) ((a, x) :: nodes)) : a ∉ nodes.map Prod.fst := by
  intro ha
  cases h with
  | cons hnode hnext =>
    obtain ⟨rest, hrest, hsuffix⟩ := hnext.suffix_of_mem ha
    have hlength := hsuffix.length_le
    rw [hrest.unique (cons hnode hnext), List.length_cons] at hlength
    omega

/-- The second node taken out of a list and freed. -/
theorem unlink (ha : mem a = some ⟨x, some b⟩) (hb : mem b = some ⟨y, next⟩)
    (h : Linked mem next nodes) :
    Linked (Function.update (Function.update mem a (some ⟨x, next⟩)) b none) (some a)
      ((a, x) :: nodes) := by
  have hlist : Linked mem (some a) ((a, x) :: (b, y) :: nodes) := cons ha (cons hb h)
  obtain ⟨hab, hnotin⟩ := not_or.mp (mt List.mem_cons.mpr hlist.head_notMem)
  have hbnotin := (cons hb h).head_notMem
  refine cons ?_ (h.congr ?_)
  · rw [Function.update_of_ne hab, Function.update_self]
  · intro c hc
    have hcb : c ≠ b := fun he => hbnotin (he ▸ hc)
    have hca : c ≠ a := fun he => hnotin (he ▸ hc)
    rw [Function.update_of_ne hcb, Function.update_of_ne hca]

end Linked

end Vban.Library
