import Mathlib.Data.List.Nodup

/-! Allocations that are freed at most once, and who owns what a pointer points to. -/
namespace Vban.Library

/-- `foreign` is memory that somebody else allocates and frees. -/
inductive Pointer (β : Type*)
  | null
  | block (i : Nat)
  | foreign (b : β)
deriving DecidableEq

/-- How many allocations have been made, and which of them have been freed. -/
structure Heap where
  allocated : Nat
  freed : List Nat
  nodup : freed.Nodup
  lt : ∀ i ∈ freed, i < allocated

inductive Ownership
  | null
  | owned
  | freed
  | borrowed
deriving DecidableEq

/-- Who owns what `free` is called with. `none` is an undefined call. -/
def Ownership.free : Ownership → Option Ownership
  | null => some null
  | owned => some freed
  | freed | borrowed => none

namespace Heap

variable {β : Type*} {h h' : Heap} {p : Pointer β} {i : Nat}

def empty : Heap := ⟨0, [], List.nodup_nil, nofun⟩

/-- The block `i` has been allocated, and not been freed. -/
def Live (h : Heap) (i : Nat) : Prop := i < h.allocated ∧ i ∉ h.freed

instance : Decidable (h.Live i) := inferInstanceAs (Decidable (_ ∧ _))

def ownership (h : Heap) : Pointer β → Ownership
  | .null => .null
  | .block i => if h.Live i then .owned else .freed
  | .foreign _ => .borrowed

/-- The new block is the one under the number `h.allocated`. -/
def malloc (h : Heap) : Heap :=
  ⟨h.allocated + 1, h.freed, h.nodup, fun i hi => Nat.lt_succ_of_lt (h.lt i hi)⟩

def release (h : Heap) (i : Nat) (hi : h.Live i) : Heap :=
  ⟨h.allocated, i :: h.freed, List.nodup_cons.mpr ⟨hi.2, h.nodup⟩,
    List.forall_mem_cons.mpr ⟨hi.1, h.lt⟩⟩

/-- `none` is a pointer to something else than a block that is live. -/
def free (h : Heap) : Pointer β → Option Heap
  | .null => some h
  | .block i => if hi : h.Live i then some (h.release i hi) else none
  | .foreign _ => none

/-- Freeing acts on the owner. -/
theorem ownership_free (h : Heap) (p : Pointer β) :
    (h.free p).map (fun h' => h'.ownership p) = (h.ownership p).free := by
  cases p with
  | null => rfl
  | block i =>
    by_cases hi : h.Live i
    · have hfreed : ¬(h.release i hi).Live i := fun hlive => hlive.2 List.mem_cons_self
      rw [free, dif_pos hi, Option.map_some, ownership, if_neg hfreed, ownership, if_pos hi]
      rfl
    · rw [free, dif_neg hi, ownership, if_neg hi]
      rfl
  | foreign b => rfl

theorem ownership_malloc (h : Heap) :
    h.malloc.ownership (.block h.allocated : Pointer β) = .owned := by
  have hnew : h.malloc.Live h.allocated :=
    ⟨Nat.lt_succ_self _, fun hi => Nat.lt_irrefl _ (h.lt _ hi)⟩
  exact if_pos hnew

/-- Only what is owned or null can be freed. -/
theorem free_eq_none_iff :
    h.free p = none ↔ h.ownership p = .freed ∨ h.ownership p = .borrowed := by
  have hfree := h.ownership_free p
  cases howner : h.ownership p with
  | null | owned =>
    rw [howner] at hfree
    cases hp : h.free p with
    | none => simp [hp, Ownership.free] at hfree
    | some h' => simp
  | freed | borrowed =>
    rw [howner] at hfree
    simpa using Option.map_eq_none_iff.mp hfree

/-- What has been freed is null still, or freed. -/
theorem ownership_of_free (hfree : h.free p = some h') :
    h.ownership p = .null ∧ h'.ownership p = .null ∨
      h.ownership p = .owned ∧ h'.ownership p = .freed := by
  have howner := h.ownership_free p
  rw [hfree, Option.map_some] at howner
  cases hp : h.ownership p with
  | null =>
    rw [hp] at howner
    exact Or.inl ⟨rfl, Option.some.inj howner⟩
  | owned =>
    rw [hp] at howner
    exact Or.inr ⟨rfl, Option.some.inj howner⟩
  | freed | borrowed =>
    rw [hp] at howner
    cases howner

end Heap

end Vban.Library
