import Vban.Library.Window

/-! Cells of one width in an array that do not overlap, and stores into some of them. -/
namespace Vban.Library

/-- Where the cells are. -/
structure Grid (κ : Type*) (width size : Nat) where
  place : κ → Nat
  inside : ∀ k, place k + width ≤ size
  apart : ∀ j k, j ≠ k → place j + width ≤ place k ∨ place k + width ≤ place j

namespace Grid

variable {α κ : Type*} {width size : Nat} {g : Grid κ width size} {mem mem' mem'' : List α}
  {a b : κ → Option (List α)} {xs : List α} {i : Nat} {k : κ}

/-- Cells that lie behind each other, without gaps. -/
def ofIndex (index : κ → Nat) (count : Nat) (hinj : Function.Injective index)
    (hlt : ∀ k, index k < count) : Grid κ width (width * count) where
  place k := width * index k
  inside k := by
    rw [← Nat.mul_succ]
    exact Nat.mul_le_mul_left _ (hlt k)
  apart j k hne := by
    rw [← Nat.mul_succ, ← Nat.mul_succ]
    rcases Nat.lt_or_gt_of_ne (hinj.ne hne) with hlt | hgt
    · exact .inl (Nat.mul_le_mul_left _ hlt)
    · exact .inr (Nat.mul_le_mul_left _ hgt)

/-- What a cell holds. -/
def cell (g : Grid κ width size) (mem : List α) (k : κ) : List α :=
  (mem.drop (g.place k)).take width

/-- The item belongs to the cell. -/
def Covers (g : Grid κ width size) (k : κ) (i : Nat) : Prop :=
  g.place k ≤ i ∧ i < g.place k + width

theorem length_cell (hmem : mem.length = size) : (g.cell mem k).length = width := by
  have hinside := g.inside k
  rw [cell, List.length_take, List.length_drop]
  omega

theorem getElem?_cell (hi : i < width) : (g.cell mem k)[i]? = mem[g.place k + i]? := by
  rw [cell, List.getElem?_take_of_lt hi, List.getElem?_drop]

/-- Some cells have new contents, and nothing else has changed. -/
structure Rewritten (g : Grid κ width size) (new : κ → Option (List α)) (mem mem' : List α) :
    Prop where
  length_eq : mem'.length = mem.length
  cell_eq : ∀ k, g.cell mem' k = (new k).getD (g.cell mem k)
  outside : ∀ i, (∀ k, g.Covers k i → new k = none) → mem'[i]? = mem[i]?

theorem Rewritten.refl (g : Grid κ width size) (mem : List α) :
    g.Rewritten (fun _ => none) mem mem :=
  ⟨rfl, fun _ => rfl, fun _ _ => rfl⟩

/-- The later contents count. -/
theorem Rewritten.trans (h : g.Rewritten a mem mem') (h' : g.Rewritten b mem' mem'') :
    g.Rewritten (fun k => (b k).or (a k)) mem mem'' where
  length_eq := h'.length_eq.trans h.length_eq
  cell_eq := by
    intro k
    rw [h'.cell_eq, h.cell_eq]
    cases b k <;> rfl
  outside := by
    intro i hi
    rw [h'.outside i fun k hk => (Option.or_eq_none_iff.mp (hi k hk)).1,
      h.outside i fun k hk => (Option.or_eq_none_iff.mp (hi k hk)).2]

theorem Rewritten.congr (h : g.Rewritten a mem mem') (hab : ∀ k, a k = b k) :
    g.Rewritten b mem mem' := by
  obtain rfl : a = b := funext hab
  exact h

/-- Nothing has changed if the new contents are the old ones. -/
theorem Rewritten.eq (h : g.Rewritten a mem mem') (hsame : ∀ k, g.cell mem' k = g.cell mem k) :
    mem' = mem := by
  apply List.ext_getElem?
  intro i
  by_cases hcover : ∃ k, g.Covers k i
  · obtain ⟨k, hlow, hhigh⟩ := hcover
    obtain ⟨j, rfl⟩ := Nat.exists_eq_add_of_le hlow
    rw [← getElem?_cell (by omega), hsame k, getElem?_cell (by omega)]
  · exact h.outside i fun k hk => absurd ⟨k, hk⟩ hcover

/-- One cell is stored. -/
theorem rewritten_overwrite [DecidableEq κ] (hmem : mem.length = size) (hxs : xs.length = width) :
    g.Rewritten (fun j => if j = k then some xs else none) mem (overwrite mem (g.place k) xs) := by
  have hinside := g.inside k
  have hfit : g.place k + xs.length ≤ mem.length := by omega
  have hlength := length_overwrite hfit
  refine ⟨hlength, fun j => ?_, fun i hi => ?_⟩
  · split_ifs with hjk
    · subst hjk
      refine ext_of_lt (length_cell (hlength.trans hmem)) hxs fun i hi => ?_
      rw [getElem?_cell hi, getElem?_overwrite hfit, if_pos (by omega), Nat.add_sub_cancel_left,
        Option.getD_some]
    · refine ext_of_lt (length_cell (hlength.trans hmem)) (length_cell hmem) fun i hi => ?_
      have hapart := g.apart j k hjk
      rw [getElem?_cell hi, getElem?_overwrite hfit, if_neg (by omega), Option.getD_none,
        getElem?_cell hi]
  · have hcover : ¬g.Covers k i := by
      intro h
      have hnone := hi k h
      rw [if_pos rfl] at hnone
      exact absurd hnone (Option.some_ne_none xs)
    rw [Covers] at hcover
    rw [getElem?_overwrite hfit, if_neg (by omega)]

end Grid

end Vban.Library
