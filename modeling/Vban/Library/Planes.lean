import Mathlib.Data.Nat.ModEq
import Vban.Library.Outcome
import Vban.Library.Window

/-! Planes of one length in an array, and loops that treat one plane after the other. -/
namespace Vban.Library

variable {α : Type*} {buf buf' : List α} {xs : List α} {x : α} {di n j k p src : Nat} {i : Int}

/-- `none` is outside the array. -/
def readCell (buf : List α) (i : Int) : Option α := if 0 ≤ i then buf[i.toNat]? else none

def writeCell (buf : List α) (i : Int) (x : α) : Option (List α) :=
  if 0 ≤ i ∧ i.toNat < buf.length then some (buf.set i.toNat x) else none

/-- `memmove` inside one array. -/
def moveCells (buf : List α) (dst src n : Int) : Option (List α) :=
  if 0 ≤ dst ∧ 0 ≤ src ∧ 0 ≤ n ∧ dst + n ≤ buf.length ∧ src + n ≤ buf.length then
    some (overwrite buf dst.toNat ((buf.drop src.toNat).take n.toNat))
  else none

theorem readCell_natCast (buf : List α) (k : Nat) : readCell buf k = buf[k]? := by
  rw [readCell, if_pos (Int.natCast_nonneg k), Int.toNat_natCast]

theorem exists_readCell (h : 0 ≤ i ∧ i < buf.length) : ∃ x, readCell buf i = some x := by
  rw [readCell, if_pos h.1]
  exact ⟨_, List.getElem?_eq_getElem (by omega)⟩

theorem writeCell_natCast (h : k < buf.length) (x : α) :
    writeCell buf k x = some (buf.set k x) := by
  rw [writeCell, Int.toNat_natCast, if_pos ⟨Int.natCast_nonneg k, h⟩]

theorem moveCells_natCast {dst : Nat} (hdst : dst + n ≤ buf.length) (hsrc : src + n ≤ buf.length) :
    moveCells buf dst src n = some (overwrite buf dst ((buf.drop src).take n)) := by
  rw [moveCells, if_pos (by omega), Int.toNat_natCast, Int.toNat_natCast, Int.toNat_natCast]

theorem plane_div (hk : k < di) : (j * di + k) / di = j := by
  rw [Nat.mul_comm, Nat.mul_add_div (by omega), Nat.div_eq_of_lt hk, Nat.add_zero]

theorem plane_lt (hj : j < n) (hk : k < di) : j * di + k < n * di := by
  have hle : (j + 1) * di ≤ n * di := Nat.mul_le_mul_right _ hj
  rw [Nat.succ_mul] at hle
  omega

/-- What one turn of a loop over the planes does: it changes its own plane only. -/
structure PlaneTurn (buf : List α) (di j : Nat) (new : Nat → Option α) (buf' : List α) : Prop where
  length_eq : buf'.length = buf.length
  new_eq : ∀ k, k < di → buf'[j * di + k]? = new k
  frame_eq : ∀ i, i / di ≠ j → buf'[i]? = buf[i]?

/-- A loop of such turns changes every plane as its turn does. -/
theorem planes_loop {f : List α → Nat → Option (List α)} {new : Nat → Nat → Option α}
    (hturn : ∀ buf' j, j < n → buf'.length = buf.length →
      (∀ k, k < di → buf'[j * di + k]? = buf[j * di + k]?) →
        ∃ buf'', f buf' j = some buf'' ∧ PlaneTurn buf' di j (new j) buf'') :
    ∃ buf', (List.range n).foldlM f buf = some buf' ∧ buf'.length = buf.length ∧
      (∀ j k, j < n → k < di → buf'[j * di + k]? = new j k) ∧
      ∀ i, n ≤ i / di → buf'[i]? = buf[i]? := by
  induction n with
  | zero => exact ⟨buf, rfl, rfl, fun j k hj => absurd hj (Nat.not_lt_zero j), fun _ _ => rfl⟩
  | succ n ih =>
    obtain ⟨before, hbefore, hlen, hnew, hframe⟩ :=
      ih fun buf' j hj => hturn buf' j (Nat.lt_succ_of_lt hj)
    obtain ⟨after, hafter, hlast⟩ := hturn before n (Nat.lt_succ_self n) hlen fun k hk =>
      hframe _ (plane_div hk).ge
    refine ⟨after, ?_, hlast.length_eq.trans hlen, ?_, ?_⟩
    · rw [List.range_succ, List.foldlM_append, hbefore, some_bind, List.foldlM_cons, hafter]
      rfl
    · intro j k hj hk
      rcases Nat.lt_succ_iff_lt_or_eq.mp hj with hlt | rfl
      · rw [hlast.frame_eq _ (by rw [plane_div hk]; exact hlt.ne), hnew j k hlt hk]
      · exact hlast.new_eq k hk
    · intro i hi
      rw [hlast.frame_eq i (by omega), hframe i (by omega)]

/-- One item is stored in each plane, at the same place. -/
def storeColumn (n di : Nat) (p : Int) (xs : List α) (buf : List α) : Option (List α) :=
  (List.range n).foldlM (fun buf j => do
    let x ← xs[j]?
    writeCell buf (p + (j * di : Nat)) x) buf

theorem storeColumn_spec (hlen : buf.length = n * di) (hp : p < di) (hxs : n ≤ xs.length) :
    ∃ buf', storeColumn n di p xs buf = some buf' ∧ buf'.length = buf.length ∧
      ∀ j k, j < n → k < di →
        buf'[j * di + k]? = if k = p then xs[j]? else buf[j * di + k]? := by
  have hturn (before : List α) (j : Nat) (hj : j < n) (hbefore : before.length = buf.length)
      (hsame : ∀ k, k < di → before[j * di + k]? = buf[j * di + k]?) :
      ∃ after, (do
          let x ← xs[j]?
          writeCell before (p + (j * di : Nat)) x) = some after ∧
        PlaneTurn before di j (fun k => if k = p then xs[j]? else buf[j * di + k]?) after := by
    have hlt : p + j * di < before.length := by
      rw [hbefore, hlen, Nat.add_comm]
      exact plane_lt hj hp
    obtain ⟨x, hx⟩ : ∃ x, xs[j]? = some x := ⟨_, List.getElem?_eq_getElem (hj.trans_le hxs)⟩
    refine ⟨before.set (p + j * di) x, ?_, ?_, ?_, ?_⟩
    · rw [hx, some_bind, ← Int.natCast_add, writeCell_natCast hlt]
    · exact List.length_set
    · intro k hk
      rw [List.getElem?_set]
      split_ifs with h1 h2 h3
      · exact hx.symm
      · omega
      · omega
      · exact hsame k hk
    · intro i hi
      rw [List.getElem?_set_ne]
      rintro rfl
      rw [Nat.add_comm, plane_div hp] at hi
      exact hi rfl
  obtain ⟨buf', hloop, hlength, hnew, -⟩ := planes_loop hturn
  exact ⟨buf', hloop, hlength, hnew⟩

/-- In each plane, `n` items are moved to its start. -/
def moveToStart (planes di : Nat) (src n : Int) (buf : List α) : Option (List α) :=
  (List.range planes).foldlM (fun buf j =>
    moveCells buf (j * di : Nat) (src + (j * di : Nat)) n) buf

theorem moveToStart_spec {planes : Nat} (hlen : buf.length = planes * di) (hn : src + n ≤ di) :
    ∃ buf', moveToStart planes di src n buf = some buf' ∧ buf'.length = buf.length ∧
      ∀ j k, j < planes → k < di →
        buf'[j * di + k]? = if k < n then buf[j * di + (src + k)]? else buf[j * di + k]? := by
  have hturn (before : List α) (j : Nat) (hj : j < planes) (hbefore : before.length = buf.length)
      (hsame : ∀ k, k < di → before[j * di + k]? = buf[j * di + k]?) :
      ∃ after, moveCells before (j * di : Nat) (src + (j * di : Nat)) n = some after ∧
        PlaneTurn before di j
          (fun k => if k < n then buf[j * di + (src + k)]? else buf[j * di + k]?) after := by
    have hplane : j * di + di ≤ before.length := by
      rw [hbefore, hlen, ← Nat.succ_mul]
      exact Nat.mul_le_mul_right _ hj
    have hslice : ((before.drop (src + j * di)).take n).length = n := by
      rw [List.length_take, List.length_drop]
      omega
    have hfit : j * di + ((before.drop (src + j * di)).take n).length ≤ before.length := by
      omega
    refine ⟨overwrite before (j * di) ((before.drop (src + j * di)).take n), ?_, ?_, ?_, ?_⟩
    · rw [← Int.natCast_add, moveCells_natCast (by omega) (by omega)]
    · exact length_overwrite hfit
    · intro k hk
      rw [getElem?_overwrite hfit, hslice]
      split_ifs with h1 h2 h3
      · rw [List.getElem?_take_of_lt (by omega), List.getElem?_drop, ← hsame _ (by omega)]
        congr 1
        omega
      · omega
      · omega
      · exact hsame k hk
    · intro i hi
      rw [getElem?_overwrite hfit, hslice, if_neg]
      rintro ⟨hle, hlt⟩
      apply hi
      rw [← Nat.add_sub_cancel' hle]
      exact plane_div (by omega)
  obtain ⟨buf', hloop, hlength, hnew, -⟩ := planes_loop hturn
  exact ⟨buf', hloop, hlength, hnew⟩

end Vban.Library
