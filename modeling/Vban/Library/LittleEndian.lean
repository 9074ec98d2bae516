import Mathlib.Algebra.Order.Ring.Nat
import Mathlib.Data.List.Basic

/-! Fixed-width unsigned numbers as little-endian bytes, and byte strings that end at a zero. -/
namespace Vban.Library

def leNat : List UInt8 → Nat
  | [] => 0
  | b :: bs => b.toNat + 256 * leNat bs

def leBytes : Nat → Nat → List UInt8
  | 0, _ => []
  | k + 1, n => UInt8.ofNat n :: leBytes k (n / 256)

@[simp] theorem length_leBytes (k n : Nat) : (leBytes k n).length = k := by
  induction k generalizing n with
  | zero => rfl
  | succ k ih => simp [leBytes, ih]

theorem leNat_leBytes {k n : Nat} (h : n < 256 ^ k) : leNat (leBytes k n) = n := by
  induction k generalizing n with
  | zero =>
    rw [leBytes, leNat]
    omega
  | succ k ih =>
    have : n / 256 < 256 ^ k := Nat.div_lt_of_lt_mul (by rwa [Nat.pow_succ, Nat.mul_comm] at h)
    rw [leBytes, leNat, ih this, UInt8.toNat_ofNat']
    omega

theorem leNat_lt (bytes : List UInt8) : leNat bytes < 256 ^ bytes.length := by
  induction bytes with
  | nil => exact Nat.one_pos
  | cons b bs ih =>
    have := b.toNat_lt
    rw [leNat, List.length_cons, Nat.pow_succ]
    omega

theorem leNat_eq_zero_iff {bytes : List UInt8} : leNat bytes = 0 ↔ ∀ b ∈ bytes, b = 0 := by
  induction bytes with
  | nil => simp [leNat]
  | cons b bytes ih =>
    rw [leNat, Nat.add_eq_zero_iff, List.forall_mem_cons, ← ih, ← UInt8.toNat_inj]
    simp

theorem leBytes_leNat (bytes : List UInt8) : leBytes bytes.length (leNat bytes) = bytes := by
  induction bytes with
  | nil => rfl
  | cons b bs ih =>
    have hb := b.toNat_lt
    have hdiv : (b.toNat + 256 * leNat bs) / 256 = leNat bs := by omega
    have hmod : UInt8.ofNat (b.toNat + 256 * leNat bs) = b := by
      apply UInt8.toNat_inj.mp
      rw [UInt8.toNat_ofNat']
      omega
    rw [List.length_cons, leNat, leBytes, hdiv, hmod, ih]

theorem ofNat_leNat_leBytes (x : UInt32) : UInt32.ofNat (leNat (leBytes 4 x.toNat)) = x := by
  rw [leNat_leBytes x.toNat_lt, UInt32.ofNat_toNat]

theorem leBytes_ofNat_leNat {bytes : List UInt8} (h : bytes.length = 4) :
    leBytes 4 (UInt32.ofNat (leNat bytes)).toNat = bytes := by
  have hlt : leNat bytes < 2 ^ 32 := by
    have hlt := leNat_lt bytes
    rwa [h] at hlt
  rw [UInt32.toNat_ofNat', Nat.mod_eq_of_lt hlt]
  exact h ▸ leBytes_leNat bytes

theorem drop_leBytes (j k n : Nat) : (leBytes (j + k) n).drop j = leBytes k (n / 256 ^ j) := by
  induction j generalizing n with
  | zero => simp
  | succ j ih =>
    rw [Nat.succ_add, leBytes, List.drop_succ_cons, ih, Nat.div_div_eq_div_mul, Nat.pow_succ']

/-- Two's complement. -/
def leInt (bytes : List UInt8) : Int := (leNat bytes : Int).bmod (256 ^ bytes.length)

theorem leInt_emod (bytes : List UInt8) :
    leInt bytes % ((256 ^ bytes.length : Nat) : Int) = leNat bytes := by
  rw [leInt, Int.bmod_emod]
  exact Int.emod_eq_of_lt (Int.natCast_nonneg _) (Int.ofNat_lt.mpr (leNat_lt bytes))

/-- A condition on all items, from the list's own test. -/
theorem forall_mem_of_all {α : Type*} {xs : List α} {p : α → Prop} [DecidablePred p]
    (h : xs.all (fun x => decide (p x)) = true) : ∀ x ∈ xs, p x := by
  simpa using h

/-- The characters of a C string, without the terminating zero. -/
def cString (bytes : List UInt8) : List UInt8 := bytes.takeWhile (· ≠ 0)

theorem cString_append_zero {bytes : List UInt8} (h : ∀ c ∈ bytes, c ≠ 0) (rest : List UInt8) :
    cString (bytes ++ 0 :: rest) = bytes := by
  rw [cString, List.takeWhile_append_of_pos (by simpa using h)]
  simp

theorem cString_append {bytes rest : List UInt8} (h : ∀ c ∈ bytes, c ≠ 0)
    (hrest : ∀ c ∈ rest.head?, c = 0) : cString (bytes ++ rest) = bytes := by
  cases rest with
  | nil =>
    rw [cString, List.takeWhile_append_of_pos (by simpa using h)]
    exact List.append_nil bytes
  | cons c rest =>
    obtain rfl := hrest c rfl
    exact cString_append_zero h rest

theorem length_cString_append_zero_le (bytes rest : List UInt8) :
    (cString (bytes ++ 0 :: rest)).length ≤ bytes.length := by
  rw [cString, List.takeWhile_append]
  split_ifs
  · simp
  · exact (List.takeWhile_sublist _).length_le

theorem ne_zero_of_mem_cString (bytes : List UInt8) : ∀ c ∈ cString bytes, c ≠ 0 := by
  intro c hc
  simpa using List.all_eq_true.mp List.all_takeWhile c hc

theorem length_cString_le (bytes : List UInt8) : (cString bytes).length ≤ bytes.length :=
  (List.takeWhile_sublist _).length_le

end Vban.Library
