import Mathlib.Algebra.Order.Ring.Nat
import Mathlib.Data.List.Basic
import Mathlib.Tactic.Ring

/-! Numbers as decimal characters. -/
namespace Vban.Library

/-- `%d` of a number that is not negative. -/
def decimal (n : Nat) : List UInt8 := (Nat.toDigits 10 n).map fun c => UInt8.ofNat c.toNat

/-- `%d` -/
def decimalInt (i : Int) : List UInt8 := if i < 0 then 45 :: decimal i.natAbs else decimal i.natAbs

def isDigit (c : UInt8) : Bool := 48 ≤ c && c ≤ 57

/-- The number that the digits at the start of the text stand for. -/
def readDigits (text : List UInt8) : Nat :=
  (text.takeWhile isDigit).foldl (fun n c => 10 * n + (c.toNat - 48)) 0

/-- What `isspace` accepts. -/
def isSpace (c : UInt8) : Bool := c = 32 || 9 ≤ c && c ≤ 13

/-- The number at the start of a text, as `strtol` and `%d` read it. `none` if there is no digit. -/
def readInt (text : List UInt8) : Option Int :=
  let text := text.dropWhile isSpace
  let unsigned := if text.head? = some 45 ∨ text.head? = some 43 then text.tail else text
  if unsigned.head?.any isDigit then
    some (if text.head? = some 45 then -(readDigits unsigned : Int) else readDigits unsigned)
  else none

/-- `atoi` of a number in range. -/
def atoi (text : List UInt8) : Int := (readInt text).getD 0

variable {n k : Nat} {rest : List UInt8}

theorem decimal_ne_nil : decimal n ≠ [] := by
  simp [decimal]

theorem length_decimal_le (hk : 0 < k) (hn : n < 10 ^ k) : (decimal n).length ≤ k := by
  rw [decimal, List.length_map]
  exact (Nat.length_toDigits_le_iff (by decide) hk).mpr hn

/-- A digit keeps its value as a byte. -/
theorem toNat_digit {c : Char} (hc : c.isDigit = true) :
    (UInt8.ofNat c.toNat).toNat = c.toNat ∧ 48 ≤ c.toNat ∧ c.toNat ≤ 57 := by
  simp only [Char.isDigit, Bool.and_eq_true, decide_eq_true_eq] at hc
  have hlow : 48 ≤ c.toNat := hc.1
  have hhigh : c.toNat ≤ 57 := hc.2
  rw [UInt8.toNat_ofNat']
  omega

theorem isDigit_of_mem_decimal : ∀ c ∈ decimal n, isDigit c = true := by
  intro c hc
  obtain ⟨d, hd, rfl⟩ := List.mem_map.mp hc
  obtain ⟨hval, hlow, hhigh⟩ :=
    toNat_digit (Nat.isDigit_of_mem_toDigits (by decide) (by decide) hd)
  rw [isDigit, Bool.and_eq_true, decide_eq_true_eq, decide_eq_true_eq, UInt8.le_iff_toNat_le,
    UInt8.le_iff_toNat_le, hval]
  exact ⟨hlow, hhigh⟩

theorem notMem_decimal {c : UInt8} (hc : isDigit c = false) : c ∉ decimal n := by
  intro h
  rw [isDigit_of_mem_decimal c h] at hc
  cases hc

theorem notMem_decimalInt {c : UInt8} (hc : isDigit c = false) (hminus : c ≠ 45) (i : Int) :
    c ∉ decimalInt i := by
  rw [decimalInt]
  split_ifs
  · simp [notMem_decimal hc, hminus]
  · exact notMem_decimal hc

/-- The digits read back, up to a character that is none. -/
theorem readDigits_decimal (n : Nat) (hrest : ∀ c ∈ rest.head?, isDigit c = false) :
    readDigits (decimal n ++ rest) = n := by
  have hdigits : (decimal n ++ rest).takeWhile isDigit = decimal n := by
    rw [List.takeWhile_append_of_pos isDigit_of_mem_decimal]
    cases rest with
    | nil => simp
    | cons c rest => simp [hrest c rfl]
  have hfold : ∀ (digits : List Char) (m : Nat), (∀ c ∈ digits, c.isDigit = true) →
      (digits.map fun c => UInt8.ofNat c.toNat).foldl (fun n c => 10 * n + (c.toNat - 48)) m =
        Nat.ofDigitChars 10 digits m := by
    intro digits
    induction digits with
    | nil =>
      intro m _
      rfl
    | cons c digits ih =>
      intro m hall
      rw [List.map_cons, List.foldl_cons, (toNat_digit (hall c List.mem_cons_self)).1,
        ih _ fun d hd => hall d (List.mem_cons_of_mem c hd)]
      rfl
  rw [readDigits, hdigits, decimal, hfold _ _ fun c hc =>
    Nat.isDigit_of_mem_toDigits (by decide) (by decide) hc]
  exact Nat.ofDigitChars_ten_toDigits

theorem isDigit_facts {c : UInt8} (hc : isDigit c = true) :
    c ≠ 45 ∧ c ≠ 43 ∧ isSpace c = false := by
  refine ⟨?_, ?_, ?_⟩
  · rintro rfl
    cases hc
  · rintro rfl
    cases hc
  · simp only [isDigit, Bool.and_eq_true, decide_eq_true_eq] at hc
    simp only [isSpace, Bool.or_eq_false_iff, Bool.and_eq_false_iff, decide_eq_false_iff_not]
    grind

theorem readInt_decimal (n : Nat) (hrest : ∀ c ∈ rest.head?, isDigit c = false) :
    readInt (decimal n ++ rest) = some (n : Int) := by
  have hread := readDigits_decimal n hrest
  obtain ⟨c, digits, hdigits⟩ := List.exists_cons_of_ne_nil (decimal_ne_nil (n := n))
  have hc : isDigit c = true := by
    apply isDigit_of_mem_decimal (n := n)
    rw [hdigits]
    exact List.mem_cons_self
  have hsign := isDigit_facts hc
  rw [hdigits, List.cons_append] at hread ⊢
  rw [readInt, List.dropWhile_cons_of_neg (by simp [hsign.2.2])]
  simp [hsign.1, hsign.2.1, hc, hread]

theorem atoi_decimal (n : Nat) : atoi (decimal n) = n := by
  have hread : readInt (decimal n ++ []) = some (n : Int) := readInt_decimal n (by simp)
  rw [List.append_nil] at hread
  rw [atoi, hread, Option.getD_some]

theorem readInt_digits {text : List UInt8} (hne : text ≠ [])
    (hdigits : ∀ c ∈ text, isDigit c = true) : readInt text = some (readDigits text : Int) := by
  obtain ⟨c, digits, rfl⟩ := List.exists_cons_of_ne_nil hne
  have hc := hdigits c List.mem_cons_self
  obtain ⟨hminus, hplus, hspace⟩ := isDigit_facts hc
  rw [readInt, List.dropWhile_cons_of_neg (by simp [hspace])]
  simp [hminus, hplus, hc]

/-- The digits behind a number make it longer. -/
theorem le_foldl_digits (digits : List UInt8) (m : Nat) :
    m * 10 ^ digits.length ≤ digits.foldl (fun n c => 10 * n + (c.toNat - 48)) m := by
  induction digits generalizing m with
  | nil => simp
  | cons c digits ih =>
    have hle := ih (10 * m + (c.toNat - 48))
    rw [List.length_cons, List.foldl_cons, Nat.pow_succ']
    calc m * (10 * 10 ^ digits.length) = 10 * m * 10 ^ digits.length := by ring
      _ ≤ (10 * m + (c.toNat - 48)) * 10 ^ digits.length :=
        Nat.mul_le_mul_right _ (Nat.le_add_right _ _)
      _ ≤ _ := hle

end Vban.Library
