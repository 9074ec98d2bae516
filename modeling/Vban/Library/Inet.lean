import Mathlib.Data.List.TakeWhile
import Vban.Library.Decimal
import Vban.Library.LittleEndian
import Vban.Library.Outcome

/-! Internet addresses as texts. -/
namespace Vban.Library

def octet (text : List UInt8) : Option UInt8 :=
  if text ≠ [] ∧ text.all isDigit ∧ (text.head? = some 48 → text.length = 1) ∧
      readDigits text ≤ 255 then some (UInt8.ofNat (readDigits text))
  else none

/-- `inet_pton`: four octets with dots between them. -/
def inetPton (text : List UInt8) : Option (Vector UInt8 4) :=
  match (text.splitOn 46).mapM octet with
  | some [a, b, c, d] => some #v[a, b, c, d]
  | _ => none

def digitValue (c : UInt8) : Nat :=
  if isDigit c then c.toNat - 48
  else if 97 ≤ c ∧ c ≤ 102 then c.toNat - 87
  else if 65 ≤ c ∧ c ≤ 70 then c.toNat - 55
  else 16

def digitsIn (base : Nat) (text : List UInt8) : Nat × List UInt8 :=
  ((text.takeWhile (digitValue · < base)).foldl (fun n c => base * n + digitValue c) 0,
    text.dropWhile (digitValue · < base))

/-- `strtoul` with base 0, on a text that starts with a digit. -/
def strtoul (text : List UInt8) : Nat × List UInt8 :=
  match text with
  | 48 :: x :: rest =>
    if (x = 120 ∨ x = 88) ∧ rest.head?.any (digitValue · < 16) then digitsIn 16 rest
    else digitsIn 8 (48 :: x :: rest)
  | _ => digitsIn 10 text

/-- At most `k` numbers with dots between them, and what follows. -/
def inetParts : Nat → List UInt8 → Option (List Nat × List UInt8)
  | 0, _ => none
  | k + 1, text =>
    if text.head?.any isDigit then
      match strtoul text with
      | (n, 46 :: rest) => (inetParts k rest).map fun p => (n :: p.1, p.2)
      | (n, rest) => some ([n], rest)
    else none

/-- `inet_addr`: the last number fills the bytes that are left. The address as it stands in memory
is read as a little-endian number. -/
def inetAddr (text : List UInt8) : UInt32 :=
  match inetParts 4 text with
  | none => 0xFFFFFFFF
  | some (parts, rest) =>
    let last := parts.getLastD 0
    if rest.head?.all isSpace ∧ parts.dropLast.all (· ≤ 255) ∧
        last < 256 ^ (5 - parts.length) then
      UInt32.ofNat (leNat
        (parts.dropLast.map UInt8.ofNat ++ (leBytes (5 - parts.length) last).reverse))
    else 0xFFFFFFFF

/-- `%d.%d.%d.%d` -/
def dotted (a b c d : UInt8) : List UInt8 :=
  decimal a.toNat ++ 46 :: (decimal b.toNat ++ 46 :: (decimal c.toNat ++ 46 :: decimal d.toNat))

/-- An address is written with digits and dots. -/
theorem notMem_dotted {a b c d x : UInt8} (hx : isDigit x = false) (hdot : x ≠ 46) :
    x ∉ dotted a b c d := by
  simp [dotted, notMem_decimal hx, hdot]

theorem octet_decimal (a : UInt8) : octet (decimal a.toNat) = some a := by
  have h : ∀ n : Fin 256, octet (decimal n) = some (UInt8.ofNat n) := by
    decide +kernel
  have ha := h ⟨a.toNat, a.toNat_lt⟩
  rwa [UInt8.ofNat_toNat] at ha

/-- An address reads back from its dotted form. -/
theorem inetPton_dotted (a b c d : UInt8) : inetPton (dotted a b c d) = some #v[a, b, c, d] := by
  have hdot : ∀ n : UInt8, 46 ∉ decimal n.toNat := fun _ => notMem_decimal rfl
  have hsplit : (dotted a b c d).splitOn 46 =
      [decimal a.toNat, decimal b.toNat, decimal c.toNat, decimal d.toNat] := by
    rw [dotted, List.splitOn_append_cons_self_of_not_mem (hdot a),
      List.splitOn_append_cons_self_of_not_mem (hdot b),
      List.splitOn_append_cons_self_of_not_mem (hdot c), List.splitOn_eq_singleton (hdot d)]
  rw [inetPton, hsplit]
  simp [octet_decimal]

/-- An octet has no more digits than 255. -/
theorem octet_digits {text : List UInt8} {b : UInt8} (h : octet text = some b) :
    text.length ≤ 3 ∧ ∀ c ∈ text, isDigit c = true := by
  rw [octet] at h
  split_ifs at h with hoctet
  obtain ⟨hne, hall, hzero, hle⟩ := hoctet
  have hdigits : ∀ c ∈ text, isDigit c = true := List.all_eq_true.mp hall
  refine ⟨?_, hdigits⟩
  obtain ⟨c, digits, rfl⟩ := List.exists_cons_of_ne_nil hne
  by_cases hc : c = 48
  · have := hzero (by rw [hc]; rfl)
    omega
  · have hdigit := hdigits c List.mem_cons_self
    have hpos : 1 ≤ c.toNat - 48 := by
      rw [isDigit, Bool.and_eq_true, decide_eq_true_eq, decide_eq_true_eq, UInt8.le_iff_toNat_le,
        UInt8.le_iff_toNat_le] at hdigit
      have hne : c.toNat ≠ 48 := fun heq => hc (UInt8.toNat_inj.mp heq)
      have hlow : 48 ≤ c.toNat := hdigit.1
      omega
    have hread : readDigits (c :: digits) =
        digits.foldl (fun n c => 10 * n + (c.toNat - 48)) (c.toNat - 48) := by
      rw [readDigits, List.takeWhile_eq_self_iff.mpr hdigits, List.foldl_cons, Nat.mul_zero,
        Nat.zero_add]
    have hpow : 10 ^ digits.length < 10 ^ 3 := by
      have hfold := le_foldl_digits digits (c.toNat - 48)
      have hmul := Nat.mul_le_mul_right (10 ^ digits.length) hpos
      rw [hread] at hle
      omega
    have := (Nat.pow_lt_pow_iff_right (by decide)).mp hpow
    rw [List.length_cons]
    omega

/-- An accepted address has at most 15 characters, digits and dots. -/
theorem inetPton_text {text : List UInt8} {ip : Vector UInt8 4} (h : inetPton text = some ip) :
    text ≠ [] ∧ text.length ≤ 15 ∧ ∀ c ∈ text, isDigit c = true ∨ c = 46 := by
  rw [inetPton] at h
  split at h
  · rename_i a b c d hparts
    have hjoin : [46].intercalate (text.splitOn 46) = text := List.intercalate_splitOn 46
    generalize text.splitOn 46 = parts at hparts hjoin
    rw [mapM_eq_some_iff, List.forall₂_cons_right_iff] at hparts
    obtain ⟨p, _, hp, hparts, rfl⟩ := hparts
    rw [List.forall₂_cons_right_iff] at hparts
    obtain ⟨q, _, hq, hparts, rfl⟩ := hparts
    rw [List.forall₂_cons_right_iff] at hparts
    obtain ⟨r, _, hr, hparts, rfl⟩ := hparts
    rw [List.forall₂_cons_right_iff] at hparts
    obtain ⟨s, _, hs, hparts, rfl⟩ := hparts
    obtain rfl := List.forall₂_nil_right_iff.mp hparts
    obtain rfl : p ++ 46 :: (q ++ 46 :: (r ++ 46 :: s)) = text := by
      simpa [List.intercalate] using hjoin
    obtain ⟨hplen, hpdigits⟩ := octet_digits hp
    obtain ⟨hqlen, hqdigits⟩ := octet_digits hq
    obtain ⟨hrlen, hrdigits⟩ := octet_digits hr
    obtain ⟨hslen, hsdigits⟩ := octet_digits hs
    refine ⟨by simp, ?_, ?_⟩
    · simp only [List.length_append, List.length_cons]
      omega
    · intro c hc
      simp only [List.mem_append, List.mem_cons] at hc
      rcases hc with hc | hc | hc | hc | hc | hc | hc
      · exact Or.inl (hpdigits c hc)
      · exact Or.inr hc
      · exact Or.inl (hqdigits c hc)
      · exact Or.inr hc
      · exact Or.inl (hrdigits c hc)
      · exact Or.inr hc
      · exact Or.inl (hsdigits c hc)
  · cases h

example : inetAddr [49, 50, 55, 46, 49] = 0x0100007F := by decide

end Vban.Library
