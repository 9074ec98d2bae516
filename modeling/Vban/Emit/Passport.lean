import Vban.Emit.Arguments

/-! `parse_passport` on any text. -/
namespace Vban

open Library
open Discovery (chars)

variable {locals : PassportLocals} {input address port rest : List UInt8}
  {passport : Vector UInt8 6}

/-- An address, a colon and a port, and nothing behind them. -/
def SpellsPassport (input : List UInt8) (passport : Vector UInt8 6) : Prop :=
  ∃ address port ip, input = address ++ 58 :: port ∧ inetPton address = some ip ∧
    port ≠ [] ∧ (∀ c ∈ port, isDigit c = true) ∧ readDigits port ≤ 65535 ∧
    passport = ip ++ #v[UInt8.ofNat (readDigits port / 256), UInt8.ofNat (readDigits port)]

/-- The length that `parse_passport` returns, and the bytes of `*ip` and `*port`. -/
def storePassport (locals : PassportLocals) (input : List UInt8) (xaddress : Vector UInt8 6) :
    Nat × Vector UInt8 6 :=
  match parsePassport locals input with
  | none => (0, xaddress)
  | some passport => (6, passport)

/-- Whatever the variables hold, a text that is a passport is stored and any other is refused. -/
def ReadsPassport (input : List UInt8) : Prop :=
  ∀ locals xaddress,
    (∀ passport, SpellsPassport input passport →
      storePassport locals input xaddress = (6, passport)) ∧
    ((∀ passport, ¬SpellsPassport input passport) →
      storePassport locals input xaddress = (0, xaddress))

/-- What `%15[^:]` takes. -/
def addressField (input : List UInt8) : List UInt8 := (input.takeWhile (· ≠ 58)).take 15

/-- There is an address field, and it is no address. -/
def AddressRefused (input : List UInt8) : Prop :=
  addressField input ≠ [] ∧ inetPton (addressField input) = none

/-- A number is read behind the colon, and it is no port. -/
def PortRefused (input : List UInt8) : Prop :=
  ∃ rest n, addressField input ≠ [] ∧ input.drop (addressField input).length = 58 :: rest ∧
    readInt rest = some n ∧ (-2 ^ 31 ≤ n ∧ n < 2 ^ 31) ∧ (n < 0 ∨ 65535 < n)

/-- What is in `xport_val` after an address field. -/
def scannedPort (xportVal : Int) (input : List UInt8) : Int :=
  match input.drop (addressField input).length with
  | 58 :: rest => scanPort xportVal rest
  | _ => xportVal

def packPassport (ip : Vector UInt8 4) (port : Nat) : Vector UInt8 6 :=
  ip ++ #v[UInt8.ofNat (port / 256), UInt8.ofNat port]

theorem scanPassport_of_field (hne : addressField input ≠ []) :
    scanPassport locals input =
      ⟨addressField input ++ [0], scannedPort locals.xportVal input⟩ := by
  have hfield : (input.takeWhile (· ≠ 58)).take 15 = addressField input := rfl
  rw [scanPassport, scannedPort]
  simp only [hfield, if_neg hne]
  generalize input.drop (addressField input).length = text
  cases text with
  | nil => rfl
  | cons c rest =>
    by_cases hc : c = 58
    · subst hc
      rfl
    · simp [hc]

theorem parsePassport_of_field (h : ∀ c ∈ input, c ≠ 0) (hne : addressField input ≠ []) :
    parsePassport locals input =
      if scannedPort locals.xportVal input < 0 ∨ 65535 < scannedPort locals.xportVal input then none
      else (inetPton (addressField input)).map fun ip =>
        packPassport ip (scannedPort locals.xportVal input).toNat := by
  have hzero : ∀ c ∈ addressField input, c ≠ 0 :=
    fun c hc => h c ((List.takeWhile_sublist _).mem (List.mem_of_mem_take hc))
  rw [parsePassport, scanPassport_of_field hne]
  simp only [cString_append_zero hzero]
  rfl

theorem scanPort_of_fits {n xportVal : Int} (hread : readInt rest = some n)
    (hn : -2 ^ 31 ≤ n ∧ n < 2 ^ 31) : scanPort xportVal rest = n := by
  rw [scanPort, hread]
  exact if_pos hn

theorem ne_colon_of_inetPton {ip : Vector UInt8 4} (hip : inetPton address = some ip) :
    ∀ c ∈ address, decide (c ≠ 58) = true := by
  intro c hc
  rw [decide_eq_true_eq]
  rintro rfl
  rcases (inetPton_text hip).2.2 58 hc with hdigit | hdot
  · cases hdigit
  · cases hdot

theorem spellsPassport_port (h : SpellsPassport input passport) :
    ∃ port, input.dropWhile (· ≠ 58) = 58 :: port ∧ ∀ c ∈ port, isDigit c = true := by
  obtain ⟨address, port, ip, rfl, hip, -, hdigits, -⟩ := h
  refine ⟨port, ?_, hdigits⟩
  rw [List.dropWhile_append_of_pos (ne_colon_of_inetPton hip)]
  rfl

/-- A passport is read whatever the variables hold. -/
theorem parsePassport_of_spells (h : ∀ c ∈ input, c ≠ 0) (hspells : SpellsPassport input passport) :
    parsePassport locals input = some passport := by
  obtain ⟨address, port, ip, rfl, hip, hport, hdigits, hle, rfl⟩ := hspells
  obtain ⟨hne, hlen, -⟩ := inetPton_text hip
  have hfield : addressField (address ++ 58 :: port) = address := by
    rw [addressField, List.takeWhile_append_of_pos (ne_colon_of_inetPton hip),
      List.takeWhile_cons_of_neg (by simp), List.append_nil, List.take_of_length_le hlen]
  have hscanned : scannedPort locals.xportVal (address ++ 58 :: port) = readDigits port := by
    rw [scannedPort, hfield, List.drop_left]
    exact scanPort_of_fits (readInt_digits hport hdigits) (by omega)
  rw [parsePassport_of_field h (by rwa [hfield]), hscanned, hfield, hip, if_neg (by omega)]
  rfl

/-- The variables hold an address and a port from before. -/
def zeroLocals : PassportLocals := ⟨chars "0.0.0.0", 0⟩

/-- Some text that is let through is not refused for its address or its port. -/
theorem parsePassport_zeroLocals (h : ∀ c ∈ input, c ≠ 0) (haddress : ¬AddressRefused input)
    (hport : ¬PortRefused input) : ∃ passport, parsePassport zeroLocals input = some passport := by
  by_cases hne : addressField input = []
  · have hscan : scanPassport zeroLocals input = zeroLocals := by
      have hfield : (input.takeWhile (· ≠ 58)).take 15 = [] := hne
      simp only [scanPassport, hfield, if_true]
    have hzero : inetPton (cString zeroLocals.xipBuff) = some #v[0, 0, 0, 0] := by
      decide +kernel
    refine ⟨packPassport #v[0, 0, 0, 0] 0, ?_⟩
    rw [parsePassport, hscan, hzero]
    exact if_neg (by decide)
  · obtain ⟨ip, hip⟩ : ∃ ip, inetPton (addressField input) = some ip :=
      Option.ne_none_iff_exists'.mp fun hnone => haddress ⟨hne, hnone⟩
    have hrange : ¬(scannedPort 0 input < 0 ∨ 65535 < scannedPort 0 input) := by
      rw [scannedPort]
      split
      · rename_i rest hdrop
        rw [scanPort]
        split
        · decide
        · rename_i n hread
          split_ifs with hfits
          · exact fun hout => hport ⟨rest, n, hne, hdrop, hread, hfits, hout⟩
          · decide
      · decide
    refine ⟨packPassport ip (scannedPort 0 input).toNat, ?_⟩
    rw [parsePassport_of_field h hne, hip]
    exact if_neg hrange

theorem parsePassport_refused (h : ∀ c ∈ input, c ≠ 0)
    (hrefused : AddressRefused input ∨ PortRefused input) : parsePassport locals input = none := by
  rcases hrefused with ⟨hne, hnone⟩ | ⟨rest, n, hne, hdrop, hread, hfits, hout⟩
  · rw [parsePassport_of_field h hne, hnone, Option.map_none, ite_self]
  · have hscanned : scannedPort locals.xportVal input = n := by
      rw [scannedPort, hdrop]
      exact scanPort_of_fits hread hfits
    rw [parsePassport_of_field h hne, hscanned, if_pos hout]

theorem storePassport_of_none {xaddress : Vector UInt8 6} (h : parsePassport locals input = none) :
    storePassport locals input xaddress = (0, xaddress) := by
  rw [storePassport, h]

theorem storePassport_of_some {xaddress : Vector UInt8 6}
    (h : parsePassport locals input = some passport) :
    storePassport locals input xaddress = (6, passport) := by
  rw [storePassport, h]

/-- The texts that are read right: passports, and those refused for what was read of them. -/
theorem readsPassport_iff (h : ∀ c ∈ input, c ≠ 0) :
    ReadsPassport input ↔
      (∃ passport, SpellsPassport input passport) ∨ AddressRefused input ∨ PortRefused input := by
  constructor
  · intro hreads
    by_contra hnone
    obtain ⟨hspells, hrefused⟩ := not_or.mp hnone
    obtain ⟨haddress, hport⟩ := not_or.mp hrefused
    obtain ⟨passport, hparse⟩ := parsePassport_zeroLocals h haddress hport
    have hzero := (hreads zeroLocals #v[0, 0, 0, 0, 0, 0]).2 (not_exists.mp hspells)
    rw [storePassport_of_some hparse] at hzero
    cases congrArg Prod.fst hzero
  · rintro (⟨passport, hspells⟩ | hrefused) locals xaddress
    · refine ⟨fun passport' hspells' => ?_, fun hnone => absurd hspells (hnone passport)⟩
      exact storePassport_of_some (parsePassport_of_spells h hspells')
    · have hnone : parsePassport locals input = none := parsePassport_refused h hrefused
      refine ⟨fun passport hspells => ?_, fun _ => storePassport_of_none hnone⟩
      rw [parsePassport_of_spells h hspells] at hnone
      cases hnone

theorem readsPassport_short_address : ReadsPassport (chars "10.0.0:80") := by
  apply (readsPassport_iff _).mpr
  · exact Or.inr (Or.inl ⟨by decide, by decide⟩)
  · exact forall_mem_of_all (by decide)

/-- Characters behind the port do not matter, and of the empty text nothing is read at all. -/
theorem passport_not_refused :
    storePassport ⟨[], 0⟩ (chars "1.2.3.4:5x") #v[0, 0, 0, 0, 0, 0] = (6, #v[1, 2, 3, 4, 0, 5]) ∧
      ¬ReadsPassport (chars "1.2.3.4:5x") ∧
      storePassport ⟨chars "9.9.9.9", 7⟩ [] #v[0, 0, 0, 0, 0, 0] = (6, #v[9, 9, 9, 9, 0, 7]) ∧
      ¬ReadsPassport [] := by
  have hgarbage : storePassport ⟨[], 0⟩ (chars "1.2.3.4:5x") #v[0, 0, 0, 0, 0, 0] =
      (6, #v[1, 2, 3, 4, 0, 5]) := by decide +kernel
  have hempty : storePassport ⟨chars "9.9.9.9", 7⟩ [] #v[0, 0, 0, 0, 0, 0] =
      (6, #v[9, 9, 9, 9, 0, 7]) := by decide +kernel
  refine ⟨hgarbage, fun hreads => ?_, hempty, fun hreads => ?_⟩
  · have hrefused := (hreads ⟨[], 0⟩ #v[0, 0, 0, 0, 0, 0]).2
    rw [hgarbage] at hrefused
    have hspells := hrefused fun passport hspells => by
      obtain ⟨port, hport, hdigits⟩ := spellsPassport_port hspells
      obtain rfl : chars "5x" = port := List.cons.inj hport |>.2
      exact absurd (hdigits 120 (by decide)) (by decide)
    cases congrArg Prod.fst hspells
  · have hrefused := (hreads ⟨chars "9.9.9.9", 7⟩ #v[0, 0, 0, 0, 0, 0]).2
    rw [hempty] at hrefused
    have hspells := hrefused fun passport hspells => by
      obtain ⟨port, hport, -⟩ := spellsPassport_port hspells
      cases hport
    cases congrArg Prod.fst hspells

end Vban
