import Mathlib.Data.Nat.Bitwise
import Vban.Emit.Arguments
import Vban.Library.ShellWords

/-! The command line with which the multistream receptor starts an emitter for a new client. -/
namespace Vban.Multistream

open Library
open Discovery (chars)

/-- What is kept of the packet that creates a client. `nuFrame` is zeroed, and ends the name. -/
structure Client where
  ip : UInt32
  port : UInt16
  streamname : StreamName
  formatNbc : UInt8

def Client.name (client : Client) : List UInt8 := cString client.streamname.bytes

/-- `ip_bytes[k]` -/
def Client.ipByte (client : Client) (k : Nat) : UInt8 := UInt8.ofNat (client.ip.toNat / 256 ^ k)

/-- `%d.%d.%d.%d:%d` -/
def Client.passport (client : Client) : List UInt8 :=
  dotted (client.ipByte 0) (client.ipByte 1) (client.ipByte 2) (client.ipByte 3) ++
    58 :: decimal client.port.toNat

/-- `ip_bytes` and the port as they stand in a passport. -/
def Client.xbytes (client : Client) : Vector UInt8 6 :=
  #v[client.ipByte 0, client.ipByte 1, client.ipByte 2, client.ipByte 3,
    UInt8.ofNat (client.port.toNat / 256), UInt8.ofNat client.port.toNat]

/-- The first client and the others are created in different places, which test a flag in different
ways. -/
def hasFlag (first : Bool) (flags flag : UInt16) : Bool :=
  if first then flags &&& flag = flag else flags &&& flag ≠ 0

def txcmd (first : Bool) (flags rxport : UInt16) (client : Client) : List UInt8 :=
  chars "vban_emitter_jack -i127.0.0.1 -p" ++ decimal rxport.toNat ++
    chars " -s'" ++ client.name ++
    chars "' -c" ++ decimal (client.formatNbc.toNat + 1) ++
  (if hasFlag first flags autoconnect then chars " -ay"
    -- No space stands before the option.
    else if hasFlag first flags deviceMode then chars "-dy"
    else []) ++
  chars " -x" ++ client.passport

/-- The option letters that the emitter should find. -/
def wantedOptions (flags : UInt16) : List UInt8 :=
  chars "ipsc" ++ (if flags &&& autoconnect ≠ 0 then chars "a"
    else if flags &&& deviceMode ≠ 0 then chars "d" else []) ++ chars "x"

/-- The flags that the emitter should set. -/
def wantedFlags (flags : UInt16) : UInt16 :=
  if flags &&& autoconnect ≠ 0 then autoconnect
  else if flags &&& deviceMode ≠ 0 then deviceMode else 0

/-- The command is one simple command, and the emitter gets from it what the receptor meant. -/
def Understood (locals : PassportLocals) (first : Bool) (flags rxport : UInt16)
    (client : Client) : Prop :=
  ∃ args c, shellWords (txcmd first flags rxport client) =
      some (chars "vban_emitter_jack" :: args) ∧
    (emitterOptionTable.getoptLong none args).map Prod.fst = wantedOptions flags ∧
    readArguments locals args = some (c, wantedFlags flags) ∧
    c.iptx = 0x0100007F ∧ c.txport = rxport.toNat ∧
    c.txStreamname.Strncmp client.streamname ∧ c.nbinputs = client.formatNbc.toNat + 1 ∧
    c.xlen = 6 ∧ c.xbytes = client.xbytes

variable {locals : PassportLocals} {first : Bool} {flags rxport : UInt16} {client : Client}

theorem and_bit_cases (flags : UInt16) {i : Nat} (hi : i < 16) :
    flags &&& UInt16.ofNat (2 ^ i) = 0 ∨
      flags &&& UInt16.ofNat (2 ^ i) = UInt16.ofNat (2 ^ i) := by
  have hpow : 2 ^ i < 2 ^ 16 := Nat.pow_lt_pow_right (by decide) hi
  have hbit : (flags &&& UInt16.ofNat (2 ^ i)).toNat = (flags.toNat.testBit i).toNat * 2 ^ i := by
    rw [UInt16.toNat_and, UInt16.toNat_ofNat', Nat.mod_eq_of_lt hpow]
    exact Nat.and_two_pow _ _
  cases hb : flags.toNat.testBit i with
  | false =>
    left
    rw [hb] at hbit
    exact UInt16.toNat_inj.mp (by simpa using hbit)
  | true =>
    right
    rw [hb] at hbit
    apply UInt16.toNat_inj.mp
    rw [hbit, UInt16.toNat_ofNat', Nat.mod_eq_of_lt hpow]
    simp

/-- Of a single bit both tests say the same. -/
theorem hasFlag_iff {i : Nat} (hi : i < 16) :
    hasFlag first flags (UInt16.ofNat (2 ^ i)) = true ↔ flags &&& UInt16.ofNat (2 ^ i) ≠ 0 := by
  have hne : UInt16.ofNat (2 ^ i) ≠ 0 := by
    intro h
    have hpow : 2 ^ i < 2 ^ 16 := Nat.pow_lt_pow_right (by decide) hi
    have hz := congrArg UInt16.toNat h
    rw [UInt16.toNat_ofNat', Nat.mod_eq_of_lt hpow] at hz
    exact absurd hz (Nat.two_pow_pos i).ne'
  rw [hasFlag]
  cases first with
  | false => simp
  | true =>
    simp only [if_true, decide_eq_true_eq]
    rcases and_bit_cases flags hi with h | h
    · rw [h]
      exact ⟨fun h0 => absurd h0.symm hne, fun h0 => absurd rfl h0⟩
    · rw [h]
      exact ⟨fun _ => hne, fun _ => rfl⟩

theorem hasFlag_autoconnect : hasFlag first flags autoconnect = true ↔ flags &&& autoconnect ≠ 0 :=
  hasFlag_iff (i := 10) (by decide)

theorem hasFlag_deviceMode : hasFlag first flags deviceMode = true ↔ flags &&& deviceMode ≠ 0 :=
  hasFlag_iff (i := 9) (by decide)

/-- What is glued to the number of channels. -/
def glued (flags : UInt16) : List UInt8 :=
  if flags &&& autoconnect ≠ 0 then []
  else if flags &&& deviceMode ≠ 0 then chars "-dy" else []

/-- The arguments behind the channels. -/
def lastArguments (flags : UInt16) (client : Client) : List (List UInt8) :=
  (if flags &&& autoconnect ≠ 0 then [chars "-ay"] else []) ++ [chars "-x" ++ client.passport]

/-- The arguments that the shell makes of the command. -/
def arguments (flags rxport : UInt16) (client : Client) : List (List UInt8) :=
  [chars "-i127.0.0.1", chars "-p" ++ decimal rxport.toNat, chars "-s" ++ client.name,
    chars "-c" ++ decimal (client.formatNbc.toNat + 1) ++ glued flags] ++
  lastArguments flags client

theorem isPlain_decimal (n : Nat) : ∀ c ∈ decimal n, isPlain c = true := by
  have h : ∀ c : UInt8, isDigit c = true → isPlain c = true := by
    have : ∀ n : Fin 256, isDigit (UInt8.ofNat n) = true → isPlain (UInt8.ofNat n) = true := by
      decide +kernel
    intro c
    have hc := this ⟨c.toNat, c.toNat_lt⟩
    rwa [UInt8.ofNat_toNat] at hc
  intro c hc
  exact h c (isDigit_of_mem_decimal c hc)

theorem isPlain_passport (client : Client) : ∀ c ∈ client.passport, isPlain c = true := by
  have hnum := isPlain_decimal
  simp only [Client.passport, dotted, List.forall_mem_append, List.forall_mem_cons]
  exact ⟨⟨hnum _, rfl, hnum _, rfl, hnum _, rfl, hnum _⟩, rfl, hnum _⟩

/-- The words of the command, with the blanks between them. -/
theorem txcmd_eq : txcmd first flags rxport client =
    chars "vban_emitter_jack" ++ 32 :: (chars "-i127.0.0.1" ++ 32 ::
      ((chars "-p" ++ decimal rxport.toNat) ++ 32 ::
        (chars "-s" ++ singleQuote :: (client.name ++ singleQuote :: 32 ::
          ((chars "-c" ++ decimal (client.formatNbc.toNat + 1) ++ glued flags) ++ 32 ::
            if flags &&& autoconnect ≠ 0 then chars "-ay" ++ 32 :: (chars "-x" ++ client.passport)
            else chars "-x" ++ client.passport))))) := by
  have hstart : chars "vban_emitter_jack -i127.0.0.1 -p" =
      chars "vban_emitter_jack" ++ 32 :: (chars "-i127.0.0.1" ++ 32 :: chars "-p") := rfl
  have hopen : chars " -s'" = 32 :: (chars "-s" ++ [singleQuote]) := rfl
  have hclose : chars "' -c" = singleQuote :: 32 :: chars "-c" := rfl
  have hauto : chars " -ay" = 32 :: chars "-ay" := rfl
  have hpass : chars " -x" = 32 :: chars "-x" := rfl
  rw [txcmd, glued, hstart, hopen, hclose, hauto, hpass]
  simp only [hasFlag_autoconnect, hasFlag_deviceMode]
  by_cases ha : flags &&& autoconnect ≠ 0
  · simp only [if_pos ha, List.append_assoc, List.cons_append, List.nil_append, List.append_nil]
  · simp only [if_neg ha]
    by_cases hd : flags &&& deviceMode ≠ 0
    · simp only [if_pos hd, List.append_assoc, List.cons_append, List.nil_append]
    · simp only [if_neg hd, List.append_assoc, List.cons_append, List.nil_append,
        List.append_nil]

theorem shellWords_txcmd (hname : singleQuote ∉ client.name) :
    shellWords (txcmd first flags rxport client) =
      some (chars "vban_emitter_jack" :: arguments flags rxport client) := by
  have hport : ∀ c ∈ chars "-p" ++ decimal rxport.toNat, isPlain c = true :=
    List.forall_mem_append.mpr ⟨forall_mem_of_all (by decide), isPlain_decimal _⟩
  have hglued : ∀ c ∈ glued flags, isPlain c = true := by
    rw [glued]
    split_ifs
    · simp
    · exact forall_mem_of_all (by decide)
    · simp
  have hchannels : ∀ c ∈ chars "-c" ++ decimal (client.formatNbc.toNat + 1) ++ glued flags,
      isPlain c = true := by
    apply List.forall_mem_append.mpr ⟨?_, hglued⟩
    exact List.forall_mem_append.mpr ⟨forall_mem_of_all (by decide), isPlain_decimal _⟩
  have hpassport : ∀ c ∈ chars "-x" ++ client.passport, isPlain c = true :=
    List.forall_mem_append.mpr ⟨forall_mem_of_all (by decide), isPlain_passport client⟩
  have hlast : lexWords .between (if flags &&& autoconnect ≠ 0 then
      chars "-ay" ++ 32 :: (chars "-x" ++ client.passport) else chars "-x" ++ client.passport) =
        some (lastArguments flags client) := by
    rw [lastArguments]
    split_ifs
    · rw [lexWords_word (by decide) (forall_mem_of_all (by decide)),
        lexWords_last (by simp [chars]) hpassport]
      rfl
    · rw [lexWords_last (by simp [chars]) hpassport]
      rfl
  rw [txcmd_eq, shellWords_of_plain ⟨by decide, forall_mem_of_all (by decide)⟩ (by simp [isBlank]),
    if_pos (by decide), lexWords_word (by decide) (forall_mem_of_all (by decide)),
    lexWords_word (by decide) (forall_mem_of_all (by decide)),
    lexWords_word (by simp [chars]) hport,
    lexWords_quotedWord (by decide) (forall_mem_of_all (by decide)) hname,
    lexWords_word (by simp [chars]) hchannels, hlast]
  rfl

/-- The options that the emitter finds. An empty name leaves `-s` without an argument of its own. -/
theorem getoptLong_arguments :
    emitterOptionTable.getoptLong none (arguments flags rxport client) =
      [(105, chars "127.0.0.1"), (112, decimal rxport.toNat)] ++
      (if client.name = [] then
        [(115, chars "-c" ++ decimal (client.formatNbc.toNat + 1) ++ glued flags)]
      else [(115, client.name), (99, decimal (client.formatNbc.toNat + 1) ++ glued flags)]) ++
      (if flags &&& autoconnect ≠ 0 then [(97, chars "y")] else []) ++
      [(120, client.passport)] := by
  have hnumber : decimal (client.formatNbc.toNat + 1) ++ glued flags ≠ [] := by
    simp [decimal_ne_nil]
  have hpassport : client.passport ≠ [] := by
    simp [Client.passport]
  have hlast : emitterOptionTable.getoptLong none (lastArguments flags client) =
      (if flags &&& autoconnect ≠ 0 then [(97, chars "y")] else []) ++
        [(120, client.passport)] := by
    have hx : emitterOptionTable.getoptLong none [45 :: 120 :: client.passport] =
        [(120, client.passport)] := getoptLong_attached (by decide) (by decide) hpassport
    rw [lastArguments]
    split_ifs
    · change emitterOptionTable.getoptLong none
        [45 :: 97 :: chars "y", 45 :: 120 :: client.passport] = _
      rw [getoptLong_attached (by decide) (by decide) (by decide), hx]
      rfl
    · exact hx
  change emitterOptionTable.getoptLong none ((45 :: 105 :: chars "127.0.0.1") ::
    (45 :: 112 :: decimal rxport.toNat) :: (45 :: 115 :: client.name) ::
      (45 :: 99 :: (decimal (client.formatNbc.toNat + 1) ++ glued flags)) ::
        lastArguments flags client) = _
  rw [getoptLong_attached (by decide) (by decide) (by decide),
    getoptLong_attached (by decide) (by decide) decimal_ne_nil]
  by_cases hname : client.name = []
  · rw [if_pos hname, hname, getoptLong_separate (by decide) (by decide), hlast]
    rfl
  · rw [if_neg hname, getoptLong_attached (by decide) (by decide) hname,
      getoptLong_attached (by decide) (by decide) hnumber, hlast]
    rfl

/-- The context of an emitter with the options that the receptor passes on. -/
def emitted (txport nbinputs : Nat) (name : StreamName) (xbytes : Vector UInt8 6) : VbanTxContext :=
  { emitterDefaults with
    iptx := 0x0100007F
    txport := txport
    txStreamname := name
    nbinputs := nbinputs
    xlen := 6
    xbytes := xbytes }

theorem getEmitterOptions_emitted (port channels : Int) (name : StreamName)
    (xbytes : Vector UInt8 6) (others : List EmitterOption) (h : others = [] ∨ others = [.other]) :
    getEmitterOptions emitterDefaults ([.ipaddr 9 0x0100007F, .port port, .streamname name,
        .nbchannels channels] ++ others ++ [.extended (some xbytes)]) =
      some (emitted (uintOfInt 16 port) (uintOfInt 16 channels) name xbytes) := by
  rcases h with rfl | rfl
  · rfl
  · rfl

/-- Of the options that the receptor passes on, only `-a` sets a flag. -/
theorem foldl_emitterFlag (a b c d e : List UInt8) (others : List FoundOption)
    (h : others = [] ∨ others = [(97, chars "y")]) :
    ([(105, a), (112, b)] ++ [(115, c), (99, d)] ++ others ++
      [(120, e)] : List FoundOption).foldl emitterFlag 0 = others.foldl emitterFlag 0 := by
  rcases h with rfl | rfl
  · rfl
  · simp [emitterFlag]

/-- What the emitter makes of the arguments of a client with a name. -/
theorem readArguments_arguments (locals : PassportLocals) (hname : client.name ≠ []) :
    readArguments locals (arguments flags rxport client) = some
      (emitted rxport.toNat (client.formatNbc.toNat + 1) (.strncpy client.name) client.xbytes,
        if flags &&& autoconnect ≠ 0 then autoconnect else 0) := by
  have hatoi : ∀ (n : Nat) (rest : List UInt8), (∀ c ∈ rest.head?, isDigit c = false) →
      n < 2 ^ 16 → uintOfInt 16 (atoi (decimal n ++ rest)) = n := by
    intro n rest hrest hn
    rw [atoi, readInt_decimal n hrest, Option.getD_some, uintOfInt]
    omega
  have hport : uintOfInt 16 (atoi (decimal rxport.toNat)) = rxport.toNat := by
    have h := hatoi rxport.toNat [] (by simp) rxport.toNat_lt
    rwa [List.append_nil] at h
  have hchannels : uintOfInt 16 (atoi (decimal (client.formatNbc.toNat + 1) ++ glued flags)) =
      client.formatNbc.toNat + 1 := by
    apply hatoi
    · rw [glued]
      split_ifs
      · simp
      · rintro c ⟨⟩
        rfl
      · simp
    · have := client.formatNbc.toNat_lt
      omega
  have haddr : EmitterOption.ipaddr 9 (inetAddr (chars "127.0.0.1")) = .ipaddr 9 0x0100007F :=
    congrArg (EmitterOption.ipaddr 9) (by decide)
  have hpassport : parsePassport locals client.passport = some client.xbytes :=
    parsePassport_dotted locals _ _ _ _ _
  have hflag : emitterFlag 0 (97, chars "y") = autoconnect := by
    decide
  have hread := getEmitterOptions_emitted (atoi (decimal rxport.toNat))
    (atoi (decimal (client.formatNbc.toNat + 1) ++ glued flags)) (.strncpy client.name)
    client.xbytes
  rw [hport, hchannels, ← haddr, ← hpassport] at hread
  rw [readArguments, getoptLong_arguments, if_neg hname]
  split_ifs
  · rw [foldl_emitterFlag _ _ _ _ _ _ (Or.inr rfl), ← hflag]
    exact congrArg (Option.map fun c => (c, emitterFlag 0 (97, chars "y")))
      (hread [.other] (Or.inr rfl))
  · rw [foldl_emitterFlag _ _ _ _ _ _ (Or.inl rfl)]
    exact congrArg (Option.map fun c => (c, 0)) (hread [] (Or.inl rfl))

/-- The name that the emitter stores is that of the packet. -/
theorem strncmp_name (client : Client) :
    (StreamName.strncpy client.name).Strncmp client.streamname := by
  have hlen : client.name.length ≤ vbanStreamNameSize := by
    have := length_cString_le client.streamname.bytes
    rwa [client.streamname.length_eq] at this
  have hname := ne_zero_of_mem_cString client.streamname.bytes
  rw [StreamName.Strncmp, StreamName.bytes_strncpy hlen hname]
  apply cString_append hname
  intro d hd
  exact List.eq_of_mem_replicate (List.mem_of_head? hd)

/-- A quote in the name does not get to the emitter. -/
theorem singleQuote_notMem_name (h : Understood locals first flags rxport client) :
    singleQuote ∉ client.name := by
  obtain ⟨args, c, hwords, -, hread, -, -, hname, -⟩ := h
  have hargs : ∀ arg ∈ args, singleQuote ∉ arg := by
    intro arg harg
    exact singleQuote_notMem (by simp [LexState.text]) (lexWords_of_shellWords hwords) arg
      (List.mem_cons_of_mem _ harg)
  have hstored := notMem_txStreamname (by decide) hargs hread
  intro hmem
  apply hstored
  rw [Client.name, ← hname] at hmem
  exact (List.takeWhile_sublist _).mem hmem

/-- The emitter understands the command iff the name is not empty and holds no quote, and `-dy` is
not wanted. -/
theorem txcmd_understood_iff (locals : PassportLocals) (first : Bool) (flags rxport : UInt16)
    (client : Client) :
    Understood locals first flags rxport client ↔
      client.name ≠ [] ∧ singleQuote ∉ client.name ∧
        (flags &&& autoconnect ≠ 0 ∨ flags &&& deviceMode = 0) := by
  constructor
  · intro h
    have hquote := singleQuote_notMem_name h
    obtain ⟨args, c, hwords, hletters, -⟩ := h
    rw [shellWords_txcmd hquote] at hwords
    obtain ⟨-, rfl⟩ := List.cons.inj (Option.some.inj hwords)
    rw [getoptLong_arguments, wantedOptions] at hletters
    have hname : client.name ≠ [] := by
      intro hname
      rw [if_pos hname] at hletters
      -- The fourth letter is not `c`.
      split_ifs at hletters <;> simp [chars] at hletters
    refine ⟨hname, hquote, ?_⟩
    rw [if_neg hname] at hletters
    by_contra hflags
    rw [not_or, not_not] at hflags
    -- No option stands where `d` is wanted.
    rw [if_neg (by simp [hflags.1]), if_neg (by simp [hflags.1]), if_pos hflags.2] at hletters
    simp [chars] at hletters
  · rintro ⟨hname, hquote, hflags⟩
    refine ⟨arguments flags rxport client,
      emitted rxport.toNat (client.formatNbc.toNat + 1) (.strncpy client.name) client.xbytes,
      shellWords_txcmd hquote, ?_, (readArguments_arguments locals hname).trans ?_, rfl, rfl,
      strncmp_name client, rfl, rfl, rfl⟩
    · rw [getoptLong_arguments, if_neg hname, wantedOptions]
      by_cases ha : flags &&& autoconnect ≠ 0
      · rw [if_pos ha, if_pos ha]
        rfl
      · rw [if_neg ha, if_neg ha, if_neg]
        · rfl
        · rcases hflags with hflags | hflags
          · exact absurd hflags ha
          · simpa using hflags
    · rw [wantedFlags]
      by_cases ha : flags &&& autoconnect ≠ 0
      · rw [if_pos ha, if_pos ha]
      · rw [if_neg ha, if_neg ha, if_neg]
        rcases hflags with hflags | hflags
        · exact absurd hflags ha
        · simpa using hflags

/-- The command fits into `txcmd`. -/
theorem length_txcmd_lt (first : Bool) (flags rxport : UInt16) (client : Client) :
    (txcmd first flags rxport client).length < 256 := by
  have hdecimal : ∀ n, n < 10 ^ 5 → (decimal n).length ≤ 5 := by
    intro n hn
    exact length_decimal_le (by decide) hn
  have hport := hdecimal rxport.toNat (by have := rxport.toNat_lt; omega)
  have hchannels := hdecimal (client.formatNbc.toNat + 1)
    (by have := client.formatNbc.toNat_lt; omega)
  have hsource := hdecimal client.port.toNat (by have := client.port.toNat_lt; omega)
  have hip := length_dotted_le (client.ipByte 0) (client.ipByte 1) (client.ipByte 2)
    (client.ipByte 3)
  have hname := length_cString_le client.streamname.bytes
  rw [client.streamname.length_eq, vbanStreamNameSize] at hname
  have hchars : (chars "vban_emitter_jack -i127.0.0.1 -p").length = 32 ∧
      (chars " -s'").length = 4 ∧ (chars "' -c").length = 4 ∧ (chars " -ay").length = 4 ∧
      (chars "-dy").length = 3 ∧ (chars " -x").length = 3 := by
    decide
  rw [txcmd, Client.passport, Client.name]
  split_ifs
  · simp only [List.length_append, List.length_cons]
    omega
  · simp only [List.length_append, List.length_cons]
    omega
  · simp only [List.length_append, List.length_cons, List.length_nil]
    omega

/-- A client at 10.0.0.5:6980 that sends two channels. -/
def clientNamed (name : List UInt8) : Client := ⟨0x0500000A, 6980, .strncpy name, 1⟩

/-- The name `a' -h '` ends the quotes, and `-h` becomes an option; in the second command `-dy`
stands in the same word as the number of channels. -/
theorem txcmd_not_understood :
    shellWords (txcmd true 0 6980 (clientNamed (chars "a' -h '"))) =
      some [chars "vban_emitter_jack", chars "-i127.0.0.1", chars "-p6980", chars "-sa",
        chars "-h", chars "", chars "-c2", chars "-x10.0.0.5:6980"] ∧
    ¬Understood ⟨[], 0⟩ true 0 6980 (clientNamed (chars "a' -h '")) ∧
    shellWords (txcmd true deviceMode 6980 (clientNamed (chars "a"))) =
      some [chars "vban_emitter_jack", chars "-i127.0.0.1", chars "-p6980", chars "-sa",
        chars "-c2-dy", chars "-x10.0.0.5:6980"] ∧
    ¬Understood ⟨[], 0⟩ true deviceMode 6980 (clientNamed (chars "a")) := by
  have hquoted : singleQuote ∈ (clientNamed (chars "a' -h '")).name := by
    decide
  have hglued : shellWords (txcmd true deviceMode 6980 (clientNamed (chars "a"))) =
      some [chars "vban_emitter_jack", chars "-i127.0.0.1", chars "-p6980", chars "-sa",
        chars "-c2-dy", chars "-x10.0.0.5:6980"] := by
    decide +kernel
  refine ⟨by decide +kernel, fun h => singleQuote_notMem_name h hquoted, hglued, ?_⟩
  rintro ⟨args, c, hwords, hletters, -⟩
  rw [hglued] at hwords
  obtain ⟨-, rfl⟩ := List.cons.inj (Option.some.inj hwords)
  exact absurd hletters (by decide +kernel)

end Vban.Multistream
