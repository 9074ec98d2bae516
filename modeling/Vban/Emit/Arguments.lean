import Vban.Discovery.KeyValue
import Vban.Emit.Emitter
import Vban.Library.Getopt
import Vban.Library.Inet

/-! `get_emitter_options`: what the JACK emitter makes of its command line. -/
namespace Vban

open Library
open Discovery (chars)

def slicing : UInt16 := 0x0080

def deviceMode : UInt16 := 0x0200

def autoconnect : UInt16 := 0x0400

def duplex : UInt16 := 0x2000

def emitterOptionTable : OptionTable where
  optstring := chars "m:i:p:s:r:q:c:n:d:a:f:e:j:b:x:h"
  options :=
    [⟨chars "ipaddr", true, 105⟩, ⟨chars "port", true, 112⟩, ⟨chars "streamname", true, 115⟩,
      ⟨chars "servername", true, 109⟩, ⟨chars "samplerate", true, 114⟩,
      ⟨chars "bufsize", true, 113⟩, ⟨chars "nbchannels", true, 99⟩,
      ⟨chars "redundancy", true, 110⟩, ⟨chars "device", true, 100⟩,
      ⟨chars "autoconnect", true, 97⟩, ⟨chars "format", true, 102⟩,
      ⟨chars "slicing", true, 101⟩, ⟨chars "jackservname", true, 106⟩,
      ⟨chars "bidirection", true, 98⟩, ⟨chars "extended", true, 120⟩, ⟨chars "help", false, 104⟩]

/-- The variables `xip_buff` and `xport_val`, which nothing sets before `sscanf`. -/
structure PassportLocals where
  xipBuff : List UInt8
  xportVal : Int

/-- The conversion `%d`. A number that no `int` holds leaves any value. -/
def scanPort (xportVal : Int) (text : List UInt8) : Int :=
  match readInt text with
  | none => xportVal
  | some n => if -2 ^ 31 ≤ n ∧ n < 2 ^ 31 then n else xportVal

/-- `sscanf(input, "%15[^:]:%d", xip_buff, &xport_val)`. The garbage behind it is not looked at. -/
def scanPassport (locals : PassportLocals) (input : List UInt8) : PassportLocals :=
  let xip := (input.takeWhile (· ≠ 58)).take 15
  if xip = [] then locals
  else match input.drop xip.length with
    | 58 :: rest => ⟨xip ++ [0], scanPort locals.xportVal rest⟩
    | _ => ⟨xip ++ [0], locals.xportVal⟩

/-- The six bytes of `xaddress`. `none` is the length 0. -/
def parsePassport (locals : PassportLocals) (input : List UInt8) : Option (Vector UInt8 6) :=
  let scanned := scanPassport locals input
  if scanned.xportVal < 0 ∨ 65535 < scanned.xportVal then none
  else (inetPton (cString scanned.xipBuff)).map fun ip =>
    ip ++ #v[UInt8.ofNat (scanned.xportVal.toNat / 256), UInt8.ofNat scanned.xportVal.toNat]

/-- `optarg` starts neither with `0` nor with `n` or `N`. -/
def isYes (optarg : List UInt8) : Bool := optarg.headD 0 ∉ [48, 110, 78]

/-- The cases of the switch: `-i`, `-p`, `-s`, `-r`, `-q`, `-c`, `-n`, `-f`, `-e`, `-x` and `-h`. -/
def emitterOption (locals : PassportLocals) : FoundOption → EmitterOption
  | (105, optarg) => .ipaddr optarg.length (inetAddr optarg)
  | (112, optarg) => .port (atoi optarg)
  | (115, optarg) => .streamname (.strncpy optarg)
  | (114, optarg) => .samplerate (atoi optarg)
  | (113, optarg) => .bufsize (atoi optarg)
  | (99, optarg) => .nbchannels (atoi optarg)
  | (110, optarg) => .redundancy (atoi optarg)
  | (102, optarg) => .format (chars "16" <:+: optarg) (chars "24" <:+: optarg)
  | (101, optarg) => .slicing (isYes optarg)
  | (120, optarg) => .extended (parsePassport locals optarg)
  | (104, _) => .help
  | _ => .other

/-- The flags that `-d`, `-a`, `-e` and `-b` set. -/
def emitterFlag (flags : UInt16) : FoundOption → UInt16
  | (100, optarg) =>
    if isYes optarg then flags &&& ~~~autoconnect ||| deviceMode else flags &&& ~~~deviceMode
  | (97, optarg) =>
    if flags &&& deviceMode ≠ deviceMode ∧ optarg.headD 0 = 121 then flags ||| autoconnect
    else flags
  | (101, optarg) => if isYes optarg then flags ||| slicing else flags &&& ~~~slicing
  | (98, _) => flags ||| duplex
  | _ => flags

/-- The context and the flags after `get_emitter_options`, from the arguments behind the program's
name. -/
def readArguments (locals : PassportLocals) (args : List (List UInt8)) :
    Option (VbanTxContext × UInt16) :=
  let found := emitterOptionTable.getoptLong none args
  (getEmitterOptions emitterDefaults (found.map (emitterOption locals))).map fun c =>
    (c, found.foldl emitterFlag 0)

variable {locals : PassportLocals} {args : List (List UInt8)} {c c' : VbanTxContext}
  {flags : UInt16} {d : UInt8}

theorem length_dotted_le (b₀ b₁ b₂ b₃ : UInt8) : (dotted b₀ b₁ b₂ b₃).length ≤ 15 := by
  have hdecimal : ∀ b : UInt8, (decimal b.toNat).length ≤ 3 := by
    intro b
    apply length_decimal_le (by decide)
    have := b.toNat_lt
    omega
  have h₀ := hdecimal b₀
  have h₁ := hdecimal b₁
  have h₂ := hdecimal b₂
  have h₃ := hdecimal b₃
  simp only [dotted, List.length_append, List.length_cons]
  omega

theorem scanPassport_dotted (locals : PassportLocals) (b₀ b₁ b₂ b₃ : UInt8) (port : UInt16) :
    scanPassport locals (dotted b₀ b₁ b₂ b₃ ++ 58 :: decimal port.toNat) =
      ⟨dotted b₀ b₁ b₂ b₃ ++ [0], port.toNat⟩ := by
  have hip : ((dotted b₀ b₁ b₂ b₃ ++ 58 :: decimal port.toNat).takeWhile (· ≠ 58)).take 15 =
      dotted b₀ b₁ b₂ b₃ := by
    rw [List.takeWhile_append_of_pos, List.takeWhile_cons_of_neg (by simp), List.append_nil,
      List.take_of_length_le (length_dotted_le b₀ b₁ b₂ b₃)]
    intro c hc
    rw [decide_eq_true_eq]
    rintro rfl
    exact notMem_dotted rfl (by decide) hc
  have hread : readInt (decimal port.toNat ++ []) = some (port.toNat : Int) :=
    readInt_decimal port.toNat (by simp)
  rw [List.append_nil] at hread
  have hne : dotted b₀ b₁ b₂ b₃ ≠ [] := by
    simp [dotted]
  have hlt := port.toNat_lt
  have hscan : scanPort locals.xportVal (decimal port.toNat) = port.toNat := by
    rw [scanPort, hread]
    exact if_pos (by omega)
  rw [scanPassport]
  simp only [hip, List.drop_left, if_neg hne, hscan]

/-- A passport reads back. -/
theorem parsePassport_dotted (locals : PassportLocals) (b₀ b₁ b₂ b₃ : UInt8) (port : UInt16) :
    parsePassport locals (dotted b₀ b₁ b₂ b₃ ++ 58 :: decimal port.toNat) =
      some #v[b₀, b₁, b₂, b₃, UInt8.ofNat (port.toNat / 256), UInt8.ofNat port.toNat] := by
  have hport := port.toNat_lt
  have hzero : ∀ x ∈ dotted b₀ b₁ b₂ b₃, x ≠ 0 := by
    rintro x hx rfl
    exact notMem_dotted rfl (by decide) hx
  rw [parsePassport, scanPassport_dotted]
  simp only [cString_append_zero hzero, inetPton_dotted, Option.map_some, Int.toNat_natCast]
  rw [if_neg (by omega)]
  rfl

theorem apply_txStreamname {o : EmitterOption} (h : o.apply c = some c') :
    c'.txStreamname = c.txStreamname ∨ o = .streamname c'.txStreamname := by
  cases o with
  | ipaddr length addr =>
    left
    rw [EmitterOption.apply] at h
    split_ifs at h
    · rw [← Option.some.inj h]
    · rw [← Option.some.inj h]
  | streamname name =>
    right
    rw [← Option.some.inj h]
  | extended passport =>
    left
    cases passport with
    | none => rw [← Option.some.inj h]
    | some v => rw [← Option.some.inj h]
  | help => cases h
  | port | samplerate | bufsize | nbchannels | redundancy | format | slicing | other =>
    left
    rw [← Option.some.inj h]

/-- The name is the one from the start, or comes from an option. -/
theorem foldlM_txStreamname {opts : List EmitterOption}
    (h : opts.foldlM EmitterOption.apply c = some c') :
    c'.txStreamname = c.txStreamname ∨ .streamname c'.txStreamname ∈ opts := by
  induction opts generalizing c with
  | nil =>
    obtain rfl := Option.some.inj h
    exact Or.inl rfl
  | cons o opts ih =>
    rw [List.foldlM_cons] at h
    obtain ⟨t, ht, hrest⟩ := Option.bind_eq_some_iff.mp h
    rcases ih hrest with hname | hmem
    · rcases apply_txStreamname ht with hname' | ho
      · exact Or.inl (hname.trans hname')
      · right
        rw [hname, ← ho]
        exact List.mem_cons_self
    · exact Or.inr (List.mem_cons_of_mem o hmem)

theorem emitterOption_eq_streamname {o : FoundOption} {name : StreamName}
    (h : emitterOption locals o = .streamname name) : name = .strncpy o.2 := by
  rw [emitterOption.eq_def] at h
  split at h <;> cases h
  rfl

/-- A stream name is made of what stands in the arguments. -/
theorem notMem_txStreamname (hd : d ≠ 0) (hargs : ∀ arg ∈ args, d ∉ arg)
    (h : readArguments locals args = some (c, flags)) : d ∉ c.txStreamname.bytes := by
  have hstrncpy : ∀ src : List UInt8, d ∉ src → d ∉ (StreamName.strncpy src).bytes := by
    intro src hsrc hmem
    rcases List.mem_append.mp (List.mem_of_mem_take hmem) with hmem | hmem
    · exact hsrc ((List.takeWhile_sublist _).mem hmem)
    · exact hd (List.eq_of_mem_replicate hmem)
  obtain ⟨c', hc, hpair⟩ := Option.map_eq_some_iff.mp h
  obtain ⟨rfl, -⟩ := Prod.mk.inj hpair
  rw [getEmitterOptions] at hc
  split_ifs at hc
  rcases foldlM_txStreamname hc with hname | hmem
  · rw [hname]
    exact hstrncpy [] (by simp)
  · obtain ⟨o, ho, hoption⟩ := List.mem_map.mp hmem
    rw [emitterOption_eq_streamname hoption]
    exact hstrncpy _ (notMem_getoptLong none hargs o ho)

end Vban
