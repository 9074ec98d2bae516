import Vban.Header
import Vban.Library.Arithmetic
import Vban.Library.Run

/-! `tune_tx_packets`: how a period is split into packets. -/
namespace Vban

open Library

/-- The fields of `vban_stream_context_t` that an emitter uses, with `txpacket` in two parts. -/
structure VbanTxContext where
  txStreamname : StreamName
  header : VBanHeader
  data : List UInt8
  nframes : Nat
  nbinputs : Nat
  samplerate : Int
  vbanOutputFormat : UInt8
  redundancy : Nat
  /-- `flags & SLICING` -/
  slicing : Bool
  txbuf : List UInt8
  txbuflen : Nat
  pacnum : Nat
  vbanNframesPac : Nat
  pacdatalen : Nat
  pacnumT32 : Nat
  txdataInd : Nat
  txTransactions : Nat
  txNframes : Nat
  slicePeriod : Nat
  txport : Nat
  iptx : UInt32
  xlen : Nat
  xbytes : Vector UInt8 6

/-- The three quantities that are halved together. `pacnum` and `pacdatalen` have 16 bits. -/
@[ext] structure PacketSplit where
  pacnum : Nat
  nframesPac : Nat
  pacdatalen : Nat
deriving DecidableEq

namespace PacketSplit

def Fits (maxPacketFrames : Nat) (s : PacketSplit) : Prop :=
  s.pacdatalen ≤ vbanDataMaxSize ∧ s.nframesPac ≤ maxPacketFrames

instance {m : Nat} {s : PacketSplit} : Decidable (s.Fits m) := inferInstanceAs (Decidable (_ ∧ _))

def halve (s : PacketSplit) : PacketSplit :=
  ⟨s.pacnum * 2 % 2 ^ 16, s.nframesPac / 2, s.pacdatalen / 2⟩

end PacketSplit

/-- The loop of `tune_tx_packets`. -/
def halvePackets (maxPacketFrames : Nat) (s : PacketSplit) : PacketSplit :=
  if s.Fits maxPacketFrames then s else halvePackets maxPacketFrames s.halve
termination_by s.nframesPac + s.pacdatalen
decreasing_by
  rename_i h
  simp only [PacketSplit.Fits, PacketSplit.halve] at h ⊢
  omega

namespace VbanTxContext

def sampleSize (c : VbanTxContext) : Nat := vbanBitResolutionSize.getD c.vbanOutputFormat.toNat 0

def frameSize (c : VbanTxContext) : Nat := c.nbinputs * c.sampleSize

/-- The slice length of the sample rate band. -/
def sliceFrames (c : VbanTxContext) : Nat :=
  if c.samplerate < 88200 then 64
  else if c.samplerate < 176400 then 128
  else 256

def maxPacketFrames (c : VbanTxContext) : Nat := if c.slicing then c.sliceFrames else 256

/-- The whole period in one packet. -/
def periodSplit (c : VbanTxContext) : PacketSplit :=
  ⟨1, c.nframes, c.nframes * c.frameSize % 2 ^ 16⟩

/-- The context with its period split and cleared. From 352800 Hz on slicing is switched off. -/
def applySplit (c : VbanTxContext) (split : PacketSplit) : VbanTxContext :=
  { c with
    pacnum := split.pacnum
    vbanNframesPac := split.nframesPac
    pacdatalen := split.pacdatalen
    txbuflen := c.nframes * c.frameSize
    txbuf := List.replicate (c.nframes * c.frameSize) 0
    txNframes := if c.slicing then c.sliceFrames else c.txNframes
    slicing := c.slicing && decide (c.samplerate < 352800)
    -- `vban_nframes_pac - 1` in 8 bits
    header := { c.header with formatNbs := UInt8.ofNat (split.nframesPac + 255) } }

/-- The slice counts. `none` is a division by zero. -/
def tuneSlices (c : VbanTxContext) : Option VbanTxContext :=
  if c.nframes = 0 ∨ c.samplerate = 0 then none
  else some { c with
    txTransactions := c.nframes / c.txNframes
    pacnumT32 := c.pacnum * c.txNframes / c.nframes % 2 ^ 16
    slicePeriod := (c.txNframes * 1000000000 / sizeOfInt c.samplerate + 1) % 2 ^ 32 }

end VbanTxContext

def tuneTxPackets (c : VbanTxContext) : Option VbanTxContext :=
  let c := c.applySplit (halvePackets c.maxPacketFrames c.periodSplit)
  if c.slicing then c.tuneSlices else some c

variable {c t : VbanTxContext} {s : PacketSplit} {k m : Nat}

theorem halve_iterate (h : s.pacnum < 2 ^ 16) (k : Nat) :
    PacketSplit.halve^[k] s =
      ⟨s.pacnum * 2 ^ k % 2 ^ 16, s.nframesPac / 2 ^ k, s.pacdatalen / 2 ^ k⟩ := by
  induction k with
  | zero =>
    ext
    · rw [Nat.pow_zero, Nat.mul_one, Nat.mod_eq_of_lt h]
      rfl
    · simp
    · simp
  | succ k ih =>
    rw [Function.iterate_succ_apply', ih, PacketSplit.halve]
    ext
    · simp only [Nat.mod_mul_mod, Nat.pow_succ, Nat.mul_assoc]
    · simp only [Nat.div_div_eq_div_mul, Nat.pow_succ]
    · simp only [Nat.div_div_eq_div_mul, Nat.pow_succ]

/-- The loop halves up to its first fit. -/
theorem halvePackets_eq {m k : Nat} {s : PacketSplit}
    (h : StopsAt (PacketSplit.Fits m) PacketSplit.halve s k) :
    halvePackets m s = PacketSplit.halve^[k] s := by
  refine StopsAt.loop_eq h (fun s hs => ?_) fun s hs => ?_
  · rw [halvePackets, if_pos hs]
  · rw [halvePackets, if_neg hs]

/-- After `k` halvings the period fits, and after fewer it does not. -/
def VbanTxContext.HalvedBy (c : VbanTxContext) (k : Nat) : Prop :=
  StopsAt (PacketSplit.Fits c.maxPacketFrames) PacketSplit.halve c.periodSplit k

theorem maxPacketFrames_bounds (c : VbanTxContext) :
    64 ≤ c.maxPacketFrames ∧ c.maxPacketFrames ≤ 256 := by
  rw [VbanTxContext.maxPacketFrames, VbanTxContext.sliceFrames]
  split_ifs <;> omega

theorem periodSplit_iterate (k : Nat) :
    PacketSplit.halve^[k] c.periodSplit =
      ⟨2 ^ k % 2 ^ 16, c.nframes / 2 ^ k, c.nframes * c.frameSize % 2 ^ 16 / 2 ^ k⟩ := by
  rw [halve_iterate (by simp [VbanTxContext.periodSplit])]
  simp [VbanTxContext.periodSplit]

theorem period_mod (h : c.nframes * c.frameSize ≤ 65535) :
    c.nframes * c.frameSize % 2 ^ 16 = c.nframes * c.frameSize :=
  Nat.mod_eq_of_lt (Nat.lt_succ_of_le h)

theorem fits_iterate_iff : (PacketSplit.halve^[k] c.periodSplit).Fits c.maxPacketFrames ↔
    c.nframes * c.frameSize % 2 ^ 16 / 2 ^ k ≤ vbanDataMaxSize ∧
      c.nframes / 2 ^ k ≤ c.maxPacketFrames := by
  rw [periodSplit_iterate, PacketSplit.Fits]

/-- Ten halvings are enough for every 16-bit period. -/
theorem fits_ten (h : c.nframes < 2 ^ 16) :
    (PacketSplit.halve^[10] c.periodSplit).Fits c.maxPacketFrames := by
  have hmax := (maxPacketFrames_bounds c).1
  have : vbanDataMaxSize = 1436 := rfl
  rw [fits_iterate_iff]
  omega

theorem exists_halvedBy (h : c.nframes < 2 ^ 16) : ∃ k, c.HalvedBy k ∧ k ≤ 10 := by
  obtain ⟨k, hk⟩ := exists_stopsAt ⟨10, fits_ten h⟩
  exact ⟨k, hk, hk.le (fits_ten h)⟩

theorem VbanTxContext.HalvedBy.loop_eq (h : c.HalvedBy k) :
    halvePackets c.maxPacketFrames c.periodSplit =
      ⟨2 ^ k % 2 ^ 16, c.nframes / 2 ^ k, c.nframes * c.frameSize % 2 ^ 16 / 2 ^ k⟩ := by
  rw [← periodSplit_iterate]
  exact halvePackets_eq h

/-- What the split fields of a tuned context are, and what tuning leaves alone. -/
structure TuneSpec (c t : VbanTxContext) (k : Nat) : Prop where
  pacnum_eq : t.pacnum = 2 ^ k
  vbanNframesPac_eq : t.vbanNframesPac = c.nframes / 2 ^ k
  pacdatalen_eq : t.pacdatalen = c.nframes * c.frameSize % 2 ^ 16 / 2 ^ k
  txbuflen_eq : t.txbuflen = c.nframes * c.frameSize
  txbuf_eq : t.txbuf = List.replicate (c.nframes * c.frameSize) 0
  header_eq : t.header = { c.header with formatNbs := UInt8.ofNat (c.nframes / 2 ^ k + 255) }
  txStreamname_eq : t.txStreamname = c.txStreamname
  data_eq : t.data = c.data
  nframes_eq : t.nframes = c.nframes
  nbinputs_eq : t.nbinputs = c.nbinputs
  samplerate_eq : t.samplerate = c.samplerate
  vbanOutputFormat_eq : t.vbanOutputFormat = c.vbanOutputFormat
  redundancy_eq : t.redundancy = c.redundancy
  slicing_eq : t.slicing = (c.slicing && decide (c.samplerate < 352800))
  txNframes_eq : c.slicing → t.txNframes = c.sliceFrames
  txdataInd_eq : t.txdataInd = c.txdataInd
  txport_eq : t.txport = c.txport
  iptx_eq : t.iptx = c.iptx
  xlen_eq : t.xlen = c.xlen
  xbytes_eq : t.xbytes = c.xbytes
  slices : t.slicing → t.txTransactions = c.nframes / t.txNframes ∧
    t.pacnumT32 = 2 ^ k * t.txNframes / c.nframes % 2 ^ 16

theorem tuneTxPackets_spec (hk : c.HalvedBy k) (hle : k ≤ 10) (h : tuneTxPackets c = some t) :
    TuneSpec c t k := by
  have hpow : 2 ^ k % 2 ^ 16 = 2 ^ k :=
    Nat.mod_eq_of_lt (Nat.pow_lt_pow_right (by decide) (by omega))
  simp only [tuneTxPackets, hk.loop_eq, hpow] at h
  by_cases hs : (c.applySplit ⟨2 ^ k, c.nframes / 2 ^ k,
      c.nframes * c.frameSize % 2 ^ 16 / 2 ^ k⟩).slicing
  · rw [if_pos hs, VbanTxContext.tuneSlices] at h
    split_ifs at h
    obtain rfl := Option.some.inj h
    exact ⟨rfl, rfl, rfl, rfl, rfl, rfl, rfl, rfl, rfl, rfl, rfl, rfl, rfl, rfl,
      fun hc => if_pos hc, rfl, rfl, rfl, rfl, rfl, fun _ => ⟨rfl, rfl⟩⟩
  · rw [if_neg hs] at h
    obtain rfl := Option.some.inj h
    exact ⟨rfl, rfl, rfl, rfl, rfl, rfl, rfl, rfl, rfl, rfl, rfl, rfl, rfl, rfl,
      fun hc => if_pos hc, rfl, rfl, rfl, rfl, rfl, fun ht => absurd ht hs⟩

/-- Tuning fails only where slicing stays on and divides by zero. -/
theorem tuneTxPackets_isSome_iff (hn : 1 ≤ c.nframes) :
    (∃ t, tuneTxPackets c = some t) ↔ ¬(c.slicing ∧ c.samplerate = 0) := by
  simp only [tuneTxPackets]
  set d := c.applySplit (halvePackets c.maxPacketFrames c.periodSplit)
  have hslicing : d.slicing = (c.slicing && decide (c.samplerate < 352800)) := rfl
  by_cases hs : d.slicing
  · rw [if_pos hs, VbanTxContext.tuneSlices]
    rw [hslicing, Bool.and_eq_true] at hs
    split_ifs with hz
    · have hzero : c.samplerate = 0 := hz.resolve_left (Nat.one_le_iff_ne_zero.mp hn)
      exact iff_of_false (fun h => nomatch h) fun h => h ⟨hs.1, hzero⟩
    · exact iff_of_true ⟨_, rfl⟩ fun h => hz (.inr h.2)
  · rw [if_neg hs]
    refine iff_of_true ⟨d, rfl⟩ fun h => hs ?_
    rw [hslicing, h.1, h.2]
    rfl

end Vban
