import Vban.Convert.AlsaSamples
import Vban.Emit.TunePackets
import Vban.Receive.AlsaUtil
import Vban.Receive.Resampling

/-! What the ALSA utility sends of the periods it captures. Its search for a receiver, which sends
no audio, is left out. -/
namespace Vban

open Library Discovery

def vbanSamplesMaxNb : Nat := 256

def alsaRedtx : Nat := 1

/-- The value of a `float`. What is not finite counts as the clamping compares it: a NaN is not
less than the upper bound. -/
def floatValue (x : CFloat) : Rat :=
  let exponent : Nat := x.toNat / 2 ^ 23 % 2 ^ 8
  let fraction : Nat := x.toNat % 2 ^ 23
  let magnitude : Rat :=
    if exponent = 255 then 2 ^ 128
    else if exponent = 0 then fraction / 2 ^ 149
    else (2 ^ 23 + fraction) * 2 ^ exponent / 2 ^ 150
  if x.toNat < 2 ^ 31 ∨ exponent = 255 ∧ fraction ≠ 0 then magnitude else -magnitude

/-- A "24" in the option is looked for after a "16". -/
def formatOption (args : List UInt8) : UInt8 :=
  let optArg := getVal args (chars "format")
  if chars "24" <:+: optArg then vbanBitfmt24Int
  else if chars "16" <:+: optArg then vbanBitfmt16Int
  else vbanBitfmt32Float

/-- The variables of `main` that capture and send. `txBuf` is unused for floats. -/
structure AlsaTx where
  nbinputs : Nat
  vbanFormat : UInt8
  streamnametx : List UInt8
  captBuf : List CFloat
  txBuf : List UInt8
  txPacketDataLen : Nat
  nPackets : Nat
  txPacket : VBanPacket

namespace AlsaTx

def sampleSize (s : AlsaTx) : Nat := vbanBitResolutionSize.getD s.vbanFormat.toNat 0

/-- Without inputs there is nothing to set up. -/
def idle (vbanFormat : UInt8) (streamnametx : List UInt8) : AlsaTx where
  nbinputs := 0
  vbanFormat
  streamnametx
  captBuf := []
  txBuf := []
  txPacketDataLen := 0
  nPackets := 1
  txPacket := .zero

/-- The set up for capture. `none`: VBAN does not have the rate, or the name is copied past the
end of the packet. -/
def create (nbinputs : Nat) (vbanFormat : UInt8) (streamnametx : List UInt8) : Option AlsaTx :=
  let size := vbanBitResolutionSize.getD vbanFormat.toNat 0
  let txBufLen :=
    if vbanFormat ≠ vbanBitfmt32Float then nbinputs * alsaNframes * size % 2 ^ 16
    else nbinputs * alsaNframes * 4 % 2 ^ 16
  let split := halvePackets vbanSamplesMaxNb ⟨1, alsaNframes, txBufLen⟩
  let formatSR := vbanSRList.findIdx (· = 48000)
  if formatSR = vbanSrMaxnumber then none
  else if h : 8 + streamnametx.length ≤ vbanProtocolMaxSize then
    let header : VBanHeader :=
      { vban := vbanHeaderFourc
        formatSR := UInt8.ofNat formatSR
        formatNbs := UInt8.ofNat (split.nframesPac + 255)
        formatNbc := UInt8.ofNat (nbinputs + 255)
        formatBit := vbanFormat
        streamname := .strncpy []
        nuFrame := 0 }
    let txPacket := VBanPacket.zero.store 0 vbanHeaderSize VBanPacket.header_le header.toBytes
    some {
      nbinputs
      vbanFormat
      streamnametx
      captBuf := List.replicate (nbinputs * alsaNframes) 0
      txBuf :=
        if vbanFormat ≠ vbanBitfmt32Float then List.replicate (nbinputs * alsaNframes * size) 0
        else []
      txPacketDataLen := split.pacdatalen
      nPackets := split.pacnum
      txPacket := txPacket.store 8 streamnametx.length h streamnametx }
  else none

/-- The memory at `txBuffer`. -/
def txBuffer (s : AlsaTx) : List UInt8 :=
  if s.vbanFormat ≠ vbanBitfmt32Float then s.txBuf else floatsBytes s.captBuf

/-- The two loops that fill `captBuf`. -/
def interleave (nbinputs : Nat) (inbuf : Nat → Nat → CFloat) (captBuf : List CFloat) :
    List CFloat :=
  (List.range alsaNframes).foldl (fun captBuf frame =>
    (List.range nbinputs).foldl (fun captBuf channel =>
      captBuf.set (frame * nbinputs + channel) (inbuf channel frame)) captBuf) captBuf

/-- For integers only `nframes` samples are converted. -/
def capture (inbuf : Nat → Nat → CFloat) (s : AlsaTx) : Option AlsaTx :=
  let captBuf := interleave s.nbinputs inbuf s.captBuf
  if s.vbanFormat ≠ vbanBitfmt32Float then
    (Convert.convertFloatToVban (captBuf.map floatValue) s.txBuf alsaNframes s.vbanFormat).map
      fun txBuf => { s with captBuf, txBuf }
  else some { s with captBuf }

end AlsaTx

/-- `txPacket.header.nuFrame++`. -/
def VBanPacket.countFrame (p : VBanPacket) : VBanPacket :=
  p.store 24 4 (by decide) (leBytes 4 (p.header.nuFrame + 1).toNat)

namespace AlsaTx

/-- The datagrams of the packets, and what is left in `txPacket`. -/
def sendPackets (s : AlsaTx) : List Nat → VBanPacket → List (List UInt8) × VBanPacket
  | [], txPacket => ([], txPacket)
  | packet :: packets, txPacket =>
    let txPacket := txPacket.store vbanHeaderSize vbanDataMaxSize VBanPacket.data_le
      (bytesAt s.txBuffer (packet * s.txPacketDataLen) s.txPacketDataLen)
    let datagram := txPacket.bytes.take (vbanHeaderSize + s.txPacketDataLen)
    let rest := s.sendPackets packets txPacket.countFrame
    (List.replicate alsaRedtx datagram ++ rest.1, rest.2)

/-- A captured period, sent if there are a destination and a name. `none` is a cast out of
range. -/
def period (inbuf : Nat → Nat → CFloat) (txip : UInt32) (s : AlsaTx) :
    Option (List (List UInt8) × AlsaTx) :=
  if s.nbinputs = 0 then some ([], s)
  else (s.capture inbuf).map fun s =>
    if txip ≠ 0 ∧ s.streamnametx.headD 0 ≠ 0 then
      let sent := s.sendPackets (List.range s.nPackets) s.txPacket
      (sent.1, { s with txPacket := sent.2 })
    else ([], s)

end AlsaTx

/-- `main` up to its loop, with the channels of the capture device. `none`: the socket or the
device does not open, or the set up fails. -/
def alsaTxMain (ncapt : Option Nat) (argv : List (List UInt8)) : Option AlsaTx :=
  let args := commandLine argv
  ncapt.bind fun ncapt =>
    let nbinputs := countOption args (chars "nbinputs") 2
    let nbinputs := if nbinputs ≠ 0 then min nbinputs (ncapt % 2 ^ 16) else nbinputs
    let streamnametx := getVal args (chars "streamnametx")
    if nbinputs = 0 then some (.idle (formatOption args) streamnametx)
    else AlsaTx.create nbinputs (formatOption args) streamnametx

/-- A wait for the device that failed, or a period with what was captured and sent. -/
inductive AlsaTxEvent
  | xrun
  | period (inbuf : Nat → Nat → CFloat) (txip : UInt32) (sent : List (List UInt8))

inductive AlsaTxStep : AlsaTx → AlsaTxEvent → AlsaTx → Prop
  | xrun (s : AlsaTx) : AlsaTxStep s .xrun s
  | period {s t : AlsaTx} {inbuf : Nat → Nat → CFloat} {txip : UInt32}
      {sent : List (List UInt8)} (h : s.period inbuf txip = some (sent, t)) :
      AlsaTxStep s (.period inbuf txip sent) t

/-- The samples of a period, frame by frame. -/
def interleaved (nbinputs : Nat) (inbuf : Nat → Nat → CFloat) : List CFloat :=
  (List.range alsaNframes).flatMap fun frame =>
    (List.range nbinputs).map fun channel => inbuf channel frame

/-- The floats themselves, or the encoding into a buffer that has room for it. -/
def encodeSamples (format : UInt8) (samples : List CFloat) : Option (List UInt8) :=
  if format = vbanBitfmt32Float then some (floatsBytes samples)
  else
    let size := vbanBitResolutionSize.getD format.toNat 0
    Convert.convertFloatToVban (samples.map floatValue)
      (List.replicate (samples.length * size) 0) samples.length format

namespace AlsaTx

/-- The payloads, one after the other, encode all the samples of the period. -/
def SendsPeriod (s : AlsaTx) (inbuf : Nat → Nat → CFloat) (sent : List (List UInt8)) : Prop :=
  sent.length = s.nPackets ∧
    encodeSamples s.vbanFormat (interleaved s.nbinputs inbuf) =
      some (sent.map fun datagram => datagram.drop vbanHeaderSize).flatten

/-- From the `nframes`-th on the samples are smaller than half a step of the format, by so much
that the product with the full scale is not rounded up to a half either. -/
def Silent (s : AlsaTx) (inbuf : Nat → Nat → CFloat) : Prop :=
  ∀ x ∈ (interleaved s.nbinputs inbuf).drop alsaNframes,
    |floatValue x| * (2 ^ (8 * s.sampleSize - 1) - 1) < 1 / 2 - 1 / 2 ^ 26

end AlsaTx

variable {s t : AlsaTx} {es : List AlsaTxEvent} {inbuf : Nat → Nat → CFloat} {txip : UInt32}
  {sent : List (List UInt8)} {nbinputs : Nat} {format : UInt8} {argv : List (List UInt8)}
  {ncapt : Option Nat}

theorem length_interleaved (nbinputs : Nat) (inbuf : Nat → Nat → CFloat) :
    (interleaved nbinputs inbuf).length = nbinputs * alsaNframes := by
  rw [interleaved, List.length_flatMap]
  simp [Nat.mul_comm]

/-- After `n` frames their samples stand at the start of the buffer. -/
theorem interleave_frames {captBuf : List CFloat} {n : Nat}
    (h : n * nbinputs ≤ captBuf.length) :
    (List.range n).foldl (fun captBuf frame =>
      (List.range nbinputs).foldl (fun captBuf channel =>
        captBuf.set (frame * nbinputs + channel) (inbuf channel frame)) captBuf) captBuf =
      overwrite captBuf 0 ((List.range n).flatMap fun frame =>
        (List.range nbinputs).map fun channel => inbuf channel frame) := by
  induction n with
  | zero => simp [overwrite]
  | succ n ih =>
    rw [Nat.succ_mul] at h
    set frames := (List.range n).flatMap fun frame =>
      (List.range nbinputs).map fun channel => inbuf channel frame
    have hframes : frames.length = n * nbinputs := by
      rw [List.length_flatMap]
      simp
    have hlen : (overwrite captBuf 0 frames).length = captBuf.length := by
      apply length_overwrite
      omega
    rw [List.range_succ, List.foldl_append, ih (by omega), List.foldl_cons, List.foldl_nil,
      foldl_set_range _ (by omega), overwrite_overwrite hframes, List.flatMap_append,
      List.flatMap_singleton]

theorem interleave_eq {captBuf : List CFloat} (h : captBuf.length = nbinputs * alsaNframes) :
    AlsaTx.interleave nbinputs inbuf captBuf = interleaved nbinputs inbuf := by
  have hlen := length_interleaved nbinputs inbuf
  rw [AlsaTx.interleave, interleave_frames (by rw [h, Nat.mul_comm]), ← interleaved,
    overwrite_zero, List.drop_of_length_le (by omega), List.append_nil]

/-- A period of so many bytes is halved without rest. -/
theorem halvePackets_exact {len : Nat} (hlen : len ≤ 32768) (hdvd : alsaNframes ∣ len) :
    (halvePackets vbanSamplesMaxNb ⟨1, alsaNframes, len⟩).pacnum *
        (halvePackets vbanSamplesMaxNb ⟨1, alsaNframes, len⟩).pacdatalen = len ∧
      (halvePackets vbanSamplesMaxNb ⟨1, alsaNframes, len⟩).pacdatalen ≤ vbanDataMaxSize := by
  have hiterate := halve_iterate (s := ⟨1, alsaNframes, len⟩) (show 1 < 2 ^ 16 by decide)
  have hfive : (PacketSplit.halve^[5] ⟨1, alsaNframes, len⟩).Fits vbanSamplesMaxNb := by
    rw [hiterate, PacketSplit.Fits]
    have hmax : vbanDataMaxSize = 1436 := rfl
    have hframes : alsaNframes / 2 ^ 5 ≤ vbanSamplesMaxNb := by decide
    exact ⟨by simp only; omega, hframes⟩
  obtain ⟨k, hk⟩ := exists_stopsAt ⟨5, hfive⟩
  have hle := hk.le hfive
  have hfits := hk.1.1
  have hpow : 1 * 2 ^ k % 2 ^ 16 = 2 ^ k := by
    rw [Nat.one_mul]
    exact Nat.mod_eq_of_lt (Nat.pow_lt_pow_right (by decide) (by omega))
  have hwhole : 2 ^ k ∣ len :=
    ((pow_dvd_pow 2 (by omega : k ≤ 7)).trans (by decide : 2 ^ 7 ∣ alsaNframes)).trans hdvd
  rw [hiterate k] at hfits
  rw [halvePackets_eq hk, hiterate k]
  simp only [hpow] at hfits ⊢
  exact ⟨Nat.mul_div_cancel' hwhole, hfits⟩

namespace AlsaTx

/-- The set up is the same, whatever the buffers hold. -/
def SameSetup (s t : AlsaTx) : Prop :=
  ∃ captBuf txBuf txPacket,
    t = { s with captBuf := captBuf, txBuf := txBuf, txPacket := txPacket }

/-- `txBuf` and the packets are made for the period, and behind the samples of one channel
`txBuf` is as it was. -/
structure Ready (s : AlsaTx) : Prop where
  format : s.vbanFormat = vbanBitfmt32Float ∨ Convert.WideFormat s.vbanFormat s.sampleSize
  nbinputs_pos : 0 < s.nbinputs
  packets : s.nPackets * s.txPacketDataLen = s.nbinputs * alsaNframes * s.sampleSize
  fits : s.txPacketDataLen ≤ vbanDataMaxSize
  length_captBuf : s.captBuf.length = s.nbinputs * alsaNframes
  length_txBuf : s.vbanFormat ≠ vbanBitfmt32Float →
    s.txBuf.length = s.nbinputs * alsaNframes * s.sampleSize
  untouched : ∀ b ∈ s.txBuf.drop (alsaNframes * s.sampleSize), b = 0

theorem Ready.wide (hs : s.Ready) (hformat : s.vbanFormat ≠ vbanBitfmt32Float) :
    Convert.WideFormat s.vbanFormat s.sampleSize :=
  hs.format.resolve_left hformat

theorem Ready.length_txBuffer (hs : s.Ready) :
    s.txBuffer.length = s.nPackets * s.txPacketDataLen := by
  rw [txBuffer, hs.packets]
  split_ifs with hformat
  · exact hs.length_txBuf hformat
  · have hsize : s.sampleSize = 4 := by
      rw [sampleSize, not_not.mp hformat]
      rfl
    rw [floatsBytes_length, hs.length_captBuf, hsize]

/-- The bytes behind the header of a datagram are those of its piece. -/
theorem drop_datagram (p : VBanPacket) {piece : List UInt8} {len : Nat}
    (hpiece : piece.length = len) (hfits : len ≤ vbanDataMaxSize) :
    ((p.store vbanHeaderSize vbanDataMaxSize VBanPacket.data_le piece).bytes.take
      (vbanHeaderSize + len)).drop vbanHeaderSize = piece := by
  have hheader : (p.bytes.take vbanHeaderSize).length = vbanHeaderSize := by
    rw [List.length_take, p.length_eq]
    decide
  change ((overwrite p.bytes vbanHeaderSize (piece.take vbanDataMaxSize)).take _).drop _ = _
  rw [List.take_of_length_le (l := piece) (hpiece ▸ hfits), List.drop_take,
    Nat.add_sub_cancel_left, overwrite, List.append_assoc, List.drop_left' hheader,
    List.take_left' hpiece]

theorem sendPackets_payloads {packets : List Nat} (hfits : s.txPacketDataLen ≤ vbanDataMaxSize)
    (hin : ∀ i ∈ packets, (i + 1) * s.txPacketDataLen ≤ s.txBuffer.length) (p : VBanPacket) :
    (s.sendPackets packets p).1.map (fun datagram => datagram.drop vbanHeaderSize) =
      packets.map fun i => bytesAt s.txBuffer (i * s.txPacketDataLen) s.txPacketDataLen := by
  induction packets generalizing p with
  | nil => rfl
  | cons packet packets ih =>
    obtain ⟨hfirst, hrest⟩ := List.forall_mem_cons.mp hin
    rw [Nat.succ_mul] at hfirst
    rw [sendPackets]
    simp only [alsaRedtx, List.replicate_one, List.singleton_append, List.map_cons, ih hrest]
    rw [drop_datagram p (length_bytesAt hfirst) hfits]

/-- The packets carry `txBuffer`. -/
theorem Ready.payloads (hs : s.Ready) (p : VBanPacket) :
    (s.sendPackets (List.range s.nPackets) p).1.length = s.nPackets ∧
      ((s.sendPackets (List.range s.nPackets) p).1.map
        fun datagram => datagram.drop vbanHeaderSize).flatten = s.txBuffer := by
  have hin : ∀ i ∈ List.range s.nPackets,
      (i + 1) * s.txPacketDataLen ≤ s.txBuffer.length := by
    intro i hi
    rw [hs.length_txBuffer]
    exact Nat.mul_le_mul_right _ (List.mem_range.mp hi)
  have hmap := sendPackets_payloads hs.fits hin p
  constructor
  · have hlen := congrArg List.length hmap
    rwa [List.length_map, List.length_map, List.length_range] at hlen
  · rw [hmap, flatten_bytesAt, ← hs.length_txBuffer, List.take_length]

/-- The buffer encodes the whole period where what is left of the zeros is what the rest of the
samples would be. -/
theorem Ready.encode_iff (hs : s.Ready) (hformat : s.vbanFormat ≠ vbanBitfmt32Float)
    (inbuf : Nat → Nat → CFloat) :
    encodeSamples s.vbanFormat (interleaved s.nbinputs inbuf) =
        some (Convert.sampleBytes s.sampleSize
          (((interleaved s.nbinputs inbuf).map floatValue).take alsaNframes) ++
            s.txBuf.drop (alsaNframes * s.sampleSize)) ↔ s.Silent inbuf := by
  have hwide := hs.wide hformat
  have hlen := length_interleaved s.nbinputs inbuf
  set values := (interleaved s.nbinputs inbuf).map floatValue with hvalues
  have hvalueslen : values.length = s.nbinputs * alsaNframes := by
    rw [hvalues, List.length_map, hlen]
  have hwhole : encodeSamples s.vbanFormat (interleaved s.nbinputs inbuf) =
      some (Convert.sampleBytes s.sampleSize values) := by
    rw [encodeSamples, if_neg hformat, Convert.convertFloatToVban_eq hwide
      (by rw [List.length_map]) (by rw [List.length_replicate]; rfl), ← hvalues,
      List.take_of_length_le (by rw [hvalueslen, hlen]), List.drop_of_length_le, List.append_nil]
    rw [List.length_replicate]
    rfl
  have hsplit : Convert.sampleBytes s.sampleSize values =
      Convert.sampleBytes s.sampleSize (values.take alsaNframes) ++
        Convert.sampleBytes s.sampleSize (values.drop alsaNframes) := by
    rw [Convert.sampleBytes, Convert.sampleBytes, Convert.sampleBytes, ← List.flatMap_append,
      List.take_append_drop]
  have hrest : (s.txBuf.drop (alsaNframes * s.sampleSize)).length =
      (Convert.sampleBytes s.sampleSize (values.drop alsaNframes)).length := by
    rw [Convert.length_sampleBytes, List.length_drop, List.length_drop, hs.length_txBuf hformat,
      hvalueslen, Nat.sub_mul]
  have hzeros : s.txBuf.drop (alsaNframes * s.sampleSize) = List.replicate
      (Convert.sampleBytes s.sampleSize (values.drop alsaNframes)).length 0 :=
    List.eq_replicate_iff.mpr ⟨hrest, hs.untouched⟩
  rw [hwhole, hsplit, Option.some_inj, List.append_cancel_left_eq, hzeros,
    List.eq_replicate_iff, and_iff_right rfl, Convert.sampleBytes_zero_iff hwide.pos, Silent,
    hvalues, ← List.map_drop, List.forall_mem_map]

/-- A captured period is ready to be sent, all of it under the condition only. -/
theorem Ready.capture (hs : s.Ready) (inbuf : Nat → Nat → CFloat) :
    ∃ u, s.capture inbuf = some u ∧ u.Ready ∧ SameSetup s u ∧
      (encodeSamples s.vbanFormat (interleaved s.nbinputs inbuf) = some u.txBuffer ↔
        s.vbanFormat = vbanBitfmt32Float ∨ s.Silent inbuf) := by
  have hlen := length_interleaved s.nbinputs inbuf
  rw [AlsaTx.capture, interleave_eq hs.length_captBuf]
  by_cases hformat : s.vbanFormat = vbanBitfmt32Float
  · rw [if_neg (not_not.mpr hformat)]
    refine ⟨{ s with captBuf := interleaved s.nbinputs inbuf }, rfl, ?_, ⟨_, _, _, rfl⟩, ?_⟩
    · exact ⟨hs.format, hs.nbinputs_pos, hs.packets, hs.fits, hlen, hs.length_txBuf,
        hs.untouched⟩
    · simp [txBuffer, encodeSamples, hformat]
  · have htxBuf := hs.length_txBuf hformat
    have hroom : alsaNframes ≤ s.nbinputs * alsaNframes :=
      Nat.le_mul_of_pos_left _ hs.nbinputs_pos
    have hbytes : alsaNframes * s.sampleSize ≤ s.txBuf.length := by
      rw [htxBuf]
      exact Nat.mul_le_mul_right _ hroom
    have hencode := hs.encode_iff hformat inbuf
    rw [if_pos hformat, Convert.convertFloatToVban_eq (hs.wide hformat)
      (by simpa [hlen] using hroom) hbytes]
    set samples := Convert.sampleBytes s.sampleSize
      (((interleaved s.nbinputs inbuf).map floatValue).take alsaNframes)
    have hsamples : samples.length = alsaNframes * s.sampleSize := by
      rw [Convert.length_sampleBytes, List.length_take_of_le (by simpa [hlen] using hroom)]
    have hdrop : (samples ++ s.txBuf.drop (alsaNframes * s.sampleSize)).drop
        (alsaNframes * s.sampleSize) = s.txBuf.drop (alsaNframes * s.sampleSize) :=
      List.drop_left' hsamples
    refine ⟨{ s with
        captBuf := interleaved s.nbinputs inbuf
        txBuf := samples ++ s.txBuf.drop (alsaNframes * s.sampleSize) },
      rfl, ?_, ⟨_, _, _, rfl⟩, ?_⟩
    · refine ⟨hs.format, hs.nbinputs_pos, hs.packets, hs.fits, hlen, ?_, ?_⟩
      · intro _
        rw [List.length_append, hsamples, List.length_drop, htxBuf]
        exact Nat.add_sub_cancel' (htxBuf ▸ hbytes)
      · intro b hb
        exact hs.untouched b (hdrop ▸ hb)
    · rw [txBuffer, if_pos hformat, hencode, or_iff_right hformat]

/-- What a period leaves, and what its packets carry if it is sent. -/
theorem Ready.period (hs : s.Ready) (inbuf : Nat → Nat → CFloat) (txip : UInt32) :
    ∃ sent u, s.period inbuf txip = some (sent, u) ∧ u.Ready ∧ SameSetup s u ∧
      (txip ≠ 0 ∧ s.streamnametx.headD 0 ≠ 0 →
        (s.SendsPeriod inbuf sent ↔ s.vbanFormat = vbanBitfmt32Float ∨ s.Silent inbuf)) := by
  obtain ⟨u, hcapture, hu, ⟨captBuf, txBuf, txPacket, rfl⟩, hencode⟩ := hs.capture inbuf
  rw [AlsaTx.period, if_neg hs.nbinputs_pos.ne', hcapture, Option.map_some]
  by_cases hsends : txip ≠ 0 ∧ s.streamnametx.headD 0 ≠ 0
  · obtain ⟨hlen, hpayloads⟩ := hu.payloads txPacket
    rw [if_pos hsends]
    refine ⟨_, _, rfl, ?_, ⟨_, _, _, rfl⟩, fun _ => ?_⟩
    · exact ⟨hu.format, hu.nbinputs_pos, hu.packets, hu.fits, hu.length_captBuf, hu.length_txBuf,
        hu.untouched⟩
    · rw [← hencode, ← hpayloads]
      exact and_iff_right hlen
  · rw [if_neg hsends]
    exact ⟨_, _, rfl, hu, ⟨_, _, _, rfl⟩, fun h => absurd h hsends⟩

end AlsaTx

theorem AlsaTxStep.ready {u : AlsaTx} {e : AlsaTxEvent} (h : AlsaTxStep t e u)
    (ht : t.Ready ∧ AlsaTx.SameSetup s t) : u.Ready ∧ AlsaTx.SameSetup s u := by
  cases h with
  | xrun => exact ht
  | @period u inbuf txip sent h =>
    obtain ⟨hready, captBuf, txBuf, txPacket, rfl⟩ := ht
    obtain ⟨sent', u', hperiod, hu, ⟨captBuf', txBuf', txPacket', rfl⟩, -⟩ :=
      hready.period inbuf txip
    obtain ⟨-, rfl⟩ := Prod.mk.inj (Option.some.inj (hperiod.symm.trans h))
    exact ⟨hu, _, _, _, rfl⟩

theorem run_ready (h : Run AlsaTxStep s es t) (hs : s.Ready) :
    t.Ready ∧ AlsaTx.SameSetup s t :=
  h.invariant (fun _ _ _ hu hstep => hstep.ready hu) ⟨hs, _, _, _, rfl⟩

/-- What the set up makes, with the length that the packets are made for in 16 bits. -/
theorem create_cases {streamnametx : List UInt8}
    (h : AlsaTx.create nbinputs format streamnametx = some s) :
    ∃ txBufLen txPacket,
      txBufLen = (if format ≠ vbanBitfmt32Float then
        nbinputs * alsaNframes * vbanBitResolutionSize.getD format.toNat 0 % 2 ^ 16
        else nbinputs * alsaNframes * 4 % 2 ^ 16) ∧
      s = {
        nbinputs := nbinputs
        vbanFormat := format
        streamnametx := streamnametx
        captBuf := List.replicate (nbinputs * alsaNframes) 0
        txBuf :=
          if format ≠ vbanBitfmt32Float then
            List.replicate (nbinputs * alsaNframes * vbanBitResolutionSize.getD format.toNat 0) 0
          else []
        txPacketDataLen := (halvePackets vbanSamplesMaxNb ⟨1, alsaNframes, txBufLen⟩).pacdatalen
        nPackets := (halvePackets vbanSamplesMaxNb ⟨1, alsaNframes, txBufLen⟩).pacnum
        txPacket := txPacket } := by
  rw [AlsaTx.create] at h
  by_cases hsr : vbanSRList.findIdx (· = 48000) = vbanSrMaxnumber
  · rw [if_pos hsr] at h
    cases h
  · rw [if_neg hsr] at h
    by_cases hname : 8 + streamnametx.length ≤ vbanProtocolMaxSize
    · rw [dif_pos hname] at h
      exact ⟨_, _, rfl, (Option.some.inj h).symm⟩
    · rw [dif_neg hname] at h
      cases h

/-- Up to 64 channels the length of a period has 16 bits. -/
theorem txBufLen_eq {size : Nat} (hsize : size = vbanBitResolutionSize.getD format.toNat 0)
    (hformat : format = vbanBitfmt32Float ∨ Convert.WideFormat format size)
    (hle : nbinputs ≤ 64) :
    nbinputs * alsaNframes * size ≤ 32768 ∧
      (if format ≠ vbanBitfmt32Float then nbinputs * alsaNframes * size % 2 ^ 16
        else nbinputs * alsaNframes * 4 % 2 ^ 16) = nbinputs * alsaNframes * size := by
  have hfour : format = vbanBitfmt32Float → size = 4 := by
    intro hfloat
    rw [hsize, hfloat]
    rfl
  have hsizele : size ≤ 4 := by
    rcases hformat with hfloat | ⟨-, hwide⟩ | ⟨-, hwide⟩
    · exact (hfour hfloat).le
    · omega
    · omega
  have hlen : nbinputs * alsaNframes * size ≤ 64 * alsaNframes * 4 :=
    Nat.mul_le_mul (Nat.mul_le_mul_right _ hle) hsizele
  have hmod : nbinputs * alsaNframes * size % 2 ^ 16 = nbinputs * alsaNframes * size :=
    Nat.mod_eq_of_lt (hlen.trans_lt (by decide))
  refine ⟨hlen, ?_⟩
  split_ifs with hfloat
  · exact hmod
  · rw [← hfour (not_not.mp hfloat), hmod]

theorem create_ready {streamnametx : List UInt8}
    (h : AlsaTx.create nbinputs format streamnametx = some s)
    (hformat : format = vbanBitfmt32Float ∨
      Convert.WideFormat format (vbanBitResolutionSize.getD format.toNat 0))
    (hpos : 0 < nbinputs) (hle : nbinputs ≤ 64) : s.Ready := by
  obtain ⟨hlen, htxBufLen⟩ := txBufLen_eq rfl hformat hle
  obtain ⟨hpackets, hfits⟩ := halvePackets_exact hlen
    ((Nat.dvd_mul_left alsaNframes nbinputs).mul_right _)
  obtain ⟨txBufLen, txPacket, hsplit, rfl⟩ := create_cases h
  obtain rfl := hsplit.trans htxBufLen
  refine ⟨hformat, hpos, hpackets, hfits, List.length_replicate, ?_, ?_⟩
  · intro hfloat
    simp only [if_pos hfloat, List.length_replicate]
    rfl
  · intro b hb
    have hmem := List.mem_of_mem_drop hb
    by_cases hfloat : format ≠ vbanBitfmt32Float
    · simp only [if_pos hfloat] at hmem
      exact List.eq_of_mem_replicate hmem
    · simp only [if_neg hfloat] at hmem
      cases hmem

theorem formatOption_supported (args : List UInt8) :
    formatOption args = vbanBitfmt32Float ∨ Convert.WideFormat (formatOption args)
      (vbanBitResolutionSize.getD (formatOption args).toNat 0) := by
  rw [formatOption]
  split_ifs
  · exact .inr (.inr ⟨rfl, rfl⟩)
  · exact .inr (.inl ⟨rfl, rfl⟩)
  · exact .inl rfl

theorem alsaTxMain_ready (h : alsaTxMain ncapt argv = some s) (hpos : 1 ≤ s.nbinputs)
    (hle : s.nbinputs ≤ 64) : s.Ready := by
  obtain ⟨n, -, h⟩ := Option.bind_eq_some_iff.mp h
  simp only at h
  generalize (if countOption (commandLine argv) (chars "nbinputs") 2 ≠ 0 then _ else _) =
    nbinputs at h
  by_cases hzero : nbinputs = 0
  · rw [if_pos hzero] at h
    obtain rfl := Option.some.inj h
    cases hpos
  · rw [if_neg hzero] at h
    have hcount : s.nbinputs = nbinputs := by
      obtain ⟨_, _, _, rfl⟩ := create_cases h
      rfl
    exact create_ready h (formatOption_supported _) (by omega) (by omega)

/-- A period that is sent is sent as a whole exactly if the samples are floats, or those behind the
first `nframes` of them are silent. -/
theorem period_sends_iff (hmain : alsaTxMain ncapt argv = some s) (hpos : 1 ≤ s.nbinputs)
    (hle : s.nbinputs ≤ 64) (hrun : Run AlsaTxStep s es t) (htxip : txip ≠ 0)
    (hname : s.streamnametx.headD 0 ≠ 0) (inbuf : Nat → Nat → CFloat) :
    ∃ sent u, t.period inbuf txip = some (sent, u) ∧
      (s.SendsPeriod inbuf sent ↔ s.vbanFormat = vbanBitfmt32Float ∨ s.Silent inbuf) := by
  obtain ⟨ht, captBuf, txBuf, txPacket, rfl⟩ := run_ready hrun (alsaTxMain_ready hmain hpos hle)
  obtain ⟨sent, u, hperiod, -, -, hsends⟩ := ht.period inbuf txip
  exact ⟨sent, u, hperiod, hsends ⟨htxip, hname⟩⟩

/-- A command line for 16 bits, on a device with two channels. -/
theorem alsaTxMain_stereo :
    ∃ s, alsaTxMain (some 2) [chars "format=16", chars "streamnametx=A"] = some s ∧
      s.nbinputs = 2 ∧ s.vbanFormat = vbanBitfmt16Int ∧ s.streamnametx.headD 0 ≠ 0 :=
  ⟨_, rfl, by decide, by decide, by decide⟩

theorem period_sends_iff_stereo :
    ∃ s sent u, alsaTxMain (some 2) [chars "format=16", chars "streamnametx=A"] = some s ∧
      s.period (fun _ _ => 0x3F800000) 1 = some (sent, u) ∧
      (s.SendsPeriod (fun _ _ => 0x3F800000) sent ↔
        s.vbanFormat = vbanBitfmt32Float ∨ s.Silent fun _ _ => 0x3F800000) := by
  obtain ⟨s, hmain, hcount, -, hname⟩ := alsaTxMain_stereo
  obtain ⟨sent, u, hperiod, hsends⟩ := period_sends_iff hmain (by omega) (by omega) (.refl s)
    (show (1 : UInt32) ≠ 0 by decide) hname fun _ _ => 0x3F800000
  exact ⟨s, sent, u, hmain, hperiod, hsends⟩

/-- With two channels at full scale the second half of a period is sent as zeros. -/
theorem period_half_sent :
    ∃ s sent u, alsaTxMain (some 2) [chars "format=16", chars "streamnametx=A"] = some s ∧
      s.period (fun _ _ => 0x3F800000) 1 = some (sent, u) ∧
      ¬s.SendsPeriod (fun _ _ => 0x3F800000) sent := by
  obtain ⟨s, hmain, hcount, hformat, hname⟩ := alsaTxMain_stereo
  have hready := alsaTxMain_ready hmain (by omega) (by omega)
  obtain ⟨sent, u, hperiod, -, -, hsends⟩ := hready.period (fun _ _ => 0x3F800000) 1
  refine ⟨s, sent, u, hmain, hperiod, fun h => ?_⟩
  rcases (hsends ⟨by decide, hname⟩).mp h with hfloat | hsilent
  · exact absurd (hformat.symm.trans hfloat) (by decide)
  · have hmem : (0x3F800000 : CFloat) ∈
        (interleaved s.nbinputs fun _ _ => 0x3F800000).drop alsaNframes := by
      rw [hcount]
      decide +kernel
    have hlt := hsilent _ hmem
    rw [AlsaTx.sampleSize, hformat] at hlt
    exact absurd hlt (by decide +kernel)

end Vban
