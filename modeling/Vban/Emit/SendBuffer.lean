import Vban.Emit.TunePackets
import Vban.Ringbuffer.Operations

/-! The packet loops of `vban_send_txbuffer` and `vban_send_t32_fragment`. -/
namespace Vban

open Library

/-- A datagram, or one `write` to the pipe. -/
structure SentPacket where
  header : VBanHeader
  payload : List UInt8
deriving DecidableEq

/-- How often in a row `check_send_status` reports 111 after a copy of a packet, by `nuFrame`. -/
abbrev Refusals := UInt32 → Nat → Nat

/-- How a packet loop ends. `endless` is a loop over copies whose counter never passes 255. -/
inductive Ending
  | returned
  | endless
  | outOfBounds
deriving DecidableEq

structure Sending where
  sent : List SentPacket
  context : VbanTxContext
  ending : Ending
  ret : Nat

def VBanHeader.advance (h : VBanHeader) (n : Nat) : VBanHeader :=
  { h with nuFrame := h.nuFrame + UInt32.ofNat n }

namespace VbanTxContext

/-- The length of the passport that `vban_send_txbuffer` copies behind the data. -/
def passportLength (c : VbanTxContext) : Nat :=
  if (c.txport = 0 ∨ c.iptx = 0x0100007F) ∧ c.xlen = 6 then 6 else 0

/-- The number of bytes sent behind the data. -/
def trailerLength (c : VbanTxContext) : Nat := if c.txport = 0 then c.xlen else c.passportLength

/-- The data of the packet after both `memcpy` calls. -/
def load (passport pos : Nat) (c : VbanTxContext) : VbanTxContext :=
  { c with data := bytesAt c.txbuf pos c.pacdatalen ++
      (c.xbytes.toList.take passport ++ c.data.drop (c.pacdatalen + passport)) }

def advanceFrame (n : Nat) (c : VbanTxContext) : VbanTxContext :=
  { c with header := c.header.advance n }

def packet (trailer : Nat) (c : VbanTxContext) : SentPacket :=
  ⟨c.header, c.data.take (c.pacdatalen + trailer)⟩

/-- Only UDP sends a copy again, and at most twice. -/
def retries (refusals : Refusals) (c : VbanTxContext) (nuFrame : UInt32) (red : Nat) : Nat :=
  if c.txport = 0 then 0 else min 2 (refusals nuFrame red)

/-- How often a packet is sent in all. -/
def copyCount (refusals : Refusals) (c : VbanTxContext) (nuFrame : UInt32) : Nat :=
  ((List.range (c.redundancy + 1)).map fun red => 1 + c.retries refusals nuFrame red).sum

/-- The return value: one where a copy was refused as often as it was tried. -/
def unreachable (refusals : Refusals) (c : VbanTxContext) : Nat :=
  if (List.range (c.redundancy + 1)).any fun red => c.retries refusals c.header.nuFrame red = 2
  then 1 else 0

/-- The loop over the packets at the positions `poss` of `txbuf`. -/
def sendPackets (refusals : Refusals) (passport trailer : Nat) :
    List Nat → VbanTxContext → Sending
  | [], c => ⟨[], c, .returned, 0⟩
  | pos :: poss, c =>
    if c.txbuf.length < pos + c.pacdatalen then ⟨[], c, .outOfBounds, 0⟩
    else
      let c := c.load passport pos
      let copies := List.replicate (c.copyCount refusals c.header.nuFrame) (c.packet trailer)
      if c.redundancy = 255 then ⟨copies, c, .endless, 0⟩
      else
        let rest := sendPackets refusals passport trailer poss (c.advanceFrame 1)
        { rest with sent := copies ++ rest.sent, ret := max (c.unreachable refusals) rest.ret }

end VbanTxContext

def vbanSendTxbuffer (refusals : Refusals) (c : VbanTxContext) : Sending :=
  c.sendPackets refusals c.passportLength c.trailerLength
    ((List.range c.pacnum).map fun pac => pac * c.pacdatalen)

def vbanSendT32Fragment (refusals : Refusals) (c : VbanTxContext) : Sending :=
  c.sendPackets refusals 0 0
    ((List.range c.pacnumT32).map fun pac => (c.txdataInd * c.pacnumT32 + pac) * c.pacdatalen)

variable {c : VbanTxContext} {h : VBanHeader} {refusals : Refusals} {poss : List Nat}
  {passport trailer m n pos : Nat}

@[simp] theorem VBanHeader.advance_zero (h : VBanHeader) : h.advance 0 = h := by
  simp [VBanHeader.advance]

theorem VBanHeader.advance_advance : (h.advance m).advance n = h.advance (m + n) := by
  simp only [VBanHeader.advance, UInt32.ofNat_add, UInt32.add_assoc]

theorem VBanHeader.advance_inj (heq : h.advance m = h.advance n) : m % 2 ^ 32 = n % 2 ^ 32 := by
  have hnu := congrArg VBanHeader.nuFrame heq
  simp only [VBanHeader.advance, UInt32.add_right_inj] at hnu
  simpa using congrArg UInt32.toNat hnu

/-- Payloads under consecutive frame numbers. -/
def numbered : VBanHeader → List (List UInt8) → List SentPacket
  | _, [] => []
  | h, p :: ps => ⟨h, p⟩ :: numbered (h.advance 1) ps

theorem numbered_append (ps qs : List (List UInt8)) :
    numbered h (ps ++ qs) = numbered h ps ++ numbered (h.advance ps.length) qs := by
  induction ps generalizing h with
  | nil => simp [numbered]
  | cons p ps ih =>
    rw [List.cons_append, numbered, numbered, List.cons_append, ih, VBanHeader.advance_advance,
      List.length_cons, Nat.add_comm 1]

/-- The bytes sent behind the data are the same for every packet. -/
def VbanTxContext.trailerBytes (passport trailer : Nat) (c : VbanTxContext) : List UInt8 :=
  (c.xbytes.toList.take passport ++ c.data.drop (c.pacdatalen + passport)).take trailer

theorem packet_load (hpos : pos + c.pacdatalen ≤ c.txbuf.length) :
    (c.load passport pos).packet trailer =
      ⟨c.header, bytesAt c.txbuf pos c.pacdatalen ++ c.trailerBytes passport trailer⟩ := by
  have hlen := length_bytesAt hpos
  simp only [VbanTxContext.packet, VbanTxContext.load, VbanTxContext.trailerBytes,
    SentPacket.mk.injEq, true_and]
  rw [List.take_append, hlen, Nat.add_sub_cancel_left,
    List.take_of_length_le (hlen.trans_le (Nat.le_add_right _ _))]

theorem trailerBytes_load (hpos : pos + c.pacdatalen ≤ c.txbuf.length) (hpass : passport ≤ 6) :
    (c.load passport pos).trailerBytes passport trailer = c.trailerBytes passport trailer := by
  have hx : (c.xbytes.toList.take passport).length = passport := by simp [hpass]
  simp only [VbanTxContext.load, VbanTxContext.trailerBytes]
  rw [← List.append_assoc, List.drop_left' (by rw [List.length_append, length_bytesAt hpos, hx])]

theorem sendPackets_cons (hred : c.redundancy ≠ 255)
    (hpos : pos + c.pacdatalen ≤ c.txbuf.length) :
    c.sendPackets refusals passport trailer (pos :: poss) =
      let rest := ((c.load passport pos).advanceFrame 1).sendPackets refusals passport trailer poss
      { rest with
        sent := List.replicate (c.copyCount refusals c.header.nuFrame)
          ((c.load passport pos).packet trailer) ++ rest.sent
        ret := max (c.unreachable refusals) rest.ret } := by
  have hload : (c.load passport pos).redundancy ≠ 255 := hred
  rw [VbanTxContext.sendPackets, if_neg (Nat.not_lt.mpr hpos)]
  simp only
  rw [if_neg hload]
  rfl

theorem sendPackets_cons_endless (h255 : c.redundancy = 255)
    (hpos : pos + c.pacdatalen ≤ c.txbuf.length) :
    c.sendPackets refusals passport trailer (pos :: poss) =
      ⟨List.replicate (c.copyCount refusals c.header.nuFrame)
        ((c.load passport pos).packet trailer), c.load passport pos, .endless, 0⟩ := by
  have hload : (c.load passport pos).redundancy = 255 := h255
  rw [VbanTxContext.sendPackets, if_neg (Nat.not_lt.mpr hpos)]
  simp only
  rw [if_pos hload]
  rfl

theorem sendPackets_cons_outOfBounds (hpos : c.txbuf.length < pos + c.pacdatalen) :
    c.sendPackets refusals passport trailer (pos :: poss) = ⟨[], c, .outOfBounds, 0⟩ := by
  rw [VbanTxContext.sendPackets, if_pos hpos]

/-- A packet loop that returns leaves everything but the data and the frame number. -/
theorem sendPackets_context
    (h : (c.sendPackets refusals passport trailer poss).ending = .returned) :
    ∃ data, (c.sendPackets refusals passport trailer poss).context =
      { c with data := data, header := c.header.advance poss.length } := by
  induction poss generalizing c with
  | nil => exact ⟨c.data, by simp [VbanTxContext.sendPackets]⟩
  | cons pos poss ih =>
    by_cases hpos : pos + c.pacdatalen ≤ c.txbuf.length
    · by_cases hred : c.redundancy = 255
      · rw [sendPackets_cons_endless hred hpos] at h
        exact nomatch h
      · rw [sendPackets_cons hred hpos] at h ⊢
        obtain ⟨data, hdata⟩ := ih h
        have hheader : ((c.load passport pos).advanceFrame 1).header = c.header.advance 1 := rfl
        refine ⟨data, hdata.trans ?_⟩
        rw [hheader, VBanHeader.advance_advance, List.length_cons, Nat.add_comm 1]
        rfl
    · rw [sendPackets_cons_outOfBounds (Nat.not_le.mp hpos)] at h
      exact nomatch h

/-- However a packet loop ends: it leaves everything but the data and the frame number, and sends
packets of one length under the header, each with the same bytes behind its data. -/
structure Sending.Keeps (c : VbanTxContext) (trailer : Nat) (behind : List UInt8)
    (s : Sending) : Prop where
  context : ∃ data n, s.context = { c with data := data, header := c.header.advance n }
  data_le : c.data.length ≤ s.context.data.length
  sent : ∀ p ∈ s.sent, ∃ n audio, p.header = c.header.advance n ∧ audio.length = c.pacdatalen ∧
    p.payload = audio ++ behind
  endless : s.ending = .endless → ∃ audio, audio.length = c.pacdatalen ∧
    (s.context.packet trailer).payload = audio ++ behind

theorem length_data_load (hpos : pos + c.pacdatalen ≤ c.txbuf.length) (hpass : passport ≤ 6) :
    c.data.length ≤ (c.load passport pos).data.length := by
  have hlen := length_bytesAt hpos
  simp only [VbanTxContext.load, List.length_append, List.length_take, List.length_drop, hlen,
    Vector.length_toList]
  omega

theorem payload_packet_load (passport trailer : Nat) (hpos : pos + c.pacdatalen ≤ c.txbuf.length) :
    ∃ audio, audio.length = c.pacdatalen ∧ ((c.load passport pos).packet trailer).payload =
      audio ++ c.trailerBytes passport trailer :=
  ⟨_, length_bytesAt hpos, by rw [packet_load hpos]⟩

theorem sendPackets_keeps (refusals : Refusals) (trailer : Nat) (poss : List Nat)
    (c : VbanTxContext) (hpass : passport ≤ 6) :
    (c.sendPackets refusals passport trailer poss).Keeps c trailer
      (c.trailerBytes passport trailer) := by
  induction poss generalizing c with
  | nil => exact ⟨⟨c.data, 0, by rw [VBanHeader.advance_zero]; rfl⟩, le_rfl, nofun, nofun⟩
  | cons pos poss ih =>
    by_cases hpos : pos + c.pacdatalen ≤ c.txbuf.length
    · have hdata := length_data_load hpos hpass
      have hpacket : ((c.load passport pos).packet trailer).header = c.header := rfl
      obtain ⟨audio, haudio, hpayload⟩ :=
        payload_packet_load passport trailer hpos
      by_cases hred : c.redundancy = 255
      · rw [sendPackets_cons_endless hred hpos]
        refine ⟨⟨(c.load passport pos).data, 0, ?_⟩, hdata, fun p hp => ⟨0, audio, ?_⟩,
          fun _ => ⟨audio, haudio, hpayload⟩⟩
        · rw [VBanHeader.advance_zero]
          rfl
        · rw [List.eq_of_mem_replicate hp, hpacket, VBanHeader.advance_zero]
          exact ⟨rfl, haudio, hpayload⟩
      · rw [sendPackets_cons hred hpos]
        have hrest := ih (c := (c.load passport pos).advanceFrame 1)
        have htrail : ((c.load passport pos).advanceFrame 1).trailerBytes passport trailer =
            c.trailerBytes passport trailer := trailerBytes_load hpos hpass
        have hheader : ((c.load passport pos).advanceFrame 1).header = c.header.advance 1 := rfl
        rw [htrail] at hrest
        obtain ⟨⟨data, n, hcontext⟩, hle, hsent, hendless⟩ := hrest
        refine ⟨⟨data, 1 + n, ?_⟩, hdata.trans hle, fun p hp => ?_, hendless⟩
        · rw [hcontext, hheader, VBanHeader.advance_advance]
          rfl
        · rcases List.mem_append.mp hp with hp | hp
          · rw [List.eq_of_mem_replicate hp, hpacket]
            exact ⟨0, audio, (VBanHeader.advance_zero _).symm, haudio, hpayload⟩
          · obtain ⟨i, rest, hi, hlen, hbytes⟩ := hsent p hp
            rw [hheader, VBanHeader.advance_advance] at hi
            exact ⟨1 + i, rest, hi, hlen, hbytes⟩
    · rw [sendPackets_cons_outOfBounds (Nat.not_le.mp hpos)]
      exact ⟨⟨c.data, 0, by rw [VBanHeader.advance_zero]⟩, le_rfl, nofun, nofun⟩

/-- Every packet as often as it is sent. -/
def VbanTxContext.withCopies (refusals : Refusals) (c : VbanTxContext) (ps : List SentPacket) :
    List SentPacket :=
  ps.flatMap fun p => List.replicate (c.copyCount refusals p.header.nuFrame) p

theorem withCopies_append (ps qs : List SentPacket) :
    c.withCopies refusals (ps ++ qs) = c.withCopies refusals ps ++ c.withCopies refusals qs :=
  List.flatMap_append

/-- A packet loop inside the buffer sends every position once, numbered, with its copies. -/
theorem sendPackets_spec (refusals : Refusals) (trailer : Nat) (hpass : passport ≤ 6)
    (hred : c.redundancy ≠ 255) (hposs : ∀ pos ∈ poss, pos + c.pacdatalen ≤ c.txbuf.length) :
    ∃ data ret, c.sendPackets refusals passport trailer poss =
      ⟨c.withCopies refusals (numbered c.header (poss.map fun pos =>
          bytesAt c.txbuf pos c.pacdatalen ++ c.trailerBytes passport trailer)),
        { c with data := data, header := c.header.advance poss.length }, .returned, ret⟩ := by
  induction poss generalizing c with
  | nil =>
    exact ⟨c.data, 0, by simp [VbanTxContext.sendPackets, VbanTxContext.withCopies, numbered]⟩
  | cons pos poss ih =>
    have hpos := hposs pos List.mem_cons_self
    obtain ⟨data, ret, hrest⟩ := ih (c := (c.load passport pos).advanceFrame 1) hred
      fun p hp => hposs p (List.mem_cons_of_mem _ hp)
    have htrail : ((c.load passport pos).advanceFrame 1).trailerBytes passport trailer =
        c.trailerBytes passport trailer := trailerBytes_load hpos hpass
    have hheader : ((c.load passport pos).advanceFrame 1).header = c.header.advance 1 := rfl
    refine ⟨data, max (c.unreachable refusals) ret, ?_⟩
    rw [sendPackets_cons hred hpos, packet_load hpos, hrest, htrail, hheader,
      VBanHeader.advance_advance, List.length_cons, Nat.add_comm 1, List.map_cons, numbered]
    rfl

/-- The part of `txbuf` that the packet with this index carries. -/
def VbanTxContext.piece (c : VbanTxContext) (i : Nat) : List UInt8 :=
  bytesAt c.txbuf (i * c.pacdatalen) c.pacdatalen

/-- A packet loop over consecutive pieces. -/
theorem sendPackets_range' (refusals : Refusals) (trailer : Nat) (hpass : passport ≤ 6)
    (hred : c.redundancy ≠ 255) (hlen : (m + n) * c.pacdatalen ≤ c.txbuf.length) :
    ∃ data ret, c.sendPackets refusals passport trailer
        ((List.range' m n).map (· * c.pacdatalen)) =
      ⟨c.withCopies refusals (numbered c.header
          (((List.range' m n).map c.piece).map (· ++ c.trailerBytes passport trailer))),
        { c with data := data, header := c.header.advance n }, .returned, ret⟩ := by
  have hposs : ∀ pos ∈ (List.range' m n).map (· * c.pacdatalen),
      pos + c.pacdatalen ≤ c.txbuf.length := by
    intro pos hpos
    obtain ⟨i, hi, rfl⟩ := List.mem_map.mp hpos
    calc i * c.pacdatalen + c.pacdatalen = (i + 1) * c.pacdatalen := (Nat.succ_mul _ _).symm
      _ ≤ (m + n) * c.pacdatalen := Nat.mul_le_mul_right _ (List.mem_range'_1.mp hi).2
      _ ≤ c.txbuf.length := hlen
  obtain ⟨data, ret, h⟩ := sendPackets_spec refusals trailer hpass hred
    hposs
  refine ⟨data, ret, ?_⟩
  rw [h, List.length_map, List.length_range', List.map_map, List.map_map]
  rfl

/-- A loop over at least one packet returns only if the copies are counted below 255. -/
theorem sendPackets_endless (h255 : c.redundancy = 255) (hposs : poss ≠ []) :
    (c.sendPackets refusals passport trailer poss).ending ≠ .returned := by
  cases poss with
  | nil => exact absurd rfl hposs
  | cons pos poss =>
    by_cases hpos : pos + c.pacdatalen ≤ c.txbuf.length
    · rw [sendPackets_cons_endless h255 hpos]
      exact nofun
    · rw [sendPackets_cons_outOfBounds (Nat.not_le.mp hpos)]
      exact nofun

theorem copyCount_pos (c : VbanTxContext) (nuFrame : UInt32) :
    0 < c.copyCount refusals nuFrame := by
  rw [VbanTxContext.copyCount, List.range_succ_eq_map, List.map_cons, List.sum_cons]
  omega

/-- A loop over at least one packet inside the buffer sends. -/
theorem sendPackets_ne_nil (hpos : pos + c.pacdatalen ≤ c.txbuf.length) :
    (c.sendPackets refusals passport trailer (pos :: poss)).sent ≠ [] := by
  have hcopies : List.replicate (c.copyCount refusals c.header.nuFrame)
      ((c.load passport pos).packet trailer) ≠ [] := by
    rw [ne_eq, List.replicate_eq_nil_iff]
    exact (copyCount_pos c _).ne'
  by_cases hred : c.redundancy = 255
  · rw [sendPackets_cons_endless hred hpos]
    exact hcopies
  · rw [sendPackets_cons hred hpos]
    exact List.append_ne_nil_of_left_ne_nil hcopies _

theorem passportLength_le (c : VbanTxContext) : c.passportLength ≤ 6 := by
  rw [VbanTxContext.passportLength]
  split_ifs <;> omega

theorem flatten_pieces (c : VbanTxContext) (n : Nat) :
    ((List.range' 0 n).map c.piece).flatten = c.txbuf.take (n * c.pacdatalen) := by
  rw [← List.range_eq_range']
  exact flatten_bytesAt c.txbuf n c.pacdatalen

theorem length_piece {i : Nat} (h : (i + 1) * c.pacdatalen ≤ c.txbuf.length) :
    (c.piece i).length = c.pacdatalen := by
  apply length_bytesAt
  rwa [← Nat.succ_mul]

end Vban
