import Vban.Library.LittleEndian
import Vban.Ringbuffer.Definitions

/-! The packet format of `vban.h`. -/
namespace Vban

open Library

def vbanHeaderSize : Nat := 4 + 4 + 16 + 4

def vbanHeaderFourc : UInt32 := 0x4E414256

def vbanStreamNameSize : Nat := 16

def vbanProtocolMaxSize : Nat := 1464

def vbanDataMaxSize : Nat := vbanProtocolMaxSize - vbanHeaderSize

def vbanSrMask : UInt8 := 0x1F

def vbanSrMaxnumber : Nat := 21

def vbanSRList : List Nat :=
  [6000, 12000, 24000, 48000, 96000, 192000, 384000,
    8000, 16000, 32000, 64000, 128000, 256000, 512000,
    11025, 22050, 44100, 88200, 176400, 352800, 705600]

def vbanProtocolMask : UInt8 := 0xE0

def vbanProtocolAudio : UInt8 := 0x00

def vbanProtocolSerial : UInt8 := 0x20

def vbanProtocolTxt : UInt8 := 0x40

def vbanBitResolutionMask : UInt8 := 0x07

def vbanBitfmt8Int : UInt8 := 0

def vbanBitfmt16Int : UInt8 := 1

def vbanBitfmt24Int : UInt8 := 2

def vbanBitfmt32Int : UInt8 := 3

def vbanBitfmt32Float : UInt8 := 4

def vbanBitResolutionMax : Nat := 8

/-- The initializer stops after six entries. -/
def vbanBitResolutionSize : List Nat := [1, 2, 3, 4, 4, 8, 0, 0]

theorem length_vbanSRList : vbanSRList.length = vbanSrMaxnumber := rfl

theorem length_vbanBitResolutionSize : vbanBitResolutionSize.length = vbanBitResolutionMax := rfl

/-- A `char[VBAN_STREAM_NAME_SIZE]`, with or without a terminating zero. -/
structure StreamName where
  bytes : List UInt8
  length_eq : bytes.length = vbanStreamNameSize
deriving DecidableEq

namespace StreamName

@[ext] theorem ext {a b : StreamName} (h : a.bytes = b.bytes) : a = b := by
  cases a
  cases b
  simp_all

/-- `strncpy` of a whole name field: the rest of the destination is zeroed. -/
def strncpy (src : List UInt8) : StreamName :=
  ⟨(cString src ++ List.replicate vbanStreamNameSize 0).take vbanStreamNameSize, by simp⟩

/-- `strncmp(a, b, VBAN_STREAM_NAME_SIZE) == 0`. -/
def Strncmp (a b : StreamName) : Prop := cString a.bytes = cString b.bytes

instance : DecidableRel Strncmp := fun _ _ => inferInstanceAs (Decidable (_ = _))

/-- A name that fits is stored as it is and padded with zeros. -/
theorem bytes_strncpy {name : List UInt8} (hlen : name.length ≤ vbanStreamNameSize)
    (hname : ∀ d ∈ name, d ≠ 0) :
    (strncpy name).bytes = name ++ List.replicate (vbanStreamNameSize - name.length) 0 := by
  have hself : cString (name ++ []) = name := cString_append hname (by simp)
  rw [List.append_nil] at hself
  change (cString name ++ List.replicate vbanStreamNameSize 0).take vbanStreamNameSize = _
  rw [hself, List.take_append, List.take_of_length_le hlen, List.take_replicate]
  congr 2
  omega

/-- `name[0] == 0`. -/
def Empty (a : StreamName) : Prop := a.bytes.head? = some 0

instance : DecidablePred Empty := fun _ => inferInstanceAs (Decidable (_ = _))

/-- Behind the terminating zero stand zeros. -/
def Padded (a : StreamName) : Prop := strncpy a.bytes = a

theorem cString_strncpy (src : List UInt8) :
    cString (strncpy src).bytes = (cString src).take vbanStreamNameSize := by
  change cString ((cString src ++ List.replicate vbanStreamNameSize 0).take vbanStreamNameSize) = _
  rw [List.take_append, List.take_replicate]
  apply cString_append
  · exact fun c hc => ne_zero_of_mem_cString src c (List.mem_of_mem_take hc)
  · exact fun c hc => List.eq_of_mem_replicate (List.mem_of_mem_head? hc)

theorem padded_strncpy (src : List UInt8) : (strncpy src).Padded := by
  apply ext
  change (cString (strncpy src).bytes ++ List.replicate vbanStreamNameSize 0).take
    vbanStreamNameSize = (cString src ++ List.replicate vbanStreamNameSize 0).take _
  have hrest : vbanStreamNameSize - ((cString src).take vbanStreamNameSize).length =
      vbanStreamNameSize - (cString src).length := by
    rw [List.length_take]
    omega
  rw [cString_strncpy, List.take_append, List.take_append, List.take_take, Nat.min_self, hrest]

theorem strncmp_strncpy (a : StreamName) : (strncpy a.bytes).Strncmp a := by
  rw [Strncmp, cString_strncpy, List.take_of_length_le]
  exact (length_cString_le _).trans a.length_eq.le

theorem empty_iff {a : StreamName} : a.Empty ↔ cString a.bytes = [] := by
  rw [Empty]
  cases hbytes : a.bytes with
  | nil =>
    have hlen := a.length_eq
    rw [hbytes] at hlen
    cases hlen
  | cons c rest =>
    rw [List.head?_cons, Option.some_inj, cString, List.takeWhile_cons]
    by_cases hc : c = 0 <;> simp [hc]

theorem empty_strncpy_iff (a : StreamName) : strncpy a.bytes = strncpy [] ↔ a.Empty := by
  rw [empty_iff]
  constructor
  · intro h
    have hcopy : cString (strncpy []).bytes = cString a.bytes := h ▸ strncmp_strncpy a
    exact hcopy.symm.trans (cString_strncpy [])
  · intro h
    apply ext
    change (cString a.bytes ++ List.replicate vbanStreamNameSize 0).take vbanStreamNameSize = _
    rw [h]
    rfl

theorem Padded.eq_of_empty {a : StreamName} (h : a.Padded) (hempty : a.Empty) :
    a = strncpy [] :=
  h.symm.trans ((empty_strncpy_iff a).mpr hempty)

end StreamName

structure VBanHeader where
  vban : UInt32
  formatSR : UInt8
  formatNbs : UInt8
  formatNbc : UInt8
  formatBit : UInt8
  streamname : StreamName
  nuFrame : UInt32
deriving DecidableEq

/-- The protocol bits. -/
def VBanHeader.protocol (h : VBanHeader) : UInt8 := h.formatSR &&& vbanProtocolMask

/-- The packed header as it stands in memory. -/
def VBanHeader.toBytes (h : VBanHeader) : List UInt8 :=
  leBytes 4 h.vban.toNat ++ [h.formatSR, h.formatNbs, h.formatNbc, h.formatBit] ++
    h.streamname.bytes ++ leBytes 4 h.nuFrame.toNat

theorem VBanHeader.length_toBytes (h : VBanHeader) : h.toBytes.length = vbanHeaderSize := by
  simp [toBytes, h.streamname.length_eq, vbanHeaderSize, vbanStreamNameSize]

/-- The length of the data that a header declares. -/
def VBanHeader.datalen (h : VBanHeader) : Nat :=
  vbanBitResolutionSize.getD (h.formatBit &&& vbanBitResolutionMask).toNat 0 *
    (h.formatNbc.toNat + 1) * (h.formatNbs.toNat + 1)

/-- A zeroed format declares one byte. -/
theorem VBanHeader.datalen_of_zero {h : VBanHeader} (hbit : h.formatBit = 0)
    (hnbc : h.formatNbc = 0) (hnbs : h.formatNbs = 0) : h.datalen = 1 := by
  rw [datalen, hbit, hnbc, hnbs]
  decide

/-- The memory of a packet: the header and `VBAN_DATA_MAX_SIZE` bytes of data. -/
structure VBanPacket where
  bytes : List UInt8
  length_eq : bytes.length = vbanProtocolMaxSize
deriving DecidableEq

namespace VBanPacket

/-- `memset(&packet, 0, sizeof(VBanPacket))`. -/
def zero : VBanPacket := ⟨List.replicate vbanProtocolMaxSize 0, List.length_replicate⟩

theorem whole_le : 0 + vbanProtocolMaxSize ≤ vbanProtocolMaxSize := Nat.le_refl _

theorem header_le : 0 + vbanHeaderSize ≤ vbanProtocolMaxSize := by decide

theorem data_le : vbanHeaderSize + vbanDataMaxSize ≤ vbanProtocolMaxSize := by decide

/-- The memory after at most `count` bytes of `xs` were received at `start`. -/
def store (p : VBanPacket) (start count : Nat) (h : start + count ≤ vbanProtocolMaxSize)
    (xs : List UInt8) : VBanPacket :=
  ⟨overwrite p.bytes start (xs.take count), by
    have := p.length_eq
    rw [length_overwrite]
    · exact this
    · rw [List.length_take]
      omega⟩

def byteAt (p : VBanPacket) (i : Nat) : UInt8 := p.bytes.getD i 0

def header (p : VBanPacket) : VBanHeader where
  vban := UInt32.ofNat (leNat (bytesAt p.bytes 0 4))
  formatSR := p.byteAt 4
  formatNbs := p.byteAt 5
  formatNbc := p.byteAt 6
  formatBit := p.byteAt 7
  streamname := ⟨bytesAt p.bytes 8 vbanStreamNameSize, by
    simp [bytesAt, p.length_eq, vbanStreamNameSize, vbanProtocolMaxSize]⟩
  nuFrame := UInt32.ofNat (leNat (bytesAt p.bytes 24 4))

def data (p : VBanPacket) : List UInt8 := p.bytes.drop vbanHeaderSize

theorem length_data (p : VBanPacket) : p.data.length = vbanDataMaxSize := by
  rw [data, List.length_drop, p.length_eq, vbanDataMaxSize]

theorem byteAt_take {i : Nat} (h : i < vbanHeaderSize) (p : VBanPacket) :
    p.byteAt i = (p.bytes.take vbanHeaderSize).getD i 0 := by
  rw [byteAt, List.getD_eq_getElem?_getD, List.getD_eq_getElem?_getD, List.getElem?_take_of_lt h]

theorem bytesAt_take {i n : Nat} (h : i + n ≤ vbanHeaderSize) (p : VBanPacket) :
    bytesAt p.bytes i n = bytesAt (p.bytes.take vbanHeaderSize) i n := by
  rw [bytesAt, bytesAt, List.drop_take, List.take_take, Nat.min_eq_left (by omega)]

/-- The header is read off the first `VBAN_HEADER_SIZE` bytes. -/
theorem header_congr {p q : VBanPacket}
    (h : p.bytes.take vbanHeaderSize = q.bytes.take vbanHeaderSize) : p.header = q.header := by
  have hbyte : ∀ i, i < vbanHeaderSize → p.byteAt i = q.byteAt i := by
    intro i hi
    rw [byteAt_take hi, h, ← byteAt_take hi]
  have hbytes : ∀ i n, i + n ≤ vbanHeaderSize → bytesAt p.bytes i n = bytesAt q.bytes i n := by
    intro i n hin
    rw [bytesAt_take hin, h, ← bytesAt_take hin]
  simp only [header, hbytes 0 4 (by decide), hbytes 8 vbanStreamNameSize (by decide),
    hbytes 24 4 (by decide), hbyte 4 (by decide), hbyte 5 (by decide), hbyte 6 (by decide),
    hbyte 7 (by decide)]

/-- A header reads back from its bytes. -/
theorem header_eq_of_toBytes {p : VBanPacket} {h : VBanHeader}
    (hp : p.bytes.take vbanHeaderSize = h.toBytes) : p.header = h := by
  have hname := h.streamname.length_eq
  have hbytes : h.toBytes = (leBytes 4 h.vban.toNat ++
      [h.formatSR, h.formatNbs, h.formatNbc, h.formatBit]) ++
        (h.streamname.bytes ++ leBytes 4 h.nuFrame.toNat) := by
    rw [VBanHeader.toBytes, List.append_assoc]
  have hvban : bytesAt h.toBytes 0 4 = leBytes 4 h.vban.toNat := by
    rw [hbytes, bytesAt, List.drop_zero, List.append_assoc, List.take_left' (by simp)]
  have hstream : bytesAt h.toBytes 8 vbanStreamNameSize = h.streamname.bytes := by
    rw [hbytes, bytesAt, List.drop_left' (by simp), List.take_left' hname]
  have hnu : bytesAt h.toBytes 24 4 = leBytes 4 h.nuFrame.toNat := by
    rw [VBanHeader.toBytes, bytesAt, List.drop_left' (by simp [hname, vbanStreamNameSize])]
    exact List.take_of_length_le (by simp)
  have hformat : ∀ i, i < 4 → h.toBytes.getD (4 + i) 0 =
      [h.formatSR, h.formatNbs, h.formatNbc, h.formatBit].getD i 0 := by
    intro i hi
    rw [hbytes, List.getD_eq_getElem?_getD, List.getD_eq_getElem?_getD,
      List.getElem?_append_left (by simp; omega), List.getElem?_append_right (by simp),
      length_leBytes, Nat.add_sub_cancel_left]
  simp only [header, byteAt_take (show 4 < vbanHeaderSize by decide),
    byteAt_take (show 5 < vbanHeaderSize by decide),
    byteAt_take (show 6 < vbanHeaderSize by decide),
    byteAt_take (show 7 < vbanHeaderSize by decide),
    bytesAt_take (show 0 + 4 ≤ vbanHeaderSize by decide),
    bytesAt_take (show 8 + vbanStreamNameSize ≤ vbanHeaderSize by decide),
    bytesAt_take (show 24 + 4 ≤ vbanHeaderSize by decide), hp, hvban, hstream, hnu,
    ofNat_leNat_leBytes, show h.toBytes.getD 4 0 = h.formatSR from hformat 0 (by decide),
    show h.toBytes.getD 5 0 = h.formatNbs from hformat 1 (by decide),
    show h.toBytes.getD 6 0 = h.formatNbc from hformat 2 (by decide),
    show h.toBytes.getD 7 0 = h.formatBit from hformat 3 (by decide)]

/-- A header that is received stands before what was there. -/
theorem bytes_store_header (p : VBanPacket) {header : List UInt8}
    (hheader : header.length = vbanHeaderSize) :
    (p.store 0 vbanHeaderSize header_le header).bytes =
      header ++ p.bytes.drop vbanHeaderSize := by
  change overwrite p.bytes 0 (header.take vbanHeaderSize) = _
  rw [List.take_of_length_le hheader.le, overwrite_zero, hheader]

theorem header_store_header (p : VBanPacket) (h : VBanHeader) :
    (p.store 0 vbanHeaderSize header_le h.toBytes).header = h := by
  apply header_eq_of_toBytes
  rw [p.bytes_store_header h.length_toBytes, List.take_left' h.length_toBytes]

/-- The bytes of the header that is read are the bytes that are there. -/
theorem toBytes_header (p : VBanPacket) : p.header.toBytes = p.bytes.take vbanHeaderSize := by
  have hlen := p.length_eq
  have hcons : ∀ i, i < vbanProtocolMaxSize →
      p.bytes.drop i = p.byteAt i :: p.bytes.drop (i + 1) := by
    intro i hi
    have hget := List.getElem?_eq_getElem (hlen ▸ hi : i < p.bytes.length)
    rw [byteAt, List.getD_eq_getElem?_getD, hget]
    exact List.drop_eq_getElem_cons _
  have hformat : (p.bytes.drop 4).take 4 =
      [p.byteAt 4, p.byteAt 5, p.byteAt 6, p.byteAt 7] := by
    rw [hcons 4 (by decide), hcons 5 (by decide), hcons 6 (by decide), hcons 7 (by decide)]
    rfl
  have hword : ∀ i, i + 4 ≤ vbanProtocolMaxSize → (bytesAt p.bytes i 4).length = 4 := by
    intro i hi
    rw [bytesAt, List.length_take, List.length_drop, hlen]
    omega
  rw [VBanHeader.toBytes]
  change leBytes 4 (UInt32.ofNat (leNat (bytesAt p.bytes 0 4))).toNat ++
    [p.byteAt 4, p.byteAt 5, p.byteAt 6, p.byteAt 7] ++ bytesAt p.bytes 8 vbanStreamNameSize ++
      leBytes 4 (UInt32.ofNat (leNat (bytesAt p.bytes 24 4))).toNat = _
  rw [leBytes_ofNat_leNat (hword 0 (by decide)), leBytes_ofNat_leNat (hword 24 (by decide)),
    ← hformat]
  simp only [bytesAt, List.drop_zero]
  rw [← List.take_add, ← List.take_add]
  exact List.take_add.symm

/-- What a packet holds after a datagram that starts with a header. -/
theorem header_received (p : VBanPacket) (h : VBanHeader) (payload : List UInt8) :
    (p.store 0 vbanProtocolMaxSize whole_le (h.toBytes ++ payload)).header = h := by
  have hl := h.length_toBytes
  apply header_eq_of_toBytes
  change (overwrite p.bytes 0 ((h.toBytes ++ payload).take vbanProtocolMaxSize)).take
    vbanHeaderSize = _
  rw [overwrite_zero, List.take_append_of_le_length, List.take_take,
    Nat.min_eq_left (show vbanHeaderSize ≤ vbanProtocolMaxSize by decide), List.take_left' hl]
  rw [List.length_take, List.length_append, hl]
  have : vbanHeaderSize ≤ vbanProtocolMaxSize := by decide
  omega

/-- A datagram may be nothing but a header. -/
theorem header_store_toBytes (p : VBanPacket) (h : VBanHeader) :
    (p.store 0 vbanProtocolMaxSize whole_le h.toBytes).header = h := by
  have hreceived := p.header_received h []
  rwa [List.append_nil] at hreceived

theorem toBytes_injective : Function.Injective VBanHeader.toBytes := by
  intro h h' heq
  rw [← zero.header_store_toBytes h, heq, header_store_toBytes]

/-- A datagram that fits is stored as it is, over what was there. -/
theorem bytes_received (p : VBanPacket) (h : VBanHeader) {payload : List UInt8}
    (hlen : payload.length ≤ vbanDataMaxSize) :
    (p.store 0 vbanProtocolMaxSize whole_le (h.toBytes ++ payload)).bytes =
      h.toBytes ++ (payload ++ p.bytes.drop (vbanHeaderSize + payload.length)) := by
  have hfit : (h.toBytes ++ payload).length ≤ vbanProtocolMaxSize := by
    rw [List.length_append, h.length_toBytes]
    exact Nat.add_le_add_left hlen vbanHeaderSize
  change overwrite p.bytes 0 ((h.toBytes ++ payload).take vbanProtocolMaxSize) = _
  rw [overwrite_zero, List.take_of_length_le hfit, List.length_append, h.length_toBytes,
    List.append_assoc]

theorem data_received (p : VBanPacket) (h : VBanHeader) {payload : List UInt8}
    (hlen : payload.length ≤ vbanDataMaxSize) :
    (p.store 0 vbanProtocolMaxSize whole_le (h.toBytes ++ payload)).data =
      payload ++ p.bytes.drop (vbanHeaderSize + payload.length) := by
  rw [data, bytes_received p h hlen, List.drop_left' h.length_toBytes]

/-- Receiving data leaves the header as it was. -/
theorem header_store_data (p : VBanPacket) {n : Nat} (xs : List UInt8)
    (h : vbanHeaderSize + n ≤ vbanProtocolMaxSize) :
    (p.store vbanHeaderSize n h xs).header = p.header := by
  apply header_congr
  have hl : (p.bytes.take vbanHeaderSize).length = vbanHeaderSize := by
    rw [List.length_take, p.length_eq]
    rfl
  change (overwrite p.bytes vbanHeaderSize (xs.take n)).take vbanHeaderSize = _
  rw [overwrite, List.append_assoc, List.take_left' hl]

/-- The string `strcmp` reads from the name field on: the name need not be terminated. -/
def streamnameString (p : VBanPacket) : List UInt8 := cString (p.bytes.drop 8)

end VBanPacket

end Vban
