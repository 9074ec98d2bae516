import Vban.Library.Run
import Vban.Ringbuffer.Definitions

/-! One writer and one reader on a ring. An atomic step is one load, one byte copy or one store. -/
namespace Vban

open Library

/-- The calls of the writer's party. -/
inductive WriterCall
  | writeSpace
  | write (src : List UInt8)

/-- The calls of the reader's party. -/
inductive ReaderCall
  | readSpace
  | read (cnt : Nat)

/-- Where the writer is. Each location but `idle` names the next access to the shared ring. -/
inductive WriterPC
  | idle
  | loadRead (call : WriterCall) (w : Nat)
  | loadCnt2 (src : List UInt8) (toWrite : Nat)
  | loadN1 (src : List UInt8) (cnt2 : Nat)
  | loadDest (src : List UInt8) (n1 n2 : Nat)
  | copy (src : List UInt8) (n1 n2 dest i : Nat)
  | store (src : List UInt8) (n1 n2 ptr : Nat)

/-- Where the reader is. -/
inductive ReaderPC
  | idle
  | loadRead (call : ReaderCall) (w : Nat)
  | loadCnt2 (toRead : Nat)
  | loadN1 (cnt2 : Nat)
  | loadSrc (n1 n2 : Nat)
  | copy (n1 n2 src i : Nat)
  | store (n1 n2 ptr : Nat)

inductive Party
  | writer
  | reader

/-- `accepted` and `obtained` record the bytes the writer's calls accepted and the reader's calls
copied out; `published` and `released` count the bytes behind the stores of the two pointers. -/
structure SharedRing where
  rb : Ringbuffer
  writer : WriterPC
  reader : ReaderPC
  accepted : List UInt8
  obtained : List UInt8
  published : Nat
  released : Nat

def SharedRing.initial (size : Nat) (mem : List UInt8) : SharedRing :=
  { rb := ringbufferCreate size mem, writer := .idle, reader := .idle,
    accepted := [], obtained := [], published := 0, released := 0 }

/-- `ringbuffer_write_space` and `ringbuffer_write`, access by access. -/
inductive WriterStep : SharedRing → SharedRing → Prop
  | loadWrite {s : SharedRing} (call : WriterCall) (hpc : s.writer = .idle) :
      WriterStep s { s with writer := .loadRead call s.rb.writePtr }
  | writeSpace {s : SharedRing} {w : Nat} (hpc : s.writer = .loadRead .writeSpace w) :
      WriterStep s { s with writer := .idle }
  | full {s : SharedRing} {src : List UInt8} {w : Nat}
      (hpc : s.writer = .loadRead (.write src) w)
      (hfree : writeSpaceOf w s.rb.readPtr s.rb.size = 0) :
      WriterStep s { s with writer := .idle }
  | accept {s : SharedRing} {src : List UInt8} {w freeCnt toWrite : Nat}
      (hpc : s.writer = .loadRead (.write src) w)
      (hfree : freeCnt = writeSpaceOf w s.rb.readPtr s.rb.size) (hne : freeCnt ≠ 0)
      (hto : toWrite = if src.length > freeCnt then freeCnt else src.length) :
      WriterStep s { s with
        writer := .loadCnt2 src toWrite, accepted := s.accepted ++ src.take toWrite }
  | wraps {s : SharedRing} {src : List UInt8} {toWrite cnt2 : Nat}
      (hpc : s.writer = .loadCnt2 src toWrite)
      (hcnt : cnt2 = sizeAdd s.rb.writePtr toWrite) (hgt : cnt2 > s.rb.size) :
      WriterStep s { s with writer := .loadN1 src cnt2 }
  | fits {s : SharedRing} {src : List UInt8} {toWrite : Nat}
      (hpc : s.writer = .loadCnt2 src toWrite)
      (hle : ¬ sizeAdd s.rb.writePtr toWrite > s.rb.size) :
      WriterStep s { s with writer := .loadDest src toWrite 0 }
  | loadN1 {s : SharedRing} {src : List UInt8} {cnt2 : Nat}
      (hpc : s.writer = .loadN1 src cnt2) :
      WriterStep s { s with
        writer := .loadDest src (sizeSub s.rb.size s.rb.writePtr) (cnt2 % s.rb.size) }
  | loadDest {s : SharedRing} {src : List UInt8} {n1 n2 : Nat}
      (hpc : s.writer = .loadDest src n1 n2) :
      WriterStep s { s with writer := .copy src n1 n2 s.rb.writePtr 0 }
  | copyByte {s : SharedRing} {src : List UInt8} {n1 n2 dest i : Nat} {b : UInt8}
      (hpc : s.writer = .copy src n1 n2 dest i) (hi : i < n1) (hb : src[i]? = some b) :
      WriterStep s { s with
        rb := { s.rb with buf := s.rb.buf.set (dest + i) b }
        writer := .copy src n1 n2 dest (i + 1) }
  | loadSum {s : SharedRing} {src : List UInt8} {n1 n2 dest : Nat}
      (hpc : s.writer = .copy src n1 n2 dest n1) :
      WriterStep s { s with
        writer := .store src n1 n2 (sizeAdd s.rb.writePtr n1 % s.rb.size) }
  | store {s : SharedRing} {src : List UInt8} {n1 n2 ptr : Nat}
      (hpc : s.writer = .store src n1 n2 ptr) :
      WriterStep s { s with
        rb := { s.rb with writePtr := ptr }
        published := s.published + n1
        -- only the second part, if there is one, is left to copy
        writer := if n2 ≠ 0 then .loadDest (src.drop n1) n2 0 else .idle }

/-- `ringbuffer_read_space` and `ringbuffer_read`, access by access. -/
inductive ReaderStep : SharedRing → SharedRing → Prop
  | loadWrite {s : SharedRing} (call : ReaderCall) (hpc : s.reader = .idle) :
      ReaderStep s { s with reader := .loadRead call s.rb.writePtr }
  | readSpace {s : SharedRing} {w : Nat} (hpc : s.reader = .loadRead .readSpace w) :
      ReaderStep s { s with reader := .idle }
  | empty {s : SharedRing} {cnt w : Nat} (hpc : s.reader = .loadRead (.read cnt) w)
      (hfree : readSpaceOf w s.rb.readPtr s.rb.size = 0) :
      ReaderStep s { s with reader := .idle }
  | begin {s : SharedRing} {cnt w freeCnt toRead : Nat}
      (hpc : s.reader = .loadRead (.read cnt) w)
      (hfree : freeCnt = readSpaceOf w s.rb.readPtr s.rb.size) (hne : freeCnt ≠ 0)
      (hto : toRead = if cnt > freeCnt then freeCnt else cnt) :
      ReaderStep s { s with reader := .loadCnt2 toRead }
  | wraps {s : SharedRing} {toRead cnt2 : Nat} (hpc : s.reader = .loadCnt2 toRead)
      (hcnt : cnt2 = sizeAdd s.rb.readPtr toRead) (hgt : cnt2 > s.rb.size) :
      ReaderStep s { s with reader := .loadN1 cnt2 }
  | fits {s : SharedRing} {toRead : Nat} (hpc : s.reader = .loadCnt2 toRead)
      (hle : ¬ sizeAdd s.rb.readPtr toRead > s.rb.size) :
      ReaderStep s { s with reader := .loadSrc toRead 0 }
  | loadN1 {s : SharedRing} {cnt2 : Nat} (hpc : s.reader = .loadN1 cnt2) :
      ReaderStep s { s with
        reader := .loadSrc (sizeSub s.rb.size s.rb.readPtr) (cnt2 % s.rb.size) }
  | loadSrc {s : SharedRing} {n1 n2 : Nat} (hpc : s.reader = .loadSrc n1 n2) :
      ReaderStep s { s with reader := .copy n1 n2 s.rb.readPtr 0 }
  | copyByte {s : SharedRing} {n1 n2 src i : Nat} {b : UInt8}
      (hpc : s.reader = .copy n1 n2 src i) (hi : i < n1) (hb : s.rb.buf[src + i]? = some b) :
      ReaderStep s { s with
        obtained := s.obtained ++ [b]
        reader := .copy n1 n2 src (i + 1) }
  | loadSum {s : SharedRing} {n1 n2 src : Nat} (hpc : s.reader = .copy n1 n2 src n1) :
      ReaderStep s { s with reader := .store n1 n2 (sizeAdd s.rb.readPtr n1 % s.rb.size) }
  | store {s : SharedRing} {n1 n2 ptr : Nat} (hpc : s.reader = .store n1 n2 ptr) :
      ReaderStep s { s with
        rb := { s.rb with readPtr := ptr }
        released := s.released + n1
        reader := if n2 ≠ 0 then .loadSrc n2 0 else .idle }

/-- Any party with a next access may take it. -/
inductive PartyStep : SharedRing → Party → SharedRing → Prop
  | writer {s t : SharedRing} (h : WriterStep s t) : PartyStep s .writer t
  | reader {s t : SharedRing} (h : ReaderStep s t) : PartyStep s .reader t

end Vban
