import Mathlib.Data.List.FinRange
import Vban.Library.Outcome
import Vban.Playback.Turns

/-! The readers with every access to `rxbuf` checked. -/
namespace Vban.Playback

open Library

variable {S : Type} {nboutputs : Nat}

section CheckedMemory

variable (len : Nat) (rxbuf : Nat → S)

/-- Reading `rxbuf[i]` in a buffer of `len` floats. -/
def loadAt (i : Int) : Option S := if 0 ≤ i ∧ i < len then some (rxbuf i.toNat) else none

def storeAt (i : Int) (x : S) : Option (Nat → S) :=
  if 0 ≤ i ∧ i < len then some (Function.update rxbuf i.toNat x) else none

/-- `memmove` between two places of the buffer. -/
def memmoveAt (dst src count : Int) : Option (Nat → S) :=
  if 0 ≤ dst ∧ 0 ≤ src ∧ 0 ≤ count ∧ dst + count ≤ len ∧ src + count ≤ len then
    some (memmove rxbuf dst.toNat src.toNat count.toNat)
  else none

/-- `memcpy` allows no overlap. -/
def memcpyAt (dst src count : Int) : Option (Nat → S) :=
  if dst + count ≤ src ∨ src + count ≤ dst then memmoveAt len rxbuf dst src count else none

def memsetAt (x : S) (count : Nat) : Option (Nat → S) :=
  if count ≤ len then some (memset rxbuf x count) else none

end CheckedMemory

/-- The turns of a loop over channels. -/
def channels (nboutputs : Nat) : List (Fin nboutputs) := List.finRange nboutputs

/-- The frame that comes from the ring. -/
def storeFrameAt (len : Nat) (rxbufPos : Int) (rxbuf : Nat → S) (x : Frame S nboutputs) :
    Option (Nat → S) :=
  (channels nboutputs).foldlM (fun rxbuf (channel : Fin nboutputs) =>
    storeAt len rxbuf (rxbufPos + channel) (x channel)) rxbuf

def lagrangeAt (ops : SampleOps S) (nboutputs len : Nat) (rxbufPos : Int) (rxbuf : Nat → S) :
    Option (Nat → S) :=
  (channels nboutputs).foldlM (fun rxbuf (channel : Fin nboutputs) => do
    let x₁ ← loadAt len rxbuf (rxbufPos - nboutputs + channel)
    let x₂ ← loadAt len rxbuf (rxbufPos - 2 * nboutputs + channel)
    let x₃ ← loadAt len rxbuf (rxbufPos - 3 * nboutputs + channel)
    storeAt len rxbuf (rxbufPos + channel) (ops.lagrange x₁ x₂ x₃)) rxbuf

def smoothAt (ops : SampleOps S) (nboutputs len : Nat) (rxbufPos : Int) (rxbuf : Nat → S) :
    Option (Nat → S) :=
  (channels nboutputs).foldlM (fun rxbuf (channel : Fin nboutputs) => do
    let x ← loadAt len rxbuf (rxbufPos + channel)
    let x₁ ← loadAt len rxbuf (rxbufPos - nboutputs + channel)
    let x₂ ← loadAt len rxbuf (rxbufPos - 2 * nboutputs + channel)
    let x₃ ← loadAt len rxbuf (rxbufPos - 3 * nboutputs + channel)
    storeAt len rxbuf (rxbufPos + channel) (ops.smooth x x₁ x₂ x₃)) rxbuf

/-- `buffers[channel][frame] = (rxbuf + nboutputs * frame)[channel]` -/
def deliverAt (len : Nat) (rxbuf : Nat → S) (buffers : Ports S nboutputs) (frame : Nat) :
    Option (Ports S nboutputs) :=
  (channels nboutputs).foldlM (fun buffers (channel : Fin nboutputs) => do
    let x ← loadAt len rxbuf (nboutputs * frame + channel)
    return Function.update buffers channel (Function.update (buffers channel) frame x)) buffers

def turnAt (ops : SampleOps S) (lagrangeNum len : Nat) (smooths : Nat → Bool) (s : Turns S)
    (slot : Slot S nboutputs) : Option (Turns S) :=
  let rxbufPos : Int := nboutputs * (s.lframe + lagrangeNum)
  match slot with
  | none => do
    let llost := s.llost + 1
    let lost := s.lost + 1
    if llost < 3 then
      let rxbuf ← lagrangeAt ops nboutputs len rxbufPos s.rxbuf
      return ⟨rxbuf, s.lframe + 1, lost, llost⟩
    else return ⟨s.rxbuf, s.lframe, lost, llost⟩
  | some x => do
    let rxbuf ← storeFrameAt len rxbufPos s.rxbuf x
    let rxbuf ← if smooths s.llost then smoothAt ops nboutputs len rxbufPos rxbuf else some rxbuf
    return ⟨rxbuf, s.lframe + 1, s.lost, 0⟩

def RxStream.shiftAt (c : RxStream S nboutputs) (s : Turns S) : Option (Nat → S) :=
  if s.lframe < c.nframes >>> 1 then
    memmoveAt c.rxbuflen s.rxbuf (nboutputs * (c.nframes - 1 - s.lframe) + c.lagrangeNum)
      (nboutputs * s.lframe + c.lagrangeNum) (nboutputs * s.lframe)
  else some s.rxbuf

def RxStream.startAt (c : RxStream S nboutputs) : Option (Turns S) := do
  let rxbuf ← memcpyAt c.rxbuflen c.rxbuf 0 (c.nframes * nboutputs) (c.lagrangeNum * nboutputs)
  return ⟨rxbuf, 0, 0, 0⟩

/-- `none` is an access outside `rxbuf`. -/
def checkedReadFromRingbufferAsync (ops : SampleOps S) (c : RxStream S nboutputs)
    (slots : List (Slot S nboutputs)) : Option (RxStream S nboutputs) := do
  let s ← slots.foldlM (turnAt ops c.lagrangeNum c.rxbuflen asyncSmooths) (← c.startAt)
  let rxbuf ← c.shiftAt s
  if s.lost = 0 then return { c with rxbuf, lostPacCnt := 0 }
  else if s.lost = c.nframes then
    let lostPacCnt := if c.lostPacCnt < 10 then c.lostPacCnt + 1 else c.lostPacCnt
    let rxbuf ← if lostPacCnt = 9 then memsetAt c.rxbuflen rxbuf ops.zero c.rxbuflen else some rxbuf
    return { c with rxbuf, lostPacCnt }
  else return { c with rxbuf }

def portTurnAt (ops : SampleOps S) (lagrangeNum len : Nat) (s : PortTurns S nboutputs)
    (slot : Slot S nboutputs) : Option (PortTurns S nboutputs) := do
  let t ← turnAt ops lagrangeNum len nonInterleavedSmooths s.toTurns slot
  let buffers ←
    if t.lframe = s.lframe then some s.buffers else deliverAt len t.rxbuf s.buffers s.lframe
  return ⟨t, buffers⟩

def checkedReadFromRingbufferAsyncNonInterleaved (ops : SampleOps S) (c : RxStream S nboutputs)
    (buffers : Ports S nboutputs) (slots : List (Slot S nboutputs)) :
    Option (RxStream S nboutputs × Ports S nboutputs) := do
  let s ← slots.foldlM (portTurnAt ops c.lagrangeNum c.rxbuflen) ⟨← c.startAt, buffers⟩
  let rxbuf ← c.shiftAt s.toTurns
  let buffers ←
    if s.lframe < c.nframes >>> 1 then
      (List.range' (c.nframes - 1 - s.lframe) (s.lframe + 1)).foldlM
        (deliverAt c.rxbuflen rxbuf) s.buffers
    else some s.buffers
  if s.lost ≠ 0 ∧ s.lost = c.nframes then
    let lostPacCnt := if c.lostPacCnt < 10 then c.lostPacCnt + 1 else c.lostPacCnt
    return ({ c with rxbuf, lostPacCnt },
      if lostPacCnt ≥ 9 then
        fun channel frame => if frame < c.nframes then ops.zero else buffers channel frame
      else buffers)
  else return ({ c with rxbuf }, buffers)

variable {ops : SampleOps S} {c : RxStream S nboutputs} {slots : List (Slot S nboutputs)}
  {len k L : Nat} {rxbuf : Nat → S} {x : Frame S nboutputs}

theorem loadAt_of_lt {i : Nat} (h : i < len) : loadAt len rxbuf i = some (rxbuf i) := by
  rw [loadAt, if_pos ⟨by omega, by omega⟩, Int.toNat_natCast]

theorem storeAt_of_lt {i : Nat} {y : S} (h : i < len) :
    storeAt len rxbuf i y = some (Function.update rxbuf i y) := by
  rw [storeAt, if_pos ⟨by omega, by omega⟩, Int.toNat_natCast]

/-- A loop over channels that sets frame `k`, and reads below it and at its own place. -/
theorem foldlM_channels_aux {step : (Nat → S) → Fin nboutputs → Option (Nat → S)}
    (hstep : ∀ mem (channel : Fin nboutputs), (∀ i, i < nboutputs * k → mem i = rxbuf i) →
      mem (nboutputs * k + channel) = rxbuf (nboutputs * k + channel) →
      step mem channel = some (Function.update mem (nboutputs * k + channel) (x channel)))
    {l : List (Fin nboutputs)} (hl : l.Nodup) {mem : Nat → S}
    (hbelow : ∀ i, i < nboutputs * k → mem i = rxbuf i)
    (hrest : ∀ channel ∈ l, mem (nboutputs * k + channel) = rxbuf (nboutputs * k + channel)) :
    l.foldlM step mem = some (l.foldl (fun mem (channel : Fin nboutputs) =>
      Function.update mem (nboutputs * k + channel) (x channel)) mem) := by
  induction l generalizing mem with
  | nil => rfl
  | cons channel l ih =>
    obtain ⟨hnew, hl⟩ := List.nodup_cons.mp hl
    rw [List.foldlM_cons, hstep mem channel hbelow (hrest channel List.mem_cons_self),
      Option.bind_eq_bind, Option.bind_some, List.foldl_cons]
    apply ih hl
    · intro i hi
      rw [Function.update_of_ne (by omega), hbelow i hi]
    · intro other hother
      have hne : other ≠ channel := fun heq => hnew (heq ▸ hother)
      rw [Function.update_of_ne, hrest other (List.mem_cons_of_mem _ hother)]
      intro heq
      exact hne (Fin.ext (Nat.add_left_cancel heq))

/-- What the stores of a list of channels leave at one of them. -/
theorem foldl_update_channel (l : List (Fin nboutputs)) (mem : Nat → S) (channel : Fin nboutputs) :
    l.foldl (fun mem (channel : Fin nboutputs) =>
        Function.update mem (nboutputs * k + channel) (x channel)) mem
        (nboutputs * k + channel) =
      if channel ∈ l then x channel else mem (nboutputs * k + channel) := by
  induction l generalizing mem with
  | nil => rfl
  | cons other l ih =>
    rw [List.foldl_cons, ih]
    by_cases hmem : channel ∈ l
    · rw [if_pos hmem, if_pos (List.mem_cons_of_mem _ hmem)]
    · rw [if_neg hmem]
      by_cases heq : channel = other
      · subst heq
        rw [Function.update_self, if_pos List.mem_cons_self]
      · rw [Function.update_of_ne, if_neg]
        · rw [List.mem_cons]
          rintro (h | h)
          · exact heq h
          · exact hmem h
        · intro h
          exact heq (Fin.ext (Nat.add_left_cancel h))

theorem foldl_update_outside (l : List (Fin nboutputs)) (mem : Nat → S) {i : Nat}
    (h : ¬(nboutputs * k ≤ i ∧ i < nboutputs * k + nboutputs)) :
    l.foldl (fun mem (channel : Fin nboutputs) =>
        Function.update mem (nboutputs * k + channel) (x channel)) mem i =
      mem i := by
  induction l generalizing mem with
  | nil => rfl
  | cons other l ih =>
    have hlt := other.isLt
    rw [List.foldl_cons, ih, Function.update_of_ne (by omega)]

theorem foldlM_channels {step : (Nat → S) → Fin nboutputs → Option (Nat → S)}
    (hstep : ∀ mem (channel : Fin nboutputs), (∀ i, i < nboutputs * k → mem i = rxbuf i) →
      mem (nboutputs * k + channel) = rxbuf (nboutputs * k + channel) →
      step mem channel = some (Function.update mem (nboutputs * k + channel) (x channel))) :
    (channels nboutputs).foldlM step rxbuf = some (setFrame rxbuf k x) := by
  rw [channels, foldlM_channels_aux hstep (List.nodup_finRange _) (fun _ _ => rfl) fun _ _ => rfl]
  congr 1
  funext i
  rw [setFrame]
  split_ifs with h
  · have hi : nboutputs * k + (⟨i - nboutputs * k, by omega⟩ : Fin nboutputs).val = i := by
      dsimp only
      omega
    have hchannel := foldl_update_channel (k := k) (x := x) (List.finRange nboutputs) rxbuf
      ⟨i - nboutputs * k, by omega⟩
    rw [hi, if_pos (List.mem_finRange _)] at hchannel
    exact hchannel
  · exact foldl_update_outside _ _ h

/-- Reading at the frame `j` before the one at `k`. -/
theorem loadAt_before {j : Nat} {mem : Nat → S} (hj : 0 < j) (hjk : j ≤ k)
    (hfit : nboutputs * k + nboutputs ≤ len) (hbelow : ∀ i, i < nboutputs * k → mem i = rxbuf i)
    (channel : Fin nboutputs) :
    loadAt len mem ((nboutputs * k : Nat) - j * nboutputs + (channel : Nat)) =
      some (frameAt rxbuf (k - j) channel) := by
  have hlt := channel.isLt
  have hnext : nboutputs * (k - j + 1) ≤ nboutputs * k := Nat.mul_le_mul_left _ (by omega)
  rw [Nat.mul_succ] at hnext
  have hindex : ((nboutputs * k : Nat) : Int) - j * nboutputs + (channel : Nat) =
      (nboutputs * (k - j) + channel : Nat) := by
    rw [Nat.mul_sub, Nat.cast_add, Nat.cast_sub (Nat.mul_le_mul_left _ hjk),
      Nat.cast_mul nboutputs j, Int.mul_comm (nboutputs : Int) j]
  rw [hindex, loadAt_of_lt (by omega), hbelow _ (by omega), frameAt]

theorem storeFrameAt_eq (hfit : nboutputs * k + nboutputs ≤ len) :
    storeFrameAt len (nboutputs * k : Nat) rxbuf x = some (setFrame rxbuf k x) := by
  apply foldlM_channels
  intro mem channel _ _
  have hlt := channel.isLt
  exact storeAt_of_lt (i := nboutputs * k + channel) (by omega)

theorem lagrangeAt_eq (hk : 3 ≤ k) (hfit : nboutputs * k + nboutputs ≤ len) :
    lagrangeAt ops nboutputs len (nboutputs * k : Nat) rxbuf =
      some (setFrame rxbuf k (concealed ops rxbuf k : Frame S nboutputs)) := by
  apply foldlM_channels
  intro mem channel hbelow _
  have hlt := channel.isLt
  have hload₁ := loadAt_before (j := 1) (by decide) (by omega) hfit hbelow channel
  have hload₂ := loadAt_before (j := 2) (by decide) (by omega) hfit hbelow channel
  have hload₃ := loadAt_before (j := 3) (by decide) hk hfit hbelow channel
  have hstore : storeAt len mem (nboutputs * k + channel : Nat) (concealed ops rxbuf k channel) =
      some (Function.update mem (nboutputs * k + channel) (concealed ops rxbuf k channel)) :=
    storeAt_of_lt (by omega)
  rw [Nat.cast_one, one_mul] at hload₁
  rw [hload₁, Option.bind_eq_bind, Option.bind_some]
  simp only [Nat.cast_ofNat] at hload₂ hload₃
  rw [hload₂, Option.bind_some, hload₃, Option.bind_some]
  exact hstore

theorem setFrame_setFrame {y : Frame S nboutputs} :
    setFrame (setFrame rxbuf k x) k y = setFrame rxbuf k y := by
  funext i
  simp only [setFrame]
  split_ifs <;> rfl

theorem smoothAt_eq (hk : 3 ≤ k) (hfit : nboutputs * k + nboutputs ≤ len) :
    smoothAt ops nboutputs len (nboutputs * k : Nat) (setFrame rxbuf k x) =
      some (setFrame rxbuf k (smoothed ops rxbuf k x)) := by
  rw [← setFrame_setFrame (x := x) (y := smoothed ops rxbuf k x)]
  apply foldlM_channels
  intro mem channel hbelow hself
  have hlt := channel.isLt
  have hframe : ∀ j, 0 < j → j ≤ k → frameAt (setFrame rxbuf k x) (k - j) channel =
      frameAt rxbuf (k - j) channel :=
    fun j hj hjk => congrFun (frameAt_setFrame_ne (by omega)) channel
  have hload : loadAt len mem (nboutputs * k + channel : Nat) =
      some (mem (nboutputs * k + channel)) := loadAt_of_lt (by omega)
  have hload₁ := loadAt_before (j := 1) (by decide) (by omega) hfit hbelow channel
  have hload₂ := loadAt_before (j := 2) (by decide) (by omega) hfit hbelow channel
  have hload₃ := loadAt_before (j := 3) (by decide) hk hfit hbelow channel
  have hx : setFrame rxbuf k x (nboutputs * k + channel) = x channel :=
    congrFun frameAt_setFrame_self channel
  have hstore : storeAt len mem (nboutputs * k + channel : Nat) (smoothed ops rxbuf k x channel) =
      some (Function.update mem (nboutputs * k + channel) (smoothed ops rxbuf k x channel)) :=
    storeAt_of_lt (by omega)
  rw [hself, hx, Nat.cast_add] at hload
  rw [hframe 1 (by decide) (by omega), Nat.cast_one, one_mul] at hload₁
  rw [hframe 2 (by decide) (by omega), Nat.cast_ofNat] at hload₂
  rw [hframe 3 (by decide) hk, Nat.cast_ofNat] at hload₃
  rw [hload, Option.bind_eq_bind, Option.bind_some, hload₁, Option.bind_some, hload₂,
    Option.bind_some, hload₃, Option.bind_some]
  exact hstore

variable {s : Turns S} {slot : Slot S nboutputs} {smooths : Nat → Bool}

/-- A turn whose frame lies in the buffer stays in it. -/
theorem turnAt_eq (hL : 3 ≤ L) (hfit : nboutputs * (s.lframe + L) + nboutputs ≤ len) :
    turnAt ops L len smooths s slot = some (turn ops L smooths s slot) := by
  have hpos : (nboutputs : Int) * (s.lframe + L) = (nboutputs * (s.lframe + L) : Nat) := by
    rw [Nat.cast_mul, Nat.cast_add]
  have hk : 3 ≤ s.lframe + L := by omega
  cases slot with
  | none =>
    rw [turnAt, hpos, turn]
    dsimp only
    split_ifs with hlost
    · rw [lagrangeAt_eq hk hfit]
      rfl
    · rfl
  | some x =>
    rw [turnAt, hpos, storeFrameAt_eq hfit, Option.bind_eq_bind, Option.bind_some, turn]
    dsimp only
    split_ifs with hsmooth
    · rw [smoothAt_eq hk hfit]
      rfl
    · rfl

theorem foldlM_deliver {frame : Nat}
    {step : Ports S nboutputs → Fin nboutputs → Option (Ports S nboutputs)}
    (hstep : ∀ buffers channel, step buffers channel = some (Function.update buffers channel
      (Function.update (buffers channel) frame (frameAt rxbuf frame channel))))
    (l : List (Fin nboutputs)) (buffers : Ports S nboutputs) :
    l.foldlM step buffers = some fun channel =>
      if channel ∈ l then deliver buffers rxbuf frame channel else buffers channel := by
  induction l generalizing buffers with
  | nil => rfl
  | cons other l ih =>
    rw [List.foldlM_cons, hstep, Option.bind_eq_bind, Option.bind_some, ih]
    congr 1
    funext channel
    by_cases heq : channel = other
    · subst heq
      rw [if_pos List.mem_cons_self]
      simp [deliver]
    · simp only [deliver, List.mem_cons, heq, false_or, Function.update_of_ne (Ne.intro heq)]

/-- One frame goes to the port buffers. -/
theorem deliverAt_eq {buffers : Ports S nboutputs} {frame : Nat}
    (hfit : nboutputs * frame + nboutputs ≤ len) :
    deliverAt len rxbuf buffers frame = some (deliver buffers rxbuf frame) := by
  have hstep : ∀ (buffers : Ports S nboutputs) (channel : Fin nboutputs),
      (do
        let x ← loadAt len rxbuf (nboutputs * frame + channel)
        return Function.update buffers channel (Function.update (buffers channel) frame x)) =
      some (Function.update buffers channel
        (Function.update (buffers channel) frame (frameAt rxbuf frame channel))) := by
    intro buffers channel
    have hlt := channel.isLt
    have hload : loadAt len rxbuf (nboutputs * frame + channel : Nat) =
        some (rxbuf (nboutputs * frame + channel)) := loadAt_of_lt (by omega)
    rw [Nat.cast_add, Nat.cast_mul] at hload
    rw [hload]
    rfl
  rw [deliverAt, channels, foldlM_deliver hstep]
  simp

theorem frame_fits {n j : Nat} (h : j < n) (hlen : nboutputs * n ≤ len) :
    nboutputs * j + nboutputs ≤ len := by
  rw [← Nat.mul_succ]
  exact le_trans (Nat.mul_le_mul_left _ h) hlen

/-- The loop has a turn for each frame at most, so it stays in the buffer. -/
theorem foldlM_turnAt (hL : 3 ≤ L) (hfit : nboutputs * (s.lframe + slots.length + L) ≤ len) :
    slots.foldlM (turnAt ops L len smooths) s = some (slots.foldl (turn ops L smooths) s) := by
  induction slots generalizing s with
  | nil => rfl
  | cons slot slots ih =>
    have hturn : turnAt ops L len smooths s slot = some (turn ops L smooths s slot) :=
      turnAt_eq hL (frame_fits (by rw [List.length_cons]; omega) hfit)
    rw [List.foldlM_cons, hturn, Option.bind_eq_bind, Option.bind_some, List.foldl_cons]
    apply ih
    refine le_trans (Nat.mul_le_mul_left _ ?_) hfit
    rw [List.length_cons]
    rcases turn_cases ops smooths L s slot with ⟨-, -, hlframe⟩ | ⟨-, hlframe⟩ <;> omega

variable {p : PortTurns S nboutputs}

theorem portTurnAt_eq (hL : 3 ≤ L) (hfit : nboutputs * (p.lframe + L) + nboutputs ≤ len) :
    portTurnAt ops L len p slot = some (portTurn ops L p slot) := by
  have hdeliver : nboutputs * p.lframe + nboutputs ≤ len := by
    rw [Nat.mul_add] at hfit
    omega
  rw [portTurnAt, turnAt_eq hL hfit, portTurn, Option.bind_eq_bind, Option.bind_some]
  dsimp only
  split_ifs with hsame
  · rfl
  · rw [deliverAt_eq hdeliver]
    rfl

theorem foldlM_portTurnAt (hL : 3 ≤ L) (hfit : nboutputs * (p.lframe + slots.length + L) ≤ len) :
    slots.foldlM (portTurnAt ops L len) p = some (slots.foldl (portTurn ops L) p) := by
  induction slots generalizing p with
  | nil => rfl
  | cons slot slots ih =>
    have hturn : portTurnAt ops L len p slot = some (portTurn ops L p slot) :=
      portTurnAt_eq hL (frame_fits (by rw [List.length_cons]; omega) hfit)
    rw [List.foldlM_cons, hturn, Option.bind_eq_bind, Option.bind_some, List.foldl_cons]
    apply ih
    refine le_trans (Nat.mul_le_mul_left _ ?_) hfit
    rw [List.length_cons]
    have hlframe : (portTurn ops L p slot).lframe =
        (turn ops L nonInterleavedSmooths p.toTurns slot).lframe := rfl
    rcases turn_cases ops nonInterleavedSmooths L p.toTurns slot with ⟨-, -, h⟩ | ⟨-, h⟩ <;> omega

theorem memmoveAt_of_le {dst src count : Nat} (hdst : dst + count ≤ len)
    (hsrc : src + count ≤ len) :
    memmoveAt len rxbuf dst src count = some (memmove rxbuf dst src count) := by
  rw [memmoveAt, if_pos ⟨by omega, by omega, by omega, by omega, by omega⟩, Int.toNat_natCast,
    Int.toNat_natCast, Int.toNat_natCast]

/-- The tail lies behind the head, so the copy has no overlap. -/
theorem startAt_eq (hmin : c.lagrangeNum ≤ c.nframes) : c.startAt = some c.start := by
  have hroom := c.room
  have hle : c.lagrangeNum * nboutputs ≤ c.nframes * nboutputs := Nat.mul_le_mul_right _ hmin
  rw [Nat.mul_comm, Nat.add_mul] at hroom
  have hmove : memmoveAt c.rxbuflen c.rxbuf (0 : Nat) (c.nframes * nboutputs : Nat)
      (c.lagrangeNum * nboutputs : Nat) = some c.tailToHead :=
    memmoveAt_of_le (by omega) hroom
  rw [Nat.cast_mul, Nat.cast_mul, Nat.cast_zero] at hmove
  have hapart : (0 : Int) + c.lagrangeNum * nboutputs ≤ c.nframes * nboutputs := by
    rw [Int.zero_add]
    exact_mod_cast hle
  rw [RxStream.startAt, memcpyAt, if_pos (Or.inl hapart), hmove]
  rfl

/-- The move of a short period: both places lie in the buffer. -/
theorem shiftAt_eq (hb : 0 < nboutputs) : c.shiftAt s = some (c.shift s) := by
  rw [RxStream.shiftAt, RxStream.shift]
  split_ifs with hshort
  · have hroom := c.room
    rw [Nat.shiftRight_eq_div_pow] at hshort
    have hhalf : nboutputs * (s.lframe + (s.lframe + 1)) ≤ nboutputs * c.nframes :=
      Nat.mul_le_mul_left _ (by omega)
    have hsplit : nboutputs * (c.nframes - 1 - s.lframe + (s.lframe + 1)) =
        nboutputs * c.nframes := by
      congr 1
      omega
    have hL : c.lagrangeNum ≤ nboutputs * c.lagrangeNum := Nat.le_mul_of_pos_left _ hb
    rw [Nat.mul_add, Nat.mul_succ] at hhalf hsplit
    rw [Nat.mul_add] at hroom
    have hmove : memmoveAt c.rxbuflen s.rxbuf
        (nboutputs * (c.nframes - 1 - s.lframe) + c.lagrangeNum : Nat)
        (nboutputs * s.lframe + c.lagrangeNum : Nat) (nboutputs * s.lframe : Nat) =
        some (memmove s.rxbuf (nboutputs * (c.nframes - 1 - s.lframe) + c.lagrangeNum)
          (nboutputs * s.lframe + c.lagrangeNum) (nboutputs * s.lframe)) :=
      memmoveAt_of_le (by omega) (by omega)
    have hdst : (nboutputs : Int) * (c.nframes - 1 - s.lframe) + c.lagrangeNum =
        (nboutputs * (c.nframes - 1 - s.lframe) + c.lagrangeNum : Nat) := by
      rw [Nat.cast_add, Nat.cast_mul, Nat.cast_sub (by omega), Nat.cast_sub (by omega),
        Nat.cast_one]
    rw [hdst, ← hmove, Nat.cast_add (nboutputs * s.lframe), Nat.cast_mul nboutputs s.lframe]
  · rfl

theorem foldlM_deliverAt {frames : List Nat} {buffers : Ports S nboutputs}
    (h : ∀ frame ∈ frames, nboutputs * frame + nboutputs ≤ len) :
    frames.foldlM (deliverAt len rxbuf) buffers =
      some (frames.foldl (deliver · rxbuf) buffers) := by
  induction frames generalizing buffers with
  | nil => rfl
  | cons frame frames ih =>
    obtain ⟨hframe, hframes⟩ := List.forall_mem_cons.mp h
    rw [List.foldlM_cons, deliverAt_eq hframe, some_bind, ih hframes, List.foldl_cons]

/-- Both readers stay inside `rxbuf`, and read and write what the model of them says. -/
theorem rxbuf_accesses_in_bounds (hb : 0 < nboutputs) (hL : c.lagrangeNum = 3)
    (hmin : c.lagrangeNum ≤ c.nframes)
    (hlen : c.rxbuflen = nboutputs * (c.nframes + c.lagrangeNum))
    (hn : slots.length = c.nframes) :
    checkedReadFromRingbufferAsync ops c slots = some (readFromRingbufferAsync ops c slots) ∧
      ∀ buffers, checkedReadFromRingbufferAsyncNonInterleaved ops c buffers slots =
        some (readFromRingbufferAsyncNonInterleaved ops c buffers slots) := by
  have hfit : nboutputs * (c.start.lframe + slots.length + c.lagrangeNum) ≤ c.rxbuflen := by
    have hzero : c.start.lframe + slots.length = c.nframes := (Nat.zero_add _).trans hn
    rw [hzero, hlen]
  constructor
  · have hturns : slots.foldlM (turnAt ops c.lagrangeNum c.rxbuflen asyncSmooths) c.start =
        some (slots.foldl (turn ops c.lagrangeNum asyncSmooths) c.start) :=
      foldlM_turnAt hL.ge hfit
    have hmemset : ∀ rxbuf : Nat → S, memsetAt c.rxbuflen rxbuf ops.zero c.rxbuflen =
        some (memset rxbuf ops.zero c.rxbuflen) := fun _ => if_pos (Nat.le_refl _)
    rw [checkedReadFromRingbufferAsync, startAt_eq hmin, some_bind, hturns, some_bind,
      shiftAt_eq hb, some_bind, readFromRingbufferAsync]
    simp only [hmemset]
    split_ifs <;> rfl
  · intro buffers
    have hturns : slots.foldlM (portTurnAt ops c.lagrangeNum c.rxbuflen) ⟨c.start, buffers⟩ =
        some (slots.foldl (portTurn ops c.lagrangeNum) ⟨c.start, buffers⟩) :=
      foldlM_portTurnAt hL.ge hfit
    rw [checkedReadFromRingbufferAsyncNonInterleaved, startAt_eq hmin, some_bind, hturns, some_bind,
      shiftAt_eq hb, some_bind, readFromRingbufferAsyncNonInterleaved]
    generalize slots.foldl (portTurn ops c.lagrangeNum) ⟨c.start, buffers⟩ = p
    dsimp only
    by_cases hshort : p.lframe < c.nframes >>> 1
    · have hframes : ∀ frame ∈ List.range' (c.nframes - 1 - p.lframe) (p.lframe + 1),
          nboutputs * frame + nboutputs ≤ c.rxbuflen := by
        intro frame hframe
        rw [List.mem_range'_1] at hframe
        rw [Nat.shiftRight_eq_div_pow] at hshort
        apply frame_fits (n := c.nframes + c.lagrangeNum) (by omega) hlen.ge
      rw [if_pos hshort, if_pos hshort, foldlM_deliverAt hframes, some_bind]
      split_ifs <;> rfl
    · rw [if_neg hshort, if_neg hshort, some_bind]
      split_ifs <;> rfl

/-- A mono receptor with periods of eight frames. -/
def eightFrameStream : RxStream Rat 1 where
  nframes := 8
  lagrangeNum := 3
  rxbuf := fun _ => 0
  rxbuflen := 11
  lostPacCnt := 0
  room := by decide

/-- A short period: all frames but the first are missing. -/
theorem rxbuf_accesses_in_bounds_short :
    checkedReadFromRingbufferAsync rationalOps eightFrameStream
        (some (fun _ => 1) :: List.replicate 7 none) =
      some (readFromRingbufferAsync rationalOps eightFrameStream
        (some (fun _ => 1) :: List.replicate 7 none)) ∧
      ∀ buffers, checkedReadFromRingbufferAsyncNonInterleaved rationalOps eightFrameStream buffers
          (some (fun _ => 1) :: List.replicate 7 none) =
        some (readFromRingbufferAsyncNonInterleaved rationalOps eightFrameStream buffers
          (some (fun _ => 1) :: List.replicate 7 none)) :=
  rxbuf_accesses_in_bounds (by decide) rfl (by decide) rfl rfl

end Vban.Playback
