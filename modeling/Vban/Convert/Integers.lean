import Vban.Convert.SampleConvert

/-! Conversions between integer formats. -/
namespace Vban.Convert

open Library

/-- The right-hand side of an assignment to a byte of `dptr`. -/
inductive ByteSource
  | zero
  | sptr (index : Nat)
deriving DecidableEq

open ByteSource

/-- The assignments of one turn, to `dptr[0 + ..]`, `dptr[1 + ..]` and on. -/
def byteAssignments (formatBitDst formatBitSrc : UInt8) : Option (List ByteSource) :=
  if formatBitDst = vbanBitfmt8Int then
    if formatBitSrc = vbanBitfmt16Int then some [sptr 1]
    else if formatBitSrc = vbanBitfmt24Int then some [sptr 2]
    else if formatBitSrc = vbanBitfmt32Int then some [sptr 3]
    else none
  else if formatBitDst = vbanBitfmt16Int then
    if formatBitSrc = vbanBitfmt8Int then some [zero, sptr 0]
    else if formatBitSrc = vbanBitfmt24Int then some [sptr 1, sptr 2]
    else if formatBitSrc = vbanBitfmt32Int then some [sptr 2, sptr 3]
    else none
  else if formatBitDst = vbanBitfmt24Int then
    if formatBitSrc = vbanBitfmt8Int then some [zero, zero, sptr 0]
    else if formatBitSrc = vbanBitfmt16Int then some [zero, sptr 0, sptr 1]
    else if formatBitSrc = vbanBitfmt32Int then some [sptr 1, sptr 2, sptr 3]
    else none
  else if formatBitDst = vbanBitfmt32Int then
    if formatBitSrc = vbanBitfmt8Int then some [zero, zero, zero, sptr 0]
    else if formatBitSrc = vbanBitfmt16Int then some [zero, zero, sptr 0, sptr 1]
    else if formatBitSrc = vbanBitfmt24Int then some [zero, sptr 0, sptr 1, sptr 2]
    else none
  else none

def ByteSource.value (source : List UInt8) (offset : Nat) : ByteSource → Option UInt8
  | zero => some 0
  | sptr index => source[index + offset]?

/-- One turn, that stores from `start` on. -/
def assignBytes (source : List UInt8) (offset : Nat) (target : List UInt8) (start : Nat) :
    List ByteSource → Option (List UInt8)
  | [] => some target
  | byte :: bytes => do
    let value ← byte.value source offset
    guard (start < target.length)
    assignBytes source offset (target.set start value) (start + 1) bytes

/-- The turns from `sample` on. -/
def convertSamples (bytes : List ByteSource) (dstSampleSize srcSampleSize : Nat)
    (source : List UInt8) : Nat → Nat → List UInt8 → Option (List UInt8)
  | 0, _, target => some target
  | turns + 1, sample, target => do
    let target ←
      assignBytes source (sample * srcSampleSize) target (sample * dstSampleSize) bytes
    convertSamples bytes dstSampleSize srcSampleSize source turns (sample + 1) target

/-- The branches of `vban_sample_convert` between integers, byte by byte. -/
def convertIntegers (target : List UInt8) (formatBitDst : UInt8) (source : List UInt8)
    (formatBitSrc : UInt8) (num : Nat) : Option (Nat × List UInt8) := do
  let dstSampleSize ← vbanBitResolutionSize[formatBitDst.toNat]?
  let srcSampleSize ← vbanBitResolutionSize[formatBitSrc.toNat]?
  if formatBitDst = formatBitSrc then
    return (0, ← store target (← load source (dstSampleSize * num)))
  match byteAssignments formatBitDst formatBitSrc with
  | none => return (1, target)
  | some bytes =>
    return (0, ← convertSamples bytes dstSampleSize srcSampleSize source num 0 target)

/-- An integer format, with the bytes of a sample. -/
def IntegerFormat (formatBit : UInt8) (size : Nat) : Prop :=
  formatBit < vbanBitfmt32Float ∧ vbanBitResolutionSize[formatBit.toNat]? = some size

instance (formatBit : UInt8) (size : Nat) : Decidable (IntegerFormat formatBit size) :=
  inferInstanceAs (Decidable (_ ∧ _))

variable {formatBit formatA formatB formatC : UInt8} {size sizeA sizeB sizeC num : Nat}
  {source target sample : List UInt8}

theorem IntegerFormat.cases (h : IntegerFormat formatBit size) :
    formatBit = vbanBitfmt8Int ∧ size = 1 ∨ formatBit = vbanBitfmt16Int ∧ size = 2 ∨
      formatBit = vbanBitfmt24Int ∧ size = 3 ∨ formatBit = vbanBitfmt32Int ∧ size = 4 := by
  obtain ⟨hlt, hsize⟩ := h
  have hformat : formatBit = 0 ∨ formatBit = 1 ∨ formatBit = 2 ∨ formatBit = 3 := by
    have hlt : formatBit.toNat < 4 := hlt
    rw [← UInt8.toNat_inj, ← UInt8.toNat_inj, ← UInt8.toNat_inj, ← UInt8.toNat_inj]
    change formatBit.toNat = 0 ∨ formatBit.toNat = 1 ∨ formatBit.toNat = 2 ∨ formatBit.toNat = 3
    omega
  rcases hformat with rfl | rfl | rfl | rfl
  · exact Or.inl ⟨rfl, (Option.some.inj hsize).symm⟩
  · exact Or.inr (Or.inl ⟨rfl, (Option.some.inj hsize).symm⟩)
  · exact Or.inr (Or.inr (Or.inl ⟨rfl, (Option.some.inj hsize).symm⟩))
  · exact Or.inr (Or.inr (Or.inr ⟨rfl, (Option.some.inj hsize).symm⟩))

theorem IntegerFormat.bounds (h : IntegerFormat formatBit size) : 0 < size ∧ size ≤ 4 := by
  rcases h.cases with ⟨-, rfl⟩ | ⟨-, rfl⟩ | ⟨-, rfl⟩ | ⟨-, rfl⟩ <;> decide

/-- The byte is read inside its sample. -/
def ByteSource.InSample (size : Nat) : ByteSource → Prop
  | zero => True
  | sptr index => index < size

theorem value_take_drop {byte : ByteSource} {offset : Nat} (h : byte.InSample size) :
    byte.value source offset = byte.value ((source.drop offset).take size) 0 := by
  cases byte with
  | zero => rfl
  | sptr index =>
    rw [value, value, Nat.add_zero, List.getElem?_take_of_lt h, List.getElem?_drop, Nat.add_comm]

/-- Each branch reads inside its sample and moves the upper bytes. -/
theorem byteAssignments_spec (ha : IntegerFormat formatA sizeA) (hb : IntegerFormat formatB sizeB)
    (hne : formatB ≠ formatA) :
    ∃ bytes, byteAssignments formatB formatA = some bytes ∧ bytes.length = sizeB ∧
      (∀ byte ∈ bytes, byte.InSample sizeA) ∧
      ∀ sample : List UInt8, sample.length = sizeA →
        bytes.mapM (value sample 0) = some (alignSample sizeB sample) := by
  rcases ha.cases with ⟨rfl, rfl⟩ | ⟨rfl, rfl⟩ | ⟨rfl, rfl⟩ | ⟨rfl, rfl⟩
  · rcases hb.cases with ⟨rfl, rfl⟩ | ⟨rfl, rfl⟩ | ⟨rfl, rfl⟩ | ⟨rfl, rfl⟩
    · exact absurd rfl hne
    all_goals
      refine ⟨_, rfl, rfl, by simp [InSample], fun sample hs => ?_⟩
      match sample, hs with
      | [_], _ => rfl
  · rcases hb.cases with ⟨rfl, rfl⟩ | ⟨rfl, rfl⟩ | ⟨rfl, rfl⟩ | ⟨rfl, rfl⟩
    rotate_left
    · exact absurd rfl hne
    all_goals
      refine ⟨_, rfl, rfl, by simp [InSample], fun sample hs => ?_⟩
      match sample, hs with
      | [_, _], _ => rfl
  · rcases hb.cases with ⟨rfl, rfl⟩ | ⟨rfl, rfl⟩ | ⟨rfl, rfl⟩ | ⟨rfl, rfl⟩
    rotate_left 2
    · exact absurd rfl hne
    all_goals
      refine ⟨_, rfl, rfl, by simp [InSample], fun sample hs => ?_⟩
      match sample, hs with
      | [_, _, _], _ => rfl
  · rcases hb.cases with ⟨rfl, rfl⟩ | ⟨rfl, rfl⟩ | ⟨rfl, rfl⟩ | ⟨rfl, rfl⟩
    rotate_left 3
    · exact absurd rfl hne
    all_goals
      refine ⟨_, rfl, rfl, by simp [InSample], fun sample hs => ?_⟩
      match sample, hs with
      | [_, _, _, _], _ => rfl

theorem assignBytes_eq {offset start : Nat} {bytes : List ByteSource} {values : List UInt8}
    (hvalues : bytes.mapM (value source offset) = some values)
    (hroom : start + bytes.length ≤ target.length) :
    assignBytes source offset target start bytes = some (overwrite target start values) := by
  induction bytes generalizing target start values with
  | nil =>
    obtain rfl : [] = values := Option.some.inj hvalues
    simp [assignBytes, overwrite]
  | cons byte bytes ih =>
    rw [List.mapM_cons] at hvalues
    obtain ⟨x, hx, hvalues⟩ := Option.bind_eq_some_iff.mp hvalues
    obtain ⟨xs, hxs, hvalues⟩ := Option.bind_eq_some_iff.mp hvalues
    obtain rfl : x :: xs = values := Option.some.inj hvalues
    rw [List.length_cons] at hroom
    have hlt : start < target.length := by omega
    have hrest : assignBytes source offset (target.set start x) (start + 1) bytes =
        some (overwrite (target.set start x) (start + 1) xs) :=
      ih hxs (by rw [List.length_set]; omega)
    have happend : overwrite (overwrite target start [x]) (start + [x].length) xs =
        overwrite target start ([x] ++ xs) := overwrite_append hlt.le
    rw [List.length_singleton, List.singleton_append] at happend
    rw [set_eq_overwrite hlt, happend] at hrest
    rw [assignBytes, hx]
    simp [hlt, set_eq_overwrite hlt, hrest]

/-- The bytes of the samples in another format. -/
def alignedSamples (dstSampleSize srcSampleSize num : Nat) (source : List UInt8) : List UInt8 :=
  (chunks srcSampleSize num source).flatMap (alignSample dstSampleSize)

theorem length_alignSample : (alignSample size sample).length = size := by
  rw [alignSample, List.length_append, List.length_replicate, List.length_drop]
  omega

theorem length_alignedSamples : (alignedSamples sizeB sizeA num source).length = num * sizeB :=
  length_flatMap_chunks fun _ _ => length_alignSample

theorem mapM_value {offset : Nat} {bytes : List ByteSource}
    (hin : ∀ byte ∈ bytes, byte.InSample size) :
    bytes.mapM (value source offset) =
      bytes.mapM (value ((source.drop offset).take size) 0) := by
  induction bytes with
  | nil => rfl
  | cons byte bytes ih =>
    obtain ⟨hbyte, hbytes⟩ := List.forall_mem_cons.mp hin
    rw [List.mapM_cons, List.mapM_cons, value_take_drop hbyte, ih hbytes]

theorem convertSamples_eq {bytes : List ByteSource} {turns turn : Nat}
    (hin : ∀ byte ∈ bytes, byte.InSample sizeA)
    (halign : ∀ sample : List UInt8, sample.length = sizeA →
      bytes.mapM (value sample 0) = some (alignSample sizeB sample))
    (hlength : bytes.length = sizeB)
    (hsource : (turn + turns) * sizeA ≤ source.length)
    (htarget : (turn + turns) * sizeB ≤ target.length) :
    convertSamples bytes sizeB sizeA source turns turn target =
      some (overwrite target (turn * sizeB)
        (alignedSamples sizeB sizeA turns (source.drop (turn * sizeA)))) := by
  induction turns generalizing turn target with
  | zero => simp [convertSamples, alignedSamples, chunks, overwrite]
  | succ turns ih =>
    have hnext : (turn + 1) * sizeA = turn * sizeA + sizeA := Nat.succ_mul _ _
    have hstart : (turn + 1) * sizeB = turn * sizeB + sizeB := Nat.succ_mul _ _
    have hcut : (turn + 1) * sizeA ≤ source.length :=
      le_trans (Nat.mul_le_mul_right _ (by omega)) hsource
    have hfit : (turn + 1) * sizeB ≤ target.length :=
      le_trans (Nat.mul_le_mul_right _ (by omega)) htarget
    set sample := (source.drop (turn * sizeA)).take sizeA with hcutout
    have hsample : sample.length = sizeA := by
      rw [hcutout, List.length_take, List.length_drop]
      omega
    have hturn : assignBytes source (turn * sizeA) target (turn * sizeB) bytes =
        some (overwrite target (turn * sizeB) (alignSample sizeB sample)) := by
      apply assignBytes_eq
      · rw [mapM_value hin]
        exact halign _ hsample
      · omega
    have hrest := @ih (overwrite target (turn * sizeB) (alignSample sizeB sample)) (turn + 1)
      (by rwa [Nat.add_right_comm, Nat.add_assoc])
      (by rwa [length_overwrite (by rw [length_alignSample]; omega), Nat.add_right_comm,
        Nat.add_assoc])
    have happend : ∀ ys, overwrite (overwrite target (turn * sizeB) (alignSample sizeB sample))
        (turn * sizeB + (alignSample sizeB sample).length) ys =
          overwrite target (turn * sizeB) (alignSample sizeB sample ++ ys) :=
      fun ys => overwrite_append (by omega)
    rw [length_alignSample, ← hstart] at happend
    rw [convertSamples, hturn, Option.bind_eq_bind, Option.bind_some, hrest, happend,
      alignedSamples, alignedSamples, chunks, List.flatMap_cons, List.drop_drop, hnext]

theorem alignSample_self : alignSample sample.length sample = sample := by
  simp [alignSample]

theorem alignedSamples_self (h : num * size ≤ source.length) :
    alignedSamples size size num source = source.take (num * size) := by
  have hself : ∀ c ∈ chunks size num source, alignSample size c = id c := by
    intro c hc
    have hlen := length_of_mem_chunks h hc
    subst hlen
    exact alignSample_self
  have hcut : (source.take (num * size)).length = num * size := List.length_take_of_le h
  rw [alignedSamples, List.flatMap_def, List.map_congr_left hself, List.map_id, ← chunks_take,
    flatten_chunks hcut]

theorem convertIntegers_eq (ha : IntegerFormat formatA sizeA) (hb : IntegerFormat formatB sizeB)
    (hsource : num * sizeA ≤ source.length) (htarget : num * sizeB ≤ target.length) :
    convertIntegers target formatB source formatA num =
      some (0, alignedSamples sizeB sizeA num source ++ target.drop (num * sizeB)) := by
  have hout : (alignedSamples sizeB sizeA num source).length = num * sizeB :=
    length_alignedSamples
  by_cases hne : formatB = formatA
  · subst hne
    obtain rfl : sizeA = sizeB := Option.some.inj (ha.2.symm.trans hb.2)
    have hload : load source (sizeA * num) = some (alignedSamples sizeA sizeA num source) := by
      rw [alignedSamples_self hsource, load, Nat.mul_comm, if_pos hsource]
    have hstore : store target (alignedSamples sizeA sizeA num source) =
        some (alignedSamples sizeA sizeA num source ++ target.drop (num * sizeA)) := by
      rw [store, hout, if_pos htarget, overwrite_zero, hout]
    simp [convertIntegers, ha.2, hload, hstore]
  · obtain ⟨bytes, hbytes, hlength, hin, halign⟩ := byteAssignments_spec ha hb hne
    have hloop : convertSamples bytes sizeB sizeA source num 0 target =
        some (overwrite target (0 * sizeB)
          (alignedSamples sizeB sizeA num (source.drop (0 * sizeA)))) :=
      convertSamples_eq hin halign hlength (by rwa [Nat.zero_add]) (by rwa [Nat.zero_add])
    rw [Nat.zero_mul, Nat.zero_mul, List.drop_zero, overwrite_zero, hout] at hloop
    simp [convertIntegers, ha.2, hb.2, hne, hbytes, hloop]

/-- The whole function does the same on integers. -/
theorem vbanSampleConvert_integers (ha : IntegerFormat formatA sizeA)
    (hb : IntegerFormat formatB sizeB) (hsource : num * sizeA ≤ source.length)
    (htarget : num * sizeB ≤ target.length) :
    vbanSampleConvert (.bytes target) formatB (.bytes source) formatA num =
      (convertIntegers target formatB source formatA num).map fun r => (r.1, .bytes r.2) := by
  have hout : (alignedSamples sizeB sizeA num source).length = num * sizeB :=
    length_alignedSamples
  have hload : load source (num * sizeA) = some (source.take (num * sizeA)) := by
    rw [load, if_pos hsource]
  have hstore : store target (alignedSamples sizeB sizeA num source) =
      some (alignedSamples sizeB sizeA num source ++ target.drop (num * sizeB)) := by
    rw [store, hout, if_pos htarget, overwrite_zero, hout]
  have hleA : ¬vbanBitfmt32Float < formatA := UInt8.lt_asymm ha.1
  have hleB : ¬vbanBitfmt32Float < formatB := UInt8.lt_asymm hb.1
  rw [convertIntegers_eq ha hb hsource htarget]
  by_cases heq : formatB = formatA
  · subst heq
    obtain rfl : sizeA = sizeB := Option.some.inj (ha.2.symm.trans hb.2)
    rw [alignedSamples_self hsource] at hstore ⊢
    simp [vbanSampleConvert, SampleBuffer.Holds, UInt8.ne_of_lt ha.1, ha.2, hload, hstore]
  · rw [alignedSamples] at hstore ⊢
    simp [vbanSampleConvert, SampleBuffer.Holds, UInt8.ne_of_lt ha.1, UInt8.ne_of_lt hb.1, ha.2,
      hb.2, hleA, hleB, heq, hload, hstore, chunks_take]

/-- Nothing the result needs is lost in between. -/
theorem alignSample_alignSample (hs : sample.length = sizeA) (hwide : min sizeA sizeC ≤ sizeB) :
    alignSample sizeC (alignSample sizeB sample) = alignSample sizeC sample := by
  subst hs
  rcases Nat.le_total sample.length sizeB with hab | hba
  · have hwiden :
        alignSample sizeB sample = List.replicate (sizeB - sample.length) 0 ++ sample := by
      rw [alignSample, Nat.sub_eq_zero_of_le hab, List.drop_zero]
    rw [alignSample, length_alignSample, hwiden, alignSample, List.drop_append,
      List.drop_replicate, List.length_replicate, ← List.append_assoc,
      List.replicate_append_replicate]
    congr 2
    · omega
    · omega
  · by_cases hcb : sizeC ≤ sizeB
    · have hnarrow : alignSample sizeB sample = sample.drop (sample.length - sizeB) := by
        rw [alignSample, Nat.sub_eq_zero_of_le hba, List.replicate_zero, List.nil_append]
      rw [alignSample, length_alignSample, hnarrow, alignSample, List.drop_drop]
      congr 2
      · omega
      · omega
    · obtain rfl : sample.length = sizeB := by omega
      rw [alignSample_self]

theorem chunks_alignedSamples (tail : List UInt8) :
    chunks sizeB num (alignedSamples sizeB sizeA num source ++ tail) =
      (chunks sizeA num source).map (alignSample sizeB) := by
  have hmap : ∀ c ∈ (chunks sizeA num source).map (alignSample sizeB), c.length = sizeB := by
    intro c hc
    obtain ⟨sample, -, rfl⟩ := List.mem_map.mp hc
    exact length_alignSample
  have hflatten : chunks sizeB ((chunks sizeA num source).map (alignSample sizeB)).length
      (((chunks sizeA num source).map (alignSample sizeB)).flatten ++ tail) =
        (chunks sizeA num source).map (alignSample sizeB) := chunks_flatten_append hmap
  rwa [List.length_map, length_chunks, ← List.flatMap_def] at hflatten

theorem alignedSamples_alignedSamples (hsource : num * sizeA ≤ source.length)
    (hwide : min sizeA sizeC ≤ sizeB) (tail : List UInt8) :
    alignedSamples sizeC sizeB num (alignedSamples sizeB sizeA num source ++ tail) =
      alignedSamples sizeC sizeA num source := by
  rw [alignedSamples, chunks_alignedSamples, List.flatMap_map, alignedSamples]
  apply List.flatMap_congr
  intro sample hs
  exact alignSample_alignSample (length_of_mem_chunks hsource hs) hwide

/-- A conversion goes through any format that is wide enough, and stores all its bytes. -/
theorem convertIntegers_compose (ha : IntegerFormat formatA sizeA)
    (hb : IntegerFormat formatB sizeB) (hc : IntegerFormat formatC sizeC)
    (hwide : min sizeA sizeC ≤ sizeB) (hsource : num * sizeA ≤ source.length) :
    ∃ between out, between.length = num * sizeB ∧ out.length = num * sizeC ∧
      (∀ mid : List UInt8, num * sizeB ≤ mid.length →
        convertIntegers mid formatB source formatA num =
          some (0, between ++ mid.drop (num * sizeB))) ∧
      (∀ target : List UInt8, num * sizeC ≤ target.length →
        convertIntegers target formatC source formatA num =
            some (0, out ++ target.drop (num * sizeC)) ∧
          ∀ tail, convertIntegers target formatC (between ++ tail) formatB num =
            some (0, out ++ target.drop (num * sizeC))) ∧
      (formatC = formatA → out = source.take (num * sizeA)) := by
  have hbetween : (alignedSamples sizeB sizeA num source).length = num * sizeB :=
    length_alignedSamples
  refine ⟨alignedSamples sizeB sizeA num source, alignedSamples sizeC sizeA num source, hbetween,
    length_alignedSamples, ?_, ?_, ?_⟩
  · intro mid hmid
    exact convertIntegers_eq ha hb hsource hmid
  · intro target htarget
    refine ⟨convertIntegers_eq ha hc hsource htarget, fun tail => ?_⟩
    have hlong : num * sizeB ≤ (alignedSamples sizeB sizeA num source ++ tail).length := by
      rw [List.length_append, hbetween]
      exact Nat.le_add_right _ _
    rw [convertIntegers_eq hb hc hlong htarget,
      alignedSamples_alignedSamples hsource hwide]
  · rintro rfl
    obtain rfl : sizeA = sizeC := Option.some.inj (ha.2.symm.trans hc.2)
    exact alignedSamples_self hsource

theorem convertIntegers_compose_16_24 :
    ∃ between out, between.length = 2 * 3 ∧ out.length = 2 * 2 ∧
      (∀ mid : List UInt8, 2 * 3 ≤ mid.length →
        convertIntegers mid vbanBitfmt24Int [1, 2, 3, 4] vbanBitfmt16Int 2 =
          some (0, between ++ mid.drop (2 * 3))) ∧
      (∀ target : List UInt8, 2 * 2 ≤ target.length →
        convertIntegers target vbanBitfmt16Int [1, 2, 3, 4] vbanBitfmt16Int 2 =
            some (0, out ++ target.drop (2 * 2)) ∧
          ∀ tail, convertIntegers target vbanBitfmt16Int (between ++ tail) vbanBitfmt24Int 2 =
            some (0, out ++ target.drop (2 * 2))) ∧
      (vbanBitfmt16Int = vbanBitfmt16Int → out = [1, 2, 3, 4]) := by
  have h16 : IntegerFormat vbanBitfmt16Int 2 := ⟨by decide, rfl⟩
  have h24 : IntegerFormat vbanBitfmt24Int 3 := ⟨by decide, rfl⟩
  exact convertIntegers_compose h16 h24 h16 (by decide) (by decide)

end Vban.Convert
