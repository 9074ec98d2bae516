import Vban.Library.Outcome
import Vban.Library.Window

/-! Frames stored at equal distances in a buffer. -/
namespace Vban.Library

variable {α β : Type*} {frames : Nat → List α} {buf xs : List α} {stride n k f c : Nat}

/-- Frame after frame is stored, `stride` items apart. -/
def writeFrames (stride : Nat) (frames : Nat → List α) (n : Nat) (buf : List α) : List α :=
  (List.range n).foldl (fun buf i => overwrite buf (i * stride) (frames i)) buf

theorem writeFrames_succ : writeFrames stride frames (n + 1) buf =
    overwrite (writeFrames stride frames n buf) (n * stride) (frames n) := by
  rw [writeFrames, List.range_succ, List.foldl_append]
  rfl

theorem length_writeFrames (hlen : ∀ i, i < n → (frames i).length ≤ stride)
    (hroom : n * stride ≤ buf.length) : (writeFrames stride frames n buf).length = buf.length := by
  induction n with
  | zero => rfl
  | succ n ih =>
    rw [Nat.succ_mul] at hroom
    have hlast := hlen n (Nat.lt_succ_self n)
    have hbefore := ih (fun i hi => hlen i (Nat.lt_succ_of_lt hi)) (by omega)
    rw [writeFrames_succ, length_overwrite (by omega), hbefore]

/-- Frames that leave no gap are written as one. -/
theorem writeFrames_whole (hlen : ∀ i, i < n → (frames i).length = stride)
    (hroom : n * stride ≤ buf.length) :
    writeFrames stride frames n buf = (List.range n).flatMap frames ++ buf.drop (n * stride) := by
  induction n with
  | zero => simp [writeFrames]
  | succ n ih =>
    rw [Nat.succ_mul] at hroom ⊢
    have hbefore : ((List.range n).flatMap frames).length = n * stride := by
      have hsame : ∀ i ∈ List.range n, (frames i).length = stride := fun i hi =>
        hlen i (Nat.lt_succ_of_lt (List.mem_range.mp hi))
      rw [List.length_flatMap, List.map_congr_left hsame, List.map_const', List.length_range,
        List.sum_replicate_nat]
    rw [writeFrames_succ, ih (fun i hi => hlen i (Nat.lt_succ_of_lt hi)) (by omega), overwrite,
      List.take_left' hbefore, ← List.drop_drop, List.drop_left' hbefore, List.drop_drop,
      hlen n (Nat.lt_succ_self n), List.range_succ, List.flatMap_append, List.flatMap_singleton]

/-- An item of the buffer is one of its frame, or what was there before. -/
theorem getElem?_writeFrames (hlen : ∀ i, i < n → (frames i).length = k) (hk : k ≤ stride)
    (hroom : n * stride ≤ buf.length) (hc : c < stride) :
    (writeFrames stride frames n buf)[f * stride + c]? =
      if f < n ∧ c < k then (frames f)[c]? else buf[f * stride + c]? := by
  induction n with
  | zero => simp [writeFrames]
  | succ n ih =>
    rw [Nat.succ_mul] at hroom
    have hlast := hlen n (Nat.lt_succ_self n)
    have hbefore := ih (fun i hi => hlen i (Nat.lt_succ_of_lt hi)) (by omega)
    have hlength := length_writeFrames (fun i hi => (hlen i (Nat.lt_succ_of_lt hi)).trans_le hk)
      (by omega : n * stride ≤ buf.length)
    rw [writeFrames_succ, getElem?_overwrite (by omega), hbefore, hlast]
    rcases Nat.lt_trichotomy f n with hlt | rfl | hgt
    · have hle : (f + 1) * stride ≤ n * stride := Nat.mul_le_mul_right _ hlt
      rw [Nat.succ_mul] at hle
      rw [if_neg (by omega)]
      simp only [hlt, Nat.lt_succ_of_lt hlt]
    · rw [Nat.add_sub_cancel_left]
      by_cases hck : c < k
      · rw [if_pos (by omega), if_pos ⟨Nat.lt_succ_self f, hck⟩]
      · rw [if_neg (by omega), if_neg (fun h => hck h.2), if_neg (fun h => hck h.2)]
    · have hle : (n + 1) * stride ≤ f * stride := Nat.mul_le_mul_right _ hgt
      rw [Nat.succ_mul] at hle
      rw [if_neg (by omega), if_neg (by omega), if_neg (by omega)]

theorem map_overwrite (g : α → β) (buf : List α) (w : Nat) (xs : List α) :
    (overwrite buf w xs).map g = overwrite (buf.map g) w (xs.map g) := by
  simp [overwrite]

theorem map_writeFrames (g : α → β) (stride : Nat) (frames : Nat → List α) (n : Nat)
    (buf : List α) : (writeFrames stride frames n buf).map g =
      writeFrames stride (fun i => (frames i).map g) n (buf.map g) := by
  induction n with
  | zero => rfl
  | succ n ih => rw [writeFrames_succ, writeFrames_succ, map_overwrite, ih]

theorem mem_of_mem_writeFrames {x : α} (h : x ∈ writeFrames stride frames n buf) :
    x ∈ buf ∨ ∃ i, i < n ∧ x ∈ frames i := by
  induction n with
  | zero => exact .inl h
  | succ n ih =>
    rw [writeFrames_succ, overwrite, List.mem_append, List.mem_append] at h
    have hbefore : x ∈ writeFrames stride frames n buf →
        x ∈ buf ∨ ∃ i, i < n + 1 ∧ x ∈ frames i := by
      intro hx
      rcases ih hx with hbuf | ⟨i, hi, hx⟩
      · exact .inl hbuf
      · exact .inr ⟨i, Nat.lt_succ_of_lt hi, hx⟩
    rcases h with (htake | hlast) | hdrop
    · exact hbefore (List.mem_of_mem_take htake)
    · exact .inr ⟨n, Nat.lt_succ_self n, hlast⟩
    · exact hbefore (List.mem_of_mem_drop hdrop)

/-- A loop that computes its frames, and the frames that it computes. -/
theorem writeFrames_of_foldlM {ε : Type*} {α : Type*} {frames : Nat → List α} {buf buf' : List α}
    {g : Nat → Except ε (List α)} (hg : ∀ i, ∀ xs, g i = .ok xs → xs = frames i)
    (h : (List.range n).foldlM (fun buf i => do
      let xs ← g i
      return overwrite buf (i * stride) xs) buf = .ok buf') :
    buf' = writeFrames stride frames n buf := by
  induction n generalizing buf' with
  | zero => exact (Except.ok.inj h).symm
  | succ n ih =>
    rw [List.range_succ, List.foldlM_append] at h
    obtain ⟨before, hbefore, h⟩ := bind_eq_ok.mp h
    rw [List.foldlM_cons] at h
    obtain ⟨last, hlast, h⟩ := bind_eq_ok.mp h
    obtain ⟨xs, hxs, hlast⟩ := bind_eq_ok.mp hlast
    obtain rfl := Except.ok.inj h
    obtain rfl := Except.ok.inj hlast
    rw [writeFrames_succ, ← ih hbefore, ← hg n xs hxs]

end Vban.Library
