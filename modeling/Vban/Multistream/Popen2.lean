import Mathlib.Data.List.Nodup

/-! `popen2`: the child that it starts, and the descriptors that the parent keeps. -/
namespace Vban.Multistream

/-- What `pipe` makes. -/
structure Pipe where
  read : Nat
  write : Nat
deriving DecidableEq

/-- How far the system calls of `popen2` get. -/
inductive Popen2Calls
  /-- The first `pipe` failed. -/
  | noPipe
  | onePipe (pStdin : Pipe)
  | noFork (pStdin pStdout : Pipe)
  | forked (pStdin pStdout : Pipe) (pid : Nat) (pos : 0 < pid)
deriving DecidableEq

namespace Popen2Calls

/-- The descriptors that `pipe` made. -/
def made : Popen2Calls → List Nat
  | noPipe => []
  | onePipe pStdin => [pStdin.read, pStdin.write]
  | noFork pStdin pStdout | forked pStdin pStdout .. =>
    [pStdin.read, pStdin.write, pStdout.read, pStdout.write]

def Succeeds : Popen2Calls → Prop
  | forked .. => True
  | _ => False

instance : DecidablePred Succeeds := fun calls =>
  match calls with
  | noPipe | onePipe _ | noFork .. => inferInstanceAs (Decidable False)
  | forked .. => inferInstanceAs (Decidable True)

/-- `pipe` makes descriptors that are not open. Descriptor 0 is standard input. -/
structure Fresh (fds : List Nat) (calls : Popen2Calls) : Prop where
  nodup : calls.made.Nodup
  notMem : ∀ fd ∈ calls.made, fd ∉ fds
  ne_zero : ∀ fd ∈ calls.made, fd ≠ 0

/-- What `popen2` returns. -/
def ret : Popen2Calls → Int
  | forked _ _ pid _ => pid
  | _ => -1

/-- The value of `*infp` after the call, where `infp` is not null. -/
def infp : Popen2Calls → Nat → Nat
  | forked pStdin .., _ => pStdin.write
  | _, old => old

/-- The value of `*outfp` after the call, where `outfp` is not null. -/
def outfp : Popen2Calls → Nat → Nat
  | forked _ pStdout .., _ => pStdout.read
  | _, old => old

/-- The descriptors that the parent closes, by whether `infp` and `outfp` are null. -/
def closed (infpNull outfpNull : Bool) : Popen2Calls → List Nat
  | forked pStdin pStdout .. =>
    [pStdin.read, pStdout.write] ++ (if infpNull then [pStdin.write] else []) ++
      (if outfpNull then [pStdout.read] else [])
  | _ => []

/-- The descriptors that are open after the call. -/
def opened (infpNull outfpNull : Bool) (calls : Popen2Calls) (fds : List Nat) : List Nat :=
  (fds ++ calls.made).filter fun fd => fd ∉ calls.closed infpNull outfpNull

variable {calls : Popen2Calls} {fds : List Nat} {old fd : Nat} {infpNull outfpNull : Bool}

theorem ret_pos_iff : 0 < calls.ret ↔ calls.Succeeds := by
  cases calls with
  | noPipe | onePipe | noFork => exact iff_of_false (nomatch ·) id
  | forked pStdin pStdout pid pos => exact iff_of_true (Int.natCast_pos.mpr pos) trivial

theorem ret_ne_zero (calls : Popen2Calls) : calls.ret ≠ 0 := by
  cases calls with
  | noPipe | onePipe | noFork => exact nofun
  | forked pStdin pStdout pid pos => exact Int.ne_of_gt (Int.natCast_pos.mpr pos)

/-- Only what the call made is closed. -/
theorem mem_made_of_mem_closed (h : fd ∈ calls.closed infpNull outfpNull) : fd ∈ calls.made := by
  cases calls with
  | noPipe | onePipe | noFork => cases h
  | forked pStdin pStdout pid pos =>
    simp only [closed, made] at h ⊢
    grind

/-- A descriptor that was open stays open. -/
theorem notMem_closed (hfresh : calls.Fresh fds) (hfd : fd ∈ fds) :
    fd ∉ calls.closed infpNull outfpNull :=
  fun h => hfresh.notMem fd (mem_made_of_mem_closed h) hfd

theorem mem_opened (hfresh : calls.Fresh fds) (hfd : fd ∈ fds) :
    fd ∈ calls.opened infpNull outfpNull fds := by
  rw [opened, List.mem_filter, decide_eq_true_eq]
  exact ⟨List.mem_append_left _ hfd, notMem_closed hfresh hfd⟩

/-- What is left open of the two pipes stands behind what was open before. -/
theorem opened_eq (hfresh : calls.Fresh fds) : calls.opened infpNull outfpNull fds =
    fds ++ calls.made.filter fun fd => fd ∉ calls.closed infpNull outfpNull := by
  have hkept : fds.filter (fun fd => fd ∉ calls.closed infpNull outfpNull) = fds := by
    apply List.filter_eq_self.mpr
    intro fd hfd
    rw [decide_eq_true_eq]
    exact notMem_closed hfresh hfd
  rw [opened, List.filter_append, hkept]

/-- The call that starts a receptor: the parent keeps the end that it writes to. -/
theorem opened_infp (old : Nat) (hfresh : calls.Fresh fds) (hcalls : calls.Succeeds) :
    calls.opened false true fds = fds ++ [calls.infp old] := by
  rw [opened_eq hfresh]
  cases calls with
  | noPipe | onePipe | noFork => exact hcalls.elim
  | forked pStdin pStdout pid pos =>
    have hnodup := hfresh.nodup
    simp only [made, List.nodup_cons, List.mem_cons, List.not_mem_nil, not_or] at hnodup
    simp [made, closed, infp, hnodup, Ne.symm hnodup.1.1]

/-- The call that starts an emitter: the parent keeps the end that it reads from. -/
theorem opened_outfp (old : Nat) (hfresh : calls.Fresh fds) (hcalls : calls.Succeeds) :
    calls.opened true false fds = fds ++ [calls.outfp old] := by
  rw [opened_eq hfresh]
  cases calls with
  | noPipe | onePipe | noFork => exact hcalls.elim
  | forked pStdin pStdout pid pos =>
    have hnodup := hfresh.nodup
    simp only [made, List.nodup_cons, List.mem_cons, List.not_mem_nil, not_or] at hnodup
    simp [made, closed, outfp, hnodup, Ne.symm hnodup.1.2.1, Ne.symm hnodup.2.1.1]

theorem infp_mem_made (hcalls : calls.Succeeds) : calls.infp old ∈ calls.made := by
  cases calls with
  | noPipe | onePipe | noFork => exact hcalls.elim
  | forked pStdin pStdout pid pos => simp [infp, made]

theorem infp_of_not_succeeds (hcalls : ¬calls.Succeeds) : calls.infp old = old := by
  cases calls with
  | noPipe | onePipe | noFork => rfl
  | forked => exact absurd trivial hcalls

end Popen2Calls

end Vban.Multistream
