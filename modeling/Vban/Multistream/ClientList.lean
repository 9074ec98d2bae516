import Vban.Multistream.Command
import Vban.Multistream.Popen2
import Vban.Receive.Context

/-! `vban_client_list.cpp`, and what the server keeps of a client. -/
namespace Vban.Multistream

/-- `client_id_t` -/
structure ClientId extends Client where
  pipedesc : Nat
  txpipedesc : Nat
  pid : Int
  txpid : Int
  timer : Nat

/-- The address and the stream name by which packets are given to clients. -/
def Client.key (client : Client) : UInt32 × StreamName := (client.ip, client.streamname)

section List

variable {α : Type*}

/-- Returns 1 when there is nothing to remove. -/
def pop : List α → Nat × List α
  | [] => (1, [])
  | _ :: clients => (0, clients)

/-- The loop of `remove_by_index` from `current` on, with `n - 1` turns left, and the removal of
the client behind the one it ends at. -/
def removeBehind (current : α) : List α → Nat → Nat × List α
  | [], _ => (1, [current])
  | _ :: next, 0 => (0, current :: next)
  | node :: next, n + 1 =>
    let removed := removeBehind node next n
    (removed.1, current :: removed.2)

def removeByIndex : List α → Nat → Except Fault (Nat × List α)
  | clients, 0 => .ok (pop clients)
  | [], _ + 1 => .error .nullPointer
  | current :: next, n + 1 => .ok (removeBehind current next n)

theorem removeBehind_eq (current : α) (next : List α) (n : Nat) :
    removeBehind current next n =
      (if n < next.length then 0 else 1, current :: next.eraseIdx n) := by
  induction next generalizing current n with
  | nil => rfl
  | cons node next ih =>
    cases n with
    | zero => rfl
    | succ n =>
      rw [removeBehind, ih, List.eraseIdx_cons_succ]
      simp only [List.length_cons, Nat.succ_lt_succ_iff]

/-- The client with this index is removed. -/
theorem removeByIndex_eq {clients : List α} {n : Nat} (h : n < clients.length) :
    removeByIndex clients n = .ok (0, clients.eraseIdx n) := by
  cases clients with
  | nil => cases h
  | cons current next =>
    cases n with
    | zero => rfl
    | succ n =>
      rw [removeByIndex, removeBehind_eq, if_pos (Nat.lt_of_succ_lt_succ h)]
      rfl

end List

end Vban.Multistream
