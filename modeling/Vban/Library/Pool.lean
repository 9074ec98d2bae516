import Mathlib.Data.List.Nodup
import Mathlib.Logic.Function.Basic

/-! Objects that are shared where they suit, each with the number of those who hold it. The last
one to drop an object deletes it. -/
namespace Vban.Library

structure Pooled (α : Type*) where
  address : Nat
  value : α
  refc : Nat

structure Pool (α : Type*) where
  list : List (Pooled α)
  /-- No object has had this address. -/
  fresh : Nat

namespace Pool

variable {α : Type*} {p p' : Pool α} {pre post : List (Pooled α)} {e e' : Pooled α}
  {count : Nat → Nat} {a b : Nat} {value x : α} {suits : α → Bool}

def empty : Pool α := ⟨[], 0⟩

/-- `none` is an address at which no object is. -/
def read (p : Pool α) (a : Nat) : Option α :=
  (p.list.find? fun e => e.address = a).map fun e => e.value

/-- The first object that suits has one holder more. -/
def share (suits : α → Bool) : List (Pooled α) → Option (Nat × List (Pooled α))
  | [] => none
  | e :: rest =>
    if suits e.value then some (e.address, { e with refc := e.refc + 1 } :: rest)
    else (share suits rest).map fun (a, rest) => (a, e :: rest)

/-- Where no object suits, a new one is put in front. -/
def acquire (suits : α → Bool) (value : α) (p : Pool α) : Nat × Pool α :=
  match share suits p.list with
  | some (a, list) => (a, { p with list := list })
  | none => (p.fresh, ⟨⟨p.fresh, value, 1⟩ :: p.list, p.fresh + 1⟩)

/-- The object at the address has one holder less, and goes with the last one. -/
def drop (a : Nat) : List (Pooled α) → Option (List (Pooled α))
  | [] => none
  | e :: rest =>
    if e.address = a then
      some (if e.refc - 1 = 0 then rest else { e with refc := e.refc - 1 } :: rest)
    else (drop a rest).map fun rest => e :: rest

/-- `none` is an address at which no object is. -/
def release (a : Nat) (p : Pool α) : Option (Pool α) :=
  (drop a p.list).map fun list => { p with list := list }

/-- The number of holders, and one more if there is one. -/
def held (count : Nat → Nat) (T : Option Nat) (a : Nat) : Nat :=
  count a + if T = some a then 1 else 0

theorem held_none (count : Nat → Nat) : held count none = count := rfl

theorem held_some (count : Nat → Nat) (a : Nat) :
    held count (some a) = Function.update count a (count a + 1) := by
  funext b
  by_cases hba : b = a
  · rw [held, if_pos (congrArg some hba.symm), hba, Function.update_self]
  · rw [held, if_neg fun h => hba (Option.some.inj h).symm, Function.update_of_ne hba, Nat.add_zero]

theorem held_comm (count : Nat → Nat) (T T' : Option Nat) :
    held (held count T) T' = held (held count T') T := by
  funext a
  rw [held, held, held, held, Nat.add_right_comm]

/-- The objects are those that somebody holds, and each knows how many do. -/
structure Counted (p : Pool α) (count : Nat → Nat) : Prop where
  nodup : (p.list.map fun e => e.address).Nodup
  lt : ∀ e ∈ p.list, e.address < p.fresh
  refc_eq : ∀ e ∈ p.list, e.refc = count e.address
  refc_pos : ∀ e ∈ p.list, 0 < e.refc
  live : ∀ a, 0 < count a → ∃ e ∈ p.list, e.address = a

theorem counted_empty : Counted (empty : Pool α) fun _ => 0 :=
  ⟨List.nodup_nil, nofun, nofun, nofun, fun _ hpos => absurd hpos (Nat.lt_irrefl 0)⟩

theorem Counted.eq_of_address (h : Counted p count) (he : e ∈ p.list) (he' : e' ∈ p.list)
    (haddress : e.address = e'.address) : e = e' :=
  List.inj_on_of_nodup_map h.nodup he he' haddress

theorem Counted.read_eq_some_iff (h : Counted p count) :
    p.read a = some x ↔ ∃ e ∈ p.list, e.address = a ∧ e.value = x := by
  rw [read, Option.map_eq_some_iff]
  constructor
  · rintro ⟨e, hfind, rfl⟩
    exact ⟨e, List.mem_of_find?_eq_some hfind, by simpa using List.find?_some hfind, rfl⟩
  · rintro ⟨e, he, rfl, rfl⟩
    cases hfind : p.list.find? fun e' => e'.address = e.address with
    | none => exact absurd (List.find?_eq_none.mp hfind e he) (by simp)
    | some e' =>
      have haddress : e'.address = e.address := by simpa using List.find?_some hfind
      exact ⟨e', rfl, by rw [h.eq_of_address (List.mem_of_find?_eq_some hfind) he haddress]⟩

/-- What nobody holds is gone. -/
theorem Counted.list_eq_nil (h : Counted p fun _ => 0) : p.list = [] := by
  rw [List.eq_nil_iff_forall_not_mem]
  intro e he
  have hpos := h.refc_pos e he
  rw [h.refc_eq e he] at hpos
  exact Nat.lt_irrefl 0 hpos

theorem mem_middle {β : Type*} {pre post : List β} {x y : β} :
    y ∈ pre ++ x :: post ↔ y = x ∨ y ∈ pre ++ post :=
  List.perm_middle.mem_iff.trans List.mem_cons

/-- The other objects are elsewhere. -/
theorem Counted.others (h : Counted ⟨pre ++ e :: post, a⟩ count) :
    ((pre ++ post).map fun e => e.address).Nodup ∧
      ∀ e' ∈ pre ++ post, e'.address ≠ e.address := by
  have hnodup := h.nodup
  rw [List.map_append, List.map_cons, List.nodup_middle, List.nodup_cons, ← List.map_append]
    at hnodup
  exact ⟨hnodup.2, fun e' he' heq => hnodup.1 (List.mem_map.mpr ⟨e', he', heq⟩)⟩

theorem Counted.live_others (h : Counted ⟨pre ++ e :: post, a⟩ count) (hb : 0 < count b)
    (hbe : b ≠ e.address) : ∃ e' ∈ pre ++ post, e'.address = b := by
  obtain ⟨e', he', rfl⟩ := h.live b hb
  rcases mem_middle.mp he' with rfl | he'
  · exact absurd rfl hbe
  · exact ⟨e', he', rfl⟩

/-- The number of holders of one object changes. -/
theorem Counted.recount {n : Nat} (h : Counted ⟨pre ++ e :: post, a⟩ count) (hn : 0 < n) :
    Counted ⟨pre ++ { e with refc := n } :: post, a⟩ (Function.update count e.address n) := by
  obtain ⟨-, hother⟩ := h.others
  refine ⟨?_, ?_, ?_, ?_, ?_⟩
  · have hnodup := h.nodup
    rw [List.map_append, List.map_cons] at hnodup ⊢
    exact hnodup
  · intro e' he'
    rcases mem_middle.mp he' with rfl | he'
    · exact h.lt e (mem_middle.mpr (.inl rfl))
    · exact h.lt e' (mem_middle.mpr (.inr he'))
  · intro e' he'
    rcases mem_middle.mp he' with rfl | he'
    · rw [Function.update_self]
    · rw [Function.update_of_ne (hother e' he')]
      exact h.refc_eq e' (mem_middle.mpr (.inr he'))
  · intro e' he'
    rcases mem_middle.mp he' with rfl | he'
    · exact hn
    · exact h.refc_pos e' (mem_middle.mpr (.inr he'))
  · intro b hb
    by_cases hbe : b = e.address
    · exact ⟨_, mem_middle.mpr (.inl rfl), hbe.symm⟩
    · rw [Function.update_of_ne hbe] at hb
      obtain ⟨e', he', haddress⟩ := h.live_others hb hbe
      exact ⟨e', mem_middle.mpr (.inr he'), haddress⟩

/-- The object goes. -/
theorem Counted.erase (h : Counted ⟨pre ++ e :: post, a⟩ count) :
    Counted ⟨pre ++ post, a⟩ (Function.update count e.address 0) := by
  obtain ⟨hnodup, hother⟩ := h.others
  refine ⟨hnodup, fun e' he' => h.lt e' (mem_middle.mpr (.inr he')), ?_,
    fun e' he' => h.refc_pos e' (mem_middle.mpr (.inr he')), ?_⟩
  · intro e' he'
    rw [Function.update_of_ne (hother e' he')]
    exact h.refc_eq e' (mem_middle.mpr (.inr he'))
  · intro b hb
    by_cases hbe : b = e.address
    · rw [hbe, Function.update_self] at hb
      exact absurd hb (Nat.lt_irrefl 0)
    · rw [Function.update_of_ne hbe] at hb
      exact h.live_others hb hbe

/-- A change of the holders changes no value. -/
theorem Counted.read_recount {n : Nat} {x : α} {count' : Nat → Nat}
    (h : Counted ⟨pre ++ e :: post, a⟩ count)
    (h' : Counted ⟨pre ++ { e with refc := n } :: post, a⟩ count')
    (hb : (⟨pre ++ e :: post, a⟩ : Pool α).read b = some x) :
    (⟨pre ++ { e with refc := n } :: post, a⟩ : Pool α).read b = some x := by
  obtain ⟨e', he', rfl, rfl⟩ := h.read_eq_some_iff.mp hb
  rw [h'.read_eq_some_iff]
  rcases mem_middle.mp he' with rfl | he'
  · exact ⟨_, mem_middle.mpr (.inl rfl), rfl, rfl⟩
  · exact ⟨e', mem_middle.mpr (.inr he'), rfl, rfl⟩

theorem share_cases (suits : α → Bool) (list : List (Pooled α)) :
    (∃ pre e post, list = pre ++ e :: post ∧ suits e.value = true ∧
      share suits list = some (e.address, pre ++ { e with refc := e.refc + 1 } :: post)) ∨
    (∀ e ∈ list, suits e.value = false) ∧ share suits list = none := by
  induction list with
  | nil => exact .inr ⟨nofun, rfl⟩
  | cons e rest ih =>
    by_cases he : suits e.value = true
    · exact .inl ⟨[], e, rest, rfl, he, by rw [share, if_pos he, List.nil_append]⟩
    · rw [share, if_neg he]
      rcases ih with ⟨pre, e', post, rfl, hsuits, hshare⟩ | ⟨hnone, hshare⟩
      · exact .inl ⟨e :: pre, e', post, rfl, hsuits, by rw [hshare]; rfl⟩
      · refine .inr ⟨List.forall_mem_cons.mpr ⟨by simpa using he, hnone⟩, by rw [hshare]; rfl⟩

theorem drop_eq {list : List (Pooled α)} (ha : ∃ e ∈ list, e.address = a) :
    ∃ pre e post, list = pre ++ e :: post ∧ e.address = a ∧
      drop a list = some (pre ++ if e.refc - 1 = 0 then post
        else { e with refc := e.refc - 1 } :: post) := by
  induction list with
  | nil =>
    obtain ⟨e, he, -⟩ := ha
    cases he
  | cons e rest ih =>
    by_cases he : e.address = a
    · exact ⟨[], e, rest, rfl, he, by rw [drop, if_pos he, List.nil_append]⟩
    · obtain ⟨e', he', haddress⟩ := ha
      rcases List.mem_cons.mp he' with rfl | hrest
      · exact absurd haddress he
      · obtain ⟨pre, e'', post, rfl, hadd, hdrop⟩ := ih ⟨e', hrest, haddress⟩
        exact ⟨e :: pre, e'', post, rfl, hadd, by rw [drop, if_neg he, hdrop]; rfl⟩

/-- A new object is put in front of the others. -/
theorem Counted.cons (h : Counted p count) (value : α) :
    Counted ⟨⟨p.fresh, value, 1⟩ :: p.list, p.fresh + 1⟩
      (Function.update count p.fresh (count p.fresh + 1)) := by
  have hother : ∀ e ∈ p.list, e.address ≠ p.fresh := fun e he => Nat.ne_of_lt (h.lt e he)
  have hzero : count p.fresh = 0 := by
    by_contra hpos
    obtain ⟨e, he, haddress⟩ := h.live p.fresh (Nat.pos_of_ne_zero hpos)
    exact hother e he haddress
  rw [hzero]
  refine ⟨List.nodup_cons.mpr ⟨?_, h.nodup⟩, ?_, ?_, ?_, ?_⟩
  · intro hmem
    obtain ⟨e, he, haddress⟩ := List.mem_map.mp hmem
    exact hother e he haddress
  · exact List.forall_mem_cons.mpr ⟨Nat.lt_succ_self _, fun e he => Nat.lt_succ_of_lt (h.lt e he)⟩
  · refine List.forall_mem_cons.mpr ⟨by rw [Function.update_self], fun e he => ?_⟩
    rw [Function.update_of_ne (hother e he)]
    exact h.refc_eq e he
  · exact List.forall_mem_cons.mpr ⟨Nat.one_pos, h.refc_pos⟩
  · intro b hb
    by_cases hfresh : b = p.fresh
    · exact ⟨_, List.mem_cons_self, hfresh.symm⟩
    · rw [Function.update_of_ne hfresh] at hb
      obtain ⟨e, he, haddress⟩ := h.live b hb
      exact ⟨e, List.mem_cons_of_mem _ he, haddress⟩

/-- What is got has one holder more, and suits or is new. All other objects stay. -/
theorem Counted.acquire (h : Counted p count) (suits : α → Bool) (value : α) :
    ∃ a p' x, p.acquire suits value = (a, p') ∧
      Counted p' (held count (some a)) ∧ p'.read a = some x ∧
      (suits x = true ∨ x = value ∧ ∀ e ∈ p.list, suits e.value = false) ∧
      ∀ b y, p.read b = some y → p'.read b = some y := by
  rcases share_cases suits p.list with ⟨pre, e, post, hlist, hsuits, hshare⟩ | ⟨hnone, hshare⟩
  · obtain ⟨list, fresh⟩ := p
    obtain rfl : list = pre ++ e :: post := hlist
    have hcounted := h.recount (Nat.succ_pos e.refc)
    have hrefc := h.refc_eq e (mem_middle.mpr (.inl rfl))
    refine ⟨e.address, ⟨pre ++ { e with refc := e.refc + 1 } :: post, fresh⟩, e.value, ?_, ?_, ?_,
      .inl hsuits, fun b y hb => h.read_recount hcounted hb⟩
    · simp only [Pool.acquire, hshare]
    · rw [held_some, ← hrefc]
      exact hcounted
    · exact hcounted.read_eq_some_iff.mpr ⟨_, mem_middle.mpr (.inl rfl), rfl, rfl⟩
  · have hcounted := h.cons value
    rw [← held_some] at hcounted
    refine ⟨p.fresh, _, value, ?_, hcounted, ?_, .inr ⟨rfl, hnone⟩, ?_⟩
    · simp only [Pool.acquire, hshare]
    · exact hcounted.read_eq_some_iff.mpr ⟨_, List.mem_cons_self, rfl, rfl⟩
    · intro b y hb
      obtain ⟨e, he, rfl, rfl⟩ := h.read_eq_some_iff.mp hb
      exact hcounted.read_eq_some_iff.mpr ⟨e, List.mem_cons_of_mem _ he, rfl, rfl⟩

/-- Who holds an object can drop it, and what is still held stays. -/
theorem Counted.release (h : Counted p (held count (some a))) :
    ∃ p', p.release a = some p' ∧ Counted p' count ∧
      ∀ b y, 0 < count b → p.read b = some y → p'.read b = some y := by
  have hpos : 0 < held count (some a) a := by
    rw [held, if_pos rfl]
    exact Nat.succ_pos _
  obtain ⟨pre, e, post, hlist, rfl, hdrop⟩ := drop_eq (h.live a hpos)
  obtain ⟨list, fresh⟩ := p
  obtain rfl : list = pre ++ e :: post := hlist
  have hrefc := h.refc_eq e (mem_middle.mpr (.inl rfl))
  rw [held, if_pos rfl] at hrefc
  have hcount : Function.update (held count (some e.address)) e.address (count e.address) =
      count := by
    rw [held_some, Function.update_idem, Function.update_eq_self]
  rw [hrefc, Nat.add_sub_cancel] at hdrop
  rw [Pool.release, hdrop]
  by_cases hlast : count e.address = 0
  · have herase := h.erase
    rw [← hlast, hcount] at herase
    rw [if_pos hlast]
    refine ⟨_, rfl, herase, ?_⟩
    intro b y hb hread
    obtain ⟨e', he', rfl, rfl⟩ := h.read_eq_some_iff.mp hread
    rcases mem_middle.mp he' with rfl | he'
    · rw [hlast] at hb
      exact absurd hb (Nat.lt_irrefl 0)
    · exact herase.read_eq_some_iff.mpr ⟨e', he', rfl, rfl⟩
  · have hcounted := h.recount (Nat.pos_of_ne_zero hlast)
    rw [hcount] at hcounted
    rw [if_neg hlast]
    exact ⟨_, rfl, hcounted, fun b y _ hb => h.read_recount hcounted hb⟩

/-- An object is made only where none suits. -/
theorem acquire_values (suits : α → Bool) (value : α) (p : Pool α) :
    ((p.acquire suits value).2.list.map fun e => e.value) = p.list.map (fun e => e.value) ∨
      ((p.acquire suits value).2.list.map fun e => e.value) =
        value :: p.list.map (fun e => e.value) ∧ ∀ e ∈ p.list, suits e.value = false := by
  rcases share_cases suits p.list with ⟨pre, e, post, hlist, -, hshare⟩ | ⟨hnone, hshare⟩
  · refine .inl ?_
    rw [Pool.acquire, hshare, hlist]
    simp only [List.map_append, List.map_cons]
  · refine .inr ⟨?_, hnone⟩
    rw [Pool.acquire, hshare]
    rfl

theorem drop_values {list list' : List (Pooled α)} (h : drop a list = some list') :
    (list'.map fun e => e.value).Sublist (list.map fun e => e.value) := by
  induction list generalizing list' with
  | nil => cases h
  | cons e rest ih =>
    rw [drop] at h
    split_ifs at h with haddress hlast
    · obtain rfl := Option.some.inj h
      exact List.sublist_cons_self _ _
    · obtain rfl := Option.some.inj h
      exact List.Sublist.refl _
    · obtain ⟨rest', hrest, rfl⟩ := Option.map_eq_some_iff.mp h
      exact (ih hrest).cons_cons e.value

theorem release_values (h : p.release a = some p') :
    (p'.list.map fun e => e.value).Sublist (p.list.map fun e => e.value) := by
  obtain ⟨list, hdrop, rfl⟩ := Option.map_eq_some_iff.mp h
  exact drop_values hdrop

end Pool

end Vban.Library
