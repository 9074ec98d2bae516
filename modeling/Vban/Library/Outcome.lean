import Mathlib.Data.List.Forall2

/-! Computations that may fail, and the failures they avoid. -/
namespace Vban.Library

universe u v

variable {ε : Type u} {α β σ : Type v} {ι : Type*} {bad : ε → Prop}

theorem ok_bind {a : α} {f : α → Except ε β} : .ok a >>= f = f a := rfl

theorem some_bind {a : α} {f : α → Option β} : some a >>= f = f a := rfl

theorem bind_eq_ok {x : Except ε α} {f : α → Except ε β} {b : β} :
    x >>= f = .ok b ↔ ∃ a, x = .ok a ∧ f a = .ok b := by
  cases x with
  | error e =>
    change Except.error e = .ok b ↔ _
    simp
  | ok a =>
    change f a = .ok b ↔ _
    simp

/-- The computation does not fail in a bad way. -/
def Avoids (bad : ε → Prop) (x : Except ε α) : Prop := ∀ e, x = .error e → ¬bad e

/-- Whenever the computation fails, it fails in a bad way. -/
def OnlyFails (bad : ε → Prop) (x : Except ε α) : Prop := ∀ e, x = .error e → bad e

@[simp] theorem avoids_ok {a : α} : Avoids bad (.ok a) := fun _ h => nomatch h

@[simp] theorem avoids_pure {a : α} : Avoids bad (pure a : Except ε α) := avoids_ok

@[simp] theorem avoids_error {e : ε} : Avoids bad (.error e : Except ε α) ↔ ¬bad e :=
  ⟨fun h => h e rfl, fun h _ he => Except.error.inj he ▸ h⟩

theorem avoids_bind {x : Except ε α} {f : α → Except ε β} :
    Avoids bad (x >>= f) ↔ Avoids bad x ∧ ∀ a, x = .ok a → Avoids bad (f a) := by
  cases x with
  | error e =>
    change Avoids bad (.error e) ↔ _
    simp
  | ok a =>
    change Avoids bad (f a) ↔ _
    simp

theorem onlyFails_ok {a : α} : OnlyFails bad (.ok a) := fun _ h => nomatch h

theorem onlyFails_error {e : ε} (h : bad e) : OnlyFails bad (.error e : Except ε α) :=
  fun _ he => Except.error.inj he ▸ h

theorem OnlyFails.bind {x : Except ε α} {f : α → Except ε β} (hx : OnlyFails bad x)
    (hf : ∀ a, OnlyFails bad (f a)) : OnlyFails bad (x >>= f) := by
  cases x with
  | error e => exact onlyFails_error (hx e rfl)
  | ok a => exact hf a

theorem OnlyFails.avoids_iff {x : Except ε α} (h : OnlyFails bad x) :
    Avoids bad x ↔ ∃ a, x = .ok a := by
  cases x with
  | error e => simp [h e rfl]
  | ok a => simp

/-- A loop whose turns fail only in bad ways avoids them when each turn does. -/
theorem avoids_foldlM {g : ι → Except ε α} {h : σ → ι → α → σ} {l : List ι}
    (hg : ∀ i, OnlyFails bad (g i)) (s : σ) :
    Avoids bad (l.foldlM (fun s i => do let a ← g i; return h s i a) s) ↔
      ∀ i ∈ l, Avoids bad (g i) := by
  induction l generalizing s with
  | nil => simp
  | cons i l ih =>
    rw [List.foldlM_cons, avoids_bind, avoids_bind, List.forall_mem_cons]
    constructor
    · rintro ⟨⟨hi, -⟩, hl⟩
      obtain ⟨a, ha⟩ := (hg i).avoids_iff.mp hi
      exact ⟨hi, (ih _).mp (hl (h s i a) (by rw [ha]; rfl))⟩
    · rintro ⟨hi, hl⟩
      exact ⟨⟨hi, fun _ _ => avoids_pure⟩, fun t _ => (ih t).mpr hl⟩

theorem onlyFails_foldlM {f : σ → ι → Except ε σ} (hf : ∀ s i, OnlyFails bad (f s i))
    (l : List ι) (s : σ) : OnlyFails bad (l.foldlM f s) := by
  induction l generalizing s with
  | nil => exact onlyFails_ok
  | cons i l ih =>
    rw [List.foldlM_cons]
    exact (hf s i).bind ih

/-- A loop avoids what each of its turns avoids in the state that the turn finds. -/
theorem avoids_bind_foldlM {f : σ → ι → Except ε σ} {l : List ι} {x : Except ε σ} :
    Avoids bad (x >>= l.foldlM f) ↔ Avoids bad x ∧ ∀ earlier i later s, l = earlier ++ i :: later →
      x >>= earlier.foldlM f = .ok s → Avoids bad (f s i) := by
  induction l generalizing x with
  | nil => simp
  | cons j l ih =>
    have hturn (earlier : List ι) :
        x >>= (j :: earlier).foldlM f = (x >>= fun s => f s j) >>= earlier.foldlM f := by
      simp only [List.foldlM_cons, bind_assoc]
    rw [hturn, ih, avoids_bind, and_assoc]
    apply and_congr_right'
    constructor
    · rintro ⟨hj, hl⟩ earlier i later s hsplit hs
      rcases List.cons_eq_append_iff.mp hsplit with ⟨rfl, hhead⟩ | ⟨earlier, rfl, hrest⟩
      · obtain ⟨rfl, -⟩ := List.cons_eq_cons.mp hhead
        rw [show ([] : List ι).foldlM f = pure from rfl, bind_pure] at hs
        exact hj s hs
      · rw [hturn] at hs
        exact hl earlier i later s hrest hs
    · intro h
      constructor
      · intro s hs
        exact h [] j l s rfl (by rw [hs]; rfl)
      · rintro earlier i later s rfl hs
        exact h (j :: earlier) i later s rfl (by rw [hturn]; exact hs)

/-- What each turn of a loop keeps, the loop keeps. -/
theorem foldlM_invariant {f : σ → ι → Option σ} {I : σ → Prop} {l : List ι} {s t : σ}
    (h : l.foldlM f s = some t) (hf : ∀ s i t, I s → f s i = some t → I t) (hs : I s) : I t := by
  induction l generalizing s with
  | nil => exact Option.some.inj h ▸ hs
  | cons i l ih =>
    rw [List.foldlM_cons] at h
    obtain ⟨a, ha, hrest⟩ := Option.bind_eq_some_iff.mp h
    exact ih hrest (hf s i a hs ha)

theorem foldlM_ok_invariant {f : σ → ι → Except ε σ} {I : σ → Prop} {l : List ι} {s t : σ}
    (h : l.foldlM f s = .ok t) (hf : ∀ s, ∀ i ∈ l, ∀ t, I s → f s i = .ok t → I t) (hs : I s) :
    I t := by
  induction l generalizing s with
  | nil => exact Except.ok.inj h ▸ hs
  | cons i l ih =>
    rw [List.foldlM_cons] at h
    obtain ⟨a, ha, hrest⟩ := bind_eq_ok.mp h
    exact ih hrest (fun s j hj => hf s j (List.mem_cons_of_mem i hj))
      (hf s i List.mem_cons_self a hs ha)

/-- A loop over a list succeeds when each of its turns does. -/
theorem mapM_eq_some_iff {α β : Type*} {f : α → Option β} {xs : List α} {ys : List β} :
    xs.mapM f = some ys ↔ List.Forall₂ (fun x y => f x = some y) xs ys := by
  induction xs generalizing ys with
  | nil =>
    rw [List.mapM_nil, List.forall₂_nil_left_iff, Option.pure_def, Option.some_inj, eq_comm]
  | cons x xs ih =>
    rw [List.mapM_cons, List.forall₂_cons_left_iff]
    constructor
    · intro h
      obtain ⟨y, hy, h⟩ := Option.bind_eq_some_iff.mp h
      obtain ⟨zs, hzs, h⟩ := Option.bind_eq_some_iff.mp h
      exact ⟨y, zs, hy, ih.mp hzs, (Option.some.inj h).symm⟩
    · rintro ⟨y, zs, hy, hzs, rfl⟩
      rw [hy, ih.mpr hzs]
      rfl

theorem mapM_eq_map {α β : Type*} {f : α → Option β} {g : α → β} {xs : List α}
    (h : ∀ x ∈ xs, f x = some (g x)) : xs.mapM f = some (xs.map g) := by
  rw [mapM_eq_some_iff, List.forall₂_map_right_iff, List.forall₂_same]
  exact h

/-- A loop whose turns all succeed is a plain one. -/
theorem foldlM_eq_foldl {f : σ → ι → Option σ} {g : σ → ι → σ} {l : List ι} {s : σ}
    (h : ∀ s, ∀ i ∈ l, f s i = some (g s i)) : l.foldlM f s = some (l.foldl g s) := by
  induction l generalizing s with
  | nil => rfl
  | cons i l ih =>
    rw [List.foldlM_cons, h s i List.mem_cons_self, some_bind, List.foldl_cons]
    exact ih fun s j hj => h s j (List.mem_cons_of_mem i hj)

end Vban.Library
