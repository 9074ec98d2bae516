import Mathlib.Data.List.Forall2
import Mathlib.Data.Nat.Find
import Mathlib.Logic.Function.Iterate

/-! Finite labelled runs of a step relation, their invariants and simulations; the states of a run
with inputs, alone and beside those of another; and loops as iterations of their steps. -/
namespace Vban.Library

section Labels

variable {S T L : Type*} {step : S → L → S → Prop} {spec : T → L → T → Prop}

/-- `Run step s ls t`: the steps labelled `ls`, in this order, lead from `s` to `t`. -/
inductive Run (step : S → L → S → Prop) : S → List L → S → Prop
  | refl (s : S) : Run step s [] s
  | snoc {s t u : S} {ls : List L} {l : L} :
      Run step s ls t → step t l u → Run step s (ls ++ [l]) u

namespace Run

theorem single {s t : S} {l : L} (h : step s l t) : Run step s [l] t :=
  snoc (refl s) h

theorem append {s t u : S} {ls ms : List L} (h : Run step s ls t) (k : Run step t ms u) :
    Run step s (ls ++ ms) u := by
  induction k with
  | refl => simpa using h
  | snoc _ hu ih =>
    rw [← List.append_assoc]
    exact snoc ih hu

/-- A run of two lists of labels is two runs. -/
theorem of_append {s u : S} {ls ms : List L} (h : Run step s (ls ++ ms) u) :
    ∃ t, Run step s ls t ∧ Run step t ms u := by
  generalize hall : ls ++ ms = all at h
  induction h generalizing ms with
  | refl =>
    obtain ⟨rfl, rfl⟩ := List.append_eq_nil_iff.mp hall
    exact ⟨s, refl s, refl s⟩
  | @snoc t u all l h ht ih =>
    rcases List.eq_nil_or_concat ms with rfl | ⟨ms, m, rfl⟩
    · obtain rfl : ls = all ++ [l] := by simpa using hall
      exact ⟨u, snoc h ht, refl u⟩
    · rw [List.concat_eq_append, ← List.append_assoc] at hall
      obtain ⟨hls, hm⟩ := List.append_inj' hall rfl
      obtain rfl : m = l := by simpa using hm
      obtain ⟨v, hv, hvt⟩ := ih hls
      rw [List.concat_eq_append]
      exact ⟨v, hv, snoc hvt ht⟩

theorem eq_of_nil {s t : S} (h : Run step s [] t) : t = s := by
  generalize hnil : ([] : List L) = ls at h
  cases h with
  | refl => rfl
  | snoc => simp at hnil

theorem step_of_single {s t : S} {l : L} (h : Run step s [l] t) : step s l t := by
  generalize hls : [l] = ls at h
  cases h with
  | refl => cases hls
  | @snoc t u ls m h ht =>
    rw [← List.nil_append [l]] at hls
    obtain ⟨rfl, hm⟩ := List.append_inj' hls rfl
    obtain rfl : l = m := by simpa using hm
    exact h.eq_of_nil ▸ ht

/-- A run of at least one step starts with a step. -/
theorem step_of_cons {s u : S} {l : L} {ls : List L} (h : Run step s (l :: ls) u) :
    ∃ t, step s l t ∧ Run step t ls u := by
  obtain ⟨t, ht, hrest⟩ := of_append (show Run step s ([l] ++ ls) u from h)
  exact ⟨t, ht.step_of_single, hrest⟩

theorem cons {s t u : S} {l : L} {ls : List L} (h : step s l t) (k : Run step t ls u) :
    Run step s (l :: ls) u :=
  (single h).append k

/-- Where related states make the same steps, a run that ends without a next step has all the
labels of any other. -/
theorem labels_of_deterministic {R : S → S → Prop} {s s' t t' : S} {ls ms : List L}
    (hdet : ∀ s s' l m u v, R s s' → step s l u → step s' m v → l = m ∧ R u v) (hs : R s s')
    (hls : Run step s ls t) (hend : ∀ v, R t v → ∀ m w, ¬step v m w)
    (hms : Run step s' ms t') : ms <+: ls := by
  induction ms generalizing s s' ls with
  | nil => exact List.nil_prefix
  | cons m ms ih =>
    obtain ⟨v, hv, hrest'⟩ := hms.step_of_cons
    cases ls with
    | nil =>
      rw [hls.eq_of_nil] at hend
      exact absurd hv (hend s' hs m v)
    | cons l ls =>
      obtain ⟨u, hu, hrest⟩ := hls.step_of_cons
      obtain ⟨rfl, hR⟩ := hdet _ _ _ _ _ _ hs hu hv
      exact List.cons_prefix_cons.mpr ⟨rfl, ih hR hrest hrest'⟩

/-- What holds at the start and is kept by each step holds at the end of every run. -/
theorem invariant {I : S → Prop} {s t : S} {ls : List L} (h : Run step s ls t)
    (hstep : ∀ s l t, I s → step s l t → I t) (hs : I s) : I t := by
  induction h with
  | refl => exact hs
  | snoc _ ht ih => exact hstep _ _ _ ih ht

/-- A condition that all the labels meet can be put into the step. -/
theorem restrict {P : L → Prop} {s t : S} {ls : List L} (h : Run step s ls t)
    (hP : ∀ l ∈ ls, P l) : Run (fun s l t => step s l t ∧ P l) s ls t := by
  induction h with
  | refl => exact refl _
  | snoc _ ht ih =>
    apply snoc (ih fun l hl => hP l (List.mem_append_left _ hl))
    exact ⟨ht, hP _ List.mem_concat_self⟩

/-- What every step says of its label holds of all the labels. -/
theorem forall_labels {P : L → Prop} {s t : S} {ls : List L} (h : Run step s ls t)
    (hP : ∀ s l t, step s l t → P l) : ∀ l ∈ ls, P l := by
  induction h with
  | refl => simp
  | snoc _ ht ih =>
    intro l hl
    rcases List.mem_append.mp hl with hl | hl
    · exact ih l hl
    · rw [List.mem_singleton.mp hl]
      exact hP _ _ _ ht

theorem imp {step' : S → L → S → Prop} {s t : S} {ls : List L} (h : Run step s ls t)
    (hstep : ∀ s l t, step s l t → step' s l t) : Run step' s ls t := by
  induction h with
  | refl => exact refl _
  | snoc _ ht ih => exact snoc ih (hstep _ _ _ ht)

theorem map {M : Type*} {step : S → M → S → Prop} (f : L → M) {s t : S} {ls : List L}
    (h : Run (fun s l t => step s (f l) t) s ls t) : Run step s (ls.map f) t := by
  induction h with
  | refl => exact refl _
  | snoc _ ht ih =>
    rw [List.map_append, List.map_singleton]
    exact snoc ih ht

/-- A forward simulation lifts from steps to runs with the same labels. -/
theorem simulation {R : S → T → Prop} {s t : S} {ls : List L} (h : Run step s ls t)
    (hstep : ∀ s l t a, R s a → step s l t → ∃ b, spec a l b ∧ R t b) {a : T} (ha : R s a) :
    ∃ b, Run spec a ls b ∧ R t b := by
  induction h with
  | refl => exact ⟨a, refl a, ha⟩
  | snoc _ ht ih =>
    obtain ⟨b, hb, hr⟩ := ih
    obtain ⟨c, hc, hr'⟩ := hstep _ _ _ _ hr ht
    exact ⟨c, snoc hb hc, hr'⟩

end Run

end Labels

section Inputs

variable {S T I J : Type*} {step : S → I → S} {step' : T → J → T} {R : S → T → Prop}
  {Q : I → J → Prop} {P : S → Prop} {s : S} {t : T} {xs : List I} {ys : List J}

/-- A relation that related inputs keep holds after every step of two runs. -/
theorem forall₂_scanl (hstep : ∀ s t x y, R s t → Q x y → R (step s x) (step' t y))
    (hs : R s t) (hxy : List.Forall₂ Q xs ys) :
    List.Forall₂ R (xs.scanl step s) (ys.scanl step' t) := by
  induction hxy generalizing s t with
  | nil => exact List.Forall₂.cons hs List.Forall₂.nil
  | cons hx _ ih =>
    rw [List.scanl_cons, List.scanl_cons]
    exact List.Forall₂.cons hs (ih (hstep _ _ _ _ hs hx))

theorem forall_mem_scanl (hstep : ∀ s x, P s → P (step s x)) (hs : P s) :
    ∀ t ∈ xs.scanl step s, P t := by
  induction xs generalizing s with
  | nil => simpa using hs
  | cons x xs ih =>
    rw [List.scanl_cons]
    exact List.forall_mem_cons.mpr ⟨hs, ih (hstep s x hs)⟩

/-- What every step establishes holds from the first step on. -/
theorem forall_mem_tail_scanl (hstep : ∀ s x, P (step s x)) :
    ∀ t ∈ (xs.scanl step s).tail, P t := by
  cases xs with
  | nil => simp
  | cons x xs =>
    rw [List.scanl_cons, List.tail_cons]
    exact forall_mem_scanl (fun s x _ => hstep s x) (hstep s x)

end Inputs

section Loops

variable {σ : Type*} {stop : σ → Prop} {next f : σ → σ} {s : σ} {k : Nat}

/-- The loop is at its first stop after `k` steps. -/
def StopsAt (stop : σ → Prop) (next : σ → σ) (s : σ) (k : Nat) : Prop :=
  stop (next^[k] s) ∧ ∀ j, j < k → ¬stop (next^[j] s)

theorem exists_stopsAt (h : ∃ k, stop (next^[k] s)) : ∃ k, StopsAt stop next s k := by
  classical
  exact ⟨Nat.find h, Nat.find_spec h, fun _ hj => Nat.find_min h hj⟩

theorem StopsAt.le (h : StopsAt stop next s k) {j : Nat} (hj : stop (next^[j] s)) : k ≤ j :=
  not_lt.mp fun hlt => h.2 j hlt hj

/-- Running the loop is iterating its step up to the first stop. -/
theorem StopsAt.loop_eq (h : StopsAt stop next s k) (hstop : ∀ s, stop s → f s = s)
    (hnext : ∀ s, ¬stop s → f s = f (next s)) : f s = next^[k] s := by
  induction k generalizing s with
  | zero => exact hstop s h.1
  | succ k ih =>
    rw [hnext s (h.2 0 (Nat.succ_pos k)), Function.iterate_succ_apply]
    exact ih ⟨h.1, fun j hj => h.2 (j + 1) (Nat.succ_lt_succ hj)⟩

/-- What every turn of a counting loop keeps holds at its end. -/
theorem foldl_range'_invariant {g : σ → Nat → σ} {I : Nat → σ → Prop} (start n : Nat)
    (h0 : I start s) (hturn : ∀ i t, start ≤ i → i < start + n → I i t → I (i + 1) (g t i)) :
    I (start + n) ((List.range' start n).foldl g s) := by
  induction n generalizing start s with
  | zero => exact h0
  | succ n ih =>
    rw [List.range'_succ, List.foldl_cons, Nat.add_comm n 1, ← Nat.add_assoc]
    refine ih (start + 1) (hturn start s (Nat.le_refl start) (by omega) h0) ?_
    intro i t hi hin
    exact hturn i t (by omega) (by omega)

end Loops

end Vban.Library
