import Mathlib.Data.List.Basic

/-!
# Labelled machines and their runs

A machine is a partial step function `step : σ → α → Option σ`.  The label
resolves every choice of the environment (who moves, what an oracle answers, what
a network call returns), so a label that is not enabled in a state steps to `none`.

`ExecWhile step C s tr t` says that the labels `tr` lead from `s` to `t` and that
every one of those steps met the condition `C` in the state before it.  `Exec` is
the unconditional case.  Statements about "every run" are statements about `Exec`;
statements about "every run whose steps all meet `C`" are about `ExecWhile`.

## Main definitions

* `run` — execute a list of labels.
* `ExecWhile`, `Exec` — the runs, as relations.
* `ExecWhile.invariant` — induction along a run.
* `Exec.iff_execWhile` — a property that each step keeps exactly under `C` holds of a run
  exactly when all its steps met `C`.
* `exec_of_run`, `execWhile_of_run` — a computed run is a run.
-/

namespace Machine

universe u v
variable {σ : Type u} {α : Type v} {step : σ → α → Option σ} {C D : σ → α → Prop}

/-- Execute the labels in order; `none` as soon as one is not enabled. -/
def run (step : σ → α → Option σ) (s : σ) : List α → Option σ
  | [] => some s
  | a :: tr => (step s a).bind (run step · tr)

/-- The steps of `step` that meet `C`. -/
def guarded (step : σ → α → Option σ) (C : σ → α → Prop) [∀ s a, Decidable (C s a)]
    (s : σ) (a : α) : Option σ :=
  if C s a then step s a else none

/-- The labels `tr` lead from `s` to the last index, each step taken in a state
that meets `C` for its label. -/
inductive ExecWhile (step : σ → α → Option σ) (C : σ → α → Prop) (s : σ) : List α → σ → Prop
  | nil : ExecWhile step C s [] s
  | snoc {tr : List α} {t : σ} {a : α} {u : σ} :
      ExecWhile step C s tr t → C t a → step t a = some u → ExecWhile step C s (tr ++ [a]) u

/-- An unconditional run. -/
def Exec (step : σ → α → Option σ) (s : σ) (tr : List α) (t : σ) : Prop :=
  ExecWhile step (fun _ _ => True) s tr t

theorem Exec.nil {s : σ} : Exec step s [] s := ExecWhile.nil

theorem Exec.snoc {s t u : σ} {tr : List α} {a : α} (h : Exec step s tr t)
    (hs : step t a = some u) : Exec step s (tr ++ [a]) u :=
  ExecWhile.snoc h trivial hs

/-- **Induction along a run.**  A predicate that holds at the start and is kept by
every step that meets the condition holds at the end. -/
theorem ExecWhile.invariant {s t : σ} {tr : List α} (h : ExecWhile step C s tr t)
    (P : σ → Prop) (h0 : P s)
    (hstep : ∀ t a u, P t → C t a → step t a = some u → P u) : P t := by
  induction h with
  | nil => exact h0
  | snoc _ hc hs ih => exact hstep _ _ _ ih hc hs

/-- Induction along an unconditional run. -/
theorem Exec.invariant {s t : σ} {tr : List α} (h : Exec step s tr t)
    (P : σ → Prop) (h0 : P s) (hstep : ∀ t a u, P t → step t a = some u → P u) : P t :=
  ExecWhile.invariant h P h0 fun t a u ht _ hs => hstep t a u ht hs

/-- A weaker condition admits more runs. -/
theorem ExecWhile.mono {s t : σ} {tr : List α} (h : ExecWhile step C s tr t)
    (hCD : ∀ t a, C t a → D t a) : ExecWhile step D s tr t := by
  induction h with
  | nil => exact .nil
  | snoc _ hc hs ih => exact .snoc ih (hCD _ _ hc) hs

/-- What holds of all labels of a run holds at each of its steps. -/
theorem ExecWhile.and_mem {s t : σ} {tr : List α} {D : α → Prop} (h : ExecWhile step C s tr t)
    (hD : ∀ a ∈ tr, D a) : ExecWhile step (fun s a => C s a ∧ D a) s tr t := by
  induction h with
  | nil => exact .nil
  | snoc _ hc hs ih =>
      exact .snoc (ih fun a ha => hD a (List.mem_append_left _ ha))
        ⟨hc, hD _ (List.mem_append_right _ List.mem_cons_self)⟩ hs

theorem ExecWhile.exec {s t : σ} {tr : List α} (h : ExecWhile step C s tr t) :
    Exec step s tr t := h.mono fun _ _ _ => trivial

/-- A first step put in front of a run. -/
theorem ExecWhile.cons {s t u : σ} {a : α} {tr : List α} (hc : C s a)
    (hs : step s a = some t) (h : ExecWhile step C t tr u) : ExecWhile step C s (a :: tr) u := by
  induction h with
  | nil =>
      have h0 : ExecWhile step C s [] s := .nil
      exact h0.snoc hc hs
  | @snoc tr v b w _ hcb hsb ih =>
      have := ExecWhile.snoc ih hcb hsb
      simpa using this

/-- Two runs, one after the other. -/
theorem ExecWhile.trans {s t u : σ} {tr tr' : List α} (h : ExecWhile step C s tr t)
    (h' : ExecWhile step C t tr' u) : ExecWhile step C s (tr ++ tr') u := by
  induction h' with
  | nil => rwa [List.append_nil]
  | snoc _ hc hs ih =>
      rw [← List.append_assoc]
      exact ih.snoc hc hs

/-- The last step of a run. -/
theorem ExecWhile.last {s u : σ} {tr : List α} {a : α} (h : ExecWhile step C s (tr ++ [a]) u) :
    ∃ t, ExecWhile step C s tr t ∧ C t a ∧ step t a = some u := by
  generalize htr : tr ++ [a] = tr' at h
  cases h with
  | nil => simp at htr
  | snoc h hc hs =>
      obtain ⟨rfl, htail⟩ := List.append_inj' htr rfl
      obtain rfl := List.head_eq_of_cons_eq htail
      exact ⟨_, h, hc, hs⟩

/-- The labels determine the last state. -/
theorem ExecWhile.unique {s t u : σ} {tr : List α} (h : ExecWhile step C s tr t)
    (h' : ExecWhile step D s tr u) : t = u := by
  induction h generalizing u with
  | nil =>
      generalize htr : ([] : List α) = tr at h'
      cases h' with
      | nil => rfl
      | snoc => simp at htr
  | snoc _ _ hs ih =>
      obtain ⟨v, hv, -, hs'⟩ := h'.last
      rw [ih hv, hs'] at hs
      exact (Option.some.inj hs).symm

/-- A run whose steps meet two conditions. -/
theorem ExecWhile.and {s t : σ} {tr : List α} (h : ExecWhile step C s tr t)
    (h' : ExecWhile step D s tr t) : ExecWhile step (fun s a => C s a ∧ D s a) s tr t := by
  induction h with
  | nil => exact .nil
  | snoc h hc hs ih =>
      obtain ⟨u, hu, hd, -⟩ := h'.last
      obtain rfl := ExecWhile.unique h hu
      exact .snoc (ih hu) ⟨hc, hd⟩ hs

/-- **An exact condition.**  If, under an invariant, each step has the property afterwards
exactly when it had it before and meets `C`, then a run has the property exactly when all
its steps meet `C`. -/
theorem Exec.iff_execWhile {s t : σ} {tr : List α} (h : Exec step s tr t) {I P : σ → Prop}
    (hI : I s) (hIstep : ∀ t a u, I t → step t a = some u → I u) (hP : P s)
    (hstep : ∀ t a u, I t → step t a = some u → (P u ↔ P t ∧ C t a)) :
    P t ↔ ExecWhile step C s tr t := by
  have key : I t ∧ (P t ↔ ExecWhile step C s tr t) := by
    induction h with
    | nil => exact ⟨hI, iff_of_true hP .nil⟩
    | snoc h _ hs ih =>
        obtain ⟨hIt, hiff⟩ := ih
        refine ⟨hIstep _ _ _ hIt hs, ?_⟩
        rw [hstep _ _ _ hIt hs, hiff]
        constructor
        · intro ⟨hrun, hc⟩
          exact hrun.snoc hc hs
        · intro hrun
          obtain ⟨v, hv, hc, -⟩ := hrun.last
          rw [ExecWhile.unique h hv]
          exact ⟨hv, hc⟩
  exact key.2

/-- A computed run is a run. -/
theorem exec_of_run {s t : σ} {tr : List α} (h : run step s tr = some t) :
    Exec step s tr t := by
  induction tr generalizing s with
  | nil =>
      obtain rfl : s = t := by simpa [run] using h
      exact .nil
  | cons a tr ih =>
      obtain ⟨v, hv, hrun⟩ := Option.bind_eq_some_iff.mp h
      exact ExecWhile.cons trivial hv (ih hrun)

/-- A computed run of the guarded machine is a run that meets the condition. -/
theorem execWhile_of_run [∀ s a, Decidable (C s a)] {s t : σ} {tr : List α}
    (h : run (guarded step C) s tr = some t) : ExecWhile step C s tr t := by
  induction tr generalizing s with
  | nil =>
      obtain rfl : s = t := by simpa [run] using h
      exact .nil
  | cons a tr ih =>
      obtain ⟨v, hv, hrun⟩ := Option.bind_eq_some_iff.mp h
      by_cases hc : C s a
      · rw [guarded, if_pos hc] at hv
        exact ExecWhile.cons hc hv (ih hrun)
      · rw [guarded, if_neg hc] at hv
        cases hv

end Machine
