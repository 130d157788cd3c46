import Kanban.Lib.Program
import Mathlib.Order.WellFounded

/-!
# What a program surely does

A database that does not fail executes every statement that it does not have to reject.  A program
goes through if, alone and on such a database, none of its statements is rejected and it never
returns an error, whatever the services answer.

## Main definitions

* `Sure` — the judgement, with a rule for each construct.
* `Undisturbed` — the runs in which a step fails only if it cannot go through.
* `Sure.exec`, `Sure.completes` — its soundness: no such run ends in an error, and there is one that
  returns.
* `Sure.next`, `Thread.not_endless` — such a run goes on until it returns, and it ends.
* `GoesThrough` — every such run can go on to a return.
* `Prog.Fails` — a program that never returns but with an error.
* `Prog.Plain` — a program of statements that only read and are never rejected.
-/

namespace Program

variable {σ ρ Call : Type} {Reply : Call → Type} {ε α β χ μ : Type}

/-- What `p` surely does from the transaction `tx` in the world `w`. -/
def Sure (M : Semantics σ ρ Call Reply χ μ) :
    Prog σ ρ Call Reply ε α → Tx ρ → World σ χ → (α → Tx ρ → World σ χ → Prop) → Prop
  | .pure a, tx, w, Q => Q a tx w
  | .fail _, _, _, _ => False
  | .stmt s k, tx, w, Q => ∃ e, tx.query M s w.store = some e ∧
      Sure M (k (some e.answer)) (tx.record e.writes) (tx.land M e.writes w) Q
  | .begin k, _, w, Q => Sure M (k true) (.active []) w Q
  | .commit k, .active ws, w, Q =>
      Sure M (k true) .idle { w with store := M.applyAll w.store ws } Q
  | .commit k, _, w, Q => Sure M (k true) .idle w Q
  | .call c k, tx, w, Q => (∃ m r, M.react c m w.ext = some r) ∧
      ∀ m r, M.react c m w.ext = some r → Sure M (k r.1) tx { w with ext := r.2 } Q

section Rules

variable {M : Semantics σ ρ Call Reply χ μ} {tx : Tx ρ} {w : World σ χ}
  {Q : α → Tx ρ → World σ χ → Prop}

theorem Sure.mono {Q' : α → Tx ρ → World σ χ → Prop} {p : Prog σ ρ Call Reply ε α}
    (h : Sure M p tx w Q) (hQ : ∀ a tx w, Q a tx w → Q' a tx w) : Sure M p tx w Q' := by
  induction p generalizing tx w with
  | pure a => exact hQ _ _ _ h
  | fail e => exact h.elim
  | stmt s k ih =>
      obtain ⟨e, he, h⟩ := h
      exact ⟨e, he, ih _ h⟩
  | begin k ih => exact ih _ h
  | commit k ih =>
      cases tx with
      | idle => exact ih _ h
      | active ws => exact ih _ h
      | aborted => exact ih _ h
  | call c k ih => exact ⟨h.1, fun m r hr => ih _ (h.2 m r hr)⟩

/-- The rule of sequential composition. -/
theorem sure_bind {Q : β → Tx ρ → World σ χ → Prop} {p : Prog σ ρ Call Reply ε α}
    {f : α → Prog σ ρ Call Reply ε β}
    (h : Sure M p tx w fun a tx w => Sure M (f a) tx w Q) : Sure M (p.bind f) tx w Q := by
  induction p generalizing tx w with
  | pure a => exact h
  | fail e => exact h.elim
  | stmt s k ih =>
      obtain ⟨e, he, h⟩ := h
      exact ⟨e, he, ih _ h⟩
  | begin k ih => exact ih _ h
  | commit k ih =>
      cases tx with
      | idle => exact ih _ h
      | active ws => exact ih _ h
      | aborted => exact ih _ h
  | call c k ih => exact ⟨h.1, fun m r hr => ih _ (h.2 m r hr)⟩

/-- A step fails only if it cannot go through. -/
def Undisturbed (M : Semantics σ ρ Call Reply χ μ) (c : Thread σ ρ Call Reply ε α × World σ χ)
    (a : Act μ) : Prop := a = .fail → Thread.step M c .ok = none

/-- An undisturbed step keeps the judgement. -/
theorem Sure.step {t t' : Thread σ ρ Call Reply ε α} {w' : World σ χ} {a : Act μ}
    (h : Sure M t.prog t.tx w Q) (ha : Undisturbed M (t, w) a)
    (hs : Thread.step M (t, w) a = some (t', w')) : Sure M t'.prog t'.tx w' Q := by
  obtain ⟨p, tx, tr⟩ := t
  cases p with
  | pure b => cases a <;> cases hs
  | fail e => exact h.elim
  | stmt s k =>
      obtain ⟨e, he, h⟩ := h
      cases a with
      | ok =>
          obtain ⟨e', he', heq⟩ := Option.map_eq_some_iff.mp hs
          obtain rfl := Option.some.inj (he.symm.trans he')
          cases heq
          exact h
      | fail => exact absurd (Option.map_eq_none_iff.mp (ha rfl)) (by simp [he])
      | move m => cases hs
  | begin k =>
      cases a with
      | ok =>
          cases hs
          exact h
      | fail => cases ha rfl
      | move m => cases hs
  | commit k =>
      cases a with
      | ok => cases tx <;> cases hs <;> exact h
      | fail => cases tx <;> cases ha rfl
      | move m => cases tx <;> cases hs
  | call c k =>
      cases a with
      | ok => cases hs
      | fail => cases hs
      | move m =>
          obtain ⟨r, hr, heq⟩ := Option.map_eq_some_iff.mp hs
          cases heq
          exact h.2 m r hr

/-- **No undisturbed run ends in an error.** -/
theorem Sure.exec {p : Prog σ ρ Call Reply ε α} {t : Thread σ ρ Call Reply ε α} {w' : World σ χ}
    {acts : List (Act μ)} (h : Sure M p .idle w Q)
    (hrun : Machine.ExecWhile (Thread.step M) (Undisturbed M) (Thread.start p, w) acts (t, w')) :
    Sure M t.prog t.tx w' Q :=
  hrun.invariant (fun s => Sure M s.1.prog s.1.tx s.2 Q) h fun _ _ _ h hc hs => h.step hc hs

/-- A run without a failure is undisturbed. -/
theorem undisturbed_of_not_mem {s s' : Thread σ ρ Call Reply ε α × World σ χ} {acts : List (Act μ)}
    (hok : .fail ∉ acts) (hrun : Machine.Exec (Thread.step M) s acts s') :
    Machine.ExecWhile (Thread.step M) (Undisturbed M) s acts s' :=
  (Machine.ExecWhile.and_mem hrun fun a ha (heq : a = .fail) => hok (heq ▸ ha)).mono
    fun _ _ h heq => absurd heq h.2

/-- A run without a failure that returns. -/
def Returns (M : Semantics σ ρ Call Reply χ μ) (t : Thread σ ρ Call Reply ε α) (w : World σ χ)
    (Q : α → Tx ρ → World σ χ → Prop) : Prop :=
  ∃ acts t' w' a, Act.fail ∉ acts ∧ Machine.Exec (Thread.step M) (t, w) acts (t', w') ∧
    t'.prog = .pure a ∧ Q a t'.tx w'

/-- One step, and the run of the rest. -/
theorem Returns.cons {t t' : Thread σ ρ Call Reply ε α} {w' : World σ χ} (a : Act μ) (ha : a ≠ .fail)
    (hs : Thread.step M (t, w) a = some (t', w')) (h : Returns M t' w' Q) : Returns M t w Q := by
  obtain ⟨acts, t'', w'', b, hok, hrun, hb, hQ⟩ := h
  refine ⟨a :: acts, t'', w'', b, ?_, Machine.ExecWhile.cons trivial hs hrun, hb, hQ⟩
  exact fun hmem => (List.mem_cons.mp hmem).elim (fun heq => ha heq.symm) hok

/-- **There is a run that returns**, by following the program. -/
theorem Sure.completes {p : Prog σ ρ Call Reply ε α} (h : Sure M p tx w Q)
    (tr : Trace ρ Call Reply) : Returns M ⟨p, tx, tr⟩ w Q := by
  induction p generalizing tx w tr with
  | pure a => exact ⟨[], _, _, a, List.not_mem_nil, .nil, rfl, h⟩
  | fail e => exact h.elim
  | stmt s k ih =>
      obtain ⟨e, he, h⟩ := h
      exact .cons .ok (by simp) (by rw [Thread.step, he]; rfl) (ih _ h _)
  | begin k ih => exact .cons .ok (by simp) rfl (ih _ h _)
  | commit k ih =>
      cases tx with
      | idle => exact .cons .ok (by simp) rfl (ih _ h _)
      | active ws => exact .cons .ok (by simp) rfl (ih _ h _)
      | aborted => exact .cons .ok (by simp) rfl (ih _ h _)
  | call c k ih =>
      obtain ⟨⟨m, r, hr⟩, h⟩ := h
      exact .cons (.move m) (by simp) (by rw [Thread.step, hr]; rfl) (ih _ (h m r hr) _)

/-- Where a program that surely returns has got: it can take a step that does not fail, or it has
returned. -/
theorem Sure.next {t : Thread σ ρ Call Reply ε α} (h : Sure M t.prog t.tx w Q) :
    (∃ a c, Act.fail ≠ a ∧ Thread.step M (t, w) a = some c) ∨
      ∃ b, t.prog = .pure b ∧ Q b t.tx w := by
  obtain ⟨p, tx, tr⟩ := t
  cases p with
  | pure b => exact .inr ⟨b, rfl, h⟩
  | fail e => exact h.elim
  | stmt s k =>
      obtain ⟨e, he, -⟩ := h
      exact .inl ⟨.ok, _, nofun, Option.map_eq_some_iff.mpr ⟨e, he, rfl⟩⟩
  | begin k => exact .inl ⟨.ok, _, nofun, rfl⟩
  | commit k => cases tx <;> exact .inl ⟨.ok, _, nofun, rfl⟩
  | call c k =>
      obtain ⟨⟨m, r, hr⟩, -⟩ := h
      exact .inl ⟨.move m, _, nofun, Option.map_eq_some_iff.mpr ⟨r, hr, rfl⟩⟩

/-- Wherever an undisturbed run of `p` has got, it can go on to a return, and `Q` holds of every world
in which one has returned. -/
structure GoesThrough (M : Semantics σ ρ Call Reply χ μ) (p : Prog σ ρ Call Reply ε α) (w : World σ χ)
    (Q : World σ χ → Prop) : Prop where
  returns : ∀ acts t w', Machine.ExecWhile (Thread.step M) (Undisturbed M) (Thread.start p, w) acts
    (t, w') → Returns M t w' fun _ _ _ => True
  post : ∀ acts t w' a, Machine.ExecWhile (Thread.step M) (Undisturbed M) (Thread.start p, w) acts
    (t, w') → t.prog = .pure a → Q w'

/-- **What surely happens** happens in every undisturbed run. -/
theorem Sure.goesThrough {p : Prog σ ρ Call Reply ε α} {Q : World σ χ → Prop}
    (h : Sure M p .idle w fun _ _ w' => Q w') : GoesThrough M p w Q where
  returns _ t _ hrun := ((h.exec hrun).mono fun _ _ _ _ => trivial).completes t.trace
  post _ _ _ a hrun ha := by
    have hend := h.exec hrun
    rw [ha] at hend
    exact hend

/-- A statement outside of every transaction. -/
theorem sure_stmt_idle {s : Stmt σ ρ β} {k : Option β → Prog σ ρ Call Reply ε α} {e : Effect ρ β}
    (he : s w.store = some e)
    (h : Sure M (k (some e.answer)) .idle { w with store := M.applyAll w.store e.writes } Q) :
    Sure M (.stmt s k) .idle w Q := ⟨e, he, h⟩

/-- A statement in a transaction sees the store with the writes that wait. -/
theorem sure_stmt_active {s : Stmt σ ρ β} {k : Option β → Prog σ ρ Call Reply ε α} {e : Effect ρ β}
    {ws : List (Write ρ)} (he : s (M.applyAll w.store ws) = some e)
    (h : Sure M (k (some e.answer)) (.active (ws ++ e.writes)) w Q) :
    Sure M (.stmt s k) (.active ws) w Q := ⟨e, he, h⟩

/-- The steps of a thread descend in its program. -/
theorem Thread.acc_step (p : Prog σ ρ Call Reply ε α) (tx : Tx ρ) (tr : Trace ρ Call Reply)
    (w : World σ χ) : Acc (fun c' c => ∃ a, Thread.step M c a = some c') (⟨p, tx, tr⟩, w) := by
  induction p generalizing tx tr w with
  | pure b =>
      refine .intro _ fun c ⟨a, hs⟩ => ?_
      cases a <;> cases hs
  | fail e =>
      refine .intro _ fun c ⟨a, hs⟩ => ?_
      cases a <;> cases hs
  | stmt s k ih =>
      refine .intro _ fun c ⟨a, hs⟩ => ?_
      cases a with
      | ok =>
          obtain ⟨e, -, rfl⟩ := Option.map_eq_some_iff.mp hs
          exact ih _ _ _ _
      | fail =>
          cases hs
          exact ih _ _ _ _
      | move m => cases hs
  | begin k ih =>
      refine .intro _ fun c ⟨a, hs⟩ => ?_
      cases a <;> cases hs <;> exact ih _ _ _ _
  | commit k ih =>
      refine .intro _ fun c ⟨a, hs⟩ => ?_
      cases a <;> cases tx <;> cases hs <;> exact ih _ _ _ _
  | call c k ih =>
      refine .intro _ fun c ⟨a, hs⟩ => ?_
      cases a with
      | ok => cases hs
      | fail => cases hs
      | move m =>
          obtain ⟨r, -, rfl⟩ := Option.map_eq_some_iff.mp hs
          exact ih _ _ _ _

/-- **No run of a thread goes on for ever.** -/
theorem Thread.not_endless (t : Thread σ ρ Call Reply ε α) (w : World σ χ) :
    ¬ ∃ states : ℕ → Thread σ ρ Call Reply ε α × World σ χ, states 0 = (t, w) ∧
      ∀ n, ∃ a, Thread.step M (states n) a = some (states (n + 1)) :=
  fun h => not_acc_iff_exists_descending_chain.mpr h (Thread.acc_step t.prog t.tx t.trace w)

end Rules

/-! ## Programs that do not return -/

/-- Whatever happens, `p` returns no value. -/
def Prog.Fails (M : Semantics σ ρ Call Reply χ μ) : Prog σ ρ Call Reply ε α → Prop
  | .pure _ => False
  | .fail _ => True
  | .stmt _ k => ∀ b, (k b).Fails M
  | .begin k => ∀ b, (k b).Fails M
  | .commit k => ∀ b, (k b).Fails M
  | .call c k => ∀ m x r, M.react c m x = some r → (k r.1).Fails M

section Fails

variable {M : Semantics σ ρ Call Reply χ μ} {w w' : World σ χ} {t t' : Thread σ ρ Call Reply ε α}

/-- What follows a program does not return if it does not. -/
theorem Prog.Fails.of_bind {p : Prog σ ρ Call Reply ε α} {f : α → Prog σ ρ Call Reply ε β}
    (h : ∀ a, (f a).Fails M) : (p.bind f).Fails M := by
  induction p with
  | pure a => exact h a
  | fail e => trivial
  | stmt s k ih => exact ih
  | begin k ih => exact ih
  | commit k ih => exact ih
  | call c k ih => exact fun _ _ r _ => ih r.1

theorem Prog.Fails.step {a : Act μ} (h : t.prog.Fails M)
    (hs : Thread.step M (t, w) a = some (t', w')) : t'.prog.Fails M := by
  obtain ⟨p, tx, tr⟩ := t
  cases p with
  | pure b => exact h.elim
  | fail e => cases a <;> cases hs
  | stmt s k =>
      cases a with
      | ok =>
          obtain ⟨e, -, heq⟩ := Option.map_eq_some_iff.mp hs
          cases heq
          exact h _
      | fail =>
          cases hs
          exact h _
      | move m => cases hs
  | begin k => cases a <;> cases hs <;> exact h _
  | commit k => cases a <;> cases tx <;> cases hs <;> exact h _
  | call c k =>
      cases a with
      | ok => cases hs
      | fail => cases hs
      | move m =>
          obtain ⟨r, hr, heq⟩ := Option.map_eq_some_iff.mp hs
          cases heq
          exact h m _ r hr

/-- A run that returns is none of a program that does not. -/
theorem Prog.Fails.not_goesThrough {p : Prog σ ρ Call Reply ε α} {Q : World σ χ → Prop}
    (h : p.Fails M) : ¬ GoesThrough M p w Q := by
  intro hp
  obtain ⟨acts, t, w', a, -, hrun, ha, -⟩ := hp.returns [] _ _ .nil
  have hend : t.prog.Fails M := hrun.invariant (fun c => c.1.prog.Fails M) h fun _ _ _ h hs => h.step hs
  rw [ha] at hend
  exact hend

end Fails

/-- `p` only reads, no statement of it is ever rejected, and it returns. -/
def Prog.Plain : Prog σ ρ Call Reply ε α → Prop
  | .pure _ => True
  | .fail _ => False
  | .stmt s k => (∀ v, ∃ e, s v = some e ∧ e.writes = []) ∧ ∀ b, (k (some b)).Plain
  | .begin _ => False
  | .commit _ => False
  | .call _ _ => False

theorem Prog.Plain.bind {p : Prog σ ρ Call Reply ε α} {f : α → Prog σ ρ Call Reply ε β}
    (hp : p.Plain) (hf : ∀ a, (f a).Plain) : (p.bind f).Plain := by
  induction p with
  | pure a => exact hf a
  | fail e => exact hp.elim
  | stmt s k ih => exact ⟨hp.1, fun b => ih _ (hp.2 b)⟩
  | begin k => exact hp.elim
  | commit k => exact hp.elim
  | call c k => exact hp.elim

theorem Sure.of_plain {M : Semantics σ ρ Call Reply χ μ} {w : World σ χ}
    {p : Prog σ ρ Call Reply ε α} (hp : p.Plain) :
    Sure M p .idle w fun _ tx w' => tx = .idle ∧ w' = w := by
  induction p with
  | pure a => exact ⟨rfl, rfl⟩
  | fail e => exact hp.elim
  | stmt s k ih =>
      obtain ⟨e, he, hwrites⟩ := hp.1 w.store
      refine sure_stmt_idle he ?_
      rw [hwrites]
      exact ih _ (hp.2 _)
  | begin k => exact hp.elim
  | commit k => exact hp.elim
  | call c k => exact hp.elim

end Program
