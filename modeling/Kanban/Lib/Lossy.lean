import Kanban.Lib.Pool

/-!
# Lost answers

A statement or a commit that has taken effect may still be answered with an error: the connection is
lost before the answer arrives.  In `p.lossy` each answer of the store is a step of its own, which can
fail; then the program goes on as if the statement had failed, and outside of a transaction what it
wrote stays.

## Main definitions

* `answer`, `Prog.lossy` — the program whose answers can be lost.
* `lossy_bind`, `Prog.Only.lossy_eq` — its rules.
* `exec_lossy` — a run of the program is a run of `p.lossy` in which no answer is lost.
-/

namespace Program

variable {σ ρ Call : Type} {Reply : Call → Type} {ε α β χ μ : Type}

/-- The answer of the store arrives. -/
def answer : Stmt σ ρ Unit := fun _ => some ⟨(), [], []⟩

/-- The rest of a program, after the answer has arrived or was lost. -/
def delivered (good bad : Prog σ ρ Call Reply ε α) : Prog σ ρ Call Reply ε α :=
  .stmt answer fun b => b.elim bad fun _ => good

/-- The program, with every answer of the store as a step that can fail. -/
def Prog.lossy : Prog σ ρ Call Reply ε α → Prog σ ρ Call Reply ε α
  | .pure a => .pure a
  | .fail e => .fail e
  | .stmt s k => .stmt s fun b =>
      b.elim (k none).lossy fun b => delivered (k (some b)).lossy (k none).lossy
  | .begin k => .begin fun ok => (k ok).lossy
  | .commit k => .commit fun ok =>
      if ok then delivered (k true).lossy (k false).lossy else (k false).lossy
  | .call c k => .call c fun r => (k r).lossy

theorem delivered_bind {good bad : Prog σ ρ Call Reply ε α} {f : α → Prog σ ρ Call Reply ε β} :
    (delivered good bad).bind f = delivered (good.bind f) (bad.bind f) := by
  unfold delivered
  rw [Prog.bind]
  congr 1
  funext b
  cases b <;> rfl

theorem lossy_bind {p : Prog σ ρ Call Reply ε α} {f : α → Prog σ ρ Call Reply ε β} :
    (p.bind f).lossy = p.lossy.bind fun a => (f a).lossy := by
  induction p with
  | pure a => rfl
  | fail e => rfl
  | stmt s k ih =>
      simp only [Prog.bind, Prog.lossy, ih]
      congr 1
      funext b
      cases b with
      | none => rfl
      | some b => exact delivered_bind.symm
  | begin k ih => simp only [Prog.bind, Prog.lossy, ih]
  | commit k ih =>
      simp only [Prog.bind, Prog.lossy, ih]
      congr 1
      funext ok
      cases ok with
      | false => rfl
      | true => exact delivered_bind.symm
  | call c k ih => simp only [Prog.bind, Prog.lossy, ih]

/-- The answer arrives, and nothing else changes. -/
theorem step_delivered {M : Semantics σ ρ Call Reply χ μ} {tx : Tx ρ} {tr : Trace ρ Call Reply}
    {w : World σ χ} {good bad : Prog σ ρ Call Reply ε α} (htx : tx ≠ .aborted) :
    ∃ tr', Thread.step M (⟨delivered good bad, tx, tr⟩, w) .ok = some (⟨good, tx, tr'⟩, w) ∧
      (.failed ∈ tr' → .failed ∈ tr) := by
  cases tx with
  | idle => exact ⟨_, rfl, by simp⟩
  | active ws =>
      have hstep : Thread.step M (⟨delivered good bad, .active ws, tr⟩, w) .ok =
          some (⟨good, .active (ws ++ []), .ran [] :: tr⟩, w) := rfl
      rw [List.append_nil] at hstep
      exact ⟨_, hstep, by simp⟩
  | aborted => exact absurd rfl htx

/-- One step, and the answer to it; a failure in its trace is one of the step. -/
theorem exec_lossy_step {M : Semantics σ ρ Call Reply χ μ} {t t' : Thread σ ρ Call Reply ε α}
    {w w' : World σ χ} {a : Act μ} (hs : Thread.step M (t, w) a = some (t', w'))
    (tr : Trace ρ Call Reply) :
    ∃ acts tr', Machine.Exec (Thread.step M) (⟨t.prog.lossy, t.tx, tr⟩, w) acts
      (⟨t'.prog.lossy, t'.tx, tr'⟩, w') ∧ (.failed ∈ tr' → .failed ∈ tr ∨ .failed ∈ t'.trace) := by
  obtain ⟨p, tx, past⟩ := t
  cases p with
  | pure b => cases a <;> cases hs
  | fail e => cases a <;> cases hs
  | stmt s k =>
      cases a with
      | ok =>
          obtain ⟨e, he, heq⟩ := Option.map_eq_some_iff.mp hs
          cases heq
          have htx : tx.record e.writes ≠ .aborted := by
            cases tx with
            | idle => nofun
            | active ws => nofun
            | aborted => cases he
          have hrun : Thread.step M (⟨(Prog.stmt s k).lossy, tx, tr⟩, w) .ok =
              some (⟨delivered (k (some e.answer)).lossy (k none).lossy, tx.record e.writes,
                tx.note e tr⟩, tx.land M e.writes w) :=
            Option.map_eq_some_iff.mpr ⟨e, he, rfl⟩
          obtain ⟨tr', hanswer, htr⟩ := step_delivered htx
          refine ⟨[.ok, .ok], tr', (Machine.Exec.nil.snoc hrun).snoc hanswer, fun h => .inl ?_⟩
          have hnote := htr h
          cases tx <;> simpa [Tx.note] using hnote
      | fail =>
          cases hs
          exact ⟨[.fail], _, Machine.exec_of_run rfl, fun _ => .inr List.mem_cons_self⟩
      | move m => cases hs
  | begin k =>
      cases a with
      | ok =>
          cases hs
          exact ⟨[.ok], _, Machine.exec_of_run rfl, .inl⟩
      | fail =>
          cases hs
          exact ⟨[.fail], _, Machine.exec_of_run rfl, fun _ => .inr List.mem_cons_self⟩
      | move m => cases hs
  | commit k =>
      cases a with
      | ok =>
          cases tx with
          | active ws =>
              cases hs
              exact ⟨[.ok, .ok], _, Machine.exec_of_run rfl, fun h => .inl (by simpa using h)⟩
          | idle =>
              cases hs
              exact ⟨[.ok, .ok], _, Machine.exec_of_run rfl, fun h => .inl (by simpa using h)⟩
          | aborted =>
              cases hs
              exact ⟨[.ok, .ok], _, Machine.exec_of_run rfl, fun h => .inl (by simpa using h)⟩
      | fail =>
          cases tx <;> cases hs <;>
            exact ⟨[.fail], _, Machine.exec_of_run rfl, fun _ => .inr List.mem_cons_self⟩
      | move m => cases tx <;> cases hs
  | call c k =>
      cases a with
      | ok => cases hs
      | fail => cases hs
      | move m =>
          obtain ⟨r, hr, heq⟩ := Option.map_eq_some_iff.mp hs
          cases heq
          refine ⟨[.move m], .called c r.1 :: tr, Machine.Exec.snoc .nil ?_,
            fun h => .inl (by simpa using h)⟩
          exact Option.map_eq_some_iff.mpr ⟨r, hr, rfl⟩

/-- **A run of the program** is a run of the lossy one in which no answer is lost: what fails in it
failed in the run of the program. -/
theorem exec_lossy {M : Semantics σ ρ Call Reply χ μ} {p : Prog σ ρ Call Reply ε α}
    {t : Thread σ ρ Call Reply ε α} {w w' : World σ χ} {acts : List (Act μ)}
    (h : Machine.Exec (Thread.step M) (Thread.start p, w) acts (t, w')) :
    ∃ acts' tr, Machine.Exec (Thread.step M) (Thread.start p.lossy, w) acts'
      (⟨t.prog.lossy, t.tx, tr⟩, w') ∧ (.failed ∈ tr → .failed ∈ t.trace) := by
  refine Machine.Exec.invariant h (fun c => ∃ acts' tr, Machine.Exec (Thread.step M)
    (Thread.start p.lossy, w) acts' (⟨c.1.prog.lossy, c.1.tx, tr⟩, c.2) ∧
    (.failed ∈ tr → .failed ∈ c.1.trace)) ⟨[], [], .nil, id⟩ ?_
  rintro c a c' ⟨acts', tr, hrun, htr⟩ hs
  obtain ⟨acts'', tr', hrun', htr'⟩ := exec_lossy_step hs tr
  refine ⟨acts' ++ acts'', tr', hrun.trans hrun', fun h => ?_⟩
  rcases htr' h with h | h
  · exact (Thread.trace_of_step hs).subset (htr h)
  · exact h

/-- A program that has returned has no answers to lose. -/
theorem result_lossy {p : Prog σ ρ Call Reply ε α} : p.lossy.result = p.result := by
  cases p <;> rfl

end Program
