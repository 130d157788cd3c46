import Kanban.Lib.Commit

/-!
# Calls that are not cut off

A call that writes with two commits can be cut off between them: by a step that fails, or because it
stops there.  What holds of the store before the first of them and after the second one holds of every
store that it leaves behind if it is not cut off.

`B` says of what a call has written that it is half of it.  While it is, the judgement asks nothing of
the store, and nothing of a step that fails.  A call that returns has to be done.

## Main definitions

* `Uncut` — the condition on the acts of a call.
* `Finishes` — the judgement, with a rule for each construct.
* `Finishes.exec` — its soundness.
-/

namespace Program

variable {σ ρ Call : Type} {Reply : Call → Type} {ε α β χ μ : Type}

/-- While the call is half done no step fails, and it goes on until it returns. -/
def Uncut (M : Semantics σ ρ Call Reply χ μ) (B : List (Write ρ) → Prop) (p : Prog σ ρ Call Reply ε α)
    (w : World σ χ) (acts : List (Act μ)) : Prop :=
  ∃ c, Machine.ExecWhile (Thread.step M) (fun c a => B (Trace.writes c.1.trace) → a ≠ .fail)
      (Thread.start p, w) acts c ∧
    (B (Trace.writes c.1.trace) → c.1.prog.result.isSome)

/-- A call of which no step fails, and that returns. -/
theorem Uncut.of_not_mem {M : Semantics σ ρ Call Reply χ μ} {B : List (Write ρ) → Prop}
    {p : Prog σ ρ Call Reply ε α} {w : World σ χ} {acts : List (Act μ)}
    {c : Thread σ ρ Call Reply ε α × World σ χ} (hok : .fail ∉ acts)
    (hrun : Machine.Exec (Thread.step M) (Thread.start p, w) acts c) (hr : c.1.prog.result.isSome) :
    Uncut M B p w acts :=
  ⟨c, (Machine.ExecWhile.and_mem hrun fun a ha (heq : a = .fail) => hok (heq ▸ ha)).mono
    fun _ _ h _ => h.2, fun _ => hr⟩

/-- What `p` does when it goes on alone and is not cut off, from the transaction `tx` over the store
`s`, after it has written `done`: every store that it makes on the way is made half way or meets `P`,
and `Q` holds of what it returns. -/
def Finishes (M : Semantics σ ρ Call Reply χ μ) (B : List (Write ρ) → Prop) (P : σ → Prop) :
    Prog σ ρ Call Reply ε α → Tx ρ → List (Write ρ) → σ → (α → Tx ρ → List (Write ρ) → σ → Prop) → Prop
  | .pure a, tx, done, s, Q => Q a tx done s
  | .fail _, _, _, s, _ => P s
  | .stmt st k, .idle, done, s, Q =>
      (∀ e, st s = some e → (B (done ++ e.writes) ∨ P (M.applyAll s e.writes)) ∧
        Finishes M B P (k (some e.answer)) .idle (done ++ e.writes) (M.applyAll s e.writes) Q) ∧
      (¬ B done → Finishes M B P (k none) .idle done s Q)
  | .stmt st k, .active ws, done, s, Q =>
      (∀ e, st (M.applyAll s ws) = some e →
        Finishes M B P (k (some e.answer)) (.active (ws ++ e.writes)) done s Q) ∧
      (¬ B done → Finishes M B P (k none) .aborted done s Q)
  | .stmt _ k, .aborted, done, s, Q => ¬ B done → Finishes M B P (k none) .aborted done s Q
  | .begin k, _, done, s, Q => Finishes M B P (k true) (.active []) done s Q ∧
      (¬ B done → Finishes M B P (k false) .idle done s Q)
  | .commit k, .active ws, done, s, Q => (B (done ++ ws) ∨ P (M.applyAll s ws)) ∧
      Finishes M B P (k true) .idle (done ++ ws) (M.applyAll s ws) Q ∧
      (¬ B done → Finishes M B P (k false) .idle done s Q)
  | .commit k, _, done, s, Q => Finishes M B P (k true) .idle done s Q ∧
      (¬ B done → Finishes M B P (k false) .idle done s Q)
  | .call _ k, tx, done, s, Q => ∀ r, Finishes M B P (k r) tx done s Q

section Rules

variable {M : Semantics σ ρ Call Reply χ μ} {B : List (Write ρ) → Prop} {P : σ → Prop} {tx : Tx ρ}
  {done ws : List (Write ρ)} {s : σ} {Q : α → Tx ρ → List (Write ρ) → σ → Prop}

/-- The rule of consequence. -/
theorem Finishes.mono {Q' : α → Tx ρ → List (Write ρ) → σ → Prop} {p : Prog σ ρ Call Reply ε α}
    (h : Finishes M B P p tx done s Q) (hQ : ∀ a tx done s, Q a tx done s → Q' a tx done s) :
    Finishes M B P p tx done s Q' := by
  induction p generalizing tx done s with
  | pure a => exact hQ _ _ _ _ h
  | fail e => exact h
  | stmt st k ih =>
      cases tx with
      | idle => exact ⟨fun e he => ⟨(h.1 e he).1, ih _ (h.1 e he).2⟩, fun hB => ih _ (h.2 hB)⟩
      | active ws => exact ⟨fun e he => ih _ (h.1 e he), fun hB => ih _ (h.2 hB)⟩
      | aborted => exact fun hB => ih _ (h hB)
  | begin k ih => exact ⟨ih _ h.1, fun hB => ih _ (h.2 hB)⟩
  | commit k ih =>
      cases tx with
      | active ws => exact ⟨h.1, ih _ h.2.1, fun hB => ih _ (h.2.2 hB)⟩
      | idle => exact ⟨ih _ h.1, fun hB => ih _ (h.2 hB)⟩
      | aborted => exact ⟨ih _ h.1, fun hB => ih _ (h.2 hB)⟩
  | call c k ih => exact fun r => ih r (h r)

/-- The rule of sequential composition. -/
theorem finishes_bind {Q : β → Tx ρ → List (Write ρ) → σ → Prop} {p : Prog σ ρ Call Reply ε α}
    {f : α → Prog σ ρ Call Reply ε β}
    (h : Finishes M B P p tx done s fun a tx done s => Finishes M B P (f a) tx done s Q) :
    Finishes M B P (p.bind f) tx done s Q := by
  induction p generalizing tx done s with
  | pure a => exact h
  | fail e => exact h
  | stmt st k ih =>
      cases tx with
      | idle => exact ⟨fun e he => ⟨(h.1 e he).1, ih _ (h.1 e he).2⟩, fun hB => ih _ (h.2 hB)⟩
      | active ws => exact ⟨fun e he => ih _ (h.1 e he), fun hB => ih _ (h.2 hB)⟩
      | aborted => exact fun hB => ih _ (h hB)
  | begin k ih => exact ⟨ih _ h.1, fun hB => ih _ (h.2 hB)⟩
  | commit k ih =>
      cases tx with
      | active ws => exact ⟨h.1, ih _ h.2.1, fun hB => ih _ (h.2.2 hB)⟩
      | idle => exact ⟨ih _ h.1, fun hB => ih _ (h.2 hB)⟩
      | aborted => exact ⟨ih _ h.1, fun hB => ih _ (h.2 hB)⟩
  | call c k ih => exact fun r => ih r (h r)

/-- A program without transactions, outside of every transaction: what its writes keep of what is
written and of the store. -/
theorem Finishes.of_only {S : List (Write ρ) → Prop} {I : List (Write ρ) → σ → Prop}
    {p : Prog σ ρ Call Reply ε α} (hp : p.Only S)
    (hS : ∀ done v ws, S ws → I done v → I (done ++ ws) (M.applyAll v ws))
    (hI : ∀ done v, I done v → ¬ B done ∧ P v) (h : I done s) :
    Finishes M B P p .idle done s fun _ tx done s => tx = .idle ∧ I done s := by
  induction p generalizing done s with
  | pure a => exact ⟨rfl, h⟩
  | fail e => exact (hI _ _ h).2
  | stmt st k ih =>
      refine ⟨fun e he => ?_, fun _ => ih _ (hp.2 _) h⟩
      have h' := hS done s _ (hp.1 s e he) h
      exact ⟨.inr (hI _ _ h').2, ih _ (hp.2 _) h'⟩
  | begin k => exact hp.elim
  | commit k => exact hp.elim
  | call c k ih => exact fun r => ih r (hp r) h

/-- A program that writes nothing. -/
theorem Finishes.of_only_nil {p : Prog σ ρ Call Reply ε α} (hp : p.Only (· = [])) (hdone : ¬ B done)
    (hs : P s) :
    Finishes M B P p .idle done s fun _ tx done' s' => tx = .idle ∧ done' = done ∧ s' = s := by
  refine .of_only (I := fun done' s' => done' = done ∧ s' = s) hp ?_ ?_ ⟨rfl, rfl⟩
  · rintro done' v ws rfl ⟨rfl, rfl⟩
    exact ⟨List.append_nil _, rfl⟩
  · rintro done' v ⟨rfl, rfl⟩
    exact ⟨hdone, hs⟩

/-- A step that does not fail while the call is half done keeps the judgement. -/
theorem Finishes.step {t t' : Thread σ ρ Call Reply ε α} {w w' : World σ χ} {a : Act μ}
    (h : Finishes M B P t.prog t.tx (Trace.writes t.trace) w.store Q)
    (hw : ¬ B (Trace.writes t.trace) → P w.store) (ha : B (Trace.writes t.trace) → a ≠ .fail)
    (hs : Thread.step M (t, w) a = some (t', w')) :
    Finishes M B P t'.prog t'.tx (Trace.writes t'.trace) w'.store Q ∧
      (¬ B (Trace.writes t'.trace) → P w'.store) := by
  obtain ⟨p, tx, tr⟩ := t
  cases p with
  | pure b => cases a <;> cases hs
  | fail e => cases a <;> cases hs
  | stmt st k =>
      cases a with
      | ok =>
          obtain ⟨e, he, heq⟩ := Option.map_eq_some_iff.mp hs
          cases heq
          cases tx with
          | idle => exact ⟨(h.1 e he).2, fun hB => (h.1 e he).1.resolve_left hB⟩
          | active ws => exact ⟨h.1 e he, hw⟩
          | aborted => cases he
      | fail =>
          cases hs
          have hB : ¬ B (Trace.writes tr) := fun hB => ha hB rfl
          cases tx with
          | idle => exact ⟨h.2 hB, hw⟩
          | active ws => exact ⟨h.2 hB, hw⟩
          | aborted => exact ⟨h hB, hw⟩
      | move m => cases hs
  | begin k =>
      cases a with
      | ok =>
          cases hs
          exact ⟨h.1, hw⟩
      | fail =>
          cases hs
          exact ⟨h.2 fun hB => ha hB rfl, hw⟩
      | move m => cases hs
  | commit k =>
      cases a with
      | ok =>
          cases tx with
          | active ws =>
              cases hs
              exact ⟨h.2.1, fun hB => h.1.resolve_left hB⟩
          | idle =>
              cases hs
              exact ⟨h.1, hw⟩
          | aborted =>
              cases hs
              exact ⟨h.1, hw⟩
      | fail =>
          have hB : ¬ B (Trace.writes tr) := fun hB => ha hB rfl
          cases tx with
          | active ws =>
              cases hs
              exact ⟨h.2.2 hB, hw⟩
          | idle =>
              cases hs
              exact ⟨h.2 hB, hw⟩
          | aborted =>
              cases hs
              exact ⟨h.2 hB, hw⟩
      | move m => cases tx <;> cases hs
  | call c k =>
      cases a with
      | ok => cases hs
      | fail => cases hs
      | move m =>
          obtain ⟨r, hr, heq⟩ := Option.map_eq_some_iff.mp hs
          cases heq
          exact ⟨h r.1, hw⟩

end Rules

/-- **Soundness.**  A call that is not cut off leaves a store that meets `P`. -/
theorem Finishes.exec {M : Semantics σ ρ Call Reply χ μ} {B : List (Write ρ) → Prop} {P : σ → Prop}
    {p : Prog σ ρ Call Reply ε α} {t : Thread σ ρ Call Reply ε α} {w w' : World σ χ}
    {acts : List (Act μ)} (h : Finishes M B P p .idle [] w.store fun _ _ _ s => P s) (hw : P w.store)
    (huncut : Uncut M B p w acts)
    (hrun : Machine.Exec (Thread.step M) (Thread.start p, w) acts (t, w')) : P w'.store := by
  obtain ⟨c, hc, hend⟩ := huncut
  obtain rfl := hc.unique hrun
  obtain ⟨h', hw'⟩ := hc.invariant (fun c => Finishes M B P c.1.prog c.1.tx (Trace.writes c.1.trace)
    c.2.store (fun _ _ _ s => P s) ∧ (¬ B (Trace.writes c.1.trace) → P c.2.store)) ⟨h, fun _ => hw⟩
    fun _ _ _ hinv ha hs => hinv.1.step hinv.2 ha hs
  by_cases hB : B (Trace.writes t.trace)
  · obtain ⟨p', tx, tr⟩ := t
    have hr := hend hB
    cases p' with
    | pure a => exact h'
    | fail e => exact h'
    | stmt st k => cases hr
    | begin k => cases hr
    | commit k => cases hr
    | call c k => cases hr
  · exact hw' hB

end Program
