import Kanban.Lib.Pool

/-!
# Calls executed one after the other

A serial run executes calls one at a time, each of them as far as it gets.  Inside of a call no
other call changes the store, so what a statement has read is still so at the next one.

`Along M I p m v Q` says that `p`, going on alone at the scope `m` where it sees the store `v`,
lets every state meet `I`, and that `Q` holds of what it returns and sees then.  Each statement
has to keep `I` of the store that it sees, so a commit has nothing left to show.

## Main definitions

* `Scope`, `Sees` — where a program stands, and the store it sees there.
* `Along` — the judgement, with a rule for each construct.
* `serialStep`, `Along.serial` — the serial runs and what holds in all their states.
-/

namespace Program

variable {σ ρ Call : Type} {Reply : Call → Type} {ε α β χ μ κ : Type}

/-- Outside of a transaction or inside of one. -/
inductive Scope
  | outside
  | inside
  deriving DecidableEq

/-- The store meets `I`, and a statement at the scope sees `v`, which meets it too.  In a
transaction that was aborted no statement sees a store. -/
def Sees (M : Semantics σ ρ Call Reply χ μ) (I : σ → Prop) (v : σ) (s : σ) : Scope → Tx ρ → Prop
  | .outside, .idle => s = v ∧ I v
  | .inside, .active ws => I s ∧ M.applyAll s ws = v ∧ I v
  | .inside, .aborted => I s
  | _, _ => False

/-- What `p` does when it goes on alone from the scope `m`. -/
def Along (M : Semantics σ ρ Call Reply χ μ) (I : σ → Prop) (p : Prog σ ρ Call Reply ε α)
    (m : Scope) (v : σ) (Q : α → Scope → σ → Prop) : Prop :=
  ∀ tx tr (w : World σ χ), Sees M I v w.store m tx →
    Ensures M Alone (fun _ _ _ w' => I w'.store)
      (fun r tx' _ w' => ∀ a, r = .ok a → ∃ m' v', Sees M I v' w'.store m' tx' ∧ Q a m' v') p tx tr w

section Rules

variable {M : Semantics σ ρ Call Reply χ μ} {I : σ → Prop} {m : Scope} {v : σ}
  {Q : α → Scope → σ → Prop}

/-- The store itself meets the invariant. -/
theorem Sees.store {s : σ} {tx : Tx ρ} (h : Sees M I v s m tx) : I s := by
  cases m <;> cases tx
  case outside.idle => exact h.1 ▸ h.2
  case inside.active => exact h.1
  case inside.aborted => exact h
  all_goals exact h.elim

theorem along_pure {a : α} (h : Q a m v) : Along M I (.pure a : Prog σ ρ Call Reply ε α) m v Q := by
  rintro tx tr w hs b ⟨⟩
  exact ⟨m, v, hs, h⟩

theorem along_fail {e : ε} : Along M I (.fail e : Prog σ ρ Call Reply ε α) m v Q := by
  rintro tx tr w hs b ⟨⟩

theorem along_bind {Q : β → Scope → σ → Prop} {p : Prog σ ρ Call Reply ε α}
    {f : α → Prog σ ρ Call Reply ε β}
    (h : Along M I p m v fun a m' v' => Along M I (f a) m' v' Q) :
    Along M I (p.bind f) m v Q := by
  intro tx tr w hs
  rw [ensures_bind]
  refine (h tx tr w hs).post_mono ?_
  intro r tx' tr' w' hr
  cases r with
  | ok a =>
      obtain ⟨m', v', hs', hk⟩ := hr a rfl
      exact hk tx' tr' w' hs'
  | error e => exact fun _ he => by cases he

theorem Along.mono {Q' : α → Scope → σ → Prop} {p : Prog σ ρ Call Reply ε α}
    (h : Along M I p m v Q) (hQ : ∀ a m' v', Q a m' v' → Q' a m' v') : Along M I p m v Q' := by
  intro tx tr w hs
  refine (h tx tr w hs).post_mono ?_
  intro r tx' tr' w' hr a ha
  obtain ⟨m', v', hs', hq⟩ := hr a ha
  exact ⟨m', v', hs', hQ a m' v' hq⟩

/-- A statement keeps the invariant of the store that it sees. -/
theorem along_stmt {s : Stmt σ ρ β} {k : Option β → Prog σ ρ Call Reply ε α}
    (hok : I v → ∀ e, s v = some e → I (M.applyAll v e.writes) ∧
      Along M I (k (some e.answer)) m (M.applyAll v e.writes) Q)
    (hfail : Along M I (k none) m v Q) : Along M I (.stmt s k) m v Q := by
  rintro tx tr w hs w₁ rfl
  cases m <;> cases tx
  case outside.idle =>
    obtain ⟨rfl, hI⟩ := hs
    refine ⟨fun e he => ?_, hfail _ _ _ ⟨rfl, hI⟩⟩
    obtain ⟨hI', hk⟩ := hok hI e he
    exact ⟨hI', hk _ _ _ ⟨rfl, hI'⟩⟩
  case inside.active ws =>
    obtain ⟨hstore, rfl, hI⟩ := hs
    refine ⟨fun e he => ?_, hfail _ _ _ hstore⟩
    obtain ⟨hI', hk⟩ := hok hI e he
    exact ⟨hstore, hk _ _ _ ⟨hstore, M.applyAll_append _ _ _, hI'⟩⟩
  case inside.aborted => exact ⟨fun _ he => absurd he (by simp), hfail _ _ _ hs⟩
  all_goals exact hs.elim

theorem along_begin {k : Bool → Prog σ ρ Call Reply ε α}
    (hok : Along M I (k true) .inside v Q) (hfail : Along M I (k false) .outside v Q) :
    Along M I (.begin k) .outside v Q := by
  rintro tx tr w hs w₁ rfl
  cases tx with
  | idle =>
      obtain ⟨rfl, hI⟩ := hs
      exact ⟨hok _ _ _ ⟨hI, rfl, hI⟩, hfail _ _ _ ⟨rfl, hI⟩⟩
  | active ws => exact hs.elim
  | aborted => exact hs.elim

/-- After a commit the program sees the store as it is then: what it wrote, or the store before
the transaction if that was aborted or lost. -/
theorem along_commit {k : Bool → Prog σ ρ Call Reply ε α}
    (h : ∀ b v', I v' → Along M I (k b) .outside v' Q) : Along M I (.commit k) .inside v Q := by
  rintro tx tr w hs w₁ rfl
  refine ⟨?_, h false _ hs.store _ _ _ ⟨rfl, hs.store⟩⟩
  cases tx with
  | active ws =>
      obtain ⟨-, rfl, hI⟩ := hs
      exact ⟨hI, h true _ hI _ _ _ ⟨rfl, hI⟩⟩
  | aborted => exact h true _ hs _ _ _ ⟨rfl, hs⟩
  | idle => exact hs.elim

theorem along_call {c : Call} {k : Reply c → Prog σ ρ Call Reply ε α}
    (h : ∀ r, Along M I (k r) m v Q) : Along M I (.call c k) m v Q := by
  rintro tx tr w hs w₁ rfl _ r _
  exact ⟨hs.store, h r.1 _ _ _ hs⟩

/-- A program without transactions stays where it is, and changes the store it sees by its writes
only. -/
theorem Along.of_only {S : List (Write ρ) → Prop} {K : σ → σ → Prop} (hrefl : ∀ v, K v v)
    (htrans : ∀ v v' v'', K v v' → K v' v'' → K v v'')
    (hS : ∀ v ws, I v → S ws → I (M.applyAll v ws) ∧ K v (M.applyAll v ws))
    {p : Prog σ ρ Call Reply ε α} (h : p.Only S) :
    Along M I p m v fun _ m' v' => m' = m ∧ K v v' := by
  induction p generalizing v with
  | pure a => exact along_pure ⟨rfl, hrefl v⟩
  | fail e => exact along_fail
  | stmt s k ih =>
      refine along_stmt (fun hI e he => ?_) (ih _ (h.2 _))
      obtain ⟨hI', hK⟩ := hS v e.writes hI (h.1 v e he)
      exact ⟨hI', (ih _ (h.2 _)).mono fun _ _ _ h => ⟨h.1, htrans _ _ _ hK h.2⟩⟩
  | begin k => exact h.elim
  | commit k => exact h.elim
  | call c k ih => exact along_call fun r => ih r (h r)

end Rules

/-! ## Serial runs -/

/-- One call is executed, as far as the environment lets it get. -/
def serialStep (M : Semantics σ ρ Call Reply χ μ) (handler : κ → Prog σ ρ Call Reply ε α)
    (w : World σ χ) (call : κ × List (Act μ)) : Option (World σ χ) :=
  (Machine.run (Thread.step M) (Thread.start (handler call.1), w) call.2).map Prod.snd

/-- **The rule of serial runs.**  An invariant that every call keeps on its own holds in every
state of a run that executes calls one after the other, also in the midst of a call. -/
theorem Along.serial {M : Semantics σ ρ Call Reply χ μ} {I : σ → Prop}
    {handler : κ → Prog σ ρ Call Reply ε α} {w w' : World σ χ} {calls : List (κ × List (Act μ))}
    (h : ∀ q v, I v → Along M I (handler q) .outside v fun _ _ _ => True)
    (hrun : Machine.Exec (serialStep M handler) w calls w') (hI : I w.store) : I w'.store := by
  refine hrun.invariant (fun w => I w.store) hI ?_
  rintro w ⟨q, acts⟩ w' hI hs
  obtain ⟨⟨t, w''⟩, ht, rfl⟩ := Option.map_eq_some_iff.mp hs
  refine ((h q w.store hI .idle [] w ⟨rfl, hI⟩).exec (Machine.exec_of_run ht)
    (fun _ w => I w.store) hI (fun _ _ h => h) ?_).2
  exact fun _ _ _ _ h _ => h

section Writes

variable {M : Semantics σ ρ Call Reply χ μ} {w w' : World σ χ}

/-- What every write keeps holds in every state of a serial run, whatever the calls do. -/
theorem serial_of_writes {I : σ → Prop} (hI : ∀ s ws, I s → I (M.applyAll s ws))
    {handler : κ → Prog σ ρ Call Reply ε α} {calls : List (κ × List (Act μ))}
    (hrun : Machine.Exec (serialStep M handler) w calls w') (h : I w.store) : I w'.store := by
  refine hrun.invariant (fun w => I w.store) h ?_
  rintro w ⟨q, acts⟩ w' hw hs
  obtain ⟨⟨t, w''⟩, ht, rfl⟩ := Option.map_eq_some_iff.mp hs
  refine (Machine.exec_of_run ht).invariant (fun c => I c.2.store) hw ?_
  rintro ⟨t₁, w₁⟩ b ⟨t₂, w₂⟩ hw₁ hstep
  rcases Thread.store_of_step hstep with hsame | ⟨ws, -, -, -, happly⟩
  · dsimp only
    rwa [hsame]
  · dsimp only
    rw [happly]
    exact hI _ _ hw₁

end Writes

end Program
