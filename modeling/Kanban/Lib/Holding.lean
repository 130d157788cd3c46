import Kanban.Lib.Commit
import Kanban.Lib.Solo

/-!
# Calls that hold a part of the store

A call reads a part of the store and later commits to it.  In between it holds the part, without a
lock that would keep the others away.  In the runs in which no other call happens to commit to a
part that is held, each call sees its parts as if it ran alone.

## Main definitions

* `Holding` — the parts of a store, and when a call holds them.
* `Holding.Undisturbed` — a turn that commits to no part that another call holds.
* `Holding.Inside`, `Holding.Outside` — a call before its commit, which may hold parts, and after.
* `Holding.Runs` — how a call goes on, with a rule for each construct.
* `Holding.undisturbed` — the runs of undisturbed turns.
-/

namespace Program

variable {σ ρ Call : Type} {Reply : Call → Type} {ε α β χ μ κ π : Type}

/-- The parts of a store.  Two stores can be the same at a part, the writes of a commit touch some
parts, and a call holds some after a trace.  `Sane` and `Grows` are what all calls keep. -/
structure Holding (M : Semantics σ ρ Call Reply χ μ) (κ π : Type) where
  Same : π → σ → σ → Prop
  touched : σ → List (Write ρ) → List π
  held : κ → Trace ρ Call Reply → List π
  Sane : σ → Prop
  Grows : σ → σ → Prop
  same_refl : ∀ k s, Same k s s
  same_trans : ∀ k s s' s'', Same k s s' → Same k s' s'' → Same k s s''
  same_of_not_touched : ∀ k s ws, k ∉ touched s ws → Same k s (M.applyAll s ws)
  grows_refl : ∀ s, Grows s s
  grows_trans : ∀ s s' s'', Grows s s' → Grows s' s'' → Grows s s''
  held_failed : ∀ q tr, held q tr ⊆ held q (.failed :: tr)
  held_ran : ∀ q tr read, held q tr ⊆ held q (.ran read :: tr)
  held_called : ∀ q tr c r, held q tr ⊆ held q (.called c r :: tr)
  held_nothing : ∀ q tr, held q tr ⊆ held q (.committed [] :: tr)

namespace Holding

variable {M : Semantics σ ρ Call Reply χ μ} (H : Holding M κ π)

/-- The parts that a call holds stay the same. -/
def rely (q : κ) : Rely σ ρ Call Reply χ := fun tr w w₁ =>
  (∀ k ∈ H.held q tr, H.Same k w.store w₁.store) ∧ H.Grows w.store w₁.store ∧
    (H.Sane w.store → H.Sane w₁.store)

/-- A call changes the store by commits only, and keeps it sane. -/
def guarantee : Guarantee σ ρ Call Reply χ := fun tr w tr' w' =>
  Commits M (fun _ _ => True) tr w tr' w' ∧ H.Grows w.store w'.store ∧
    (H.Sane w.store → H.Sane w'.store)

/-- The turn commits to no part that another call holds. -/
def Undisturbed (P : Pool κ σ ρ Call Reply χ ε α) : Turn κ μ → Prop
  | .act i b => ∀ c ∈ P.commitOf M (.act i b), ∀ d ∈ P.calls.eraseIdx i,
      d.2.prog.result.isNone → ∀ k ∈ H.held d.1 d.2.trace, k ∉ H.touched P.world.store c.2.2
  | _ => True

instance [DecidableEq π] {P : Pool κ σ ρ Call Reply χ ε α} {a : Turn κ μ} :
    Decidable (H.Undisturbed P a) :=
  match a with
  | .act i b => inferInstanceAs (Decidable (∀ c ∈ P.commitOf M (.act i b), _))
  | .arrive _ => .isTrue trivial
  | .crash _ => .isTrue trivial

/-- How `p` goes on, in the midst of calls that do not disturb it. -/
def Runs (q : κ) (p : Prog σ ρ Call Reply ε α) (tx : Tx ρ) (tr : Trace ρ Call Reply)
    (w : World σ χ) (Q : α → Tx ρ → Trace ρ Call Reply → World σ χ → Prop) : Prop :=
  Ensures M (H.rely q) H.guarantee (fun r tx tr w => ∀ a, r = .ok a → Q a tx tr w) p tx tr w

/-- The call has not committed anything yet, and holds the parts `D`, which are still those of the
store `s`. -/
structure Inside (q : κ) (D : π → Prop) (s : σ) (tr : Trace ρ Call Reply) (w : World σ χ) :
    Prop where
  uncommitted : ∀ ws, .committed ws ∈ tr → ws = []
  held : ∀ k, D k → k ∈ H.held q tr
  same : ∀ k, D k → H.Same k s w.store
  grows : H.Grows s w.store
  sane : H.Sane w.store

/-- The call holds nothing. -/
structure Outside (s : σ) (w : World σ χ) : Prop where
  grows : H.Grows s w.store
  sane : H.Sane w.store

variable {H} {q : κ} {D : π → Prop} {s : σ} {tr : Trace ρ Call Reply} {w w₁ : World σ χ}
  {tx : Tx ρ} {ws : List (Write ρ)} {Q : α → Tx ρ → Trace ρ Call Reply → World σ χ → Prop}

namespace Inside

/-- What the call relies on is enough. -/
theorem wait (h : H.Inside q D s tr w) (hw : H.rely q tr w w₁) : H.Inside q D s tr w₁ where
  uncommitted := h.uncommitted
  held := h.held
  same k hk := H.same_trans _ _ _ _ (h.same k hk) (hw.1 k (h.held k hk))
  grows := H.grows_trans _ _ _ h.grows hw.2.1
  sane := hw.2.2 h.sane

theorem failed (h : H.Inside q D s tr w) : H.Inside q D s (.failed :: tr) w :=
  { h with
    uncommitted := fun ws hws => h.uncommitted ws (by simpa using hws)
    held := fun k hk => H.held_failed q tr (h.held k hk) }

theorem ran (h : H.Inside q D s tr w) (read : List ρ) : H.Inside q D s (.ran read :: tr) w :=
  { h with
    uncommitted := fun ws hws => h.uncommitted ws (by simpa using hws)
    held := fun k hk => H.held_ran q tr read (h.held k hk) }

theorem called (h : H.Inside q D s tr w) (c : Call) (r : Reply c) (ext : χ) :
    H.Inside q D s (.called c r :: tr) ⟨w.store, ext⟩ :=
  ⟨fun ws hws => h.uncommitted ws (by simpa using hws),
    fun k hk => H.held_called q tr c r (h.held k hk), h.same, h.grows, h.sane⟩

theorem nothing (h : H.Inside q D s tr w) : H.Inside q D s (.committed [] :: tr) w :=
  { h with
    uncommitted := fun ws hws => by
      rcases List.mem_cons.mp hws with heq | hws
      · cases heq
        rfl
      · exact h.uncommitted ws hws
    held := fun k hk => H.held_nothing q tr (h.held k hk) }

/-- What the call holds is read now. -/
theorem enter {D' : π → Prop} (h : H.Inside q D s tr w) (hheld : ∀ k, D' k → k ∈ H.held q tr) :
    H.Inside q D' w.store tr w :=
  ⟨h.uncommitted, hheld, fun k _ => H.same_refl k _, H.grows_refl _, h.sane⟩

/-- A call that has just arrived. -/
theorem start (hsane : H.Sane w.store) : H.Inside q (fun _ => False) w.store [] w :=
  ⟨nofun, nofun, nofun, H.grows_refl _, hsane⟩

theorem outside (h : H.Inside q D s tr w) : H.Outside s w := ⟨h.grows, h.sane⟩

end Inside

theorem Outside.wait (h : H.Outside s w) (hw : H.rely q tr w w₁) : H.Outside s w₁ :=
  ⟨H.grows_trans _ _ _ h.grows hw.2.1, hw.2.2 h.sane⟩

/-! ## Rules -/

theorem runs_pure {a : α} (h : Q a tx tr w) :
    H.Runs q (.pure a : Prog σ ρ Call Reply ε α) tx tr w Q := by
  rintro b ⟨⟩
  exact h

theorem runs_fail {e : ε} : H.Runs q (.fail e : Prog σ ρ Call Reply ε α) tx tr w Q := by
  rintro b ⟨⟩

theorem runs_bind {Q : β → Tx ρ → Trace ρ Call Reply → World σ χ → Prop}
    {p : Prog σ ρ Call Reply ε α} {f : α → Prog σ ρ Call Reply ε β}
    (h : H.Runs q p tx tr w fun a tx tr w => H.Runs q (f a) tx tr w Q) :
    H.Runs q (p.bind f) tx tr w Q := by
  unfold Runs
  rw [ensures_bind]
  refine Ensures.post_mono h ?_
  intro r tx' tr' w' hr
  cases r with
  | ok a => exact hr a rfl
  | error e => exact fun _ he => by cases he

theorem Runs.mono {Q' : α → Tx ρ → Trace ρ Call Reply → World σ χ → Prop}
    {p : Prog σ ρ Call Reply ε α} (h : H.Runs q p tx tr w Q)
    (hQ : ∀ a tx tr w, Q a tx tr w → Q' a tx tr w) : H.Runs q p tx tr w Q' :=
  Ensures.post_mono h fun _ _ _ _ hr a ha => hQ a _ _ _ (hr a ha)

/-- A step that commits nothing. -/
theorem guarantee_of_ne {e : Event ρ Call Reply} {w' : World σ χ} (he : ∀ ws, e ≠ .committed ws)
    (hstore : w'.store = w.store) : H.guarantee tr w (e :: tr) w' := by
  refine ⟨.inl ⟨e, rfl, he, hstore⟩, ?_, ?_⟩ <;> rw [hstore]
  · exact H.grows_refl _
  · exact id

/-- A statement outside of a transaction that reads. -/
theorem runs_read {st : Stmt σ ρ β} {k : Option β → Prog σ ρ Call Reply ε α}
    (hs : ∀ db e, st db = some e → e.writes = []) (h : H.Inside q D s tr w)
    (hok : ∀ w₁ e, st w₁.store = some e →
      H.Inside q D s (.committed [] :: .ran e.read :: tr) w₁ →
      H.Runs q (k (some e.answer)) .idle (.committed [] :: .ran e.read :: tr) w₁ Q)
    (hfail : ∀ w₁, H.Inside q D s (.failed :: tr) w₁ → H.Runs q (k none) .idle (.failed :: tr) w₁ Q) :
    H.Runs q (.stmt st k) .idle tr w Q := by
  intro w₁ hw
  have h₁ := h.wait hw
  refine ⟨fun e he => ?_, hfail w₁ h₁.failed⟩
  rw [Tx.note_idle, Tx.land_idle, hs _ e he]
  exact ⟨⟨.inr ⟨_, _, rfl, .inr ⟨_, rfl⟩, trivial, rfl⟩, H.grows_refl _, id⟩,
    hok w₁ e he (h₁.ran _).nothing⟩

/-- A statement in a transaction sees the store with the writes that wait. -/
theorem runs_stmt {st : Stmt σ ρ β} {k : Option β → Prog σ ρ Call Reply ε α}
    (h : H.Inside q D s tr w)
    (hok : ∀ w₁ e, st (M.applyAll w₁.store ws) = some e → H.Inside q D s (.ran e.read :: tr) w₁ →
      H.Runs q (k (some e.answer)) (.active (ws ++ e.writes)) (.ran e.read :: tr) w₁ Q)
    (hfail : ∀ w₁, H.Inside q D s (.failed :: tr) w₁ →
      H.Runs q (k none) .aborted (.failed :: tr) w₁ Q) :
    H.Runs q (.stmt st k) (.active ws) tr w Q := by
  intro w₁ hw
  have h₁ := h.wait hw
  exact ⟨fun e he => ⟨guarantee_of_ne nofun rfl, hok w₁ e he (h₁.ran _)⟩, hfail w₁ h₁.failed⟩

/-- An aborted transaction rejects every statement. -/
theorem runs_stmt_aborted {st : Stmt σ ρ β} {k : Option β → Prog σ ρ Call Reply ε α}
    (h : H.Inside q D s tr w)
    (hfail : ∀ w₁, H.Inside q D s (.failed :: tr) w₁ →
      H.Runs q (k none) .aborted (.failed :: tr) w₁ Q) : H.Runs q (.stmt st k) .aborted tr w Q := by
  intro w₁ hw
  exact ⟨fun e he => absurd he (by simp), hfail w₁ (h.wait hw).failed⟩

theorem runs_begin {k : Bool → Prog σ ρ Call Reply ε α} (h : H.Inside q D s tr w)
    (hok : ∀ w₁, H.Inside q D s tr w₁ → H.Runs q (k true) (.active []) tr w₁ Q)
    (hfail : ∀ w₁, H.Inside q D s (.failed :: tr) w₁ → H.Runs q (k false) .idle (.failed :: tr) w₁ Q) :
    H.Runs q (.begin k) tx tr w Q :=
  fun w₁ hw => ⟨hok w₁ (h.wait hw), hfail w₁ (h.wait hw).failed⟩

/-- The commit has to keep the store sane. -/
theorem runs_commit {k : Bool → Prog σ ρ Call Reply ε α} (h : H.Inside q D s tr w)
    (hgood : ∀ w₁, H.Inside q D s tr w₁ →
      H.Grows w₁.store (M.applyAll w₁.store ws) ∧ H.Sane (M.applyAll w₁.store ws))
    (hok : ∀ w₁, H.Outside s w₁ → H.Runs q (k true) .idle (.committed ws :: tr) w₁ Q)
    (hfail : ∀ w₁, H.Inside q D s (.failed :: tr) w₁ → H.Runs q (k false) .idle (.failed :: tr) w₁ Q) :
    H.Runs q (.commit k) (.active ws) tr w Q := by
  intro w₁ hw
  have h₁ := h.wait hw
  obtain ⟨hgrows, hsane⟩ := hgood w₁ h₁
  exact ⟨⟨⟨.inr ⟨ws, tr, rfl, .inl rfl, trivial, rfl⟩, hgrows, fun _ => hsane⟩,
    hok _ ⟨H.grows_trans _ _ _ h₁.grows hgrows, hsane⟩⟩, hfail w₁ h₁.failed⟩

theorem runs_call {c : Call} {k : Reply c → Prog σ ρ Call Reply ε α} (h : H.Inside q D s tr w)
    (hk : ∀ r w₁, H.Inside q D s (.called c r :: tr) w₁ →
      H.Runs q (k r) tx (.called c r :: tr) w₁ Q) : H.Runs q (.call c k) tx tr w Q := by
  intro w₁ hw m r hr
  exact ⟨guarantee_of_ne nofun rfl, hk r.1 _ ((h.wait hw).called c r.1 r.2)⟩

/-- A program without transactions and without writes, outside of every transaction. -/
theorem Runs.of_only_nil {p : Prog σ ρ Call Reply ε α} (hp : p.Only (· = []))
    (h : H.Inside q D s tr w) : H.Runs q p .idle tr w fun _ tx tr' w' =>
      tx = .idle ∧ tr <:+ tr' ∧ H.Inside q D s tr' w' := by
  have key : ∀ tr', tr <:+ tr' → ∀ w', H.Inside q D s tr' w' → H.Runs q p .idle tr' w'
      fun _ tx tr'' w'' => tx = .idle ∧ tr <:+ tr'' ∧ H.Inside q D s tr'' w'' := by
    induction p with
    | pure a => exact fun tr' htr w' h' => runs_pure ⟨rfl, htr, h'⟩
    | fail e => exact fun tr' htr w' h' => runs_fail
    | stmt st k ih =>
        exact fun tr' htr w' h' => runs_read hp.1 h'
          (fun w₁ e _ h₁ => ih _ (hp.2 _) _ (htr.trans ⟨[.committed [], .ran e.read], rfl⟩) _ h₁)
          fun w₁ h₁ => ih _ (hp.2 _) _ (htr.trans (List.suffix_cons _ _)) _ h₁
    | begin k => exact hp.elim
    | commit k => exact hp.elim
    | call c k ih =>
        exact fun tr' htr w' h' => runs_call h' fun r w₁ h₁ =>
          ih r (hp r) _ (htr.trans (List.suffix_cons _ _)) _ h₁
  exact key tr List.suffix_rfl w h

/-- A program without transactions, in an aborted transaction. -/
theorem Runs.of_only_aborted {S : List (Write ρ) → Prop} {p : Prog σ ρ Call Reply ε α}
    (hp : p.Only S) (h : H.Inside q D s tr w) :
    H.Runs q p .aborted tr w fun _ tx tr' w' => tx = .aborted ∧ H.Inside q D s tr' w' := by
  induction p generalizing tr w with
  | pure a => exact runs_pure ⟨rfl, h⟩
  | fail e => exact runs_fail
  | stmt st k ih => exact runs_stmt_aborted h fun w₁ h₁ => ih _ (hp.2 _) h₁
  | begin k => exact hp.elim
  | commit k => exact hp.elim
  | call c k ih => exact runs_call h fun r w₁ h₁ => ih r (hp r) h₁

/-- A part of a transaction that stops at the first statement that fails. -/
theorem Runs.of_strict {S : List (Write ρ) → Prop} {p : Prog σ ρ Call Reply ε α} (hp : p.Strict S)
    (h : H.Inside q D s tr w) (hnil : S []) (happend : ∀ ws ws', S ws → S ws' → S (ws ++ ws')) :
    H.Runs q p (.active ws) tr w fun _ tx tr' w' => tr <:+ tr' ∧ H.Inside q D s tr' w' ∧
      ∃ ws', tx = .active (ws ++ ws') ∧ S ws' := by
  have key : ∀ ws₁, S ws₁ → ∀ tr', tr <:+ tr' → ∀ w', H.Inside q D s tr' w' →
      H.Runs q p (.active (ws ++ ws₁)) tr' w' fun _ tx tr'' w'' =>
        tr <:+ tr'' ∧ H.Inside q D s tr'' w'' ∧ ∃ ws', tx = .active (ws ++ ws') ∧ S ws' := by
    induction p with
    | pure a => exact fun ws₁ hws tr' htr w' h' => runs_pure ⟨htr, h', ws₁, rfl, hws⟩
    | fail e => exact fun ws₁ hws tr' htr w' h' => runs_fail
    | stmt st k ih =>
        intro ws₁ hws tr' htr w' h'
        obtain ⟨hs, ⟨e', he'⟩, hk⟩ := hp
        refine runs_stmt h' (fun w₁ e he h₁ => ?_) fun w₁ h₁ => he' ▸ runs_fail
        rw [List.append_assoc]
        exact ih _ (hk _) _ (happend _ _ hws (hs _ e he)) _ (htr.trans (List.suffix_cons _ _)) _ h₁
    | begin k => exact hp.elim
    | commit k => exact hp.elim
    | call c k ih =>
        exact fun ws₁ hws tr' htr w' h' => runs_call h' fun r w₁ h₁ =>
          ih r (hp r) ws₁ hws _ (htr.trans (List.suffix_cons _ _)) _ h₁
  have := key [] hnil tr List.suffix_rfl w h
  rwa [List.append_nil] at this

/-- What a call does after its commit: its writes disturb nothing. -/
theorem Runs.of_only_outside {S : List (Write ρ) → Prop} {p : Prog σ ρ Call Reply ε α}
    (hp : p.Only S) (h : H.Outside s w)
    (hS : ∀ v ws, S ws → H.Sane v → H.Grows v (M.applyAll v ws) ∧ H.Sane (M.applyAll v ws)) :
    H.Runs q p .idle tr w fun _ tx _ w' => tx = .idle ∧ H.Outside s w' := by
  induction p generalizing tr w with
  | pure a => exact runs_pure ⟨rfl, h⟩
  | fail e => exact runs_fail
  | stmt st k ih =>
      intro w₁ hw
      have h₁ := h.wait hw
      refine ⟨fun e he => ?_, ih _ (hp.2 _) h₁⟩
      obtain ⟨hgrows, hsane⟩ := hS _ _ (hp.1 _ e he) h₁.sane
      exact ⟨⟨.inr ⟨_, _, rfl, .inr ⟨_, rfl⟩, trivial, rfl⟩, hgrows, fun _ => hsane⟩,
        ih _ (hp.2 _) ⟨H.grows_trans _ _ _ h₁.grows hgrows, hsane⟩⟩
  | begin k => exact hp.elim
  | commit k => exact hp.elim
  | call c k ih =>
      intro w₁ hw m r hr
      exact ⟨guarantee_of_ne nofun rfl, ih r.1 (hp r.1) ⟨(h.wait hw).grows, (h.wait hw).sane⟩⟩

/-- What is read after the commit. -/
theorem runs_read_outside {st : Stmt σ ρ β} {k : Option β → Prog σ ρ Call Reply ε α}
    (hs : ∀ db e, st db = some e → e.writes = []) (h : H.Outside s w)
    (hok : ∀ w₁ tr' e, st w₁.store = some e → H.Outside s w₁ →
      H.Runs q (k (some e.answer)) .idle tr' w₁ Q)
    (hfail : ∀ w₁ tr', H.Outside s w₁ → H.Runs q (k none) .idle tr' w₁ Q) :
    H.Runs q (.stmt st k) .idle tr w Q := by
  intro w₁ hw
  have h₁ := h.wait hw
  refine ⟨fun e he => ?_, hfail w₁ _ h₁⟩
  rw [Tx.note_idle, Tx.land_idle, hs _ e he]
  exact ⟨⟨.inr ⟨_, _, rfl, .inr ⟨_, rfl⟩, trivial, rfl⟩, H.grows_refl _, id⟩, hok w₁ _ e he h₁⟩

/-! ## Undisturbed runs -/

section Pools

variable {handler : κ → Prog σ ρ Call Reply ε α} {P₀ P : Pool κ σ ρ Call Reply χ ε α}
  {turns : List (Turn κ μ)} {Q : κ → α → Tx ρ → Trace ρ Call Reply → World σ χ → Prop}

theorem rely_refl : H.rely q tr w w := ⟨fun k _ => H.same_refl k _, H.grows_refl _, id⟩

theorem rely_trans {w₂ : World σ χ} (h : H.rely q tr w w₁) (h' : H.rely q tr w₁ w₂) :
    H.rely q tr w w₂ :=
  ⟨fun k hk => H.same_trans _ _ _ _ (h.1 k hk) (h'.1 k hk), H.grows_trans _ _ _ h.2.1 h'.2.1,
    fun hs => h'.2.2 (h.2.2 hs)⟩

/-- What is known of a call in an undisturbed run. -/
def Meets (H : Holding M κ π) (Q : κ → α → Tx ρ → Trace ρ Call Reply → World σ χ → Prop)
    (c : κ × Thread σ ρ Call Reply ε α) (w : World σ χ) : Prop :=
  ∃ w₀, (c.2.prog.result = none → H.rely c.1 c.2.trace w₀ w) ∧ H.Grows w₀.store w.store ∧
    c.2.Meets M (H.rely c.1) H.guarantee (fun r tx tr w => ∀ a, r = .ok a → Q c.1 a tx tr w) w₀

/-- **The rule of undisturbed runs.**  If no turn commits to a part that another call holds, the
store stays sane and every call meets its specification. -/
theorem undisturbed (hspec : ∀ q w, H.Sane w.store → H.Runs q (handler q) .idle [] w (Q q))
    (hrun : Machine.ExecWhile (Pool.step M handler) H.Undisturbed P₀ turns P) (h₀ : P₀.calls = [])
    (hsane : H.Sane P₀.world.store) :
    H.Sane P.world.store ∧ ∀ c ∈ P.calls, H.Meets Q c P.world := by
  refine hrun.invariant (fun P => H.Sane P.world.store ∧ ∀ c ∈ P.calls, H.Meets Q c P.world)
    ⟨hsane, by simp [h₀]⟩ ?_
  rintro P a P' ⟨hP, hcalls⟩ hC hs
  rcases Pool.step_cases hs with ⟨q, rfl, rfl⟩ | ⟨i, b, q, t, t', w', rfl, hi, hst, rfl⟩ |
    ⟨i, c, rfl, -, -, rfl⟩
  · refine ⟨hP, fun c hc => ?_⟩
    rcases List.mem_append.mp hc with hc | hc
    · exact hcalls c hc
    · rw [List.mem_singleton.mp hc]
      exact ⟨P.world, fun _ => rely_refl, H.grows_refl _, hspec q P.world hP⟩
  · obtain ⟨w₀, hw, -, hm⟩ := hcalls _ (List.mem_of_getElem? hi)
    obtain ⟨hm', hstep⟩ := hm.step (hw (Thread.result_of_step hst)) hst
    have hkeep : H.Grows P.world.store w'.store ∧ (H.Sane P.world.store → H.Sane w'.store) := by
      rcases hstep with ⟨-, rfl⟩ | ⟨-, hgrows, hsane⟩
      · exact ⟨H.grows_refl _, id⟩
      · exact ⟨hgrows, hsane⟩
    refine ⟨hkeep.2 hP, fun c hc => ?_⟩
    obtain ⟨hlt, -⟩ := List.getElem?_eq_some_iff.mp hi
    obtain ⟨j, hget⟩ := List.getElem?_of_mem hc
    by_cases hij : i = j
    · subst hij
      rw [List.getElem?_set_self hlt] at hget
      cases hget
      exact ⟨w', fun _ => rely_refl, H.grows_refl _, hm'⟩
    · have hold : P.calls[j]? = some c := by rwa [List.getElem?_set_ne hij] at hget
      obtain ⟨w₂, hw₂, hgrows, hm₂⟩ := hcalls c (List.mem_of_getElem? hold)
      refine ⟨w₂, fun hnone => rely_trans (hw₂ hnone) ⟨fun k hk => ?_, hkeep⟩,
        H.grows_trans _ _ _ hgrows hkeep.1, hm₂⟩
      rcases hstep with ⟨-, rfl⟩ | ⟨⟨e, -, -, hsame⟩ | ⟨ws, past, htr, hpast, -, happly⟩, -⟩
      · exact H.same_refl _ _
      · rw [hsame]
        exact H.same_refl _ _
      · rw [happly]
        have hmem : c ∈ P.calls.eraseIdx i :=
          List.mem_eraseIdx_iff_getElem?.mpr ⟨j, Ne.symm hij, hold⟩
        exact H.same_of_not_touched _ _ _ (hC _ (Pool.commitOf_eq_some hi hst htr hpast) c hmem
          (Option.isNone_iff_eq_none.mpr hnone) k hk)
  · exact ⟨hP, fun c hc => hcalls c (List.mem_of_mem_eraseIdx hc)⟩

end Pools

end Holding

end Program
