import Kanban.Lib.Solo

/-!
# Facts that last

Between its commits a program reads, calls the service and collects the writes of a transaction.  A
fact that the environment keeps, and that such steps keep, holds all the way: what matters is only what
the program returns and what its commits do.

## Main definitions

* `Yields` — what a program returns, if it returns a value.
* `Lasts` — a fact that the environment and the steps that commit nothing keep.
* `Lasts.of_only_nil`, `Lasts.of_strict`, … — programs that commit nothing.
-/

namespace Program

variable {σ ρ Call : Type} {Reply : Call → Type} {ε α β χ μ : Type}

/-- Every value that `p` returns meets `Q`. -/
def Yields (M : Semantics σ ρ Call Reply χ μ) (R : Rely σ ρ Call Reply χ)
    (G : Guarantee σ ρ Call Reply χ) (p : Prog σ ρ Call Reply ε α) (tx : Tx ρ)
    (tr : Trace ρ Call Reply) (w : World σ χ)
    (Q : α → Tx ρ → Trace ρ Call Reply → World σ χ → Prop) : Prop :=
  Ensures M R G (fun r tx tr w => ∀ a, r = .ok a → Q a tx tr w) p tx tr w

/-- A fact that the environment keeps, and every step that commits nothing. -/
structure Lasts (R : Rely σ ρ Call Reply χ) (G : Guarantee σ ρ Call Reply χ)
    (I : Trace ρ Call Reply → World σ χ → Prop) : Prop where
  wait : ∀ {tr w w'}, I tr w → R tr w w' → I tr w'
  event : ∀ {e tr w w'}, I tr w → (∀ ws, e ≠ .committed ws) → w'.store = w.store →
    G tr w (e :: tr) w' ∧ I (e :: tr) w'
  read : ∀ rows {tr w}, I tr w → G tr w (.committed [] :: .ran rows :: tr) w ∧
    I (.committed [] :: .ran rows :: tr) w

section Rules

variable {M : Semantics σ ρ Call Reply χ μ} {R : Rely σ ρ Call Reply χ}
  {G : Guarantee σ ρ Call Reply χ} {tx : Tx ρ} {tr : Trace ρ Call Reply} {w : World σ χ}
  {ws : List (Write ρ)} {Q : α → Tx ρ → Trace ρ Call Reply → World σ χ → Prop}

theorem yields_pure {a : α} (h : Q a tx tr w) :
    Yields M R G (.pure a : Prog σ ρ Call Reply ε α) tx tr w Q := by
  rintro b ⟨⟩
  exact h

theorem yields_fail {e : ε} : Yields M R G (.fail e : Prog σ ρ Call Reply ε α) tx tr w Q := by
  rintro b ⟨⟩

theorem yields_bind {Q : β → Tx ρ → Trace ρ Call Reply → World σ χ → Prop}
    {p : Prog σ ρ Call Reply ε α} {f : α → Prog σ ρ Call Reply ε β}
    (h : Yields M R G p tx tr w fun a tx tr w => Yields M R G (f a) tx tr w Q) :
    Yields M R G (p.bind f) tx tr w Q := by
  unfold Yields
  rw [ensures_bind]
  refine Ensures.post_mono h fun r tx' tr' w' hr => ?_
  cases r with
  | ok a => exact hr a rfl
  | error e => exact fun _ he => by cases he

theorem Yields.mono {Q' : α → Tx ρ → Trace ρ Call Reply → World σ χ → Prop}
    {p : Prog σ ρ Call Reply ε α} (h : Yields M R G p tx tr w Q)
    (hQ : ∀ a tx tr w, Q a tx tr w → Q' a tx tr w) : Yields M R G p tx tr w Q' :=
  Ensures.post_mono h fun _ _ _ _ hr a ha => hQ a _ _ _ (hr a ha)

namespace Lasts

variable {I : Trace ρ Call Reply → World σ χ → Prop} (hI : Lasts R G I)

include hI

theorem failed (h : I tr w) : I (.failed :: tr) w := (hI.event h (by simp) rfl).2

/-- A statement outside of a transaction that reads. -/
theorem query_idle {st : Stmt σ ρ β} {k : Option β → Prog σ ρ Call Reply ε α}
    (hs : ∀ db e, st db = some e → e.writes = []) (h : I tr w)
    (hok : ∀ w₁ e, st w₁.store = some e → I (.committed [] :: .ran e.read :: tr) w₁ →
      Yields M R G (k (some e.answer)) .idle (.committed [] :: .ran e.read :: tr) w₁ Q)
    (hfail : ∀ w₁, I (.failed :: tr) w₁ → Yields M R G (k none) .idle (.failed :: tr) w₁ Q) :
    Yields M R G (.stmt st k) .idle tr w Q := by
  intro w₁ hw
  have h₁ := hI.wait h hw
  refine ⟨fun e he => ?_, hfail w₁ (hI.failed h₁)⟩
  rw [Tx.note_idle, Tx.land_idle, hs _ e he]
  obtain ⟨hg, h₂⟩ := hI.read e.read h₁
  exact ⟨hg, hok w₁ e he h₂⟩

/-- A statement in a transaction sees the store with the writes that wait. -/
theorem query_active {st : Stmt σ ρ β} {k : Option β → Prog σ ρ Call Reply ε α} (h : I tr w)
    (hok : ∀ w₁ e, st (M.applyAll w₁.store ws) = some e → I (.ran e.read :: tr) w₁ →
      Yields M R G (k (some e.answer)) (.active (ws ++ e.writes)) (.ran e.read :: tr) w₁ Q)
    (hfail : ∀ w₁, I (.failed :: tr) w₁ → Yields M R G (k none) .aborted (.failed :: tr) w₁ Q) :
    Yields M R G (.stmt st k) (.active ws) tr w Q := by
  intro w₁ hw
  have h₁ := hI.wait h hw
  refine ⟨fun e he => ?_, hfail w₁ (hI.failed h₁)⟩
  obtain ⟨hg, h₂⟩ := hI.event (e := .ran e.read) h₁ (by simp) rfl
  exact ⟨hg, hok w₁ e he h₂⟩

/-- An aborted transaction rejects every statement. -/
theorem query_aborted {st : Stmt σ ρ β} {k : Option β → Prog σ ρ Call Reply ε α} (h : I tr w)
    (hfail : ∀ w₁, I (.failed :: tr) w₁ → Yields M R G (k none) .aborted (.failed :: tr) w₁ Q) :
    Yields M R G (.stmt st k) .aborted tr w Q := by
  intro w₁ hw
  exact ⟨fun e he => absurd he (by simp), hfail w₁ (hI.failed (hI.wait h hw))⟩

theorem begin {k : Bool → Prog σ ρ Call Reply ε α} (h : I tr w)
    (hok : ∀ w₁, I tr w₁ → Yields M R G (k true) (.active []) tr w₁ Q)
    (hfail : ∀ w₁, I (.failed :: tr) w₁ → Yields M R G (k false) .idle (.failed :: tr) w₁ Q) :
    Yields M R G (.begin k) tx tr w Q := fun w₁ hw =>
  ⟨hok w₁ (hI.wait h hw), hfail w₁ (hI.failed (hI.wait h hw))⟩

/-- What a commit does is up to its writes. -/
theorem commit {k : Bool → Prog σ ρ Call Reply ε α} (h : I tr w)
    (hok : ∀ w₁, I tr w₁ →
      G tr w₁ (.committed ws :: tr) { w₁ with store := M.applyAll w₁.store ws } ∧
      Yields M R G (k true) .idle (.committed ws :: tr)
        { w₁ with store := M.applyAll w₁.store ws } Q)
    (hfail : ∀ w₁, I (.failed :: tr) w₁ → Yields M R G (k false) .idle (.failed :: tr) w₁ Q) :
    Yields M R G (.commit k) (.active ws) tr w Q := fun w₁ hw =>
  ⟨hok w₁ (hI.wait h hw), hfail w₁ (hI.failed (hI.wait h hw))⟩

theorem call {c : Call} {k : Reply c → Prog σ ρ Call Reply ε α} (h : I tr w)
    (hk : ∀ r w₁, I (.called c r :: tr) w₁ → Yields M R G (k r) tx (.called c r :: tr) w₁ Q) :
    Yields M R G (.call c k) tx tr w Q := by
  intro w₁ hw m r hr
  have hstore : (⟨w₁.store, r.2⟩ : World σ χ).store = w₁.store := rfl
  obtain ⟨hg, h₁⟩ := hI.event (e := .called c r.1) (hI.wait h hw) (by simp) hstore
  exact ⟨hg, hk r.1 _ h₁⟩

/-- A program without transactions and without writes, outside of every transaction. -/
theorem of_only_nil {p : Prog σ ρ Call Reply ε α} (hp : p.Only (· = [])) (h : I tr w) :
    Yields M R G p .idle tr w fun _ tx tr' w' => tx = .idle ∧ I tr' w' := by
  induction p generalizing tr w with
  | pure a => exact yields_pure ⟨rfl, h⟩
  | fail e => exact yields_fail
  | stmt st k ih =>
      exact hI.query_idle hp.1 h (fun w₁ e _ h₁ => ih _ (hp.2 _) h₁) fun w₁ h₁ => ih _ (hp.2 _) h₁
  | begin k => exact hp.elim
  | commit k => exact hp.elim
  | call c k ih => exact hI.call h fun r w₁ h₁ => ih r (hp r) h₁

/-- A program without transactions, in an aborted transaction. -/
theorem of_only_aborted {S : List (Write ρ) → Prop} {p : Prog σ ρ Call Reply ε α} (hp : p.Only S)
    (h : I tr w) : Yields M R G p .aborted tr w fun _ tx tr' w' => tx = .aborted ∧ I tr' w' := by
  induction p generalizing tr w with
  | pure a => exact yields_pure ⟨rfl, h⟩
  | fail e => exact yields_fail
  | stmt st k ih => exact hI.query_aborted h fun w₁ h₁ => ih _ (hp.2 _) h₁
  | begin k => exact hp.elim
  | commit k => exact hp.elim
  | call c k ih => exact hI.call h fun r w₁ h₁ => ih r (hp r) h₁

/-- A part of a transaction that stops at the first statement that fails. -/
theorem of_strict {S : List (Write ρ) → Prop} {p : Prog σ ρ Call Reply ε α} (hp : p.Strict S)
    (h : I tr w) (hnil : S []) (happend : ∀ ws ws', S ws → S ws' → S (ws ++ ws')) :
    Yields M R G p (.active ws) tr w fun _ tx tr' w' =>
      I tr' w' ∧ ∃ ws', tx = .active (ws ++ ws') ∧ S ws' := by
  have key : ∀ ws₁, S ws₁ → ∀ tr' w', I tr' w' → Yields M R G p (.active (ws ++ ws₁)) tr' w'
      fun _ tx tr'' w'' => I tr'' w'' ∧ ∃ ws', tx = .active (ws ++ ws') ∧ S ws' := by
    induction p with
    | pure a => exact fun ws₁ hws tr' w' h' => yields_pure ⟨h', ws₁, rfl, hws⟩
    | fail e => exact fun ws₁ hws tr' w' h' => yields_fail
    | stmt st k ih =>
        intro ws₁ hws tr' w' h'
        obtain ⟨hs, ⟨e', he'⟩, hk⟩ := hp
        refine hI.query_active h' (fun w₁ e he h₁ => ?_) fun w₁ h₁ => he' ▸ yields_fail
        rw [List.append_assoc]
        exact ih _ (hk _) _ (happend _ _ hws (hs _ e he)) _ _ h₁
    | begin k => exact hp.elim
    | commit k => exact hp.elim
    | call c k ih =>
        exact fun ws₁ hws tr' w' h' => hI.call h' fun r w₁ h₁ => ih r (hp r) ws₁ hws _ _ h₁
  have := key [] hnil tr w h
  rwa [List.append_nil] at this

end Lasts

end Rules

end Program
