import Kanban.Lib.Program

/-!
# What one call leaves behind

A call that runs alone sees the store as it left it itself.  So its statements can be followed one
by one, inside a transaction over the writes that wait, and what it leaves behind is known exactly:
the store that it found, or one that a commit of it made.

## Main definitions

* `Solo` — the judgement, with a rule for each construct.
* `Solo.exec` — its soundness.
* `SoloIn`, `SoloTx` — the same in a transaction, over the store that its statements see.
* `Prog.Strict` — a program that stops at the first statement that fails.
-/

namespace Program

variable {σ ρ Call : Type} {Reply : Call → Type} {ε α β χ μ : Type}

/-- A step leaves the store as it is, or as `E` says. -/
def Leaving (E : σ → Prop) : Guarantee σ ρ Call Reply χ := fun _ w _ w' =>
  w'.store = w.store ∨ E w'.store

/-- What `p` does when it goes on alone from the transaction `tx` over the store `s`: every store
that it makes on the way meets `E`, and `Q` holds of what it returns. -/
def Solo (M : Semantics σ ρ Call Reply χ μ) (E : σ → Prop) (p : Prog σ ρ Call Reply ε α) (tx : Tx ρ)
    (s : σ) (Q : α → Tx ρ → σ → Prop) : Prop :=
  ∀ tr ext, Ensures M Alone (Leaving E)
    (fun r tx' _ w' => ∀ a, r = .ok a → Q a tx' w'.store) p tx tr ⟨s, ext⟩

section Rules

variable {M : Semantics σ ρ Call Reply χ μ} {E : σ → Prop} {tx : Tx ρ} {s : σ} {ws : List (Write ρ)}
  {Q : α → Tx ρ → σ → Prop}

theorem solo_pure {a : α} (h : Q a tx s) : Solo M E (.pure a : Prog σ ρ Call Reply ε α) tx s Q := by
  rintro tr ext b ⟨⟩
  exact h

theorem solo_fail {e : ε} : Solo M E (.fail e : Prog σ ρ Call Reply ε α) tx s Q := by
  rintro tr ext b ⟨⟩

theorem Solo.mono {Q' : α → Tx ρ → σ → Prop} {p : Prog σ ρ Call Reply ε α} (h : Solo M E p tx s Q)
    (hQ : ∀ a tx' s', Q a tx' s' → Q' a tx' s') : Solo M E p tx s Q' :=
  fun tr ext => (h tr ext).post_mono fun _ _ _ _ hr a ha => hQ a _ _ (hr a ha)

/-- The stores on the way may meet less. -/
theorem Solo.weaken {E' : σ → Prop} {p : Prog σ ρ Call Reply ε α} (h : Solo M E p tx s Q)
    (hE : ∀ v, E v → E' v) : Solo M E' p tx s Q := fun tr ext =>
  (h tr ext).mono (fun _ _ _ h => h) (fun _ _ _ _ h => h.imp id (hE _)) fun _ _ _ _ h => h

/-- The rule of sequential composition. -/
theorem solo_bind {Q : β → Tx ρ → σ → Prop} {p : Prog σ ρ Call Reply ε α}
    {f : α → Prog σ ρ Call Reply ε β}
    (h : Solo M E p tx s fun a tx' s' => Solo M E (f a) tx' s' Q) : Solo M E (p.bind f) tx s Q := by
  intro tr ext
  rw [ensures_bind]
  refine (h tr ext).post_mono ?_
  intro r tx' tr' w' hr
  cases r with
  | ok a => exact hr a rfl tr' w'.ext
  | error e => exact fun _ he => by cases he

/-- A statement outside of every transaction. -/
theorem solo_stmt_idle {st : Stmt σ ρ β} {k : Option β → Prog σ ρ Call Reply ε α}
    (hok : ∀ e, st s = some e → (M.applyAll s e.writes = s ∨ E (M.applyAll s e.writes)) ∧
      Solo M E (k (some e.answer)) .idle (M.applyAll s e.writes) Q)
    (hfail : Solo M E (k none) .idle s Q) : Solo M E (.stmt st k) .idle s Q := by
  rintro tr ext w₁ rfl
  exact ⟨fun e he => ⟨(hok e he).1, (hok e he).2 _ _⟩, hfail _ _⟩

/-- A statement in a transaction sees the store with the writes that wait. -/
theorem solo_stmt_active {st : Stmt σ ρ β} {k : Option β → Prog σ ρ Call Reply ε α}
    (hok : ∀ e, st (M.applyAll s ws) = some e →
      Solo M E (k (some e.answer)) (.active (ws ++ e.writes)) s Q)
    (hfail : Solo M E (k none) .aborted s Q) : Solo M E (.stmt st k) (.active ws) s Q := by
  rintro tr ext w₁ rfl
  exact ⟨fun e he => ⟨.inl rfl, hok e he _ _⟩, hfail _ _⟩

/-- An aborted transaction rejects every statement. -/
theorem solo_stmt_aborted {st : Stmt σ ρ β} {k : Option β → Prog σ ρ Call Reply ε α}
    (hfail : Solo M E (k none) .aborted s Q) : Solo M E (.stmt st k) .aborted s Q := by
  rintro tr ext w₁ rfl
  exact ⟨fun e he => absurd he (by simp), hfail _ _⟩

theorem solo_begin {k : Bool → Prog σ ρ Call Reply ε α} (hok : Solo M E (k true) (.active []) s Q)
    (hfail : Solo M E (k false) .idle s Q) : Solo M E (.begin k) tx s Q := by
  rintro tr ext w₁ rfl
  exact ⟨hok _ _, hfail _ _⟩

theorem solo_commit {k : Bool → Prog σ ρ Call Reply ε α}
    (hE : M.applyAll s ws = s ∨ E (M.applyAll s ws))
    (hok : Solo M E (k true) .idle (M.applyAll s ws) Q) (hfail : Solo M E (k false) .idle s Q) :
    Solo M E (.commit k) (.active ws) s Q := by
  rintro tr ext w₁ rfl
  exact ⟨⟨hE, hok _ _⟩, hfail _ _⟩

theorem solo_call {c : Call} {k : Reply c → Prog σ ρ Call Reply ε α}
    (h : ∀ r, Solo M E (k r) tx s Q) : Solo M E (.call c k) tx s Q := by
  rintro tr ext w₁ rfl m r hr
  exact ⟨.inl rfl, h _ _ _⟩

/-- A program without transactions, outside of every transaction. -/
theorem Solo.of_only_idle {S : List (Write ρ) → Prop} {R : σ → σ → Prop} (hrefl : ∀ v, R v v)
    (htrans : ∀ v v' v'', R v v' → R v' v'' → R v v'') (hS : ∀ v ws, S ws → R v (M.applyAll v ws))
    {p : Prog σ ρ Call Reply ε α} (hp : p.Only S) (hE : ∀ v, R s v → E v) :
    Solo M E p .idle s fun _ tx' s' => tx' = .idle ∧ R s s' := by
  have key : ∀ v, R s v → Solo M E p .idle v fun _ tx' s' => tx' = .idle ∧ R s s' := by
    induction p with
    | pure a => exact fun v hv => solo_pure ⟨rfl, hv⟩
    | fail e => exact fun v _ => solo_fail
    | stmt st k ih =>
        intro v hv
        refine solo_stmt_idle (fun e he => ?_) (ih _ (hp.2 _) v hv)
        have hv' := htrans _ _ _ hv (hS v _ (hp.1 v e he))
        exact ⟨.inr (hE _ hv'), ih _ (hp.2 _) _ hv'⟩
    | begin k => exact hp.elim
    | commit k => exact hp.elim
    | call c k ih => exact fun v hv => solo_call fun r => ih r (hp r) v hv
  exact key s (hrefl s)

/-- A program without transactions and without writes, outside of every transaction. -/
theorem Solo.of_only_nil {p : Prog σ ρ Call Reply ε α} (hp : p.Only (· = [])) :
    Solo M E p .idle s fun _ tx' s' => tx' = .idle ∧ s' = s := by
  induction p with
  | pure a => exact solo_pure ⟨rfl, rfl⟩
  | fail e => exact solo_fail
  | stmt st k ih =>
      refine solo_stmt_idle (fun e he => ?_) (ih _ (hp.2 _))
      rw [hp.1 s e he]
      exact ⟨.inl rfl, ih _ (hp.2 _)⟩
  | begin k => exact hp.elim
  | commit k => exact hp.elim
  | call c k ih => exact solo_call fun r => ih r (hp r)

/-- A program without transactions, in an aborted transaction. -/
theorem Solo.of_only_aborted {S : List (Write ρ) → Prop} {p : Prog σ ρ Call Reply ε α}
    (hp : p.Only S) : Solo M E p .aborted s fun _ tx' s' => s' = s ∧ tx' = .aborted := by
  induction p with
  | pure a => exact solo_pure ⟨rfl, rfl⟩
  | fail e => exact solo_fail
  | stmt st k ih => exact solo_stmt_aborted (ih _ (hp.2 _))
  | begin k => exact hp.elim
  | commit k => exact hp.elim
  | call c k ih => exact solo_call fun r => ih r (hp r)

end Rules

/-! ## In a transaction -/

/-- What `p` does when it goes on alone in a transaction over the store `s` whose statements see
the store `v`. -/
def SoloIn (M : Semantics σ ρ Call Reply χ μ) (E : σ → Prop) (p : Prog σ ρ Call Reply ε α)
    (s v : σ) (Q : α → Tx ρ → σ → Prop) : Prop :=
  ∀ ws, M.applyAll s ws = v → Solo M E p (.active ws) s Q

/-- `p` stays in the transaction in which it sees the store `v`, and `B` holds of what it returns
and sees then. -/
def SoloTx (M : Semantics σ ρ Call Reply χ μ) (p : Prog σ ρ Call Reply ε α) (v : σ)
    (B : α → σ → Prop) : Prop :=
  ∀ E s, SoloIn M E p s v fun a tx' s' =>
    s' = s ∧ ∃ ws, tx' = .active ws ∧ B a (M.applyAll s ws)

/-- `p` opens and commits no transaction, what its statements write meets `S`, and a statement that
fails is its last. -/
def Prog.Strict (S : List (Write ρ) → Prop) : Prog σ ρ Call Reply ε α → Prop
  | .pure _ => True
  | .fail _ => True
  | .stmt s k => (∀ v e, s v = some e → S e.writes) ∧ (∃ e, k none = .fail e) ∧
      ∀ b, (k (some b)).Strict S
  | .begin _ => False
  | .commit _ => False
  | .call _ k => ∀ r, (k r).Strict S

theorem Prog.Strict.bind {S : List (Write ρ) → Prop} {p : Prog σ ρ Call Reply ε α}
    {f : α → Prog σ ρ Call Reply ε β} (hp : p.Strict S) (hf : ∀ a, (f a).Strict S) :
    (p.bind f).Strict S := by
  induction p with
  | pure a => exact hf a
  | fail e => trivial
  | stmt s k ih =>
      obtain ⟨hs, ⟨e, he⟩, hk⟩ := hp
      exact ⟨hs, ⟨e, congrArg (Prog.bind · f) he⟩, fun b => ih _ (hk b)⟩
  | begin k => exact hp.elim
  | commit k => exact hp.elim
  | call c k ih => exact fun r => ih r (hp r)

section Transactions

variable {M : Semantics σ ρ Call Reply χ μ} {E : σ → Prop} {s v : σ}

theorem SoloTx.mono {B B' : α → σ → Prop} {p : Prog σ ρ Call Reply ε α} (h : SoloTx M p v B)
    (hB : ∀ a v', B a v' → B' a v') : SoloTx M p v B' := fun E s ws hws =>
  (h E s ws hws).mono fun a _ _ ⟨hs, ws', htx, hb⟩ => ⟨hs, ws', htx, hB a _ hb⟩

theorem soloTx_pure {B : α → σ → Prop} {a : α} (h : B a v) :
    SoloTx M (.pure a : Prog σ ρ Call Reply ε α) v B := by
  rintro E s ws rfl
  exact solo_pure ⟨rfl, ws, rfl, h⟩

theorem soloTx_fail {B : α → σ → Prop} {e : ε} :
    SoloTx M (.fail e : Prog σ ρ Call Reply ε α) v B := fun _ _ _ _ => solo_fail

theorem soloTx_bind {B : β → σ → Prop} {p : Prog σ ρ Call Reply ε α}
    {f : α → Prog σ ρ Call Reply ε β} (h : SoloTx M p v fun a v' => SoloTx M (f a) v' B) :
    SoloTx M (p.bind f) v B := fun E s ws hws =>
  solo_bind ((h E s ws hws).mono fun a tx' s' ⟨hs, ws', htx, hf⟩ => by
    subst hs htx
    exact hf E s' ws' rfl)

/-- A statement that stops the program when it fails. -/
theorem soloTx_stmt {B : α → σ → Prop} {st : Stmt σ ρ β} {k : Option β → Prog σ ρ Call Reply ε α}
    (hok : ∀ e, st v = some e → SoloTx M (k (some e.answer)) (M.applyAll v e.writes) B)
    (hfail : ∃ e, k none = .fail e) : SoloTx M (.stmt st k) v B := by
  rintro E s ws rfl
  obtain ⟨e', he'⟩ := hfail
  refine solo_stmt_active (fun e he => hok e he E s _ (M.applyAll_append _ _ _)) ?_
  rw [he']
  exact solo_fail

theorem soloTx_call {B : α → σ → Prop} {c : Call} {k : Reply c → Prog σ ρ Call Reply ε α}
    (h : ∀ r, SoloTx M (k r) v B) : SoloTx M (.call c k) v B := fun E s ws hws =>
  solo_call fun r => h r E s ws hws

theorem SoloTx.of_strict {S : List (Write ρ) → Prop} {R : σ → σ → Prop} (hrefl : ∀ v, R v v)
    (htrans : ∀ v v' v'', R v v' → R v' v'' → R v v'') (hS : ∀ v ws, S ws → R v (M.applyAll v ws))
    {p : Prog σ ρ Call Reply ε α} (hp : p.Strict S) : SoloTx M p v fun _ v' => R v v' := by
  induction p generalizing v with
  | pure a => exact soloTx_pure (hrefl v)
  | fail e => exact soloTx_fail
  | stmt st k ih =>
      obtain ⟨hs, hfail, hk⟩ := hp
      refine soloTx_stmt (fun e he => (ih _ (hk e.answer)).mono fun _ v' h => ?_) hfail
      exact htrans _ _ _ (hS v e.writes (hs v e he)) h
  | begin k => exact hp.elim
  | commit k => exact hp.elim
  | call c k ih => exact soloTx_call fun r => ih r (hp r)

/-- A part of a transaction, and what comes after it. -/
theorem SoloTx.bind_soloIn {Q : β → Tx ρ → σ → Prop} {p : Prog σ ρ Call Reply ε α}
    {f : α → Prog σ ρ Call Reply ε β} {B : α → σ → Prop} (hp : SoloTx M p v B)
    (hf : ∀ a v', B a v' → SoloIn M E (f a) s v' Q) : SoloIn M E (p.bind f) s v Q :=
  fun ws hws => solo_bind ((hp E s ws hws).mono fun a tx' s' ⟨hs, ws', htx, hb⟩ => by
    subst hs htx
    exact hf a _ hb ws' rfl)

theorem solo_begin_in {Q : α → Tx ρ → σ → Prop} {k : Bool → Prog σ ρ Call Reply ε α} {tx : Tx ρ}
    (hok : SoloIn M E (k true) s s Q) (hfail : Solo M E (k false) .idle s Q) :
    Solo M E (.begin k) tx s Q := solo_begin (hok [] rfl) hfail

theorem soloIn_commit {Q : α → Tx ρ → σ → Prop} {k : Bool → Prog σ ρ Call Reply ε α}
    (hE : v = s ∨ E v) (hok : Solo M E (k true) .idle v Q) (hfail : Solo M E (k false) .idle s Q) :
    SoloIn M E (.commit k) s v Q := by
  rintro ws rfl
  exact solo_commit hE hok hfail

end Transactions

/-! ## Services with fewer choices -/

section Limit

variable {M : Semantics σ ρ Call Reply χ μ} {E : σ → Prop} {tx : Tx ρ} {s : σ}
  {Q : α → Tx ρ → σ → Prop} {allow : Call → μ → Bool}

theorem Solo.limit {p : Prog σ ρ Call Reply ε α} (h : Solo M E p tx s Q) :
    Solo (M.limit allow) E p tx s Q := fun tr ext => (h tr ext).limit

/-- A call, and what comes after an answer that the choices admit. -/
theorem solo_call_limit {c : Call} {k : Reply c → Prog σ ρ Call Reply ε α}
    (h : ∀ m x r, allow c m = true → M.react c m x = some r → Solo M E (k r.1) tx s Q) :
    Solo (M.limit allow) E (.call c k) tx s Q := by
  rintro tr ext w₁ rfl m r hr
  obtain ⟨hallow, hr⟩ := react_limit.mp hr
  exact ⟨.inl rfl, (h m ext r hallow hr).limit _ _⟩

end Limit

/-- **Soundness.**  Wherever a call that runs alone is, the store is the one that it found or one
that meets `E`, and what it has returned meets `Q`. -/
theorem Solo.exec {M : Semantics σ ρ Call Reply χ μ} {E : σ → Prop} {p : Prog σ ρ Call Reply ε α}
    {Q : α → Tx ρ → σ → Prop} {t : Thread σ ρ Call Reply ε α} {w w' : World σ χ}
    {acts : List (Act μ)} (h : Solo M E p .idle w.store Q)
    (hrun : Machine.Exec (Thread.step M) (Thread.start p, w) acts (t, w')) :
    (w'.store = w.store ∨ E w'.store) ∧ ∀ a, t.prog.result = some (.ok a) → Q a t.tx w'.store := by
  have hkeep : ∀ (tr : Trace ρ Call Reply) w₁ tr' (w₂ : World σ χ), Leaving E tr w₁ tr' w₂ →
      (w₁.store = w.store ∨ E w₁.store) → w₂.store = w.store ∨ E w₂.store := by
    rintro tr w₁ tr' w₂ (hsame | hE) hw₁
    · rwa [hsame]
    · exact .inr hE
  obtain ⟨hmeets, hstore⟩ := (h [] w.ext).exec hrun (fun _ w₁ => w₁.store = w.store ∨ E w₁.store)
    (.inl rfl) (fun _ _ h => h) hkeep
  exact ⟨hstore, fun a ha => hmeets.post ha a rfl⟩

end Program
