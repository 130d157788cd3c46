import Kanban.Lib.Program

/-!
# Calls under way together

A pool is a world and the calls that are under way over it.  A turn lets a call arrive, lets
one thread take one step, or loses a call that has not returned in a crash.

Two rules carry a fact about one call to every run of a pool.  `Pool.rely_guarantee` is the rule
of rely and guarantee: what every step of a call guarantees, every other call may rely on.
`Section.sync` is the rule of a critical section: while a thread is inside its section the
others leave the protected state alone, so the section can be read as if it ran alone.

## Main definitions

* `Pool`, `Turn`, `Pool.step` — the machine of many threads.
* `Section` — a protected state, and which traces are inside a section.
* `Section.Guarded` — the turns under which sections do not overlap.
-/

namespace Program

variable {σ ρ Call : Type} {Reply : Call → Type} {ε α χ μ κ : Type}

/-- The calls under way, each with its request, and the world. -/
structure Pool (κ σ ρ Call : Type) (Reply : Call → Type) (χ ε α : Type) where
  calls : List (κ × Thread σ ρ Call Reply ε α)
  world : World σ χ

/-- What happens next in a pool. -/
inductive Turn (κ μ : Type)
  | arrive (q : κ)
  | act (i : ℕ) (a : Act μ)
  | crash (i : ℕ)

/-- One step of a pool. -/
def Pool.step (M : Semantics σ ρ Call Reply χ μ) (handler : κ → Prog σ ρ Call Reply ε α)
    (P : Pool κ σ ρ Call Reply χ ε α) : Turn κ μ → Option (Pool κ σ ρ Call Reply χ ε α)
  | .arrive q => some { P with calls := P.calls ++ [(q, Thread.start (handler q))] }
  | .act i a => P.calls[i]?.bind fun c =>
      (Thread.step M (c.2, P.world) a).map fun r => ⟨P.calls.set i (c.1, r.1), r.2⟩
  | .crash i => P.calls[i]?.bind fun c =>
      if c.2.prog.result.isNone then some { P with calls := P.calls.eraseIdx i } else none

/-- A pool without calls. -/
def Pool.idle (w : World σ χ) : Pool κ σ ρ Call Reply χ ε α := ⟨[], w⟩

section Steps

variable {M : Semantics σ ρ Call Reply χ μ} {handler : κ → Prog σ ρ Call Reply ε α}
  {P P' : Pool κ σ ρ Call Reply χ ε α} {w w' : World σ χ}

/-- Everything one step of a pool can do. -/
theorem Pool.step_cases {a : Turn κ μ} (h : P.step M handler a = some P') :
    (∃ q, a = .arrive q ∧ P' = ⟨P.calls ++ [(q, Thread.start (handler q))], P.world⟩) ∨
    (∃ i b q t t' w', a = .act i b ∧ P.calls[i]? = some (q, t) ∧
      Thread.step M (t, P.world) b = some (t', w') ∧ P' = ⟨P.calls.set i (q, t'), w'⟩) ∨
    (∃ i c, a = .crash i ∧ P.calls[i]? = some c ∧ c.2.prog.result = none ∧
      P' = ⟨P.calls.eraseIdx i, P.world⟩) := by
  cases a with
  | arrive q => exact .inl ⟨q, rfl, (Option.some.inj h).symm⟩
  | act i b =>
      obtain ⟨⟨q, t⟩, hc, h⟩ := Option.bind_eq_some_iff.mp h
      obtain ⟨⟨t', w'⟩, hs, rfl⟩ := Option.map_eq_some_iff.mp h
      exact .inr (.inl ⟨i, b, q, t, t', w', rfl, hc, hs, rfl⟩)
  | crash i =>
      obtain ⟨c, hc, h⟩ := Option.bind_eq_some_iff.mp h
      split at h
      · rename_i hnone
        exact .inr (.inr ⟨i, c, rfl, hc, Option.isNone_iff_eq_none.mp hnone,
          (Option.some.inj h).symm⟩)
      · cases h

/-- A call after a thread's step: the thread's own, or one that was there. -/
theorem Pool.mem_set {calls : List (κ × Thread σ ρ Call Reply ε α)} {i : ℕ}
    {c d : κ × Thread σ ρ Call Reply ε α} (h : d ∈ calls.set i c) : d = c ∨ d ∈ calls :=
  (List.mem_or_eq_of_mem_set h).symm

/-- Only a thread that has not returned takes a step. -/
theorem Thread.result_of_step {t t' : Thread σ ρ Call Reply ε α} {b : Act μ}
    (h : Thread.step M (t, w) b = some (t', w')) : t.prog.result = none := by
  obtain ⟨p, tx, tr⟩ := t
  cases p with
  | pure a => cases b <;> cases h
  | fail e => cases b <;> cases h
  | stmt s k => rfl
  | begin k => rfl
  | commit k => rfl
  | call c k => rfl

end Steps

section Traces

variable {M : Semantics σ ρ Call Reply χ μ} {t t' : Thread σ ρ Call Reply ε α} {w w' : World σ χ}

/-- What a step adds to the trace: nothing, one event, or a statement that took effect. -/
theorem Thread.trace_cases {b : Act μ} (h : Thread.step M (t, w) b = some (t', w')) :
    t'.trace = t.trace ∨ (∃ e, t'.trace = e :: t.trace) ∨
      ∃ writes read, t'.trace = .committed writes :: .ran read :: t.trace := by
  obtain ⟨p, tx, tr⟩ := t
  cases p with
  | pure a => cases b <;> cases h
  | fail e => cases b <;> cases h
  | stmt s k =>
      cases b with
      | ok =>
          obtain ⟨e, -, heq⟩ := Option.map_eq_some_iff.mp h
          cases heq
          cases tx with
          | idle => exact .inr (.inr ⟨_, _, rfl⟩)
          | active ws => exact .inr (.inl ⟨_, rfl⟩)
          | aborted => exact .inr (.inl ⟨_, rfl⟩)
      | fail =>
          cases h
          exact .inr (.inl ⟨_, rfl⟩)
      | move m => cases h
  | begin k =>
      cases b with
      | ok =>
          cases h
          exact .inl rfl
      | fail =>
          cases h
          exact .inr (.inl ⟨_, rfl⟩)
      | move m => cases h
  | commit k =>
      cases b with
      | ok =>
          cases tx with
          | idle =>
              cases h
              exact .inl rfl
          | active ws =>
              cases h
              exact .inr (.inl ⟨_, rfl⟩)
          | aborted =>
              cases h
              exact .inl rfl
      | fail =>
          cases tx <;> cases h <;> exact .inr (.inl ⟨_, rfl⟩)
      | move m => cases tx <;> cases h
  | call c k =>
      cases b with
      | ok => cases h
      | fail => cases h
      | move m =>
          obtain ⟨r, -, heq⟩ := Option.map_eq_some_iff.mp h
          cases heq
          exact .inr (.inl ⟨_, rfl⟩)

/-- A step changes the store only by a commit, which its trace tells. -/
theorem Thread.store_of_step {b : Act μ} (h : Thread.step M (t, w) b = some (t', w')) :
    w'.store = w.store ∨
      ∃ ws past, t'.trace = .committed ws :: past ∧
        (past = t.trace ∨ ∃ read, past = .ran read :: t.trace) ∧
        w'.store = M.applyAll w.store ws := by
  obtain ⟨p, tx, tr⟩ := t
  cases p with
  | pure a => cases b <;> cases h
  | fail e => cases b <;> cases h
  | stmt s k =>
      cases b with
      | ok =>
          obtain ⟨e, -, heq⟩ := Option.map_eq_some_iff.mp h
          cases heq
          cases tx with
          | idle => exact .inr ⟨e.writes, _, rfl, .inr ⟨e.read, rfl⟩, rfl⟩
          | active ws => exact .inl rfl
          | aborted => exact .inl rfl
      | fail =>
          cases h
          exact .inl rfl
      | move m => cases h
  | begin k =>
      cases b with
      | ok =>
          cases h
          exact .inl rfl
      | fail =>
          cases h
          exact .inl rfl
      | move m => cases h
  | commit k =>
      cases b with
      | ok =>
          cases tx with
          | active ws =>
              cases h
              exact .inr ⟨ws, tr, rfl, .inl rfl, rfl⟩
          | idle =>
              cases h
              exact .inl rfl
          | aborted =>
              cases h
              exact .inl rfl
      | fail => cases tx <;> cases h <;> exact .inl rfl
      | move m => cases tx <;> cases h
  | call c k =>
      cases b with
      | ok => cases h
      | fail => cases h
      | move m =>
          obtain ⟨r, -, heq⟩ := Option.map_eq_some_iff.mp h
          cases heq
          exact .inl rfl

/-- A step is a call of the service, which its trace tells, or it leaves the service alone. -/
theorem Thread.call_cases {b : Act μ} (h : Thread.step M (t, w) b = some (t', w')) :
    (w'.ext = w.ext ∧ ∃ l, t'.trace = l ++ t.trace ∧ ∀ c r, .called c r ∉ l) ∨
      ∃ c m r, M.react c m w.ext = some r ∧ t'.trace = .called c r.1 :: t.trace ∧ w'.ext = r.2 := by
  obtain ⟨p, tx, tr⟩ := t
  cases p with
  | pure a => cases b <;> cases h
  | fail e => cases b <;> cases h
  | stmt s k =>
      cases b with
      | ok =>
          obtain ⟨e, -, heq⟩ := Option.map_eq_some_iff.mp h
          cases heq
          cases tx with
          | idle => exact .inl ⟨rfl, [.committed e.writes, .ran e.read], rfl, by simp⟩
          | active ws => exact .inl ⟨rfl, [.ran e.read], rfl, by simp⟩
          | aborted => exact .inl ⟨rfl, [.ran e.read], rfl, by simp⟩
      | fail =>
          cases h
          exact .inl ⟨rfl, [.failed], rfl, by simp⟩
      | move m => cases h
  | begin k =>
      cases b with
      | ok =>
          cases h
          exact .inl ⟨rfl, [], rfl, by simp⟩
      | fail =>
          cases h
          exact .inl ⟨rfl, [.failed], rfl, by simp⟩
      | move m => cases h
  | commit k =>
      cases b with
      | ok =>
          cases tx with
          | idle =>
              cases h
              exact .inl ⟨rfl, [], rfl, by simp⟩
          | active ws =>
              cases h
              exact .inl ⟨rfl, [.committed ws], rfl, by simp⟩
          | aborted =>
              cases h
              exact .inl ⟨rfl, [], rfl, by simp⟩
      | fail => cases tx <;> cases h <;> exact .inl ⟨rfl, [.failed], rfl, by simp⟩
      | move m => cases tx <;> cases h
  | call c k =>
      cases b with
      | ok => cases h
      | fail => cases h
      | move m =>
          obtain ⟨r, hr, heq⟩ := Option.map_eq_some_iff.mp h
          cases heq
          exact .inr ⟨c, m, r, hr, rfl, rfl⟩

/-- Only a program that is about to call the service changes it. -/
theorem Thread.ext_cases {b : Act μ} (h : Thread.step M (t, w) b = some (t', w')) :
    (w'.ext = w.ext ∧ ∀ e ∈ t'.trace, e ∈ t.trace ∨ ∀ c r, e ≠ .called c r) ∨
      ∃ c k m r, t.prog = .call c k ∧ b = .move m ∧ M.react c m w.ext = some r ∧
        t'.trace = .called c r.1 :: t.trace ∧ w'.ext = r.2 := by
  rcases call_cases h with ⟨hext, l, htr, hl⟩ | ⟨c, m, r, hr, htr, hext⟩
  · refine .inl ⟨hext, fun e he => ?_⟩
    rw [htr] at he
    rcases List.mem_append.mp he with he | he
    · exact .inr fun c r heq => hl c r (heq ▸ he)
    · exact .inl he
  · obtain ⟨p, tx, tr⟩ := t
    cases p with
    | call c' k =>
        cases b with
        | ok => cases h
        | fail => cases h
        | move m' =>
            obtain ⟨r', hr', heq⟩ := Option.map_eq_some_iff.mp h
            cases heq
            exact .inr ⟨c', k, m', r', rfl, rfl, hr', rfl, rfl⟩
    | pure a => cases b <;> cases h
    | fail e => cases b <;> cases h
    | stmt s k =>
        cases b with
        | ok =>
            obtain ⟨e, -, heq⟩ := Option.map_eq_some_iff.mp h
            cases heq
            cases tx <;> cases (List.cons.inj htr).1
        | fail =>
            cases h
            cases (List.cons.inj htr).1
        | move m => cases h
    | begin k =>
        cases b with
        | ok =>
            cases h
            exact absurd (congrArg List.length htr) (by simp)
        | fail =>
            cases h
            cases (List.cons.inj htr).1
        | move m => cases h
    | commit k =>
        cases b with
        | ok =>
            cases tx with
            | active ws =>
                cases h
                cases (List.cons.inj htr).1
            | idle =>
                cases h
                exact absurd (congrArg List.length htr) (by simp)
            | aborted =>
                cases h
                exact absurd (congrArg List.length htr) (by simp)
        | fail => cases tx <;> cases h <;> cases (List.cons.inj htr).1
        | move m => cases tx <;> cases h

/-- A step only adds to the trace. -/
theorem Thread.trace_of_step {b : Act μ} (h : Thread.step M (t, w) b = some (t', w')) :
    t.trace <:+ t'.trace := by
  rcases trace_cases h with htr | ⟨e, htr⟩ | ⟨writes, read, htr⟩
  · exact ⟨[], htr.symm⟩
  · exact ⟨[e], htr.symm⟩
  · exact ⟨[.committed writes, .ran read], htr.symm⟩

/-- A run only adds to the trace. -/
theorem Thread.trace_of_run {acts : List (Act μ)}
    (h : Machine.run (Thread.step M) (t, w) acts = some (t', w')) : t.trace <:+ t'.trace := by
  induction acts generalizing t w with
  | nil =>
      cases h
      exact List.suffix_rfl
  | cons a acts ih =>
      obtain ⟨⟨t₁, w₁⟩, hs, hrun⟩ := Option.bind_eq_some_iff.mp h
      exact (trace_of_step hs).trans (ih hrun)

end Traces

/-! ## Rely and guarantee -/

section Invariant

variable {M : Semantics σ ρ Call Reply χ μ} {handler : κ → Prog σ ρ Call Reply ε α}
  {P₀ P : Pool κ σ ρ Call Reply χ ε α} {turns : List (Turn κ μ)}
  {C : Pool κ σ ρ Call Reply χ ε α → Turn κ μ → Prop} {J : World σ χ → Prop}

/-- **The rule of rely and guarantee**, under a property `X` of the pool that every turn keeps.
What a call guarantees the other calls under way may rely on; that they are different calls of a
pool with the property may be used.  `I` is what a call knows between its steps. -/
theorem Pool.rely_guarantee {X : Pool κ σ ρ Call Reply χ ε α → Prop}
    {R : κ → Rely σ ρ Call Reply χ} {G : κ → Guarantee σ ρ Call Reply χ}
    {Q : κ → Post σ ρ Call Reply χ ε α} {I : κ → Trace ρ Call Reply → World σ χ → Prop}
    (hX : ∀ P a P', X P → C P a → P.step M handler a = some P' → X P')
    (hrefl : ∀ P c, X P → c ∈ P.calls → c.2.prog.result = none →
      R c.1 c.2.trace P.world P.world)
    (htrans : ∀ q tr w w' w'', R q tr w w' → R q tr w' w'' → R q tr w w'')
    (hR : ∀ (P P' : Pool κ σ ρ Call Reply χ ε α) (i j : ℕ) c c' d, X P → X P' → J P.world →
      P.calls[i]? = some c → P'.calls[i]? = some c' → i ≠ j →
      P.calls[j]? = some d → P'.calls[j]? = some d → c'.1 = c.1 → c.2.prog.result = none →
      G c.1 c.2.trace P.world c'.2.trace P'.world → d.2.prog.result = none →
      R d.1 d.2.trace P.world P'.world)
    (hJ : ∀ q tr w tr' w', G q tr w tr' w' → J w → J w')
    (hI : ∀ q tr w w₁, R q tr w w₁ → I q tr w → I q tr w₁)
    (hfail : ∀ q tr w, I q tr w → I q (.failed :: tr) w)
    (hG : ∀ q tr w tr' w', G q tr w tr' w' → I q tr w → I q tr' w')
    (hspec : ∀ P q, C P (.arrive q) → J P.world →
      I q [] P.world ∧ Ensures M (R q) (G q) (Q q) (handler q) .idle [] P.world)
    (hrun : Machine.ExecWhile (Pool.step M handler) C P₀ turns P) (h₀ : P₀.calls = [])
    (hX₀ : X P₀) (hJ₀ : J P₀.world) :
    X P ∧ J P.world ∧ ∀ c ∈ P.calls, ∃ w, (c.2.prog.result = none → R c.1 c.2.trace w P.world) ∧
      I c.1 c.2.trace w ∧ c.2.Meets M (R c.1) (G c.1) (Q c.1) w := by
  refine hrun.invariant (fun P => X P ∧ J P.world ∧ ∀ c ∈ P.calls, ∃ w,
    (c.2.prog.result = none → R c.1 c.2.trace w P.world) ∧ I c.1 c.2.trace w ∧
    c.2.Meets M (R c.1) (G c.1) (Q c.1) w) ⟨hX₀, hJ₀, ?_⟩ ?_
  · intro c hc
    rw [h₀] at hc
    cases hc
  · rintro P a P' ⟨hx, hj, hcalls⟩ hC hs
    have hx' := hX P a P' hx hC hs
    refine ⟨hx', ?_⟩
    rcases Pool.step_cases hs with ⟨q, rfl, rfl⟩ | ⟨i, b, q, t, t', w', rfl, hi, hst, rfl⟩ |
      ⟨i, c, rfl, -, -, rfl⟩
    · refine ⟨hj, fun c hc => ?_⟩
      rcases List.mem_append.mp hc with hc' | hc'
      · exact hcalls c hc'
      · rw [List.mem_singleton.mp hc'] at hc ⊢
        have hself := hrefl _ _ hx' hc
        exact ⟨P.world, hself, hspec P q hC hj⟩
    · obtain ⟨w, hw, hknown, hm⟩ := hcalls _ (List.mem_of_getElem? hi)
      have hrely := hw (Thread.result_of_step hst)
      obtain ⟨hm', hstep⟩ := hm.step hrely hst
      have hknown' : I q t'.trace w' := by
        have hnow := hI _ _ _ _ hrely hknown
        rcases hstep with ⟨htr | htr, rfl⟩ | hg
        · rwa [htr]
        · rw [htr]
          exact hfail _ _ _ hnow
        · exact hG _ _ _ _ _ hg hnow
      obtain ⟨hlt, -⟩ := List.getElem?_eq_some_iff.mp hi
      have hi' : (P.calls.set i (q, t'))[i]? = some (q, t') := List.getElem?_set_self hlt
      refine ⟨?_, fun c hc => ?_⟩
      · rcases hstep with ⟨-, rfl⟩ | hg
        · exact hj
        · exact hJ _ _ _ _ _ hg hj
      · obtain ⟨j, hget⟩ := List.getElem?_of_mem hc
        by_cases hij : i = j
        · subst hij
          rw [hi'] at hget
          cases hget
          exact ⟨w', hrefl _ _ hx' (List.mem_of_getElem? hi'), hknown', hm'⟩
        · have hold : P.calls[j]? = some c := by rwa [List.getElem?_set_ne hij] at hget
          obtain ⟨w₂, hw₂, hrest⟩ := hcalls c (List.mem_of_getElem? hold)
          refine ⟨w₂, fun hnone => htrans _ _ _ _ _ (hw₂ hnone) ?_, hrest⟩
          rcases hstep with ⟨-, rfl⟩ | hg
          · exact hrefl P c hx (List.mem_of_getElem? hold) hnone
          · exact hR P _ i j (q, t) (q, t') c hx hx' hj hi hi' hij hold hget rfl
              (Thread.result_of_step hst) hg hnone
    · exact ⟨hj, fun c hc => hcalls c (List.mem_of_mem_eraseIdx hc)⟩

variable {R : Rely σ ρ Call Reply χ} {G : κ → Guarantee σ ρ Call Reply χ}
  {Q : κ → Post σ ρ Call Reply χ ε α}

/-- When what a call guarantees is what every trace may rely on, every call of a run meets its
specification, and the invariant holds throughout. -/
theorem Pool.invariant (hrefl : ∀ tr w, R tr w w)
    (htrans : ∀ tr w w' w'', R tr w w' → R tr w' w'' → R tr w w'')
    (hR : ∀ q tr w tr' w' tr₂, G q tr w tr' w' → J w → R tr₂ w w')
    (hJ : ∀ q tr w tr' w', G q tr w tr' w' → J w → J w')
    (hspec : ∀ P q, C P (.arrive q) → ∀ w, J w →
      Ensures M R (G q) (Q q) (handler q) .idle [] w)
    (hrun : Machine.ExecWhile (Pool.step M handler) C P₀ turns P) (h₀ : P₀.calls = [])
    (hJ₀ : J P₀.world) :
    J P.world ∧ ∀ c ∈ P.calls, ∃ w, (c.2.prog.result = none → R c.2.trace w P.world) ∧
      c.2.Meets M R (G c.1) (Q c.1) w := by
  obtain ⟨-, hj, hcalls⟩ := Pool.rely_guarantee (X := fun _ => True) (R := fun _ => R)
    (I := fun _ _ _ => True) (fun _ _ _ _ _ _ => trivial) (fun _ _ _ _ _ => hrefl _ _)
    (fun _ => htrans) (fun _ _ _ _ _ _ _ _ _ hj _ _ _ _ _ _ _ hg _ => hR _ _ _ _ _ _ hg hj) hJ
    (fun _ _ _ _ _ _ => trivial) (fun _ _ _ _ => trivial) (fun _ _ _ _ _ _ _ => trivial)
    (fun P q hC hj => ⟨trivial, hspec P q hC P.world hj⟩) hrun h₀ trivial hJ₀
  refine ⟨hj, fun c hc => ?_⟩
  obtain ⟨w, hw, -, hm⟩ := hcalls c hc
  exact ⟨w, hw, hm⟩

end Invariant

/-! ## Critical sections -/

/-- A protected part of the world.  A trace is inside its section from the thread's first
step until it leaves; inside, it is dirty while the part may be out of order. -/
structure Section (σ ρ Call : Type) (Reply : Call → Type) (χ : Type) where
  inside : Trace ρ Call Reply → Prop
  dirty : Trace ρ Call Reply → Prop
  clean : Trace ρ Call Reply → Prop
  Same : World σ χ → World σ χ → Prop
  Sync : World σ χ → Prop
  Grows : World σ χ → World σ χ → Prop
  not_inside_nil : ¬ inside []
  clean_nil : clean []
  clean_of_cons : ∀ e tr, clean (e :: tr) → clean tr
  inside_failed : ∀ tr, inside (.failed :: tr) ↔ inside tr
  dirty_failed : ∀ tr, dirty (.failed :: tr) ↔ dirty tr
  same_refl : ∀ w, Same w w
  same_trans : ∀ w w' w'', Same w w' → Same w' w'' → Same w w''
  sync_of_same : ∀ w w', Same w w' → Sync w → Sync w'
  grows_refl : ∀ w, Grows w w
  grows_trans : ∀ w w' w'', Grows w w' → Grows w' w'' → Grows w w''

namespace Section

variable (S : Section σ ρ Call Reply χ)

/-- A thread enters when the protected part is in order, and inside nobody else touches it. -/
def rely : Rely σ ρ Call Reply χ := fun tr w w₁ =>
  (tr = [] → S.Sync w₁) ∧ (S.inside tr → S.Same w w₁) ∧ S.Grows w w₁

/-- A thread that has left stays out and touches nothing, and the protected part is in order
whenever the thread is not inside and dirty. -/
def guarantee : Guarantee σ ρ Call Reply χ := fun tr w tr' w' =>
  S.Grows w w' ∧ (S.clean tr' →
    (tr ≠ [] → ¬ S.inside tr → S.Same w w' ∧ ¬ S.inside tr') ∧
    (tr = [] ∨ S.inside tr → ¬ (S.inside tr' ∧ S.dirty tr') → S.Sync w'))

/-- A thread that returns inside its section leaves the protected part in order. -/
def post (Q : Post σ ρ Call Reply χ ε α) : Post σ ρ Call Reply χ ε α := fun r tx tr w =>
  (S.clean tr → S.inside tr → S.Sync w) ∧ Q r tx tr w

/-- A call that is inside its section. -/
def Busy (c : κ × Thread σ ρ Call Reply ε α) : Prop :=
  c.2.prog.result = none ∧ S.inside c.2.trace

/-- The turns under which the sections do not overlap: a thread takes its first step only when
no other call is inside, no step makes a trace unclean, and no call is lost while it is
dirty. -/
def Guarded (M : Semantics σ ρ Call Reply χ μ) (P : Pool κ σ ρ Call Reply χ ε α) :
    Turn κ μ → Prop
  | .arrive _ => True
  | .act i a => ∀ c, P.calls[i]? = some c →
      (c.2.trace = [] → ∀ (j : ℕ) d, j ≠ i → P.calls[j]? = some d → ¬ S.Busy d) ∧
      ∀ r, Thread.step M (c.2, P.world) a = some r → S.clean r.1.trace
  | .crash i => ∀ c, P.calls[i]? = some c → ¬ (S.Busy c ∧ S.dirty c.2.trace)

variable {S}
variable {M : Semantics σ ρ Call Reply χ μ} {handler : κ → Prog σ ρ Call Reply ε α}
  {P₀ P P' : Pool κ σ ρ Call Reply χ ε α} {turns : List (Turn κ μ)}
  {Q : κ → Post σ ρ Call Reply χ ε α}

/-- The invariant of a pool whose sections do not overlap. -/
structure Ordered (S : Section σ ρ Call Reply χ) (M : Semantics σ ρ Call Reply χ μ)
    (Q : κ → Post σ ρ Call Reply χ ε α) (P : Pool κ σ ρ Call Reply χ ε α) : Prop where
  meets : ∀ c ∈ P.calls, ∃ w, (S.Busy c → S.Same w P.world) ∧ S.Grows w P.world ∧
    c.2.Meets M S.rely S.guarantee (S.post (Q c.1)) w
  clean : ∀ c ∈ P.calls, S.clean c.2.trace
  alone : ∀ (i j : ℕ) c d, i ≠ j → P.calls[i]? = some c → P.calls[j]? = some d →
    S.Busy c → ¬ S.Busy d
  sync : (∀ c ∈ P.calls, ¬ (S.Busy c ∧ S.dirty c.2.trace)) → S.Sync P.world

namespace Ordered

theorem arrive {q : κ} (h : Ordered S M Q P)
    (hspec : ∀ w, Ensures M S.rely S.guarantee (S.post (Q q)) (handler q) .idle [] w) :
    Ordered S M Q ⟨P.calls ++ [(q, Thread.start (handler q))], P.world⟩ where
  meets c hc := by
    rcases List.mem_append.mp hc with hc | hc
    · exact h.meets c hc
    · rw [List.mem_singleton.mp hc]
      exact ⟨P.world, fun _ => S.same_refl _, S.grows_refl _, hspec _⟩
  clean c hc := by
    rcases List.mem_append.mp hc with hc | hc
    · exact h.clean c hc
    · rw [List.mem_singleton.mp hc]
      exact S.clean_nil
  alone i j c d hij hc hd hbusy := by
    have hold : ∀ {k : ℕ} {e : κ × Thread σ ρ Call Reply ε α},
        (P.calls ++ [(q, Thread.start (handler q))])[k]? = some e → S.Busy e →
        P.calls[k]? = some e := by
      intro k e he hbusy
      rw [List.getElem?_append] at he
      split at he
      · exact he
      · have hmem := List.mem_singleton.mp (List.mem_of_getElem? he)
        rw [hmem] at hbusy
        exact absurd hbusy.2 S.not_inside_nil
    exact fun hbusy' => h.alone i j c d hij (hold hc hbusy) (hold hd hbusy') hbusy hbusy'
  sync hquiet := h.sync fun c hc => hquiet c (List.mem_append_left _ hc)

theorem crash {i : ℕ} {c : κ × Thread σ ρ Call Reply ε α} (h : Ordered S M Q P)
    (hi : P.calls[i]? = some c) (hquiet : ¬ (S.Busy c ∧ S.dirty c.2.trace)) :
    Ordered S M Q ⟨P.calls.eraseIdx i, P.world⟩ where
  meets d hd := h.meets d (List.mem_of_mem_eraseIdx hd)
  clean d hd := h.clean d (List.mem_of_mem_eraseIdx hd)
  alone j k d e hjk hd he := by
    rw [List.getElem?_eraseIdx, ← apply_ite fun k => P.calls[k]?] at hd he
    refine h.alone _ _ d e ?_ hd he
    split <;> split <;> omega
  sync hrest := by
    refine h.sync fun d hd => ?_
    obtain ⟨j, hj⟩ := List.mem_iff_getElem?.mp hd
    by_cases hij : j = i
    · rw [hij, hi] at hj
      rwa [← Option.some.inj hj]
    · exact hrest d (List.mem_eraseIdx_iff_getElem?.mpr ⟨j, hij, hj⟩)

/-- While the thread has not begun or is inside, the others are not inside. -/
theorem not_busy {i j : ℕ} {b : Act μ} {q : κ} {t t' : Thread σ ρ Call Reply ε α}
    {w' : World σ χ} {d : κ × Thread σ ρ Call Reply ε α} (h : Ordered S M Q P)
    (hi : P.calls[i]? = some (q, t)) (hC : S.Guarded M P (.act i b))
    (hs : Thread.step M (t, P.world) b = some (t', w'))
    (hopen : t.trace = [] ∨ S.inside t.trace) (hj : P.calls[j]? = some d) (hij : j ≠ i) :
    ¬ S.Busy d := by
  rcases hopen with hnil | hin
  · exact (hC _ hi).1 hnil j d hij hj
  · exact h.alone i j _ d hij.symm hi hj ⟨Thread.result_of_step hs, hin⟩

/-- The protected part is in order when the thread that steps is not dirty inside. -/
theorem sync_of_open {i : ℕ} {b : Act μ} {q : κ} {t t' : Thread σ ρ Call Reply ε α}
    {w' : World σ χ} (h : Ordered S M Q P) (hi : P.calls[i]? = some (q, t))
    (hC : S.Guarded M P (.act i b)) (hs : Thread.step M (t, P.world) b = some (t', w'))
    (hopen : t.trace = [] ∨ S.inside t.trace) (hquiet : ¬ (S.inside t.trace ∧ S.dirty t.trace)) :
    S.Sync P.world := by
  refine h.sync fun d hd ⟨hbusy, hdirty⟩ => ?_
  obtain ⟨j, hj⟩ := List.mem_iff_getElem?.mp hd
  by_cases hij : j = i
  · rw [hij, hi] at hj
    cases hj
    exact hquiet ⟨hbusy.2, hdirty⟩
  · exact h.not_busy hi hC hs hopen hj hij hbusy

/-- What a step of one thread does to the protected part. -/
theorem act_world {i : ℕ} {b : Act μ} {q : κ} {t t' : Thread σ ρ Call Reply ε α}
    {w' : World σ χ} (h : Ordered S M Q P) (hi : P.calls[i]? = some (q, t))
    (hC : S.Guarded M P (.act i b)) (hs : Thread.step M (t, P.world) b = some (t', w')) :
    t'.Meets M S.rely S.guarantee (S.post (Q q)) w' ∧ S.Grows P.world w' ∧
    (t.trace ≠ [] → ¬ S.inside t.trace → S.Same P.world w' ∧ ¬ S.inside t'.trace) ∧
    (t.trace = [] ∨ S.inside t.trace → ¬ (S.Busy (q, t') ∧ S.dirty t'.trace) → S.Sync w') := by
  obtain ⟨w₀, hsame, hgrows, hm⟩ := h.meets _ (List.mem_of_getElem? hi)
  have hrely : S.rely t.trace w₀ P.world := by
    refine ⟨fun hnil => ?_, fun hin => hsame ⟨Thread.result_of_step hs, hin⟩, hgrows⟩
    refine h.sync_of_open hi hC hs (.inl hnil) fun hin => S.not_inside_nil ?_
    rw [← hnil]
    exact hin.1
  obtain ⟨hm', hstep⟩ := hm.step hrely hs
  have hclean := (hC _ hi).2 _ hs
  -- a thread that returned inside left the part in order; else it is busy as long as inside
  have hreturned : S.inside t'.trace → ¬ (S.Busy (q, t') ∧ S.dirty t'.trace) →
      S.Sync w' ∨ ¬ (S.inside t'.trace ∧ S.dirty t'.trace) := by
    intro hin hquiet
    cases hr : t'.prog.result with
    | none => exact .inr fun h => hquiet ⟨⟨hr, h.1⟩, h.2⟩
    | some r => exact .inl ((hm'.post hr).1 hclean hin)
  refine ⟨hm', ?_⟩
  rcases hstep with ⟨htr, rfl⟩ | ⟨hgrows', hg⟩
  · have hin : S.inside t'.trace ↔ S.inside t.trace := by
      rcases htr with htr | htr
      · rw [htr]
      · rw [htr, S.inside_failed]
    have hdirty : S.dirty t'.trace ↔ S.dirty t.trace := by
      rcases htr with htr | htr
      · rw [htr]
      · rw [htr, S.dirty_failed]
    refine ⟨S.grows_refl _, fun _ hout => ⟨S.same_refl _, fun h => hout (hin.mp h)⟩,
      fun hopen hquiet => ?_⟩
    by_cases hin' : S.inside t'.trace
    · rcases hreturned hin' hquiet with hsync | hnot
      · exact hsync
      · rw [hin, hdirty] at hnot
        exact h.sync_of_open hi hC hs hopen hnot
    · exact h.sync_of_open hi hC hs hopen fun h => hin' (hin.mpr h.1)
  · obtain ⟨hleft, hopen⟩ := hg hclean
    refine ⟨hgrows', hleft, fun ho hquiet => ?_⟩
    by_cases hin' : S.inside t'.trace
    · rcases hreturned hin' hquiet with hsync | hnot
      · exact hsync
      · exact hopen ho hnot
    · exact hopen ho fun h => hin' h.1

theorem act {i : ℕ} {b : Act μ} {q : κ} {t t' : Thread σ ρ Call Reply ε α}
    {w' : World σ χ} (h : Ordered S M Q P) (hi : P.calls[i]? = some (q, t))
    (hC : S.Guarded M P (.act i b)) (hs : Thread.step M (t, P.world) b = some (t', w')) :
    Ordered S M Q ⟨P.calls.set i (q, t'), w'⟩ := by
  obtain ⟨hm, hgrows, hleft, hopen⟩ := h.act_world hi hC hs
  have hlt : i < P.calls.length := (List.getElem?_eq_some_iff.mp hi).1
  -- a call that is not the one that stepped
  have hother : ∀ {j : ℕ} {d : κ × Thread σ ρ Call Reply ε α}, j ≠ i →
      P.calls[j]? = some d → S.Busy d → S.Same P.world w' ∧ ¬ S.Busy (q, t') := by
    intro j d hij hj hbusy
    by_cases ho : t.trace = [] ∨ S.inside t.trace
    · exact absurd hbusy (h.not_busy hi hC hs ho hj hij)
    · rw [not_or] at ho
      obtain ⟨hsame, hout⟩ := hleft ho.1 ho.2
      exact ⟨hsame, fun hb => hout hb.2⟩
  have hget : ∀ {j : ℕ} {d : κ × Thread σ ρ Call Reply ε α},
      (P.calls.set i (q, t'))[j]? = some d →
      j = i ∧ d = (q, t') ∨ j ≠ i ∧ P.calls[j]? = some d := by
    intro j d hd
    by_cases hij : j = i
    · rw [hij, List.getElem?_set_self hlt] at hd
      exact .inl ⟨hij, (Option.some.inj hd).symm⟩
    · rw [List.getElem?_set_ne (Ne.symm hij)] at hd
      exact .inr ⟨hij, hd⟩
  refine ⟨fun d hd => ?_, fun d hd => ?_, fun j k d e hjk hd he => ?_, fun hquiet => ?_⟩
  · obtain ⟨j, hj⟩ := List.mem_iff_getElem?.mp hd
    rcases hget hj with ⟨-, rfl⟩ | ⟨hij, hj⟩
    · exact ⟨w', fun _ => S.same_refl _, S.grows_refl _, hm⟩
    · obtain ⟨w₀, hsame, hg, hm₀⟩ := h.meets d (List.mem_of_getElem? hj)
      exact ⟨w₀, fun hbusy => S.same_trans _ _ _ (hsame hbusy) (hother hij hj hbusy).1,
        S.grows_trans _ _ _ hg hgrows, hm₀⟩
  · rcases Pool.mem_set hd with rfl | hd
    · exact (hC _ hi).2 _ hs
    · exact h.clean d hd
  · rcases hget hd with ⟨hji, rfl⟩ | ⟨hji, hj⟩
    · rcases hget he with ⟨hki, -⟩ | ⟨hki, hk⟩
      · exact absurd (hji.trans hki.symm) hjk
      · exact fun hbusy hbusy' => (hother hki hk hbusy').2 hbusy
    · rcases hget he with ⟨-, rfl⟩ | ⟨-, hk⟩
      · exact fun hbusy => (hother hji hj hbusy).2
      · exact h.alone j k d e hjk hj hk
  · have hself : (q, t') ∈ P.calls.set i (q, t') := List.mem_set hlt _
    by_cases ho : t.trace = [] ∨ S.inside t.trace
    · exact hopen ho (hquiet _ hself)
    · rw [not_or] at ho
      refine S.sync_of_same _ _ (hleft ho.1 ho.2).1 (h.sync fun d hd ⟨hbusy, hdirty⟩ => ?_)
      obtain ⟨j, hj⟩ := List.mem_iff_getElem?.mp hd
      by_cases hij : j = i
      · rw [hij, hi] at hj
        cases hj
        exact ho.2 hbusy.2
      · refine hquiet d (List.mem_iff_getElem?.mpr ⟨j, ?_⟩) ⟨hbusy, hdirty⟩
        rw [List.getElem?_set_ne (Ne.symm hij), hj]

end Ordered

theorem clean_of_suffix {tr tr' : Trace ρ Call Reply} (h : tr <:+ tr') (hc : S.clean tr') :
    S.clean tr := by
  obtain ⟨l, rfl⟩ := h
  induction l with
  | nil => exact hc
  | cons e l ih => exact ih (S.clean_of_cons e _ hc)

/-- A call acts alone beside others that are outside of their sections. -/
theorem guarded_alone {q : κ} {t t' : Thread σ ρ Call Reply ε α} {acts : List (Act μ)}
    {w w' : World σ χ} {rest : List (κ × Thread σ ρ Call Reply ε α)}
    (hrest : ∀ d ∈ rest, ¬ S.Busy d)
    (hrun : Machine.run (Thread.step M) (t, w) acts = some (t', w'))
    (hclean : S.clean t'.trace) :
    Machine.ExecWhile (Pool.step M handler) (S.Guarded M) ⟨rest ++ [(q, t)], w⟩
      (acts.map (.act rest.length)) ⟨rest ++ [(q, t')], w'⟩ := by
  induction acts generalizing t w with
  | nil =>
      cases hrun
      exact .nil
  | cons a acts ih =>
      obtain ⟨⟨t₁, w₁⟩, hs, hrun⟩ := Option.bind_eq_some_iff.mp hrun
      refine Machine.ExecWhile.cons ?_ ?_ (ih hrun)
      · intro c hc
        obtain rfl : (q, t) = c := Option.some.inj (List.getElem?_concat_length.symm.trans hc)
        refine ⟨fun _ j d hj hd => ?_, fun r hr => ?_⟩
        · have hlt : j < rest.length := by
            obtain ⟨hlt, -⟩ := List.getElem?_eq_some_iff.mp hd
            rw [List.length_append, List.length_singleton] at hlt
            omega
          rw [List.getElem?_append_left hlt] at hd
          exact hrest d (List.mem_of_getElem? hd)
        · rw [hs] at hr
          cases hr
          exact clean_of_suffix (Thread.trace_of_run hrun) hclean
      · simp [Pool.step, hs]

/-- A call from its arrival on, while the others are outside of their sections. -/
theorem guarded_call {q : κ} {t' : Thread σ ρ Call Reply ε α} {acts : List (Act μ)}
    {w' : World σ χ} (hquiet : ∀ d ∈ P.calls, ¬ S.Busy d)
    (hrun : Machine.run (Thread.step M) (Thread.start (handler q), P.world) acts = some (t', w'))
    (hclean : S.clean t'.trace) :
    Machine.ExecWhile (Pool.step M handler) (S.Guarded M) P
      (.arrive q :: acts.map (.act P.calls.length)) ⟨P.calls ++ [(q, t')], w'⟩ :=
  Machine.ExecWhile.cons trivial rfl (guarded_alone hquiet hrun hclean)

/-- **The rule of a critical section.**  In every run whose sections do not overlap, the
protected part is in order whenever no call is dirty inside, and every call meets its
specification. -/
theorem ordered
    (hspec : ∀ q w, Ensures M S.rely S.guarantee (S.post (Q q)) (handler q) .idle [] w)
    (hrun : Machine.ExecWhile (Pool.step M handler) (S.Guarded M) P₀ turns P)
    (h₀ : P₀.calls = []) (hsync : S.Sync P₀.world) : Ordered S M Q P := by
  refine hrun.invariant (Ordered S M Q) ?_ ?_
  · refine ⟨?_, ?_, ?_, fun _ => hsync⟩
    · simp [h₀]
    · simp [h₀]
    · simp [h₀]
  · intro P a P' h hC hs
    rcases Pool.step_cases hs with ⟨q, rfl, rfl⟩ | ⟨i, b, q, t, t', w', rfl, hi, hst, rfl⟩ |
      ⟨i, c, rfl, hi, -, rfl⟩
    · exact h.arrive (hspec q)
    · exact h.act hi hC hst
    · exact h.crash hi (hC c hi)

end Section

end Program
