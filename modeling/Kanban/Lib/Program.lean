import Kanban.Lib.Exec

/-!
# Programs over a store and a service

A request handler is a program whose steps are the statements it sends to a
transactional store and the calls it makes to a service outside of it.  Between two steps
other programs may run, a statement may fail, and the process may stop.

`Prog` is the syntax.  A `Thread` is a program on its way together with its open
transaction and the trace of what it has done; `Thread.step` is one step of it, the
label saying how the environment resolves the step.  A stopped process is a run that
ends early, so a fact about every state of every run covers every crash.

`Ensures M R G Q p` is the weakest precondition of `p`: under an environment whose
interference is `R`, every step of `p` meets `G` and every return meets `Q`.

## Main definitions

* `Prog`, `Stmt`, `Effect` — programs and their statements.
* `Tx` — the transaction of a thread: none, open with its pending writes, or aborted.
* `Semantics` — how a write changes the store and how the service answers.
* `Thread.step` — the machine of one thread.
* `Prog.Only`, `Prog.Reads` — a program without transactions, and the records a program reads.
* `Ensures`, `Ensures.exec` — the rule of pre- and postconditions and its soundness.
* `Semantics.limit` — services that make only some of their choices.
-/

namespace Program

/-- A change of one record of the store. -/
inductive Write (ρ : Type)
  | put (record : ρ)
  | del (record : ρ)
  deriving DecidableEq, Repr

/-- The record a write is about. -/
def Write.record {ρ : Type} : Write ρ → ρ
  | .put r => r
  | .del r => r

/-- What a statement does in the store it runs in. -/
structure Effect (ρ β : Type) where
  answer : β
  read : List ρ
  writes : List (Write ρ)

/-- A statement; `none` when the store rejects it. -/
abbrev Stmt (σ ρ β : Type) := σ → Option (Effect ρ β)

/-- Programs. A statement that fails answers `none`, a transaction that cannot be opened or
committed answers `false`. -/
inductive Prog (σ ρ Call : Type) (Reply : Call → Type) (ε α : Type) : Type 1
  | pure (a : α)
  | fail (e : ε)
  | stmt {β : Type} (s : Stmt σ ρ β) (k : Option β → Prog σ ρ Call Reply ε α)
  | begin (k : Bool → Prog σ ρ Call Reply ε α)
  | commit (k : Bool → Prog σ ρ Call Reply ε α)
  | call (c : Call) (k : Reply c → Prog σ ρ Call Reply ε α)

namespace Prog

variable {σ ρ Call : Type} {Reply : Call → Type} {ε α β : Type}

def bind (m : Prog σ ρ Call Reply ε α) (f : α → Prog σ ρ Call Reply ε β) :
    Prog σ ρ Call Reply ε β :=
  match m with
  | .pure a => f a
  | .fail e => .fail e
  | .stmt s k => .stmt s fun b => (k b).bind f
  | .begin k => .begin fun b => (k b).bind f
  | .commit k => .commit fun b => (k b).bind f
  | .call c k => .call c fun r => (k r).bind f

instance : Monad (Prog σ ρ Call Reply ε) where
  pure := .pure
  bind := bind

@[simp] theorem pure_eq (a : α) : (Pure.pure a : Prog σ ρ Call Reply ε α) = .pure a := rfl

@[simp] theorem bind_eq (m : Prog σ ρ Call Reply ε α) (f : α → Prog σ ρ Call Reply ε β) :
    (m >>= f) = m.bind f := rfl

theorem bind_assoc {γ : Type} (m : Prog σ ρ Call Reply ε α) (f : α → Prog σ ρ Call Reply ε β)
    (g : β → Prog σ ρ Call Reply ε γ) : (m.bind f).bind g = m.bind fun a => (f a).bind g := by
  induction m with
  | pure a => rfl
  | fail e => rfl
  | stmt s k ih => simp only [bind, ih]
  | begin k ih => simp only [bind, ih]
  | commit k ih => simp only [bind, ih]
  | call c k ih => simp only [bind, ih]

theorem bind_pure (m : Prog σ ρ Call Reply ε α) : m.bind .pure = m := by
  induction m with
  | pure a => rfl
  | fail e => rfl
  | stmt s k ih => simp only [bind, ih]
  | begin k ih => simp only [bind, ih]
  | commit k ih => simp only [bind, ih]
  | call c k ih => simp only [bind, ih]

/-- The program with its errors renamed. -/
def mapError {ε' : Type} (f : ε → ε') : Prog σ ρ Call Reply ε α → Prog σ ρ Call Reply ε' α
  | .pure a => .pure a
  | .fail e => .fail (f e)
  | .stmt s k => .stmt s fun b => (k b).mapError f
  | .begin k => .begin fun b => (k b).mapError f
  | .commit k => .commit fun b => (k b).mapError f
  | .call c k => .call c fun r => (k r).mapError f

end Prog

/-- The result of a program that has returned. -/
def Prog.result {σ ρ Call : Type} {Reply : Call → Type} {ε α : Type} :
    Prog σ ρ Call Reply ε α → Option (Except ε α)
  | .pure a => some (.ok a)
  | .fail e => some (.error e)
  | _ => none

/-- The transaction of a thread. A statement that fails inside a transaction aborts it. -/
inductive Tx (ρ : Type)
  | idle
  | active (pending : List (Write ρ))
  | aborted

/-- What a thread has done: a statement with the records it read, a set of writes that took
effect together, a call and its answer, a statement or a transaction that failed. -/
inductive Event (ρ Call : Type) (Reply : Call → Type)
  | ran (read : List ρ)
  | committed (writes : List (Write ρ))
  | called (c : Call) (r : Reply c)
  | failed

/-- The events of a thread, the latest first. -/
abbrev Trace (ρ Call : Type) (Reply : Call → Type) := List (Event ρ Call Reply)

/-- The committed store and the state of the service. -/
structure World (σ χ : Type) where
  store : σ
  ext : χ

/-- How a write changes the store, and how the service reacts to a call: `μ` resolves its
choices, a choice it does not have gives `none`. -/
structure Semantics (σ ρ Call : Type) (Reply : Call → Type) (χ μ : Type) where
  apply : σ → Write ρ → σ
  react : (c : Call) → μ → χ → Option (Reply c × χ)

variable {σ ρ Call : Type} {Reply : Call → Type} {ε α β χ μ : Type}

/-- The store after a list of writes. -/
def Semantics.applyAll (M : Semantics σ ρ Call Reply χ μ) (s : σ) (ws : List (Write ρ)) : σ :=
  ws.foldl M.apply s

@[simp] theorem Semantics.applyAll_nil (M : Semantics σ ρ Call Reply χ μ) (s : σ) :
    M.applyAll s [] = s := rfl

@[simp] theorem Semantics.applyAll_cons (M : Semantics σ ρ Call Reply χ μ) (s : σ)
    (a : Write ρ) (ws : List (Write ρ)) :
    M.applyAll s (a :: ws) = M.applyAll (M.apply s a) ws := rfl

@[simp] theorem Semantics.applyAll_append (M : Semantics σ ρ Call Reply χ μ) (s : σ)
    (ws ws' : List (Write ρ)) :
    M.applyAll s (ws ++ ws') = M.applyAll (M.applyAll s ws) ws' := List.foldl_append

namespace Tx

/-- The store a statement of the thread sees. -/
def view (M : Semantics σ ρ Call Reply χ μ) (s : σ) : Tx ρ → σ
  | .active ws => M.applyAll s ws
  | .idle => s
  | .aborted => s

/-- Run a statement; an aborted transaction rejects it. -/
def query (M : Semantics σ ρ Call Reply χ μ) (s : Stmt σ ρ β) (store : σ) :
    Tx ρ → Option (Effect ρ β)
  | .aborted => none
  | tx => s (tx.view M store)

/-- The transaction after writes. -/
def record (ws : List (Write ρ)) : Tx ρ → Tx ρ
  | .active ws' => .active (ws' ++ ws)
  | tx => tx

/-- The writes that wait for a commit. -/
def pending : Tx ρ → List (Write ρ)
  | .active ws => ws
  | _ => []

/-- The transaction after a failed statement. -/
def abort : Tx ρ → Tx ρ
  | .active _ => .aborted
  | tx => tx

/-- The store after writes: they wait for the commit in an open transaction. -/
def land (M : Semantics σ ρ Call Reply χ μ) (ws : List (Write ρ)) (w : World σ χ) :
    Tx ρ → World σ χ
  | .idle => { w with store := M.applyAll w.store ws }
  | _ => w

/-- The trace after a statement. -/
def note (e : Effect ρ β) (tr : Trace ρ Call Reply) : Tx ρ → Trace ρ Call Reply
  | .idle => .committed e.writes :: .ran e.read :: tr
  | _ => .ran e.read :: tr

@[simp] theorem query_idle (M : Semantics σ ρ Call Reply χ μ) (s : Stmt σ ρ β) (st : σ) :
    (idle : Tx ρ).query M s st = s st := rfl

@[simp] theorem query_active (M : Semantics σ ρ Call Reply χ μ) (s : Stmt σ ρ β) (st : σ)
    (ws : List (Write ρ)) : (active ws).query M s st = s (M.applyAll st ws) := rfl

@[simp] theorem query_aborted (M : Semantics σ ρ Call Reply χ μ) (s : Stmt σ ρ β) (st : σ) :
    (aborted : Tx ρ).query M s st = none := rfl

@[simp] theorem pending_idle : (idle : Tx ρ).pending = [] := rfl

@[simp] theorem pending_active (ws : List (Write ρ)) : (active ws).pending = ws := rfl

@[simp] theorem pending_aborted : (aborted : Tx ρ).pending = [] := rfl

@[simp] theorem pending_abort (tx : Tx ρ) : tx.abort.pending = [] := by cases tx <;> rfl

/-- A statement that runs sees the store with the writes that wait. -/
theorem query_eq {M : Semantics σ ρ Call Reply χ μ} {s : Stmt σ ρ β} {st : σ} {e : Effect ρ β}
    {tx : Tx ρ} (h : tx.query M s st = some e) : s (M.applyAll st tx.pending) = some e := by
  cases tx with
  | idle => exact h
  | active ws => exact h
  | aborted => cases h

@[simp] theorem record_idle (ws : List (Write ρ)) : (idle : Tx ρ).record ws = idle := rfl

@[simp] theorem record_active (ws ws' : List (Write ρ)) :
    (active ws').record ws = active (ws' ++ ws) := rfl

@[simp] theorem abort_idle : (idle : Tx ρ).abort = idle := rfl

@[simp] theorem abort_active (ws : List (Write ρ)) : (active ws).abort = aborted := rfl

@[simp] theorem abort_aborted : (aborted : Tx ρ).abort = aborted := rfl

@[simp] theorem land_idle (M : Semantics σ ρ Call Reply χ μ) (ws : List (Write ρ))
    (w : World σ χ) : (idle : Tx ρ).land M ws w = { w with store := M.applyAll w.store ws } := rfl

@[simp] theorem land_active (M : Semantics σ ρ Call Reply χ μ) (ws ws' : List (Write ρ))
    (w : World σ χ) : (active ws').land M ws w = w := rfl

@[simp] theorem note_idle (e : Effect ρ β) (tr : Trace ρ Call Reply) :
    (idle : Tx ρ).note e tr = .committed e.writes :: .ran e.read :: tr := rfl

@[simp] theorem note_active (e : Effect ρ β) (tr : Trace ρ Call Reply) (ws : List (Write ρ)) :
    (active ws).note e tr = .ran e.read :: tr := rfl

end Tx

/-- A program on its way. -/
structure Thread (σ ρ Call : Type) (Reply : Call → Type) (ε α : Type) where
  prog : Prog σ ρ Call Reply ε α
  tx : Tx ρ
  trace : Trace ρ Call Reply

/-- How the environment resolves a step: it goes through, it fails, or the service makes a
choice. -/
inductive Act (μ : Type)
  | ok
  | fail
  | move (m : μ)
  deriving DecidableEq, Repr

/-- A thread before its first step. -/
def Thread.start (p : Prog σ ρ Call Reply ε α) : Thread σ ρ Call Reply ε α := ⟨p, .idle, []⟩

/-- One step of a thread. -/
def Thread.step (M : Semantics σ ρ Call Reply χ μ) :
    Thread σ ρ Call Reply ε α × World σ χ → Act μ →
      Option (Thread σ ρ Call Reply ε α × World σ χ)
  | (⟨.stmt s k, tx, tr⟩, w), .ok =>
      (tx.query M s w.store).map fun e =>
        (⟨k (some e.answer), tx.record e.writes, tx.note e tr⟩, tx.land M e.writes w)
  | (⟨.stmt _ k, tx, tr⟩, w), .fail => some (⟨k none, tx.abort, .failed :: tr⟩, w)
  | (⟨.begin k, _, tr⟩, w), .ok => some (⟨k true, .active [], tr⟩, w)
  | (⟨.begin k, _, tr⟩, w), .fail => some (⟨k false, .idle, .failed :: tr⟩, w)
  | (⟨.commit k, .active ws, tr⟩, w), .ok =>
      some (⟨k true, .idle, .committed ws :: tr⟩, { w with store := M.applyAll w.store ws })
  -- committing an aborted transaction rolls it back without an error
  | (⟨.commit k, _, tr⟩, w), .ok => some (⟨k true, .idle, tr⟩, w)
  | (⟨.commit k, _, tr⟩, w), .fail => some (⟨k false, .idle, .failed :: tr⟩, w)
  | (⟨.call c k, tx, tr⟩, w), .move m =>
      (M.react c m w.ext).map fun r => (⟨k r.1, tx, .called c r.1 :: tr⟩, { w with ext := r.2 })
  | _, _ => none

/-- Run a program alone until it returns: the result, the trace and the world. -/
def Prog.returns (M : Semantics σ ρ Call Reply χ μ) (p : Prog σ ρ Call Reply ε α) (w : World σ χ)
    (acts : List (Act μ)) : Option (Except ε α × Trace ρ Call Reply × World σ χ) :=
  (Machine.run (Thread.step M) (Thread.start p, w) acts).bind fun c =>
    c.1.prog.result.map fun r => (r, c.1.trace, c.2)

/-- A computed return is the return of a run. -/
theorem Prog.exec_of_returns {M : Semantics σ ρ Call Reply χ μ} {p : Prog σ ρ Call Reply ε α}
    {w w' : World σ χ} {acts : List (Act μ)} {r : Except ε α} {tr : Trace ρ Call Reply}
    (h : p.returns M w acts = some (r, tr, w')) :
    ∃ t, Machine.Exec (Thread.step M) (Thread.start p, w) acts (t, w') ∧
      t.prog.result = some r ∧ t.trace = tr := by
  obtain ⟨⟨t, w''⟩, hrun, h⟩ := Option.bind_eq_some_iff.mp h
  obtain ⟨r', hr, heq⟩ := Option.map_eq_some_iff.mp h
  cases heq
  exact ⟨t, Machine.exec_of_run hrun, hr, rfl⟩

/-! ## Programs without transactions -/

/-- `p` opens and commits no transaction, and what each of its statements writes meets `S`. -/
def Prog.Only (S : List (Write ρ) → Prop) : Prog σ ρ Call Reply ε α → Prop
  | .pure _ => True
  | .fail _ => True
  | .stmt s k => (∀ db e, s db = some e → S e.writes) ∧ ∀ b, (k b).Only S
  | .begin _ => False
  | .commit _ => False
  | .call _ k => ∀ r, (k r).Only S

namespace Prog.Only

variable {S : List (Write ρ) → Prop}

theorem bind {p : Prog σ ρ Call Reply ε α} {f : α → Prog σ ρ Call Reply ε β} (hp : p.Only S)
    (hf : ∀ a, (f a).Only S) : (p.bind f).Only S := by
  induction p with
  | pure a => exact hf a
  | fail e => trivial
  | stmt s k ih => exact ⟨hp.1, fun b => ih b (hp.2 b)⟩
  | begin k => exact hp.elim
  | commit k => exact hp.elim
  | call c k ih => exact fun r => ih r (hp r)

theorem mono {S' : List (Write ρ) → Prop} (hS : ∀ ws, S ws → S' ws) {p : Prog σ ρ Call Reply ε α}
    (hp : p.Only S) : p.Only S' := by
  induction p with
  | pure a => trivial
  | fail e => trivial
  | stmt s k ih => exact ⟨fun v e he => hS _ (hp.1 v e he), fun b => ih b (hp.2 b)⟩
  | begin k => exact hp.elim
  | commit k => exact hp.elim
  | call c k ih => exact fun r => ih r (hp r)

end Prog.Only

/-- Every record that a statement of `p` reads meets `R`. -/
def Prog.Reads (R : ρ → Prop) : Prog σ ρ Call Reply ε α → Prop
  | .pure _ => True
  | .fail _ => True
  | .stmt s k => (∀ db e, s db = some e → ∀ r ∈ e.read, R r) ∧ ∀ b, (k b).Reads R
  | .begin k => ∀ b, (k b).Reads R
  | .commit k => ∀ b, (k b).Reads R
  | .call _ k => ∀ r, (k r).Reads R

namespace Prog.Reads

variable {R : ρ → Prop}

theorem bind {p : Prog σ ρ Call Reply ε α} {f : α → Prog σ ρ Call Reply ε β} (hp : p.Reads R)
    (hf : ∀ a, (f a).Reads R) : (p.bind f).Reads R := by
  induction p with
  | pure a => exact hf a
  | fail e => trivial
  | stmt s k ih => exact ⟨hp.1, fun b => ih b (hp.2 b)⟩
  | begin k ih => exact fun b => ih b (hp b)
  | commit k ih => exact fun b => ih b (hp b)
  | call c k ih => exact fun r => ih r (hp r)

/-- Nothing is asked of the records. -/
theorem trivial (p : Prog σ ρ Call Reply ε α) : p.Reads fun _ => True := by
  induction p with
  | pure a => exact True.intro
  | fail e => exact True.intro
  | stmt s k ih => exact ⟨fun _ _ _ _ _ => True.intro, ih⟩
  | begin k ih => exact ih
  | commit k ih => exact ih
  | call c k ih => exact ih

end Prog.Reads

/-! ## Pre- and postconditions -/

/-- A condition on the interference between two steps; it may depend on what the thread has
done. -/
abbrev Rely (σ ρ Call : Type) (Reply : Call → Type) (χ : Type) :=
  Trace ρ Call Reply → World σ χ → World σ χ → Prop

/-- No interference. -/
abbrev Alone : Rely σ ρ Call Reply χ := fun _ => Eq

/-- A condition on a step: the trace and the world before it and after it. -/
abbrev Guarantee (σ ρ Call : Type) (Reply : Call → Type) (χ : Type) :=
  Trace ρ Call Reply → World σ χ → Trace ρ Call Reply → World σ χ → Prop

/-- A condition on a return: the result, the transaction that is left open, the trace and the
world. -/
abbrev Post (σ ρ Call : Type) (Reply : Call → Type) (χ ε α : Type) :=
  Except ε α → Tx ρ → Trace ρ Call Reply → World σ χ → Prop

/-- The weakest precondition of a program. -/
def Ensures (M : Semantics σ ρ Call Reply χ μ) (R : Rely σ ρ Call Reply χ) (G : Guarantee σ ρ Call Reply χ)
    (Q : Post σ ρ Call Reply χ ε α) :
    Prog σ ρ Call Reply ε α → Tx ρ → Trace ρ Call Reply → World σ χ → Prop
  | .pure a, tx, tr, w => Q (.ok a) tx tr w
  | .fail e, tx, tr, w => Q (.error e) tx tr w
  | .stmt s k, tx, tr, w => ∀ w₁, R tr w w₁ →
      (∀ e, tx.query M s w₁.store = some e →
        G tr w₁ (tx.note e tr) (tx.land M e.writes w₁) ∧
        Ensures M R G Q (k (some e.answer)) (tx.record e.writes) (tx.note e tr)
          (tx.land M e.writes w₁)) ∧
      Ensures M R G Q (k none) tx.abort (.failed :: tr) w₁
  | .begin k, _, tr, w => ∀ w₁, R tr w w₁ →
      Ensures M R G Q (k true) (.active []) tr w₁ ∧ Ensures M R G Q (k false) .idle (.failed :: tr) w₁
  | .commit k, tx, tr, w => ∀ w₁, R tr w w₁ →
      (match tx with
        | .active ws =>
          G tr w₁ (.committed ws :: tr) { w₁ with store := M.applyAll w₁.store ws } ∧
          Ensures M R G Q (k true) .idle (.committed ws :: tr)
            { w₁ with store := M.applyAll w₁.store ws }
        | _ => Ensures M R G Q (k true) .idle tr w₁) ∧
      Ensures M R G Q (k false) .idle (.failed :: tr) w₁
  | .call c k, tx, tr, w => ∀ w₁, R tr w w₁ → ∀ m r, M.react c m w₁.ext = some r →
      G tr w₁ (.called c r.1 :: tr) { w₁ with ext := r.2 } ∧
      Ensures M R G Q (k r.1) tx (.called c r.1 :: tr) { w₁ with ext := r.2 }

section Rules

variable {M : Semantics σ ρ Call Reply χ μ} {R : Rely σ ρ Call Reply χ} {G : Guarantee σ ρ Call Reply χ}
  {tx : Tx ρ} {tr : Trace ρ Call Reply} {w : World σ χ}

/-- The rule of sequential composition. -/
@[simp] theorem ensures_bind {Q : Post σ ρ Call Reply χ ε β} {m : Prog σ ρ Call Reply ε α}
    {f : α → Prog σ ρ Call Reply ε β} :
    Ensures M R G Q (m.bind f) tx tr w ↔
      Ensures M R G (fun r tx tr w => match r with
        | .ok a => Ensures M R G Q (f a) tx tr w
        | .error e => Q (.error e) tx tr w) m tx tr w := by
  induction m generalizing tx tr w with
  | pure a => rfl
  | fail e => rfl
  | stmt s k ih => simp only [Prog.bind, Ensures, ih]
  | begin k ih => simp only [Prog.bind, Ensures, ih]
  | commit k ih => simp only [Prog.bind, Ensures, ih]
  | call c k ih => simp only [Prog.bind, Ensures, ih]

/-- The rule of consequence. -/
theorem Ensures.mono {R' : Rely σ ρ Call Reply χ} {G' : Guarantee σ ρ Call Reply χ}
    {Q Q' : Post σ ρ Call Reply χ ε α} {p : Prog σ ρ Call Reply ε α}
    (h : Ensures M R G Q p tx tr w) (hR : ∀ tr w w', R' tr w w' → R tr w w')
    (hG : ∀ tr w tr' w', G tr w tr' w' → G' tr w tr' w')
    (hQ : ∀ r tx tr w, Q r tx tr w → Q' r tx tr w) : Ensures M R' G' Q' p tx tr w := by
  induction p generalizing tx tr w with
  | pure a => exact hQ _ _ _ _ h
  | fail e => exact hQ _ _ _ _ h
  | stmt s k ih =>
      intro w₁ hw
      obtain ⟨hok, hfail⟩ := h w₁ (hR _ _ _ hw)
      refine ⟨fun e he => ?_, ih _ hfail⟩
      exact ⟨hG _ _ _ _ (hok e he).1, ih _ (hok e he).2⟩
  | begin k ih =>
      intro w₁ hw
      obtain ⟨hok, hfail⟩ := h w₁ (hR _ _ _ hw)
      exact ⟨ih _ hok, ih _ hfail⟩
  | commit k ih =>
      intro w₁ hw
      obtain ⟨hok, hfail⟩ := h w₁ (hR _ _ _ hw)
      refine ⟨?_, ih _ hfail⟩
      cases tx with
      | active ws => exact ⟨hG _ _ _ _ hok.1, ih _ hok.2⟩
      | idle => exact ih _ hok
      | aborted => exact ih _ hok
  | call c k ih =>
      intro w₁ hw m r hr
      obtain ⟨hg, hk⟩ := h w₁ (hR _ _ _ hw) m r hr
      exact ⟨hG _ _ _ _ hg, ih _ hk⟩

/-- The rule of consequence for the postcondition. -/
theorem Ensures.post_mono {Q Q' : Post σ ρ Call Reply χ ε α} {p : Prog σ ρ Call Reply ε α}
    (h : Ensures M R G Q p tx tr w) (hQ : ∀ r tx tr w, Q r tx tr w → Q' r tx tr w) :
    Ensures M R G Q' p tx tr w :=
  h.mono (fun _ _ _ h => h) (fun _ _ _ _ h => h) hQ

/-- Two postconditions hold together. -/
theorem Ensures.and {G' : Guarantee σ ρ Call Reply χ} {Q Q' : Post σ ρ Call Reply χ ε α}
    {p : Prog σ ρ Call Reply ε α} (h : Ensures M R G Q p tx tr w)
    (h' : Ensures M R G' Q' p tx tr w) :
    Ensures M R (fun tr w tr' w' => G tr w tr' w' ∧ G' tr w tr' w')
      (fun r tx tr w => Q r tx tr w ∧ Q' r tx tr w) p tx tr w := by
  induction p generalizing tx tr w with
  | pure a => exact ⟨h, h'⟩
  | fail e => exact ⟨h, h'⟩
  | stmt s k ih =>
      intro w₁ hw
      obtain ⟨hok, hfail⟩ := h w₁ hw
      obtain ⟨hok', hfail'⟩ := h' w₁ hw
      refine ⟨fun e he => ?_, ih _ hfail hfail'⟩
      exact ⟨⟨(hok e he).1, (hok' e he).1⟩, ih _ (hok e he).2 (hok' e he).2⟩
  | begin k ih =>
      intro w₁ hw
      obtain ⟨hok, hfail⟩ := h w₁ hw
      obtain ⟨hok', hfail'⟩ := h' w₁ hw
      exact ⟨ih _ hok hok', ih _ hfail hfail'⟩
  | commit k ih =>
      intro w₁ hw
      obtain ⟨hok, hfail⟩ := h w₁ hw
      obtain ⟨hok', hfail'⟩ := h' w₁ hw
      refine ⟨?_, ih _ hfail hfail'⟩
      cases tx with
      | active ws => exact ⟨⟨hok.1, hok'.1⟩, ih _ hok.2 hok'.2⟩
      | idle => exact ih _ hok hok'
      | aborted => exact ih _ hok hok'
  | call c k ih =>
      intro w₁ hw m r hr
      obtain ⟨hg, hk⟩ := h w₁ hw m r hr
      obtain ⟨hg', hk'⟩ := h' w₁ hw m r hr
      exact ⟨⟨hg, hg'⟩, ih _ hk hk'⟩

/-- A condition that every step and the interference keep holds before each step and at the
return. -/
theorem Ensures.keeps {I : Trace ρ Call Reply → World σ χ → Prop} {Q : Post σ ρ Call Reply χ ε α}
    {p : Prog σ ρ Call Reply ε α} (h : Ensures M R G Q p tx tr w) (hI : I tr w)
    (hR : ∀ tr w w', R tr w w' → I tr w → I tr w')
    (hfail : ∀ tr w, I tr w → I (.failed :: tr) w)
    (hG : ∀ tr w tr' w', G tr w tr' w' → I tr w → I tr' w') :
    Ensures M R (fun tr w tr' w' => I tr w ∧ G tr w tr' w') (fun r tx tr w => I tr w ∧ Q r tx tr w)
      p tx tr w := by
  induction p generalizing tx tr w with
  | pure a => exact ⟨hI, h⟩
  | fail e => exact ⟨hI, h⟩
  | stmt s k ih =>
      intro w₁ hw
      obtain ⟨hok, hbad⟩ := h w₁ hw
      have hI₁ := hR _ _ _ hw hI
      refine ⟨fun e he => ?_, ih _ hbad (hfail _ _ hI₁)⟩
      exact ⟨⟨hI₁, (hok e he).1⟩, ih _ (hok e he).2 (hG _ _ _ _ (hok e he).1 hI₁)⟩
  | begin k ih =>
      intro w₁ hw
      obtain ⟨hok, hbad⟩ := h w₁ hw
      have hI₁ := hR _ _ _ hw hI
      exact ⟨ih _ hok hI₁, ih _ hbad (hfail _ _ hI₁)⟩
  | commit k ih =>
      intro w₁ hw
      obtain ⟨hok, hbad⟩ := h w₁ hw
      have hI₁ := hR _ _ _ hw hI
      refine ⟨?_, ih _ hbad (hfail _ _ hI₁)⟩
      cases tx with
      | active ws => exact ⟨⟨hI₁, hok.1⟩, ih _ hok.2 (hG _ _ _ _ hok.1 hI₁)⟩
      | idle => exact ih _ hok hI₁
      | aborted => exact ih _ hok hI₁
  | call c k ih =>
      intro w₁ hw m r hr
      obtain ⟨hg, hk⟩ := h w₁ hw m r hr
      have hI₁ := hR _ _ _ hw hI
      exact ⟨⟨hI₁, hg⟩, ih _ hk (hG _ _ _ _ hg hI₁)⟩

/-- The rule of a program whose errors are renamed. -/
@[simp] theorem ensures_mapError {ε' : Type} {Q : Post σ ρ Call Reply χ ε' α} {f : ε → ε'}
    {p : Prog σ ρ Call Reply ε α} :
    Ensures M R G Q (p.mapError f) tx tr w ↔
      Ensures M R G (fun r tx tr w => Q (r.mapError f) tx tr w) p tx tr w := by
  induction p generalizing tx tr w with
  | pure a => rfl
  | fail e => rfl
  | stmt s k ih => simp only [Prog.mapError, Ensures, ih]
  | begin k ih => simp only [Prog.mapError, Ensures, ih]
  | commit k ih => simp only [Prog.mapError, Ensures, ih]
  | call c k ih => simp only [Prog.mapError, Ensures, ih]

end Rules

/-! ## Soundness -/

section Soundness

variable {M : Semantics σ ρ Call Reply χ μ} {R : Rely σ ρ Call Reply χ} {G : Guarantee σ ρ Call Reply χ}
  {Q : Post σ ρ Call Reply χ ε α} {t t' : Thread σ ρ Call Reply ε α} {w w' : World σ χ}
  {a : Act μ}

/-- A thread that meets its specification. -/
def Thread.Meets (M : Semantics σ ρ Call Reply χ μ) (R : Rely σ ρ Call Reply χ)
    (G : Guarantee σ ρ Call Reply χ) (Q : Post σ ρ Call Reply χ ε α)
    (t : Thread σ ρ Call Reply ε α) (w : World σ χ) : Prop :=
  Ensures M R G Q t.prog t.tx t.trace w

/-- **Soundness of one step.**  A step taken after interference keeps the specification, and
either changes nothing but for a failure in the trace or meets the guarantee. -/
theorem Thread.Meets.step {w₁ : World σ χ} (h : t.Meets M R G Q w) (hw : R t.trace w w₁)
    (hs : Thread.step M (t, w₁) a = some (t', w')) :
    t'.Meets M R G Q w' ∧
      ((t'.trace = t.trace ∨ t'.trace = .failed :: t.trace) ∧ w' = w₁ ∨
        G t.trace w₁ t'.trace w') := by
  obtain ⟨p, tx, tr⟩ := t
  cases p with
  | pure b => cases a <;> simp [Thread.step] at hs
  | fail e => cases a <;> simp [Thread.step] at hs
  | stmt s k =>
      obtain ⟨hok, hfail⟩ := h w₁ hw
      cases a with
      | ok =>
          obtain ⟨e, he, heq⟩ := Option.map_eq_some_iff.mp hs
          cases heq
          exact ⟨(hok e he).2, .inr (hok e he).1⟩
      | fail =>
          cases hs
          exact ⟨hfail, .inl ⟨.inr rfl, rfl⟩⟩
      | move m => cases hs
  | begin k =>
      obtain ⟨hok, hfail⟩ := h w₁ hw
      cases a with
      | ok =>
          cases hs
          exact ⟨hok, .inl ⟨.inl rfl, rfl⟩⟩
      | fail =>
          cases hs
          exact ⟨hfail, .inl ⟨.inr rfl, rfl⟩⟩
      | move m => cases hs
  | commit k =>
      obtain ⟨hok, hfail⟩ := h w₁ hw
      cases a with
      | ok =>
          cases tx with
          | active ws =>
              cases hs
              exact ⟨hok.2, .inr hok.1⟩
          | idle =>
              cases hs
              exact ⟨hok, .inl ⟨.inl rfl, rfl⟩⟩
          | aborted =>
              cases hs
              exact ⟨hok, .inl ⟨.inl rfl, rfl⟩⟩
      | fail =>
          have hs' : t' = ⟨k false, .idle, .failed :: tr⟩ ∧ w' = w₁ := by
            cases tx <;> simpa [Thread.step, eq_comm] using hs
          obtain ⟨rfl, rfl⟩ := hs'
          exact ⟨hfail, .inl ⟨.inr rfl, rfl⟩⟩
      | move m => cases tx <;> cases hs
  | call c k =>
      cases a with
      | ok => cases hs
      | fail => cases hs
      | move m =>
          obtain ⟨r, hr, heq⟩ := Option.map_eq_some_iff.mp hs
          obtain ⟨hg, hk⟩ := h w₁ hw m r hr
          cases heq
          exact ⟨hk, .inr hg⟩

/-- A thread that has returned meets its postcondition. -/
theorem Thread.Meets.post {r : Except ε α} (h : t.Meets M R G Q w)
    (hr : t.prog.result = some r) : Q r t.tx t.trace w := by
  obtain ⟨p, tx, tr⟩ := t
  cases p with
  | pure a =>
      cases hr
      exact h
  | fail e =>
      cases hr
      exact h
  | stmt s k => cases hr
  | begin k => cases hr
  | commit k => cases hr
  | call c k => cases hr

/-- **Soundness.**  A program that runs alone meets its specification in every state, and what
every guaranteed step keeps holds in every state. -/
theorem Ensures.exec {p : Prog σ ρ Call Reply ε α} {acts : List (Act μ)}
    (h : Ensures M Alone G Q p .idle [] w)
    (hrun : Machine.Exec (Thread.step M) (Thread.start p, w) acts (t, w'))
    (J : Trace ρ Call Reply → World σ χ → Prop) (h0 : J [] w)
    (hfail : ∀ tr w, J tr w → J (.failed :: tr) w)
    (hJ : ∀ tr w tr' w', G tr w tr' w' → J tr w → J tr' w') :
    t.Meets M Alone G Q w' ∧ J t.trace w' := by
  refine hrun.invariant (fun c => c.1.Meets M Alone G Q c.2 ∧ J c.1.trace c.2) ⟨h, h0⟩ ?_
  rintro ⟨t, w⟩ a ⟨t', w'⟩ ⟨hm, hj⟩ hs
  obtain ⟨hm', hstep⟩ := hm.step rfl hs
  refine ⟨hm', ?_⟩
  dsimp only
  rcases hstep with ⟨htr | htr, rfl⟩ | hg
  · rw [htr]
    exact hj
  · rw [htr]
    exact hfail _ _ hj
  · exact hJ _ _ _ _ hg hj

/-- A program that runs alone and has returned meets its postcondition. -/
theorem Ensures.post_of_exec {p : Prog σ ρ Call Reply ε α} {acts : List (Act μ)} {r : Except ε α}
    (h : Ensures M Alone G Q p .idle [] w)
    (hrun : Machine.Exec (Thread.step M) (Thread.start p, w) acts (t, w'))
    (hr : t.prog.result = some r) : Q r t.tx t.trace w' :=
  (h.exec hrun (fun _ _ => True) trivial (fun _ _ h => h) fun _ _ _ _ _ h => h).1.post hr

end Soundness

/-! ## Services with fewer choices -/

/-- The services make the choices that `allow` admits. -/
def Semantics.limit (M : Semantics σ ρ Call Reply χ μ) (allow : Call → μ → Bool) :
    Semantics σ ρ Call Reply χ μ where
  apply := M.apply
  react c m x := if allow c m then M.react c m x else none

section Limit

variable {M : Semantics σ ρ Call Reply χ μ} {allow : Call → μ → Bool} {c : Call} {m : μ} {x : χ}

theorem react_limit {r : Reply c × χ} :
    (M.limit allow).react c m x = some r ↔ allow c m = true ∧ M.react c m x = some r :=
  Option.ite_none_right_eq_some

theorem step_of_limit {s s' : Thread σ ρ Call Reply ε α × World σ χ} {a : Act μ}
    (h : Thread.step (M.limit allow) s a = some s') : Thread.step M s a = some s' := by
  obtain ⟨⟨p, tx, tr⟩, w⟩ := s
  cases p with
  | pure b => cases a <;> cases h
  | fail e => cases a <;> cases h
  | stmt s k => cases a <;> cases tx <;> exact h
  | begin k => cases a <;> exact h
  | commit k => cases a <;> cases tx <;> exact h
  | call c k =>
      cases a with
      | ok => cases h
      | fail => cases h
      | move m =>
          obtain ⟨r, hr, heq⟩ := Option.map_eq_some_iff.mp h
          exact Option.map_eq_some_iff.mpr ⟨r, (react_limit.mp hr).2, heq⟩

/-- A run with fewer choices is a run. -/
theorem exec_of_limit {C : Thread σ ρ Call Reply ε α × World σ χ → Act μ → Prop}
    {s s' : Thread σ ρ Call Reply ε α × World σ χ} {acts : List (Act μ)}
    (h : Machine.ExecWhile (Thread.step (M.limit allow)) C s acts s') :
    Machine.Exec (Thread.step M) s acts s' := by
  induction h with
  | nil => exact .nil
  | snoc _ _ hs ih => exact ih.snoc (step_of_limit hs)

/-- A call that is answered by a choice that is admitted. -/
theorem step_call_limit {k : Reply c → Prog σ ρ Call Reply ε α} {tx : Tx ρ} {tr : Trace ρ Call Reply}
    {w : World σ χ} {r : Reply c × χ} (hallow : allow c m = true) (hr : M.react c m w.ext = some r) :
    Thread.step (M.limit allow) (⟨.call c k, tx, tr⟩, w) (.move m) =
      some (⟨k r.1, tx, .called c r.1 :: tr⟩, { w with ext := r.2 }) := by
  have h : (M.limit allow).react c m w.ext = some r := react_limit.mpr ⟨hallow, hr⟩
  simp only [Thread.step, h, Option.map_some]

/-- What a program ensures it also ensures when the services have fewer choices. -/
theorem Ensures.limit {R : Rely σ ρ Call Reply χ} {G : Guarantee σ ρ Call Reply χ}
    {Q : Post σ ρ Call Reply χ ε α} {p : Prog σ ρ Call Reply ε α} {tx : Tx ρ}
    {tr : Trace ρ Call Reply} {w : World σ χ} (h : Ensures M R G Q p tx tr w) :
    Ensures (M.limit allow) R G Q p tx tr w := by
  induction p generalizing tx tr w with
  | pure a => exact h
  | fail e => exact h
  | stmt st k ih =>
      intro w₁ hw
      obtain ⟨hok, hfail⟩ := h w₁ hw
      have hquery : tx.query (M.limit allow) st w₁.store = tx.query M st w₁.store := by
        cases tx <;> rfl
      have hland : ∀ ws, tx.land (M.limit allow) ws w₁ = tx.land M ws w₁ := by
        intro ws
        cases tx <;> rfl
      refine ⟨fun e he => ?_, ih _ hfail⟩
      rw [hland]
      obtain ⟨hG, hnext⟩ := hok e (hquery ▸ he)
      exact ⟨hG, ih _ hnext⟩
  | begin k ih =>
      intro w₁ hw
      obtain ⟨hok, hfail⟩ := h w₁ hw
      exact ⟨ih _ hok, ih _ hfail⟩
  | commit k ih =>
      intro w₁ hw
      obtain ⟨hok, hfail⟩ := h w₁ hw
      refine ⟨?_, ih _ hfail⟩
      cases tx with
      | active ws => exact ⟨hok.1, ih _ hok.2⟩
      | idle => exact ih _ hok
      | aborted => exact ih _ hok
  | call c k ih =>
      intro w₁ hw m r hr
      obtain ⟨hG, hnext⟩ := h w₁ hw m r (react_limit.mp hr).2
      exact ⟨hG, ih _ hnext⟩

end Limit

end Program
