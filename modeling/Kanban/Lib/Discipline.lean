import Kanban.Lib.Commit
import Kanban.Lib.Protocol

/-!
# Transactions that keep a discipline

A transaction may have to do its statements in some order, as when a number has to be drawn before
the row that carries it is inserted, and may not end before it has done some of them.  A discipline
says how far a transaction is, what a statement may write at that point over what it sees, and where
a transaction may be committed.  Whether a program keeps a discipline is a question about the
program alone: each of its statements is looked at in every store.

What the writes of an open transaction amount to is then an invariant of a pool whose calls keep the
discipline, as long as no call commits what clashes with another call under way.

## Main definitions

* `Discipline`, `Stage` — what the statements of a transaction may write, and how far a call is.
* `Prog.Follows` — a program that keeps a discipline, with a rule for each construct.
* `Prog.Settled`, `Prog.Fits` — programs outside of a transaction and parts of one.
* `Pool.Apart` — a turn that commits nothing that clashes with another call.
* `Discipline.Law`, `Discipline.Law.kept` — an invariant of the store, the log and the open
  transactions.
-/

namespace Program

variable {σ ρ Call : Type} {Reply : Call → Type} {ε α β χ μ κ γ : Type}

/-- What a statement may write, by what it sees: outside of a transaction, and in a transaction by
how far the transaction is.  The answer of a call can take it further, and it is committed only
where it is closed. -/
structure Discipline (σ ρ Call : Type) (Reply : Call → Type) (γ : Type) where
  first : γ
  auto : σ → List (Write ρ) → Prop
  move : γ → σ → List (Write ρ) → γ → Prop
  hear : γ → (c : Call) → Reply c → γ
  closed : γ → Prop

/-- What answers of calls make of a point of a transaction. -/
inductive Discipline.Heard (D : Discipline σ ρ Call Reply γ) : γ → γ → Prop
  | refl (g) : D.Heard g g
  | hear {g g'} (c : Call) (r : Reply c) : D.Heard g g' → D.Heard g (D.hear g' c r)

theorem Discipline.Heard.trans {D : Discipline σ ρ Call Reply γ} {g g' g'' : γ} (h : D.Heard g g')
    (h' : D.Heard g' g'') : D.Heard g g'' := by
  induction h' with
  | refl => exact h
  | hear c r _ ih => exact .hear c r ih

/-- How far a call is. -/
inductive Stage (γ : Type)
  | idle
  | active (g : γ)
  | aborted

/-- `p` keeps the discipline from a stage on, and returns a value only in `Q`. -/
def Prog.Follows (D : Discipline σ ρ Call Reply γ) :
    Prog σ ρ Call Reply ε α → Stage γ → (α → Stage γ → Prop) → Prop
  | .pure a, s, Q => Q a s
  | .fail _, _, _ => True
  | .stmt st k, .idle, Q =>
      (∀ db e, st db = some e → D.auto db e.writes ∧ (k (some e.answer)).Follows D .idle Q) ∧
        (k none).Follows D .idle Q
  | .stmt st k, .active g, Q =>
      (∀ db e, st db = some e → ∃ g', D.move g db e.writes g' ∧
        (k (some e.answer)).Follows D (.active g') Q) ∧ (k none).Follows D .aborted Q
  | .stmt _ k, .aborted, Q => (k none).Follows D .aborted Q
  | .begin k, _, Q => (k true).Follows D (.active D.first) Q ∧ (k false).Follows D .idle Q
  | .commit k, .active g, Q =>
      D.closed g ∧ (k true).Follows D .idle Q ∧ (k false).Follows D .idle Q
  | .commit k, _, Q => (k true).Follows D .idle Q ∧ (k false).Follows D .idle Q
  | .call c k, .active g, Q => ∀ r, (k r).Follows D (.active (D.hear g c r)) Q
  | .call _ k, s, Q => ∀ r, (k r).Follows D s Q

section Rules

variable {D : Discipline σ ρ Call Reply γ} {s : Stage γ} {g : γ}

theorem Prog.Follows.bind {p : Prog σ ρ Call Reply ε α} {f : α → Prog σ ρ Call Reply ε β}
    {Q : β → Stage γ → Prop} (h : p.Follows D s fun a s' => (f a).Follows D s' Q) :
    (p.bind f).Follows D s Q := by
  induction p generalizing s with
  | pure a => exact h
  | fail e => trivial
  | stmt st k ih =>
      cases s with
      | idle => exact ⟨fun db e he => ⟨(h.1 db e he).1, ih _ (h.1 db e he).2⟩, ih _ h.2⟩
      | active g =>
          refine ⟨fun db e he => ?_, ih _ h.2⟩
          obtain ⟨g', hmove, hk⟩ := h.1 db e he
          exact ⟨g', hmove, ih _ hk⟩
      | aborted => exact ih _ h
  | begin k ih => exact ⟨ih _ h.1, ih _ h.2⟩
  | commit k ih =>
      cases s with
      | active g => exact ⟨h.1, ih _ h.2.1, ih _ h.2.2⟩
      | idle => exact ⟨ih _ h.1, ih _ h.2⟩
      | aborted => exact ⟨ih _ h.1, ih _ h.2⟩
  | call c k ih => cases s <;> exact fun r => ih r (h r)

theorem Prog.Follows.mono {p : Prog σ ρ Call Reply ε α} {Q Q' : α → Stage γ → Prop}
    (h : p.Follows D s Q) (hQ : ∀ a s', Q a s' → Q' a s') : p.Follows D s Q' := by
  induction p generalizing s with
  | pure a => exact hQ a s h
  | fail e => trivial
  | stmt st k ih =>
      cases s with
      | idle => exact ⟨fun db e he => ⟨(h.1 db e he).1, ih _ (h.1 db e he).2⟩, ih _ h.2⟩
      | active g =>
          refine ⟨fun db e he => ?_, ih _ h.2⟩
          obtain ⟨g', hmove, hk⟩ := h.1 db e he
          exact ⟨g', hmove, ih _ hk⟩
      | aborted => exact ih _ h
  | begin k ih => exact ⟨ih _ h.1, ih _ h.2⟩
  | commit k ih =>
      cases s with
      | active g => exact ⟨h.1, ih _ h.2.1, ih _ h.2.2⟩
      | idle => exact ⟨ih _ h.1, ih _ h.2⟩
      | aborted => exact ⟨ih _ h.1, ih _ h.2⟩
  | call c k ih => cases s <;> exact fun r => ih r (h r)

/-- A program outside of every transaction: it leaves no transaction open. -/
def Prog.Settled (D : Discipline σ ρ Call Reply γ) (p : Prog σ ρ Call Reply ε α) : Prop :=
  p.Follows D .idle fun _ s => s = .idle

/-- The stage of a transaction that goes on at `g`, unless a statement has failed. -/
inductive Stage.At (D : Discipline σ ρ Call Reply γ) (g : γ) : Stage γ → Prop
  | active {g'} : D.Heard g g' → Stage.At D g (.active g')
  | aborted : Stage.At D g .aborted

theorem Stage.At.start : Stage.At D g (.active g) := .active (.refl g)

/-- A part of a transaction whose statements take it no further. -/
def Prog.Fits (D : Discipline σ ρ Call Reply γ) (p : Prog σ ρ Call Reply ε α) : Prop :=
  ∀ g s, Stage.At D g s → p.Follows D s fun _ => Stage.At D g

namespace Prog.Settled

theorem pure (a : α) : (.pure a : Prog σ ρ Call Reply ε α).Settled D := rfl

theorem fail (e : ε) : (.fail e : Prog σ ρ Call Reply ε α).Settled D := trivial

theorem bind {p : Prog σ ρ Call Reply ε α} {f : α → Prog σ ρ Call Reply ε β} (hp : p.Settled D)
    (hf : ∀ a, (f a).Settled D) : (p.bind f).Settled D :=
  Prog.Follows.bind (hp.mono fun a s' hs => by
    subst hs
    exact hf a)

/-- What comes after a program that is settled. -/
theorem bind_follows {p : Prog σ ρ Call Reply ε α} {f : α → Prog σ ρ Call Reply ε β}
    {Q : β → Stage γ → Prop} (hp : p.Settled D) (hf : ∀ a, (f a).Follows D .idle Q) :
    (p.bind f).Follows D .idle Q :=
  .bind (hp.mono fun a s' hs => by
    subst hs
    exact hf a)

theorem ite {c : Prop} [Decidable c] {p q : Prog σ ρ Call Reply ε α} (hp : p.Settled D)
    (hq : q.Settled D) : (if c then p else q).Settled D := by
  split
  · exact hp
  · exact hq

/-- Two ways to the same rest. -/
theorem fork {c : Prop} [Decidable c] {p q : Prog σ ρ Call Reply ε α}
    {f : α → Prog σ ρ Call Reply ε β} (hp : p.Settled D) (hq : q.Settled D)
    (hf : ∀ a, (f a).Settled D) : (if c then p.bind f else q.bind f).Settled D :=
  ite (hp.bind hf) (hq.bind hf)

/-- A program without transactions. -/
theorem of_only {S : List (Write ρ) → Prop} {p : Prog σ ρ Call Reply ε α} (hp : p.Only S)
    (hS : ∀ db ws, S ws → D.auto db ws) : p.Settled D := by
  induction p with
  | pure a => rfl
  | fail e => trivial
  | stmt st k ih =>
      exact ⟨fun db e he => ⟨hS _ _ (hp.1 db e he), ih _ (hp.2 _)⟩, ih _ (hp.2 _)⟩
  | begin k => exact hp.elim
  | commit k => exact hp.elim
  | call c k ih => exact fun r => ih r (hp r)

end Prog.Settled

namespace Prog.Fits

theorem pure (a : α) : (.pure a : Prog σ ρ Call Reply ε α).Fits D := fun _ _ hs => hs

theorem fail (e : ε) : (.fail e : Prog σ ρ Call Reply ε α).Fits D := fun _ _ _ => trivial

theorem bind {p : Prog σ ρ Call Reply ε α} {f : α → Prog σ ρ Call Reply ε β} (hp : p.Fits D)
    (hf : ∀ a, (f a).Fits D) : (p.bind f).Fits D := fun g s hs =>
  .bind ((hp g s hs).mono fun a s' hs' => hf a g s' hs')

/-- What comes after a part of a transaction. -/
theorem bind_follows {p : Prog σ ρ Call Reply ε α} {f : α → Prog σ ρ Call Reply ε β}
    {Q : β → Stage γ → Prop} (hp : p.Fits D) (hs : Stage.At D g s)
    (hf : ∀ a s', Stage.At D g s' → (f a).Follows D s' Q) : (p.bind f).Follows D s Q :=
  .bind ((hp g s hs).mono hf)

theorem ite {c : Prop} [Decidable c] {p q : Prog σ ρ Call Reply ε α} (hp : p.Fits D)
    (hq : q.Fits D) : (if c then p else q).Fits D := by
  split
  · exact hp
  · exact hq

/-- Two ways to the same rest. -/
theorem fork_follows {c : Prop} [Decidable c] {p q : Prog σ ρ Call Reply ε α}
    {f : α → Prog σ ρ Call Reply ε β} {Q : β → Stage γ → Prop} (hp : p.Fits D) (hq : q.Fits D)
    (hs : Stage.At D g s) (hf : ∀ a s', Stage.At D g s' → (f a).Follows D s' Q) :
    (if c then p.bind f else q.bind f).Follows D s Q := by
  split
  · exact hp.bind_follows hs hf
  · exact hq.bind_follows hs hf

/-- A statement that takes no transaction further. -/
theorem stmt {st : Stmt σ ρ β} {k : Option β → Prog σ ρ Call Reply ε α}
    (hst : ∀ g db e, st db = some e → D.move g db e.writes g) (hk : ∀ o, (k o).Fits D) :
    (Prog.stmt st k).Fits D := by
  rintro g s (hg | -)
  · exact ⟨fun db e he => ⟨_, hst _ db e he, hk _ g _ (.active hg)⟩, hk _ g _ .aborted⟩
  · exact hk _ g _ .aborted

/-- A part without transactions of its own. -/
theorem of_only {S : List (Write ρ) → Prop} {p : Prog σ ρ Call Reply ε α} (hp : p.Only S)
    (hS : ∀ g db ws, S ws → D.move g db ws g) : p.Fits D := by
  induction p with
  | pure a => exact pure a
  | fail e => exact fail e
  | stmt st k ih => exact stmt (fun g db e he => hS g db _ (hp.1 db e he)) fun o => ih o (hp.2 o)
  | begin k => exact hp.elim
  | commit k => exact hp.elim
  | call c k ih =>
      rintro g s (hg | -)
      · exact fun r => ih r (hp r) g _ (.active (hg.hear c r))
      · exact fun r => ih r (hp r) g _ .aborted

end Prog.Fits

end Rules

/-! ## Pools -/

/-- The writes that wait in a call that goes on. -/
def Thread.waiting (t : Thread σ ρ Call Reply ε α) : List (Write ρ) :=
  if t.prog.result.isNone then t.tx.pending else []

/-- What a call has done and what waits in it, as far as it can clash with another call. -/
abbrev Held (ρ Call : Type) (Reply : Call → Type) := Trace ρ Call Reply × List (Write ρ)

/-- The turn commits nothing that clashes with another call. -/
def Pool.Apart (M : Semantics σ ρ Call Reply χ μ)
    (Clash : Held ρ Call Reply → Held ρ Call Reply → Prop) (P : Pool κ σ ρ Call Reply χ ε α) :
    Turn κ μ → Prop
  | .act i b => ∀ c ∈ P.commitOf M (.act i b), ∀ d ∈ P.calls.eraseIdx i,
      ¬ Clash c.2 (d.2.trace, d.2.waiting)
  | _ => True

instance {M : Semantics σ ρ Call Reply χ μ} {Clash : Held ρ Call Reply → Held ρ Call Reply → Prop}
    [DecidableRel Clash] (P : Pool κ σ ρ Call Reply χ ε α) (a : Turn κ μ) :
    Decidable (P.Apart M Clash a) :=
  match a with
  | .act i b => inferInstanceAs (Decidable (∀ c ∈ P.commitOf M (.act i b), _))
  | .arrive _ => .isTrue trivial
  | .crash _ => .isTrue trivial

/-- A law about transactions that keep a discipline: what holds of the world and the log of commits,
and what the writes of an open transaction say at each point of it, after a trace. -/
structure Discipline.Law (M : Semantics σ ρ Call Reply χ μ) (D : Discipline σ ρ Call Reply γ)
    (Clash : Held ρ Call Reply → Held ρ Call Reply → Prop) (κ : Type) where
  Inv : World σ χ → List (CommitOf κ ρ Call Reply) → Prop
  Local : World σ χ → List (CommitOf κ ρ Call Reply) → Held ρ Call Reply → γ → Prop
  first : ∀ w log tr, Inv w log → Local w log (tr, []) D.first
  move : ∀ w log tr ws g read e g', Inv w log → Local w log (tr, ws) g →
    D.move g (M.applyAll w.store ws) e g' → Local w log (.ran read :: tr, ws ++ e) g'
  hear : ∀ w log c m r, Inv w log → M.react c m w.ext = some r → Inv ⟨w.store, r.2⟩ log ∧
    ∀ tr ws g, Local w log (tr, ws) g → Local ⟨w.store, r.2⟩ log (tr, ws) g ∧
      Local ⟨w.store, r.2⟩ log (.called c r.1 :: tr, ws) (D.hear g c r.1)
  auto : ∀ c w log, Inv w log → D.auto w.store c.2.2 →
    Inv ⟨M.applyAll w.store c.2.2, w.ext⟩ (log ++ [c]) ∧ ∀ h g, Local w log h g → ¬ Clash c.2 h →
      Local ⟨M.applyAll w.store c.2.2, w.ext⟩ (log ++ [c]) h g
  commit : ∀ c w log g, Inv w log → Local w log c.2 g → D.closed g →
    Inv ⟨M.applyAll w.store c.2.2, w.ext⟩ (log ++ [c]) ∧ ∀ h' g', Local w log h' g' →
      ¬ Clash c.2 h' → Local ⟨M.applyAll w.store c.2.2, w.ext⟩ (log ++ [c]) h' g'

namespace Discipline.Law

variable {M : Semantics σ ρ Call Reply χ μ} {D : Discipline σ ρ Call Reply γ}
  {Clash : Held ρ Call Reply → Held ρ Call Reply → Prop} (K : Law M D Clash κ)
  {log : List (CommitOf κ ρ Call Reply)} {s : Stage γ} {tx : Tx ρ} {tr : Trace ρ Call Reply}
  {t t' : Thread σ ρ Call Reply ε α} {w w' : World σ χ} {b : Act μ} {Q : α → Stage γ → Prop}

/-- The stage of a call is that of its transaction, and its writes say what they should. -/
def Knows (w : World σ χ) (log : List (CommitOf κ ρ Call Reply)) (tr : Trace ρ Call Reply) :
    Stage γ → Tx ρ → Prop
  | .idle, .idle => True
  | .active g, .active ws => K.Local w log (tr, ws) g
  | .aborted, .aborted => True
  | _, _ => False

/-- What may be committed: a statement outside of a transaction, or a transaction that is closed. -/
def Allowed (w : World σ χ) (log : List (CommitOf κ ρ Call Reply)) (h : Held ρ Call Reply) : Prop :=
  D.auto w.store h.2 ∨ ∃ g, D.closed g ∧ K.Local w log h g

/-- What a step of a call may do: nothing to the store, or a commit. -/
inductive Moves (K : Law M D Clash κ) (log : List (CommitOf κ ρ Call Reply)) :
    Thread σ ρ Call Reply ε α → World σ χ → Thread σ ρ Call Reply ε α → World σ χ → Stage γ → Prop
  | still {t t' w s'} (htr : t'.trace = t.trace ∨ ∃ e, t'.trace = e :: t.trace ∧
      ∀ ws, e ≠ .committed ws) (hk : K.Knows w log t'.trace s' t'.tx) : Moves K log t w t' w s'
  | heard {t t' w s' c m r} (htr : t'.trace = .called c r.1 :: t.trace)
      (hreact : M.react c m w.ext = some r) (hk : K.Knows ⟨w.store, r.2⟩ log t'.trace s' t'.tx) :
      Moves K log t w t' ⟨w.store, r.2⟩ s'
  | commit {t t' w ws past} (htr : t'.trace = .committed ws :: past)
      (hpast : past = t.trace ∨ ∃ read, past = .ran read :: t.trace)
      (hallowed : K.Allowed w log (past, ws)) (htx : t'.tx = .idle) :
      Moves K log t w t' ⟨M.applyAll w.store ws, w.ext⟩ .idle

/-- **One step of a call** that keeps the discipline. -/
theorem step (hI : K.Inv w log) (hf : t.prog.Follows D s Q) (hk : K.Knows w log t.trace s t.tx)
    (hst : Thread.step M (t, w) b = some (t', w')) :
    ∃ s', t'.prog.Follows D s' Q ∧ K.Moves log t w t' w' s' := by
  obtain ⟨p, tx, tr⟩ := t
  cases p with
  | pure a => cases b <;> cases hst
  | fail e => cases b <;> cases hst
  | stmt st k =>
      cases b with
      | move m => cases hst
      | fail =>
          cases hst
          have htr : ∃ e, (.failed :: tr : Trace ρ Call Reply) = e :: tr ∧
              ∀ ws, e ≠ .committed ws := ⟨_, rfl, by simp⟩
          cases s with
          | idle =>
              cases tx with
              | idle => exact ⟨.idle, hf.2, .still (.inr htr) trivial⟩
              | active ws => exact hk.elim
              | aborted => exact hk.elim
          | active g =>
              cases tx with
              | idle => exact hk.elim
              | active ws => exact ⟨.aborted, hf.2, .still (.inr htr) trivial⟩
              | aborted => exact hk.elim
          | aborted =>
              cases tx with
              | idle => exact hk.elim
              | active ws => exact hk.elim
              | aborted => exact ⟨.aborted, hf, .still (.inr htr) trivial⟩
      | ok =>
          obtain ⟨e, he, heq⟩ := Option.map_eq_some_iff.mp hst
          cases heq
          cases s with
          | idle =>
              cases tx with
              | idle =>
                  obtain ⟨hauto, hk'⟩ := hf.1 _ e he
                  exact ⟨.idle, hk', .commit rfl (.inr ⟨_, rfl⟩) (.inl hauto) rfl⟩
              | active ws => exact hk.elim
              | aborted => exact hk.elim
          | active g =>
              cases tx with
              | idle => exact hk.elim
              | active ws =>
                  obtain ⟨g', hmove, hk'⟩ := hf.1 _ e he
                  exact ⟨.active g', hk', .still (.inr ⟨_, rfl, by simp⟩)
                    (K.move _ _ _ _ _ _ _ _ hI hk hmove)⟩
              | aborted => exact hk.elim
          | aborted =>
              cases tx with
              | idle => exact hk.elim
              | active ws => exact hk.elim
              | aborted => cases he
  | begin k =>
      cases b with
      | move m => cases hst
      | fail =>
          cases hst
          exact ⟨.idle, hf.2, .still (.inr ⟨_, rfl, by simp⟩) trivial⟩
      | ok =>
          cases hst
          exact ⟨.active D.first, hf.1, .still (.inl rfl) (K.first _ _ _ hI)⟩
  | commit k =>
      have hend : (k true).Follows D .idle Q ∧ (k false).Follows D .idle Q := by
        cases s with
        | active g => exact hf.2
        | idle => exact hf
        | aborted => exact hf
      cases b with
      | move m => cases tx <;> cases hst
      | fail =>
          cases tx <;> cases hst <;>
            exact ⟨.idle, hend.2, .still (.inr ⟨_, rfl, by simp⟩) trivial⟩
      | ok =>
          cases tx with
          | idle =>
              cases hst
              exact ⟨.idle, hend.1, .still (.inl rfl) trivial⟩
          | aborted =>
              cases hst
              exact ⟨.idle, hend.1, .still (.inl rfl) trivial⟩
          | active ws =>
              cases hst
              cases s with
              | idle => exact hk.elim
              | active g =>
                  exact ⟨.idle, hend.1, .commit rfl (.inl rfl) (.inr ⟨g, hf.1, hk⟩) rfl⟩
              | aborted => exact hk.elim
  | call c k =>
      cases b with
      | ok => cases hst
      | fail => cases hst
      | move m =>
          obtain ⟨r, hr, heq⟩ := Option.map_eq_some_iff.mp hst
          cases heq
          have hlocal := (K.hear _ _ _ _ _ hI hr).2
          cases s with
          | idle =>
              cases tx with
              | idle => exact ⟨.idle, hf r.1, .heard rfl hr trivial⟩
              | active ws => exact hk.elim
              | aborted => exact hk.elim
          | active g =>
              cases tx with
              | idle => exact hk.elim
              | active ws => exact ⟨_, hf r.1, .heard rfl hr (hlocal _ ws g hk).2⟩
              | aborted => exact hk.elim
          | aborted =>
              cases tx with
              | idle => exact hk.elim
              | active ws => exact hk.elim
              | aborted => exact ⟨.aborted, hf r.1, .heard rfl hr trivial⟩

/-- The invariant holds, and the calls under way keep the discipline. -/
def Kept (S : Pool κ σ ρ Call Reply χ ε α × List (CommitOf κ ρ Call Reply)) : Prop :=
  K.Inv S.1.world S.2 ∧ ∀ c ∈ S.1.calls, ∃ s, c.2.prog.Follows D s (fun _ _ => True) ∧
    (c.2.prog.result = none → K.Knows S.1.world S.2 c.2.trace s c.2.tx)

variable {K}

/-- What a call knows after a step of another one. -/
theorem Knows.imp {log' : List (CommitOf κ ρ Call Reply)} (h : K.Knows w log tr s tx)
    (hlocal : ∀ g ws, tx = .active ws → K.Local w log (tr, ws) g → K.Local w' log' (tr, ws) g) :
    K.Knows w' log' tr s tx := by
  cases s <;> cases tx
  case active.active g ws => exact hlocal g ws rfl h
  all_goals exact h

variable {handler : κ → Prog σ ρ Call Reply ε α} {P P' : Pool κ σ ρ Call Reply χ ε α}
  {a : Turn κ μ}

/-- A commit of a pool whose calls keep the discipline. -/
theorem Kept.allowed (h : K.Kept (P, log)) (hs : P.step M handler a = some P') :
    P'.world.store = P.world.store ∧ P.commitOf M a = none ∨
      ∃ c, P.commitOf M a = some c ∧ K.Allowed P.world log c.2 ∧
        P'.world.store = M.applyAll P.world.store c.2.2 := by
  obtain ⟨hI, hcalls⟩ := h
  rcases Pool.step_cases hs with ⟨q, rfl, rfl⟩ | ⟨i, b, q, t, t', w', rfl, hi, hst, rfl⟩ |
    ⟨i, c, rfl, -, -, rfl⟩
  · exact .inl ⟨rfl, rfl⟩
  · obtain ⟨s, hf, hk⟩ := hcalls _ (List.mem_of_getElem? hi)
    obtain ⟨s', -, hmoves⟩ := K.step hI hf (hk (Thread.result_of_step hst)) hst
    cases hmoves with
    | still htr => exact .inl ⟨rfl, Pool.commitOf_eq_none hi hst htr⟩
    | heard htr =>
        exact .inl ⟨rfl, Pool.commitOf_eq_none hi hst (.inr ⟨_, htr, by simp⟩)⟩
    | commit htr hpast hallowed =>
        exact .inr ⟨_, Pool.commitOf_eq_some hi hst htr hpast, hallowed, rfl⟩
  · exact .inl ⟨rfl, rfl⟩

/-- **One step of a pool.** -/
theorem Kept.step (hspec : ∀ q, (handler q).Settled D) (hapart : P.Apart M Clash a)
    (h : K.Kept (P, log)) (hs : P.step M handler a = some P') :
    K.Kept (P', log ++ (P.commitOf M a).toList) := by
  obtain ⟨hI, hcalls⟩ := h
  rcases Pool.step_cases hs with ⟨q, rfl, rfl⟩ | ⟨i, b, q, t, t', w', rfl, hi, hst, rfl⟩ |
    ⟨i, c, rfl, -, -, rfl⟩
  · have hlog : log ++ (P.commitOf M (.arrive q)).toList = log := List.append_nil _
    rw [hlog]
    refine ⟨hI, fun c hc => ?_⟩
    rcases List.mem_append.mp hc with hc | hc
    · exact hcalls c hc
    · rw [List.mem_singleton.mp hc]
      exact ⟨.idle, (hspec q).mono fun _ _ _ => trivial, fun _ => trivial⟩
  · obtain ⟨s, hf, hk⟩ := hcalls _ (List.mem_of_getElem? hi)
    obtain ⟨s', hf', hmoves⟩ := K.step hI hf (hk (Thread.result_of_step hst)) hst
    -- the other calls keep what they know, if their writes survive the step
    have hothers : ∀ {w' log'}, K.Inv w' log' → K.Knows w' log' t'.trace s' t'.tx →
        (∀ d ∈ P.calls.eraseIdx i, ∀ g ws, d.2.waiting = ws →
          K.Local P.world log (d.2.trace, ws) g → K.Local w' log' (d.2.trace, ws) g) →
        K.Kept (⟨P.calls.set i (q, t'), w'⟩, log') := by
      refine fun hI' hk' hrest => ⟨hI', fun c hc => ?_⟩
      obtain ⟨j, hj⟩ := List.getElem?_of_mem hc
      by_cases hij : i = j
      · subst hij
        obtain ⟨hlt, -⟩ := List.getElem?_eq_some_iff.mp hi
        rw [List.getElem?_set_self hlt] at hj
        cases hj
        exact ⟨s', hf', fun _ => hk'⟩
      · rw [List.getElem?_set_ne hij] at hj
        obtain ⟨s₂, hf₂, hk₂⟩ := hcalls c (List.mem_of_getElem? hj)
        refine ⟨s₂, hf₂, fun hnone => (hk₂ hnone).imp fun g ws htx => hrest c ?_ g ws ?_⟩
        · exact List.mem_eraseIdx_iff_getElem?.mpr ⟨j, Ne.symm hij, hj⟩
        · rw [Thread.waiting, hnone, htx]
          rfl
    cases hmoves with
    | still htr hk' =>
        rw [Pool.commitOf_eq_none hi hst htr, Option.toList_none, List.append_nil]
        exact hothers hI hk' fun d _ g ws _ h => h
    | heard htr hreact hk' =>
        rw [Pool.commitOf_eq_none hi hst (.inr ⟨_, htr, by simp⟩), Option.toList_none,
          List.append_nil]
        obtain ⟨hI', hlocal⟩ := K.hear _ _ _ _ _ hI hreact
        exact hothers hI' hk' fun d _ g ws _ h => (hlocal _ ws g h).1
    | commit htr hpast hallowed htx =>
        have hcommit := Pool.commitOf_eq_some hi hst htr hpast
        rw [hcommit, Option.toList_some]
        have hclash : ∀ d ∈ P.calls.eraseIdx i, ∀ ws, d.2.waiting = ws →
            ¬ Clash _ (d.2.trace, ws) := fun d hd ws hws => hws ▸ hapart _ hcommit d hd
        have hk' : ∀ {w' log'}, K.Knows w' log' t'.trace .idle t'.tx := by
          rw [htx]
          exact trivial
        rcases hallowed with hauto | ⟨g, hclosed, hlocal⟩
        · obtain ⟨hI', hrest⟩ := K.auto (q, _, _) _ _ hI hauto
          exact hothers hI' hk' fun d hd g ws hws h => hrest _ g h (hclash d hd ws hws)
        · obtain ⟨hI', hrest⟩ := K.commit (q, _, _) _ _ g hI hlocal hclosed
          exact hothers hI' hk' fun d hd g ws hws h => hrest _ g h (hclash d hd ws hws)
  · have hlog : log ++ (P.commitOf M (.crash i)).toList = log := List.append_nil _
    rw [hlog]
    exact ⟨hI, fun c hc => hcalls c (List.mem_of_mem_eraseIdx hc)⟩

/-- A pool without calls. -/
theorem Kept.start {P₀ : Pool κ σ ρ Call Reply χ ε α} (h₀ : P₀.calls = [])
    (hI : K.Inv P₀.world []) : K.Kept (P₀, []) := by
  refine ⟨hI, ?_⟩
  rw [h₀]
  exact List.forall_mem_nil _

/-- **The rule.**  In a run in which no call commits what clashes with another call, the law holds
throughout, if every call keeps the discipline. -/
theorem kept {P₀ : Pool κ σ ρ Call Reply χ ε α}
    {S : Pool κ σ ρ Call Reply χ ε α × List (CommitOf κ ρ Call Reply)} {turns : List (Turn κ μ)}
    (hspec : ∀ q, (handler q).Settled D)
    (hrun : Machine.ExecWhile (Pool.logStep M handler) (fun S a => S.1.Apart M Clash a)
      (P₀, []) turns S)
    (h₀ : P₀.calls = []) (hI : K.Inv P₀.world []) : K.Kept S := by
  refine hrun.invariant K.Kept (.start h₀ hI) ?_
  rintro ⟨P, log⟩ a S' hkept hC hs
  obtain ⟨P', hP, rfl⟩ := Option.map_eq_some_iff.mp hs
  exact hkept.step hspec hC hP

end Discipline.Law

end Program
