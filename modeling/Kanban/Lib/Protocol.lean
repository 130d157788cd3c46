import Kanban.Lib.Pool

/-!
# Protocols

A protocol is an invariant of a call under way: of its open transaction, of what it has done and of
the world, together with what the call relies on and what it guarantees in turn.  A program keeps a
protocol if each of its statements and calls does; transactions are opened, committed and rolled
back under the protocol's own laws.

## Main definitions

* `Protocol` — the invariant and its laws.
* `Protocol.Keeps` — a program that keeps a protocol, with a rule for each construct.
* `Protocol.Step` — one statement that keeps it.
* `Protocol.pool` — calls that keep protocols, together.
-/

namespace Program

variable {σ ρ Call : Type} {Reply : Call → Type} {ε α β χ μ κ : Type}

/-- An invariant of a call.  It survives the interference that the call relies on and a failure,
and a commit under it is guaranteed. -/
structure Protocol (M : Semantics σ ρ Call Reply χ μ) where
  Inv : Tx ρ → Trace ρ Call Reply → World σ χ → Prop
  rely : Rely σ ρ Call Reply χ
  guarantee : Guarantee σ ρ Call Reply χ
  stable : ∀ tx tr w w₁, rely tr w w₁ → Inv tx tr w → Inv tx tr w₁
  failed : ∀ tx tr w, Inv tx tr w → Inv tx.abort (.failed :: tr) w
  opened : ∀ tr w, Inv .idle tr w → Inv (.active []) tr w
  undone : ∀ tr w, Inv .aborted tr w → Inv .idle tr w
  ended : ∀ tx tr w, Inv tx tr w → Inv .idle (.failed :: tr) w
  landed : ∀ ws tr w, Inv (.active ws) tr w →
    guarantee tr w (.committed ws :: tr) { w with store := M.applyAll w.store ws } ∧
      Inv .idle (.committed ws :: tr) { w with store := M.applyAll w.store ws }

namespace Protocol

/-- What is known of a call before a step. -/
abbrev Known (ρ Call : Type) (Reply : Call → Type) := Tx ρ → Trace ρ Call Reply → Prop

variable {M : Semantics σ ρ Call Reply χ μ} (K : Protocol M)

/-- What holds of the trace and the world, whatever transaction is open. -/
def Holds (tr : Trace ρ Call Reply) (w : World σ χ) : Prop := ∃ tx, K.Inv tx tr w

/-- A step is as guaranteed, and the invariant holds after it. -/
def grant : Guarantee σ ρ Call Reply χ := fun tr w tr' w' => K.guarantee tr w tr' w' ∧ K.Holds tr' w'

/-- From `F` on the program keeps the protocol, and it returns a value in `B`. -/
def Keeps (F : Known ρ Call Reply) (p : Prog σ ρ Call Reply ε α)
    (B : α → Known ρ Call Reply) : Prop :=
  ∀ tx tr w, F tx tr → K.Inv tx tr w → Ensures M K.rely K.grant
    (fun r tx tr w => K.Inv tx tr w ∧ ∀ a, r = .ok a → B a tx tr) p tx tr w

/-- A statement that keeps the protocol, and what is known after it. -/
def Step (F : Known ρ Call Reply) (s : Stmt σ ρ β) (B : β → Known ρ Call Reply) : Prop :=
  ∀ tx tr w e, F tx tr → K.Inv tx tr w → tx.query M s w.store = some e →
    K.guarantee tr w (tx.note e tr) (tx.land M e.writes w) ∧
      K.Inv (tx.record e.writes) (tx.note e tr) (tx.land M e.writes w) ∧
      B e.answer (tx.record e.writes) (tx.note e tr)

/-- A call of the service that keeps the protocol and what is known. -/
def Asks (F : Known ρ Call Reply) (c : Call) : Prop :=
  ∀ tx tr w m r, F tx tr → K.Inv tx tr w → M.react c m w.ext = some r →
    K.guarantee tr w (.called c r.1 :: tr) { w with ext := r.2 } ∧
      K.Inv tx (.called c r.1 :: tr) { w with ext := r.2 } ∧ F tx (.called c r.1 :: tr)

variable {K} {F F' : Known ρ Call Reply} {B B' : α → Known ρ Call Reply}

namespace Keeps

theorem pure {a : α} (h : ∀ tx tr, F tx tr → B a tx tr) :
    K.Keeps F (.pure a : Prog σ ρ Call Reply ε α) B := by
  intro tx tr w hF hI
  refine ⟨hI, fun b hb => ?_⟩
  cases hb
  exact h tx tr hF

theorem fail {e : ε} : K.Keeps F (.fail e : Prog σ ρ Call Reply ε α) B :=
  fun _ _ _ _ hI => ⟨hI, fun _ hb => by cases hb⟩

theorem mono {p : Prog σ ρ Call Reply ε α} (h : K.Keeps F p B) (hF : ∀ tx tr, F' tx tr → F tx tr)
    (hB : ∀ a tx tr, B a tx tr → B' a tx tr) : K.Keeps F' p B' := by
  intro tx tr w hF' hI
  refine (h tx tr w (hF tx tr hF') hI).post_mono ?_
  exact fun r tx tr w ⟨hI, hr⟩ => ⟨hI, fun a ha => hB a tx tr (hr a ha)⟩

/-- The rule of sequential composition. -/
theorem bind {p : Prog σ ρ Call Reply ε α} {f : α → Prog σ ρ Call Reply ε β}
    {B' : β → Known ρ Call Reply} (hp : K.Keeps F p B) (hf : ∀ a, K.Keeps (B a) (f a) B') :
    K.Keeps F (p.bind f) B' := by
  intro tx tr w hF hI
  rw [ensures_bind]
  refine (hp tx tr w hF hI).post_mono ?_
  rintro r tx' tr' w' ⟨hI', hr⟩
  cases r with
  | ok a => exact hf a tx' tr' w' (hr a rfl) hI'
  | error e => exact ⟨hI', fun _ hb => by cases hb⟩

theorem ite {c : Prop} [Decidable c] {p q : Prog σ ρ Call Reply ε α} (hp : c → K.Keeps F p B)
    (hq : ¬ c → K.Keeps F q B) : K.Keeps F (if c then p else q) B := by
  split
  · exact hp ‹c›
  · exact hq ‹¬ c›

/-- What does not depend on the call may be used throughout. -/
theorem of_fact {P : Prop} {p : Prog σ ρ Call Reply ε α} (h : P → K.Keeps F p B) :
    K.Keeps (fun tx tr => P ∧ F tx tr) p B :=
  fun tx tr w hF hI => h hF.1 tx tr w hF.2 hI

/-- A statement, and the program that goes on with its answer. -/
theorem stmt {s : Stmt σ ρ β} {k : Option β → Prog σ ρ Call Reply ε α}
    {F₁ : β → Known ρ Call Reply} (hs : K.Step F s F₁)
    (hk : ∀ b, K.Keeps (F₁ b) (k (some b)) B)
    (hfail : K.Keeps (fun tx tr => ∃ tx' tr', F tx' tr' ∧ tx = tx'.abort ∧ tr = .failed :: tr')
      (k none) B) : K.Keeps F (.stmt s k) B := by
  intro tx tr w hF hI w₁ hw
  have hI₁ := K.stable _ _ _ _ hw hI
  refine ⟨fun e he => ?_, hfail _ _ _ ⟨tx, tr, hF, rfl, rfl⟩ (K.failed _ _ _ hI₁)⟩
  obtain ⟨hg, hI₂, hB⟩ := hs tx tr w₁ e hF hI₁ he
  exact ⟨⟨hg, _, hI₂⟩, hk e.answer _ _ _ hB hI₂⟩

/-- A transaction is opened where none is open. -/
theorem begin {k : Bool → Prog σ ρ Call Reply ε α} (hidle : ∀ tx tr, F tx tr → tx = .idle)
    (hok : K.Keeps (fun tx tr => tx = .active [] ∧ F .idle tr) (k true) B)
    (hfail : K.Keeps (fun tx tr => tx = .idle ∧ ∃ tr', F .idle tr' ∧ tr = .failed :: tr')
      (k false) B) : K.Keeps F (.begin k) B := by
  intro tx tr w hF hI w₁ hw
  obtain rfl := hidle tx tr hF
  have hI₁ := K.stable _ _ _ _ hw hI
  exact ⟨hok _ _ _ ⟨rfl, hF⟩ (K.opened _ _ hI₁),
    hfail _ _ _ ⟨rfl, tr, hF, rfl⟩ (K.ended _ _ _ hI₁)⟩

theorem commit {k : Bool → Prog σ ρ Call Reply ε α} {F₁ : Known ρ Call Reply}
    (hactive : ∀ ws tr, F (.active ws) tr → F₁ .idle (.committed ws :: tr))
    (hother : ∀ tr, F .idle tr ∨ F .aborted tr → F₁ .idle tr)
    (hok : K.Keeps F₁ (k true) B)
    (hfail : K.Keeps (fun tx tr => tx = .idle ∧ ∃ tx' tr', F tx' tr' ∧ tr = .failed :: tr')
      (k false) B) : K.Keeps F (.commit k) B := by
  intro tx tr w hF hI w₁ hw
  have hI₁ := K.stable _ _ _ _ hw hI
  refine ⟨?_, hfail _ _ _ ⟨rfl, tx, tr, hF, rfl⟩ (K.ended _ _ _ hI₁)⟩
  cases tx with
  | active ws =>
      obtain ⟨hg, hI₂⟩ := K.landed ws tr w₁ hI₁
      exact ⟨⟨hg, _, hI₂⟩, hok _ _ _ (hactive ws tr hF) hI₂⟩
  | idle => exact hok _ _ _ (hother tr (.inl hF)) hI₁
  | aborted => exact hok _ _ _ (hother tr (.inr hF)) (K.undone _ _ hI₁)

/-- A call of the service. -/
theorem call {c : Call} {k : Reply c → Prog σ ρ Call Reply ε α} {F₁ : Reply c → Known ρ Call Reply}
    (hc : ∀ tx tr w m r, F tx tr → K.Inv tx tr w → M.react c m w.ext = some r →
      K.guarantee tr w (.called c r.1 :: tr) { w with ext := r.2 } ∧
        K.Inv tx (.called c r.1 :: tr) { w with ext := r.2 } ∧ F₁ r.1 tx (.called c r.1 :: tr))
    (hk : ∀ r, K.Keeps (F₁ r) (k r) B) : K.Keeps F (.call c k) B := by
  intro tx tr w hF hI w₁ hw m r hr
  obtain ⟨hg, hI₁, hB⟩ := hc tx tr w₁ m r hF (K.stable _ _ _ _ hw hI) hr
  exact ⟨⟨hg, _, hI₁⟩, hk r.1 _ _ _ hB hI₁⟩

/-- A call that keeps what is known. -/
theorem ask {c : Call} {k : Reply c → Prog σ ρ Call Reply ε α} (hc : K.Asks F c)
    (hk : ∀ r, K.Keeps F (k r) B) : K.Keeps F (.call c k) B := by
  refine call ?_ hk
  exact hc

/-- A program without transactions all of whose statements and calls keep the protocol and what is
known. -/
theorem of_only {S : List (Write ρ) → Prop} {R : ρ → Prop} {p : Prog σ ρ Call Reply ε α}
    (hp : p.Only S) (hreads : p.Reads R)
    (hs : ∀ {β : Type} (s : Stmt σ ρ β), (∀ db e, s db = some e → S e.writes ∧ ∀ r ∈ e.read, R r) →
      K.Step F s fun _ => F)
    (hfail : ∀ tx tr, F tx tr → F tx.abort (.failed :: tr))
    (hc : ∀ c, K.Asks F c) : K.Keeps F p fun _ => F := by
  induction p with
  | pure a => exact pure fun _ _ h => h
  | fail e => exact fail
  | stmt s k ih =>
      refine stmt (hs s fun db e he => ⟨hp.1 db e he, hreads.1 db e he⟩)
        (fun b => ih _ (hp.2 _) (hreads.2 _)) ((ih _ (hp.2 _) (hreads.2 _)).mono ?_ fun _ _ _ h => h)
      rintro tx tr ⟨tx', tr', hF, rfl, rfl⟩
      exact hfail _ _ hF
  | begin k => exact hp.elim
  | commit k => exact hp.elim
  | call c k ih => exact ask (hc c) fun r => ih r (hp r) (hreads r)

end Keeps

/-- **Calls that keep their protocols.**  When what each call guarantees the others rely on, the
protocol of every call holds throughout a run. -/
theorem pool {K : κ → Protocol M} {handler : κ → Prog σ ρ Call Reply ε α}
    {P₀ P : Pool κ σ ρ Call Reply χ ε α} {turns : List (Turn κ μ)}
    {C : Pool κ σ ρ Call Reply χ ε α → Turn κ μ → Prop} {X : Pool κ σ ρ Call Reply χ ε α → Prop}
    {J : World σ χ → Prop} {B : κ → α → Known ρ Call Reply}
    (hX : ∀ P a P', X P → C P a → P.step M handler a = some P' → X P')
    (hrefl : ∀ P c, X P → c ∈ P.calls → c.2.prog.result = none →
      (K c.1).rely c.2.trace P.world P.world)
    (htrans : ∀ q tr w w' w'', (K q).rely tr w w' → (K q).rely tr w' w'' → (K q).rely tr w w'')
    (hR : ∀ (P P' : Pool κ σ ρ Call Reply χ ε α) (i j : ℕ) c c' d, X P → X P' → J P.world →
      P.calls[i]? = some c → P'.calls[i]? = some c' → i ≠ j →
      P.calls[j]? = some d → P'.calls[j]? = some d → c'.1 = c.1 → c.2.prog.result = none →
      (K c.1).grant c.2.trace P.world c'.2.trace P'.world → d.2.prog.result = none →
      (K d.1).rely d.2.trace P.world P'.world)
    (hJ : ∀ q tr w tr' w', (K q).grant tr w tr' w' → J w → J w')
    (hstart : ∀ P q, C P (.arrive q) → J P.world → (K q).Inv .idle [] P.world)
    (hkeeps : ∀ q, (K q).Keeps (fun tx tr => tx = .idle ∧ tr = []) (handler q) (B q))
    (hrun : Machine.ExecWhile (Pool.step M handler) C P₀ turns P) (h₀ : P₀.calls = [])
    (hX₀ : X P₀) (hJ₀ : J P₀.world) :
    X P ∧ J P.world ∧ ∀ c ∈ P.calls, ∃ w,
      (c.2.prog.result = none → (K c.1).rely c.2.trace w P.world) ∧ (K c.1).Holds c.2.trace w ∧
      c.2.Meets M (K c.1).rely (K c.1).grant
        (fun r tx tr w => (K c.1).Inv tx tr w ∧ ∀ a, r = .ok a → B c.1 a tx tr) w := by
  refine Pool.rely_guarantee (I := fun q => (K q).Holds)
    (Q := fun q r tx tr w => (K q).Inv tx tr w ∧ ∀ a, r = .ok a → B q a tx tr)
    hX hrefl htrans hR hJ ?_ ?_ (fun _ _ _ _ _ hg _ => hg.2) ?_ hrun h₀ hX₀ hJ₀
  · rintro q tr w w₁ hw ⟨tx, hI⟩
    exact ⟨tx, (K q).stable _ _ _ _ hw hI⟩
  · rintro q tr w ⟨tx, hI⟩
    exact ⟨.idle, (K q).ended _ _ _ hI⟩
  · intro P q hC hj
    have hI := hstart P q hC hj
    exact ⟨⟨.idle, hI⟩, hkeeps q .idle [] P.world ⟨rfl, rfl⟩ hI⟩

end Protocol

end Program
