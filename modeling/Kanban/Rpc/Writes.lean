import Kanban.Rpc.Commits

/-!
# What a handler writes

A condition on single writes may speak of what the call has seen before it.  A handler meets it if
each of its statements does: the writes of a transaction wait, and the call sees only more until
they are committed.

## Main definitions

* `WriteSpec` — a condition on the writes of a call.
* `WriteSpec.Writes` — a handler all of whose writes meet it, with a rule for each construct.
-/

namespace Kanban.Rpc

open Program Kanban.Store Kanban.Auth
open Kanban.Services (AuthContext ConnectError IdCodec)

/-- A condition on a write after a trace. What a call has seen it has seen for good, and keys may
always be stored. -/
structure WriteSpec (ι : Type) where
  ok : Trace (Rec ι) (Call ι) (Reply ι) → Write (Rec ι) → Prop
  grow : ∀ tr tr' a, tr <:+ tr' → ok tr a → ok tr' a
  key : ∀ tr r, ok tr (.put (.idempotencyKey r))

namespace WriteSpec

variable {ι α β τ : Type} [DecidableEq ι] (S : WriteSpec ι)

/-- The writes that wait for a commit meet the condition. -/
def Waits : Tx (Rec ι) → Trace (Rec ι) (Call ι) (Reply ι) → Prop
  | .active ws, tr => ∀ a ∈ ws, S.ok tr a
  | _, _ => True

/-- A commit all of whose writes meet the condition. -/
def Good : Commitment (Rec ι) (Call ι) (Reply ι) := fun past ws => ∀ a ∈ ws, S.ok past a

/-- From `tr₀` on every write of the handler meets the condition. -/
def Writes (tr₀ : Trace (Rec ι) (Call ι) (Reply ι)) (p : Handler ι α) : Prop :=
  ∀ tx tr, tr₀ <:+ tr → S.Waits tx tr →
    Runs (kanban ι) S.Good p tx tr fun _ tx' tr' => tr <:+ tr' ∧ S.Waits tx' tr'

variable {S} {tr₀ tr tr' : Trace (Rec ι) (Call ι) (Reply ι)}

omit [DecidableEq ι] in
theorem Waits.grow {tx : Tx (Rec ι)} (h : S.Waits tx tr) (htr : tr <:+ tr') : S.Waits tx tr' := by
  cases tx with
  | active ws => exact fun a ha => S.grow _ _ _ htr (h a ha)
  | idle => trivial
  | aborted => trivial

namespace Writes

theorem grow {p : Handler ι α} (h : S.Writes tr₀ p) (htr : tr₀ <:+ tr) : S.Writes tr p :=
  fun tx tr' htr' hw => h tx tr' (htr.trans htr') hw

theorem pure {a : α} : S.Writes tr₀ (.pure a) := fun _ _ _ hw => runs_pure ⟨List.suffix_rfl, hw⟩

theorem fail {e : ConnectError} : S.Writes tr₀ (.fail e : Handler ι α) := fun _ _ _ _ => runs_fail

theorem bind {p : Handler ι α} {f : α → Handler ι β} (hp : S.Writes tr₀ p)
    (hf : ∀ a tr, tr₀ <:+ tr → S.Writes tr (f a)) : S.Writes tr₀ (p.bind f) := by
  intro tx tr htr hw
  refine runs_bind ((hp tx tr htr hw).mono fun a tx' tr' ⟨htr', hw'⟩ => ?_)
  refine (hf a tr' (htr.trans htr') tx' tr' List.suffix_rfl hw').mono ?_
  exact fun _ _ _ h => ⟨htr'.trans h.1, h.2⟩

theorem orError_bind {o : Option α} {e : ConnectError} {f : α → Handler ι β}
    (hf : ∀ a, o = some a → S.Writes tr₀ (f a)) : S.Writes tr₀ ((orError e o).bind f) := by
  cases o with
  | none => exact fail
  | some a => exact hf a rfl

theorem ensure_bind {p : Prop} [Decidable p] {e : ConnectError} {f : Unit → Handler ι β}
    (hf : p → S.Writes tr₀ (f ())) : S.Writes tr₀ ((ensure p e).bind f) := by
  unfold ensure
  split
  · exact hf ‹p›
  · exact fail

theorem ite {c : Prop} [Decidable c] {p q : Handler ι α} (hp : S.Writes tr₀ p)
    (hq : S.Writes tr₀ q) : S.Writes tr₀ (if c then p else q) := by
  split
  · exact hp
  · exact hq

/-- Two ways to the same rest. -/
theorem fork {c : Prop} [Decidable c] {p q : Handler ι α} {f : α → Handler ι β}
    (hp : S.Writes tr₀ p) (hq : S.Writes tr₀ q) (hf : ∀ a tr, tr₀ <:+ tr → S.Writes tr (f a)) :
    S.Writes tr₀ (if c then p.bind f else q.bind f) :=
  ite (hp.bind hf) (hq.bind hf)

/-! ### Statements -/

/-- The program goes on with an answer to the statement, or without one. -/
theorem stmt {s : Stmt (Db ι) (Rec ι) β} {k : Option β → Handler ι α}
    (hs : ∀ tr db e, tr₀ <:+ tr → s db = some e → ∀ a ∈ e.writes, S.ok (.ran e.read :: tr) a)
    (hok : ∀ tr db e, tr₀ <:+ tr → s db = some e → (∀ r ∈ e.read, Saw tr r) →
      S.Writes tr (k (some e.answer)))
    (hfail : S.Writes tr₀ (k none)) : S.Writes tr₀ (.stmt s k) := by
  intro tx tr htr hw
  have hbad : ∀ tx, S.Waits tx (.failed :: tr) → Runs (kanban ι) S.Good (k none) tx (.failed :: tr)
      fun _ tx' tr' => tr <:+ tr' ∧ S.Waits tx' tr' := by
    intro tx hw
    have hcons : tr <:+ .failed :: tr := List.suffix_cons _ _
    refine (hfail tx _ (htr.trans hcons) hw).mono fun _ _ _ h => ⟨hcons.trans h.1, h.2⟩
  cases tx with
  | idle =>
      refine runs_stmt_idle (fun db e he => ?_) (hbad .idle trivial)
      have hcons : tr <:+ .committed e.writes :: .ran e.read :: tr :=
        ⟨[.committed e.writes, .ran e.read], rfl⟩
      refine ⟨hs tr db e htr he, ?_⟩
      refine (hok _ db e (htr.trans hcons) he (fun r hr => (saw_ran hr).cons) .idle _ List.suffix_rfl
        trivial).mono fun _ _ _ h => ⟨hcons.trans h.1, h.2⟩
  | active ws =>
      refine runs_stmt_active (fun db e he => ?_) (hbad .aborted trivial)
      have hcons : tr <:+ .ran e.read :: tr := List.suffix_cons _ _
      have hw' : S.Waits (.active (ws ++ e.writes)) (.ran e.read :: tr) := by
        intro a ha
        rcases List.mem_append.mp ha with ha | ha
        · exact S.grow _ _ _ hcons (hw a ha)
        · exact hs tr db e htr he a ha
      refine (hok _ db e (htr.trans hcons) he (fun r hr => saw_ran hr) _ _ List.suffix_rfl hw').mono ?_
      exact fun _ _ _ h => ⟨hcons.trans h.1, h.2⟩
  | aborted => exact runs_stmt_aborted (hbad .aborted trivial)

/-- A program that writes keys at most. -/
theorem of_tame {p : Handler ι α} (h : Tame p) : S.Writes tr₀ p := by
  induction p generalizing tr₀ with
  | pure a => exact pure
  | fail e => exact fail
  | stmt s k ih =>
      refine stmt (fun tr db e _ he a ha => ?_) (fun tr db e _ _ _ => ih _ (h.2 _)) (ih _ (h.2 _))
      obtain ⟨r, rfl⟩ := h.1 db e he a ha
      exact S.key _ r
  | begin k => exact h.elim
  | commit k => exact h.elim
  | call c k ih =>
      intro tx tr htr hw
      refine runs_call fun r => ?_
      have hcons : tr <:+ .called c r :: tr := List.suffix_cons _ _
      refine (ih r (h r) tx _ List.suffix_rfl (hw.grow hcons)).mono ?_
      exact fun _ _ _ h => ⟨hcons.trans h.1, h.2⟩

theorem query_bind {msg : String} {s : Stmt (Db ι) (Rec ι) β} {f : β → Handler ι α}
    (hs : ∀ tr db e, tr₀ <:+ tr → s db = some e → ∀ a ∈ e.writes, S.ok (.ran e.read :: tr) a)
    (hf : ∀ tr db e, tr₀ <:+ tr → s db = some e → (∀ r ∈ e.read, Saw tr r) →
      S.Writes tr (f e.answer)) : S.Writes tr₀ ((query msg s).bind f) := stmt hs hf fail

theorem query {msg : String} {s : Stmt (Db ι) (Rec ι) β}
    (hs : ∀ tr db e, tr₀ <:+ tr → s db = some e → ∀ a ∈ e.writes, S.ok (.ran e.read :: tr) a) :
    S.Writes tr₀ (Rpc.query msg s) := stmt hs (fun _ _ _ _ _ _ => pure) fail

/-- The first row of a statement's answer, or an error. -/
theorem fetchOr {msg : String} {err : ConnectError} {s : Stmt (Db ι) (Rec ι) (List β)}
    (hs : ∀ tr db e, tr₀ <:+ tr → s db = some e → ∀ a ∈ e.writes, S.ok (.ran e.read :: tr) a) :
    S.Writes tr₀ (Rpc.fetchOr msg err s) :=
  bind (bind (query hs) fun _ _ _ => pure) fun _ _ _ => of_tame .orError

theorem fetchOne {msg : String} {s : Stmt (Db ι) (Rec ι) (List β)}
    (hs : ∀ tr db e, tr₀ <:+ tr → s db = some e → ∀ a ∈ e.writes, S.ok (.ran e.read :: tr) a) :
    S.Writes tr₀ (Rpc.fetchOne msg s) := bind (query hs) fun _ _ _ => of_tame .orError

theorem attempt {s : Stmt (Db ι) (Rec ι) β}
    (hs : ∀ tr db e, tr₀ <:+ tr → s db = some e → ∀ a ∈ e.writes, S.ok (.ran e.read :: tr) a) :
    S.Writes tr₀ (Rpc.attempt s) := stmt hs (fun _ _ _ _ _ _ => pure) pure

/-- A statement on a table whose rows may be written. -/
theorem query_of_within {msg : String} {T : Table (Db ι) (Rec ι) τ} {s : Stmt (Db ι) (Rec ι) β}
    (hT : ∀ tr r, S.ok tr (.put (T.record r)) ∧ S.ok tr (.del (T.record r)))
    (hs : ∀ db e, s db = some e → ∀ a ∈ e.writes, ∃ r, a = .put (T.record r) ∨ a = .del (T.record r)) :
    S.Writes tr₀ (Rpc.query msg s) := by
  refine query fun tr db e _ he a ha => ?_
  obtain ⟨r, rfl | rfl⟩ := hs db e he a ha
  · exact (hT _ r).1
  · exact (hT _ r).2

/-- The first row of a `SELECT`, if there is one: the call has seen it. -/
theorem fetchOptional_bind {msg : String} {T : Table (Db ι) (Rec ι) τ} {p : τ → Bool}
    {f : Option τ → Handler ι α} (hnone : ∀ tr, tr₀ <:+ tr → S.Writes tr (f none))
    (hf : ∀ r tr, tr₀ <:+ tr → p r → Saw tr (T.record r) → S.Writes tr (f (some r))) :
    S.Writes tr₀ ((fetchOptional msg (T.select p)).bind f) := by
  unfold fetchOptional
  rw [Prog.bind_assoc]
  refine query_bind (fun tr db e _ he a ha => ?_) fun tr db e htr he hsaw => ?_
  · cases he
    cases ha
  · cases he
    change S.Writes tr (f ((T.rows db).filter p).head?)
    cases hr : ((T.rows db).filter p).head? with
    | none => exact hnone tr htr
    | some r =>
        have hmem := List.mem_of_mem_head? hr
        exact hf r tr htr (List.mem_filter.mp hmem).2 (hsaw _ (List.mem_map_of_mem hmem))

/-- The first row of a `SELECT`, which the call has seen. -/
theorem fetchOr_bind {msg : String} {err : ConnectError} {T : Table (Db ι) (Rec ι) τ}
    {p : τ → Bool} {f : τ → Handler ι α}
    (hf : ∀ r tr, tr₀ <:+ tr → p r → Saw tr (T.record r) → S.Writes tr (f r)) :
    S.Writes tr₀ ((Rpc.fetchOr msg err (T.select p)).bind f) := by
  unfold Rpc.fetchOr
  rw [Prog.bind_assoc]
  exact fetchOptional_bind (fun _ _ => fail) hf

/-! ### Transactions -/

theorem beginTx {msg : String} : S.Writes tr₀ (beginTx msg : Handler ι Unit) := fun _ _ _ _ =>
  runs_beginTx ⟨List.suffix_rfl, by simp [Waits]⟩

theorem commitTx {msg : String} : S.Writes tr₀ (commitTx msg : Handler ι Unit) := by
  rintro tx tr htr hw w w₁ -
  cases tx with
  | active ws =>
      refine ⟨⟨.inr ⟨ws, tr, rfl, .inl rfl, hw, rfl⟩, ?_⟩, fun a ha => by cases ha⟩
      rintro a ⟨⟩
      exact ⟨List.suffix_cons _ _, trivial⟩
  | idle =>
      refine ⟨?_, fun a ha => by cases ha⟩
      rintro a ⟨⟩
      exact ⟨List.suffix_rfl, trivial⟩
  | aborted =>
      refine ⟨?_, fun a ha => by cases ha⟩
      rintro a ⟨⟩
      exact ⟨List.suffix_rfl, trivial⟩

/-! ### Events -/

section Events

variable {tenantId eventType : String} {payload : Payload}

theorem insertRow {boardId aggregatedBoardId projectId : Option ι}
    (hevent : ∀ tr r, S.ok tr (.put (.event r))) : S.Writes tr₀ (insertRow tenantId boardId
      aggregatedBoardId projectId eventType payload) := by
  refine bind (of_tame .newId) fun id tr _ => bind (query fun tr db e _ he a ha => ?_) fun _ _ _ =>
    of_tame (.query fun db e he => by cases he; rfl)
  rw [Table.writes_insert he] at ha
  rw [List.mem_singleton.mp ha]
  exact hevent _ _

theorem insertBoardEvent {boardId : ι} (hboard : ∀ tr b, Saw tr (.board b) →
      S.ok tr (.put (.board { b with revision := b.revision + 1 })))
    (hevent : ∀ tr r, S.ok tr (.put (.event r))) :
    S.Writes tr₀ (insertBoardEvent tenantId boardId eventType payload) := by
  refine bind (bind (query fun tr db e _ he a ha => ?_) fun _ _ _ => of_tame .orError) fun _ _ _ =>
    insertRow hevent
  obtain ⟨b, -, hread, rfl⟩ := Table.mem_writes_update he ha
  exact hboard _ b (saw_ran hread)

end Events

/-! ### Cards -/

section Cards

variable {tenantId : String} {columnId : ι}

theorem newId_bind {f : ι → Handler ι α}
    (hf : ∀ id tr, tr₀ <:+ tr → .called .newId id ∈ tr → S.Writes tr (f id)) :
    S.Writes tr₀ (newId.bind f) := by
  intro tx tr htr hw
  refine runs_bind (runs_newId fun id => ?_)
  have hcons : tr <:+ .called .newId id :: tr := List.suffix_cons _ _
  refine (hf id _ (htr.trans hcons) List.mem_cons_self tx _ List.suffix_rfl (hw.grow hcons)).mono ?_
  exact fun _ _ _ h => ⟨hcons.trans h.1, h.2⟩

theorem allocateCardRef {projectId : ι} (hcounter : ∀ tr r, S.ok tr (.put (.refCounter r))) :
    S.Writes tr₀ (allocateCardRef tenantId projectId) := by
  refine bind (of_tame (.query fun db e he => by cases he; rfl)) fun _ tr _ =>
    bind (fetchOne fun tr db e _ he a ha => ?_) fun _ _ _ => pure
  unfold nextCardRef at he
  split at he
  · cases he
    cases ha
  · obtain ⟨e', he', rfl⟩ := Option.map_eq_some_iff.mp he
    unfold Table.upsert at he'
    split at he'
    · cases he'
      rw [List.mem_singleton.mp ha]
      exact hcounter _ _
    · cases he'
      rw [List.mem_singleton.mp ha]
      exact hcounter _ _

/-- A card that was read may be written back with another position. -/
theorem shiftCards {msg : String} {p : ℤ → Bool} {delta : ℤ} (hshift : ∀ tr c n, tr₀ <:+ tr →
      Saw tr (.card c) → S.ok tr (.put (.card { c with position := n }))) :
    S.Writes tr₀ (Rpc.query msg (shiftCards tenantId columnId p delta)) := by
  refine query fun tr db e htr he a ha => ?_
  obtain ⟨c, c', -, hread, hf, rfl⟩ := Table.mem_writes_updateChecked he ha
  obtain ⟨n, -, rfl⟩ := Option.map_eq_some_iff.mp hf
  exact hshift _ c n (htr.trans (List.suffix_cons _ _)) (saw_ran hread)

theorem insertPosition {position : ℤ} (hshift : ∀ tr c n, tr₀ <:+ tr →
      Saw tr (.card c) → S.ok tr (.put (.card { c with position := n }))) :
    S.Writes tr₀ (insertPosition tenantId columnId position) :=
  ite (bind (of_tame (.attempt (Tame.quiet_of_silent silent_nextPosition))) fun _ _ _ => pure)
    (bind (shiftCards hshift) fun _ _ _ => pure)

end Cards

end Writes

end WriteSpec

end Kanban.Rpc
