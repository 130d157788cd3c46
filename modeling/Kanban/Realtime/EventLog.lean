import Mathlib.Data.Multiset.MapFold
import Mathlib.Order.Interval.Finset.Nat
import Mathlib.Logic.Function.Basic
import Kanban.Lib.Exec

/-!
# The event log

`event_log.rs`: every mutation inserts its `event_log` row in the transaction of the entity
write.  A board event bumps `boards.revision` under the row lock of the `UPDATE` and merges
the new revision into the payload; aggregated boards do the same with their own counter, and
project events carry none.

Transactions are interleaved statement by statement.  A statement that fails leaves the
transaction to be rolled back, since every caller propagates the error.

## Main definitions

* `Value`, `withBoardRevision` — the JSON payload and the merge of the revision into it.
* `EventRow` — a row of `event_log`.
* `EventLog` — the committed counters and rows, the row locks and the open transactions.
* `EventLog.step` — one statement of one transaction.
* `revisionsOf` — the revisions that the rows of a counter carry.
-/

namespace Kanban.Realtime

open Machine

/-! ## Payloads -/

/-- A JSON value. -/
inductive Value
  | null
  | bool (b : Bool)
  | num (n : ℤ)
  | str (s : String)
  | array (items : List Value)
  | object (fields : List (String × Value))

/-- Insert into a JSON map, replacing the value of a key that is there. -/
def setField (key : String) (v : Value) : List (String × Value) → List (String × Value)
  | [] => [(key, v)]
  | (k, w) :: fields => if k = key then (key, v) :: fields else (k, w) :: setField key v fields

namespace Value

/-- `Value::get`. -/
def get : Value → String → Option Value
  | .object fields, key => fields.lookup key
  | _, _ => none

def isObject : Value → Bool
  | .object _ => true
  | _ => false

end Value

/-- Merge `"board_revision"` into the payload JSON object. -/
def withBoardRevision (payload : Value) (revision : ℕ) : Value :=
  match payload with
  | .object fields => .object (setField "board_revision" (.num revision) fields)
  | v => v

theorem lookup_setField_self (key : String) (v : Value) (fields : List (String × Value)) :
    (setField key v fields).lookup key = some v := by
  induction fields with
  | nil => simp [setField]
  | cons f fields ih =>
      obtain ⟨k, w⟩ := f
      by_cases hk : k = key
      · simp [setField, hk]
      · have hkey : (key == k) = false := beq_false_of_ne (Ne.symm hk)
        simp [setField, hk, List.lookup_cons, hkey, ih]

theorem lookup_setField_of_ne {key key' : String} (h : key' ≠ key) (v : Value)
    (fields : List (String × Value)) :
    (setField key v fields).lookup key' = fields.lookup key' := by
  have hbeq : (key' == key) = false := beq_false_of_ne h
  induction fields with
  | nil => simp [setField, List.lookup_cons, hbeq]
  | cons f fields ih =>
      obtain ⟨k, w⟩ := f
      by_cases hk : k = key
      · subst hk; simp [setField, List.lookup_cons, hbeq]
      · simp [setField, hk, List.lookup_cons, ih]

/-- An object payload carries the revision merged into it. -/
theorem get_withBoardRevision {payload : Value} (h : payload.isObject) (revision : ℕ) :
    (withBoardRevision payload revision).get "board_revision" = some (.num revision) := by
  cases payload with
  | object fields => exact lookup_setField_self _ _ _
  | null | bool | num | str | array => simp [Value.isObject] at h

/-- The merge keeps every other key. -/
theorem get_withBoardRevision_of_ne {key : String} (h : key ≠ "board_revision")
    (payload : Value) (revision : ℕ) :
    (withBoardRevision payload revision).get key = payload.get key := by
  cases payload with
  | object fields => exact lookup_setField_of_ne h _ _
  | null | bool | num | str | array => rfl

/-! ## Rows and transactions -/

/-- The columns that an insert binds besides the id. -/
structure NewRow (ι : Type*) where
  tenantId : String
  boardId : Option ι
  aggregatedBoardId : Option ι
  projectId : Option ι
  eventType : String
  payload : Value

/-- A row of `event_log`. -/
structure EventRow (ι : Type*) extends NewRow ι where
  id : ι
  natsSeq : Option ℕ

/-- A revision counter: `boards.revision` or `aggregated_boards.revision`. -/
inductive Counter (ι : Type*)
  | board (id : ι)
  | aggregatedBoard (id : ι)
  deriving DecidableEq

/-- Where a transaction stands within an insert helper. -/
inductive TxPc (ι : Type*)
  /-- Between two calls. -/
  | idle
  /-- The counter is bumped; the row is to be inserted. -/
  | insertRow (row : NewRow ι)
  /-- The row is inserted; `pg_notify` is to be issued. -/
  | notify
  /-- A statement failed. -/
  | failed

/-- An open transaction: its uncommitted counters and rows. -/
structure Tx (ι : Type*) where
  pc : TxPc ι
  revisions : Counter ι → Option ℕ
  rows : List (EventRow ι)

/-- The committed state, the row locks of the counters and the open transactions. -/
structure EventLog (ι : Type*) where
  revision : Counter ι → Option ℕ
  rows : List (EventRow ι)
  locks : Counter ι → Option ℕ
  txs : ℕ → Option (Tx ι)

variable {ι : Type*} [DecidableEq ι]

namespace EventLog

def setTx (s : EventLog ι) (t : ℕ) (tx : Option (Tx ι)) : EventLog ι :=
  { s with txs := Function.update s.txs t tx }

/-- `UPDATE … SET revision = revision + 1 … RETURNING revision`.  The statement waits while
another transaction holds the row lock, and fails when there is no such row; the row to
insert next is built from the returned revision. -/
def bump (s : EventLog ι) (t : ℕ) (c : Counter ι) (row : ℕ → NewRow ι) : Option (EventLog ι) :=
  match s.txs t with
  | some ⟨.idle, revisions, rows⟩ =>
      match s.revision c with
      | none => some (s.setTx t (some ⟨.failed, revisions, rows⟩))
      | some committed =>
          if s.locks c = none ∨ s.locks c = some t then
            let revision := (revisions c).getD committed + 1
            some ({ s with locks := Function.update s.locks c (some t) }.setTx t
              (some ⟨.insertRow (row revision), Function.update revisions c (some revision),
                rows⟩))
          else none
  | _ => none

/-- `insert_board_event`, up to its first statement. -/
def insertBoardEvent (s : EventLog ι) (t : ℕ) (tenantId : String) (boardId : ι)
    (eventType : String) (payload : Value) : Option (EventLog ι) :=
  s.bump t (.board boardId) fun revision =>
    ⟨tenantId, some boardId, none, none, eventType, withBoardRevision payload revision⟩

/-- `insert_aggregated_event`, up to its first statement. -/
def insertAggregatedEvent (s : EventLog ι) (t : ℕ) (tenantId : String) (aggregatedBoardId : ι)
    (eventType : String) (payload : Value) : Option (EventLog ι) :=
  s.bump t (.aggregatedBoard aggregatedBoardId) fun revision =>
    ⟨tenantId, none, some aggregatedBoardId, none, eventType, withBoardRevision payload revision⟩

/-- `insert_project_event`: no counter. -/
def insertProjectEvent (s : EventLog ι) (t : ℕ) (tenantId : String) (projectId : ι)
    (eventType : String) (payload : Value) : Option (EventLog ι) :=
  match s.txs t with
  | some ⟨.idle, revisions, rows⟩ =>
      some (s.setTx t (some
        ⟨.insertRow ⟨tenantId, none, none, some projectId, eventType, payload⟩, revisions, rows⟩))
  | _ => none

/-- `insert_row` with the fresh `id`; a duplicate primary key is not inserted. -/
def insertRow (s : EventLog ι) (t : ℕ) (id : ι) : Option (EventLog ι) :=
  match s.txs t with
  | some ⟨.insertRow row, revisions, rows⟩ =>
      if id ∈ (s.rows ++ rows).map EventRow.id then none
      else some (s.setTx t (some ⟨.notify, revisions, rows ++ [⟨row, id, none⟩]⟩))
  | _ => none

def notify (s : EventLog ι) (t : ℕ) : Option (EventLog ι) :=
  match s.txs t with
  | some ⟨.notify, revisions, rows⟩ => some (s.setTx t (some ⟨.idle, revisions, rows⟩))
  | _ => none

/-- The locks of `t` are released. -/
def unlock (s : EventLog ι) (t : ℕ) : EventLog ι :=
  { s with locks := fun c => if s.locks c = some t then none else s.locks c }

/-- Make the counters and rows of `t` visible.  Two transactions never commit one primary
key: the second insert would have waited for the first commit and failed. -/
def commit (s : EventLog ι) (t : ℕ) : Option (EventLog ι) :=
  match s.txs t with
  | some ⟨.idle, revisions, rows⟩ =>
      if ((s.rows ++ rows).map EventRow.id).Nodup then
        some (({ s with
          revision := fun c => (revisions c).or (s.revision c)
          rows := s.rows ++ rows }.unlock t).setTx t none)
      else none
  | _ => none

inductive Action (ι : Type*)
  | begin (t : ℕ)
  | insertBoardEvent (t : ℕ) (tenantId : String) (boardId : ι) (eventType : String)
      (payload : Value)
  | insertAggregatedEvent (t : ℕ) (tenantId : String) (aggregatedBoardId : ι)
      (eventType : String) (payload : Value)
  | insertProjectEvent (t : ℕ) (tenantId : String) (projectId : ι) (eventType : String)
      (payload : Value)
  | insertRow (t : ℕ) (id : ι)
  | notify (t : ℕ)
  /-- The current statement, of a helper or of the caller, fails. -/
  | fail (t : ℕ)
  | commit (t : ℕ)
  | rollback (t : ℕ)

def step (s : EventLog ι) : Action ι → Option (EventLog ι)
  | .begin t =>
      match s.txs t with
      | none => some (s.setTx t (some ⟨.idle, fun _ => none, []⟩))
      | some _ => none
  | .insertBoardEvent t tenantId boardId eventType payload =>
      s.insertBoardEvent t tenantId boardId eventType payload
  | .insertAggregatedEvent t tenantId aggregatedBoardId eventType payload =>
      s.insertAggregatedEvent t tenantId aggregatedBoardId eventType payload
  | .insertProjectEvent t tenantId projectId eventType payload =>
      s.insertProjectEvent t tenantId projectId eventType payload
  | .insertRow t id => s.insertRow t id
  | .notify t => s.notify t
  | .fail t =>
      match s.txs t with
      | some tx => some (s.setTx t (some { tx with pc := .failed }))
      | none => none
  | .commit t => s.commit t
  | .rollback t =>
      match s.txs t with
      | some _ => some ((s.unlock t).setTx t none)
      | none => none

/-- Event payloads are JSON objects. -/
def Action.objectPayload : Action ι → Bool
  | .insertBoardEvent _ _ _ _ payload => payload.isObject
  | .insertAggregatedEvent _ _ _ _ payload => payload.isObject
  | _ => true

end EventLog

namespace EventLog

/-! ## What a statement does to the rows -/

/-- Row ids are unique, and the rows of open transactions are undispatched. -/
structure Wf (s : EventLog ι) : Prop where
  ids : (s.rows.map EventRow.id).Nodup
  unsent : ∀ t tx, s.txs t = some tx → ∀ row ∈ tx.rows, row.natsSeq = none

omit [DecidableEq ι] in
theorem Wf.setTx {s : EventLog ι} (hs : s.Wf) {t : ℕ} {v : Option (Tx ι)}
    (hv : ∀ tx, v = some tx → ∀ row ∈ tx.rows, row.natsSeq = none) : (s.setTx t v).Wf := by
  refine ⟨hs.ids, fun u tx hu => ?_⟩
  by_cases hut : u = t
  · subst hut
    exact hv tx (by simpa [EventLog.setTx] using hu)
  · exact hs.unsent u tx (by simpa [EventLog.setTx, hut] using hu)

omit [DecidableEq ι] in
/-- A transaction that goes on with the same rows. -/
theorem Wf.replaceTx {s s' : EventLog ι} (hs : s.Wf) {t : ℕ} {tx tx' : Tx ι}
    (htx : s.txs t = some tx) (hrows : tx'.rows = tx.rows) (hr : s'.rows = s.rows)
    (hx : s'.txs = s.txs) : (s'.setTx t (some tx')).Wf := by
  have hs' : s'.Wf := ⟨hr ▸ hs.ids, hx ▸ hs.unsent⟩
  refine hs'.setTx fun tx₁ h => ?_
  obtain rfl := Option.some.inj h
  rw [hrows]
  exact hs.unsent t tx htx

/-- The rows of the log after a statement: unchanged, unless it commits a transaction. -/
theorem step_rows {s s' : EventLog ι} {a : Action ι} (hstep : s.step a = some s') :
    s'.rows = s.rows ∨ ∃ t revisions rows, a = .commit t ∧
      s.txs t = some ⟨.idle, revisions, rows⟩ ∧ s'.rows = s.rows ++ rows ∧
      (s'.rows.map EventRow.id).Nodup := by
  cases a with
  | commit t =>
      simp only [EventLog.step, EventLog.commit] at hstep
      split at hstep
      · rename_i revisions rows htx
        split at hstep
        · rename_i hnd
          obtain rfl := Option.some.inj hstep
          exact .inr ⟨t, revisions, rows, rfl, htx, rfl, hnd⟩
        · cases hstep
      · cases hstep
  | insertBoardEvent | insertAggregatedEvent =>
      simp only [EventLog.step, EventLog.insertBoardEvent, EventLog.insertAggregatedEvent,
        EventLog.bump] at hstep
      left
      split at hstep
      · split at hstep
        · obtain rfl := Option.some.inj hstep; rfl
        · split at hstep
          · obtain rfl := Option.some.inj hstep; rfl
          · cases hstep
      · cases hstep
  | insertRow =>
      simp only [EventLog.step, EventLog.insertRow] at hstep
      left
      split at hstep
      · split at hstep
        · cases hstep
        · obtain rfl := Option.some.inj hstep; rfl
      · cases hstep
  | begin | insertProjectEvent | notify | fail | rollback =>
      simp only [EventLog.step, EventLog.insertProjectEvent, EventLog.notify] at hstep
      left
      split at hstep
      · obtain rfl := Option.some.inj hstep; rfl
      · cases hstep

/-- The rows of a transaction after a statement are its rows before, or a new undispatched
one. -/
theorem Wf.step {s s' : EventLog ι} (hs : s.Wf) {a : Action ι} (hstep : s.step a = some s') :
    s'.Wf := by
  cases a with
  | commit t =>
      simp only [EventLog.step, EventLog.commit] at hstep
      split at hstep
      · split at hstep
        · rename_i hnd
          obtain rfl := Option.some.inj hstep
          refine ⟨hnd, fun u tx hu => ?_⟩
          have hut : u ≠ t := by
            intro hut; subst hut; simp [EventLog.setTx] at hu
          exact hs.unsent u tx (by simpa [EventLog.setTx, unlock, hut] using hu)
        · cases hstep
      · cases hstep
  | insertBoardEvent | insertAggregatedEvent =>
      simp only [EventLog.step, EventLog.insertBoardEvent, EventLog.insertAggregatedEvent,
        EventLog.bump] at hstep
      split at hstep
      · rename_i htx
        split at hstep
        · obtain rfl := Option.some.inj hstep
          exact hs.replaceTx htx rfl rfl rfl
        · split at hstep
          · obtain rfl := Option.some.inj hstep
            exact hs.replaceTx htx rfl rfl rfl
          · cases hstep
      · cases hstep
  | insertRow =>
      simp only [EventLog.step, EventLog.insertRow] at hstep
      split at hstep
      · rename_i htx
        split at hstep
        · cases hstep
        · obtain rfl := Option.some.inj hstep
          refine hs.setTx fun tx h row hrow => ?_
          obtain rfl := Option.some.inj h
          rcases List.mem_append.mp hrow with hrow | hrow
          · exact hs.unsent _ _ htx row hrow
          · obtain rfl := List.mem_singleton.mp hrow; rfl
      · cases hstep
  | insertProjectEvent | notify | fail =>
      simp only [EventLog.step, EventLog.insertProjectEvent, EventLog.notify] at hstep
      split at hstep
      · rename_i htx
        obtain rfl := Option.some.inj hstep
        exact hs.replaceTx htx rfl rfl rfl
      · cases hstep
  | begin t =>
      simp only [EventLog.step] at hstep
      split at hstep
      · obtain rfl := Option.some.inj hstep
        refine hs.setTx fun tx h => ?_
        obtain rfl := Option.some.inj h
        intro row hrow; cases hrow
      · cases hstep
  | rollback t =>
      simp only [EventLog.step] at hstep
      split at hstep
      · obtain rfl := Option.some.inj hstep
        have hs' : (s.unlock t).Wf := ⟨hs.ids, hs.unsent⟩
        exact hs'.setTx fun tx h => by cases h
      · cases hstep

end EventLog

/-! ## The revisions of a counter -/

/-- The row is an event of the counter's object. -/
def NewRow.targets (row : NewRow ι) : Counter ι → Bool
  | .board b => row.boardId = some b
  | .aggregatedBoard a => row.aggregatedBoardId = some a

/-- The `board_revision` values of the rows of a counter, in row order. -/
def revisionsOf (c : Counter ι) (rows : List (NewRow ι)) : List (Option Value) :=
  (rows.filter (·.targets c)).map fun row => row.payload.get "board_revision"

/-- The revisions `lo, …, lo + n - 1`. -/
def numbered (lo n : ℕ) : List (Option Value) :=
  (List.range' lo n).map fun i : ℕ => some (.num i)

theorem numbered_succ (lo n : ℕ) :
    numbered lo (n + 1) = numbered lo n ++ [some (.num (lo + n : ℕ))] := by
  simp [numbered, List.range'_concat]

theorem numbered_append (lo m n : ℕ) :
    numbered lo m ++ numbered (lo + m) n = numbered lo (m + n) := by
  rw [numbered, numbered, numbered, ← List.map_append, List.range'_append_1]

theorem revisionsOf_append (c : Counter ι) (l m : List (NewRow ι)) :
    revisionsOf c (l ++ m) = revisionsOf c l ++ revisionsOf c m := by
  simp [revisionsOf]

theorem revisionsOf_singleton_of_not {c : Counter ι} {row : NewRow ι}
    (h : row.targets c = false) : revisionsOf c [row] = [] := by
  simp [revisionsOf, h]

/-- The rows that a transaction has inserted, and the one it is about to insert. -/
def Tx.pendingRows (tx : Tx ι) : List (NewRow ι) :=
  tx.rows.map EventRow.toNewRow ++
    match tx.pc with
    | .insertRow row => [row]
    | _ => []

/-- The pending rows of the counter carry on from the committed revision, and the
transaction's own revision counts them. -/
def Tx.Counts (tx : Tx ι) (c : Counter ι) (committed : ℕ) : Prop :=
  ∃ n, (tx.revisions c).getD committed = committed + n ∧
    revisionsOf c tx.pendingRows = numbered (committed + 1) n

namespace EventLog

/-- The invariant of one counter: the committed rows are numbered up to the committed
revision; a transaction that has bumped the counter holds its row lock; and what each open
transaction would commit carries on without a gap. -/
structure Inv (c : Counter ι) (s : EventLog ι) : Prop where
  committed : revisionsOf c (s.rows.map EventRow.toNewRow) = numbered 1 ((s.revision c).getD 0)
  locked : ∀ t tx, s.txs t = some tx → tx.revisions c ≠ none →
    s.locks c = some t ∧ s.revision c ≠ none
  pending : ∀ t tx, s.txs t = some tx → tx.pc ≠ .failed → tx.Counts c ((s.revision c).getD 0)

variable {c : Counter ι}

/-- A step that only touches one transaction keeps the invariant if that one does. -/
theorem Inv.setTx {s : EventLog ι} (hs : s.Inv c) {t : ℕ} {v : Option (Tx ι)}
    (hl : ∀ tx, v = some tx → tx.revisions c ≠ none →
      s.locks c = some t ∧ s.revision c ≠ none)
    (hp : ∀ tx, v = some tx → tx.pc ≠ .failed → tx.Counts c ((s.revision c).getD 0)) :
    (s.setTx t v).Inv c := by
  refine ⟨hs.committed, fun u tx hu => ?_, fun u tx hu => ?_⟩
  · by_cases hut : u = t
    · subst hut
      exact hl tx (by simpa [EventLog.setTx] using hu)
    · exact hs.locked u tx (by simpa [EventLog.setTx, hut] using hu)
  · by_cases hut : u = t
    · subst hut
      exact hp tx (by simpa [EventLog.setTx] using hu)
    · exact hs.pending u tx (by simpa [EventLog.setTx, hut] using hu)

/-- A transaction that goes on with the same revisions of the counter. -/
theorem Inv.replaceTx {s : EventLog ι} (hs : s.Inv c) {t : ℕ} {tx tx' : Tx ι}
    (htx : s.txs t = some tx) (hpc : tx.pc ≠ .failed) (hrev : tx'.revisions = tx.revisions)
    (hrows : revisionsOf c tx'.pendingRows = revisionsOf c tx.pendingRows) :
    (s.setTx t (some tx')).Inv c := by
  refine hs.setTx (fun tx₁ h hne => ?_) (fun tx₁ h _ => ?_)
  · obtain rfl := Option.some.inj h
    exact hs.locked t tx htx (hrev ▸ hne)
  · obtain rfl := Option.some.inj h
    obtain ⟨n, hn, hpend⟩ := hs.pending t tx htx hpc
    exact ⟨n, hrev ▸ hn, hrows.trans hpend⟩

/-- Taking the row lock of a counter that is free or already owned. -/
theorem Inv.lock {s : EventLog ι} (hs : s.Inv c) {t : ℕ} {c' : Counter ι}
    (hfree : s.locks c' = none ∨ s.locks c' = some t) :
    Inv c { s with locks := Function.update s.locks c' (some t) } := by
  refine ⟨hs.committed, fun u tx hu hrev => ?_, hs.pending⟩
  obtain ⟨hlock, hrow⟩ := hs.locked u tx hu hrev
  refine ⟨?_, hrow⟩
  by_cases hc : c = c'
  · subst hc
    rcases hfree with h | h
    · rw [h] at hlock; cases hlock
    · obtain rfl : t = u := by simpa [h] using hlock
      exact Function.update_self ..
  · simpa [hc] using hlock

/-- **The bump.**  The returned revision is the next one of the transaction. -/
theorem Inv.bump {s s' : EventLog ι} (hs : s.Inv c) {t : ℕ} {c' : Counter ι}
    {row : ℕ → NewRow ι} (hstep : s.bump t c' row = some s')
    (hself : ∀ r, (row r).targets c' = true ∧
      (row r).payload.get "board_revision" = some (.num r))
    (hother : ∀ r, c ≠ c' → (row r).targets c = false) : s'.Inv c := by
  unfold EventLog.bump at hstep
  split at hstep
  · rename_i revisions rows htx
    split at hstep
    · obtain rfl := Option.some.inj hstep
      refine hs.setTx (fun tx h hrev => ?_) (fun tx h hpc => ?_)
      · obtain rfl := Option.some.inj h
        exact hs.locked t _ htx hrev
      · obtain rfl := Option.some.inj h
        exact (hpc rfl).elim
    · rename_i committed hcommitted
      split at hstep
      · rename_i hfree
        obtain rfl := Option.some.inj hstep
        refine (hs.lock hfree).setTx (fun tx h hrev => ?_) (fun tx h _ => ?_)
        · obtain rfl := Option.some.inj h
          by_cases hc : c = c'
          · subst hc
            exact ⟨Function.update_self .., by simp [hcommitted]⟩
          · have := hs.locked t _ htx (by simpa [hc] using hrev)
            simpa [hc] using this
        · obtain rfl := Option.some.inj h
          obtain ⟨n, hn, hrows⟩ := hs.pending t _ htx (by simp)
          simp only [Tx.pendingRows, List.append_nil] at hrows
          by_cases hc : c = c'
          · subst hc
            rw [hcommitted, Option.getD_some] at hn hrows
            have hn : (revisions c).getD committed = committed + n := hn
            refine ⟨n + 1, ?_, ?_⟩
            · simp only [hcommitted, Function.update_self, Option.getD_some]
              omega
            · rw [Tx.pendingRows, revisionsOf_append, hrows, numbered_succ]
              simp only [hcommitted, Option.getD_some]
              congr 1
              simp only [revisionsOf, List.filter_cons, (hself _).1, if_true, List.filter_nil,
                List.map_cons, (hself _).2, List.map_nil, hn]
              congr 4
              omega
          · refine ⟨n, by simpa [hc] using hn, ?_⟩
            rw [Tx.pendingRows, revisionsOf_append, hrows,
              revisionsOf_singleton_of_not (hother _ hc), List.append_nil]
      · cases hstep
  · cases hstep

theorem Inv.commit {s s' : EventLog ι} (hs : s.Inv c) {t : ℕ} (hstep : s.commit t = some s') :
    s'.Inv c := by
  unfold EventLog.commit at hstep
  split at hstep
  · rename_i revisions rows htx
    split at hstep
    · obtain rfl := Option.some.inj hstep
      obtain ⟨n, hn, hpend⟩ := hs.pending t _ htx (by simp)
      simp only [Tx.pendingRows, List.append_nil] at hpend
      have hrev : ((revisions c).or (s.revision c)).getD 0 = (s.revision c).getD 0 + n := by
        cases hc : revisions c with
        | none => simpa [hc] using hn
        | some m => simpa [hc] using hn
      refine ⟨?_, fun u tx hu hne => ?_, fun u tx hu hpc => ?_⟩
      · show revisionsOf c ((s.rows ++ rows).map EventRow.toNewRow)
          = numbered 1 (((revisions c).or (s.revision c)).getD 0)
        rw [List.map_append, revisionsOf_append, hs.committed, hpend, hrev,
          Nat.add_comm _ 1, numbered_append]
      · have hut : u ≠ t := by
          intro hut; subst hut; simp [EventLog.setTx] at hu
        have hu : s.txs u = some tx := by simpa [EventLog.setTx, unlock, hut] using hu
        obtain ⟨hlock, hrow⟩ := hs.locked u tx hu hne
        simp [EventLog.setTx, unlock, hlock, hut, hrow]
      · have hut : u ≠ t := by
          intro hut; subst hut; simp [EventLog.setTx] at hu
        have hu : s.txs u = some tx := by simpa [EventLog.setTx, unlock, hut] using hu
        have hcount := hs.pending u tx hu hpc
        show tx.Counts c (((revisions c).or (s.revision c)).getD 0)
        rw [hrev]
        -- either the committing transaction left the counter alone, or the other one did
        by_cases hmine : revisions c = none
        · obtain rfl : n = 0 := by simpa [hmine] using hn
          exact hcount
        · obtain ⟨htlock, -⟩ := hs.locked t _ htx hmine
          have hother : tx.revisions c = none := by
            by_contra hne
            have := (hs.locked u tx hu hne).1.symm.trans htlock
            exact hut (Option.some.inj this)
          obtain ⟨m, hm, hmrows⟩ := hcount
          obtain rfl : m = 0 := by simpa [hother] using hm
          exact ⟨0, by simp [hother], hmrows⟩
    · cases hstep
  · cases hstep

/-- **One statement** keeps the invariant of every counter. -/
theorem Inv.step {s s' : EventLog ι} (hs : s.Inv c) {a : Action ι} (ha : a.objectPayload)
    (hstep : s.step a = some s') : s'.Inv c := by
  cases a with
  | begin t =>
      simp only [EventLog.step] at hstep
      split at hstep
      · obtain rfl := Option.some.inj hstep
        refine hs.setTx (fun tx h hne => ?_) (fun tx h _ => ?_)
        · obtain rfl := Option.some.inj h
          exact (hne rfl).elim
        · obtain rfl := Option.some.inj h
          exact ⟨0, rfl, rfl⟩
      · cases hstep
  | insertBoardEvent t tenantId boardId eventType payload =>
      simp only [EventLog.step, EventLog.insertBoardEvent] at hstep
      refine hs.bump hstep (fun r => ⟨by simp [NewRow.targets], get_withBoardRevision ha r⟩)
        fun r hc => ?_
      cases c with
      | board b => simpa [NewRow.targets, eq_comm] using hc
      | aggregatedBoard a => simp [NewRow.targets]
  | insertAggregatedEvent t tenantId aggregatedBoardId eventType payload =>
      simp only [EventLog.step, EventLog.insertAggregatedEvent] at hstep
      refine hs.bump hstep (fun r => ⟨by simp [NewRow.targets], get_withBoardRevision ha r⟩)
        fun r hc => ?_
      cases c with
      | board b => simp [NewRow.targets]
      | aggregatedBoard a => simpa [NewRow.targets, eq_comm] using hc
  | insertProjectEvent t tenantId projectId eventType payload =>
      simp only [EventLog.step, EventLog.insertProjectEvent] at hstep
      split at hstep
      · rename_i revisions rows htx
        obtain rfl := Option.some.inj hstep
        refine hs.replaceTx htx (by simp) rfl ?_
        rw [Tx.pendingRows, revisionsOf_append, revisionsOf_singleton_of_not,
          List.append_nil]
        · simp [Tx.pendingRows]
        · cases c <;> simp [NewRow.targets]
      · cases hstep
  | insertRow t id =>
      simp only [EventLog.step, EventLog.insertRow] at hstep
      split at hstep
      · rename_i row revisions rows htx
        split at hstep
        · cases hstep
        · obtain rfl := Option.some.inj hstep
          exact hs.replaceTx htx (by simp) rfl (by simp [Tx.pendingRows])
      · cases hstep
  | notify t =>
      simp only [EventLog.step, EventLog.notify] at hstep
      split at hstep
      · rename_i revisions rows htx
        obtain rfl := Option.some.inj hstep
        exact hs.replaceTx htx (by simp) rfl (by simp [Tx.pendingRows])
      · cases hstep
  | fail t =>
      simp only [EventLog.step] at hstep
      split at hstep
      · rename_i tx htx
        obtain rfl := Option.some.inj hstep
        refine hs.setTx (fun tx' h hne => ?_) (fun tx' h hpc => ?_)
        · obtain rfl := Option.some.inj h
          exact hs.locked t _ htx hne
        · obtain rfl := Option.some.inj h
          exact (hpc rfl).elim
      · cases hstep
  | commit t => exact hs.commit hstep
  | rollback t =>
      simp only [EventLog.step] at hstep
      split at hstep
      · rename_i tx htx
        obtain rfl := Option.some.inj hstep
        refine ⟨hs.committed, fun u tx' hu hne => ?_, fun u tx' hu => ?_⟩
        · have hut : u ≠ t := by
            intro hut; subst hut; simp [EventLog.setTx] at hu
          have hu : s.txs u = some tx' := by simpa [EventLog.setTx, unlock, hut] using hu
          obtain ⟨hlock, hrow⟩ := hs.locked u tx' hu hne
          simp [EventLog.setTx, unlock, hlock, hut, hrow]
        · have hut : u ≠ t := by
            intro hut; subst hut; simp [EventLog.setTx] at hu
          exact hs.pending u tx' (by simpa [EventLog.setTx, unlock, hut] using hu)
      · cases hstep

/-- With no rows of the counter, no open transaction and revision zero, the invariant holds. -/
theorem inv_start {s : EventLog ι} (h0 : (s.revision c).getD 0 = 0)
    (hrows : ∀ row ∈ s.rows, row.targets c = false) (htxs : ∀ t, s.txs t = none) : s.Inv c := by
  refine ⟨?_, fun t tx htx => ?_, fun t tx htx => ?_⟩
  · rw [h0]
    simpa [revisionsOf, numbered] using hrows
  · rw [htxs] at htx; cases htx
  · rw [htxs] at htx; cases htx

/-- Every run with object payloads keeps the invariant. -/
theorem Inv.run {s₀ s : EventLog ι} {tr : List (Action ι)} (h0 : s₀.Inv c)
    (h : ExecWhile EventLog.step (fun _ a => a.objectPayload) s₀ tr s) : s.Inv c :=
  h.invariant (Inv c) h0 fun _ _ _ ht ha hst => ht.step ha hst

/-- A counter that exists goes on existing. -/
theorem revision_step {s s' : EventLog ι} {a : Action ι} (hrow : s.revision c ≠ none)
    (hstep : s.step a = some s') : s'.revision c ≠ none := by
  cases a with
  | commit t =>
      simp only [EventLog.step, EventLog.commit] at hstep
      split at hstep
      · split at hstep
        · obtain rfl := Option.some.inj hstep
          simp [EventLog.setTx, unlock, hrow]
        · cases hstep
      · cases hstep
  | insertBoardEvent | insertAggregatedEvent =>
      simp only [EventLog.step, EventLog.insertBoardEvent, EventLog.insertAggregatedEvent,
        EventLog.bump] at hstep
      split at hstep
      · split at hstep
        · obtain rfl := Option.some.inj hstep; exact hrow
        · split at hstep
          · obtain rfl := Option.some.inj hstep; exact hrow
          · cases hstep
      · cases hstep
  | insertRow =>
      simp only [EventLog.step, EventLog.insertRow] at hstep
      split at hstep
      · split at hstep
        · cases hstep
        · obtain rfl := Option.some.inj hstep; exact hrow
      · cases hstep
  | begin | insertProjectEvent | notify | fail | rollback =>
      simp only [EventLog.step, EventLog.insertProjectEvent, EventLog.notify] at hstep
      split at hstep
      · obtain rfl := Option.some.inj hstep; exact hrow
      · cases hstep

/-- **Board revisions are gap-free.**  In every state of every run with object payloads,
the revisions of the committed rows of a board that started at zero are `1, …, revision`,
each once. -/
theorem board_revisions_gap_free {s₀ s : EventLog ι} {tr : List (Action ι)} {b : ι}
    (h0 : s₀.revision (.board b) = some 0) (hrows : ∀ row ∈ s₀.rows, row.boardId ≠ some b)
    (htxs : ∀ t, s₀.txs t = none)
    (h : ExecWhile EventLog.step (fun _ a => a.objectPayload) s₀ tr s) :
    ∃ r, s.revision (.board b) = some r ∧
      (revisionsOf (.board b) (s.rows.map EventRow.toNewRow) : Multiset (Option Value)) =
        (Finset.Icc 1 r).val.map fun i : ℕ => some (.num i) := by
  have hs₀ : s₀.Inv (.board b) :=
    inv_start (by simp [h0]) (by simpa [NewRow.targets] using hrows) htxs
  have hrow : s.revision (.board b) ≠ none :=
    h.invariant (fun s => s.revision (.board b) ≠ none) (by simp [h0])
      fun _ _ _ ht _ hst => revision_step ht hst
  obtain ⟨r, hr⟩ := Option.ne_none_iff_exists'.mp hrow
  refine ⟨r, hr, ?_⟩
  rw [(hs₀.run h).committed, hr, numbered, Nat.Icc_eq_range']
  rfl

/-- One board at revision zero and nothing else. -/
def emptyBoard : EventLog ℕ where
  revision := fun c => if c = .board 7 then some 0 else none
  rows := []
  locks := fun _ => none
  txs := fun _ => none

/-- Two transactions on one board: the first inserts two events and commits, the second
bumps, fails and is rolled back. -/
def twoTransactions : List (Action ℕ) :=
  [.begin 0, .begin 1, .insertBoardEvent 0 "t" 7 "CardCreated" (.object []), .insertRow 0 100,
    .notify 0, .insertBoardEvent 0 "t" 7 "CardUpdated" (.object []), .insertRow 0 101,
    .notify 0, .commit 0, .insertBoardEvent 1 "t" 7 "CardDeleted" (.object []), .fail 1,
    .rollback 1]

theorem board_revisions_gap_free_twoTransactions :
    ∃ s, run EventLog.step emptyBoard twoTransactions = some s ∧
      s.revision (.board 7) = some 2 ∧
      ∃ r, s.revision (.board 7) = some r ∧
        (revisionsOf (.board 7) (s.rows.map EventRow.toNewRow) : Multiset (Option Value)) =
          (Finset.Icc 1 r).val.map fun i : ℕ => some (.num i) := by
  have hrun : run (guarded EventLog.step fun _ a => a.objectPayload) emptyBoard twoTransactions
      = some _ := rfl
  exact ⟨_, rfl, rfl, board_revisions_gap_free rfl (by simp [emptyBoard]) (fun _ => rfl)
    (execWhile_of_run hrun)⟩

end EventLog

end Kanban.Realtime
