import Mathlib.Data.List.Sort
import Kanban.Realtime.JetStream

/-!
# The outbox dispatcher

`realtime/outbox.rs`, `drain_once`: select the undispatched rows in id order, publish each one
with its row id as `Nats-Msg-Id`, await the ack and record the sequence.  A row whose
publish or ack fails is skipped and retried on a later pass; nothing locks a row, so any
number of dispatchers may hold the same one.

A publish travels to the server on its own (`inFlight`), and so does an `UPDATE` whose
client has gone (`updates`): both may take effect after a failure or a crash, or never.
`stream` is what the server has ever stored; which of it the retention has left is the matter of
the modules that read the stream.

## Main definitions

* `Dispatcher` — where one dispatcher stands in its pass.
* `Outbox` — the event log, the stream, the messages in flight and the dispatchers.
* `Outbox.step` — one statement, one network event or one crash.
* `Outbox.InWindow` — every retry falls inside the duplicate window.
* `Outbox.Traced` — recorded, acknowledged and pending sequences are those of stored messages.
* `Outbox.Inv` — moreover no id is stored twice.
* `Outbox.Origin` — only committed rows are published.
-/

namespace Kanban.Realtime

open Machine

variable {ι : Type*} [LinearOrder ι]

/-- Where a dispatcher stands in `drain_once`.  `skipped` are the rows of this pass that were
left undispatched, `todo` the rows still ahead. -/
inductive Dispatcher (ι : Type*)
  | idle
  /-- At the head of the row loop. -/
  | batch (skipped todo : List (EventRow ι))
  /-- Awaiting the ack of the publish `token`. -/
  | acking (row : EventRow ι) (token : ℕ) (skipped todo : List (EventRow ι))
  /-- Issuing the `UPDATE`. -/
  | updating (row : EventRow ι) (seq : ℕ) (skipped todo : List (EventRow ι))

/-- The event log, the stream and everything between them. -/
structure Outbox (ι : Type*) where
  log : EventLog ι
  stream : JetStream ι
  inFlight : List (ℕ × EventRow ι)
  acks : List (ℕ × ι × ℕ)
  updates : List (ι × ℕ)
  dispatchers : ℕ → Dispatcher ι
  nextToken : ℕ

namespace Outbox

/-- No rows yet; the boards and aggregated boards are given by their counters. -/
def new (revision : Counter ι → Option ℕ) : Outbox ι where
  log := ⟨revision, [], fun _ => none, fun _ => none⟩
  stream := .empty
  inFlight := []
  acks := []
  updates := []
  dispatchers := fun _ => .idle
  nextToken := 0

/-- The rows with `nats_seq IS NULL`. -/
def undispatched (s : Outbox ι) : List (EventRow ι) := s.log.rows.filter (·.natsSeq.isNone)

/-- `SELECT … WHERE nats_seq IS NULL ORDER BY id LIMIT batch_size`. -/
def selectBatch (s : Outbox ι) (batchSize : ℕ) : List (EventRow ι) :=
  (s.undispatched.insertionSort fun r r' => r.id ≤ r'.id).take batchSize

/-- `UPDATE event_log SET nats_seq = seq WHERE id = rowId`. -/
def record (s : Outbox ι) (rowId : ι) (seq : ℕ) : Outbox ι :=
  { s with log := { s.log with
      rows := s.log.rows.map fun row =>
        if row.id = rowId then { row with natsSeq := some seq } else row } }

def setDispatcher (s : Outbox ι) (d : ℕ) (v : Dispatcher ι) : Outbox ι :=
  { s with dispatchers := Function.update s.dispatchers d v }

/-- The publish of `row` leaves for the server. -/
def send (s : Outbox ι) (row : EventRow ι) : Outbox ι :=
  { s with inFlight := (s.nextToken, row) :: s.inFlight, nextToken := s.nextToken + 1 }

/-- The server receives the publish `token` of `row` and acknowledges it. -/
def receive (s : Outbox ι) (token : ℕ) (row : EventRow ι) (inWindow : Bool) :
    Option (Outbox ι) :=
  match routeRow row.toNewRow with
  | none => none
  | some (subject, boardId) =>
      let stored := s.stream.store inWindow subject row.id (buildEnvelope row boardId)
      some { s with
        stream := stored.2
        inFlight := s.inFlight.filter (·.1 ≠ token)
        acks := (token, row.id, stored.1) :: s.acks }

/-- An `UPDATE` whose client has gone. -/
def leaveUpdate (s : Outbox ι) (late : Bool) (rowId : ι) (seq : ℕ) : Outbox ι :=
  if late then { s with updates := (rowId, seq) :: s.updates } else s

section Fields

variable (s : Outbox ι) (d : ℕ) (v : Dispatcher ι) (row : EventRow ι) (late : Bool) (rowId : ι)
  (seq : ℕ)

omit [LinearOrder ι]

@[simp] theorem setDispatcher_log : (s.setDispatcher d v).log = s.log := rfl
@[simp] theorem setDispatcher_stream : (s.setDispatcher d v).stream = s.stream := rfl
@[simp] theorem setDispatcher_inFlight : (s.setDispatcher d v).inFlight = s.inFlight := rfl
@[simp] theorem setDispatcher_dispatchers :
    (s.setDispatcher d v).dispatchers = Function.update s.dispatchers d v := rfl

@[simp] theorem send_log : (s.send row).log = s.log := rfl
@[simp] theorem send_stream : (s.send row).stream = s.stream := rfl
@[simp] theorem send_inFlight :
    (s.send row).inFlight = (s.nextToken, row) :: s.inFlight := rfl
@[simp] theorem send_dispatchers : (s.send row).dispatchers = s.dispatchers := rfl

@[simp] theorem leaveUpdate_log : (s.leaveUpdate late rowId seq).log = s.log := by
  unfold leaveUpdate; split <;> rfl
@[simp] theorem leaveUpdate_stream : (s.leaveUpdate late rowId seq).stream = s.stream := by
  unfold leaveUpdate; split <;> rfl
@[simp] theorem leaveUpdate_inFlight :
    (s.leaveUpdate late rowId seq).inFlight = s.inFlight := by
  unfold leaveUpdate; split <;> rfl
@[simp] theorem leaveUpdate_dispatchers :
    (s.leaveUpdate late rowId seq).dispatchers = s.dispatchers := by
  unfold leaveUpdate; split <;> rfl

end Fields

section Record

variable (s : Outbox ι) (rowId : ι) (seq : ℕ)

@[simp] theorem record_stream : (s.record rowId seq).stream = s.stream := rfl
@[simp] theorem record_inFlight : (s.record rowId seq).inFlight = s.inFlight := rfl
@[simp] theorem record_dispatchers : (s.record rowId seq).dispatchers = s.dispatchers := rfl

end Record

/-- What the arrival of a publish changes. -/
theorem receive_eq {s t : Outbox ι} {token : ℕ} {row : EventRow ι} {inWindow : Bool}
    (h : s.receive token row inWindow = some t) :
    ∃ subject boardId, routeRow row.toNewRow = some (subject, boardId) ∧
      t = { s with
        stream := (s.stream.store inWindow subject row.id (buildEnvelope row boardId)).2
        inFlight := s.inFlight.filter (·.1 ≠ token)
        acks := (token, row.id,
          (s.stream.store inWindow subject row.id (buildEnvelope row boardId)).1) :: s.acks } := by
  unfold receive at h
  split at h
  · cases h
  · exact ⟨_, _, ‹_›, (Option.some.inj h).symm⟩

inductive Action (ι : Type*)
  /-- A statement of a mutation's transaction. -/
  | mutate (a : EventLog.Action ι)
  | select (d : ℕ)
  /-- The row names no object. -/
  | skip (d : ℕ)
  | publish (d : ℕ)
  /-- `publish_with_headers` fails, after or before the message has left. -/
  | publishFails (d : ℕ) (sent : Bool)
  /-- The server receives the publish `token`. -/
  | receive (token : ℕ) (inWindow : Bool)
  | ack (d : ℕ)
  | ackFails (d : ℕ)
  | update (d : ℕ)
  /-- The `UPDATE` fails; it may still be applied later. -/
  | updateFails (d : ℕ) (late : Bool)
  | lateUpdate (rowId : ι) (seq : ℕ)
  /-- The pass is over. -/
  | finish (d : ℕ)
  /-- The dispatcher crashes; an `UPDATE` under way may still be applied later. -/
  | crash (d : ℕ) (late : Bool)

def step (batchSize : ℕ) (s : Outbox ι) : Action ι → Option (Outbox ι)
  | .mutate a => (s.log.step a).map fun log => { s with log := log }
  | .select d =>
      match s.dispatchers d with
      | .idle => some (s.setDispatcher d (.batch [] (s.selectBatch batchSize)))
      | _ => none
  | .skip d =>
      match s.dispatchers d with
      | .batch skipped (row :: todo) =>
          match routeRow row.toNewRow with
          | none => some (s.setDispatcher d (.batch (row :: skipped) todo))
          | some _ => none
      | _ => none
  | .publish d =>
      match s.dispatchers d with
      | .batch skipped (row :: todo) =>
          match routeRow row.toNewRow with
          | none => none
          | some _ => some ((s.send row).setDispatcher d (.acking row s.nextToken skipped todo))
      | _ => none
  | .publishFails d sent =>
      match s.dispatchers d with
      | .batch skipped (row :: todo) =>
          match routeRow row.toNewRow with
          | none => none
          | some _ =>
              some ((if sent then s.send row else s).setDispatcher d (.batch (row :: skipped) todo))
      | _ => none
  | .receive token inWindow =>
      match s.inFlight.find? (·.1 = token) with
      | some (_, row) => s.receive token row inWindow
      | none => none
  | .ack d =>
      match s.dispatchers d with
      | .acking row token skipped todo =>
          match s.acks.find? fun a => a.1 = token ∧ a.2.1 = row.id with
          | some (_, _, seq) => some (s.setDispatcher d (.updating row seq skipped todo))
          | none => none
      | _ => none
  | .ackFails d =>
      match s.dispatchers d with
      | .acking row _ skipped todo => some (s.setDispatcher d (.batch (row :: skipped) todo))
      | _ => none
  | .update d =>
      match s.dispatchers d with
      | .updating row seq skipped todo =>
          some ((s.record row.id seq).setDispatcher d (.batch skipped todo))
      | _ => none
  | .updateFails d late =>
      match s.dispatchers d with
      | .updating row seq skipped todo =>
          some ((s.leaveUpdate late row.id seq).setDispatcher d (.batch skipped todo))
      | _ => none
  | .lateUpdate rowId seq =>
      if (rowId, seq) ∈ s.updates then
        some ({ s with updates := s.updates.erase (rowId, seq) }.record rowId seq)
      else none
  | .finish d =>
      match s.dispatchers d with
      | .batch _ [] => some (s.setDispatcher d .idle)
      | _ => none
  | .crash d late =>
      match s.dispatchers d with
      | .updating row seq _ _ => some ((s.leaveUpdate late row.id seq).setDispatcher d .idle)
      | _ => some (s.setDispatcher d .idle)

/-- What one step does, case by case. -/
inductive Step (batchSize : ℕ) (s : Outbox ι) : Action ι → Outbox ι → Prop
  | mutate {a log} : s.log.step a = some log → Step batchSize s (.mutate a) { s with log := log }
  | select {d} : s.dispatchers d = .idle →
      Step batchSize s (.select d) (s.setDispatcher d (.batch [] (s.selectBatch batchSize)))
  | skip {d skipped row todo} : s.dispatchers d = .batch skipped (row :: todo) →
      routeRow row.toNewRow = none →
      Step batchSize s (.skip d) (s.setDispatcher d (.batch (row :: skipped) todo))
  | publish {d skipped row todo route} : s.dispatchers d = .batch skipped (row :: todo) →
      routeRow row.toNewRow = some route →
      Step batchSize s (.publish d)
        ((s.send row).setDispatcher d (.acking row s.nextToken skipped todo))
  | publishFails {d skipped row todo route sent} : s.dispatchers d = .batch skipped (row :: todo) →
      routeRow row.toNewRow = some route →
      Step batchSize s (.publishFails d sent)
        ((if sent then s.send row else s).setDispatcher d (.batch (row :: skipped) todo))
  | receive {token inWindow row t} : (token, row) ∈ s.inFlight →
      s.receive token row inWindow = some t → Step batchSize s (.receive token inWindow) t
  | ack {d row token skipped todo seq} : s.dispatchers d = .acking row token skipped todo →
      (token, row.id, seq) ∈ s.acks →
      Step batchSize s (.ack d) (s.setDispatcher d (.updating row seq skipped todo))
  | ackFails {d row token skipped todo} : s.dispatchers d = .acking row token skipped todo →
      Step batchSize s (.ackFails d) (s.setDispatcher d (.batch (row :: skipped) todo))
  | update {d row seq skipped todo} : s.dispatchers d = .updating row seq skipped todo →
      Step batchSize s (.update d)
        ((s.record row.id seq).setDispatcher d (.batch skipped todo))
  | updateFails {d row seq skipped todo late} :
      s.dispatchers d = .updating row seq skipped todo →
      Step batchSize s (.updateFails d late)
        ((s.leaveUpdate late row.id seq).setDispatcher d (.batch skipped todo))
  | lateUpdate {rowId seq} : (rowId, seq) ∈ s.updates →
      Step batchSize s (.lateUpdate rowId seq)
        ({ s with updates := s.updates.erase (rowId, seq) }.record rowId seq)
  | finish {d skipped} : s.dispatchers d = .batch skipped [] →
      Step batchSize s (.finish d) (s.setDispatcher d .idle)
  | crashUpdating {d row seq skipped todo late} :
      s.dispatchers d = .updating row seq skipped todo →
      Step batchSize s (.crash d late) ((s.leaveUpdate late row.id seq).setDispatcher d .idle)
  | crash {d late} : Step batchSize s (.crash d late) (s.setDispatcher d .idle)

theorem step_cases {batchSize : ℕ} {s t : Outbox ι} {a : Action ι}
    (hstep : s.step batchSize a = some t) : Step batchSize s a t := by
  cases a with
  | mutate a =>
      obtain ⟨log, hlog, rfl⟩ := Option.map_eq_some_iff.mp hstep
      exact .mutate hlog
  | receive token inWindow =>
      simp only [step] at hstep
      split at hstep
      · rename_i tok row hfind
        obtain rfl : tok = token := by simpa using List.find?_some hfind
        exact .receive (List.mem_of_find?_eq_some hfind) hstep
      · cases hstep
  | ack d =>
      simp only [step] at hstep
      split at hstep
      · rename_i row token skipped todo hd
        split at hstep
        · rename_i tok rowId seq hfind
          obtain rfl := Option.some.inj hstep
          obtain ⟨rfl, rfl⟩ : tok = token ∧ rowId = row.id := by simpa using List.find?_some hfind
          exact .ack hd (List.mem_of_find?_eq_some hfind)
        · cases hstep
      · cases hstep
  | lateUpdate rowId seq =>
      simp only [step] at hstep
      split at hstep
      · obtain rfl := Option.some.inj hstep
        exact .lateUpdate ‹_›
      · cases hstep
  | select d =>
      simp only [step] at hstep
      split at hstep
      · obtain rfl := Option.some.inj hstep
        exact .select ‹_›
      · cases hstep
  | skip d =>
      simp only [step] at hstep
      split at hstep
      · split at hstep
        · obtain rfl := Option.some.inj hstep
          exact .skip ‹_› ‹_›
        · cases hstep
      · cases hstep
  | publish d =>
      simp only [step] at hstep
      split at hstep
      · split at hstep
        · cases hstep
        · obtain rfl := Option.some.inj hstep
          exact .publish ‹_› ‹_›
      · cases hstep
  | publishFails d sent =>
      simp only [step] at hstep
      split at hstep
      · split at hstep
        · cases hstep
        · obtain rfl := Option.some.inj hstep
          exact .publishFails ‹_› ‹_›
      · cases hstep
  | ackFails d =>
      simp only [step] at hstep
      split at hstep
      · obtain rfl := Option.some.inj hstep
        exact .ackFails ‹_›
      · cases hstep
  | update d =>
      simp only [step] at hstep
      split at hstep
      · obtain rfl := Option.some.inj hstep
        exact .update ‹_›
      · cases hstep
  | updateFails d late =>
      simp only [step] at hstep
      split at hstep
      · obtain rfl := Option.some.inj hstep
        exact .updateFails ‹_›
      · cases hstep
  | finish d =>
      simp only [step] at hstep
      split at hstep
      · obtain rfl := Option.some.inj hstep
        exact .finish ‹_›
      · cases hstep
  | crash d late =>
      simp only [step] at hstep
      split at hstep
      · obtain rfl := Option.some.inj hstep
        exact .crashUpdating ‹_›
      · obtain rfl := Option.some.inj hstep
        exact .crash

/-- Every retry falls inside the duplicate window: a publish whose id is stored finds it. -/
def InWindow (s : Outbox ι) : Action ι → Prop
  | .receive token inWindow =>
      ∀ p ∈ s.inFlight, p.1 = token → s.stream.Stored p.2.id → inWindow
  | _ => True

instance (s : Outbox ι) : ∀ a, Decidable (s.InWindow a)
  | .receive token inWindow => inferInstanceAs (Decidable
      (∀ p ∈ s.inFlight, p.1 = token → s.stream.Stored p.2.id → inWindow))
  | .mutate _ | .select _ | .skip _ | .publish _ | .publishFails _ _ | .ack _ | .ackFails _
  | .update _ | .updateFails _ _ | .lateUpdate _ _ | .finish _ | .crash _ _ =>
      inferInstanceAs (Decidable True)

/-- The row's `nats_seq` is recorded as `seq`. -/
def Records (s : Outbox ι) (rowId : ι) (seq : ℕ) : Prop :=
  ∃ row ∈ s.log.rows, row.id = rowId ∧ row.natsSeq = some seq

/-- The dispatcher and the row id that an action publishes. -/
def published (s : Outbox ι) : Action ι → Option (ℕ × ι)
  | .publish d | .publishFails d true =>
      match s.dispatchers d with
      | .batch _ (row :: _) => some (d, row.id)
      | _ => none
  | _ => none

end Outbox

/-- The dispatcher still has the row before it in its pass. -/
def Dispatcher.Holding (rowId : ι) : Dispatcher ι → Prop
  | .idle => False
  | .batch _ todo => ∃ row ∈ todo, row.id = rowId
  | .acking row _ _ todo | .updating row _ _ todo => row.id = rowId ∨ ∃ r ∈ todo, r.id = rowId

/-- The rows that the dispatcher still has before it in its pass. -/
def Dispatcher.rows : Dispatcher ι → List (EventRow ι)
  | .idle => []
  | .batch _ todo => todo
  | .acking row _ _ todo | .updating row _ _ todo => row :: todo

omit [LinearOrder ι] in
theorem Dispatcher.holding_iff {v : Dispatcher ι} {rowId : ι} :
    v.Holding rowId ↔ ∃ row ∈ v.rows, row.id = rowId := by
  cases v <;> simp [Holding, rows]

namespace Outbox

/-- Every sequence that is recorded, acknowledged, about to be recorded or left behind is that of
a stored message of its row. -/
structure Traced (s : Outbox ι) : Prop where
  log : s.log.Wf
  recorded : ∀ row ∈ s.log.rows, ∀ q, row.natsSeq = some q → s.stream.Holds row.id q
  acked : ∀ a ∈ s.acks, s.stream.Holds a.2.1 a.2.2
  updating : ∀ d row seq skipped todo, s.dispatchers d = .updating row seq skipped todo →
    s.stream.Holds row.id seq
  pending : ∀ u ∈ s.updates, s.stream.Holds u.1 u.2

/-- Moreover no id is stored twice, so that this message is the only one of its row. -/
structure Inv (s : Outbox ι) : Prop extends s.Traced where
  once : (s.stream.messages.map Message.msgId).Nodup

omit [LinearOrder ι] in
theorem traced_new (revision : Counter ι → Option ℕ) : (new revision).Traced := by
  refine ⟨⟨List.nodup_nil, ?_⟩, ?_, ?_, ?_, ?_⟩ <;> intros <;> simp_all [new]

omit [LinearOrder ι] in
theorem inv_new (revision : Counter ι → Option ℕ) : (new revision).Inv :=
  ⟨traced_new revision, List.nodup_nil⟩

omit [LinearOrder ι] in
theorem Traced.setDispatcher {s : Outbox ι} (hs : s.Traced) {d : ℕ} {v : Dispatcher ι}
    (hv : ∀ row seq skipped todo, v = .updating row seq skipped todo →
      s.stream.Holds row.id seq) : (s.setDispatcher d v).Traced := by
  refine ⟨hs.log, hs.recorded, hs.acked, fun e row seq skipped todo he => ?_, hs.pending⟩
  by_cases hed : e = d
  · subst hed
    exact hv row seq skipped todo (by simpa [Outbox.setDispatcher] using he)
  · exact hs.updating e row seq skipped todo (by simpa [Outbox.setDispatcher, hed] using he)

omit [LinearOrder ι] in
theorem Traced.send {s : Outbox ι} (hs : s.Traced) (row : EventRow ι) : (s.send row).Traced :=
  ⟨hs.log, hs.recorded, hs.acked, hs.updating, hs.pending⟩

omit [LinearOrder ι] in
theorem Traced.leaveUpdate {s : Outbox ι} (hs : s.Traced) {late : Bool} {rowId : ι} {seq : ℕ}
    (h : s.stream.Holds rowId seq) : (s.leaveUpdate late rowId seq).Traced := by
  unfold Outbox.leaveUpdate
  split
  · refine ⟨hs.log, hs.recorded, hs.acked, hs.updating, fun u hu => ?_⟩
    rcases List.mem_cons.mp hu with rfl | hu
    · exact h
    · exact hs.pending u hu
  · exact hs

theorem rows_record (s : Outbox ι) (rowId : ι) (seq : ℕ) (row : EventRow ι) :
    row ∈ (s.record rowId seq).log.rows ↔ ∃ r ∈ s.log.rows,
      row = if r.id = rowId then { r with natsSeq := some seq } else r := by
  simp [record, eq_comm]

theorem Traced.record {s : Outbox ι} (hs : s.Traced) {rowId : ι} {seq : ℕ}
    (h : s.stream.Holds rowId seq) : (s.record rowId seq).Traced := by
  refine ⟨⟨?_, hs.log.unsent⟩, fun row hrow q hq => ?_, hs.acked, hs.updating, hs.pending⟩
  · have hids : (s.record rowId seq).log.rows.map EventRow.id = s.log.rows.map EventRow.id := by
      simp only [Outbox.record, List.map_map]
      refine List.map_congr_left fun r _ => ?_
      by_cases hr : r.id = rowId <;> simp [hr]
    rw [hids]
    exact hs.log.ids
  · obtain ⟨r, hr, rfl⟩ := (s.rows_record rowId seq row).mp hrow
    by_cases hid : r.id = rowId
    · obtain rfl : seq = q := by simpa [hid] using hq
      show s.stream.Holds _ _
      simpa [hid] using h
    · rw [if_neg hid] at hq ⊢
      exact hs.recorded r hr q hq

theorem Traced.receive {s t : Outbox ι} (hs : s.Traced) {token : ℕ} {row : EventRow ι}
    {inWindow : Bool} (hstep : s.receive token row inWindow = some t) : t.Traced := by
  obtain ⟨subject, boardId, -, rfl⟩ := receive_eq hstep
  refine ⟨hs.log, fun r hr q hq => (hs.recorded r hr q hq).store, fun a ha => ?_,
    fun d r seq skipped todo h => (hs.updating d r seq skipped todo h).store,
    fun u hu => (hs.pending u hu).store⟩
  rcases List.mem_cons.mp ha with rfl | ha
  · exact JetStream.holds_store
  · exact (hs.acked a ha).store

theorem Traced.mutate {s : Outbox ι} (hs : s.Traced) {a : EventLog.Action ι} {log : EventLog ι}
    (hstep : s.log.step a = some log) : Traced { s with log := log } := by
  refine ⟨hs.log.step hstep, fun row hrow q hq => ?_, hs.acked, hs.updating, hs.pending⟩
  rcases EventLog.step_rows hstep with hrows | ⟨t, revisions, rows, -, htx, hrows, -⟩
  · exact hs.recorded row (hrows ▸ hrow) q hq
  · have hmem : row ∈ s.log.rows ++ rows := hrows ▸ hrow
    rcases List.mem_append.mp hmem with hmem | hmem
    · exact hs.recorded row hmem q hq
    · rw [hs.log.unsent t _ htx row hmem] at hq; cases hq

/-- **One step** keeps the sequences those of stored messages. -/
theorem Traced.step {batchSize : ℕ} {s t : Outbox ι} {a : Action ι} (hs : s.Traced)
    (hstep : s.step batchSize a = some t) : t.Traced := by
  cases step_cases hstep with
  | mutate h => exact hs.mutate h
  | select | skip | ackFails | finish | crash => exact hs.setDispatcher (by simp)
  | publish => exact (hs.send _).setDispatcher (by simp)
  | publishFails =>
      split
      · exact (hs.send _).setDispatcher (by simp)
      · exact hs.setDispatcher (by simp)
  | receive hmem h => exact hs.receive h
  | @ack d row token skipped todo seq hd hmem =>
      refine hs.setDispatcher fun row' seq' skipped' todo' h => ?_
      injection h with hrow hseq
      rw [← hrow, ← hseq]
      exact hs.acked _ hmem
  | update hd => exact (hs.record (hs.updating _ _ _ _ _ hd)).setDispatcher (by simp)
  | updateFails hd | crashUpdating hd =>
      exact (hs.leaveUpdate (hs.updating _ _ _ _ _ hd)).setDispatcher (by simp)
  | @lateUpdate rowId seq hmem =>
      have hs' : Traced { s with updates := s.updates.erase (rowId, seq) } :=
        ⟨hs.log, hs.recorded, hs.acked, hs.updating,
          fun u hu => hs.pending u (List.mem_of_mem_erase hu)⟩
      exact hs'.record (hs.pending _ hmem)

/-- The stream changes only when the server receives a publish. -/
theorem stream_step {batchSize : ℕ} {s t : Outbox ι} {a : Action ι}
    (hstep : s.step batchSize a = some t) :
    t.stream = s.stream ∨ ∃ token inWindow row subject boardId, a = .receive token inWindow ∧
      (token, row) ∈ s.inFlight ∧ routeRow row.toNewRow = some (subject, boardId) ∧
      t.stream = (s.stream.store inWindow subject row.id (buildEnvelope row boardId)).2 := by
  cases step_cases hstep with
  | receive hmem h =>
      obtain ⟨subject, boardId, hroute, rfl⟩ := receive_eq h
      exact .inr ⟨_, _, _, subject, boardId, rfl, hmem, hroute, rfl⟩
  | publishFails => exact .inl (by split <;> rfl)
  | updateFails | crashUpdating => exact .inl (by simp)
  | mutate | select | skip | publish | ack | ackFails | update | lateUpdate | finish | crash =>
      exact .inl rfl

theorem Inv.receive {s t : Outbox ι} (hs : s.Inv) {token : ℕ} {row : EventRow ι} {inWindow : Bool}
    (hw : s.stream.Stored row.id → inWindow) (hstep : s.receive token row inWindow = some t) :
    t.Inv := by
  refine ⟨hs.toTraced.receive hstep, ?_⟩
  obtain ⟨subject, boardId, -, rfl⟩ := receive_eq hstep
  exact JetStream.nodup_store hs.once hw

/-- **One step** keeps the invariant as long as retries fall inside the window. -/
theorem Inv.step {batchSize : ℕ} {s t : Outbox ι} {a : Action ι} (hs : s.Inv)
    (hw : s.InWindow a) (hstep : s.step batchSize a = some t) : t.Inv := by
  refine ⟨hs.toTraced.step hstep, ?_⟩
  rcases stream_step hstep with hst | ⟨token, inWindow, row, subject, boardId, rfl, hmem, -, hst⟩
  · rw [hst]
    exact hs.once
  · rw [hst]
    exact JetStream.nodup_store hs.once (hw _ hmem rfl)

/-! ## Recorded sequences stay, and recorded rows are not selected -/

/-- The rows after a step: unchanged, extended by undispatched ones, or with the sequence of
a stored message recorded. -/
theorem Traced.rows_step {batchSize : ℕ} {s t : Outbox ι} {a : Action ι} (hs : s.Traced)
    (hstep : s.step batchSize a = some t) :
    (∃ new, t.log.rows = s.log.rows ++ new) ∨
      ∃ rowId seq, s.stream.Holds rowId seq ∧ t.log.rows = (s.record rowId seq).log.rows := by
  cases step_cases hstep with
  | mutate h =>
      rcases EventLog.step_rows h with hrows | ⟨t, revisions, rows, -, htx, hrows, -⟩
      · exact .inl ⟨[], by simpa using hrows⟩
      · exact .inl ⟨rows, hrows⟩
  | select | skip | ack | ackFails | finish | crash | publish | updateFails | crashUpdating =>
      exact .inl ⟨[], by simp⟩
  | publishFails => exact .inl ⟨[], by split <;> simp⟩
  | receive hmem h =>
      obtain ⟨subject, boardId, -, rfl⟩ := receive_eq h
      exact .inl ⟨[], by simp⟩
  | update hd => exact .inr ⟨_, _, hs.updating _ _ _ _ _ hd, rfl⟩
  | lateUpdate hmem => exact .inr ⟨_, _, hs.pending _ hmem, rfl⟩

/-- **A recorded sequence never changes.** -/
theorem Inv.records_step {batchSize : ℕ} {s t : Outbox ι} {a : Action ι} (hs : s.Inv)
    {rowId : ι} {seq : ℕ} (hr : s.Records rowId seq)
    (hstep : s.step batchSize a = some t) : t.Records rowId seq := by
  obtain ⟨row, hrow, hid, hseq⟩ := hr
  rcases hs.rows_step hstep with ⟨new, hrows⟩ | ⟨rowId', seq', hholds, hrows⟩
  · exact ⟨row, by rw [hrows]; exact List.mem_append_left _ hrow, hid, hseq⟩
  · have hmem := (s.rows_record rowId' seq' _).mpr ⟨row, hrow, rfl⟩
    refine ⟨_, hrows ▸ hmem, ?_, ?_⟩
    · split <;> exact hid
    · split
      · rename_i heq
        have hold := hs.recorded row hrow seq hseq
        rw [heq] at hold
        rw [hholds.unique hs.once hold]
      · exact hseq

/-- A dispatcher after a step: it has just selected a batch, or it holds no row that it did
not hold before. -/
theorem dispatcher_step {batchSize : ℕ} {s t : Outbox ι} {a : Action ι}
    (hstep : s.step batchSize a = some t) (d : ℕ) :
    t.dispatchers d = .batch [] (s.selectBatch batchSize) ∨
      (t.dispatchers d).rows ⊆ (s.dispatchers d).rows := by
  have hother : ∀ {e : ℕ} {v : Dispatcher ι}, v.rows ⊆ (s.dispatchers e).rows →
      (Function.update s.dispatchers e v d).rows ⊆ (s.dispatchers d).rows := by
    intro e v hv
    by_cases hde : d = e
    · subst hde
      rwa [Function.update_self]
    · rw [Function.update_of_ne hde]
      exact List.Subset.refl _
  cases step_cases hstep with
  | mutate => exact .inr (List.Subset.refl _)
  | @select e hidle =>
      by_cases hde : d = e
      · subst hde
        exact .inl (by simp)
      · exact .inr (by simp [hde])
  | skip hd | publish hd | finish hd | ackFails hd | ack hd | update hd =>
      exact .inr (hother (by simp [hd, Dispatcher.rows]))
  | updateFails hd | crashUpdating hd =>
      refine .inr ?_
      simp only [setDispatcher_dispatchers, leaveUpdate_dispatchers]
      exact hother (by simp [hd, Dispatcher.rows])
  | @publishFails e skipped row todo route sent hd =>
      refine .inr ?_
      have hdisp : (if sent then s.send row else s).dispatchers = s.dispatchers := by
        split <;> simp
      simp only [setDispatcher_dispatchers, hdisp]
      exact hother (by simp [hd, Dispatcher.rows])
  | receive hmem h =>
      obtain ⟨subject, boardId, -, rfl⟩ := receive_eq h
      exact .inr (List.Subset.refl _)
  | lateUpdate => exact .inr (List.Subset.refl _)
  | crash => exact .inr (hother (List.nil_subset _))

theorem mem_selectBatch {s : Outbox ι} {batchSize : ℕ} {row : EventRow ι}
    (h : row ∈ s.selectBatch batchSize) : row ∈ s.log.rows ∧ row.natsSeq = none := by
  have hmem := (List.mem_insertionSort _).mp (List.mem_of_mem_take h)
  simpa [undispatched] using hmem

/-- **A recorded row is not selected**: a dispatcher that does not hold it does not come to
hold it. -/
theorem Inv.not_holding_step {batchSize : ℕ} {s t : Outbox ι} {a : Action ι} (hs : s.Inv)
    {rowId : ι} {seq : ℕ} (hr : s.Records rowId seq) {d : ℕ}
    (hd : ¬ (s.dispatchers d).Holding rowId) (hstep : s.step batchSize a = some t) :
    ¬ (t.dispatchers d).Holding rowId := by
  rcases dispatcher_step hstep d with hbatch | hkeep
  · rw [hbatch]
    intro hmem
    obtain ⟨row, hrow, hid⟩ := hmem
    obtain ⟨r, hr, hrid, hseq⟩ := hr
    obtain ⟨hrow, hnone⟩ := mem_selectBatch hrow
    have heq : row = r := List.inj_on_of_nodup_map hs.log.ids hrow hr (hid.trans hrid.symm)
    rw [heq, hseq] at hnone
    cases hnone
  · rw [Dispatcher.holding_iff] at hd ⊢
    intro ⟨row, hrow, hid⟩
    exact hd ⟨row, hkeep hrow, hid⟩

omit [LinearOrder ι] in
/-- Only rows that a dispatcher holds are published. -/
theorem holding_of_published {s : Outbox ι} {a : Action ι} {d : ℕ} {rowId : ι}
    (h : s.published a = some (d, rowId)) : (s.dispatchers d).Holding rowId := by
  have hbatch : ∀ e, (match s.dispatchers e with
      | .batch _ (row :: _) => some (e, row.id)
      | _ => none) = some (d, rowId) → (s.dispatchers d).Holding rowId := by
    intro e he
    split at he
    · rename_i row todo hdisp
      obtain ⟨rfl, rfl⟩ : e = d ∧ row.id = rowId := by simpa using he
      rw [hdisp]
      exact ⟨row, by simp, rfl⟩
    · cases he
  cases a with
  | publish e => exact hbatch e h
  | publishFails e sent =>
      cases sent with
      | true => exact hbatch e h
      | false => cases h
  | _ => cases h

/-! ## Where messages come from -/

/-- The row is a committed one, up to its recorded sequence. -/
def Known (s : Outbox ι) (r : EventRow ι) : Prop :=
  ∃ r₀ ∈ s.log.rows, r₀.id = r.id ∧ r₀.toNewRow = r.toNewRow

omit [LinearOrder ι] in
theorem known_of_mem {s : Outbox ι} {r : EventRow ι} (h : r ∈ s.log.rows) : s.Known r :=
  ⟨r, h, rfl, rfl⟩

omit [LinearOrder ι] in
/-- Known rows with one id are one row. -/
theorem Known.unique {s : Outbox ι} (hids : (s.log.rows.map EventRow.id).Nodup)
    {r r' : EventRow ι} (h : s.Known r) (h' : s.Known r') (hid : r.id = r'.id) :
    r.toNewRow = r'.toNewRow := by
  obtain ⟨r₀, hr₀, hid₀, hrow₀⟩ := h
  obtain ⟨r₁, hr₁, hid₁, hrow₁⟩ := h'
  have heq : r₀ = r₁ :=
    List.inj_on_of_nodup_map hids hr₀ hr₁ (hid₀.trans (hid.trans hid₁.symm))
  rw [← hrow₀, ← hrow₁, heq]

/-- Recording a sequence changes no row's id or columns. -/
theorem known_record {s : Outbox ι} (rowId : ι) (seq : ℕ) (r : EventRow ι) :
    (s.record rowId seq).Known r ↔ s.Known r := by
  constructor
  · rintro ⟨r₀, hr₀, hid, hrow⟩
    obtain ⟨r₁, hr₁, rfl⟩ := (s.rows_record rowId seq r₀).mp hr₀
    refine ⟨r₁, hr₁, ?_, ?_⟩
    · split at hid <;> exact hid
    · split at hrow <;> exact hrow
  · rintro ⟨r₀, hr₀, hid, hrow⟩
    refine ⟨_, (s.rows_record rowId seq _).mpr ⟨r₀, hr₀, rfl⟩, ?_, ?_⟩
    · split <;> exact hid
    · split <;> exact hrow

/-- A committed row stays. -/
theorem Known.step {batchSize : ℕ} {s t : Outbox ι} {a : Action ι} {r : EventRow ι}
    (h : s.Known r) (hs : s.Traced) (hstep : s.step batchSize a = some t) : t.Known r := by
  rcases hs.rows_step hstep with ⟨new, hrows⟩ | ⟨rowId, seq, -, hrows⟩
  · obtain ⟨r₀, hr₀, h⟩ := h
    exact ⟨r₀, by rw [hrows]; exact List.mem_append_left _ hr₀, h⟩
  · unfold Known
    rw [hrows]
    exact (known_record rowId seq r).mpr h

/-- The message is what the row is published as. -/
def MessageOf (row : EventRow ι) (m : Message ι) : Prop :=
  m.msgId = row.id ∧ ∃ boardId, routeRow row.toNewRow = some (m.subject, boardId) ∧
    m.envelope = buildEnvelope row boardId

/-- Every row that a dispatcher holds, every publish under way and every stored message is that
of a committed row: rows are published only after their commit. -/
structure Origin (s : Outbox ι) : Prop where
  held : ∀ d, ∀ row ∈ (s.dispatchers d).rows, s.Known row
  flight : ∀ p ∈ s.inFlight, s.Known p.2
  stored : ∀ m ∈ s.stream.messages, ∃ row, s.Known row ∧ MessageOf row m

omit [LinearOrder ι] in
theorem origin_new (revision : Counter ι → Option ℕ) : (new revision).Origin :=
  ⟨fun _ _ h => (by cases h), fun _ h => (by cases h), fun _ h => (by cases h)⟩

/-- A publish under way was held by its dispatcher. -/
theorem inFlight_step {batchSize : ℕ} {s t : Outbox ι} {a : Action ι}
    (hstep : s.step batchSize a = some t) {p : ℕ × EventRow ι} (hp : p ∈ t.inFlight) :
    p ∈ s.inFlight ∨ ∃ d, p.2 ∈ (s.dispatchers d).rows := by
  cases step_cases hstep with
  | mutate | select | skip | ack | ackFails | update | lateUpdate | finish | crash => exact .inl hp
  | updateFails | crashUpdating => exact .inl (by simpa using hp)
  | receive hmem h =>
      obtain ⟨subject, boardId, -, rfl⟩ := receive_eq h
      exact .inl (List.mem_of_mem_filter hp)
  | @publish d skipped row todo route hd =>
      rcases List.mem_cons.mp hp with rfl | hp
      · exact .inr ⟨d, by simp [hd, Dispatcher.rows]⟩
      · exact .inl hp
  | @publishFails d skipped row todo route sent hd =>
      cases sent with
      | false => exact .inl hp
      | true =>
          rcases List.mem_cons.mp hp with rfl | hp
          · exact .inr ⟨d, by simp [hd, Dispatcher.rows]⟩
          · exact .inl hp

/-- **One step** publishes committed rows only. -/
theorem Origin.step {batchSize : ℕ} {s t : Outbox ι} {a : Action ι} (ho : s.Origin)
    (hs : s.Traced) (hstep : s.step batchSize a = some t) : t.Origin := by
  refine ⟨fun d row hrow => ?_, fun p hp => ?_, fun m hm => ?_⟩
  · rcases dispatcher_step hstep d with hbatch | hkeep
    · rw [hbatch] at hrow
      exact (known_of_mem (mem_selectBatch hrow).1).step hs hstep
    · exact (ho.held d row (hkeep hrow)).step hs hstep
  · rcases inFlight_step hstep hp with hp | ⟨d, hd⟩
    · exact (ho.flight p hp).step hs hstep
    · exact (ho.held d _ hd).step hs hstep
  · have hold : ∀ m ∈ s.stream.messages, ∃ row, t.Known row ∧ MessageOf row m := by
      intro m hm
      obtain ⟨row, hrow, h⟩ := ho.stored m hm
      exact ⟨row, hrow.step hs hstep, h⟩
    rcases stream_step hstep with hst | ⟨token, inWindow, row, subject, boardId, -, hp, hroute, hst⟩
    · exact hold m (hst ▸ hm)
    · rw [hst] at hm
      rcases JetStream.mem_store hm with hm | rfl
      · exact hold m hm
      · exact ⟨row, (ho.flight _ hp).step hs hstep, rfl, boardId, hroute, rfl⟩

/-- What is recorded at one state of a run holds at the later ones. -/
theorem Inv.recorded_run {batchSize : ℕ} {s u : Outbox ι} {tr : List (Action ι)}
    (hs : s.Inv) {rowId : ι} {seq : ℕ} (hr : s.Records rowId seq)
    (h : ExecWhile (Outbox.step batchSize) InWindow s tr u) :
    u.Inv ∧ u.Records rowId seq ∧
      ∀ d, ¬ (s.dispatchers d).Holding rowId → ¬ (u.dispatchers d).Holding rowId := by
  refine h.invariant (fun u => u.Inv ∧ u.Records rowId seq ∧
    ∀ d, ¬ (s.dispatchers d).Holding rowId → ¬ (u.dispatchers d).Holding rowId)
    ⟨hs, hr, fun _ h => h⟩ ?_
  intro t a v ht hw hstep
  obtain ⟨hinv, hrec, hhold⟩ := ht
  exact ⟨hinv.step hw hstep, hinv.records_step hrec hstep,
    fun d hd => hinv.not_holding_step hrec (hhold d hd) hstep⟩

/-- **Publication is effectively once.**  Along every run whose retries fall inside the
duplicate window, at most one message is stored for each row id; a recorded sequence is that of
the stored message; it never changes; and no dispatcher that selects after the sequence was
recorded publishes the row again. -/
theorem published_once {batchSize : ℕ} {revision : Counter ι → Option ℕ}
    {s : Outbox ι} {tr : List (Action ι)}
    (h : ExecWhile (Outbox.step batchSize) InWindow (new revision) tr s) :
    (s.stream.messages.map Message.msgId).Nodup ∧
    (∀ row ∈ s.log.rows, ∀ q, row.natsSeq = some q →
      ∃ m ∈ s.stream.messages, m.msgId = row.id ∧ m.seq = q) ∧
    ∀ tr' u, ExecWhile (Outbox.step batchSize) InWindow s tr' u →
      ∀ rowId q, s.Records rowId q →
        (∀ row ∈ u.log.rows, row.id = rowId → row.natsSeq = some q) ∧
        ∀ d, ¬ (s.dispatchers d).Holding rowId →
          ∀ a v, u.step batchSize a = some v → u.published a ≠ some (d, rowId) := by
  have hs : s.Inv := h.invariant Inv (inv_new revision) fun _ _ _ ht hw hst => ht.step hw hst
  refine ⟨hs.once, hs.recorded, fun tr' u hu rowId q hr => ?_⟩
  obtain ⟨huinv, hurec, huhold⟩ := hs.recorded_run hr hu
  refine ⟨fun row hrow hid => ?_, fun d hd a v _ hpub => huhold d hd (holding_of_published hpub)⟩
  obtain ⟨r, hr, hrid, hseq⟩ := hurec
  rw [List.inj_on_of_nodup_map huinv.log.ids hrow hr (hid.trans hrid.symm), hseq]

end Outbox

end Kanban.Realtime
