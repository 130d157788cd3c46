import Kanban.Rpc.Placement
import Kanban.Services.Search

/-!
# The search index

`search_indexing.rs` and step 6 of `drain_once`: a pass of a dispatcher publishes the rows of a batch,
records their sequences, and after each row of a card brings the index in line.  The document is built
of what the tables hold by then, read by three statements; nothing keeps the calls or the other
dispatchers from running in between.

## Main definitions

* `IndexTask`, `indexTask` — what the row of an event asks of the index.
* `cardDocument` — the document of a card.
* `DrainPass` — where a dispatcher stands in its pass.
* `Site` — the calls, the index and the dispatchers.
* `Site.step`, `Site.step_cases` — one step of them, and everything it can do.
-/

namespace Kanban.Rpc

open Program Kanban.Store Kanban.Auth
open Kanban.Services (CardDocument ConnectError IdCodec)

variable {ι : Type} [DecidableEq ι]

/-! ## Documents -/

/-- What the row of an event asks of the index. -/
inductive IndexTask (ι : Type)
  | index (cardId : ι)
  | delete (cardId : ι)
  deriving DecidableEq, Repr

def indexTask (codec : IdCodec ι) (row : EventRow ι) : Option (IndexTask ι) :=
  (readId codec row.payload "card_id").bind fun cardId =>
    if row.eventType ∈ ["CardCreated", "CardUpdated", "CardMoved", "CardTransferred"] then
      some (.index cardId)
    else if row.eventType = "CardDeleted" then some (.delete cardId)
    else none

/-- The card whose document a row deletes. -/
def deletedCard (codec : IdCodec ι) (row : EventRow ι) : Option ι :=
  match indexTask codec row with
  | some (.delete cardId) => some cardId
  | _ => none

omit [DecidableEq ι] in
theorem deletedCard_eq_some {codec : IdCodec ι} {row : EventRow ι} {cardId : ι} :
    deletedCard codec row = some cardId ↔ indexTask codec row = some (.delete cardId) := by
  unfold deletedCard
  constructor
  · intro h
    split at h
    · cases h
      assumption
    · cases h
  · intro h
    rw [h]

/-- What an event of the place of a card asks of the index. -/
def CardEvent.indexTask : CardEvent ι → IndexTask ι
  | .created card _ => .index card
  | .moved card _ => .index card
  | .transferred card _ _ => .index card
  | .deleted card => .delete card

omit [DecidableEq ι] in
/-- The index follows every event of the place of a card. -/
theorem indexTask_of_readEvent {codec : IdCodec ι} {row : EventRow ι} {board : ι} {event : CardEvent ι}
    (h : readEvent codec row = some (board, event)) :
    Rpc.indexTask codec row = some event.indexTask := by
  obtain ⟨b, -, h⟩ := Option.bind_eq_some_iff.mp h
  obtain ⟨card, hcard, h⟩ := Option.bind_eq_some_iff.mp h
  unfold Rpc.indexTask
  rw [hcard, Option.bind_some]
  split at h
  · rename_i htype
    obtain ⟨column, -, h⟩ := Option.bind_eq_some_iff.mp h
    cases h
    rw [if_pos (by simp [htype])]
    rfl
  · split at h
    · rename_i htype
      obtain ⟨column, -, h⟩ := Option.bind_eq_some_iff.mp h
      cases h
      rw [if_pos (by simp [htype])]
      rfl
    · split at h
      · rename_i htype
        obtain ⟨target, -, h⟩ := Option.bind_eq_some_iff.mp h
        obtain ⟨column, -, h⟩ := Option.bind_eq_some_iff.mp h
        cases h
        rw [if_pos (by simp [htype])]
        rfl
      · split at h
        · rename_i htype
          cases h
          rw [if_neg (by simp [htype]), if_pos htype]
          rfl
        · cases h

/-- What a dispatcher is set up with; `toRfc3339` is how a time is written. -/
structure OutboxDispatcher (ι : Type) where
  codec : IdCodec ι
  batchSize : ℕ
  toRfc3339 : ℤ → String

def cardDocument (D : OutboxDispatcher ι) (card : CardRow ι) (labels assignees : List String) :
    CardDocument where
  id := D.codec.toString card.id
  tenantId := card.tenantId
  boardId := D.codec.toString card.boardId
  projectId := D.codec.toString card.projectId
  cardRef := card.ref
  title := card.title
  description := card.description.getD ""
  priority := card.priority
  labels := labels
  assignees := assignees
  completedAt := card.completedAt.map D.toRfc3339

/-- The names of the labels of a card. -/
def labelNames (db : Db ι) (tenantId : String) (cardId : ι) : List String :=
  ((selectLabels tenantId cardId db).map fun e => e.answer.map LabelRow.name).getD []

/-- The subjects that a card is assigned to. -/
def assigneeSubjects (db : Db ι) (tenantId : String) (cardId : ι) : List String :=
  (db.cardAssignees.filter fun a => a.cardId = cardId ∧ a.tenantId = tenantId).map AssigneeRow.subject

/-- `PUT /<index>/_doc/<id>`. -/
def indexCard (docs : List CardDocument) (doc : CardDocument) : List CardDocument :=
  doc :: docs.filter (·.id ≠ doc.id)

/-- `DELETE /<index>/_doc/<id>`. -/
def deleteDoc (docs : List CardDocument) (id : String) : List CardDocument :=
  docs.filter (·.id ≠ id)

section Docs

variable {docs : List CardDocument} {doc d : CardDocument} {id : String}

theorem mem_indexCard : d ∈ indexCard docs doc ↔ d = doc ∨ d ∈ docs ∧ d.id ≠ doc.id := by
  simp [indexCard]

theorem mem_deleteDoc : d ∈ deleteDoc docs id ↔ d ∈ docs ∧ d.id ≠ id := by
  simp [deleteDoc]

end Docs

/-! ## Dispatchers -/

/-- How far `card_document_from_db` is. -/
inductive CardLoad (ι : Type)
  | start
  | card (card : CardRow ι)
  | labels (card : CardRow ι) (labels : List String)
  | document (doc : CardDocument)

/-- Where a dispatcher stands in `drain_once`; `todo` are the rows of the batch still ahead. -/
inductive DrainPass (ι : Type)
  /-- At the head of the row loop. -/
  | batch (todo : List (EventRow ι))
  /-- The row is published and its sequence recorded. -/
  | indexing (row : EventRow ι) (load : CardLoad ι) (todo : List (EventRow ι))

/-- The object that a row is routed to. -/
def routedTo (row : EventRow ι) : Option ι :=
  (row.aggregatedBoardId.or row.boardId).or row.projectId

/-- The calls under way, the ids of the rows with a recorded sequence, the documents, the rows that a
pass is through with, and the dispatchers. -/
structure Site (κ ι α : Type) where
  pool : Pool κ (Db ι) (Rec ι) (Call ι) (Reply ι) (Backend ι) ConnectError α
  marked : List ι
  index : List CardDocument
  dispatched : List (EventRow ι)
  passes : ℕ → DrainPass ι

/-- What happens next. -/
inductive SiteAction (κ ι : Type)
  | turn (a : Turn κ (Move ι))
  | select (d : ℕ)
  /-- The row is routed nowhere, or its publish, its ack or its `UPDATE` fails; the `UPDATE` may have
  been applied. -/
  | leave (d : ℕ) (marked : Bool)
  /-- The row is published and its sequence recorded. -/
  | mark (d : ℕ)
  /-- The next statement or request that brings the index in line. -/
  | sync (d : ℕ)
  /-- It fails; the failure is logged. -/
  | syncFails (d : ℕ)
  | crash (d : ℕ)

namespace Site

variable {κ α : Type}

/-- No call is under way and every dispatcher is idle. -/
def start (w : World (Db ι) (Backend ι)) (docs : List CardDocument) : Site κ ι α where
  pool := Pool.idle w
  marked := []
  index := docs
  dispatched := []
  passes _ := .batch []

/-- The database. -/
abbrev db (s : Site κ ι α) : Db ι := s.pool.world.store

def setPass (s : Site κ ι α) (d : ℕ) (pass : DrainPass ι) : Site κ ι α :=
  { s with passes := Function.update s.passes d pass }

/-- The pass is through with the row. -/
def through (s : Site κ ι α) (d : ℕ) (row : EventRow ι) (todo : List (EventRow ι)) : Site κ ι α :=
  { s with dispatched := row :: s.dispatched, passes := Function.update s.passes d (.batch todo) }

/-- `UPDATE event_log SET nats_seq = … WHERE id = …`. -/
def record (s : Site κ ι α) (rowId : ι) : Site κ ι α := { s with marked := rowId :: s.marked }

/-- `SELECT … FROM event_log WHERE nats_seq IS NULL ORDER BY id LIMIT batch_size`. -/
def selectBatch [LE ι] [DecidableLE ι] (s : Site κ ι α) (batchSize : ℕ) : List (EventRow ι) :=
  ((s.db.eventLog.filter (·.id ∉ s.marked)).insertionSort fun r r' => r.id ≤ r'.id).take batchSize

/-- The next step of the index sync of a row. -/
def sync (D : OutboxDispatcher ι) (s : Site κ ι α) (d : ℕ) (row : EventRow ι) (load : CardLoad ι)
    (todo : List (EventRow ι)) : Option (Site κ ι α) :=
  match indexTask D.codec row with
  | none => none
  | some (.delete cardId) =>
      some ({ s with index := deleteDoc s.index (D.codec.toString cardId) }.through d row todo)
  | some (.index cardId) =>
      match load with
      | .start =>
          match s.db.cards.find? fun c => c.id = cardId ∧ c.tenantId = row.tenantId with
          -- the card vanished between the event and the pass
          | none => some (s.through d row todo)
          | some card => some (s.setPass d (.indexing row (.card card) todo))
      | .card card => some (s.setPass d
          (.indexing row (.labels card (labelNames s.db row.tenantId cardId)) todo))
      | .labels card labels => some (s.setPass d (.indexing row
          (.document (cardDocument D card labels (assigneeSubjects s.db row.tenantId cardId))) todo))
      | .document doc => some ({ s with index := indexCard s.index doc }.through d row todo)

/-- One step of the calls and the dispatchers. -/
def step [LE ι] [DecidableLE ι] (D : OutboxDispatcher ι) (handler : κ → Handler ι α)
    (s : Site κ ι α) : SiteAction κ ι → Option (Site κ ι α)
  | .turn a => (s.pool.step (kanban ι) handler a).map fun P => { s with pool := P }
  | .select d =>
      match s.passes d with
      | .batch [] => some (s.setPass d (.batch (s.selectBatch D.batchSize)))
      | _ => none
  | .leave d marked =>
      match s.passes d with
      | .batch (row :: todo) =>
          if marked then
            if (routedTo row).isSome then some ((s.record row.id).setPass d (.batch todo)) else none
          else some (s.setPass d (.batch todo))
      | _ => none
  | .mark d =>
      match s.passes d with
      | .batch (row :: todo) =>
          if (routedTo row).isSome then
            if (indexTask D.codec row).isSome then
              some ((s.record row.id).setPass d (.indexing row .start todo))
            else some ((s.record row.id).through d row todo)
          else none
      | _ => none
  | .sync d =>
      match s.passes d with
      | .indexing row load todo => s.sync D d row load todo
      | _ => none
  | .syncFails d =>
      match s.passes d with
      | .indexing row _ todo => some (s.through d row todo)
      | _ => none
  | .crash d => some (s.setPass d (.batch []))

/-- The document that the next step of a dispatcher puts. -/
def puts (D : OutboxDispatcher ι) (s : Site κ ι α) (d : ℕ) : Option CardDocument :=
  match s.passes d with
  | .indexing row (.document doc) _ =>
      match indexTask D.codec row with
      | some (.index _) => some doc
      | _ => none
  | _ => none

/-- The cases of one step. -/
inductive Step [LE ι] [DecidableLE ι] (D : OutboxDispatcher ι) (handler : κ → Handler ι α)
    (s : Site κ ι α) : SiteAction κ ι → Site κ ι α → Prop
  | turn {a P} : s.pool.step (kanban ι) handler a = some P → Step D handler s (.turn a) { s with pool := P }
  | select {d} : s.passes d = .batch [] →
      Step D handler s (.select d) (s.setPass d (.batch (s.selectBatch D.batchSize)))
  | leave {d row todo} : s.passes d = .batch (row :: todo) →
      Step D handler s (.leave d false) (s.setPass d (.batch todo))
  | leaveMarked {d row todo} : s.passes d = .batch (row :: todo) →
      Step D handler s (.leave d true) ((s.record row.id).setPass d (.batch todo))
  | mark {d row todo} : s.passes d = .batch (row :: todo) → (indexTask D.codec row).isSome →
      Step D handler s (.mark d) ((s.record row.id).setPass d (.indexing row .start todo))
  | markPlain {d row todo} : s.passes d = .batch (row :: todo) → indexTask D.codec row = none →
      Step D handler s (.mark d) ((s.record row.id).through d row todo)
  | delete {d row load todo cardId} : s.passes d = .indexing row load todo →
      indexTask D.codec row = some (.delete cardId) → Step D handler s (.sync d)
        ({ s with index := deleteDoc s.index (D.codec.toString cardId) }.through d row todo)
  | vanished {d row todo cardId} : s.passes d = .indexing row .start todo →
      indexTask D.codec row = some (.index cardId) →
      (∀ c ∈ s.db.cards, c.id = cardId → c.tenantId ≠ row.tenantId) →
      Step D handler s (.sync d) (s.through d row todo)
  | card {d row todo cardId card} : s.passes d = .indexing row .start todo →
      indexTask D.codec row = some (.index cardId) →
      s.db.cards.find? (fun c => c.id = cardId ∧ c.tenantId = row.tenantId) = some card →
      Step D handler s (.sync d) (s.setPass d (.indexing row (.card card) todo))
  | labels {d row card todo cardId} : s.passes d = .indexing row (.card card) todo →
      indexTask D.codec row = some (.index cardId) → Step D handler s (.sync d)
        (s.setPass d (.indexing row (.labels card (labelNames s.db row.tenantId cardId)) todo))
  | document {d row card labels todo cardId} : s.passes d = .indexing row (.labels card labels) todo →
      indexTask D.codec row = some (.index cardId) → Step D handler s (.sync d)
        (s.setPass d (.indexing row
          (.document (cardDocument D card labels (assigneeSubjects s.db row.tenantId cardId))) todo))
  | put {d row doc todo cardId} : s.passes d = .indexing row (.document doc) todo →
      indexTask D.codec row = some (.index cardId) → Step D handler s (.sync d)
        ({ s with index := indexCard s.index doc }.through d row todo)
  | syncFails {d row load todo} : s.passes d = .indexing row load todo →
      Step D handler s (.syncFails d) (s.through d row todo)
  | crash {d} : Step D handler s (.crash d) (s.setPass d (.batch []))

section Cases

variable [LE ι] [DecidableLE ι] {D : OutboxDispatcher ι} {handler : κ → Handler ι α}
  {s s' : Site κ ι α} {a : SiteAction κ ι}

/-- Everything a step can do. -/
theorem step_cases (h : s.step D handler a = some s') : Step D handler s a s' := by
  cases a with
  | turn a =>
      obtain ⟨P, hP, rfl⟩ := Option.map_eq_some_iff.mp h
      exact .turn hP
  | select d =>
      simp only [step] at h
      split at h
      · cases h
        exact .select ‹_›
      · cases h
  | leave d marked =>
      simp only [step] at h
      split at h
      · cases marked with
        | false =>
            cases h
            exact .leave ‹_›
        | true =>
            obtain ⟨-, h⟩ := Option.ite_none_right_eq_some.mp h
            cases h
            exact .leaveMarked ‹_›
      · cases h
  | mark d =>
      simp only [step] at h
      split at h
      · obtain ⟨-, h⟩ := Option.ite_none_right_eq_some.mp h
        split at h
        · cases h
          exact .mark ‹_› ‹_›
        · cases h
          exact .markPlain ‹_› (Option.not_isSome_iff_eq_none.mp ‹_›)
      · cases h
  | sync d =>
      simp only [step] at h
      split at h
      · rename_i row load todo hpass
        simp only [sync] at h
        split at h
        · cases h
        · cases h
          exact .delete hpass ‹_›
        · rename_i cardId htask
          cases load with
          | start =>
              dsimp only at h
              split at h
              · rename_i hnone
                cases h
                refine .vanished hpass htask fun c hc hid ht => ?_
                exact List.find?_eq_none.mp hnone c hc (decide_eq_true ⟨hid, ht⟩)
              · cases h
                exact .card hpass htask ‹_›
          | card card =>
              cases h
              exact .labels hpass htask
          | labels card labels =>
              cases h
              exact .document hpass htask
          | document doc =>
              cases h
              exact .put hpass htask
      · cases h
  | syncFails d =>
      simp only [step] at h
      split at h
      · cases h
        exact .syncFails ‹_›
      · cases h
  | crash d =>
      cases h
      exact .crash

omit [DecidableEq ι] [LE ι] [DecidableLE ι] in
theorem puts_eq_some {d : ℕ} {row : EventRow ι} {doc : CardDocument} {todo : List (EventRow ι)}
    {cardId : ι} (hpass : s.passes d = .indexing row (.document doc) todo)
    (htask : indexTask D.codec row = some (.index cardId)) : s.puts D d = some doc := by
  simp only [puts, hpass, htask]

end Cases

end Site

end Kanban.Rpc
