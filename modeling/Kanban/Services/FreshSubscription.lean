import Mathlib.Data.String.Basic
import Kanban.Ids.Codec
import Kanban.Realtime.Outbox
import Kanban.Services.Subscriber
import Kanban.Services.Subscriptions

/-!
# A fresh subscription

A `SubscribeBoard` without a resume token: the stream subscribes, reads `MAX(nats_seq)` of the
board, then its columns and cards (`read_board_snapshot`), replays them and cuts over at the
maximum.  Around it transactions commit mutations with their event rows, dispatchers publish the
rows and record sequences, the pump broadcasts and may end, and old messages leave the retention.

A row that was committed after the maximum was read is published later still, so its message has a
sequence above the maximum, and the receiver exists by then.  It reaches the receiver if the stream
listens on the subject of the board (the stream takes the text of the request, rows go to the
canonical text), and if the pump gets to it.

## Main definitions

* `FreshSubscription`, `FreshSubscription.step` — the event log with its dispatchers, and the
  stream of one subscriber.
* `FreshSubscription.Shown`, `FreshSubscription.Pending` — a mutation is in the snapshot or was
  emitted above the cutover; its event is still on the way.
* `FreshSubscription.Lossless` — every mutation is one or the other.
* `FreshSubscription.Attended` — the condition on the steps under which that holds.
* `FreshSubscription.Accounted` — every message of the subject is of a row committed before the
  reads, or lies above the maximum and is in reach.
-/

namespace Kanban.Services

open Machine History Kanban.Realtime
open Kanban.Ids (crockfordIds)

/-- The event log, its dispatchers and the JetStream stream, with one subscriber.  The messages up to
`evicted` are gone from retention.  `reads` holds, for each read of the snapshot, the ids of the event
rows committed at that moment; `maxRead` is what the first one has returned. -/
structure FreshSubscription extends Subscriber where
  outbox : Outbox String
  evicted : ℕ
  maxRead : Option ℕ
  reads : List (List String)

namespace FreshSubscription

inductive Action
  | outbox (a : Outbox.Action String)
  /-- The messages up to `upTo` leave the retention. -/
  | evict (upTo : ℕ)
  /-- `MAX(nats_seq)` is read. -/
  | readMax
  /-- Another read of the snapshot: the columns, the cards of a column, or one card. -/
  | read
  | subscriber (a : Subscriber.Action)

variable (batchSize : ℕ) (args : SubscribeBoardArgs)

def start (revision : Counter String → Option ℕ) : FreshSubscription where
  toSubscriber := .start args
  outbox := .new revision
  evicted := 0
  maxRead := none
  reads := []

/-- The ids of the committed event rows. -/
def rowIds (s : FreshSubscription) : List String := s.outbox.log.rows.map EventRow.id

/-- `SELECT COALESCE(MAX(nats_seq), 0) FROM event_log WHERE board_id = $1 AND tenant_id = $2`. -/
def lastReplay (s : FreshSubscription) : ℕ :=
  peak (fun row => row.natsSeq.getD 0) 0
    (s.outbox.log.rows.filter fun row =>
      row.boardId = some args.boardId ∧ row.tenantId = args.tenantId)

/-- The ids that are drawn are new: no event row has the id of a snapshot envelope. -/
def FreshIds (s : FreshSubscription) : Prop := ∀ id ∈ s.stream.replayedIds, id ∉ s.rowIds

instance (s : FreshSubscription) : Decidable s.FreshIds :=
  inferInstanceAs (Decidable (∀ id ∈ s.stream.replayedIds, id ∉ s.rowIds))

/-- A step of the environment or of the stream, but for the ids that it draws. -/
def move (s : FreshSubscription) : Action → Option FreshSubscription
  | .outbox a => (s.outbox.step batchSize a).map fun outbox => { s with outbox := outbox }
  | .evict upTo =>
      if upTo ≤ s.outbox.stream.lastSeq then some { s with evicted := max s.evicted upTo } else none
  | .readMax =>
      match s.stream.loc, s.maxRead with
      | .snapshot, none =>
          some { s with maxRead := some (s.lastReplay args), reads := [s.rowIds] }
      | _, _ => none
  | .read =>
      match s.stream.loc, s.maxRead with
      | .snapshot, some _ => some { s with reads := s.reads ++ [s.rowIds] }
      | _, _ => none
  | .subscriber a =>
      match a with
      | .stream (.snapshotRead columns cards lastReplay) =>
          if s.maxRead = some lastReplay then
            (s.toSubscriber.step args s.outbox.stream s.evicted
              (.stream (.snapshotRead columns cards lastReplay))).map fun sub =>
                { s with toSubscriber := sub }
          else none
      | a => (s.toSubscriber.step args s.outbox.stream s.evicted a).map fun sub =>
          { s with toSubscriber := sub }

def step (s : FreshSubscription) (a : Action) : Option FreshSubscription :=
  (s.move batchSize args a).filter fun t => t.FreshIds

/-- What one step does, case by case. -/
inductive Step (s : FreshSubscription) : Action → FreshSubscription → Prop
  | outbox {a outbox} : s.outbox.step batchSize a = some outbox →
      Step s (.outbox a) { s with outbox := outbox }
  | evict {upTo} : upTo ≤ s.outbox.stream.lastSeq →
      Step s (.evict upTo) { s with evicted := max s.evicted upTo }
  | readMax : s.stream.loc = .snapshot → s.maxRead = none →
      Step s .readMax { s with maxRead := some (s.lastReplay args), reads := [s.rowIds] }
  | read {base} : s.stream.loc = .snapshot → s.maxRead = some base →
      Step s .read { s with reads := s.reads ++ [s.rowIds] }
  | subscriber {a sub} : s.toSubscriber.step args s.outbox.stream s.evicted a = some sub →
      (∀ columns cards lastReplay, a = .stream (.snapshotRead columns cards lastReplay) →
        s.maxRead = some lastReplay) →
      Step s (.subscriber a) { s with toSubscriber := sub }

theorem step_cases {batchSize : ℕ} {args : SubscribeBoardArgs} {s t : FreshSubscription}
    {a : Action} (hstep : s.step batchSize args a = some t) :
    Step batchSize args s a t ∧ t.FreshIds := by
  obtain ⟨hstep, hfresh⟩ := Option.filter_eq_some_iff.mp hstep
  refine ⟨?_, by simpa using hfresh⟩
  cases a with
  | outbox a => obtain ⟨_, h, rfl⟩ := Option.map_eq_some_iff.mp hstep; exact .outbox h
  | evict upTo =>
      simp only [move] at hstep
      split at hstep
      · obtain rfl := Option.some.inj hstep; exact .evict ‹_›
      · cases hstep
  | readMax =>
      simp only [move] at hstep
      split at hstep
      · obtain rfl := Option.some.inj hstep; exact .readMax ‹_› ‹_›
      · cases hstep
  | read =>
      simp only [move] at hstep
      split at hstep
      · obtain rfl := Option.some.inj hstep; exact .read ‹_› ‹_›
      · cases hstep
  | subscriber a =>
      simp only [move] at hstep
      split at hstep
      · split at hstep
        · obtain ⟨_, h, rfl⟩ := Option.map_eq_some_iff.mp hstep
          refine .subscriber h fun columns cards lastReplay heq => ?_
          injection heq with heq
          injection heq with _ _ heq
          rw [← heq]
          assumption
        · cases hstep
      · rename_i hno
        obtain ⟨_, h, rfl⟩ := Option.map_eq_some_iff.mp hstep
        exact .subscriber h fun columns cards lastReplay heq => (hno _ _ _ heq).elim

/-! ## Where a mutation can be -/

/-- The row is one that `insert_board_event` writes for the board. -/
def Mutates (board : String) (row : EventRow String) : Prop :=
  row.boardId = some board ∧ row.aggregatedBoardId = none

/-- A read of the snapshot came before the commit of the row. -/
def Missed (s : FreshSubscription) (rowId : String) : Prop := ∃ read ∈ s.reads, rowId ∉ read

instance (s : FreshSubscription) (rowId : String) : Decidable (s.Missed rowId) :=
  inferInstanceAs (Decidable (∃ read ∈ s.reads, rowId ∉ read))

/-- The mutation was committed before every read of the snapshot, or its event was emitted above
`base`. -/
def Shown (s : FreshSubscription) (base : ℕ) (row : EventRow String) : Prop :=
  (∀ read ∈ s.reads, row.id ∈ read) ∨ ∃ e ∈ s.stream.emitted, e.eventId = row.id ∧ base < e.natsSeq

/-- The event is unpublished, or its message lies above `base` and waits in the receiver, or is
retained ahead of a running pump of its subject. -/
def Pending (s : FreshSubscription) (base : ℕ) (row : EventRow String) : Prop :=
  ¬ s.outbox.stream.Stored row.id ∨
    ∃ m ∈ s.outbox.stream.messages, m.msgId = row.id ∧ base < m.seq ∧
      (stamp m ∈ s.tail.buffer ∨ m.subject = Subscriber.subject args ∧
        ∃ c, s.tail.consumer = some c ∧ c < m.seq ∧ s.evicted < m.seq)

/-- Every mutation of the board is published, and the pump and the receiver have caught up. -/
structure Drained (board : String) (s : FreshSubscription) : Prop where
  published : ∀ row ∈ s.outbox.log.rows, Mutates board row → s.outbox.stream.Stored row.id
  pumped : ∀ c, s.tail.consumer = some c →
    LiveTail.next s.outbox.stream (Subscriber.subject args) s.evicted c = none
  received : s.tail.buffer = []

/-- **No mutation is lost.**  Once the cutover was shown, and as long as the stream stays open, every
committed mutation of the board is shown or on its way, and shown when all is published and
received. -/
def Lossless (board : String) (s : FreshSubscription) : Prop :=
  s.Listening → ∀ q, .yielded (.cutover q) ∈ s.stream.trace →
    ∀ row ∈ s.outbox.log.rows, Mutates board row →
      (s.Shown q row ∨ s.Pending args q row) ∧ (s.Drained args board → s.Shown q row)

/-- **The condition on a step**, while the stream stays open.  Of the events of the board that came
after a read of the snapshot, retention evicts none before the pump has passed it, the pump does not
end before it has passed them all, and none is stored once it has ended. -/
def Attended (board : String) (s : FreshSubscription) : Action → Prop
  | .outbox (.receive token inWindow) => s.Listening → s.tail.consumer = none →
      ∀ p ∈ s.outbox.inFlight, p.1 = token →
        (routeRow p.2.toNewRow).map Prod.fst = some (.board board) → s.Missed p.2.id →
        inWindow = true ∧ s.outbox.stream.Stored p.2.id
  | .evict upTo => s.Listening → ∀ c ∈ s.tail.consumer,
      ∀ m ∈ s.outbox.stream.messages, m.subject = .board board → s.Missed m.msgId →
        c < m.seq → upTo < m.seq
  | .subscriber .pumpEnds => s.Listening → ∀ c ∈ s.tail.consumer,
      ∀ m ∈ s.outbox.stream.messages, m.subject = .board board → s.Missed m.msgId → m.seq ≤ c
  | _ => True

instance (board : String) (s : FreshSubscription) : ∀ a, Decidable (s.Attended board a) := by
  intro a
  unfold Attended
  split <;> infer_instance

/-! ## Where it is -/

/-- Along every run. -/
structure Inv (s : FreshSubscription) : Prop where
  traced : s.outbox.Traced
  origin : s.outbox.Origin
  sub : s.toSubscriber.Inv args (s.maxRead.getD 0) s.outbox.stream
  base : ∀ q, s.stream.loc.base? = some q → s.maxRead = some q
  cutover : ∀ q, .yielded (.cutover q) ∈ s.stream.trace → s.maxRead = some q
  joined : s.maxRead.isSome → s.tail.receiver.isSome
  stored : ∀ q, s.maxRead = some q → q ≤ s.outbox.stream.lastSeq
  retained : s.evicted ≤ s.outbox.stream.lastSeq

/-- Once the maximum was read, every message of the subject that a read has missed lies above the
maximum and is in reach of a running pump. -/
def Accounted (s : FreshSubscription) : Prop :=
  ∀ q, s.maxRead = some q → ∀ m ∈ s.outbox.stream.messages,
    m.subject = Subscriber.subject args → s.Missed m.msgId →
      q < m.seq ∧ (s.stream.loc ≠ .closed → s.tail.consumer.isSome →
        LiveTail.InReach s.evicted s.taken s.tail m)

/-- Retention does not overtake the pump of an open stream. -/
def Retains (s : FreshSubscription) : Action → Prop
  | .evict upTo => s.Listening → ∀ c, s.tail.consumer = some c →
      ∀ m ∈ s.outbox.stream.messages, m.subject = Subscriber.subject args → s.Missed m.msgId →
        c < m.seq → upTo < m.seq
  | _ => True

theorem inv_start (revision : Counter String → Option ℕ) : (start args revision).Inv args where
  traced := Outbox.traced_new revision
  origin := Outbox.origin_new revision
  sub := Subscriber.inv_start
  base := fun _ h => by cases h
  cutover := fun _ h => by cases h
  joined := fun h => by cases h
  stored := fun _ h => by cases h
  retained := le_rfl

theorem accounted_start (revision : Counter String → Option ℕ) :
    (start args revision).Accounted args := fun _ h => by cases h

variable {batchSize args} {s t : FreshSubscription} {a : Action}

/-- A stored message is that of a committed row. -/
theorem Inv.mem_rowIds (hs : s.Inv args) {m : Message String}
    (hm : m ∈ s.outbox.stream.messages) : m.msgId ∈ s.rowIds := by
  obtain ⟨row, ⟨r₀, hr₀, hid, -⟩, hmsg, -⟩ := hs.origin.stored m hm
  exact List.mem_map.mpr ⟨r₀, hr₀, hid.trans hmsg.symm⟩

/-- A read that is under way sees the rows of all stored messages. -/
theorem Inv.missed_of_read (hs : s.Inv args) {m : Message String}
    (hm : m ∈ s.outbox.stream.messages)
    (h : Missed { s with reads := s.reads ++ [s.rowIds] } m.msgId) : s.Missed m.msgId := by
  obtain ⟨read, hread, hnot⟩ := h
  rcases List.mem_append.mp hread with hread | hread
  · exact ⟨read, hread, hnot⟩
  · rw [List.mem_singleton.mp hread] at hnot
    exact (hnot (hs.mem_rowIds hm)).elim

/-- The recorded sequences are those of stored messages. -/
theorem Inv.lastReplay_le (hs : s.Inv args) : s.lastReplay args ≤ s.outbox.stream.lastSeq := by
  refine Nat.lt_succ_iff.mp (peak_lt_iff.mpr ⟨Nat.succ_pos _, fun row hrow => ?_⟩)
  cases hq : row.natsSeq with
  | none => exact Nat.succ_pos _
  | some q =>
      obtain ⟨m, hm, -, rfl⟩ := hs.traced.recorded row (List.mem_of_mem_filter hrow) q hq
      exact Nat.lt_succ_of_le (s.outbox.stream.bound m hm)

/-- A statement, a publish or a crash only adds messages, behind all others. -/
theorem messages_outbox {outbox outbox' : Outbox String} {a : Outbox.Action String}
    (hstep : outbox.step batchSize a = some outbox') :
    outbox.stream.messages ⊆ outbox'.stream.messages ∧
      outbox.stream.lastSeq ≤ outbox'.stream.lastSeq ∧ ∀ m ∈ outbox'.stream.messages,
        m ∈ outbox.stream.messages ∨ outbox.stream.lastSeq < m.seq := by
  rcases Outbox.stream_step hstep with hst | ⟨_, _, row, _, _, -, -, -, hst⟩ <;> rw [hst]
  · exact ⟨List.Subset.refl _, le_rfl, fun m hm => .inl hm⟩
  · refine ⟨JetStream.subset_store, JetStream.lastSeq_le_store, fun m hm => ?_⟩
    rcases JetStream.mem_store hm with hm | rfl
    · exact .inl hm
    · exact .inr (Nat.lt_succ_self _)

theorem Inv.outbox (hs : s.Inv args) {a : Outbox.Action String} {outbox : Outbox String}
    (hstep : s.outbox.step batchSize a = some outbox) : Inv args { s with outbox := outbox } := by
  obtain ⟨hsub, hlast, -⟩ := messages_outbox hstep
  exact ⟨hs.traced.step hstep, hs.origin.step hs.traced hstep, hs.sub.grow hsub hlast, hs.base,
    hs.cutover, hs.joined, fun q hq => (hs.stored q hq).trans hlast, hs.retained.trans hlast⟩

theorem Accounted.outbox (hacc : s.Accounted args) (hs : s.Inv args) {a : Outbox.Action String}
    {outbox : Outbox String} (hstep : s.outbox.step batchSize a = some outbox) :
    Accounted args { s with outbox := outbox } := by
  intro q hq m hm hboard hmissed
  rcases (messages_outbox hstep).2.2 m hm with hm | hlt
  · exact hacc q hq m hm hboard hmissed
  · -- published after the read, so above the maximum and ahead of the pump
    refine ⟨(hs.stored q hq).trans_lt hlt, fun _ hrun => ?_⟩
    obtain ⟨c, hc⟩ := Option.isSome_iff_exists.mp hrun
    exact .inr ⟨c, hc, (hs.sub.fed.cursor_le hc).trans_lt hlt, hs.retained.trans_lt hlt⟩

/-- A step of the subscriber. -/
theorem Inv.subscriber (hs : s.Inv args) (hsince : args.sinceSeq = 0) {a : Subscriber.Action}
    {sub : Subscriber} (hstep : s.toSubscriber.step args s.outbox.stream s.evicted a = some sub)
    (hread : ∀ columns cards lastReplay, a = .stream (.snapshotRead columns cards lastReplay) →
      s.maxRead = some lastReplay) : Inv args { s with toSubscriber := sub } := by
  have hcut : ∀ q, s.stream.loc = .cutover q → q = s.maxRead.getD 0 := by
    intro q hloc
    rw [hs.base q (by rw [hloc]; rfl)]
    rfl
  refine ⟨hs.traced, hs.origin, hs.sub.step hcut hstep, fun q hq => ?_, fun q hq => ?_,
    fun hmax => Subscriber.joined_step hstep (hs.joined hmax), hs.stored, hs.retained⟩
  · rcases Subscriber.stream_step hstep with hst | ⟨b, hst, hb⟩
    · exact hs.base q (hst ▸ hq)
    · rcases BoardStream.base_step hst hq with hq | ⟨-, -, hne⟩ | ⟨columns, cards, rfl⟩
      · exact hs.base q hq
      · exact (hne hsince).elim
      · obtain rfl : a = .stream (.snapshotRead columns cards q) := by simpa using hb
        exact hread _ _ _ rfl
  · rcases Subscriber.stream_step hstep with hst | ⟨b, hst, -⟩
    · exact hs.cutover q (hst ▸ hq)
    · rcases BoardStream.cutover_step hst hq with hq | hloc
      · exact hs.cutover q hq
      · exact hs.base q (by rw [hloc]; rfl)

theorem Accounted.subscriber (hacc : s.Accounted args) (hs : s.Inv args) {a : Subscriber.Action}
    {sub : Subscriber} (hstep : s.toSubscriber.step args s.outbox.stream s.evicted a = some sub) :
    Accounted args { s with toSubscriber := sub } := by
  intro q hq m hm hboard hmissed
  have hjoined := hs.joined (by rw [show s.maxRead = some q from hq]; rfl)
  obtain ⟨hlt, hreach⟩ := hacc q hq m hm hboard hmissed
  refine ⟨hlt, fun hopen hrun => ?_⟩
  refine Subscriber.reach_step hstep hjoined (fun hnone => ?_) hm hboard
    (hreach (Subscriber.open_of_step hstep hopen) (Subscriber.consumer_of_step hstep hjoined hrun))
  have hrun : sub.tail.consumer.isSome := hrun
  rw [hnone] at hrun
  cases hrun

/-- **One step** keeps the invariant. -/
theorem Inv.step (hs : s.Inv args) (hsince : args.sinceSeq = 0)
    (hstep : s.step batchSize args a = some t) : t.Inv args := by
  cases (step_cases hstep).1 with
  | outbox h => exact hs.outbox h
  | evict hle =>
      exact ⟨hs.traced, hs.origin, hs.sub, hs.base, hs.cutover, hs.joined, hs.stored,
        max_le hs.retained hle⟩
  | readMax hloc hnone =>
      have hjoined : s.tail.receiver.isSome := by simpa [hloc] using hs.sub.joined
      refine ⟨hs.traced, hs.origin,
        ⟨hs.sub.fed, hs.sub.tail.rebase hloc, hs.sub.joined, hs.sub.wired⟩, fun q hq => ?_,
        fun q hq => ?_, fun _ => hjoined, fun q hq => ?_, hs.retained⟩
      · rw [hloc] at hq
        cases hq
      · have := hs.cutover q hq
        rw [hnone] at this
        cases this
      · obtain rfl := Option.some.inj hq
        exact hs.lastReplay_le
  | read hloc hmax =>
      exact ⟨hs.traced, hs.origin, hs.sub, hs.base, hs.cutover, hs.joined, hs.stored, hs.retained⟩
  | subscriber h hread => exact hs.subscriber hsince h hread

/-- **One step** keeps every mutation accounted for. -/
theorem Accounted.step (hacc : s.Accounted args) (hs : s.Inv args) (hret : s.Retains args a)
    (hstep : s.step batchSize args a = some t) : t.Accounted args := by
  cases (step_cases hstep).1 with
  | outbox h => exact hacc.outbox hs h
  | @evict upTo hle =>
      intro q hq m hm hboard hmissed
      obtain ⟨hlt, hreach⟩ := hacc q hq m hm hboard hmissed
      refine ⟨hlt, fun hopen hrun => ?_⟩
      have hmax : s.maxRead.isSome := by rw [show s.maxRead = some q from hq]; rfl
      have hlistens : s.Listening := ⟨hopen, hs.joined hmax, hs.sub.wired hrun⟩
      rcases hreach hopen hrun with hrec | ⟨c, hc, hahead, hev⟩
      · exact .inl hrec
      · exact .inr ⟨c, hc, hahead, max_lt hev (hret hlistens c hc m hm hboard hmissed hahead)⟩
  | readMax =>
      intro q _ m hm _ ⟨read, hread, hnot⟩
      rw [List.mem_singleton.mp hread] at hnot
      exact (hnot (hs.mem_rowIds hm)).elim
  | read => exact fun q hq m hm hboard hmissed => hacc q hq m hm hboard (hs.missed_of_read hm hmissed)
  | subscriber h => exact hacc.subscriber hs h

/-- The message of a mutation goes to the board, under the id of its row. -/
theorem Inv.message (hs : s.Inv args) {board : String} {row : EventRow String}
    (hrow : row ∈ s.outbox.log.rows) (hmut : Mutates board row) {m : Message String}
    (hm : m ∈ s.outbox.stream.messages) (hid : m.envelope.eventId = row.id ∨ m.msgId = row.id) :
    m.subject = .board board ∧ m.msgId = row.id ∧ m.envelope.eventId = row.id := by
  obtain ⟨row', hknown, hmsg, boardId, hroute, henv⟩ := hs.origin.stored m hm
  have hevent : m.envelope.eventId = row'.id := by rw [henv]; rfl
  have hsame : row'.id = row.id := hid.elim (fun h => hevent.symm.trans h) fun h => hmsg.symm.trans h
  have heq : row'.toNewRow = row.toNewRow :=
    hknown.unique hs.traced.log.ids (Outbox.known_of_mem hrow) hsame
  have hroute' : routeRow row.toNewRow = some (.board board, some board) := by
    simp [routeRow, hmut.1, hmut.2]
  rw [heq, hroute'] at hroute
  exact ⟨(Prod.ext_iff.mp (Option.some.inj hroute)).1.symm, hmsg.trans hsame, hevent.trans hsame⟩

/-- A mutation is shown or pending, if the messages that a read has missed are in reach. -/
theorem Inv.shown_or_pending (hs : s.Inv args) (hacc : s.Accounted args) (hfresh : s.FreshIds) {q : ℕ}
    (hcut : .yielded (.cutover q) ∈ s.stream.trace)
    (hreach : ∀ m ∈ s.outbox.stream.messages, m.subject = Subscriber.subject args →
      s.Missed m.msgId → LiveTail.InReach s.evicted s.taken s.tail m)
    {row : EventRow String} (hrow : row ∈ s.outbox.log.rows) (hmut : Mutates args.boardId row) :
    s.Shown q row ∨ s.Pending args q row := by
  have hmax := hs.cutover q hcut
  by_cases hreads : ∀ read ∈ s.reads, row.id ∈ read
  · exact .inl (.inl hreads)
  by_cases hstored : s.outbox.stream.Stored row.id
  · obtain ⟨m, hm, hid⟩ := hstored
    obtain ⟨hboard, -, hevent⟩ := hs.message hrow hmut hm (.inr hid)
    have hmissed : s.Missed m.msgId := by
      rw [hid]
      simpa [Missed] using hreads
    have hlt := (hacc q hmax m hm hboard hmissed).1
    rcases hreach m hm hboard hmissed with hrec | hahead
    · rcases List.mem_append.mp hrec with htaken | hbuf
      · have htail : s.stream.TailInv q s.taken := by
          have := hs.sub.tail
          rwa [hmax] at this
        rcases htail.covers htaken hlt with hold | ⟨e, he, hide⟩
        · rw [stamp_eventId, hevent] at hold
          exact (hfresh _ hold (List.mem_map_of_mem hrow)).elim
        · exact .inl (.inr ⟨e, he, hide.trans hevent, htail.rising.above e he⟩)
      · exact .inr (.inr ⟨m, hm, hid, hlt, .inl hbuf⟩)
    · exact .inr (.inr ⟨m, hm, hid, hlt, .inr ⟨hboard, hahead⟩⟩)
  · exact .inr (.inl hstored)

/-- In a drained state nothing is pending. -/
theorem not_pending {board : String} (hdrained : s.Drained args board) {q : ℕ}
    {row : EventRow String} (hrow : row ∈ s.outbox.log.rows) (hmut : Mutates board row) :
    ¬ s.Pending args q row := by
  intro hpending
  rcases hpending with hunpublished | ⟨m, hm, hid, -, hbuf | ⟨hsub, c, hc, hlt, hev⟩⟩
  · exact hunpublished (hdrained.published row hrow hmut)
  · rw [hdrained.received] at hbuf
    cases hbuf
  · have hnone := List.find?_eq_none.mp (hdrained.pumped c hc) m hm
    simp [hsub, hlt, hev] at hnone

/-! ## While the pump is attended -/

/-- A pump that has ended had passed every message that a read has missed. -/
def Kept (args : SubscribeBoardArgs) (s : FreshSubscription) : Prop :=
  s.maxRead.isSome → s.Listening → s.tail.consumer = none →
    ∀ m ∈ s.outbox.stream.messages, m.subject = Subscriber.subject args → s.Missed m.msgId →
      stamp m ∈ s.taken ++ s.tail.buffer

theorem kept_start (revision : Counter String → Option ℕ) : (start args revision).Kept args :=
  fun h => by cases h

/-- A step of the subscriber that meets the condition. -/
theorem Kept.subscriber (hk : s.Kept args) (hs : s.Inv args) (hacc : s.Accounted args)
    {a : Subscriber.Action} {sub : Subscriber} (hc : s.Attended args.boardId (.subscriber a))
    (hstep : s.toSubscriber.step args s.outbox.stream s.evicted a = some sub) :
    Kept args { s with toSubscriber := sub } := by
  intro hmax hlistens hnone m hm hboard hmissed
  have hjoined := hs.joined hmax
  obtain ⟨hsender, hkeeps⟩ := Subscriber.sender_of_step hstep hjoined hlistens.channel
  have hopen := Subscriber.open_of_step hstep hlistens.loc
  have hbefore : s.Listening := ⟨hopen, hjoined, hsender⟩
  have hstop : ¬ sub.tail.consumer.isSome := by
    rw [show sub.tail.consumer = none from hnone]
    simp
  change stamp m ∈ sub.taken ++ sub.tail.buffer
  rw [Subscriber.received_of_stopped hstep hjoined hstop]
  cases hcons : s.tail.consumer with
  | none => exact hk hmax hbefore hcons m hm hboard hmissed
  | some c =>
      -- only a pump that ends stops, and it has passed the message
      have ha : a = .pumpEnds := by
        by_contra ha
        rw [hkeeps ha hnone] at hcons
        cases hcons
      subst ha
      obtain ⟨q, hq⟩ := Option.isSome_iff_exists.mp hmax
      have hreach := (hacc q hq m hm hboard hmissed).2 hopen (by rw [hcons]; rfl)
      rcases hreach with hrec | ⟨c', hc', hlt, -⟩
      · exact hrec
      · have hle := hc hbefore c' hc' m hm hboard hmissed
        omega

/-- **One step** that meets the condition. -/
theorem Kept.step (hk : s.Kept args) (hs : s.Inv args) (hacc : s.Accounted args)
    (hc : s.Attended args.boardId a) (hstep : s.step batchSize args a = some t) : t.Kept args := by
  cases (step_cases hstep).1 with
  | outbox h =>
      intro hmax hlistens hnone m hm hboard hmissed
      rcases Outbox.stream_step h with
        hst | ⟨token, inWindow, row, subject, boardId, rfl, hflight, hroute, hst⟩
      · exact hk hmax hlistens hnone m (hst ▸ hm) hboard hmissed
      · rw [hst] at hm
        rcases JetStream.store_cases s.outbox.stream inWindow subject row.id
          (buildEnvelope row boardId) with ⟨_, -, -, hstore⟩ | ⟨hstore, hnew⟩ <;> rw [hstore] at hm
        · exact hk hmax hlistens hnone m hm hboard hmissed
        rcases JetStream.mem_append.mp hm with hm | rfl
        · exact hk hmax hlistens hnone m hm hboard hmissed
        · obtain rfl : subject = .board args.boardId := hboard
          obtain ⟨hwindow, hstored⟩ :=
            hc hlistens hnone _ hflight rfl (by rw [hroute]; rfl) hmissed
          exact (hnew hwindow hstored).elim
  | evict => exact hk
  | readMax =>
      intro _ _ _ m hm _ ⟨read, hread, hnot⟩
      rw [List.mem_singleton.mp hread] at hnot
      exact (hnot (hs.mem_rowIds hm)).elim
  | read =>
      exact fun hmax hlistens hnone m hm hboard hmissed =>
        hk hmax hlistens hnone m hm hboard (hs.missed_of_read hm hmissed)
  | subscriber h => exact hk.subscriber hs hacc hc h

/-- The condition keeps the retention behind the pump. -/
theorem Attended.retains (h : s.Attended args.boardId a) : s.Retains args a := by
  cases a with
  | evict upTo => exact h
  | _ => trivial

/-- An attended stream loses nothing. -/
theorem Inv.lossless (hs : s.Inv args) (hacc : s.Accounted args) (hfresh : s.FreshIds)
    (hk : s.Kept args) : s.Lossless args args.boardId := by
  intro hlistens q hcut row hrow hmut
  have hmax := hs.cutover q hcut
  have hcases := hs.shown_or_pending hacc hfresh hcut (fun m hm hboard hmissed => ?_) hrow hmut
  · exact ⟨hcases, fun hdrained => hcases.resolve_right (not_pending hdrained hrow hmut)⟩
  · cases hcons : s.tail.consumer with
    | none => exact .inl (hk (by rw [hmax]; rfl) hlistens hcons m hm hboard hmissed)
    | some c => exact (hacc q hmax m hm hboard hmissed).2 hlistens.loc (by rw [hcons]; rfl)

/-- Under another text than the canonical one a mutation that a read has missed passes by. -/
theorem Inv.not_lossless_misspelled (hs : s.Inv args) {board : String}
    (hspelled : args.boardId ≠ board) (hlistens : s.Listening) {q : ℕ}
    (hcut : .yielded (.cutover q) ∈ s.stream.trace) {row : EventRow String}
    (hrow : row ∈ s.outbox.log.rows) (hmut : Mutates board row)
    (hstored : s.outbox.stream.Stored row.id) (hmissed : s.Missed row.id) :
    ¬ s.Lossless args board := by
  -- what the stream receives is of another subject
  have hother : ∀ e ∈ s.taken ++ s.tail.buffer, e.eventId ≠ row.id := by
    intro e he hid
    obtain ⟨m, hm, hsub, rfl⟩ := hs.sub.fed.mem_received he
    have hboard := (hs.message hrow hmut hm (.inl hid)).1
    exact hspelled (Subject.board.inj (hsub.symm.trans hboard))
  intro hlossless
  rcases (hlossless hlistens q hcut row hrow hmut).1 with (hreads | ⟨e, he, hid, -⟩) | hpending
  · obtain ⟨read, hread, hnot⟩ := hmissed
    exact hnot (hreads read hread)
  · exact hother e (List.mem_append_left _ (hs.sub.tail.sub e he)) hid
  · rcases hpending with hunpublished | ⟨m, hm, hid, -, hbuf | ⟨hsub, -⟩⟩
    · exact hunpublished hstored
    · exact hother _ (List.mem_append_right _ hbuf)
        ((stamp_eventId m).trans (hs.message hrow hmut hm (.inr hid)).2.2)
    · have hboard := (hs.message hrow hmut hm (.inr hid)).1
      exact hspelled (Subject.board.inj (hsub.symm.trans hboard))

/-- **A fresh subscription loses no mutation** in any run of the transactions, the dispatchers, the
retention, the pump and one fresh stream whose steps all meet the condition, if the request names the
board by its canonical text: once the cutover was shown and as long as the stream stays open, every
committed mutation of the board was committed before all reads of the snapshot, or its event was
emitted above the cutover, or it is still on its way there; and when all is published and received, it
is one of the first two.  Under another text every published mutation that a read has missed is
lost. -/
theorem no_mutation_lost {ι : Type*} {codec : IdCodec ι} {b : ι} (hsince : args.sinceSeq = 0)
    {revision : Counter String → Option ℕ} :
    (args.boardId = codec.toString b →
      ∀ tr s, ExecWhile (step batchSize args) (Attended (codec.toString b)) (start args revision)
          tr s →
        s.Lossless args (codec.toString b)) ∧
    (args.boardId ≠ codec.toString b →
      ∀ tr s, Exec (step batchSize args) (start args revision) tr s →
        s.Listening → ∀ q, .yielded (.cutover q) ∈ s.stream.trace →
        ∀ row ∈ s.outbox.log.rows, Mutates (codec.toString b) row → s.outbox.stream.Stored row.id →
          s.Missed row.id → ¬ s.Lossless args (codec.toString b)) := by
  constructor
  · intro hspelled tr s h
    rw [← hspelled] at h ⊢
    have hs : s.Inv args ∧ s.Accounted args ∧ s.FreshIds ∧ s.Kept args :=
      h.invariant (fun s => s.Inv args ∧ s.Accounted args ∧ s.FreshIds ∧ s.Kept args)
        ⟨inv_start args revision, accounted_start args revision, fun _ hid => (by cases hid),
          kept_start revision⟩
        fun _ _ _ ht hc hst => ⟨ht.1.step hsince hst, ht.2.1.step ht.1 hc.retains hst,
          (step_cases hst).2, ht.2.2.2.step ht.1 ht.2.1 hc hst⟩
    exact hs.1.lossless hs.2.1 hs.2.2.1 hs.2.2.2
  · intro hspelled tr s h hlistens q hcut row hrow hmut hstored hmissed
    have hs : s.Inv args := h.invariant (Inv args) (inv_start args revision)
      fun _ _ _ ht hst => ht.step hsince hst
    exact hs.not_lossless_misspelled hspelled hlistens hcut hrow hmut hstored hmissed

/-- The arguments of a fresh stream of an internal board. -/
def freshArgs (boardId : String) : SubscribeBoardArgs :=
  ⟨⟨some "t", some "u"⟩, boardId, false, 30, "t", 0, 1024⟩

/-- One board. -/
def oneBoard (board : String) : Counter String → Option ℕ :=
  fun c => if c = .board board then some 0 else none

/-- A transaction that commits one event of the board. -/
def mutation (board rowId : String) : List Action :=
  [.outbox (.mutate (.begin 0)),
    .outbox (.mutate (.insertBoardEvent 0 "t" board "CardCreated" (.object []))),
    .outbox (.mutate (.insertRow 0 rowId)), .outbox (.mutate (.notify 0)),
    .outbox (.mutate (.commit 0))]

/-- One pass of the dispatcher over one row. -/
def publication (token : ℕ) : List Action :=
  [.outbox (.select 0), .outbox (.publish 0), .outbox (.receive token true), .outbox (.ack 0),
    .outbox (.update 0), .outbox (.finish 0)]

/-- The subscription and the two reads. -/
def subscription : List Action :=
  [.subscriber .openConsumer, .subscriber .join, .readMax, .read]

/-- The cutover after an empty snapshot. -/
def cutOver : List Action :=
  [.subscriber (.stream (.snapshotRead [] [] 0)), .subscriber (.stream (.replay "x")),
    .subscriber (.stream .cutover), .subscriber (.stream (.enter 0))]

/-- One mutation before the snapshot, published afterwards, and one after the snapshot; then the
pump ends. -/
def twoMutations : List Action :=
  mutation "b" "r1" ++ subscription ++ publication 0 ++ mutation "b" "r2" ++ cutOver ++
    publication 1 ++
    [.subscriber .pump, .subscriber .pump, .subscriber .pumpEnds, .subscriber (.stream (.pass 0)),
      .subscriber .recv, .subscriber (.stream (.pass 0)), .subscriber .recv]

theorem no_mutation_lost_twoMutations :
    ∃ s, Exec (step 10 (freshArgs "b")) (start (freshArgs "b") (oneBoard "b")) twoMutations s ∧
      s.reads = [["r1"], ["r1"]] ∧ ∀ row ∈ s.outbox.log.rows, s.Shown 0 row := by
  obtain ⟨s, hrun, hreads, hlistens, hchannel, hcut, hrows, hstored, hbuf⟩ : ∃ s,
      run (guarded (step 10 (freshArgs "b")) (Attended "b")) (start (freshArgs "b") (oneBoard "b"))
        twoMutations = some s ∧
      s.reads = [["r1"], ["r1"]] ∧ s.Listening ∧ s.tail.consumer = none ∧
      s.stream.trace.head? = some (.yielded (.cutover 0)) ∧
      s.outbox.log.rows.map (fun row => (row.id, row.boardId, row.aggregatedBoardId)) =
        [("r1", some "b", none), ("r2", some "b", none)] ∧
      s.outbox.stream.messages.map Message.msgId = ["r1", "r2"] ∧ s.tail.buffer = [] :=
    ⟨_, rfl, rfl, ⟨nofun, rfl, rfl⟩, rfl, rfl, rfl, rfl, rfl⟩
  have hrow : ∀ row ∈ s.outbox.log.rows, (row.id = "r1" ∨ row.id = "r2") ∧ Mutates "b" row := by
    intro row hrow
    have hmem := List.mem_map_of_mem (f := fun row : EventRow String =>
      (row.id, row.boardId, row.aggregatedBoardId)) hrow
    rw [hrows] at hmem
    simp only [List.mem_cons, Prod.mk.injEq, List.not_mem_nil, or_false] at hmem
    rcases hmem with ⟨hid, hboard, hagg⟩ | ⟨hid, hboard, hagg⟩
    · exact ⟨.inl hid, hboard, hagg⟩
    · exact ⟨.inr hid, hboard, hagg⟩
  have hdrained : s.Drained (freshArgs "b") "b" := by
    refine ⟨fun row hmem _ => ?_, fun c hc => ?_, hbuf⟩
    · have hid : row.id ∈ s.outbox.stream.messages.map Message.msgId := by
        rw [hstored]
        simpa using (hrow row hmem).1
      exact List.mem_map.mp hid
    · rw [hchannel] at hc
      cases hc
  have hwhile := execWhile_of_run hrun
  have hlossless := (@no_mutation_lost 10 (freshArgs "b") String BoardStream.plainIds "b" rfl
    (oneBoard "b")).1 rfl _ _ hwhile
  exact ⟨s, hwhile.exec, hreads, fun row hmem =>
    (hlossless hlistens 0 (List.mem_of_mem_head? hcut) row hmem (hrow row hmem).2).2 hdrained⟩

/-- A mutation after the cutover. -/
def lateMutation (board : String) : List Action :=
  subscription ++ cutOver ++ mutation board "r1" ++ publication 0

/-- The same, with a pump that has ended. -/
def deadPump : List Action :=
  subscription ++ cutOver ++ [.subscriber .pumpEnds] ++ mutation "b" "r1" ++ publication 0

/-- Another text of an id. -/
def lowerBoard : String := "01arz3ndektsv4rrffq69g5fav"

/-- **The claim as stated fails**: a stream that was opened under the lower-case text of an id, or
whose pump has ended, stays open, and a mutation that is committed and published after its cutover
never reaches it. -/
theorem not_lossless_lowerCase :
    (∃ b s, crockfordIds.parse lowerBoard = some b ∧
      Exec (step 10 (freshArgs lowerBoard))
        (start (freshArgs lowerBoard) (oneBoard (crockfordIds.toString b)))
        (lateMutation (crockfordIds.toString b)) s ∧
      ¬ s.Lossless (freshArgs lowerBoard) (crockfordIds.toString b)) ∧
    ∃ s, Exec (step 10 (freshArgs "b")) (start (freshArgs "b") (oneBoard "b")) deadPump s ∧
      ¬ s.Lossless (freshArgs "b") "b" := by
  constructor
  · obtain ⟨b, hparse⟩ : ∃ b, crockfordIds.parse lowerBoard = some b :=
      Option.isSome_iff_exists.mp (by decide)
    have htext : crockfordIds.toString b = "01ARZ3NDEKTSV4RRFFQ69G5FAV" := by
      have h : (crockfordIds.parse lowerBoard).map crockfordIds.toString =
        some "01ARZ3NDEKTSV4RRFFQ69G5FAV" := by decide
      rw [hparse] at h
      exact Option.some.inj h
    refine ⟨b, ?_⟩
    rw [htext]
    obtain ⟨s, hrun, hlistens, hcut, hstored, hreads, row, hrows, hid, hmut⟩ : ∃ s,
        run (step 10 (freshArgs lowerBoard))
          (start (freshArgs lowerBoard) (oneBoard "01ARZ3NDEKTSV4RRFFQ69G5FAV"))
          (lateMutation "01ARZ3NDEKTSV4RRFFQ69G5FAV") = some s ∧ s.Listening ∧
        s.stream.trace.head? = some (.yielded (.cutover 0)) ∧
        s.outbox.stream.messages.map Message.msgId = ["r1"] ∧ s.reads = [[], []] ∧
        ∃ row, s.outbox.log.rows = [row] ∧ row.id = "r1" ∧
          Mutates "01ARZ3NDEKTSV4RRFFQ69G5FAV" row :=
      ⟨_, rfl, ⟨nofun, rfl, rfl⟩, rfl, rfl, rfl, _, rfl, rfl, rfl, rfl⟩
    have hs : s.Inv (freshArgs lowerBoard) := (exec_of_run hrun).invariant _ (inv_start _ _)
      fun _ _ _ ht hst => ht.step rfl hst
    have hpublished : s.outbox.stream.Stored row.id :=
      List.mem_map.mp (by rw [hstored, hid]; exact List.mem_singleton.mpr rfl)
    exact ⟨s, hparse, exec_of_run hrun, hs.not_lossless_misspelled (by decide) hlistens
      (List.mem_of_mem_head? hcut) (by rw [hrows]; exact List.mem_singleton.mpr rfl) hmut hpublished
      ⟨[], by rw [hreads]; exact List.mem_cons_self, by simp⟩⟩
  · obtain ⟨s, hrun, hlistens, hcut, hstored, hreads, htail, hemitted, row, hrows, hid, hmut⟩ : ∃ s,
        run (step 10 (freshArgs "b")) (start (freshArgs "b") (oneBoard "b")) deadPump = some s ∧
        s.Listening ∧ s.stream.trace.head? = some (.yielded (.cutover 0)) ∧
        s.outbox.stream.messages.map Message.msgId = ["r1"] ∧ s.reads = [[], []] ∧
        s.tail = ⟨true, none, some []⟩ ∧ s.stream.emitted = [] ∧
        ∃ row, s.outbox.log.rows = [row] ∧ row.id = "r1" ∧ Mutates "b" row :=
      ⟨_, rfl, ⟨nofun, rfl, rfl⟩, rfl, rfl, rfl, rfl, rfl, _, rfl, rfl, rfl, rfl⟩
    refine ⟨s, exec_of_run hrun, fun hlossless => ?_⟩
    have hmem : row ∈ s.outbox.log.rows := by rw [hrows]; exact List.mem_singleton.mpr rfl
    rcases (hlossless hlistens 0 (List.mem_of_mem_head? hcut) row hmem hmut).1 with
      (hshown | ⟨e, he, -⟩) | (hunpublished | ⟨m, -, -, -, hbuf | ⟨-, c, hc, -⟩⟩)
    · have := hshown [] (by rw [hreads]; exact List.mem_cons_self)
      cases this
    · rw [hemitted] at he
      cases he
    · exact hunpublished (List.mem_map.mp (by rw [hstored, hid]; exact List.mem_singleton.mpr rfl))
    · rw [htail] at hbuf
      cases hbuf
    · rw [htail] at hc
      cases hc

end FreshSubscription

end Kanban.Services
