import Mathlib.Data.List.Nodup
import Kanban.Realtime.EventLog

/-!
# Envelopes and the JetStream stream

The messages that the outbox publishes and the stream that stores them.  What the stream has stored
is append-only with strictly increasing sequences, and what retention removes stays in it here; a
publish whose `Nats-Msg-Id` was stored inside the duplicate window stores nothing and is acknowledged
with the original sequence.

## Main definitions

* `BoardEventEnvelope`, `buildEnvelope` — the envelope of an `event_log` row.
* `Subject`, `routeRow` — where a row is published.
* `JetStream` — the messages that were stored, in order of their sequences.
* `JetStream.store` — the server receives one publish.
-/

namespace Kanban.Realtime

/-- `json_u64`: a `u64` field of the payload; missing or wrong-typed is `0`. -/
def jsonU64 (json : Value) (key : String) : ℕ :=
  match json.get key with
  | some (.num n) => n.toNat
  | _ => 0

/-- `json_str` with the default `"system"`, as the envelope uses it. -/
def actorSubject (json : Value) : String :=
  match json.get "actor_subject" with
  | some (.str s) => s
  | _ => "system"

/-- The event envelope.  `boardId` is `none` where the source sets the empty string. -/
structure BoardEventEnvelope (ι : Type*) where
  boardId : Option ι
  eventId : ι
  natsSeq : ℕ
  boardRevision : ℕ
  actorSubject : String
  eventType : String
  payload : Value

/-- `kanban.board.<id>.events` or `kanban.project.<id>.events`. -/
inductive Subject (ι : Type*)
  | board (id : ι)
  | project (id : ι)
  deriving DecidableEq

variable {ι : Type*}

/-- The subject of a row and the board id of its envelope; `none` when the row names no
object. -/
def routeRow (row : NewRow ι) : Option (Subject ι × Option ι) :=
  match row.aggregatedBoardId.or row.boardId with
  | some id => some (.board id, some id)
  | none => row.projectId.map fun id => (.project id, none)

/-- `build_envelope`.  The sequence is known only after the ack. -/
def buildEnvelope (row : EventRow ι) (boardId : Option ι) : BoardEventEnvelope ι where
  boardId := boardId
  eventId := row.id
  natsSeq := 0
  boardRevision := jsonU64 row.payload "board_revision"
  actorSubject := Kanban.Realtime.actorSubject row.payload
  eventType := row.eventType
  payload := row.payload

/-- A stored message. -/
structure Message (ι : Type*) where
  seq : ℕ
  subject : Subject ι
  msgId : ι
  envelope : BoardEventEnvelope ι

/-- The stream: all messages that it has stored, in the order of their sequences. -/
structure JetStream (ι : Type*) where
  messages : List (Message ι)
  lastSeq : ℕ
  ordered : messages.Pairwise fun m n => m.seq < n.seq
  bound : ∀ m ∈ messages, m.seq ≤ lastSeq

namespace JetStream

def empty : JetStream ι where
  messages := []
  lastSeq := 0
  ordered := List.Pairwise.nil
  bound := fun _ h => by cases h

/-- Append a message under the next sequence. -/
def append (s : JetStream ι) (subject : Subject ι) (msgId : ι)
    (envelope : BoardEventEnvelope ι) : JetStream ι where
  messages := s.messages ++ [⟨s.lastSeq + 1, subject, msgId, envelope⟩]
  lastSeq := s.lastSeq + 1
  ordered := by
    refine List.pairwise_append.mpr ⟨s.ordered, List.pairwise_singleton _ _, ?_⟩
    intro m hm n hn
    obtain rfl := List.mem_singleton.mp hn
    exact Nat.lt_succ_of_le (s.bound m hm)
  bound := by
    intro m hm
    rcases List.mem_append.mp hm with hm | hm
    · exact Nat.le_succ_of_le (s.bound m hm)
    · obtain rfl := List.mem_singleton.mp hm
      exact le_rfl

/-- The stream has stored a message of this id with this sequence. -/
def Holds (s : JetStream ι) (msgId : ι) (seq : ℕ) : Prop :=
  ∃ m ∈ s.messages, m.msgId = msgId ∧ m.seq = seq

/-- The stream has stored a message of this id. -/
def Stored (s : JetStream ι) (msgId : ι) : Prop := ∃ m ∈ s.messages, m.msgId = msgId

variable {s : JetStream ι} {subject : Subject ι} {msgId : ι} {envelope : BoardEventEnvelope ι}

theorem mem_append {m : Message ι} :
    m ∈ (s.append subject msgId envelope).messages ↔
      m ∈ s.messages ∨ m = ⟨s.lastSeq + 1, subject, msgId, envelope⟩ := by
  simp [append]

theorem Holds.stored {seq : ℕ} (h : s.Holds msgId seq) : s.Stored msgId := by
  obtain ⟨m, hm, h, -⟩ := h
  exact ⟨m, hm, h⟩

/-- One sequence for each id when ids are stored once. -/
theorem Holds.unique (hs : (s.messages.map Message.msgId).Nodup) {p q : ℕ}
    (hp : s.Holds msgId p) (hq : s.Holds msgId q) : p = q := by
  obtain ⟨m, hm, hmid, rfl⟩ := hp
  obtain ⟨n, hn, hnid, rfl⟩ := hq
  rw [List.inj_on_of_nodup_map hs hm hn (hmid.trans hnid.symm)]

variable [DecidableEq ι]

/-- The message stored under a `Nats-Msg-Id`. -/
def find (s : JetStream ι) (msgId : ι) : Option (Message ι) :=
  s.messages.find? (·.msgId = msgId)

/-- The server receives a publish: the acknowledged sequence and the stream after it. -/
def store (s : JetStream ι) (inWindow : Bool) (subject : Subject ι) (msgId : ι)
    (envelope : BoardEventEnvelope ι) : ℕ × JetStream ι :=
  match if inWindow then s.find msgId else none with
  | some m => (m.seq, s)
  | none => (s.lastSeq + 1, s.append subject msgId envelope)

instance (s : JetStream ι) (msgId : ι) : Decidable (s.Stored msgId) :=
  inferInstanceAs (Decidable (∃ m ∈ s.messages, m.msgId = msgId))

variable {inWindow : Bool}

theorem find_of_stored (h : s.Stored msgId) :
    ∃ m ∈ s.messages, m.msgId = msgId ∧ s.find msgId = some m := by
  cases hf : s.find msgId with
  | none =>
      obtain ⟨m, hm, hid⟩ := h
      simpa [hid] using List.find?_eq_none.mp hf m hm
  | some m =>
      exact ⟨m, List.mem_of_find?_eq_some hf, by simpa using List.find?_some hf, rfl⟩

theorem find_of_not_stored (h : ¬ s.Stored msgId) : s.find msgId = none := by
  refine List.find?_eq_none.mpr fun m hm hid => h ⟨m, hm, by simpa using hid⟩

/-- What a publish does: it either finds its message stored, or appends it. -/
theorem store_cases (s : JetStream ι) (inWindow : Bool) (subject : Subject ι) (msgId : ι)
    (envelope : BoardEventEnvelope ι) :
    (∃ m ∈ s.messages, m.msgId = msgId ∧ s.store inWindow subject msgId envelope = (m.seq, s)) ∨
    (s.store inWindow subject msgId envelope
        = (s.lastSeq + 1, s.append subject msgId envelope) ∧
      (inWindow → ¬ s.Stored msgId)) := by
  by_cases hst : s.Stored msgId
  · obtain ⟨m, hm, hid, hf⟩ := find_of_stored hst
    cases inWindow with
    | true => exact .inl ⟨m, hm, hid, by simp [store, hf]⟩
    | false => exact .inr ⟨by simp [store], by simp⟩
  · refine .inr ⟨?_, fun _ => hst⟩
    cases inWindow <;> simp [store, find_of_not_stored hst]

/-- A publish that no stored message answers for is appended. -/
theorem store_of_new (h : ¬ (inWindow = true ∧ s.Stored msgId)) :
    s.store inWindow subject msgId envelope =
      (s.lastSeq + 1, s.append subject msgId envelope) := by
  cases inWindow with
  | false => simp [store]
  | true => simp [store, find_of_not_stored fun hst => h ⟨rfl, hst⟩]

theorem subset_store : s.messages ⊆ (s.store inWindow subject msgId envelope).2.messages := by
  rcases s.store_cases inWindow subject msgId envelope with ⟨m, -, -, h⟩ | ⟨h, -⟩ <;> rw [h]
  · exact List.Subset.refl _
  · exact fun m hm => mem_append.mpr (.inl hm)

/-- A message that a publish adds comes after all others. -/
theorem mem_store {m : Message ι} (h : m ∈ (s.store inWindow subject msgId envelope).2.messages) :
    m ∈ s.messages ∨ m = ⟨s.lastSeq + 1, subject, msgId, envelope⟩ := by
  rcases s.store_cases inWindow subject msgId envelope with ⟨n, -, -, hst⟩ | ⟨hst, -⟩
  · rw [hst] at h
    exact .inl h
  · rw [hst] at h
    exact mem_append.mp h

theorem lastSeq_le_store : s.lastSeq ≤ (s.store inWindow subject msgId envelope).2.lastSeq := by
  rcases s.store_cases inWindow subject msgId envelope with ⟨n, -, -, hst⟩ | ⟨hst, -⟩ <;> rw [hst]
  exact Nat.le_succ _

theorem Holds.store {msgId' : ι} {seq : ℕ} (h : s.Holds msgId' seq) :
    (s.store inWindow subject msgId envelope).2.Holds msgId' seq := by
  obtain ⟨m, hm, h⟩ := h
  exact ⟨m, subset_store hm, h⟩

theorem Stored.store {msgId' : ι} (h : s.Stored msgId') :
    (s.store inWindow subject msgId envelope).2.Stored msgId' := by
  obtain ⟨m, hm, h⟩ := h
  exact ⟨m, subset_store hm, h⟩

/-- The acknowledged sequence is that of a stored message. -/
theorem holds_store : (s.store inWindow subject msgId envelope).2.Holds msgId
    (s.store inWindow subject msgId envelope).1 := by
  rcases s.store_cases inWindow subject msgId envelope with ⟨m, hm, hid, h⟩ | ⟨h, -⟩ <;> rw [h]
  · exact ⟨m, hm, hid, rfl⟩
  · exact ⟨_, mem_append.mpr (.inr rfl), rfl, rfl⟩

/-- Inside the duplicate window no id is stored twice. -/
theorem nodup_store (hs : (s.messages.map Message.msgId).Nodup)
    (hw : s.Stored msgId → inWindow) :
    ((s.store inWindow subject msgId envelope).2.messages.map Message.msgId).Nodup := by
  rcases s.store_cases inWindow subject msgId envelope with ⟨m, -, -, h⟩ | ⟨h, hnot⟩ <;> rw [h]
  · exact hs
  · have hfresh : ¬ s.Stored msgId := fun hst => hnot (hw hst) hst
    simp only [append, List.map_append, List.map_cons, List.map_nil]
    refine List.nodup_append.mpr ⟨hs, List.nodup_singleton _, ?_⟩
    intro a ha b hb
    obtain ⟨m, hm, rfl⟩ := List.mem_map.mp ha
    obtain rfl := List.mem_singleton.mp hb
    exact fun hid => hfresh ⟨m, hm, hid⟩

end JetStream

end Kanban.Realtime
