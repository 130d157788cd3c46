import Kanban.Realtime.Outbox

/-!
# What the server still holds

`realtime/jetstream_bootstrap.rs`: the stream `KANBAN_BOARD_EVENTS` keeps its messages for
`max_age` and at most `max_messages_per_subject` of each subject; under another retention than
`Limits` a message also goes when its consumers have acknowledged it.  A message that is gone stays
published: its row keeps its sequence, and inside the duplicate window its id is still known.

## Main definitions

* `StreamConfig` — the limits of the stream.
* `Server`, `Server.step` — the outbox with the messages that the server still holds.
* `Server.Outlived` — the limits allow a message to be gone.
* `Server.Retained` — a stored message is held, or the limits allow it to be gone.
-/

namespace Kanban.Realtime

open Machine

/-- `async_nats::jetstream::stream::RetentionPolicy`. -/
inductive Retention
  | limits
  | interest
  | workQueue
  deriving DecidableEq, Repr

/-- The part of `StreamConfig` that decides what the server keeps.  An age of zero and a number
that is not positive set no limit. -/
structure StreamConfig where
  retention : Retention
  maxAgeSecs : ℕ
  maxMsgsPerSubject : ℤ
  deriving DecidableEq, Repr

/-- `default_config`: a day, and 10 000 messages of each subject. -/
def defaultConfig : StreamConfig := ⟨.limits, 86400, 10000⟩

variable {ι : Type*}

/-- The outbox and what its server holds.  `storedAt` is the time at which a sequence was assigned;
one that is still to be assigned carries the time of the last publish. -/
structure Server (ι : Type*) where
  outbox : Outbox ι
  held : List (Message ι)
  now : ℕ
  storedAt : ℕ → ℕ

namespace Server

def new (revision : Counter ι → Option ℕ) : Server ι where
  outbox := .new revision
  held := []
  now := 0
  storedAt := fun _ => 0

inductive Action (ι : Type*)
  | outbox (a : Outbox.Action ι)
  /-- Time goes by. -/
  | tick (secs : ℕ)
  /-- The server removes the messages that have passed `max_age`. -/
  | expire
  /-- The consumers have acknowledged a message. -/
  | consumed (seq : ℕ)

variable (config : StreamConfig)

/-- The message has passed `max_age`. -/
def Aged (s : Server ι) (m : Message ι) : Prop :=
  0 < config.maxAgeSecs ∧ config.maxAgeSecs < s.now - s.storedAt m.seq

instance (s : Server ι) (m : Message ι) : Decidable (s.Aged config m) :=
  inferInstanceAs (Decidable (_ ∧ _))

variable [LinearOrder ι]

/-- Of these messages, `max_messages_per_subject` come after `m` on its subject. -/
def Surplus (messages : List (Message ι)) (m : Message ι) : Prop :=
  0 < config.maxMsgsPerSubject ∧ config.maxMsgsPerSubject ≤
    (messages.filter fun n => n.subject = m.subject ∧ m.seq < n.seq).length

instance (messages : List (Message ι)) (m : Message ι) : Decidable (Surplus config messages m) :=
  inferInstanceAs (Decidable (_ ∧ _))

/-- The oldest messages of each subject go beyond `max_messages_per_subject`. -/
def trim (held : List (Message ι)) : List (Message ι) :=
  held.filter fun m => ¬ Surplus config held m

/-- The outbox goes on, and the server keeps what it stores. -/
def follow (s : Server ι) (outbox : Outbox ι) : Server ι :=
  { s with
    outbox := outbox
    held := trim config (s.held ++ outbox.stream.messages.drop s.outbox.stream.messages.length)
    storedAt := fun seq => if s.outbox.stream.lastSeq < seq then s.now else s.storedAt seq }

def step (batchSize : ℕ) (s : Server ι) : Action ι → Option (Server ι)
  | .outbox a => (s.outbox.step batchSize a).map (s.follow config)
  | .tick secs => some { s with now := s.now + secs }
  | .expire => some { s with held := s.held.filter fun m => ¬ s.Aged config m }
  | .consumed seq =>
      if config.retention = .limits then none
      else some { s with held := s.held.filter (·.seq ≠ seq) }

/-- Every retry falls inside the duplicate window. -/
def InWindow (s : Server ι) : Action ι → Prop
  | .outbox a => s.outbox.InWindow a
  | _ => True

instance (s : Server ι) : ∀ a, Decidable (s.InWindow a)
  | .outbox a => inferInstanceAs (Decidable (s.outbox.InWindow a))
  | .tick _ | .expire | .consumed _ => inferInstanceAs (Decidable True)

/-- The limits allow the message to be gone. -/
def Outlived (s : Server ι) (m : Message ι) : Prop :=
  config.retention ≠ .limits ∨ s.Aged config m ∨ Surplus config s.outbox.stream.messages m

/-- What the server holds was stored, and a stored message is held or allowed to be gone. -/
structure Retained (s : Server ι) : Prop where
  sub : s.held.Sublist s.outbox.stream.messages
  kept : ∀ m ∈ s.outbox.stream.messages, m ∈ s.held ∨ s.Outlived config m

theorem retained_new (revision : Counter ι → Option ℕ) : (new revision).Retained config :=
  ⟨List.Sublist.refl _, fun _ hm => by cases hm⟩

variable {config} {batchSize : ℕ} {s t : Server ι} {a : Action ι}

/-- A step of the outbox adds messages behind all others. -/
theorem messages_step {o o' : Outbox ι} {a : Outbox.Action ι} (h : o.step batchSize a = some o') :
    ∃ new, o'.stream.messages = o.stream.messages ++ new := by
  rcases Outbox.stream_step h with hst | ⟨_, _, row, _, _, -, -, -, hst⟩ <;> rw [hst]
  · exact ⟨[], (List.append_nil _).symm⟩
  · rcases JetStream.store_cases o.stream _ _ row.id _ with ⟨m, -, -, hstore⟩ | ⟨hstore, -⟩ <;>
      rw [hstore]
    · exact ⟨[], (List.append_nil _).symm⟩
    · exact ⟨_, rfl⟩

/-- More messages leave no fewer behind. -/
theorem Surplus.mono {messages messages' : List (Message ι)} {m : Message ι}
    (h : Surplus config messages m) (hsub : messages.Sublist messages') :
    Surplus config messages' m := by
  refine ⟨h.1, h.2.trans ?_⟩
  exact_mod_cast (hsub.filter _).length_le

theorem Retained.follow (hs : s.Retained config) {outbox : Outbox ι} {new : List (Message ι)}
    (hnew : outbox.stream.messages = s.outbox.stream.messages ++ new) :
    (s.follow config outbox).Retained config := by
  have hheld : (s.follow config outbox).held = trim config (s.held ++ new) := by
    simp [Server.follow, hnew]
  have hgrown : (s.held ++ new).Sublist outbox.stream.messages := by
    rw [hnew]
    exact hs.sub.append (List.Sublist.refl _)
  refine ⟨hheld ▸ List.filter_sublist.trans hgrown, fun m hm => ?_⟩
  have hmore : s.outbox.stream.messages.Sublist outbox.stream.messages := by
    rw [hnew]
    exact List.sublist_append_left _ _
  have hcut : m ∈ s.held ++ new → m ∈ (s.follow config outbox).held ∨
      (s.follow config outbox).Outlived config m := by
    intro hm
    by_cases hsurplus : Surplus config (s.held ++ new) m
    · exact .inr (.inr (.inr (hsurplus.mono hgrown)))
    · exact .inl (by rw [hheld]; exact List.mem_filter.mpr ⟨hm, by simpa using hsurplus⟩)
  have hm' : m ∈ s.outbox.stream.messages ++ new := hnew ▸ hm
  rcases List.mem_append.mp hm' with hold | hlate
  · rcases hs.kept m hold with hheld | hpolicy | haged | hsurplus
    · exact hcut (List.mem_append_left _ hheld)
    · exact .inr (.inl hpolicy)
    · refine .inr (.inr (.inl ⟨haged.1, ?_⟩))
      have hold : ¬ s.outbox.stream.lastSeq < m.seq := not_lt.mpr (s.outbox.stream.bound m hold)
      simpa [Server.follow, hold] using haged.2
    · exact .inr (.inr (.inr (hsurplus.mono hmore)))
  · exact hcut (List.mem_append_right _ hlate)

/-- **One step** keeps what the limits do not allow to go. -/
theorem Retained.step (hs : s.Retained config) (hstep : s.step config batchSize a = some t) :
    t.Retained config := by
  cases a with
  | outbox a =>
      obtain ⟨outbox, h, rfl⟩ := Option.map_eq_some_iff.mp hstep
      obtain ⟨new, hnew⟩ := messages_step h
      exact hs.follow hnew
  | tick secs =>
      obtain rfl := Option.some.inj hstep
      refine ⟨hs.sub, fun m hm => (hs.kept m hm).imp_right fun h => ?_⟩
      rcases h with hpolicy | haged | hsurplus
      · exact .inl hpolicy
      · exact .inr (.inl ⟨haged.1, haged.2.trans_le (Nat.sub_le_sub_right (Nat.le_add_right _ _) _)⟩)
      · exact .inr (.inr hsurplus)
  | expire =>
      obtain rfl := Option.some.inj hstep
      refine ⟨List.filter_sublist.trans hs.sub, fun m hm => ?_⟩
      rcases hs.kept m hm with hheld | hgone
      · by_cases haged : s.Aged config m
        · exact .inr (.inr (.inl haged))
        · exact .inl (List.mem_filter.mpr ⟨hheld, by simpa using haged⟩)
      · exact .inr hgone
  | consumed seq =>
      simp only [Server.step] at hstep
      split at hstep
      · cases hstep
      · rename_i hpolicy
        obtain rfl := Option.some.inj hstep
        exact ⟨List.filter_sublist.trans hs.sub, fun m hm => .inr (.inl hpolicy)⟩

/-- A run of the server is one of its outbox. -/
theorem outbox_run {tr : List (Action ι)}
    (h : ExecWhile (Server.step config batchSize) InWindow s tr t) :
    ∃ tr', ExecWhile (Outbox.step batchSize) Outbox.InWindow s.outbox tr' t.outbox := by
  induction h with
  | nil => exact ⟨[], .nil⟩
  | @snoc tr u a v _ hw hstep ih =>
      obtain ⟨tr', ih⟩ := ih
      cases a with
      | outbox a =>
          obtain ⟨outbox, h, rfl⟩ := Option.map_eq_some_iff.mp hstep
          exact ⟨_, ih.snoc hw h⟩
      | tick secs =>
          obtain rfl := Option.some.inj hstep
          exact ⟨tr', ih⟩
      | expire =>
          obtain rfl := Option.some.inj hstep
          exact ⟨tr', ih⟩
      | consumed seq =>
          simp only [Server.step] at hstep
          split at hstep
          · cases hstep
          · obtain rfl := Option.some.inj hstep
            exact ⟨tr', ih⟩

/-- **Publication is effectively once.**  Along every run whose retries fall inside the duplicate
window, whatever the server removes in between: at most one message was ever stored for each row id,
and at most one is held; a recorded sequence is that of the stored message, which is held unless the
limits allow it to be gone; the sequence never changes; and no dispatcher that selects after it was
recorded publishes the row again. -/
theorem publication_effectively_once {revision : Counter ι → Option ℕ} {tr : List (Action ι)}
    (h : ExecWhile (Server.step config batchSize) InWindow (new revision) tr s) :
    (s.outbox.stream.messages.map Message.msgId).Nodup ∧ (s.held.map Message.msgId).Nodup ∧
    (∀ row ∈ s.outbox.log.rows, ∀ q, row.natsSeq = some q →
      ∃ m ∈ s.outbox.stream.messages, m.msgId = row.id ∧ m.seq = q ∧
        (m ∈ s.held ∨ s.Outlived config m)) ∧
    ∀ tr' u, ExecWhile (Server.step config batchSize) InWindow s tr' u →
      ∀ rowId q, s.outbox.Records rowId q →
        (∀ row ∈ u.outbox.log.rows, row.id = rowId → row.natsSeq = some q) ∧
        ∀ d, ¬ (s.outbox.dispatchers d).Holding rowId →
          ∀ a v, u.step config batchSize (.outbox a) = some v →
            u.outbox.published a ≠ some (d, rowId) := by
  have hs : s.Retained config := h.invariant _ (retained_new config revision)
    fun _ _ _ ht _ hst => ht.step hst
  obtain ⟨tr₀, h₀⟩ := outbox_run h
  obtain ⟨honce, hrecorded, hlater⟩ := Outbox.published_once h₀
  refine ⟨honce, honce.sublist (hs.sub.map _), fun row hrow q hq => ?_,
    fun tr' u hu rowId q hr => ?_⟩
  · obtain ⟨m, hm, hid, hseq⟩ := hrecorded row hrow q hq
    exact ⟨m, hm, hid, hseq, hs.kept m hm⟩
  · obtain ⟨tr₁, h₁⟩ := outbox_run hu
    obtain ⟨hsame, hsilent⟩ := hlater tr₁ _ h₁ rowId q hr
    refine ⟨hsame, fun d hd a v hstep => ?_⟩
    obtain ⟨outbox, hout, -⟩ := Option.map_eq_some_iff.mp hstep
    exact hsilent d hd a outbox hout

/-- One event, selected and published by two dispatchers; the ack of the second publish is
lost and its dispatcher selects again. -/
def twoDispatchers : List (Action ℕ) :=
  ([.mutate (.begin 0), .mutate (.insertBoardEvent 0 "t" 7 "CardCreated" (.object [])),
    .mutate (.insertRow 0 100), .mutate (.notify 0), .mutate (.commit 0),
    .select 0, .select 1, .publish 0, .publish 1, .receive 0 true, .receive 1 true,
    .ack 0, .ackFails 1, .update 0, .finish 1, .select 1] : List (Outbox.Action ℕ)).map .outbox

theorem publication_effectively_once_twoDispatchers :
    ∃ s, run (guarded (Server.step defaultConfig 10) InWindow)
        (new EventLog.emptyBoard.revision) twoDispatchers = some s ∧
      s.held.map Message.seq = [1] ∧ s.outbox.Records 100 1 ∧
      (∀ row ∈ s.outbox.log.rows, row.id = 100 → row.natsSeq = some 1) ∧
      ∀ d, ¬ (s.outbox.dispatchers d).Holding 100 →
        ∀ a v, s.step defaultConfig 10 (.outbox a) = some v →
          s.outbox.published a ≠ some (d, 100) := by
  obtain ⟨s, hrun, hheld, hrec⟩ : ∃ s, run (guarded (Server.step defaultConfig 10) InWindow)
      (new EventLog.emptyBoard.revision) twoDispatchers = some s ∧ s.held.map Message.seq = [1] ∧
      s.outbox.Records 100 1 := ⟨_, rfl, rfl, _, List.mem_cons_self, rfl, rfl⟩
  exact ⟨s, hrun, hheld, hrec,
    (publication_effectively_once (execWhile_of_run hrun)).2.2.2 [] s .nil 100 1 hrec⟩

/-- More than a day after the publication. -/
def dayLater : List (Action ℕ) := twoDispatchers ++ [.tick 86401, .expire]

/-- **The claim as stated fails**: under the default limits the message of a recorded row is gone
after a day. -/
theorem not_held_dayLater :
    ¬ ∀ (tr : List (Action ℕ)) (s : Server ℕ),
      ExecWhile (Server.step defaultConfig 10) InWindow (new EventLog.emptyBoard.revision) tr s →
      ∀ row ∈ s.outbox.log.rows, ∀ q, row.natsSeq = some q →
        ∃ m ∈ s.held, m.msgId = row.id ∧ m.seq = q := by
  intro hall
  obtain ⟨s, hrun, hheld, row, hrow, hseq⟩ : ∃ s,
      run (guarded (Server.step defaultConfig 10) InWindow) (new EventLog.emptyBoard.revision)
        dayLater = some s ∧ s.held = [] ∧ ∃ row ∈ s.outbox.log.rows, row.natsSeq = some 1 :=
    ⟨_, rfl, rfl, _, List.mem_cons_self, rfl⟩
  obtain ⟨m, hm, -⟩ := hall dayLater s (execWhile_of_run hrun) row hrow 1 hseq
  rw [hheld] at hm
  cases hm

end Server

end Kanban.Realtime
