import Kanban.Realtime.LiveTail
import Kanban.Services.BoardTail

/-!
# A board stream on its channel

The stream of one subscriber, its receiver and the pump of the board's subject.  The pump runs for
whoever has the board open on the pod; a step of another subscriber is a step of the pump, of the
consumer that feeds it, or the removal of the channel.  The subject is made from the text of the
request, as it is.

## Main definitions

* `Subscriber`, `Subscriber.step` — the stream and its channel, over a given JetStream stream.
* `Subscriber.Listening` — the stream is open and its channel is there.
* `Subscriber.Inv` — what was received, and what the stream has made of it.
* `Subscriber.Inv.step`, `Subscriber.reach_step` — its steps keep that, and lose nothing that was
  in reach.
-/

namespace Kanban.Services

open Machine History Kanban.Realtime

/-- The board stream has ended. -/
def BoardStream.isClosed (s : BoardStream) : Bool :=
  match s.loc with
  | .closed => true
  | _ => false

theorem BoardStream.isClosed_iff {s : BoardStream} : s.isClosed ↔ s.loc = .closed := by
  unfold isClosed
  split
  · simp [*]
  · rename_i hno
    exact ⟨fun h => (by cases h), fun h => (hno h).elim⟩

/-- The stream of a subscriber and its channel.  `taken` is what the stream has received. -/
structure Subscriber where
  tail : LiveTail String
  stream : BoardStream
  taken : List (BoardEventEnvelope String)

namespace Subscriber

inductive Action
  /-- A consumer is created for the channel that the subscriber is going to join. -/
  | openConsumer
  | pump
  /-- The pump task returns by itself. -/
  | pumpEnds
  /-- The channel is removed from the registry. -/
  | abort
  /-- The registry subscription returns. -/
  | join
  | recv
  /-- Any other step of the stream. -/
  | stream (a : Input)

variable (args : SubscribeBoardArgs)

/-- The subject that the stream subscribes to. -/
def subject : Subject String := .board args.boardId

/-- A stream before its first poll, on a pod that tails nothing. -/
def start : Subscriber where
  tail := .new
  stream := .start args
  taken := []

def step (log : JetStream String) (evicted : ℕ) (s : Subscriber) : Action → Option Subscriber
  | .openConsumer => s.tail.openConsumer.map fun tail => { s with tail := tail }
  | .pump => (s.tail.pump log (subject args) evicted).map fun tail => { s with tail := tail }
  | .pumpEnds => some { s with tail := s.tail.pumpEnds }
  | .abort => some { s with tail := s.tail.abort }
  | .join => do
      let tail ← s.tail.join
      let stream ← s.stream.step args .subscribed
      some { s with tail := tail, stream := stream }
  | .recv => do
      let (e, tail) ← s.tail.take
      let stream ← s.stream.step args (.recv e)
      some ⟨tail, stream, s.taken ++ [e]⟩
  | .stream a =>
      match a with
      | .subscribed | .recv _ => none
      | .channelClosed =>
          if s.tail.closed then
            (s.stream.step args .channelClosed).map fun stream => { s with stream := stream }
          else none
      | a => (s.stream.step args a).map fun stream => { s with stream := stream }

/-- What one step does, case by case. -/
inductive Step (log : JetStream String) (evicted : ℕ) (s : Subscriber) :
    Action → Subscriber → Prop
  | openConsumer {tail} : s.tail.openConsumer = some tail →
      Step log evicted s .openConsumer { s with tail := tail }
  | pump {tail} : s.tail.pump log (subject args) evicted = some tail →
      Step log evicted s .pump { s with tail := tail }
  | pumpEnds : Step log evicted s .pumpEnds { s with tail := s.tail.pumpEnds }
  | abort : Step log evicted s .abort { s with tail := s.tail.abort }
  | join {tail stream} : s.tail.join = some tail → s.stream.step args .subscribed = some stream →
      Step log evicted s .join { s with tail := tail, stream := stream }
  | recv {e tail stream} : s.tail.take = some (e, tail) →
      s.stream.step args (.recv e) = some stream →
      Step log evicted s .recv ⟨tail, stream, s.taken ++ [e]⟩
  | stream {a stream} : a ≠ .subscribed → (∀ e, a ≠ .recv e) →
      s.stream.step args a = some stream →
      Step log evicted s (.stream a) { s with stream := stream }

variable {args} {log : JetStream String} {evicted : ℕ} {s t : Subscriber} {a : Action}

theorem step_cases (hstep : s.step args log evicted a = some t) : Step args log evicted s a t := by
  cases a with
  | openConsumer => obtain ⟨_, h, rfl⟩ := Option.map_eq_some_iff.mp hstep; exact .openConsumer h
  | pump => obtain ⟨_, h, rfl⟩ := Option.map_eq_some_iff.mp hstep; exact .pump h
  | pumpEnds => obtain rfl := Option.some.inj hstep; exact .pumpEnds
  | abort => obtain rfl := Option.some.inj hstep; exact .abort
  | join =>
      obtain ⟨_, htail, hstep⟩ := Option.bind_eq_some_iff.mp hstep
      obtain ⟨_, hstream, hstep⟩ := Option.bind_eq_some_iff.mp hstep
      obtain rfl := Option.some.inj hstep
      exact .join htail hstream
  | recv =>
      obtain ⟨_, htail, hstep⟩ := Option.bind_eq_some_iff.mp hstep
      obtain ⟨_, hstream, hstep⟩ := Option.bind_eq_some_iff.mp hstep
      obtain rfl := Option.some.inj hstep
      exact .recv htail hstream
  | stream a =>
      simp only [step] at hstep
      split at hstep
      · cases hstep
      · cases hstep
      · split at hstep
        · obtain ⟨_, h, rfl⟩ := Option.map_eq_some_iff.mp hstep
          exact .stream (by simp) (by simp) h
        · cases hstep
      · rename_i hsub hrecv _
        obtain ⟨_, h, rfl⟩ := Option.map_eq_some_iff.mp hstep
        exact .stream hsub hrecv h

/-- The stream does nothing, or takes a step of its own. -/
theorem stream_step (hstep : s.step args log evicted a = some t) :
    t.stream = s.stream ∨ ∃ b, s.stream.step args b = some t.stream ∧
      (b = .subscribed ∨ (∃ e, b = .recv e) ∨ a = .stream b) := by
  cases step_cases hstep with
  | openConsumer | pump | pumpEnds | abort => exact .inl rfl
  | join _ hstream => exact .inr ⟨_, hstream, .inl rfl⟩
  | recv _ hstream => exact .inr ⟨_, hstream, .inr (.inl ⟨_, rfl⟩)⟩
  | stream _ _ hstream => exact .inr ⟨_, hstream, .inr (.inr rfl)⟩

/-- The stream is open, on a channel that the registry holds. -/
structure Listening (s : Subscriber) : Prop where
  loc : s.stream.loc ≠ .closed
  joined : s.tail.receiver.isSome
  channel : s.tail.sender = true

instance (s : Subscriber) : Decidable s.Listening :=
  decidable_of_iff (¬ s.stream.isClosed ∧ s.tail.receiver.isSome ∧ s.tail.sender = true) <| by
    rw [BoardStream.isClosed_iff]
    exact ⟨fun h => ⟨h.1, h.2.1, h.2.2⟩, fun h => ⟨h.loc, h.joined, h.channel⟩⟩

/-- A closed stream stays closed. -/
theorem open_of_step (hstep : s.step args log evicted a = some t) (hopen : t.stream.loc ≠ .closed) :
    s.stream.loc ≠ .closed := by
  rcases stream_step hstep with hst | ⟨_, hst, -⟩
  · rwa [← hst]
  · exact BoardStream.open_of_step hst

/-- What was received are messages of the subject, the stream has made of them what its tracker
makes of a tail from `base`, it has a receiver from the subscription on, and the pump runs for a
channel. -/
structure Inv (args : SubscribeBoardArgs) (base : ℕ) (log : JetStream String) (s : Subscriber) :
    Prop where
  fed : LiveTail.Fed log (subject args) s.taken s.tail
  tail : s.stream.TailInv base s.taken
  joined : s.stream.loc = .subscribe ∨ s.stream.loc = .closed ∨ s.tail.receiver.isSome
  wired : s.tail.consumer.isSome → s.tail.sender = true

theorem inv_start {base : ℕ} : (start args).Inv args base log where
  fed := LiveTail.fed_new
  tail := BoardStream.tailInv_start
  joined := .inl rfl
  wired := fun h => by cases h

variable {base : ℕ}

/-- The stream of messages grows. -/
theorem Inv.grow {log' : JetStream String} (h : s.Inv args base log)
    (hsub : log.messages ⊆ log'.messages) (hlast : log.lastSeq ≤ log'.lastSeq) :
    s.Inv args base log' := ⟨h.fed.grow hsub hlast, h.tail, h.joined, h.wired⟩

/-- **One step**, when the stream cuts over at `base`. -/
theorem Inv.step (hs : s.Inv args base log) (hcut : ∀ q, s.stream.loc = .cutover q → q = base)
    (hstep : s.step args log evicted a = some t) : t.Inv args base log := by
  cases step_cases hstep with
  | openConsumer h =>
      obtain ⟨hnone, rfl⟩ := LiveTail.openConsumer_eq h
      refine ⟨hs.fed.openConsumer h, hs.tail, ?_, fun _ => rfl⟩
      simpa [hnone] using hs.joined
  | pump h =>
      refine ⟨hs.fed.pump h, hs.tail, ?_, fun _ => ?_⟩ <;>
        obtain ⟨c, m, hc, -, rfl⟩ := LiveTail.pump_eq h
      · simpa using hs.joined
      · exact hs.wired (by rw [hc]; rfl)
  | pumpEnds => exact ⟨hs.fed.pumpEnds, hs.tail, hs.joined, fun h => by cases h⟩
  | abort => exact ⟨hs.fed.abort, hs.tail, hs.joined, fun h => by cases h⟩
  | join htail hstream =>
      refine ⟨hs.fed.join htail, hs.tail.step hstream hcut (by simp), ?_, fun _ => ?_⟩ <;>
        obtain ⟨c, -, rfl⟩ := LiveTail.join_eq htail
      · exact .inr (.inr rfl)
      · rfl
  | recv htail hstream =>
      obtain ⟨-, hsender, hcons, hrec⟩ := LiveTail.take_eq htail
      refine ⟨hs.fed.take htail, hs.tail.recv hstream (hs.fed.lt_of_take htail), ?_, fun h => ?_⟩
      · exact .inr (.inr (by rw [hrec]; rfl))
      · exact hsender.trans (hs.wired (hcons ▸ h))
  | stream hsub hrecv hstream =>
      refine ⟨hs.fed, hs.tail.step hstream hcut hrecv, ?_, hs.wired⟩
      rcases hs.joined with hloc | hloc | hjoined
      · rcases BoardStream.step_of_subscribe hstream hloc with rfl | hclosed
        · exact (hsub rfl).elim
        · exact .inr (.inl hclosed)
      · exact (BoardStream.open_of_step hstream hloc).elim
      · exact .inr (.inr hjoined)

/-- **Nothing gets out of reach** but what a pump that ends has not passed. -/
theorem reach_step (hstep : s.step args log evicted a = some t) (hjoined : s.tail.receiver.isSome)
    {m : Message String} (hend : t.tail.consumer = none → ∀ c, s.tail.consumer = some c → m.seq ≤ c)
    (hm : m ∈ log.messages) (hsub : m.subject = subject args)
    (h : LiveTail.InReach evicted s.taken s.tail m) :
    LiveTail.InReach evicted t.taken t.tail m := by
  have hstopped : t.tail.consumer = none → stamp m ∈ s.taken ++ s.tail.buffer := by
    intro hnone
    rcases h with h | ⟨c, hc, hlt, -⟩
    · exact h
    · exact (Nat.not_le_of_lt hlt (hend hnone c hc)).elim
  cases step_cases hstep with
  | openConsumer hopen => rw [(LiveTail.openConsumer_eq hopen).1] at hjoined; cases hjoined
  | pump hpump => exact h.pump hm hsub hjoined hpump
  | pumpEnds | abort => exact .inl (hstopped rfl)
  | join htail =>
      obtain ⟨c, hnone, -⟩ := LiveTail.join_eq htail
      rw [hnone] at hjoined
      cases hjoined
  | recv htail => exact h.take htail
  | stream => exact h

/-- Who has a receiver keeps it. -/
theorem joined_step (hstep : s.step args log evicted a = some t) (hjoined : s.tail.receiver.isSome) :
    t.tail.receiver.isSome := by
  cases step_cases hstep with
  | openConsumer hopen => rw [(LiveTail.openConsumer_eq hopen).1] at hjoined; cases hjoined
  | pump hpump =>
      obtain ⟨c, m, -, -, rfl⟩ := LiveTail.pump_eq hpump
      simpa using hjoined
  | pumpEnds | abort | stream => exact hjoined
  | join htail => obtain ⟨c, -, rfl⟩ := LiveTail.join_eq htail; rfl
  | recv htail => rw [(LiveTail.take_eq htail).2.2.2]; rfl

/-- A receiver is created when the subscription returns. -/
theorem join_of_joined (hstep : s.step args log evicted a = some t)
    (hnone : s.tail.receiver = none) (hjoined : t.tail.receiver.isSome) :
    a = .join ∧ t.taken = s.taken ∧
      ∃ c, s.tail = ⟨true, c, none⟩ ∧ t.tail = ⟨true, c, some []⟩ := by
  cases step_cases hstep with
  | openConsumer hopen => obtain ⟨-, rfl⟩ := LiveTail.openConsumer_eq hopen; cases hjoined
  | pump hpump =>
      obtain ⟨c, m, -, -, rfl⟩ := LiveTail.pump_eq hpump
      simp [hnone] at hjoined
  | pumpEnds | abort | stream => simp [LiveTail.pumpEnds, LiveTail.abort, hnone] at hjoined
  | join htail => exact ⟨rfl, rfl, LiveTail.join_eq htail⟩
  | recv htail => simp [LiveTail.take, hnone] at htail

/-- A pump that runs after a step ran before it, once there is a receiver. -/
theorem consumer_of_step (hstep : s.step args log evicted a = some t)
    (hjoined : s.tail.receiver.isSome) (hrun : t.tail.consumer.isSome) :
    s.tail.consumer.isSome := by
  cases step_cases hstep with
  | openConsumer hopen => rw [(LiveTail.openConsumer_eq hopen).1] at hjoined; cases hjoined
  | pump hpump =>
      obtain ⟨c, m, hc, -, -⟩ := LiveTail.pump_eq hpump
      rw [hc]
      rfl
  | pumpEnds | abort => cases hrun
  | join htail => obtain ⟨c, hc, ht⟩ := LiveTail.join_eq htail; rw [ht] at hrun; rwa [hc]
  | recv htail => rwa [← (LiveTail.take_eq htail).2.2.1]
  | stream => exact hrun

/-- The channel of a stream does not come back, and its pump ends with it or by itself. -/
theorem sender_of_step (hstep : s.step args log evicted a = some t)
    (hjoined : s.tail.receiver.isSome) (hsender : t.tail.sender = true) :
    s.tail.sender = true ∧ (a ≠ .pumpEnds → t.tail.consumer = none → s.tail.consumer = none) := by
  cases step_cases hstep with
  | openConsumer hopen => rw [(LiveTail.openConsumer_eq hopen).1] at hjoined; cases hjoined
  | pump hpump =>
      obtain ⟨c, m, -, -, rfl⟩ := LiveTail.pump_eq hpump
      exact ⟨hsender, fun _ hnone => by cases hnone⟩
  | pumpEnds => exact ⟨hsender, fun ha => (ha rfl).elim⟩
  | abort => cases hsender
  | join htail => obtain ⟨c, hc, -⟩ := LiveTail.join_eq htail; rw [hc] at hjoined; cases hjoined
  | recv htail =>
      obtain ⟨-, hs, hc, -⟩ := LiveTail.take_eq htail
      exact ⟨hs ▸ hsender, fun _ hnone => hc ▸ hnone⟩
  | stream => exact ⟨hsender, fun _ hnone => hnone⟩

/-- Without a pump nothing more arrives. -/
theorem received_of_stopped (hstep : s.step args log evicted a = some t)
    (hjoined : s.tail.receiver.isSome) (hstop : ¬ t.tail.consumer.isSome) :
    t.taken ++ t.tail.buffer = s.taken ++ s.tail.buffer := by
  cases step_cases hstep with
  | openConsumer hopen => rw [(LiveTail.openConsumer_eq hopen).1] at hjoined; cases hjoined
  | pump hpump =>
      obtain ⟨c, m, -, -, rfl⟩ := LiveTail.pump_eq hpump
      simp at hstop
  | pumpEnds | abort | stream => rfl
  | join htail => obtain ⟨c, hc, -⟩ := LiveTail.join_eq htail; rw [hc] at hjoined; cases hjoined
  | recv htail => simp [(LiveTail.take_eq htail).1]

/-- What the stream has emitted changes only with what it has received. -/
theorem emitted_step (hstep : s.step args log evicted a = some t) (ha : a ≠ .recv) :
    t.stream.emitted = s.stream.emitted ∧ t.taken = s.taken := by
  cases step_cases hstep with
  | openConsumer | pump | pumpEnds | abort => exact ⟨rfl, rfl⟩
  | join _ hstream => exact ⟨BoardStream.emitted_step hstream (by simp), rfl⟩
  | recv => exact (ha rfl).elim
  | stream _ hrecv hstream => exact ⟨BoardStream.emitted_step hstream hrecv, rfl⟩

end Subscriber

end Kanban.Services
