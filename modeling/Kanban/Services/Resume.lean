import Kanban.Services.Subscriber
import Kanban.Services.Subscriptions

/-!
# Resuming a board stream

A `SubscribeBoard` with a resume token takes no snapshot: `build_subscribe_board_stream` cuts
over at the token and leaves what came after it to the registry.  Only a push consumer that has
just been created replays what the stream retains; on a pod that already tails the board the
subscriber joins the broadcast, wherever its pump stands, and also when the pump is gone.  The events
of a board go to the canonical text of its id, the stream listens on the text of the request.

The machine runs the publishes, the retention of the stream, the pump of the board's subject (for
this subscriber and for those before it) and the stream of one subscriber.

## Main definitions

* `Resume`, `Resume.step` — a resumed stream and its surroundings.
* `Resume.Resumed` — no gap, no repetition, nothing at or below the token.
* `Resume.Reaches` — the condition on the steps under which the stream keeps to that.
* `Resume.resumed_of_reaches` — it does, and a step that misses the condition loses an event.
-/

namespace Kanban.Services

open Machine History Kanban.Realtime

/-- A resumed stream with the messages of the JetStream stream, those up to `evicted` being gone
from retention. -/
structure Resume extends Subscriber where
  log : JetStream String
  evicted : ℕ

namespace Resume

inductive Action
  /-- The server receives a publish, of this board or another object. -/
  | publish (inWindow : Bool) (subject : Subject String) (envelope : BoardEventEnvelope String)
  /-- The messages up to `upTo` leave the retention. -/
  | evict (upTo : ℕ)
  | subscriber (a : Subscriber.Action)

variable (args : SubscribeBoardArgs)

def start : Resume where
  toSubscriber := .start args
  log := .empty
  evicted := 0

def step (s : Resume) : Action → Option Resume
  | .publish inWindow subject envelope =>
      some { s with log := (s.log.store inWindow subject envelope.eventId envelope).2 }
  | .evict upTo =>
      if upTo ≤ s.log.lastSeq then some { s with evicted := max s.evicted upTo } else none
  | .subscriber a => (s.toSubscriber.step args s.log s.evicted a).map fun sub =>
      { s with toSubscriber := sub }

/-- What one step does, case by case. -/
inductive Step (s : Resume) : Action → Resume → Prop
  | publish {inWindow subject envelope} : Step s (.publish inWindow subject envelope)
      { s with log := (s.log.store inWindow subject envelope.eventId envelope).2 }
  | evict {upTo} : upTo ≤ s.log.lastSeq →
      Step s (.evict upTo) { s with evicted := max s.evicted upTo }
  | subscriber {a sub} : s.toSubscriber.step args s.log s.evicted a = some sub →
      Step s (.subscriber a) { s with toSubscriber := sub }

theorem step_cases {args : SubscribeBoardArgs} {s t : Resume} {a : Action}
    (hstep : s.step args a = some t) : Step args s a t := by
  cases a with
  | publish => obtain rfl := Option.some.inj hstep; exact .publish
  | evict upTo =>
      simp only [step] at hstep
      split at hstep
      · obtain rfl := Option.some.inj hstep; exact .evict ‹_›
      · cases hstep
  | subscriber a => obtain ⟨_, h, rfl⟩ := Option.map_eq_some_iff.mp hstep; exact .subscriber h

/-! ## What a resume promises -/

/-- The stream has emitted the event. -/
def Emitted (s : Resume) (eventId : String) : Prop :=
  ∃ e ∈ s.stream.emitted, e.eventId = eventId

variable (board : String)

/-- The message belongs to the board and lies above the token. -/
def Due (s : Resume) (m : Message String) : Prop :=
  m ∈ s.log.messages ∧ m.subject = .board board ∧ args.sinceSeq < m.seq

/-- **A resume without a gap.**  A stream that ends before its first live event, or with an
error later, meets this with what it has emitted; an open one has no event of the board behind
it that it has not emitted. -/
structure Resumed (s : Resume) : Prop where
  /-- In the order of the sequences, each one at most once and above the token. -/
  rising : Rising BoardEventEnvelope.natsSeq args.sinceSeq s.stream.emitted
  /-- No event twice. -/
  once : (s.stream.emitted.map BoardEventEnvelope.eventId).Nodup
  /-- Only events of the board. -/
  sound : ∀ e ∈ s.stream.emitted, ∃ m ∈ s.log.messages, m.subject = .board board ∧ stamp m = e
  /-- No event of the board is missing before an emitted one. -/
  gapless : ∀ e ∈ s.stream.emitted, ∀ m, s.Due args board m → m.seq ≤ e.natsSeq →
    s.Emitted m.envelope.eventId
  /-- While the stream is open and its channel is there, every event has been emitted, or waits in
  the receiver, or a running pump of its subject stands before it and it is retained. -/
  onTheWay : s.Listening → ∀ m, s.Due args board m →
    s.Emitted m.envelope.eventId ∨ stamp m ∈ s.tail.buffer ∨
      m.subject = Subscriber.subject args ∧
        ∃ c, s.tail.consumer = some c ∧ c < m.seq ∧ s.evicted < m.seq

/-- **The condition on a step.**  The subscription returns with a running pump before every event of
the board above the token (or there is none yet), and all of these are retained.  While the stream
listens, retention does not overtake the pump, the pump does not end before an event above the token,
and no such event is stored once it has ended.  And the tracker remembers an event that it has emitted
when a second message of it arrives. -/
def Reaches (s : Resume) : Action → Prop
  | .publish inWindow subject envelope => s.Listening → s.tail.consumer = none →
      subject = .board board → args.sinceSeq ≤ s.log.lastSeq →
        inWindow = true ∧ s.log.Stored envelope.eventId
  | .evict upTo => s.Listening → ∀ c, s.tail.consumer = some c → ∀ m, s.Due args board m →
      c < m.seq → upTo < m.seq
  | .subscriber .pumpEnds => s.Listening → ∀ c, s.tail.consumer = some c →
      ∀ m, s.Due args board m → m.seq ≤ c
  | .subscriber .join => ∀ m, s.Due args board m →
      ∃ c, s.tail.consumer = some c ∧ c < m.seq ∧ s.evicted < m.seq
  | .subscriber .recv => ∀ e tail, s.tail.take = some (e, tail) → args.sinceSeq < e.natsSeq →
      s.Emitted e.eventId → e.eventId ∈ s.stream.tracker.seenIds.queue
  | _ => True

/-! ## Along every run -/

/-- What holds along every run. -/
structure Inv (s : Resume) : Prop where
  sub : s.toSubscriber.Inv args args.sinceSeq s.log
  ids : ∀ m ∈ s.log.messages, m.msgId = m.envelope.eventId
  retained : s.evicted ≤ s.log.lastSeq
  resuming : s.stream.Resuming args

theorem inv_start : (start args).Inv args where
  sub := Subscriber.inv_start
  ids := fun _ hm => by cases hm
  retained := le_rfl
  resuming := BoardStream.resuming_start args

variable {args} {s t : Resume} {a : Action}

/-- **One step** keeps the invariant. -/
theorem Inv.step (hs : s.Inv args) (hsince : args.sinceSeq ≠ 0) (hstep : s.step args a = some t) :
    t.Inv args := by
  cases step_cases hstep with
  | publish =>
      refine ⟨hs.sub.grow JetStream.subset_store JetStream.lastSeq_le_store, fun m hm => ?_,
        hs.retained.trans JetStream.lastSeq_le_store, hs.resuming⟩
      rcases JetStream.mem_store hm with hm | rfl
      · exact hs.ids m hm
      · rfl
  | evict hle => exact ⟨hs.sub, hs.ids, max_le hs.retained hle, hs.resuming⟩
  | subscriber h =>
      refine ⟨hs.sub.step (fun _ => hs.resuming.cutover) h, hs.ids, hs.retained, ?_⟩
      rcases Subscriber.stream_step h with hst | ⟨_, hst, -⟩
      · rw [hst]
        exact hs.resuming
      · exact hs.resuming.step hsince hst

/-- What was received above the token has been emitted. -/
theorem Inv.emitted_of_taken (hs : s.Inv args) {m : Message String} (hm : stamp m ∈ s.taken)
    (hsince : args.sinceSeq < m.seq) : s.Emitted m.envelope.eventId := by
  rcases hs.sub.tail.covers hm hsince with hold | hemitted
  · rw [hs.resuming.replayedIds] at hold
    cases hold
  · exact hemitted

/-! ## Along the runs that meet the condition -/

/-- Nothing is missing so far, and while the stream is open nothing will be. -/
structure Whole (args : SubscribeBoardArgs) (s : Resume) : Prop where
  once : (s.stream.emitted.map BoardEventEnvelope.eventId).Nodup
  past : LiveTail.Contiguous s.log (Subscriber.subject args) args.sinceSeq s.taken
  ahead : s.stream.loc ≠ .closed → s.tail.receiver.isSome →
    LiveTail.Contiguous s.log (Subscriber.subject args) args.sinceSeq (s.taken ++ s.tail.buffer) ∧
    (s.tail.sender = true → ∀ m, s.Due args args.boardId m →
      LiveTail.InReach s.evicted s.taken s.tail m)

/-- Nothing is missing if everything is in reach. -/
theorem Inv.ahead (hs : s.Inv args)
    (hreach : ∀ m, s.Due args args.boardId m → LiveTail.InReach s.evicted s.taken s.tail m) :
    LiveTail.Contiguous s.log (Subscriber.subject args) args.sinceSeq (s.taken ++ s.tail.buffer) := by
  have hdue : ∀ m ∈ s.log.messages, m.subject = Subscriber.subject args → args.sinceSeq < m.seq →
      LiveTail.InReach s.evicted s.taken s.tail m :=
    fun m hm hsub hsince => hreach m ⟨hm, hsub, hsince⟩
  cases hc : s.tail.consumer with
  | some c => exact hs.sub.fed.contiguous hc hdue
  | none =>
      intro e _ m hm hsub hsince _
      rcases hdue m hm hsub hsince with hrec | ⟨c, hrun, -⟩
      · exact hrec
      · rw [hc] at hrun
        cases hrun

/-- A step of the subscriber that meets the condition leaves the events above the token ahead. -/
theorem Whole.ahead_of_step (hw : s.Whole args) {a : Subscriber.Action} {sub : Subscriber}
    (hc : s.Reaches args args.boardId (.subscriber a))
    (hstep : s.toSubscriber.step args s.log s.evicted a = some sub)
    (ht : Inv args { s with toSubscriber := sub }) (hopen : sub.stream.loc ≠ .closed)
    (hjoined' : sub.tail.receiver.isSome) :
    LiveTail.Contiguous s.log (Subscriber.subject args) args.sinceSeq (sub.taken ++ sub.tail.buffer) ∧
      (sub.tail.sender = true → ∀ m, s.Due args args.boardId m →
        LiveTail.InReach s.evicted sub.taken sub.tail m) := by
  cases hrec : s.tail.receiver with
  | some waiting =>
      have hjoined : s.tail.receiver.isSome := by rw [hrec]; rfl
      have hopen' := Subscriber.open_of_step hstep hopen
      obtain ⟨hwhole, hreach⟩ := hw.ahead hopen' hjoined
      have hreach' : sub.tail.sender = true → ∀ m, s.Due args args.boardId m →
          LiveTail.InReach s.evicted sub.taken sub.tail m := by
        intro hsender m hm
        obtain ⟨hsender', hkeeps⟩ := Subscriber.sender_of_step hstep hjoined hsender
        refine Subscriber.reach_step hstep hjoined (fun hnone c hrun => ?_) hm.1 hm.2.1
          (hreach hsender' m hm)
        by_cases ha : a = .pumpEnds
        · subst ha
          exact hc ⟨hopen', hjoined, hsender'⟩ c hrun m hm
        · rw [hkeeps ha hnone] at hrun
          cases hrun
      refine ⟨?_, hreach'⟩
      by_cases hrun : sub.tail.consumer.isSome
      · have hreach'' : ∀ m, s.Due args args.boardId m →
            LiveTail.InReach s.evicted sub.taken sub.tail m := hreach' (ht.sub.wired hrun)
        exact ht.ahead hreach''
      · rw [Subscriber.received_of_stopped hstep hjoined hrun]
        exact hwhole
  | none =>
      -- the pump of the channel that is joined stands before every event above the token
      obtain ⟨rfl, -, c, htail, htail'⟩ := Subscriber.join_of_joined hstep hrec hjoined'
      have hreach' : ∀ m, s.Due args args.boardId m →
          LiveTail.InReach s.evicted sub.taken sub.tail m := by
        intro m hm
        obtain ⟨n, hn, hlt⟩ := hc m hm
        exact .inr ⟨n, by rw [htail', ← hn, htail], hlt⟩
      exact ⟨ht.ahead hreach', fun _ => hreach'⟩

/-- **A step of the subscriber** that meets the condition leaves nothing behind. -/
theorem Whole.subscriber (hw : s.Whole args) (hs : s.Inv args) {a : Subscriber.Action}
    {sub : Subscriber} (hc : s.Reaches args args.boardId (.subscriber a))
    (hstep : s.toSubscriber.step args s.log s.evicted a = some sub)
    (ht : Inv args { s with toSubscriber := sub }) :
    Whole args { s with toSubscriber := sub } := by
  have hahead := hw.ahead_of_step hc hstep ht
  by_cases ha : a = .recv
  · subst ha
    cases Subscriber.step_cases hstep with
    | @recv e tail stream htail hstream =>
        refine ⟨?_, (hahead ?_ ?_).1.of_buffer ht.sub.fed, hahead⟩
        · rcases hs.sub.tail.emit_iff hstream (hs.sub.fed.lt_of_take htail) with
            ⟨hemit, hlt, hid⟩ | ⟨hemit, -⟩
          · rw [hemit, List.map_append]
            refine List.nodup_append.mpr ⟨hw.once, List.nodup_singleton _, ?_⟩
            intro id hmem id' hmem' heq
            obtain ⟨e', he', rfl⟩ := List.mem_map.mp hmem
            obtain rfl : id' = e.eventId := by simpa using hmem'
            exact hid (hc e tail htail hlt ⟨e', he', heq⟩)
          · rw [hemit]
            exact hw.once
        · cases BoardStream.step_cases hstream
          simp
        · rw [(LiveTail.take_eq htail).2.2.2]
          rfl
  · obtain ⟨hemitted, htaken⟩ := Subscriber.emitted_step hstep ha
    refine ⟨?_, ?_, hahead⟩
    · rw [hemitted]
      exact hw.once
    · rw [htaken]
      exact hw.past

/-- **A publish** that meets the condition comes behind the pump's back only if it stores nothing. -/
theorem Whole.publish (hw : s.Whole args) (hs : s.Inv args) {inWindow : Bool}
    {subject : Subject String} {envelope : BoardEventEnvelope String}
    (hc : s.Reaches args args.boardId (.publish inWindow subject envelope)) :
    Whole args { s with log := (s.log.store inWindow subject envelope.eventId envelope).2 } := by
  have hold := fun e he => hs.sub.fed.mem_received (e := e) he
  have hnew : ∀ m ∈ (s.log.store inWindow subject envelope.eventId envelope).2.messages,
      m ∈ s.log.messages ∨ s.log.lastSeq < m.seq := by
    intro m hm
    rcases JetStream.mem_store hm with hm | rfl
    · exact .inl hm
    · exact .inr (Nat.lt_succ_self _)
  refine ⟨hw.once, hw.past.grow (fun e he => hold e (List.mem_append_left _ he)) hnew,
    fun hopen hjoined => ?_⟩
  obtain ⟨hwhole, hreach⟩ := hw.ahead hopen hjoined
  refine ⟨hwhole.grow hold hnew, fun hsender m ⟨hm, hsub, hlt⟩ => ?_⟩
  rcases JetStream.store_cases s.log inWindow subject envelope.eventId envelope with
    ⟨_, -, -, hst⟩ | ⟨hst, hfresh⟩
  · rw [hst] at hm
    exact hreach hsender m ⟨hm, hsub, hlt⟩
  rw [hst] at hm
  rcases JetStream.mem_append.mp hm with hm | rfl
  · exact hreach hsender m ⟨hm, hsub, hlt⟩
  · cases hcons : s.tail.consumer with
    | some c =>
        exact .inr ⟨c, hcons, Nat.lt_succ_of_le (hs.sub.fed.cursor_le hcons),
          Nat.lt_succ_of_le hs.retained⟩
    | none =>
        obtain ⟨hwindow, hstored⟩ := hc ⟨hopen, hjoined, hsender⟩ hcons hsub (Nat.le_of_lt_succ hlt)
        exact (hfresh hwindow hstored).elim

/-- **One step** that meets the condition leaves nothing behind. -/
theorem Whole.step (hw : s.Whole args) (hs : s.Inv args) (hsince : args.sinceSeq ≠ 0)
    (hc : s.Reaches args args.boardId a) (hstep : s.step args a = some t) : t.Whole args := by
  have ht := hs.step hsince hstep
  cases step_cases hstep with
  | publish => exact hw.publish hs hc
  | @evict upTo hle =>
      refine ⟨hw.once, hw.past, fun hopen hjoined => ?_⟩
      obtain ⟨hwhole, hreach⟩ := hw.ahead hopen hjoined
      refine ⟨hwhole, fun hsender m hm => ?_⟩
      rcases hreach hsender m hm with hrec | ⟨c, hcons, hlt, hev⟩
      · exact .inl hrec
      · exact .inr ⟨c, hcons, hlt, max_lt hev (hc ⟨hopen, hjoined, hsender⟩ c hcons m hm hlt)⟩
  | subscriber h => exact hw.subscriber hs hc h ht

theorem whole_start (args : SubscribeBoardArgs) : (start args).Whole args where
  once := List.nodup_nil
  past := fun _ he => by cases he
  ahead := fun _ hjoined => by cases hjoined

/-- A stream that leaves nothing behind keeps what a resume promises. -/
theorem Whole.resumed (hw : s.Whole args) (hs : s.Inv args) : s.Resumed args args.boardId where
  rising := hs.sub.tail.rising
  once := hw.once
  sound := fun e he => hs.sub.fed.mem_taken (hs.sub.tail.sub e he)
  gapless := fun e he m hm hle =>
    hs.emitted_of_taken (hw.past e (hs.sub.tail.sub e he) m hm.1 hm.2.1 hm.2.2 hle) hm.2.2
  onTheWay := by
    intro hlistens m hm
    rcases (hw.ahead hlistens.loc hlistens.joined).2 hlistens.channel m hm with hrec | hahead
    · rcases List.mem_append.mp hrec with htaken | hbuf
      · exact .inl (hs.emitted_of_taken htaken hm.2.2)
      · exact .inr (.inl hbuf)
    · exact .inr (.inr ⟨hm.2.1, hahead⟩)

/-! ## What a missed condition costs -/

variable {board : String}

/-- An event that the pump of an open stream is not going to deliver, and that the stream has not
received, is a gap. -/
theorem Inv.not_resumed (hs : s.Inv args) (hids : (s.log.messages.map Message.msgId).Nodup)
    (hlistens : s.Listening) {m : Message String} (hm : s.Due args board m)
    (hrec : stamp m ∉ s.taken ++ s.tail.buffer)
    (hlost : m.subject = Subscriber.subject args → ∀ c, s.tail.consumer = some c →
      ¬ (c < m.seq ∧ s.evicted < m.seq)) :
    ¬ s.Resumed args board := by
  intro hres
  rcases hres.onTheWay hlistens m hm with ⟨e, he, hid⟩ | hbuf | ⟨hsub, c, hc, hahead⟩
  · have htaken := hs.sub.tail.sub e he
    obtain ⟨n, hn, -, rfl⟩ := hs.sub.fed.mem_taken htaken
    -- ids are stored once, so the emitted event is that of `m`
    have hmsg : n.msgId = m.msgId := by rw [hs.ids n hn, hs.ids m hm.1]; exact hid
    rw [List.inj_on_of_nodup_map hids hn hm.1 hmsg] at htaken
    exact hrec (List.mem_append_left _ htaken)
  · exact hrec (List.mem_append_right _ hbuf)
  · exact hlost hsub c hc hahead

/-- **A step that misses the condition** leaves a gap, or emits an event twice. -/
theorem Inv.not_resumed_step (hs : s.Inv args) (hsince : args.sinceSeq ≠ 0)
    (hids : (t.log.messages.map Message.msgId).Nodup) (hstep : s.step args a = some t)
    (hmiss : ¬ s.Reaches args args.boardId a) : ¬ t.Resumed args args.boardId := by
  have ht := hs.step hsince hstep
  cases step_cases hstep with
  | @publish inWindow subject envelope =>
      simp only [Reaches, not_forall] at hmiss
      obtain ⟨hlistens, hnone, rfl, hle, hnew⟩ := hmiss
      have hst : s.log.store inWindow (.board args.boardId) envelope.eventId envelope =
          (s.log.lastSeq + 1, s.log.append (.board args.boardId) envelope.eventId envelope) :=
        JetStream.store_of_new hnew
      have hmem : (⟨s.log.lastSeq + 1, .board args.boardId, envelope.eventId, envelope⟩ :
          Message String) ∈ (s.log.store inWindow (.board args.boardId) envelope.eventId
            envelope).2.messages := by
        rw [hst]
        exact JetStream.mem_append.mpr (.inr rfl)
      refine ht.not_resumed hids hlistens ⟨hmem, rfl, Nat.lt_succ_of_le hle⟩ (fun hrec => ?_)
        fun _ c hc => ?_
      · obtain ⟨n, hn, -, hstamp⟩ := hs.sub.fed.mem_received hrec
        have hseq : n.seq = s.log.lastSeq + 1 := congrArg BoardEventEnvelope.natsSeq hstamp
        exact absurd (s.log.bound n hn) (by omega)
      · rw [hnone] at hc
        cases hc
  | @evict upTo hle =>
      simp only [Reaches, not_forall] at hmiss
      obtain ⟨hlistens, c, hc, m, hm, hlt, hlost⟩ := hmiss
      refine ht.not_resumed hids hlistens hm (hs.sub.fed.not_received hc hlt) fun _ n hn h => ?_
      exact hlost ((le_max_right _ _).trans_lt h.2)
  | subscriber h =>
      cases Subscriber.step_cases h with
      | openConsumer | pump | abort | stream => exact (hmiss trivial).elim
      | pumpEnds =>
          simp only [Reaches, not_forall] at hmiss
          obtain ⟨hlistens, c, hc, m, hm, hlt⟩ := hmiss
          exact ht.not_resumed hids ⟨hlistens.loc, hlistens.joined, hlistens.channel⟩ hm
            (hs.sub.fed.not_received hc (not_le.mp hlt)) fun _ n hn => by cases hn
      | @join tail stream htail hstream =>
          simp only [Reaches, not_forall] at hmiss
          obtain ⟨m, hm, hlost⟩ := hmiss
          obtain ⟨c, htail', rfl⟩ := LiveTail.join_eq htail
          have hopen : stream.loc ≠ .closed := by
            cases BoardStream.step_cases hstream <;> simp
          refine ht.not_resumed hids ⟨hopen, rfl, rfl⟩ hm ?_ fun _ n hn hahead => ?_
          · simp [hs.sub.fed.taken_eq_nil (by rw [htail']), LiveTail.buffer]
          · exact hlost ⟨n, by rw [htail']; exact hn, hahead⟩
      | @recv e tail stream htail hstream =>
          simp only [Reaches, not_forall] at hmiss
          obtain ⟨e', tail', htail', hlt, hemitted, hid⟩ := hmiss
          obtain ⟨rfl, rfl⟩ := Prod.ext_iff.mp (Option.some.inj (htail.symm.trans htail'))
          intro hres
          rcases hs.sub.tail.emit_iff hstream (hs.sub.fed.lt_of_take htail) with
            ⟨hemit, -⟩ | ⟨-, hno⟩
          · have honce := hres.once
            obtain ⟨e', he', hsame⟩ := hemitted
            simp only [hemit, List.map_append] at honce
            exact (List.nodup_append.mp honce).2.2 _ (List.mem_map_of_mem he') _
              (List.mem_singleton.mpr rfl) hsame
          · exact hid (hno hlt)

/-- Under another text than the canonical one the events of the board pass by. -/
theorem Inv.not_resumed_misspelled (hs : s.Inv args) (hspelled : args.boardId ≠ board)
    (hids : (s.log.messages.map Message.msgId).Nodup) (hlistens : s.Listening) {m : Message String}
    (hm : s.Due args board m) : ¬ s.Resumed args board := by
  have hother : m.subject ≠ Subscriber.subject args := by
    rw [hm.2.1]
    exact fun h => hspelled (Subject.board.inj h).symm
  refine hs.not_resumed hids hlistens hm (fun hrec => ?_) fun hsub => (hother hsub).elim
  obtain ⟨n, hn, hsub, hstamp⟩ := hs.sub.fed.mem_received hrec
  have henv : n.envelope.eventId = m.envelope.eventId := by
    rw [← stamp_eventId n, ← stamp_eventId m, hstamp]
  have hmsg : n.msgId = m.msgId := by rw [hs.ids n hn, hs.ids m hm.1, henv]
  rw [List.inj_on_of_nodup_map hids hn hm.1 hmsg] at hsub
  exact hother hsub

/-- **Resume without a silent gap.**  If the request names the board by its canonical text, then in
every run of the publishes, the retention, the pump of the board and the stream whose steps all meet
the condition, the stream emits what comes after its token: in order, without a gap and without a
repetition.  When every event is stored once, a step that misses the condition breaks that at once,
and under another text every event after the token does. -/
theorem resumed_of_reaches {ι : Type*} {codec : IdCodec ι} {b : ι} (hsince : 0 < args.sinceSeq) :
    (args.boardId = codec.toString b →
      (∀ tr s, ExecWhile (step args) (Reaches args (codec.toString b)) (start args) tr s →
        s.Resumed args (codec.toString b)) ∧
      ∀ tr s a t, Exec (step args) (start args) tr s → s.step args a = some t →
        (t.log.messages.map Message.msgId).Nodup → ¬ s.Reaches args (codec.toString b) a →
        ¬ t.Resumed args (codec.toString b)) ∧
    (args.boardId ≠ codec.toString b →
      ∀ tr s, Exec (step args) (start args) tr s → (s.log.messages.map Message.msgId).Nodup →
        s.Listening → ∀ m, s.Due args (codec.toString b) m →
        ¬ s.Resumed args (codec.toString b)) := by
  have hne : args.sinceSeq ≠ 0 := hsince.ne'
  have hinv : ∀ tr s, Exec (step args) (start args) tr s → s.Inv args := fun tr s h =>
    h.invariant (Inv args) (inv_start args) fun _ _ _ ht hst => ht.step hne hst
  refine ⟨fun hspelled => ?_, fun hspelled tr s h hids hlistens m hm =>
    (hinv tr s h).not_resumed_misspelled hspelled hids hlistens hm⟩
  rw [← hspelled]
  refine ⟨fun tr s h => ?_, fun tr s a t h hstep hids hmiss =>
    (hinv tr s h).not_resumed_step hne hids hstep hmiss⟩
  have hs : s.Inv args ∧ s.Whole args :=
    h.invariant (fun s => s.Inv args ∧ s.Whole args) ⟨inv_start args, whole_start args⟩
      fun _ _ _ ht hc hst => ⟨ht.1.step hne hst, ht.2.step ht.1 hne hc hst⟩
  exact hs.2.resumed hs.1

/-- The arguments of a resume at sequence 1 of an internal board. -/
def resumeArgs : SubscribeBoardArgs := ⟨⟨some "t", some "u"⟩, "b", false, 30, "t", 1, 1024⟩

/-- An event of the board. -/
def event (eventId : String) : BoardEventEnvelope String :=
  ⟨some "b", eventId, 0, 0, "system", "CardCreated", .object []⟩

/-- Three events; the subscriber's own consumer replays them. -/
def firstSubscriber : List Action :=
  [.publish true (.board "b") (event "e1"), .publish true (.board "b") (event "e2"),
    .subscriber .openConsumer, .subscriber .join, .subscriber (.stream .cutover),
    .subscriber (.stream (.enter 0)), .subscriber .pump, .subscriber .pump,
    .publish true (.board "b") (event "e3"), .subscriber .pump,
    .subscriber (.stream (.pass 0)), .subscriber .recv, .subscriber (.stream (.pass 0)),
    .subscriber .recv, .subscriber (.stream (.pass 0)), .subscriber .recv]

theorem resumed_of_reaches_firstSubscriber :
    ∃ s, Exec (step resumeArgs) (start resumeArgs) firstSubscriber s ∧ s.Resumed resumeArgs "b" ∧
      s.stream.emitted.map BoardEventEnvelope.natsSeq = [2, 3] := by
  -- nothing was emitted under the id of the envelope that is received
  have hfresh : ∀ {s : Resume} {e : BoardEventEnvelope String} {tail : LiveTail String},
      s.tail.take = some (e, tail) → (∀ e' ∈ s.stream.emitted, e'.eventId ≠ e.eventId) →
      s.Reaches resumeArgs "b" (.subscriber .recv) := by
    intro s e tail htake hno e' tail' htake' _ ⟨x, hx, hid⟩
    obtain ⟨rfl, rfl⟩ := Prod.ext_iff.mp (Option.some.inj (htake.symm.trans htake'))
    exact (hno x hx hid).elim
  -- no event is published before the subscription, or behind a pump that has ended
  have hserved : ∀ {s : Resume} {e : BoardEventEnvelope String} {w : Bool},
      s.tail.receiver = none ∨ s.tail.consumer.isSome →
      s.Reaches resumeArgs "b" (.publish w (.board "b") e) := by
    intro s e w h hlistens hnone
    rcases h with h | h
    · have := hlistens.joined
      rw [h] at this
      cases this
    · rw [hnone] at h
      cases h
  obtain ⟨s, hrun, hemitted⟩ : ∃ s,
      ExecWhile (step resumeArgs) (Reaches resumeArgs "b") (start resumeArgs) firstSubscriber s ∧
      s.stream.emitted.map BoardEventEnvelope.natsSeq = [2, 3] := by
    refine ⟨_, .cons (hserved (.inl rfl)) rfl <| .cons (hserved (.inl rfl)) rfl <|
      .cons trivial rfl <| .cons ?_ rfl <| .cons trivial rfl <| .cons trivial rfl <|
      .cons trivial rfl <| .cons trivial rfl <| .cons (hserved (.inr rfl)) rfl <|
      .cons trivial rfl <| .cons trivial rfl <| .cons ?_ rfl <|
      .cons trivial rfl <| .cons ?_ rfl <| .cons trivial rfl <| .cons ?_ rfl .nil, rfl⟩
    · intro m hm
      exact ⟨0, rfl, Nat.zero_lt_of_lt hm.2.2, Nat.zero_lt_of_lt hm.2.2⟩
    · exact hfresh rfl fun e' he' => by cases he'
    · exact hfresh rfl fun e' he' => by cases he'
    · refine hfresh rfl fun e' he' => ?_
      obtain rfl := List.mem_singleton.mp he'
      simp [event]
  have hresumed := (@resumed_of_reaches resumeArgs String BoardStream.plainIds "b" (by decide)).1 rfl
  exact ⟨s, hrun.exec, hresumed.1 _ s hrun, hemitted⟩

/-- Another subscriber's pump has sent the events; then the stream joins its channel. -/
def lateSubscriber : List Action :=
  [.publish true (.board "b") (event "e1"), .publish true (.board "b") (event "e2"),
    .subscriber .openConsumer, .subscriber .pump, .subscriber .pump, .subscriber .join,
    .subscriber (.stream .cutover), .subscriber (.stream (.enter 0)),
    .publish true (.board "b") (event "e3"), .subscriber .pump,
    .subscriber (.stream (.pass 0)), .subscriber .recv]

/-- **The claim as stated fails**: a client that has seen sequence 1 resumes on a pod that already
tails its board; event 2 is published and never reaches it, event 3 does. -/
theorem not_resumed_lateSubscriber :
    ¬ ∀ (codec : IdCodec String) (b : String) (args : SubscribeBoardArgs) (tr : List Action)
      (s : Resume), codec.parse args.boardId = some b → 0 < args.sinceSeq →
      Exec (step args) (start args) tr s → s.Resumed args (codec.toString b) := by
  intro hall
  obtain ⟨s, hrun, hemitted, hlog⟩ : ∃ s, run (step resumeArgs) (start resumeArgs) lateSubscriber
        = some s ∧ s.stream.emitted = [stamp ⟨3, .board "b", "e3", event "e3"⟩] ∧
      s.log.messages = [⟨1, .board "b", "e1", event "e1"⟩, ⟨2, .board "b", "e2", event "e2"⟩,
        ⟨3, .board "b", "e3", event "e3"⟩] := ⟨_, rfl, rfl, rfl⟩
  have h := hall BoardStream.plainIds "b" resumeArgs lateSubscriber s rfl (by decide)
    (exec_of_run hrun)
  have hdue : s.Due resumeArgs "b" ⟨2, .board "b", "e2", event "e2"⟩ :=
    ⟨by simp [hlog], rfl, by decide⟩
  obtain ⟨e, he, hid⟩ := h.gapless _ (by rw [hemitted]; exact List.mem_singleton.mpr rfl) _ hdue
    (by decide)
  rw [hemitted] at he
  obtain rfl := List.mem_singleton.mp he
  simp [event] at hid

end Resume

end Kanban.Services
