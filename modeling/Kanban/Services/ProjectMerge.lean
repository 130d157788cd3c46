import Kanban.Services.ProjectStream

/-!
# The merge of a project stream

The client of a project stream gets of every board what the board's own stream yields, in its
order and without the heartbeats: on the way an envelope is held by the task of the board or waits
in the channel, and nowhere else.  When the stream ends by itself it has shown everything.

## Main definitions

* `BoardStream.envelopes` — what a board stream has yielded, without heartbeats and errors.
* `ProjectStream.shown` — what the client has got of a board.
* `ProjectStream.Merging` — where the envelopes of the boards are.
* `ProjectStream.Faithful` — what the client may rely on.
-/

namespace Kanban.Services

open Machine History Kanban.Realtime

/-- The envelope of a board stream that an observation shows. -/
def envelope? : Obs Item → Option Item
  | .yielded .heartbeat | .yielded (.error _) | .answered .. => none
  | .yielded item => some item

/-- What the stream has yielded, without heartbeats and errors. -/
def BoardStream.envelopes (s : BoardStream) : List Item := s.trace.filterMap envelope?

namespace ProjectStream

/-! ## What a task makes of its stream -/

section After

variable {args : SubscribeBoardArgs} {s t : BoardStream} {a : Services.Input}

/-- A step of a board stream yields one item at most, and ends with an error. -/
theorem exists_item (h : s.step args a = some t) :
    ∃ obs, t.trace = s.trace ++ obs ∧
      (obs.filterMap Obs.item? = [] ∧ obs.filterMap envelope? = [] ∨
        ∃ item, obs.filterMap Obs.item? = [item] ∧
          obs.filterMap envelope? = (Forwarder.handle item).holding ∧
          (Forwarder.handle item = .done → t.loc = .closed)) := by
  cases BoardStream.step_cases h with
  | snapshot | resume | snapshotRead | replayDone | enter | passRecheck | pass | channelClosed =>
      exact ⟨[], (List.append_nil _).symm, .inl ⟨rfl, rfl⟩⟩
  | granted => exact ⟨[_], rfl, .inl ⟨rfl, rfl⟩⟩
  | subscribeFails | snapshotFails | answerFails | lagged =>
      exact ⟨[_], rfl, .inr ⟨_, rfl, rfl, fun _ => rfl⟩⟩
  | cutover | tick => exact ⟨[_], rfl, .inr ⟨_, rfl, rfl, fun h => by cases h⟩⟩
  | denied =>
      refine ⟨[.answered (BoardStream.recheckQuery args) false,
        .yielded (.error ⟨.permissionDenied, "permission revoked mid-stream"⟩)], ?_,
        .inr ⟨_, rfl, rfl, fun _ => rfl⟩⟩
      simp [BoardStream.fail, BoardStream.yield, BoardStream.hear]
  | @replay eventId payload pending lastReplay hloc =>
      by_cases hemit : (s.tracker.observeReplay eventId).1 = .emit
      · exact ⟨[.yielded _], by simp only [BoardStream.replayOne, if_pos hemit]; rfl,
          .inr ⟨_, rfl, rfl, fun h => by cases h⟩⟩
      · exact ⟨[], by simp [BoardStream.replayOne, if_neg hemit], .inl ⟨rfl, rfl⟩⟩
  | @recv e hloc =>
      by_cases hemit : (s.tracker.observeLive e.eventId e.natsSeq).1 = .emit
      · exact ⟨[.yielded _], by simp only [BoardStream.observe, if_pos hemit]; rfl,
          .inr ⟨_, rfl, rfl, fun h => by cases h⟩⟩
      · exact ⟨[], by simp [BoardStream.observe, if_neg hemit], .inl ⟨rfl, rfl⟩⟩

/-- **The task holds what its stream has just yielded**, and ends only with it. -/
theorem after_step (h : s.step args a = some t) :
    t.envelopes = s.envelopes ++ (Forwarder.after (s.yields t) t.isClosed).holding ∧
      (Forwarder.after (s.yields t) t.isClosed = .done → t.loc = .closed) := by
  obtain ⟨obs, htrace, hobs⟩ := exists_item h
  have henv : t.envelopes = s.envelopes ++ obs.filterMap envelope? := by
    simp [BoardStream.envelopes, htrace]
  rw [TimedStream.yields_of_trace htrace, henv]
  rcases hobs with ⟨hitems, hnone⟩ | ⟨item, hitems, hitem, hdone⟩
  · rw [hitems, hnone]
    by_cases hclosed : t.isClosed
    · simpa [Forwarder.after, hclosed, Forwarder.holding] using BoardStream.isClosed_iff.mp hclosed
    · simp [Forwarder.after, hclosed, Forwarder.holding]
  · rw [hitems, hitem]
    exact ⟨rfl, hdone⟩

end After

section Child

variable {batchSize : ℕ} {board : SubscribeBoardArgs} {outbox : Outbox String} {c : Child}
  {f : FreshSubscription}

/-- The registry does not touch the stream. -/
theorem stream_pump {a : Pumping} (h : (c.fresh outbox).step batchSize board a.action = some f) :
    f.stream = c.stream ∧ f.outbox = outbox ∧ f.evicted = 0 := by
  cases a <;> cases (FreshSubscription.step_cases h).1 with
  | subscriber hsub =>
      cases Subscriber.step_cases hsub
      exact ⟨rfl, rfl, rfl⟩

/-- What a task awaits is a step of its stream, or leaves it alone. -/
theorem stream_poll {a : Polling} (h : (c.fresh outbox).step batchSize board a.action = some f) :
    f.outbox = outbox ∧ f.evicted = 0 ∧
      (f.stream = c.stream ∨ ∃ b, c.stream.step board b = some f.stream) := by
  cases a with
  | readMax | read =>
      cases (FreshSubscription.step_cases h).1
      exact ⟨rfl, rfl, .inl rfl⟩
  | join | recv | stream =>
      cases (FreshSubscription.step_cases h).1 with
      | subscriber hsub =>
          rcases Subscriber.stream_step hsub with hst | ⟨b, hst, -⟩
          · exact ⟨rfl, rfl, .inl hst⟩
          · exact ⟨rfl, rfl, .inr ⟨b, hst⟩⟩

end Child

/-! ## Where the envelopes are -/

/-- The envelopes of board `i` that its stream has yielded. -/
def made (boards : List Child) (i : ℕ) : List Services.Item :=
  (boards[i]?.map fun c => c.stream.envelopes).getD []

/-- The envelope that the task of board `i` is sending. -/
def held (boards : List Child) (i : ℕ) : List Services.Item :=
  (boards[i]?.map fun c => c.task.holding).getD []

section Set

variable {boards : List Child} {i j : ℕ} {c c' : Child}

theorem made_eq (hc : boards[i]? = some c) : made boards i = c.stream.envelopes := by
  simp [made, hc]

theorem held_eq (hc : boards[i]? = some c) : held boards i = c.task.holding := by
  simp [held, hc]

theorem get_set_self (hc : boards[i]? = some c) : (boards.set i c')[i]? = some c' := by
  have hlt := (List.getElem?_eq_some_iff.mp hc).1
  simp [hlt]

/-- A board after a step of board `i`: that board, or another one as it was. -/
theorem of_get_set {d : Child} (hc : boards[i]? = some c) (hd : (boards.set i c')[j]? = some d) :
    j = i ∧ d = c' ∨ boards[j]? = some d := by
  by_cases hj : j = i
  · subst hj
    exact .inl ⟨rfl, (Option.some.inj ((get_set_self hc).symm.trans hd)).symm⟩
  · rw [List.getElem?_set_ne (Ne.symm hj)] at hd
    exact .inr hd

theorem made_set_ne (h : j ≠ i) : made (boards.set i c') j = made boards j := by
  simp [made, List.getElem?_set_ne (Ne.symm h)]

theorem held_set_ne (h : j ≠ i) : held (boards.set i c') j = held boards j := by
  simp [held, List.getElem?_set_ne (Ne.symm h)]

theorem made_set_same (hc : boards[i]? = some c) (h : c'.stream = c.stream) :
    made (boards.set i c') j = made boards j := by
  by_cases hj : j = i
  · subst hj
    rw [made_eq hc, made_eq (get_set_self hc), h]
  · exact made_set_ne hj

theorem held_set_same (hc : boards[i]? = some c) (h : c'.task = c.task) :
    held (boards.set i c') j = held boards j := by
  by_cases hj : j = i
  · subst hj
    rw [held_eq hc, held_eq (get_set_self hc), h]
  · exact held_set_ne hj

end Set

/-- The board envelope that an observation shows. -/
def received? : Obs Item → Option (ℕ × Services.Item)
  | .yielded (.board i item) => some (i, item)
  | _ => none

/-- The project event that an observation shows. -/
def projectEvent? : Obs Item → Option (BoardEventEnvelope String)
  | .yielded (.project e) => some e
  | _ => none

/-- What the client has got of the boards. -/
def received (s : ProjectStream) : List (ℕ × Services.Item) := s.trace.filterMap received?

/-- What the client has got of board `i`. -/
def shown (s : ProjectStream) (i : ℕ) : List Services.Item := FanIn.of i s.received

/-- The project events that the client has got. -/
def projectEvents (s : ProjectStream) : List (BoardEventEnvelope String) :=
  s.trace.filterMap projectEvent?

/-- The loop was not cut short, by an error or by the caller. -/
def Loc.whole : Loc → Bool
  | .failed | .dropped => false
  | _ => true

theorem Loc.whole_of_isOpen {loc : Loc} (h : loc.isOpen) : loc.whole := by
  cases loc <;> first | rfl | cases h

theorem Loc.ended_of_whole {loc : Loc} (h : loc.whole) (hopen : loc.isOpen = false) :
    loc = .ended := by
  cases loc <;> simp [whole, isOpen] at h hopen ⊢

/-- Where the envelopes of the boards are.  Once the loop was cut short, the tasks lose what they
hold. -/
structure Merging (args : SubscribeProjectArgs) (s : ProjectStream) : Prop where
  carried : s.loc.whole → FanIn.Carried (made s.boards) (held s.boards) s.queue s.received
  prefixes : ∀ i, s.shown i <+: made s.boards i
  bounded : s.queue.length ≤ channelCapacity
  finished : s.childrenOpen = false → s.queue = [] ∧ ∀ c ∈ s.boards, c.task = .done
  ended : s.loc = .ended → s.childrenOpen = false ∧ s.subscribed = false
  closed : s.loc.whole → ∀ c ∈ s.boards, c.task = .done → c.stream.loc = .closed
  fed : LiveTail.Fed s.outbox.stream (.project args.projectId) s.taken s.tail
  events : s.projectEvents = s.taken

section Yields

variable {s : ProjectStream} {args : SubscribeProjectArgs} {code : ErrorCode} {message : String}

theorem received_yield (s : ProjectStream) (item : Item) :
    (s.yield item).received = s.received ++ (received? (.yielded item)).toList := by
  cases h : received? (.yielded item) <;> simp [received, yield, h]

theorem projectEvents_yield (s : ProjectStream) (item : Item) :
    (s.yield item).projectEvents = s.projectEvents ++ (projectEvent? (.yielded item)).toList := by
  cases h : projectEvent? (.yielded item) <;> simp [projectEvents, yield, h]

theorem received_hear (granted : Bool) : (s.hear args granted).received = s.received := by
  simp [received, hear, received?]

theorem projectEvents_hear (granted : Bool) :
    (s.hear args granted).projectEvents = s.projectEvents := by
  simp [projectEvents, hear, projectEvent?]

theorem received_fail : (s.fail code message).received = s.received :=
  (received_yield s _).trans (List.append_nil _)

theorem projectEvents_fail : (s.fail code message).projectEvents = s.projectEvents :=
  (projectEvents_yield s _).trans (List.append_nil _)

end Yields

namespace Merging

variable {batchSize : ℕ} {args : SubscribeProjectArgs} {s t : ProjectStream} {a : Input}

theorem start (revision : Counter String → Option ℕ) :
    (ProjectStream.start args revision).Merging args := by
  have hmade : ∀ i, made (args.boards.map .start) i = [] := by
    intro i
    cases h : args.boards[i]? <;> simp [made, h, Child.start, Subscriber.start, BoardStream.start,
      BoardStream.envelopes]
  have hheld : ∀ i, held (args.boards.map .start) i = [] := by
    intro i
    cases h : args.boards[i]? <;> simp [held, h, Child.start, Forwarder.holding]
  refine ⟨fun _ i => ?_, fun i => List.nil_prefix, Nat.zero_le _, fun h => ?_,
    fun h => (by cases h), fun _ c hc hdone => ?_, LiveTail.fed_new, rfl⟩
  · exact (hmade i).trans (by simp [ProjectStream.start, received, hheld])
  · have hnone : args.boards = [] := by simpa [ProjectStream.start] using h
    exact ⟨rfl, by simp [ProjectStream.start, hnone]⟩
  · obtain ⟨board, -, rfl⟩ := List.mem_map.mp hc
    cases hdone

/-- A step that leaves the boards and the channel alone. -/
theorem beside (hs : s.Merging args) (hboards : t.boards = s.boards) (hqueue : t.queue = s.queue)
    (hreceived : t.received = s.received) (hopen : t.childrenOpen = s.childrenOpen)
    (hwhole : t.loc.whole → s.loc.whole)
    (hended : t.loc = .ended → t.childrenOpen = false ∧ t.subscribed = false)
    (hfed : LiveTail.Fed t.outbox.stream (.project args.projectId) t.taken t.tail)
    (hevents : t.projectEvents = t.taken) : t.Merging args := by
  refine ⟨fun h => ?_, fun i => ?_, ?_, fun h => ?_, hended, fun h => ?_, hfed, hevents⟩
  · rw [hboards, hqueue, hreceived]
    exact hs.carried (hwhole h)
  · rw [shown, hreceived, hboards]
    exact hs.prefixes i
  · rw [hqueue]
    exact hs.bounded
  · rw [hqueue, hboards]
    exact hs.finished (hopen ▸ h)
  · rw [hboards]
    exact hs.closed (hwhole h)

/-- A step of one board. -/
theorem board (hs : s.Merging args) {i : ℕ} {c c' : Child} (hc : s.boards[i]? = some c)
    (hboards : t = { s with boards := s.boards.set i c' })
    (hcarried : s.loc.whole → FanIn.Carried (made t.boards) (held t.boards) s.queue s.received)
    (hmade : c.stream.envelopes <+: c'.stream.envelopes)
    (hdone : c.task = .done → c'.task = .done)
    (hclosed : s.loc.whole → c'.task = .done → c'.stream.loc = .closed) : t.Merging args := by
  subst hboards
  refine ⟨hcarried, fun j => ?_, hs.bounded, fun h => ⟨(hs.finished h).1, fun d hd => ?_⟩, hs.ended,
    fun h d hd hd' => ?_, hs.fed, hs.events⟩
  · by_cases hj : j = i
    · subst hj
      have hpre := hs.prefixes j
      rw [made_eq hc] at hpre
      rw [made_eq (get_set_self hc)]
      exact hpre.trans hmade
    · rw [made_set_ne hj]
      exact hs.prefixes j
  · rcases List.mem_or_eq_of_mem_set hd with hd | rfl
    · exact (hs.finished h).2 d hd
    · exact hdone ((hs.finished h).2 c (List.mem_of_getElem? hc))
  · rcases List.mem_or_eq_of_mem_set hd with hd | rfl
    · exact hs.closed h d hd hd'
    · exact hclosed h hd'

/-- A dispatcher or a transaction only adds to the stream. -/
theorem outbox_grows {u v : Outbox String} {b : Outbox.Action String}
    (h : u.step batchSize b = some v) :
    u.stream.messages ⊆ v.stream.messages ∧ u.stream.lastSeq ≤ v.stream.lastSeq := by
  rcases Outbox.stream_step h with hst | ⟨_, _, _, _, _, -, -, -, hst⟩ <;> rw [hst]
  · exact ⟨List.Subset.refl _, le_rfl⟩
  · exact ⟨JetStream.subset_store, JetStream.lastSeq_le_store⟩

/-- The registry serves the channel of the project. -/
theorem fed_serveTail (hs : s.Merging args) {b : Pumping} {tail : LiveTail String}
    (h : s.serveTail args b = some tail) :
    LiveTail.Fed s.outbox.stream (.project args.projectId) s.taken tail := by
  cases b with
  | openConsumer => exact hs.fed.openConsumer h
  | pump => exact hs.fed.pump h
  | pumpEnds =>
      obtain rfl := Option.some.inj h
      exact hs.fed.pumpEnds
  | abort =>
      obtain rfl := Option.some.inj h
      exact hs.fed.abort

/-- The task of a board polls its stream. -/
theorem poll (hs : s.Merging args) {i : ℕ} {c : Child} {board : SubscribeBoardArgs}
    {b : Polling} {f : FreshSubscription} (hc : s.boards[i]? = some c) (htask : c.task = .next)
    (hf : (c.fresh s.outbox).step batchSize board b.action = some f) :
    Merging args { s with
      boards := s.boards.set i
        (c.put f (.after (c.stream.yields f.stream) f.stream.isClosed)) } := by
  have hafter : f.stream.envelopes = c.stream.envelopes ++
        (Forwarder.after (c.stream.yields f.stream) f.stream.isClosed).holding ∧
      (Forwarder.after (c.stream.yields f.stream) f.stream.isClosed = .done →
        f.stream.loc = .closed) := by
    rcases (stream_poll hf).2.2 with hst | ⟨b, hst⟩
    · rw [hst]
      by_cases hclosed : c.stream.isClosed
      · simpa [Forwarder.after, BoardStream.yields, hclosed, Forwarder.holding]
          using BoardStream.isClosed_iff.mp hclosed
      · simp [Forwarder.after, BoardStream.yields, hclosed, Forwarder.holding]
    · exact after_step hst
  refine hs.board hc rfl (fun hwhole => ?_) ⟨_, hafter.1.symm⟩ (fun h => ?_) fun _ => hafter.2
  · refine (hs.carried hwhole).make i ?_ ?_ fun j hj => ⟨made_set_ne hj, held_set_ne hj⟩
    · rw [held_eq hc, htask]
      rfl
    · rw [made_eq hc, made_eq (get_set_self hc), held_eq (get_set_self hc)]
      exact hafter.1
  · rw [htask] at h
    cases h

/-- The task of a board sends what it holds. -/
theorem send (hs : s.Merging args) {i : ℕ} {c : Child} {item : Services.Item}
    (hc : s.boards[i]? = some c) (htask : c.task = .send item)
    (hroom : s.queue.length < channelCapacity) :
    Merging args { s with
      boards := s.boards.set i { c with task := .next }
      queue := s.queue ++ [(i, item)] } := by
  have hsame : ∀ j, made (s.boards.set i { c with task := .next }) j = made s.boards j :=
    fun j => made_set_same hc rfl
  have hbusy : s.childrenOpen ≠ false := by
    intro h
    have := (hs.finished h).2 c (List.mem_of_getElem? hc)
    rw [htask] at this
    cases this
  refine ⟨fun h => ?_, fun j => ?_, ?_, fun h => (hbusy h).elim, hs.ended, fun h d hd hdone => ?_,
    hs.fed, hs.events⟩
  · have hsent : FanIn.Carried (made s.boards) (held (s.boards.set i { c with task := .next }))
        (s.queue ++ [(i, item)]) s.received :=
      (hs.carried h).send (by rw [held_eq hc, htask]; rfl)
        (by rw [held_eq (get_set_self hc)]; rfl) fun j hj => held_set_ne hj
    intro j
    rw [hsame j]
    exact hsent j
  · rw [hsame j]
    exact hs.prefixes j
  · rw [List.length_append]
    exact hroom
  · rcases List.mem_or_eq_of_mem_set hd with hd | rfl
    · exact hs.closed h d hd hdone
    · cases hdone

/-- The loop yields the oldest envelope of the channel. -/
theorem recvChild (hs : s.Merging args) {i : ℕ} {item : Services.Item}
    {queue : List (ℕ × Services.Item)} (hloc : s.loc = .select) (hopen : s.childrenOpen = true)
    (hqueue : s.queue = (i, item) :: queue) :
    Merging args { s.yield (.board i item) with loc := .top, queue := queue } := by
  have hreceived : (s.yield (.board i item)).received = s.received ++ [(i, item)] :=
    received_yield s _
  have hcarried : FanIn.Carried (made s.boards) (held s.boards) queue
      (s.received ++ [(i, item)]) := by
    have h := hs.carried (by rw [hloc]; rfl)
    rw [hqueue] at h
    exact h.receive
  refine ⟨fun _ => ?_, fun j => ?_, ?_, fun h => ?_, fun h => (by cases h), fun _ => ?_, hs.fed, ?_⟩
  · exact hreceived ▸ hcarried
  · have hpre := hcarried.received_prefix j
    rw [← hreceived] at hpre
    exact hpre
  · have hbound := hs.bounded
    rw [hqueue, List.length_cons] at hbound
    exact Nat.le_of_succ_le hbound
  · have : s.childrenOpen = false := h
    rw [hopen] at this
    cases this
  · exact hs.closed (by rw [hloc]; rfl)
  · have hevents : (s.yield (.board i item)).projectEvents = s.projectEvents :=
      (projectEvents_yield s _).trans (List.append_nil _)
    exact hevents.trans hs.events

/-- **One step** keeps every envelope where it can be. -/
theorem step (hs : s.Merging args) (hstep : s.step batchSize args a = some t) :
    t.Merging args := by
  -- the steps of the loop that neither touch the boards nor end it
  have hopen : ∀ {loc : Loc}, s.loc = loc → loc.isOpen → s.loc.whole := fun h hopen =>
    Loc.whole_of_isOpen (h ▸ hopen)
  cases step_cases hstep with
  | outbox hout =>
      obtain ⟨hsub, hlast⟩ := outbox_grows hout
      exact hs.beside rfl rfl rfl rfl id hs.ended (hs.fed.grow hsub hlast) hs.events
  | @pump i _ c _ f hc _ hf =>
      obtain ⟨hst, -⟩ := stream_pump hf
      refine hs.board hc rfl (fun hwhole j => ?_) (by rw [Child.put, hst]) id
        fun hwhole hdone => ?_
      · have hmade : made (s.boards.set i (c.put f c.task)) j = made s.boards j :=
          made_set_same hc hst
        have hheld : held (s.boards.set i (c.put f c.task)) j = held s.boards j :=
          held_set_same hc rfl
        exact hmade.trans ((hs.carried hwhole j).trans (by rw [hheld]))
      · rw [Child.put, hst]
        exact hs.closed hwhole _ (List.mem_of_getElem? hc) hdone
  | poll hc _ _ htask hf => exact hs.poll hc htask hf
  | send hc htask _ hroom => exact hs.send hc htask hroom
  | @sendFails i c item hc htask hclosed =>
      -- after an end in order no task holds anything
      have hcut : ¬ s.loc.whole := by
        intro hwhole
        have hended : s.loc = .ended := Loc.ended_of_whole hwhole hclosed
        have hdone := (hs.finished (hs.ended hended).1).2 c (List.mem_of_getElem? hc)
        rw [htask] at hdone
        cases hdone
      exact hs.board hc rfl (fun h => (hcut h).elim) (List.prefix_refl _) (fun _ => rfl)
        fun h => (hcut h).elim
  | tail htail => exact hs.beside rfl rfl rfl rfl id hs.ended (hs.fed_serveTail htail) hs.events
  | subscribed hloc htail =>
      exact hs.beside rfl rfl rfl rfl (fun _ => hopen hloc rfl) (fun h => by cases h)
        (hs.fed.join htail) hs.events
  | subscribeFails hloc | enter hloc | passRecheck hloc | pass hloc =>
      exact hs.beside rfl rfl rfl rfl (fun _ => hopen hloc rfl) (fun h => by cases h) hs.fed
        hs.events
  | granted hloc =>
      exact hs.beside rfl rfl (received_hear true) rfl (fun _ => hopen hloc rfl)
        (fun h => by cases h) hs.fed ((projectEvents_hear true).trans hs.events)
  | denied hloc =>
      exact hs.beside rfl rfl (received_fail.trans (received_hear false)) rfl
        (fun _ => hopen hloc rfl) (fun h => by cases h) hs.fed
        ((projectEvents_fail.trans (projectEvents_hear false)).trans hs.events)
  | answerFails hloc =>
      exact hs.beside rfl rfl received_fail rfl (fun _ => hopen hloc rfl) (fun h => by cases h)
        hs.fed (projectEvents_fail.trans hs.events)
  | recvChild hloc hchildren hqueue => exact hs.recvChild hloc hchildren hqueue
  | childrenEnd hloc hchildren hqueue hdone =>
      have hwhole : s.loc.whole := hopen hloc rfl
      refine ⟨fun _ => hs.carried hwhole, hs.prefixes, hs.bounded, fun _ => ⟨hqueue, hdone⟩,
        fun hended => ⟨rfl, ?_⟩, fun _ => hs.closed hwhole, hs.fed, hs.events⟩
      by_contra hsubscribed
      simp [hsubscribed] at hended
  | @recvProject e tail hloc hsubscribed htake =>
      have hevents : (s.yield (.project e)).projectEvents = s.projectEvents ++ [e] :=
        projectEvents_yield s _
      exact hs.beside rfl rfl ((received_yield s _).trans (List.append_nil _)) rfl
        (fun _ => hopen hloc rfl) (fun h => by cases h) (hs.fed.take htake)
        (hevents.trans (by rw [hs.events]))
  | lagged hloc =>
      exact hs.beside rfl rfl rfl rfl (fun _ => hopen hloc rfl) (fun h => by cases h)
        (hs.fed.skip _) hs.events
  | projectClosed hloc =>
      refine hs.beside rfl rfl rfl rfl (fun _ => hopen hloc rfl) (fun hended => ⟨?_, rfl⟩) hs.fed
        hs.events
      by_contra hchildren
      simp [hchildren] at hended
  | tick hloc =>
      exact hs.beside rfl rfl ((received_yield s _).trans (List.append_nil _)) rfl
        (fun _ => hopen hloc rfl) (fun h => by cases h) hs.fed
        (((projectEvents_yield s _).trans (List.append_nil _)).trans hs.events)
  | disconnect =>
      exact hs.beside rfl rfl rfl rfl (fun h => by cases h) (fun h => by cases h) hs.fed hs.events

end Merging

/-! ## Everything can be delivered -/

section Deliver

variable {args : SubscribeProjectArgs} {s t : ProjectStream}

/-- From `s` to `t` the boards and the channel stay as they are. -/
structure Still (s t : ProjectStream) : Prop where
  boards : t.boards = s.boards
  queue : t.queue = s.queue
  childrenOpen : t.childrenOpen = s.childrenOpen

theorem Still.trans {u : ProjectStream} (h : Still s t) (h' : Still t u) : Still s u :=
  ⟨h'.boards.trans h.boards, h'.queue.trans h.queue, h'.childrenOpen.trans h.childrenOpen⟩

/-- A granted recheck lets the loop go on. -/
theorem reach_select_recheck (batchSize : ℕ) (args : SubscribeProjectArgs)
    (hloc : s.loc = .recheck) :
    ∃ tr t, Exec (step batchSize args) s tr t ∧ t.loc = .select ∧ Still s t := by
  have hstep : s.step batchSize args (.answer true s.clock) = some { s.hear args true with
      loc := .select
      clock := s.clock
      lastPermissionRecheck := s.clock } := by
    simp [step, hloc]
  exact ⟨_, _, Exec.nil.snoc hstep, rfl, ⟨rfl, rfl, rfl⟩⟩

/-- The loop gets to wait for an envelope from the head of a pass. -/
theorem reach_select_top (batchSize : ℕ) (args : SubscribeProjectArgs) (hloc : s.loc = .top) :
    ∃ tr t, Exec (step batchSize args) s tr t ∧ t.loc = .select ∧ Still s t := by
  by_cases hdue : args.permissionRecheckInterval ≤ s.clock - s.lastPermissionRecheck
  · have hstep : s.step batchSize args (.pass s.clock) = some { s with loc := .recheck } := by
      simp [step, hloc, hdue]
    obtain ⟨tr, t, hrun, hselect, hstill⟩ :=
      reach_select_recheck batchSize args (s := { s with loc := .recheck }) rfl
    exact ⟨_, t, hrun.cons trivial hstep, hselect, ⟨hstill.boards, hstill.queue,
      hstill.childrenOpen⟩⟩
  · have hstep : s.step batchSize args (.pass s.clock) = some { s with loc := .select } := by
      simp [step, hloc, hdue]
    exact ⟨_, _, Exec.nil.snoc hstep, rfl, ⟨rfl, rfl, rfl⟩⟩

/-- The loop gets to wait for an envelope, wherever it stands. -/
theorem reach_select (batchSize : ℕ) (args : SubscribeProjectArgs) (hopen : s.loc.isOpen) :
    ∃ tr t, Exec (step batchSize args) s tr t ∧ t.loc = .select ∧ Still s t := by
  have henter : ∀ {s : ProjectStream}, s.loc = .enter →
      ∃ tr t, Exec (step batchSize args) s tr t ∧ t.loc = .select ∧ Still s t := by
    intro s hloc
    have hstep : s.step batchSize args (.enter s.clock) =
        some { s with loc := .top, lastPermissionRecheck := s.clock, clock := s.clock } := by
      simp [step, hloc]
    obtain ⟨tr, t, hrun, hselect, hstill⟩ := reach_select_top batchSize args (s := { s with
      loc := .top, lastPermissionRecheck := s.clock, clock := s.clock }) rfl
    exact ⟨_, t, hrun.cons trivial hstep, hselect, ⟨hstill.boards, hstill.queue,
      hstill.childrenOpen⟩⟩
  cases hloc : s.loc with
  | subscribe =>
      have hstep : s.step batchSize args .subscribeFails = some { s with loc := .enter } := by
        simp [step, hloc]
      obtain ⟨tr, t, hrun, hselect, hstill⟩ := henter (s := { s with loc := .enter }) rfl
      exact ⟨_, t, hrun.cons trivial hstep, hselect, ⟨hstill.boards, hstill.queue,
        hstill.childrenOpen⟩⟩
  | enter => exact henter hloc
  | top => exact reach_select_top batchSize args hloc
  | recheck => exact reach_select_recheck batchSize args hloc
  | select => exact ⟨[], s, Exec.nil, hloc, ⟨rfl, rfl, rfl⟩⟩
  | ended | failed | dropped =>
      rw [hloc] at hopen
      cases hopen

/-- The channel can be emptied. -/
theorem reach_empty (batchSize : ℕ) (hs : s.Merging args) (hopen : s.loc.isOpen) :
    ∃ tr t, Exec (step batchSize args) s tr t ∧ t.loc.isOpen ∧ t.queue = [] ∧
      t.boards = s.boards := by
  generalize hn : s.queue.length = n
  induction n generalizing s with
  | zero => exact ⟨[], s, Exec.nil, hopen, List.length_eq_zero_iff.mp hn, rfl⟩
  | succ n ih =>
      obtain ⟨tr, t, hrun, hselect, hstill⟩ := reach_select batchSize args hopen
      have ht : t.Merging args := hrun.invariant _ hs fun _ _ _ hu hst => hu.step hst
      obtain ⟨⟨i, item⟩, queue, hqueue⟩ : ∃ m queue, t.queue = m :: queue := by
        rw [hstill.queue]
        exact List.exists_cons_of_length_eq_add_one hn
      have hchildren : t.childrenOpen = true := by
        by_contra hfalse
        have := (ht.finished (by simpa using hfalse)).1
        rw [hqueue] at this
        cases this
      have hstep : t.step batchSize args .recvChild =
          some { t.yield (.board i item) with loc := .top, queue := queue } := by
        simp [step, hselect, hchildren, hqueue]
      have hlen : queue.length = n := by
        rw [← hstill.queue, hqueue, List.length_cons] at hn
        omega
      obtain ⟨tr', u, hrun', hu, hempty, hboards⟩ := ih (ht.step hstep) rfl hlen
      exact ⟨_, u, (hrun.snoc hstep).trans hrun', hu, hempty, hboards.trans hstill.boards⟩

/-- The first `n` tasks can send what they hold. -/
theorem reach_idle (batchSize : ℕ) (hs : s.Merging args) (hopen : s.loc.isOpen) (n : ℕ) :
    ∃ tr t, Exec (step batchSize args) s tr t ∧ t.loc.isOpen ∧ t.queue = [] ∧
      t.boards.length = s.boards.length ∧ (∀ j, made t.boards j = made s.boards j) ∧
      ∀ j < n, held t.boards j = [] := by
  induction n with
  | zero =>
      obtain ⟨tr, t, hrun, ht, hempty, hboards⟩ := reach_empty batchSize hs hopen
      exact ⟨tr, t, hrun, ht, hempty, by rw [hboards], fun j => by rw [hboards],
        fun j hj => by omega⟩
  | succ n ih =>
      obtain ⟨tr, t, hrun, ht, hempty, hlen, hmade, hheld⟩ := ih
      have htm : t.Merging args := hrun.invariant _ hs fun _ _ _ hu hst => hu.step hst
      by_cases hnone : held t.boards n = []
      · refine ⟨tr, t, hrun, ht, hempty, hlen, hmade, fun j hj => ?_⟩
        by_cases hjn : j = n
        · rw [hjn, hnone]
        · exact hheld j (by omega)
      · obtain ⟨c, item, hc, htask⟩ : ∃ c item, t.boards[n]? = some c ∧ c.task = .send item := by
          cases hc : t.boards[n]? with
          | none => simp [held, hc] at hnone
          | some c =>
              cases htask : c.task with
              | send item => exact ⟨c, item, rfl, htask⟩
              | next | done => simp [held, hc, htask, Forwarder.holding] at hnone
        have hstep : t.step batchSize args (.send n) = some { t with
            boards := t.boards.set n { c with task := .next }
            queue := t.queue ++ [(n, item)] } := by
          simp [step, hc, htask, ht, hempty, channelCapacity]
        obtain ⟨tr', u, hrun', hu, hempty', hboards⟩ :=
          reach_empty batchSize (htm.step hstep) ht
        refine ⟨_, u, (hrun.snoc hstep).trans hrun', hu, hempty', ?_, fun j => ?_,
          fun j hj => ?_⟩
        · simp [hboards, hlen]
        · rw [hboards, ← hmade j]
          exact made_set_same hc rfl
        · rw [hboards]
          by_cases hjn : j = n
          · subst hjn
            rw [held_eq (get_set_self hc)]
            rfl
          · rw [held_set_ne hjn]
            exact hheld j (by omega)

/-- **No deadlock**: whatever the boards have yielded can be delivered. -/
theorem delivers (batchSize : ℕ) (hs : s.Merging args) (hopen : s.loc.isOpen) :
    ∃ tr t, Exec (step batchSize args) s tr t ∧ ∀ i, t.shown i = made s.boards i := by
  obtain ⟨tr, t, hrun, ht, hempty, hlen, hmade, hheld⟩ :=
    reach_idle batchSize hs hopen s.boards.length
  have htm : t.Merging args := hrun.invariant _ hs fun _ _ _ hu hst => hu.step hst
  refine ⟨tr, t, hrun, fun i => ?_⟩
  have hidle : held t.boards i = [] := by
    by_cases hi : i < s.boards.length
    · exact hheld i hi
    · have hnone : t.boards[i]? = none := List.getElem?_eq_none (by omega)
      simp [held, hnone]
  rw [← hmade i]
  exact (htm.carried (Loc.whole_of_isOpen ht)).all_received (by rw [hempty]; rfl) hidle

end Deliver

/-! ## What the client may rely on -/

/-- Every board has a stream of its own. -/
def Streams (args : SubscribeProjectArgs) (s : ProjectStream) : Prop :=
  ∀ (i : ℕ) (c : Child), s.boards[i]? = some c → ∃ board tr, args.boards[i]? = some board ∧
    Exec (BoardStream.step board) (.start board) tr c.stream

/-- The merge adds nothing to the streams of the boards, loses nothing of them, and keeps their
order; it shows the events of the project in the order of their sequences. -/
structure Faithful (args : SubscribeProjectArgs) (s : ProjectStream) : Prop where
  streams : s.Streams args
  prefixes : ∀ (i : ℕ) (c : Child), s.boards[i]? = some c → s.shown i <+: c.stream.envelopes
  transit : s.loc.isOpen → ∀ (i : ℕ) (c : Child), s.boards[i]? = some c →
    c.stream.envelopes = s.shown i ++ FanIn.of i s.queue ++ c.task.holding
  bounded : s.queue.length ≤ channelCapacity
  complete : s.loc = .ended → ∀ (i : ℕ) (c : Child), s.boards[i]? = some c →
    s.shown i = c.stream.envelopes ∧ c.stream.loc = .closed
  events : ∃ ms : List (Message String), s.projectEvents = ms.map stamp ∧
    (ms.Pairwise fun m n => m.seq < n.seq) ∧
    ∀ m ∈ ms, m ∈ s.outbox.stream.messages ∧ m.subject = .project args.projectId

section Faithful

variable {batchSize : ℕ} {args : SubscribeProjectArgs} {s t : ProjectStream} {a : Input}

/-- The boards at first. -/
theorem board_of_start {revision : Counter String → Option ℕ} {i : ℕ} {c : Child}
    (hc : (start args revision).boards[i]? = some c) :
    ∃ board, args.boards[i]? = some board ∧ c = .start board := by
  have hc : (args.boards.map Child.start)[i]? = some c := hc
  rw [List.getElem?_map] at hc
  obtain ⟨board, hboard, heq⟩ := Option.map_eq_some_iff.mp hc
  exact ⟨board, hboard, heq.symm⟩

theorem streams_start (revision : Counter String → Option ℕ) :
    (start args revision).Streams args := by
  intro i c hc
  obtain ⟨board, hboard, rfl⟩ := board_of_start hc
  exact ⟨board, [], hboard, Exec.nil⟩

/-- The stream of a board goes on, or stays. -/
theorem Streams.set (hs : s.Streams args) {i : ℕ} {c c' : Child} (hc : s.boards[i]? = some c)
    (ht : t.boards = s.boards.set i c') (hstream : c'.stream = c.stream ∨
      ∃ board b, args.boards[i]? = some board ∧ c.stream.step board b = some c'.stream) :
    t.Streams args := by
  intro j d hd
  rw [ht] at hd
  rcases of_get_set hc hd with ⟨rfl, rfl⟩ | hd
  · obtain ⟨board, tr, hboard, hrun⟩ := hs j c hc
    rcases hstream with hst | ⟨board', b, hboard', hst⟩
    · exact ⟨board, tr, hboard, hst ▸ hrun⟩
    · obtain rfl := Option.some.inj (hboard.symm.trans hboard')
      exact ⟨board, _, hboard, hrun.snoc hst⟩
  · exact hs j d hd

theorem Streams.step (hs : s.Streams args) (hstep : s.step batchSize args a = some t) :
    t.Streams args := by
  cases step_cases hstep with
  | pump hc _ hf => exact hs.set hc rfl (.inl (stream_pump hf).1)
  | poll hc hboard _ _ hf =>
      exact hs.set hc rfl ((stream_poll hf).2.2.imp_right fun ⟨b, h⟩ => ⟨_, b, hboard, h⟩)
  | send hc | sendFails hc => exact hs.set hc rfl (.inl rfl)
  | _ => exact hs

theorem Merging.faithful (hs : s.Merging args) (hstreams : s.Streams args) : s.Faithful args where
  streams := hstreams
  prefixes := fun i c hc => made_eq hc ▸ hs.prefixes i
  transit := fun hopen i c hc => by
    have h := hs.carried (Loc.whole_of_isOpen hopen) i
    rwa [made_eq hc, held_eq hc] at h
  bounded := hs.bounded
  complete := fun hended i c hc => by
    have hwhole : s.loc.whole := by rw [hended]; rfl
    obtain ⟨hqueue, hdone⟩ := hs.finished (hs.ended hended).1
    have htask := hdone c (List.mem_of_getElem? hc)
    have hall := (hs.carried hwhole).all_received (k := i) (by rw [hqueue]; rfl)
      (by rw [held_eq hc, htask]; rfl)
    exact ⟨hall.trans (made_eq hc), hs.closed hwhole c (List.mem_of_getElem? hc) htask⟩
  events := by
    obtain ⟨ms, h⟩ := hs.fed
    have hsub : (ms.take s.taken.length).Sublist ms := List.take_sublist _ _
    refine ⟨ms.take s.taken.length, ?_, h.ordered.sublist hsub,
      fun m hm => h.sound m (hsub.subset hm)⟩
    rw [List.map_take, ← h.delivered, hs.events]
    simp

/-- **The project stream is a faithful merge.**  In every run of the transactions, the
dispatchers, the registry, the tasks and the loop the client has got of each board a prefix of what
the board's stream has yielded; the rest is with the task or in the channel, which is bounded, and
can be delivered as long as the loop is there.  A stream that ends by itself has shown all. -/
theorem project_stream_faithful {revision : Counter String → Option ℕ} {tr : List Input}
    (h : Exec (step batchSize args) (start args revision) tr s) :
    s.Faithful args ∧ (s.loc.isOpen → ∃ tr' t, Exec (step batchSize args) s tr' t ∧
      ∀ (i : ℕ) (c : Child), s.boards[i]? = some c → t.shown i = c.stream.envelopes) := by
  have hs : s.Merging args := h.invariant _ (.start revision) fun _ _ _ hu hst => hu.step hst
  have hstreams : s.Streams args :=
    h.invariant _ (streams_start revision) fun _ _ _ hu hst => hu.step hst
  refine ⟨hs.faithful hstreams, fun hopen => ?_⟩
  obtain ⟨tr', t, hrun, hshown⟩ := delivers batchSize hs hopen
  exact ⟨tr', t, hrun, fun i c hc => (hshown i).trans (made_eq hc)⟩

/-- The project stream of two internal boards. -/
def twoBoards : SubscribeProjectArgs where
  auth := ⟨some "t", some "u"⟩
  projectId := "p"
  permissionRecheckInterval := 30
  boards := [⟨⟨some "t", some "u"⟩, "b", false, 30, "t", 0, 1024⟩,
    ⟨⟨some "t", some "u"⟩, "c", false, 30, "t", 0, 1024⟩]

/-- A transaction that commits one event of the first board, and a pass of the dispatcher. -/
def boardEvent (rowId : String) (token : ℕ) : List Input :=
  [.outbox (.mutate (.begin 0)),
    .outbox (.mutate (.insertBoardEvent 0 "t" "b" "CardCreated" (.object []))),
    .outbox (.mutate (.insertRow 0 rowId)), .outbox (.mutate (.notify 0)),
    .outbox (.mutate (.commit 0)), .outbox (.select 0), .outbox (.publish 0),
    .outbox (.receive token true), .outbox (.ack 0), .outbox (.update 0), .outbox (.finish 0)]

/-- A task opens its board stream and gets the cutover. -/
def openBoard (i lastReplay : ℕ) (eventId : String) : List Input :=
  [.pump i .openConsumer, .poll i .join, .poll i .readMax,
    .poll i (.stream (.snapshotRead [] [] lastReplay)), .poll i (.stream (.replay eventId)),
    .poll i (.stream .cutover)]

/-- The channel of a board is removed, and its stream ends. -/
def closeBoard (i : ℕ) : List Input :=
  [.pump i .abort, .poll i (.stream (.pass 0)), .poll i (.stream .channelClosed)]

/-- Both boards cut over, the first one gets an event, and then all subscriptions end. -/
def wholeStream : List Input :=
  [.tail .openConsumer, .subscribed, .enter 0] ++ openBoard 0 0 "x" ++ openBoard 1 0 "y" ++
    [.send 1, .send 0, .pass 0, .recvChild] ++ boardEvent "r1" 0 ++
    [.pump 0 .pump, .poll 0 (.stream (.enter 0)), .poll 0 (.stream (.pass 0)), .poll 0 .recv,
      .send 0, .poll 1 (.stream (.enter 0))] ++ closeBoard 0 ++ closeBoard 1 ++
    [.pass 0, .recvChild, .pass 0, .recvChild, .pass 0, .childrenEnd, .tail .abort, .pass 0,
      .projectClosed]

theorem project_stream_faithful_twoBoards : ∃ s,
    Exec (step 10 twoBoards)
        (start twoBoards fun c => if c = .board "b" then some 0 else none) wholeStream s ∧
      s.loc = .ended ∧ (s.shown 0).length = 2 ∧ (s.shown 1).length = 1 ∧ s.Faithful twoBoards := by
  obtain ⟨s, hrun, hloc, hfirst, hsecond⟩ : ∃ s,
      run (step 10 twoBoards)
        (start twoBoards fun c => if c = .board "b" then some 0 else none) wholeStream = some s ∧
      s.loc = .ended ∧ (s.shown 0).length = 2 ∧ (s.shown 1).length = 1 :=
    ⟨_, rfl, rfl, rfl, rfl⟩
  have h := exec_of_run hrun
  exact ⟨s, h, hloc, hfirst, hsecond, (project_stream_faithful h).1⟩

end Faithful

end ProjectStream

end Kanban.Services
