import Kanban.Services.ProjectMerge

/-!
# A project stream loses no mutation

Each board of a project stream is a fresh subscription to the outbox that all of them share, so
every committed mutation of the board is in its snapshot, is emitted by its stream, or is still on
its way there.  The merge passes on what the board's stream emits; hence the client learns of every
mutation of every board of the project.

## Main definitions

* `BoardStream.SnapshotFirst` — the snapshot of a board comes before its cutover.
* `ProjectStream.Feeding` — the boards are fresh subscriptions to the outbox.
* `ProjectStream.Reported`, `ProjectStream.OnTheWay` — the client knows of a mutation, or will.
* `ProjectStream.CaughtUp` — nothing of a board is on its way.
-/

namespace Kanban.Services

open Machine History Kanban.Realtime

/-! ## The snapshot comes first -/

/-- The stream has not cut over. -/
def Loc.uncut : Loc → Bool
  | .subscribe | .snapshot | .replay _ _ | .cutover _ => true
  | _ => false

namespace BoardStream

/-- No snapshot envelope comes after the cutover. -/
structure SnapshotFirst (s : BoardStream) : Prop where
  along : Along (fun pre item => ∀ e, item = .snapshot e → ∀ q, .cutover q ∉ pre) s.envelopes
  uncut : s.loc.uncut → ∀ q, .cutover q ∉ s.envelopes

section SnapshotFirst

variable {args : SubscribeBoardArgs} {s t : BoardStream} {a : Input}

theorem envelopes_yield (s : BoardStream) (item : Item) :
    (s.yield item).envelopes = s.envelopes ++ (envelope? (.yielded item)).toList := by
  cases h : envelope? (.yielded item) <;> simp [envelopes, yield, h]

theorem envelopes_hear (granted : Bool) : (s.hear args granted).envelopes = s.envelopes := by
  simp [envelopes, hear, envelope?]

theorem envelopes_fail {code : ErrorCode} {message : String} :
    (s.fail code message).envelopes = s.envelopes :=
  (envelopes_yield s _).trans (List.append_nil _)

theorem snapshotFirst_start : (start args).SnapshotFirst :=
  ⟨along_nil, fun _ _ h => by cases h⟩

/-- Nothing is shown. -/
theorem SnapshotFirst.quiet (hs : s.SnapshotFirst) (ht : t.envelopes = s.envelopes)
    (hloc : t.loc.uncut → s.loc.uncut) : t.SnapshotFirst :=
  ⟨ht ▸ hs.along, fun h => ht ▸ hs.uncut (hloc h)⟩

/-- Another item than a snapshot envelope is shown. -/
theorem SnapshotFirst.shows (hs : s.SnapshotFirst) {item : Item}
    (ht : t.envelopes = s.envelopes ++ [item]) (hitem : ∀ e, item ≠ .snapshot e)
    (hloc : t.loc.uncut = false) : t.SnapshotFirst := by
  refine ⟨?_, fun h => ?_⟩
  · rw [ht]
    exact along_concat.mpr ⟨hs.along, fun e he => (hitem e he).elim⟩
  · rw [hloc] at h
    cases h

theorem SnapshotFirst.step (hs : s.SnapshotFirst) (hstep : s.step args a = some t) :
    t.SnapshotFirst := by
  cases step_cases hstep with
  | snapshot hloc | resume hloc | snapshotRead hloc | replayDone hloc =>
      exact hs.quiet rfl fun _ => by rw [hloc]; rfl
  | @replay eventId payload pending lastReplay hloc =>
      have hnone := hs.uncut (by rw [hloc]; rfl)
      by_cases hemit : (s.tracker.observeReplay eventId).1 = .emit
      · have ht : (s.replayOne args eventId payload).envelopes = s.envelopes ++
            [.snapshot (snapshotEnvelope args.boardId eventId payload)] := by
          simp only [replayOne, if_pos hemit]
          exact envelopes_yield s _
        refine ⟨?_, fun _ q hq => ?_⟩
        · have hlast : Along (fun pre item => ∀ e, item = Item.snapshot e → ∀ q, .cutover q ∉ pre)
              (s.replayOne args eventId payload).envelopes := by
            rw [ht]
            exact along_concat.mpr ⟨hs.along, fun _ _ => hnone⟩
          exact hlast
        · have hq : Item.cutover q ∈ (s.replayOne args eventId payload).envelopes := hq
          rw [ht] at hq
          rcases List.mem_append.mp hq with hq | hq
          · exact hnone q hq
          · simp at hq
      · have ht : (s.replayOne args eventId payload).envelopes = s.envelopes := by
          simp only [replayOne, if_neg hemit]
          rfl
        exact hs.quiet ht fun _ => by rw [hloc]; rfl
  | cutover => exact hs.shows (envelopes_yield s _) (fun e => by simp) rfl
  | enter | passRecheck | pass | channelClosed => exact hs.quiet rfl fun h => by cases h
  | granted => exact hs.quiet (envelopes_hear true) fun h => by cases h
  | denied => exact hs.quiet (envelopes_fail.trans (envelopes_hear false)) fun h => by cases h
  | subscribeFails | snapshotFails | answerFails | lagged =>
      exact hs.quiet envelopes_fail fun h => by cases h
  | @recv e =>
      by_cases hemit : (s.tracker.observeLive e.eventId e.natsSeq).1 = .emit
      · have ht : (s.observe e).envelopes = s.envelopes ++ [.live e] := by
          simp only [observe, if_pos hemit]
          exact envelopes_yield s _
        exact hs.shows ht (fun e => by simp) rfl
      · have ht : (s.observe e).envelopes = s.envelopes := by
          simp only [observe, if_neg hemit]
          rfl
        exact hs.quiet ht fun h => by cases h
  | tick =>
      exact hs.quiet ((envelopes_yield s _).trans (List.append_nil _)) fun h => by cases h

/-- **Once the cutover is there, so is the snapshot.** -/
theorem SnapshotFirst.snapshot_mem (hs : s.SnapshotFirst) {l : List Item}
    (hl : l <+: s.envelopes) {q : ℕ} (hcut : .cutover q ∈ l) {e : BoardEventEnvelope String}
    (he : .snapshot e ∈ s.envelopes) : .snapshot e ∈ l := by
  obtain ⟨r, hr⟩ := hl
  rw [← hr] at he
  rcases List.mem_append.mp he with he | he
  · exact he
  · obtain ⟨pre, post, rfl⟩ := List.append_of_mem he
    have hlater := hs.along (l ++ pre) _ post (by rw [← hr]; simp) e rfl q
    exact (hlater (List.mem_append_left _ hcut)).elim

/-- The live envelopes among what the stream has shown. -/
theorem live_mem_envelopes {e : BoardEventEnvelope String} :
    .live e ∈ s.envelopes ↔ e ∈ s.emitted := by
  simp only [envelopes, emitted, List.mem_filterMap]
  constructor
  · rintro ⟨o, ho, heq⟩
    refine ⟨o, ho, ?_⟩
    unfold envelope? at heq
    split at heq <;> simp_all [live?]
  · rintro ⟨o, ho, heq⟩
    refine ⟨o, ho, ?_⟩
    unfold live? at heq
    split at heq <;> simp_all [envelope?]

theorem cutover_mem_trace {q : ℕ} (h : .cutover q ∈ s.envelopes) :
    .yielded (.cutover q) ∈ s.trace := by
  obtain ⟨o, ho, heq⟩ := List.mem_filterMap.mp h
  unfold envelope? at heq
  split at heq <;> simp_all

end SnapshotFirst

end BoardStream

namespace ProjectStream

/-! ## The boards are fresh subscriptions -/

/-- Each board with the outbox is what a fresh subscription can get to. -/
structure Feeding (args : SubscribeProjectArgs) (s : ProjectStream) : Prop where
  inv : ∀ (i : ℕ) (c : Child) (board : SubscribeBoardArgs), s.boards[i]? = some c →
    args.boards[i]? = some board →
    (c.fresh s.outbox).Inv board ∧ (c.fresh s.outbox).Accounted board ∧
      (c.fresh s.outbox).FreshIds ∧ c.stream.SnapshotFirst

section Feeding

variable {batchSize : ℕ} {args : SubscribeProjectArgs} {s t : ProjectStream} {a : Input}

theorem feeding_start (revision : Counter String → Option ℕ) :
    (start args revision).Feeding args := by
  refine ⟨fun i c board hc hboard => ?_⟩
  obtain ⟨board', hboard', rfl⟩ := board_of_start hc
  obtain rfl := Option.some.inj (hboard.symm.trans hboard')
  exact ⟨FreshSubscription.inv_start board revision,
    FreshSubscription.accounted_start board revision, fun _ hid => (by cases hid),
    BoardStream.snapshotFirst_start⟩

theorem fresh_put {c : Child} {f : FreshSubscription} {outbox : Outbox String} {task : Forwarder}
    (h : f.outbox = outbox) (hevicted : f.evicted = 0) : (c.put f task).fresh outbox = f := by
  obtain ⟨sub, _, _, _, _⟩ := f
  subst h hevicted
  rfl

/-- The subscription of one board takes a step. -/
theorem Feeding.set (hs : s.Feeding args) (hsince : ∀ board ∈ args.boards, board.sinceSeq = 0)
    {i : ℕ} {c c' : Child} {board : SubscribeBoardArgs} {b : FreshSubscription.Action}
    {f : FreshSubscription} (hc : s.boards[i]? = some c) (hboard : args.boards[i]? = some board)
    (hret : (c.fresh s.outbox).Retains board b)
    (hf : (c.fresh s.outbox).step batchSize board b = some f)
    (hstream : f.stream = c.stream ∨ ∃ b, c.stream.step board b = some f.stream)
    (hfresh : c'.fresh s.outbox = f) :
    Feeding args { s with boards := s.boards.set i c' } := by
  refine ⟨fun j d board' hd hboard' => ?_⟩
  rcases of_get_set hc hd with ⟨rfl, rfl⟩ | hd
  · obtain rfl := Option.some.inj (hboard.symm.trans hboard')
    obtain ⟨hinv, hacc, -, hfirst⟩ := hs.inv j c board hc hboard
    have hzero := hsince board (List.mem_of_getElem? hboard)
    have hst : d.stream = f.stream := congrArg (fun f => f.stream) hfresh
    refine ⟨hfresh ▸ hinv.step hzero hf, hfresh ▸ hacc.step hinv hret hf,
      hfresh ▸ (FreshSubscription.step_cases hf).2, ?_⟩
    rw [hst]
    rcases hstream with hsame | ⟨b, hstep⟩
    · rw [hsame]
      exact hfirst
    · exact hfirst.step hstep
  · exact hs.inv j d board' hd hboard'

/-- A task that has moved is still at the same subscription. -/
theorem Feeding.task (hs : s.Feeding args) {i : ℕ} {c : Child} (hc : s.boards[i]? = some c)
    (task : Forwarder) (ht : t.boards = s.boards.set i { c with task := task })
    (hout : t.outbox = s.outbox) : t.Feeding args := by
  refine ⟨fun j d board hd hboard => ?_⟩
  rw [ht] at hd
  rw [hout]
  rcases of_get_set hc hd with ⟨rfl, rfl⟩ | hd
  · exact hs.inv j c board hc hboard
  · exact hs.inv j d board hd hboard

/-- **One step** keeps every board a fresh subscription. -/
theorem Feeding.step (hs : s.Feeding args) (hsince : ∀ board ∈ args.boards, board.sinceSeq = 0)
    (hstep : s.step batchSize args a = some t) : t.Feeding args := by
  cases step_cases hstep with
  | outbox hout hfresh =>
      refine ⟨fun i c board hc hboard => ?_⟩
      obtain ⟨hinv, hacc, -, hfirst⟩ := hs.inv i c board hc hboard
      exact ⟨hinv.outbox hout, hacc.outbox hinv hout, hfresh c (List.mem_of_getElem? hc), hfirst⟩
  | @pump _ a _ _ _ hc hboard hf =>
      obtain ⟨hst, hout, hevicted⟩ := stream_pump hf
      exact hs.set hsince hc hboard (by cases a <;> trivial) hf (.inl hst) (fresh_put hout hevicted)
  | @poll _ a _ _ _ hc hboard _ _ hf =>
      obtain ⟨hout, hevicted, hst⟩ := stream_poll hf
      exact hs.set hsince hc hboard (by cases a <;> trivial) hf hst (fresh_put hout hevicted)
  | send hc => exact hs.task hc .next rfl rfl
  | sendFails hc => exact hs.task hc .done rfl rfl
  | _ => exact ⟨hs.inv⟩

end Feeding

/-! ## What the client knows of a mutation -/

/-- The mutation was committed before every read of the board's snapshot, or the client has got
its event, from above `base`. -/
def Reported (s : ProjectStream) (i : ℕ) (c : Child) (base : ℕ) (row : EventRow String) : Prop :=
  (∀ read ∈ c.reads, row.id ∈ read) ∨
    ∃ e, .live e ∈ s.shown i ∧ e.eventId = row.id ∧ base < e.natsSeq

/-- The event is on its way to the board's stream, or waits in the channel or with the task. -/
def OnTheWay (board : SubscribeBoardArgs) (s : ProjectStream) (i : ℕ) (c : Child) (base : ℕ)
    (row : EventRow String) : Prop :=
  (c.fresh s.outbox).Pending board base row ∨
    ∃ e, .live e ∈ FanIn.of i s.queue ++ c.task.holding ∧ e.eventId = row.id ∧ base < e.natsSeq

/-- Everything is published and received, and the task and the channel hold nothing of the
board. -/
structure CaughtUp (board : SubscribeBoardArgs) (s : ProjectStream) (i : ℕ) (c : Child) : Prop where
  drained : (c.fresh s.outbox).Drained board board.boardId
  queue : FanIn.of i s.queue = []
  task : c.task.holding = []

section Reported

variable {ι : Type*} [DecidableEq ι] {codec : IdCodec ι} {config : StreamConfig}
  {backends : Backends ι} {auth : Option AuthContext} {batchSize : ℕ} {args : SubscribeProjectArgs}
  {s : ProjectStream}

/-- The board streams of a project start with a snapshot. -/
theorem sinceSeq_of_subscribeProject
    (hopens : subscribeProject codec config backends auth args.projectId = .ok args.boards)
    {board : SubscribeBoardArgs} (hboard : board ∈ args.boards) : board.sinceSeq = 0 := by
  obtain ⟨_, _, _, _, _, _, _, hboards⟩ := subscribeProject_ok hopens
  rw [hboards] at hboard
  obtain ⟨row, -, rfl⟩ := List.mem_map.mp hboard
  rfl

/-- **A project stream loses no mutation.**  In every run of the transactions, the dispatchers,
the registry, the tasks and the loop of a stream that `SubscribeProject` has opened, for each
board whose cutover the client has got, whose stream stays open and whose channel's pump keeps
running: the client has got the whole snapshot of the board, and every committed mutation of the board
was committed before all reads of that snapshot, or the client has got its event from above the cutover, or it is still on its way;
and when the board has caught up it is one of the first two. -/
theorem project_mutation_reported
    (hopens : subscribeProject codec config backends auth args.projectId = .ok args.boards)
    {revision : Counter String → Option ℕ} {tr : List Input}
    (h : Exec (step batchSize args) (start args revision) tr s) (hopen : s.loc.isOpen) {i : ℕ}
    {c : Child} {board : SubscribeBoardArgs} (hc : s.boards[i]? = some c)
    (hboard : args.boards[i]? = some board) (hstream : c.stream.loc ≠ .closed)
    (hpump : c.tail.consumer.isSome) {q : ℕ} (hcut : .cutover q ∈ s.shown i) :
    (∀ e, .snapshot e ∈ c.stream.envelopes → .snapshot e ∈ s.shown i) ∧
    ∀ row ∈ s.outbox.log.rows, FreshSubscription.Mutates board.boardId row →
      (s.Reported i c q row ∨ OnTheWay board s i c q row) ∧
      (s.CaughtUp board i c → s.Reported i c q row) := by
  have hfaithful := (project_stream_faithful h).1
  have hfeeding : s.Feeding args := h.invariant _ (feeding_start revision) fun _ _ _ hu hst =>
    hu.step (fun _ hb => sinceSeq_of_subscribeProject hopens hb) hst
  obtain ⟨hinv, hacc, hfresh, hfirst⟩ := hfeeding.inv i c board hc hboard
  have hinit := hfaithful.prefixes i c hc
  have htrace := BoardStream.cutover_mem_trace (hinit.subset hcut)
  -- what the board's stream has emitted was shown, or is on its way
  have hemitted : ∀ e ∈ c.stream.emitted,
      .live e ∈ s.shown i ∨ .live e ∈ FanIn.of i s.queue ++ c.task.holding := by
    intro e he
    have hmem := BoardStream.live_mem_envelopes.mpr he
    rw [hfaithful.transit hopen i c hc, List.append_assoc] at hmem
    exact List.mem_append.mp hmem
  have hreach := fun m hm hsub hmissed =>
    (hacc q (hinv.cutover q htrace) m hm hsub hmissed).2 hstream hpump
  refine ⟨fun e he => hfirst.snapshot_mem hinit hcut he, fun row hrow hmut => ⟨?_, fun hup => ?_⟩⟩
  · rcases hinv.shown_or_pending hacc hfresh htrace hreach hrow hmut with
      (hreads | ⟨e, he, hid, hlt⟩) | hpending
    · exact .inl (.inl hreads)
    · rcases hemitted e he with hshown | hway
      · exact .inl (.inr ⟨e, hshown, hid, hlt⟩)
      · exact .inr (.inr ⟨e, hway, hid, hlt⟩)
    · exact .inr (.inl hpending)
  · rcases (hinv.shown_or_pending hacc hfresh htrace hreach hrow hmut).resolve_right
      (FreshSubscription.not_pending hup.drained hrow hmut) with hreads | ⟨e, he, hid, hlt⟩
    · exact .inl hreads
    · rcases hemitted e he with hshown | hway
      · exact .inr ⟨e, hshown, hid, hlt⟩
      · rw [hup.queue, hup.task] at hway
        cases hway

/-- Two internal boards of a project. -/
def internalBoards : Boards String where
  rows := [⟨"b", "t", "p", "roadmap", none, visInternal, 0⟩,
    ⟨"c", "t", "p", "backlog", none, visInternal, 1⟩]
  key := by simp

theorem opens_twoBoards :
    subscribeProject BoardStream.plainIds ⟨30, 1024⟩ ⟨some internalBoards, true⟩
      (some twoBoards.auth) twoBoards.projectId = .ok twoBoards.boards := by
  have hsorted : internalBoards.ofProject "t" "p" = internalBoards.rows := by
    have hall : (internalBoards.rows.filter fun row =>
        row.tenantId = "t" ∧ row.projectId = "p") = internalBoards.rows := rfl
    unfold Boards.ofProject
    rw [hall]
    exact List.mergeSort_of_pairwise (by simp [internalBoards])
  simp only [subscribeProject, callerTenant, twoBoards, BoardStream.plainIds, bind, Except.bind,
    if_true, hsorted]
  rfl

/-- An event before the snapshot of the first board, and one after it. -/
def twoEvents : List Input :=
  boardEvent "r1" 0 ++ [.tail .openConsumer, .subscribed, .enter 0] ++ openBoard 0 1 "x" ++
    [.send 0, .pass 0, .recvChild] ++ boardEvent "r2" 1 ++
    [.pump 0 .pump, .pump 0 .pump, .poll 0 (.stream (.enter 0)), .poll 0 (.stream (.pass 0)),
      .poll 0 .recv, .poll 0 (.stream (.pass 0)), .poll 0 .recv, .send 0, .pass 0, .recvChild]

theorem project_mutation_reported_twoEvents : ∃ s c,
    Exec (step 10 twoBoards)
        (start twoBoards fun c => if c = .board "b" then some 0 else none) twoEvents s ∧
      s.boards[0]? = some c ∧ c.reads = [["r1"]] ∧
      ∀ row ∈ s.outbox.log.rows, s.Reported 0 c 1 row := by
  obtain ⟨s, c, hrun, hc, hreads, hloc, hchannel, hopen, hcut, hrows, hstored, hlast, hbuf, hqueue,
      htask⟩ : ∃ s c,
      run (step 10 twoBoards)
        (start twoBoards fun c => if c = .board "b" then some 0 else none) twoEvents = some s ∧
      s.boards[0]? = some c ∧ c.reads = [["r1"]] ∧ c.stream.loc = .top ∧
      c.tail.consumer = some 2 ∧ s.loc = .top ∧ (s.shown 0).head? = some (.cutover 1) ∧
      s.outbox.log.rows.map (fun row => (row.id, row.boardId, row.aggregatedBoardId)) =
        [("r1", some "b", none), ("r2", some "b", none)] ∧
      s.outbox.stream.messages.map Message.msgId = ["r1", "r2"] ∧
      s.outbox.stream.lastSeq = 2 ∧ c.tail.buffer = [] ∧ s.queue = [] ∧ c.task = .next :=
    ⟨_, _, rfl, rfl, rfl, rfl, rfl, rfl, rfl, rfl, rfl, rfl, rfl, rfl, rfl⟩
  have hboard : twoBoards.boards[0]? = some ⟨twoBoards.auth, "b", false, 30, "t", 0, 1024⟩ := rfl
  have hrow : ∀ row ∈ s.outbox.log.rows, (row.id = "r1" ∨ row.id = "r2") ∧
      FreshSubscription.Mutates "b" row := by
    intro row hrow
    have hmem := List.mem_map_of_mem (f := fun row : EventRow String =>
      (row.id, row.boardId, row.aggregatedBoardId)) hrow
    rw [hrows] at hmem
    simp only [List.mem_cons, Prod.mk.injEq, List.not_mem_nil, or_false] at hmem
    rcases hmem with ⟨hid, hb, hagg⟩ | ⟨hid, hb, hagg⟩
    · exact ⟨.inl hid, hb, hagg⟩
    · exact ⟨.inr hid, hb, hagg⟩
  have hdrained : (c.fresh s.outbox).Drained ⟨twoBoards.auth, "b", false, 30, "t", 0, 1024⟩ "b" := by
    refine ⟨fun row hmem _ => ?_, fun n hn => ?_, hbuf⟩
    · have hid : row.id ∈ s.outbox.stream.messages.map Message.msgId := by
        rw [hstored]
        simpa using (hrow row hmem).1
      exact List.mem_map.mp hid
    · obtain rfl : n = 2 := (Option.some.inj (hchannel.symm.trans hn)).symm
      refine List.find?_eq_none.mpr fun m hm => ?_
      have hle := s.outbox.stream.bound m hm
      have hnot : ¬ 2 < m.seq := by omega
      simp [hnot]
  have hcaught : CaughtUp ⟨twoBoards.auth, "b", false, 30, "t", 0, 1024⟩ s 0 c :=
    ⟨hdrained, by rw [hqueue]; rfl, by rw [htask]; rfl⟩
  have hreported := project_mutation_reported opens_twoBoards (exec_of_run hrun)
    (by rw [hopen]; rfl) hc hboard (by rw [hloc]; simp) (by rw [hchannel]; rfl)
    (List.mem_of_mem_head? hcut)
  exact ⟨s, c, exec_of_run hrun, hc, hreads, fun row hmem =>
    (hreported.2 row hmem (hrow row hmem).2).2 hcaught⟩

end Reported

end ProjectStream

end Kanban.Services
