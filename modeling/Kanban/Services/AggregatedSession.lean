import Kanban.Services.AggregatedBoards

/-!
# One caller's aggregated stream in a changing world

A session runs one stream of `subscribe_aggregated_board` beside the handlers and the grants that
change what it may show.  `get_aggregated_board` asks of every source board whether the caller may
read it; the stream fans in the ids that were attached when it was opened.

## Main definitions

* `World.MayRead` — the board is of the caller's tenant and passes the test of the unary read.
* `Session`, `Session.step` — the world, the stream, and what the stream has shown in which world.
* `Session.Confined`, `Session.SameSources` — what the stream owes to that test.
* `Session.Visible` — the condition under which it keeps to it.
-/

namespace Kanban.Services

open Machine History Kanban.Realtime

variable {ι : Type} [DecidableEq ι]

/-- The objects on which the caller has view. -/
def World.viewable (w : World ι) (auth : AuthContext) : List String :=
  (auth.subject.bind fun subject =>
    w.permissions.expandObjects "KanbanBoard" "view" subject 10000).getD []

/-- The board is of the caller's tenant, and public, internal or granted. -/
def World.MayRead (codec : IdCodec ι) (w : World ι) (auth : AuthContext) (id : ι) : Prop :=
  ∃ b ∈ w.boards.rows, b.id = id ∧ auth.tenantId = some b.tenantId ∧
    (isPublicOrInternal b.visibility ∨ codec.toString id ∈ w.viewable auth)

/-- The two read paths of an aggregate take the same source boards, whenever the unary one
answers. -/
def World.SameSources (codec : IdCodec ι) (w : World ι) (auth : AuthContext)
    (aggregatedBoardId : String) (args : SubscribeAggregatedBoardArgs ι) : Prop :=
  ∀ chunks, getAggregatedBoard codec w (some auth) aggregatedBoardId = .ok chunks →
    ∀ id, id ∈ args.sourceBoardIds ↔ codec.toString id ∈ chunks.flatMap Chunk.boardIds

section Opening

variable {codec : IdCodec ι} {w : World ι} {config : StreamConfig} {auth : AuthContext}
  {aggregatedBoardId : String} {args : SubscribeAggregatedBoardArgs ι} {chunks : List Chunk}

omit [DecidableEq ι] in
theorem World.MayRead.shows {tenantId : String} (htenant : auth.tenantId = some tenantId) {id : ι}
    (h : w.MayRead codec auth id) : w.Shows codec tenantId (w.viewable auth) id := by
  obtain ⟨b, hb, hid, hown, hvis | hpriv⟩ := h
  · exact ⟨b, hb, hid, .inl ⟨Option.some.inj (hown.symm.trans htenant), hvis⟩⟩
  · exact ⟨b, hb, hid, .inr hpriv⟩

/-- **The two read paths agree exactly when every attached board passes the test.** -/
theorem sameSources_iff
    (hopen : subscribeAggregatedBoard codec w config (some auth) aggregatedBoardId = .ok args)
    (hget : getAggregatedBoard codec w (some auth) aggregatedBoardId = .ok chunks) :
    w.SameSources codec auth aggregatedBoardId args ↔
      ∀ id ∈ args.sourceBoardIds, ∃ tenantId, auth.tenantId = some tenantId ∧
        w.Shows codec tenantId (w.viewable auth) id := by
  obtain ⟨tenantId, id, row, hauth, htenant, hid, hrow, hargs⟩ := subscribeAggregatedBoard_ok hopen
  obtain ⟨subject, tenantId', id', row', objects, hsubject, htenant', hid', hrow', hobjects,
    hchunks⟩ := getAggregatedBoard_ok hget
  obtain rfl := Option.some.inj hauth
  obtain rfl := Option.some.inj (htenant.symm.trans htenant')
  obtain rfl := Option.some.inj (hid.symm.trans hid')
  obtain rfl := Option.some.inj (hrow.symm.trans hrow')
  have hviewable : w.viewable args.auth = objects := by
    have hsubject : args.auth.subject = some subject := hsubject
    simp [World.viewable, hsubject, hobjects]
  have hmem : ∀ x, codec.toString x ∈ chunks.flatMap Chunk.boardIds ↔
      x ∈ args.sourceBoardIds ∧ w.Shows codec tenantId objects x := by
    intro x
    rw [hchunks, mem_aggregateChunks, fetchAggregate_id hrow, hargs]
    constructor
    · intro ⟨y, hy, heq⟩
      rw [← codec.toString_injective heq]
      exact mem_allowedSourceIds.mp hy
    · intro hx
      exact ⟨x, mem_allowedSourceIds.mpr hx, rfl⟩
  rw [hviewable]
  constructor
  · intro hsame x hx
    exact ⟨tenantId, htenant, ((hmem x).mp ((hsame chunks hget x).mp hx)).2⟩
  · intro hall chunks' hget' x
    obtain rfl := Except.ok.inj (hget.symm.trans hget')
    rw [hmem]
    refine ⟨fun hx => ⟨hx, ?_⟩, fun hx => hx.1⟩
    obtain ⟨t, ht, hshows⟩ := hall x hx
    rwa [Option.some.inj (htenant.symm.trans ht)]

/-- Where the caller may read every attached board, the read paths agree. -/
theorem sameSources_of_mayRead
    (hopen : subscribeAggregatedBoard codec w config (some auth) aggregatedBoardId = .ok args)
    (hall : ∀ id ∈ args.sourceBoardIds, w.MayRead codec auth id) :
    w.SameSources codec auth aggregatedBoardId args := by
  intro chunks hget
  refine (sameSources_iff hopen hget).mpr (fun id hid => ?_) chunks hget
  obtain ⟨tenantId, -, -, hauth, htenant, -⟩ := subscribeAggregatedBoard_ok hopen
  obtain rfl := Option.some.inj hauth
  exact ⟨tenantId, htenant, (hall id hid).shows htenant⟩

end Opening

/-! ## Sessions -/

omit [DecidableEq ι] in
/-- The source board that an event comes from. -/
def Origin.boardId : Origin ι → Option ι
  | .aggregate => none
  | .source boardId => some boardId

/-- The stream of a session, with the world it was opened in. -/
structure OpenStream (ι : Type) where
  openedIn : World ι
  aggregatedBoardId : String
  args : SubscribeAggregatedBoardArgs ι
  stream : AggregatedStream ι

/-- A session of one caller.  `shown` are the source boards whose events the stream has yielded,
each with the world of that moment. -/
structure Session (ι : Type) where
  world : World ι
  opened : Option (OpenStream ι)
  shown : List (World ι × ι)

inductive Act (ι : Type)
  | change (c : Change ι)
  | subscribe (aggregatedBoardId : String)
  | stream (a : AggregatedStream.Input ι)

namespace Session

/-- The source boards of the events that one step of the stream yields. -/
def newlyShown (before after : AggregatedStream ι) : List ι :=
  (after.emitted.drop before.emitted.length).filterMap (·.1.boardId)

def start (w : World ι) : Session ι := ⟨w, none, []⟩

variable (codec : IdCodec ι) (config : StreamConfig) (auth : AuthContext)

def step (s : Session ι) : Act ι → Option (Session ι)
  | .change c => some { s with world := s.world.change codec c }
  | .subscribe aggregatedBoardId =>
      match s.opened with
      | some _ => none
      | none =>
          match subscribeAggregatedBoard codec s.world config (some auth) aggregatedBoardId with
          | .ok args =>
              some { s with opened := some ⟨s.world, aggregatedBoardId, args, .start args⟩ }
          | .error _ => some s
  | .stream a =>
      match s.opened with
      | some o =>
          (o.stream.step o.args a).map fun stream => { s with
            opened := some { o with stream := stream }
            shown := s.shown ++ (newlyShown o.stream stream).map (s.world, ·) }
      | none => none

/-- Every source board whose events were yielded could be read by the caller at that moment. -/
def Confined (s : Session ι) : Prop := ∀ x ∈ s.shown, x.1.MayRead codec auth x.2

/-- The stream was opened on the source boards that the unary read discloses. -/
def SameSources (s : Session ι) : Prop :=
  ∀ o, s.opened = some o → o.openedIn.SameSources codec auth o.aggregatedBoardId o.args

/-- The condition on a step: the stream is opened only where the caller may read every attached
source board, and no change takes one of its source boards from the caller. -/
def Visible (s : Session ι) : Act ι → Prop
  | .change c => ∀ o, s.opened = some o → ∀ id ∈ o.args.sourceBoardIds,
      (s.world.change codec c).MayRead codec auth id
  | .subscribe aggregatedBoardId => ∀ args,
      subscribeAggregatedBoard codec s.world config (some auth) aggregatedBoardId = .ok args →
        ∀ id ∈ args.sourceBoardIds, s.world.MayRead codec auth id
  | .stream _ => True

variable {codec config auth}

/-- What one step does, case by case. -/
inductive Step (codec : IdCodec ι) (config : StreamConfig) (auth : AuthContext) (s : Session ι) :
    Act ι → Session ι → Prop
  | change {c} : Step codec config auth s (.change c) { s with world := s.world.change codec c }
  | opened {aggregatedBoardId args} : s.opened = none →
      subscribeAggregatedBoard codec s.world config (some auth) aggregatedBoardId = .ok args →
      Step codec config auth s (.subscribe aggregatedBoardId)
        { s with opened := some ⟨s.world, aggregatedBoardId, args, .start args⟩ }
  | refused {aggregatedBoardId} : Step codec config auth s (.subscribe aggregatedBoardId) s
  | stream {a o stream} : s.opened = some o → o.stream.step o.args a = some stream →
      Step codec config auth s (.stream a) { s with
        opened := some { o with stream := stream }
        shown := s.shown ++ (newlyShown o.stream stream).map (s.world, ·) }

theorem step_cases {s t : Session ι} {a : Act ι} (hstep : s.step codec config auth a = some t) :
    Step codec config auth s a t := by
  cases a with
  | change c => obtain rfl := Option.some.inj hstep; exact .change
  | subscribe aggregatedBoardId =>
      simp only [step] at hstep
      split at hstep
      · cases hstep
      · split at hstep <;> obtain rfl := Option.some.inj hstep
        · exact .opened ‹_› ‹_›
        · exact .refused
  | stream a =>
      simp only [step] at hstep
      split at hstep
      · obtain ⟨stream, hstream, rfl⟩ := Option.map_eq_some_iff.mp hstep
        exact .stream ‹_› hstream
      · cases hstep

/-- What holds along a run whose steps are all visible. -/
structure Inv (codec : IdCodec ι) (auth : AuthContext) (s : Session ι) : Prop where
  confined : s.Confined codec auth
  same : s.SameSources codec auth
  readable : ∀ o, s.opened = some o → ∀ id ∈ o.args.sourceBoardIds,
    s.world.MayRead codec auth id
  sourced : ∀ o, s.opened = some o → o.stream.Sourced o.args

omit [DecidableEq ι] in
/-- What a step of the stream shows comes from its source boards. -/
theorem mem_newlyShown {args : SubscribeAggregatedBoardArgs ι} {before after : AggregatedStream ι}
    {id : ι} (hsourced : before.Sourced args)
    (h : after.emitted = before.emitted ∨
      ∃ event ∈ before.queue, after.emitted = before.emitted ++ [event])
    (hid : id ∈ newlyShown before after) : id ∈ args.sourceBoardIds := by
  rcases h with h | ⟨event, hevent, h⟩
  · simp [newlyShown, h] at hid
  · simp only [newlyShown, h, List.drop_left, List.filterMap_cons, List.filterMap_nil] at hid
    have horigin := hsourced.queue event hevent
    cases hcase : event.1 with
    | aggregate => simp [hcase, Origin.boardId] at hid
    | source boardId =>
        simp only [hcase, Origin.boardId, List.mem_singleton] at hid
        simpa [hcase, AggregatedStream.origins, hid] using horigin

theorem inv_start (w : World ι) : (start w).Inv codec auth := by
  constructor <;> simp [start, Confined, SameSources]

/-- **One visible step.** -/
theorem Inv.step {s t : Session ι} {a : Act ι} (hs : s.Inv codec auth)
    (hvisible : s.Visible codec config auth a) (hstep : s.step codec config auth a = some t) :
    t.Inv codec auth := by
  obtain ⟨hconfined, hsame, hreadable, hsourced⟩ := hs
  cases step_cases hstep with
  | change => exact ⟨hconfined, hsame, hvisible, hsourced⟩
  | refused => exact ⟨hconfined, hsame, hreadable, hsourced⟩
  | @opened aggregatedBoardId args hnone hopen =>
      have hall := hvisible args hopen
      refine ⟨hconfined, ?_, ?_, ?_⟩
      · intro o ho
        obtain rfl := Option.some.inj ho
        exact sameSources_of_mayRead hopen hall
      · intro o ho
        obtain rfl := Option.some.inj ho
        exact hall
      · intro o ho
        obtain rfl := Option.some.inj ho
        exact AggregatedStream.sourced_start
  | @stream a o stream ho hstream =>
      refine ⟨fun x hx => ?_, ?_, ?_, ?_⟩
      · rcases List.mem_append.mp hx with hx | hx
        · exact hconfined x hx
        · obtain ⟨id, hid, rfl⟩ := List.mem_map.mp hx
          exact hreadable o ho id
            (mem_newlyShown (hsourced o ho) (AggregatedStream.emitted_step hstream) hid)
      · intro o' ho'
        obtain rfl := Option.some.inj ho'
        exact hsame o ho
      · intro o' ho'
        obtain rfl := Option.some.inj ho'
        exact hreadable o ho
      · intro o' ho'
        obtain rfl := Option.some.inj ho'
        exact (hsourced o ho).step hstream

/-- **What the aggregated stream discloses.**  In every run of the handlers, the grants and the
stream whose steps are all visible, the stream shows only source boards that the caller may read
at that moment by the test of the unary read, and it was opened on the very source boards that
the unary read discloses. -/
theorem confined_of_visible {w : World ι} {tr : List (Act ι)} {s : Session ι}
    (h : ExecWhile (step codec config auth) (Visible codec config auth) (start w) tr s) :
    s.Confined codec auth ∧ s.SameSources codec auth := by
  have hinv := h.invariant (Inv codec auth) (inv_start w) fun _ _ _ ht hc hst => ht.step hc hst
  exact ⟨hinv.confined, hinv.same⟩

/-- Along any run the stream merges what its forwarders send. -/
theorem mergeInv_of_exec {w : World ι} {tr : List (Act ι)} {s : Session ι}
    (h : Exec (step codec config auth) (start w) tr s) :
    ∀ o, s.opened = some o → o.stream.MergeInv := by
  refine h.invariant (fun s => ∀ o, s.opened = some o → o.stream.MergeInv)
    (fun o ho => by simp [start] at ho) fun s a t hs hstep => ?_
  cases step_cases hstep with
  | change | refused => exact hs
  | opened =>
      intro o ho
      obtain rfl := Option.some.inj ho
      exact AggregatedStream.mergeInv_start
  | @stream a o stream ho hstream =>
      intro o' ho'
      obtain rfl := Option.some.inj ho'
      exact (hs o ho).step hstream

/-- **A hidden source board leaks.**  While the stream waits for an envelope and forwards a source
board that the caller may not read, the next fresh event of that board is shown. -/
theorem leak_of_hidden {w : World ι} {tr : List (Act ι)} {s : Session ι}
    (h : Exec (step codec config auth) (start w) tr s) {o : OpenStream ι}
    (ho : s.opened = some o) (hloc : o.stream.loc = .select) (hqueue : o.stream.queue = []) {id : ι}
    (hforward : .source id ∈ o.stream.forwarders) (hidden : ¬ s.world.MayRead codec auth id)
    {e : BoardEventEnvelope String} (hpos : 0 < e.natsSeq)
    (hfresh : AggregatedStream.Fresh o.stream.taken (.source id, e))
    (hlast : ∀ x ∈ o.stream.emitted, x.2.natsSeq < e.natsSeq) :
    ∃ t, run (step codec config auth) s
        [.stream (.forward (.source id, e)), .stream .recv] = some t ∧ ¬ t.Confined codec auth := by
  have hemit : (o.stream.tracker.observeLive e.eventId e.natsSeq).1 = .emit := by
    rcases mergeInv_of_exec h o ho with hidle | ⟨-, hmerged⟩
    · simp [hidle.forwarders] at hforward
    · have hiff := hmerged.emit_iff hfresh
      exact hiff.mpr (peak_lt_iff.mpr ⟨hpos, hlast⟩)
  obtain ⟨stream, stream', hstep, hsame, hstep', hshown⟩ :=
    AggregatedStream.forward_recv o.args (.source id, e) hloc hqueue hforward hemit
  refine ⟨{ s with
    opened := some { o with stream := stream' }
    shown := s.shown ++ [(s.world, id)] }, ?_, fun hconfined => ?_⟩
  · simp [run, step, ho, hstep, hstep', newlyShown, hsame, hshown, Origin.boardId]
  · exact hidden (hconfined (s.world, id) (by simp))

/-- An aggregate with no sources yet, and a board of the given visibility. -/
def teamWorld (visibility : String) : World String where
  boards := ⟨[⟨"b", "t", "p", "roadmap", none, visibility, 0⟩], by simp⟩
  aggregates := [⟨"a", "t", "all boards", none, none, visPublic⟩]
  sources := []
  cards := []
  permissions := ⟨fun _ => some false, fun _ _ _ => some []⟩

/-- The same with the board attached to the aggregate. -/
def attachedWorld (visibility : String) : World String :=
  { teamWorld visibility with sources := [⟨"a", "t", "b", 0, 0⟩] }

/-- A caller of the tenant, without any grant. -/
def teamCaller : AuthContext := ⟨some "t", some "u"⟩

/-- Another member of the tenant attaches the board. -/
def attachBoard : Change String :=
  .addSourceBoard (some ⟨some "t", some "v"⟩) (some "a") "b" 0 0

theorem change_attachBoard (visibility : String) :
    (teamWorld visibility).change BoardStream.plainIds attachBoard = attachedWorld visibility := by
  simp [World.change, attachBoard, addSourceBoard, sourceRequest, tenantIdFromRequest,
    checkedObjectId, parseId, BoardStream.plainIds, bind, Except.bind, teamWorld, attachedWorld,
    World.transact, World.upsertSource, World.insertSource, World.normaliseSources,
    World.fetchSourceBoardIds, World.sourceRows, World.bumpAggregate]

/-- The arguments of the caller's stream. -/
def teamArgs : SubscribeAggregatedBoardArgs String where
  auth := teamCaller
  aggregatedBoardId := "a"
  sourceBoardIds := ["b"]
  isPrivate := false
  permissionRecheckInterval := 30
  cutoverSeenCapacity := 1024

theorem subscribe_attachedWorld (visibility : String) :
    subscribeAggregatedBoard BoardStream.plainIds (attachedWorld visibility) ⟨30, 1024⟩
      (some teamCaller) "a" = .ok teamArgs := by
  simp [subscribeAggregatedBoard, callerTenant, teamCaller, BoardStream.plainIds, bind, Except.bind,
    World.fetchAggregate, attachedWorld, teamWorld, World.fetchSourceBoardIds, World.sourceRows,
    teamArgs, isPublicOrInternal, visPublic]

/-- The board is attached, the caller subscribes, and an event of the board comes in. -/
def attachAndSubscribe : List (Act String) :=
  [.change attachBoard, .subscribe "a"] ++
    ([.cutover, .subscribed, .subscribed, .spawn, .enter 0,
      .forward (.source "b", ⟨some "b", "e", 1, 1, "system", "CardCreated", .object []⟩),
      .pass 1, .recv] : List (AggregatedStream.Input String)).map .stream

theorem run_attachAndSubscribe (visibility : String)
    {C : Session String → Act String → Prop}
    (hchange : C (start (teamWorld visibility)) (.change attachBoard))
    (hsubscribe : C (start (attachedWorld visibility)) (.subscribe "a"))
    (hstream : ∀ s a, C s (.stream a)) :
    ∃ s, ExecWhile (step BoardStream.plainIds ⟨30, 1024⟩ teamCaller) C
        (start (teamWorld visibility)) attachAndSubscribe s ∧
      s.shown = [(attachedWorld visibility, "b")] := by
  have h1 : step BoardStream.plainIds ⟨30, 1024⟩ teamCaller (start (teamWorld visibility))
      (.change attachBoard) = some (start (attachedWorld visibility)) := by
    simp [step, start, change_attachBoard]
  have h2 : step BoardStream.plainIds ⟨30, 1024⟩ teamCaller (start (attachedWorld visibility))
      (.subscribe "a") = some ⟨attachedWorld visibility,
        some ⟨attachedWorld visibility, "a", teamArgs, .start teamArgs⟩, []⟩ := by
    simp [step, start, subscribe_attachedWorld]
  refine ⟨_, .cons hchange h1 <| .cons hsubscribe h2 <| .cons (hstream _ _) rfl <|
    .cons (hstream _ _) rfl <| .cons (hstream _ _) rfl <| .cons (hstream _ _) rfl <|
    .cons (hstream _ _) rfl <| .cons (hstream _ _) rfl <| .cons (hstream _ _) rfl <|
    .cons (hstream _ _) rfl .nil, rfl⟩

theorem mayRead_public : (attachedWorld visPublic).MayRead BoardStream.plainIds teamCaller "b" :=
  ⟨_, List.mem_singleton.mpr rfl, rfl, rfl, .inl rfl⟩

theorem confined_of_visible_attached :
    ∃ s, Exec (step BoardStream.plainIds ⟨30, 1024⟩ teamCaller)
        (start (teamWorld visPublic)) attachAndSubscribe s ∧
      s.shown = [(attachedWorld visPublic, "b")] ∧
      s.Confined BoardStream.plainIds teamCaller ∧ s.SameSources BoardStream.plainIds teamCaller := by
  obtain ⟨s, hrun, hshown⟩ := run_attachAndSubscribe visPublic
    (C := Visible BoardStream.plainIds ⟨30, 1024⟩ teamCaller)
    (fun o ho => by simp [start] at ho)
    (fun args hargs id hid => by
      obtain rfl := Except.ok.inj ((subscribe_attachedWorld visPublic).symm.trans hargs)
      obtain rfl := List.mem_singleton.mp hid
      exact mayRead_public)
    (fun _ _ => trivial)
  exact ⟨s, hrun.exec, hshown, confined_of_visible hrun⟩

/-- **The claim as stated fails**: a member attaches a private board to a public aggregate, and a
caller without any grant subscribes to the aggregate and is shown the board's event. -/
theorem not_confined_privateSource :
    ¬ ∀ (w : World String) (tr : List (Act String)) (s : Session String),
      Exec (step BoardStream.plainIds ⟨30, 1024⟩ teamCaller) (start w) tr s →
      s.Confined BoardStream.plainIds teamCaller ∧ s.SameSources BoardStream.plainIds teamCaller := by
  intro hall
  obtain ⟨s, hrun, hshown⟩ := run_attachAndSubscribe visPrivate (C := fun _ _ => True)
    trivial trivial fun _ _ => trivial
  obtain ⟨b, hb, -, -, hvis | hgrant⟩ := (hall _ _ s hrun).1 (attachedWorld visPrivate, "b") (by rw [hshown]; simp)
  · obtain rfl := List.mem_singleton.mp hb
    simp [isPublicOrInternal, visPrivate, visPublic, visInternal] at hvis
  · simp [World.viewable, attachedWorld, teamWorld, Permissions.expandObjects, teamCaller,
      Option.filter] at hgrant

end Session

end Kanban.Services
