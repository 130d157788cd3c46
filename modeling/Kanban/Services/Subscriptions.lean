import Kanban.Services.BoardStream

/-!
# Opening board streams

The two handlers that open board streams: `subscribe_board` (`services/boards.rs`) for the
board of the request, and `subscribe_project` (`services/projects.rs`) for every board of the
project.  The dispatch matrix asks nothing but authentication of `SubscribeBoard`, and nothing
about the single boards of `SubscribeProject`, so what keeps a private board's events from a
caller is the stream alone.

## Main definitions

* `subscribeBoard`, `subscribeProject` — the arguments of the streams that a request opens.
* `Opens` — a request opens a stream with these arguments.
* `BoardStream.authorized_iff_checked_of_opens` — when the stream of a private board keeps to
  the view relation.
-/

namespace Kanban.Services

open Machine Kanban.Realtime

variable {ι : Type*} [DecidableEq ι]

/-- The settings of the service that its streams use. -/
structure StreamConfig where
  permissionRecheckInterval : ℕ
  cutoverSeenCapacity : ℕ

structure SubscribeBoardRequest where
  boardId : String
  sinceSeq : ℕ

/-- What the calls of a handler return: the table read and the tenant's permission client. -/
structure Backends (ι : Type*) where
  /-- `none` when the query fails. -/
  boards : Option (Boards ι)
  /-- `false` when the client cannot be built. -/
  tenantClient : Bool

section Handlers

variable (codec : IdCodec ι) (config : StreamConfig) (backends : Backends ι)

/-- The authenticated caller and the tenant. -/
def callerTenant (auth : Option AuthContext) : Except ConnectError (AuthContext × String) :=
  match auth with
  | none => .error ⟨.unauthenticated, "missing auth context"⟩
  | some auth =>
      match auth.tenantId with
      | none => .error ⟨.unauthenticated, "missing tenant context"⟩
      | some tenant => .ok (auth, tenant)

/-- `build_subscribe_board_stream` is called with the visibility that the handler has read. -/
def streamArgs (auth : AuthContext) (tenant boardId visibility : String) (sinceSeq : ℕ) :
    SubscribeBoardArgs where
  auth := auth
  boardId := boardId
  isPrivate := !isPublicOrInternal visibility
  permissionRecheckInterval := config.permissionRecheckInterval
  tenantId := tenant
  sinceSeq := sinceSeq
  cutoverSeenCapacity := config.cutoverSeenCapacity

/-- `subscribe_board`. -/
def subscribeBoard (auth : Option AuthContext) (req : SubscribeBoardRequest) :
    Except ConnectError SubscribeBoardArgs := do
  let (auth, tenant) ← callerTenant auth
  let some boardId := codec.parse req.boardId
    | .error ⟨.invalidArgument, "invalid board_id"⟩
  let some boards := backends.boards
    | .error ⟨.internal, "failed to fetch board visibility"⟩
  let some row := boards.fetch tenant boardId
    | .error ⟨.notFound, "board not found"⟩
  if backends.tenantClient then
    .ok (streamArgs config auth tenant req.boardId row.visibility req.sinceSeq)
  else .error ⟨.internal, "failed to build tenant permission client"⟩

/-- `subscribe_project`, as far as its board streams go: one for each board of the project,
every one with a full snapshot. -/
def subscribeProject (auth : Option AuthContext) (projectId : String) :
    Except ConnectError (List SubscribeBoardArgs) := do
  let (auth, tenant) ← callerTenant auth
  let some projectId := codec.parse projectId
    | .error ⟨.invalidArgument, "invalid project_id"⟩
  if backends.tenantClient then
    let some boards := backends.boards
      | .error ⟨.internal, "failed to list project boards"⟩
    .ok ((boards.ofProject tenant projectId).map fun row =>
      streamArgs config auth tenant (codec.toString row.id) row.visibility 0)
  else .error ⟨.internal, "failed to build tenant permission client"⟩

end Handlers

/-- A request of `auth` opens a board stream with these arguments when it reads `boards`. -/
inductive Opens (codec : IdCodec ι) (config : StreamConfig) (boards : Boards ι)
    (auth : Option AuthContext) (args : SubscribeBoardArgs) : Prop
  | subscribeBoard (req : SubscribeBoardRequest)
      (h : subscribeBoard codec config ⟨some boards, true⟩ auth req = .ok args)
  | subscribeProject (projectId : String) (children : List SubscribeBoardArgs)
      (h : subscribeProject codec config ⟨some boards, true⟩ auth projectId = .ok children)
      (hargs : args ∈ children)

variable {codec : IdCodec ι} {config : StreamConfig} {boards : Boards ι}
  {auth : Option AuthContext} {args : SubscribeBoardArgs}

omit [DecidableEq ι] in
theorem callerTenant_ok {a : AuthContext} {tenant : String}
    (h : callerTenant auth = .ok (a, tenant)) : auth = some a ∧ a.tenantId = some tenant := by
  unfold callerTenant at h
  split at h
  · cases h
  · split at h
    · cases h
    · cases h
      exact ⟨rfl, ‹_›⟩

theorem subscribeBoard_ok {backends : Backends ι} {req : SubscribeBoardRequest}
    (h : subscribeBoard codec config backends auth req = .ok args) :
    ∃ a tenant id boards row, callerTenant auth = .ok (a, tenant) ∧
      codec.parse req.boardId = some id ∧ backends.boards = some boards ∧
      boards.fetch tenant id = some row ∧
      args = streamArgs config a tenant req.boardId row.visibility req.sinceSeq := by
  unfold subscribeBoard at h
  cases hcaller : callerTenant auth with
  | error e => simp [hcaller, bind, Except.bind] at h
  | ok caller =>
      simp only [hcaller, bind, Except.bind] at h
      split at h <;> try cases h
      split at h <;> try cases h
      split at h <;> try cases h
      split at h <;> cases h
      exact ⟨_, _, _, _, _, rfl, ‹_›, ‹_›, ‹_›, rfl⟩

theorem subscribeProject_ok {backends : Backends ι} {projectId : String}
    {children : List SubscribeBoardArgs}
    (h : subscribeProject codec config backends auth projectId = .ok children) :
    ∃ a tenant id boards, callerTenant auth = .ok (a, tenant) ∧
      codec.parse projectId = some id ∧ backends.boards = some boards ∧
      children = (boards.ofProject tenant id).map fun row =>
        streamArgs config a tenant (codec.toString row.id) row.visibility 0 := by
  unfold subscribeProject at h
  cases hcaller : callerTenant auth with
  | error e => simp [hcaller, bind, Except.bind] at h
  | ok caller =>
      simp only [hcaller, bind, Except.bind] at h
      split at h <;> try cases h
      split at h <;> try cases h
      split at h <;> cases h
      exact ⟨_, _, _, _, rfl, ‹_›, ‹_›, rfl⟩

/-- An opened stream belongs to a board of the caller's tenant, and knows whether that board is
private. -/
theorem Opens.board (h : Opens codec config boards auth args) :
    ∃ row ∈ boards.rows, codec.parse args.boardId = some row.id ∧ row.tenantId = args.tenantId ∧
      args.isPrivate = !isPublicOrInternal row.visibility ∧ auth = some args.auth ∧
      args.auth.tenantId = some args.tenantId := by
  cases h with
  | subscribeBoard req h =>
      obtain ⟨a, tenant, id, boards', row, hcaller, hid, hboards, hrow, rfl⟩ := subscribeBoard_ok h
      obtain rfl := Option.some.inj hboards
      obtain ⟨hmem, htenant, rfl⟩ := Boards.fetch_some hrow
      exact ⟨row, hmem, hid, htenant, rfl, callerTenant_ok hcaller⟩
  | subscribeProject projectId children h hargs =>
      obtain ⟨a, tenant, id, boards', hcaller, -, hboards, rfl⟩ := subscribeProject_ok h
      obtain rfl := Option.some.inj hboards
      obtain ⟨row, hrow, rfl⟩ := List.mem_map.mp hargs
      obtain ⟨hmem, htenant, -⟩ := Boards.mem_ofProject.mp hrow
      exact ⟨row, hmem, codec.parse_toString row.id, htenant, rfl, callerTenant_ok hcaller⟩

/-- The stream of a private board rechecks the permission. -/
theorem Opens.isPrivate (h : Opens codec config boards auth args) {row : BoardRow ι}
    (hrow : row ∈ boards.rows) (hid : codec.parse args.boardId = some row.id)
    (hvis : isPublicOrInternal row.visibility = false) : args.isPrivate = true := by
  obtain ⟨row', hrow', hid', -, hpriv, -⟩ := h.board
  obtain rfl : row = row' := Boards.row_unique hrow hrow' (Option.some.inj (hid.symm.trans hid'))
  simp [hpriv, hvis]

namespace BoardStream

/-- **Who sees a private board.**  Whatever the backend answers and however the calls of the
stream interleave, the stream that a request opens for a private board yields its columns, cards
and events only after a grant of the view relation exactly when every step is checked: no row of
a snapshot passes the tracker, and no live envelope passes it in a pass that begins before the
recheck interval is over. -/
theorem authorized_iff_checked_of_opens (hopen : Opens codec config boards auth args)
    {row : BoardRow ι} (hrow : row ∈ boards.rows) (hid : codec.parse args.boardId = some row.id)
    (hvis : isPublicOrInternal row.visibility = false) {tr : List Input} {s : BoardStream}
    (h : Exec (step args) (start args) tr s) :
    s.Authorized args ↔ ExecWhile (step args) (Checked args) (start args) tr s :=
  authorized_iff_checked (hopen.isPrivate hrow hid hvis) h

/-- The ids of the examples are their own texts. -/
def plainIds : IdCodec String where
  parse := some
  toString := id
  parse_toString _ := rfl

/-- One private board. -/
def privateBoards : Boards String where
  rows := [⟨"b", "t", "p", "roadmap", none, visPrivate, 0⟩]
  key := by simp

/-- A caller of the board's tenant. -/
def caller : AuthContext := ⟨some "t", some "u"⟩

/-- The arguments of a stream for the private board, with a recheck after 30 ticks. -/
def privateArgs (sinceSeq : ℕ) : SubscribeBoardArgs :=
  streamArgs ⟨30, 1024⟩ caller "t" "b" visPrivate sinceSeq

theorem opens_privateArgs (sinceSeq : ℕ) :
    Opens plainIds ⟨30, 1024⟩ privateBoards (some caller) (privateArgs sinceSeq) :=
  .subscribeBoard ⟨"b", sinceSeq⟩ (by
    simp [subscribeBoard, callerTenant, plainIds, Boards.fetch, privateBoards, caller,
      privateArgs, bind, Except.bind])

/-- The live event of the examples. -/
def liveEvent : BoardEventEnvelope String :=
  ⟨some "b", "e", 6, 1, "system", "CardCreated", .object []⟩

/-- A resumed stream that asks for the permission in its first pass. -/
theorem checked_resumed :
    ∃ s, ExecWhile (step (privateArgs 5)) (Checked (privateArgs 5)) (start (privateArgs 5))
        [.subscribed, .cutover, .enter 0, .pass 30, .answer true 31, .recv liveEvent] s ∧
      s.trace = [.yielded (.cutover 5), .answered (recheckQuery (privateArgs 5)) true,
        .yielded (.live liveEvent)] := by
  refine ⟨_, .cons trivial rfl <| .cons trivial rfl <| .cons trivial rfl <| .cons trivial rfl <|
    .cons trivial rfl <| .cons ?_ rfl .nil, rfl⟩
  intro _
  change 0 + 30 ≤ 30
  decide

theorem authorized_iff_checked_of_opens_resumed :
    ∃ s, Exec (step (privateArgs 5)) (start (privateArgs 5))
        [.subscribed, .cutover, .enter 0, .pass 30, .answer true 31, .recv liveEvent] s ∧
      s.Authorized (privateArgs 5) ∧
      s.trace = [.yielded (.cutover 5), .answered (recheckQuery (privateArgs 5)) true,
        .yielded (.live liveEvent)] := by
  obtain ⟨s, hrun, htrace⟩ := checked_resumed
  have hiff := authorized_iff_checked_of_opens (opens_privateArgs 5)
    (List.mem_singleton.mpr rfl) rfl rfl hrun.exec
  exact ⟨s, hrun.exec, hiff.mpr hrun, htrace⟩

/-- The column of the private board. -/
def secretColumn : Column := ⟨"c", 0, .str "secret"⟩

/-- **The claim as stated fails**: a caller whom the backend has never granted the view of a
private board opens its stream and is sent its first column. -/
theorem not_authorized_snapshot :
    ¬ ∀ (boards : Boards String) (auth : Option AuthContext) (args : SubscribeBoardArgs)
        (row : BoardRow String) (tr : List Input) (s : BoardStream),
      Opens plainIds ⟨30, 1024⟩ boards auth args → row ∈ boards.rows →
      plainIds.parse args.boardId = some row.id → isPublicOrInternal row.visibility = false →
      Exec (step args) (start args) tr s → s.Authorized args := by
  intro hall
  have hrun : run (step (privateArgs 0)) (start (privateArgs 0))
      [.subscribed, .snapshotRead [secretColumn] [] 0, .replay "e"] = some
        { start (privateArgs 0) with
          loc := .replay [] 0
          tracker := (CutoverTracker.withCapacity 1024).observeReplay "e" |>.2
          trace := [.yielded (.snapshot (snapshotEnvelope "b" "e" ("ColumnAdded",
            .object [("column", .str "secret"), ("position", .num 0)])))] } := rfl
  have h := hall privateBoards (some caller) (privateArgs 0) _ _ _ (opens_privateArgs 0)
    (List.mem_singleton.mpr rfl) rfl rfl (exec_of_run hrun)
  simpa using h [] _ [] rfl _ rfl rfl

end BoardStream

end Kanban.Services
