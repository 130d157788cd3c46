import Kanban.Lib.Exec
import Kanban.Lib.History
import Kanban.Realtime.Cutover
import Kanban.Realtime.JetStream
import Kanban.Services.Common

/-!
# The board stream

`services/boards.rs`, `build_subscribe_board_stream`: subscribe to the registry, replay a
snapshot or cut over at the resume token, then tail live events with heartbeats.  A private
board is rechecked against the permission backend at the head of a pass once
`permission_recheck_interval` has gone by since the last recheck.

The stream is a machine: each label is one await that returns (with its outcome), one
yield, or one reading of the clock.

## Main definitions

* `SubscribeBoardArgs` — the arguments of the stream.
* `BoardStream`, `BoardStream.step` — the stream and what it does on each outcome.
* `BoardStream.Authorized` — board data is yielded only after a grant.
* `BoardStream.Checked` — the condition under which a step keeps to that.
-/

namespace Kanban.Services

open Machine History Kanban.Realtime

/-- Arguments of `build_subscribe_board_stream`. -/
structure SubscribeBoardArgs where
  auth : AuthContext
  boardId : String
  isPrivate : Bool
  permissionRecheckInterval : ℕ
  tenantId : String
  sinceSeq : ℕ
  cutoverSeenCapacity : ℕ
  deriving DecidableEq, Repr

/-- A column of the snapshot. -/
structure Column where
  id : String
  position : ℤ
  proto : Value

/-- A card of the snapshot, with the column it is read under. -/
structure Card where
  id : String
  columnId : String
  position : ℤ
  proto : Value

/-- What the stream yields. -/
inductive Item
  /-- A replay envelope of the snapshot. -/
  | snapshot (e : BoardEventEnvelope String)
  | cutover (lastReplayNatsSeq : ℕ)
  | live (e : BoardEventEnvelope String)
  | heartbeat
  | error (e : ConnectError)

/-- The item shows columns, cards or events of the board. -/
def Item.isBoardData : Item → Bool
  | .snapshot _ | .live _ => true
  | _ => false

/-- The synthetic replay events of a snapshot, columns first. -/
def snapshotPayloads (columns : List Column) (cards : List Card) : List (String × Value) :=
  columns.map (fun col =>
    ("ColumnAdded", .object [("column", col.proto), ("position", .num col.position)])) ++
  cards.map fun card =>
    ("CardCreated", .object [("column_id", .str card.columnId), ("position", .num card.position),
      ("card", card.proto)])

/-- `snapshot_envelope`: a synthetic envelope with a fresh event id. -/
def snapshotEnvelope (boardId eventId : String) (payload : String × Value) :
    BoardEventEnvelope String where
  boardId := some boardId
  eventId := eventId
  natsSeq := 0
  boardRevision := 0
  actorSubject := "system"
  eventType := payload.1
  payload := payload.2

/-- Where the stream stands. -/
inductive Loc
  /-- Awaiting the registry subscription. -/
  | subscribe
  /-- Reading the snapshot. -/
  | snapshot
  /-- Replaying what is left of the snapshot. -/
  | replay (pending : List (String × Value)) (lastReplay : ℕ)
  /-- About to yield the cutover. -/
  | cutover (seq : ℕ)
  /-- Before the first pass. -/
  | enter
  /-- At the head of a pass. -/
  | top
  /-- Awaiting the permission recheck. -/
  | recheck
  /-- Waiting for an envelope or a heartbeat. -/
  | select
  | closed

/-- The stream.  `clock` is the latest clock reading; `loopStart` and `topAt` keep the readings at
the entry of the loop and at the head of the current pass. -/
structure BoardStream where
  loc : Loc
  tracker : CutoverTracker String
  lastPermissionRecheck : ℕ
  clock : ℕ
  loopStart : ℕ
  topAt : ℕ
  trace : List (Obs Item)

inductive Input
  | subscribed
  | subscribeFails (message : String)
  | snapshotRead (columns : List Column) (cards : List Card) (lastReplay : ℕ)
  | snapshotFails (e : ConnectError)
  /-- Yield the next replay envelope, under a fresh event id, or go on to the cutover. -/
  | replay (eventId : String)
  | cutover
  | enter (now : ℕ)
  | pass (now : ℕ)
  | answer (granted : Bool) (now : ℕ)
  | answerFails
  | recv (e : BoardEventEnvelope String)
  | lagged
  | channelClosed
  | tick

namespace BoardStream

variable (args : SubscribeBoardArgs)

/-- The stream before its first poll. -/
def start : BoardStream where
  loc := .subscribe
  tracker := .withCapacity args.cutoverSeenCapacity
  lastPermissionRecheck := 0
  clock := 0
  loopStart := 0
  topAt := 0
  trace := []

def yield (s : BoardStream) (item : Item) : BoardStream :=
  { s with trace := s.trace ++ [.yielded item] }

/-- Yield an error and end. -/
def fail (s : BoardStream) (code : ErrorCode) (message : String) : BoardStream :=
  { s.yield (.error ⟨code, message⟩) with loc := .closed }

/-- The question of the permission recheck. -/
def recheckQuery : PermissionQuery := viewQuery args.auth "KanbanBoard" args.boardId

/-- The answer of the permission backend to the recheck. -/
def hear (s : BoardStream) (granted : Bool) : BoardStream :=
  { s with trace := s.trace ++ [.answered (recheckQuery args) granted] }

/-- Replay one snapshot payload through the tracker. -/
def replayOne (s : BoardStream) (eventId : String) (payload : String × Value) : BoardStream :=
  let s' := { s with tracker := (s.tracker.observeReplay eventId).2 }
  if (s.tracker.observeReplay eventId).1 = .emit then
    s'.yield (.snapshot (snapshotEnvelope args.boardId eventId payload))
  else s'

/-- Pass one live envelope through the tracker. -/
def observe (s : BoardStream) (e : BoardEventEnvelope String) : BoardStream :=
  let s' := { s with tracker := (s.tracker.observeLive e.eventId e.natsSeq).2 }
  if (s.tracker.observeLive e.eventId e.natsSeq).1 = .emit then s'.yield (.live e) else s'

def step (s : BoardStream) : Input → Option BoardStream
  | .subscribed =>
      match s.loc with
      | .subscribe =>
          if args.sinceSeq = 0 then some { s with loc := .snapshot }
          else some { s with loc := .cutover args.sinceSeq }
      | _ => none
  | .subscribeFails message =>
      match s.loc with
      | .subscribe => some (s.fail .internal ("subscribe: " ++ message))
      | _ => none
  | .snapshotRead columns cards lastReplay =>
      match s.loc with
      | .snapshot => some { s with loc := .replay (snapshotPayloads columns cards) lastReplay }
      | _ => none
  | .snapshotFails e =>
      match s.loc with
      | .snapshot => some (s.fail e.code e.message)
      | _ => none
  | .replay eventId =>
      match s.loc with
      | .replay [] lastReplay => some { s with loc := .cutover lastReplay }
      | .replay (payload :: pending) lastReplay =>
          some { s.replayOne args eventId payload with loc := .replay pending lastReplay }
      | _ => none
  | .cutover =>
      match s.loc with
      | .cutover seq =>
          some { s.yield (.cutover seq) with
            tracker := s.tracker.cutoverToLive seq
            loc := .enter }
      | _ => none
  | .enter now =>
      match s.loc with
      | .enter =>
          if s.clock ≤ now then
            some { s with
              loc := .top
              lastPermissionRecheck := now
              clock := now
              loopStart := now
              topAt := now }
          else none
      | _ => none
  | .pass now =>
      match s.loc with
      | .top =>
          if s.clock ≤ now then
            -- `revalidate_token` always succeeds
            if args.isPrivate ∧ args.permissionRecheckInterval ≤ now - s.lastPermissionRecheck then
              some { s with loc := .recheck, clock := now, topAt := now }
            else some { s with loc := .select, clock := now, topAt := now }
          else none
      | _ => none
  | .answer granted now =>
      match s.loc with
      | .recheck =>
          if s.clock ≤ now then
            if granted then
              some { s.hear args true with
                loc := .select
                clock := now
                lastPermissionRecheck := now }
            else some ((s.hear args false).fail .permissionDenied "permission revoked mid-stream")
          else none
      | _ => none
  | .answerFails =>
      match s.loc with
      | .recheck => some (s.fail .internal "authorization check failed")
      | _ => none
  | .recv e =>
      match s.loc with
      | .select => some { s.observe e with loc := .top }
      | _ => none
  | .lagged =>
      match s.loc with
      | .select => some (s.fail .resourceExhausted "stream lagged; reconnect with last seq")
      | _ => none
  | .channelClosed =>
      match s.loc with
      | .select => some { s with loc := .closed }
      | _ => none
  | .tick =>
      match s.loc with
      | .select => some { s.yield .heartbeat with loc := .top }
      | _ => none

/-- What one step does, case by case. -/
inductive Step (s : BoardStream) : Input → BoardStream → Prop
  | snapshot : s.loc = .subscribe → args.sinceSeq = 0 →
      Step s .subscribed { s with loc := .snapshot }
  | resume : s.loc = .subscribe → args.sinceSeq ≠ 0 →
      Step s .subscribed { s with loc := .cutover args.sinceSeq }
  | subscribeFails {message} : s.loc = .subscribe →
      Step s (.subscribeFails message) (s.fail .internal ("subscribe: " ++ message))
  | snapshotRead {columns cards lastReplay} : s.loc = .snapshot →
      Step s (.snapshotRead columns cards lastReplay)
        { s with loc := .replay (snapshotPayloads columns cards) lastReplay }
  | snapshotFails {e} : s.loc = .snapshot → Step s (.snapshotFails e) (s.fail e.code e.message)
  | replayDone {eventId lastReplay} : s.loc = .replay [] lastReplay →
      Step s (.replay eventId) { s with loc := .cutover lastReplay }
  | replay {eventId payload pending lastReplay} : s.loc = .replay (payload :: pending) lastReplay →
      Step s (.replay eventId)
        { s.replayOne args eventId payload with loc := .replay pending lastReplay }
  | cutover {seq} : s.loc = .cutover seq →
      Step s .cutover { s.yield (.cutover seq) with
        tracker := s.tracker.cutoverToLive seq
        loc := .enter }
  | enter {now} : s.loc = .enter → s.clock ≤ now →
      Step s (.enter now) { s with
        loc := .top
        lastPermissionRecheck := now
        clock := now
        loopStart := now
        topAt := now }
  | passRecheck {now} : s.loc = .top → s.clock ≤ now → args.isPrivate →
      args.permissionRecheckInterval ≤ now - s.lastPermissionRecheck →
      Step s (.pass now) { s with loc := .recheck, clock := now, topAt := now }
  | pass {now} : s.loc = .top → s.clock ≤ now →
      ¬ (args.isPrivate ∧ args.permissionRecheckInterval ≤ now - s.lastPermissionRecheck) →
      Step s (.pass now) { s with loc := .select, clock := now, topAt := now }
  | granted {now} : s.loc = .recheck → s.clock ≤ now →
      Step s (.answer true now) { s.hear args true with
        loc := .select
        clock := now
        lastPermissionRecheck := now }
  | denied {now} : s.loc = .recheck → s.clock ≤ now →
      Step s (.answer false now)
        ((s.hear args false).fail .permissionDenied "permission revoked mid-stream")
  | answerFails : s.loc = .recheck →
      Step s .answerFails (s.fail .internal "authorization check failed")
  | recv {e} : s.loc = .select → Step s (.recv e) { s.observe e with loc := .top }
  | lagged : s.loc = .select →
      Step s .lagged (s.fail .resourceExhausted "stream lagged; reconnect with last seq")
  | channelClosed : s.loc = .select → Step s .channelClosed { s with loc := .closed }
  | tick : s.loc = .select → Step s .tick { s.yield .heartbeat with loc := .top }

theorem step_cases {args : SubscribeBoardArgs} {s t : BoardStream} {a : Input}
    (hstep : s.step args a = some t) : Step args s a t := by
  cases a with
  | subscribed =>
      simp only [step] at hstep
      split at hstep
      · split at hstep <;> obtain rfl := Option.some.inj hstep
        · exact .snapshot ‹_› ‹_›
        · exact .resume ‹_› ‹_›
      · cases hstep
  | replay eventId =>
      simp only [step] at hstep
      split at hstep
      · obtain rfl := Option.some.inj hstep; exact .replayDone ‹_›
      · obtain rfl := Option.some.inj hstep; exact .replay ‹_›
      · cases hstep
  | enter now =>
      simp only [step] at hstep
      split at hstep
      · split at hstep
        · obtain rfl := Option.some.inj hstep; exact .enter ‹_› ‹_›
        · cases hstep
      · cases hstep
  | pass now =>
      simp only [step] at hstep
      split at hstep
      · split at hstep
        · split at hstep <;> obtain rfl := Option.some.inj hstep
          · rename_i hprivate
            exact .passRecheck ‹_› ‹_› hprivate.1 hprivate.2
          · exact .pass ‹_› ‹_› ‹_›
        · cases hstep
      · cases hstep
  | answer granted now =>
      simp only [step] at hstep
      split at hstep
      · split at hstep
        · cases granted <;> obtain rfl := Option.some.inj hstep
          · exact .denied ‹_› ‹_›
          · exact .granted ‹_› ‹_›
        · cases hstep
      · cases hstep
  | subscribeFails message =>
      simp only [step] at hstep
      split at hstep
      · obtain rfl := Option.some.inj hstep; exact .subscribeFails ‹_›
      · cases hstep
  | snapshotRead columns cards lastReplay =>
      simp only [step] at hstep
      split at hstep
      · obtain rfl := Option.some.inj hstep; exact .snapshotRead ‹_›
      · cases hstep
  | snapshotFails e =>
      simp only [step] at hstep
      split at hstep
      · obtain rfl := Option.some.inj hstep; exact .snapshotFails ‹_›
      · cases hstep
  | cutover =>
      simp only [step] at hstep
      split at hstep
      · obtain rfl := Option.some.inj hstep; exact .cutover ‹_›
      · cases hstep
  | answerFails =>
      simp only [step] at hstep
      split at hstep
      · obtain rfl := Option.some.inj hstep; exact .answerFails ‹_›
      · cases hstep
  | recv e =>
      simp only [step] at hstep
      split at hstep
      · obtain rfl := Option.some.inj hstep; exact .recv ‹_›
      · cases hstep
  | lagged =>
      simp only [step] at hstep
      split at hstep
      · obtain rfl := Option.some.inj hstep; exact .lagged ‹_›
      · cases hstep
  | channelClosed =>
      simp only [step] at hstep
      split at hstep
      · obtain rfl := Option.some.inj hstep; exact .channelClosed ‹_›
      · cases hstep
  | tick =>
      simp only [step] at hstep
      split at hstep
      · obtain rfl := Option.some.inj hstep; exact .tick ‹_›
      · cases hstep

/-! ## Who may see the board -/

/-- Board data is yielded only after the grant of `q`. -/
def AuthorizedBy (q : PermissionQuery) : List (Obs Item) → Prop :=
  Along fun pre o => ∀ item, o = .yielded item → item.isBoardData → .answered q true ∈ pre

/-- The permission backend has granted the view of the board since the stream was opened. -/
def Granted (s : BoardStream) : Prop := .answered (recheckQuery args) true ∈ s.trace

/-- The stream yields board data only after a grant. -/
def Authorized (s : BoardStream) : Prop := AuthorizedBy (recheckQuery args) s.trace

/-- The condition on a step of a private board's stream: no snapshot row passes the tracker,
and no live envelope passes it in the passes that begin within the recheck interval after the
entry of the loop. -/
def Checked (s : BoardStream) : Input → Prop
  | .replay eventId =>
      match s.loc with
      | .replay (_ :: _) _ => (s.tracker.observeReplay eventId).1 ≠ .emit
      | _ => True
  | .recv e => (s.tracker.observeLive e.eventId e.natsSeq).1 = .emit →
      s.loopStart + args.permissionRecheckInterval ≤ s.topAt
  | _ => True

section Yields

variable {args : SubscribeBoardArgs} {s : BoardStream}

theorem granted_yield {item : Item} : (s.yield item).Granted args ↔ s.Granted args := by
  simp [Granted, yield]

theorem authorized_yield {item : Item} :
    (s.yield item).Authorized args ↔
      s.Authorized args ∧ (item.isBoardData → s.Granted args) := by
  simp [Authorized, AuthorizedBy, yield, Granted]

theorem granted_hear {granted : Bool} :
    (s.hear args granted).Granted args ↔ s.Granted args ∨ granted := by
  cases granted <;> simp [Granted, hear]

theorem authorized_hear {granted : Bool} :
    (s.hear args granted).Authorized args ↔ s.Authorized args := by
  simp [Authorized, AuthorizedBy, hear]

theorem authorized_fail {code : ErrorCode} {message : String} :
    (s.fail code message).Authorized args ↔ s.Authorized args := by
  have h : (s.yield (.error ⟨code, message⟩)).Authorized args ↔ s.Authorized args := by
    rw [authorized_yield]
    simp [Item.isBoardData]
  exact h

end Yields

/-- What a private board's stream knows of the backend at each place: nothing has been granted
before the loop; in the loop a grant and the time of the current pass go together. -/
def GrantInv (s : BoardStream) : Prop :=
  match s.loc with
  | .subscribe | .snapshot | .replay _ _ | .cutover _ | .enter => ¬ s.Granted args
  | .top | .recheck => s.loopStart ≤ s.clock ∧ s.topAt ≤ s.clock ∧
      (s.Granted args → s.loopStart + args.permissionRecheckInterval ≤ s.topAt) ∧
      (¬ s.Granted args → s.lastPermissionRecheck = s.loopStart) ∧
      (s.loc = .recheck → s.loopStart + args.permissionRecheckInterval ≤ s.topAt)
  | .select => s.loopStart ≤ s.clock ∧ s.topAt ≤ s.clock ∧
      (s.Granted args ↔ s.loopStart + args.permissionRecheckInterval ≤ s.topAt) ∧
      (¬ s.Granted args → s.lastPermissionRecheck = s.loopStart)
  | .closed => True

theorem grantInv_start : (start args).GrantInv args := by
  simp [GrantInv, start, Granted]

/-- Neither the loop times nor the answers change when an envelope goes through the tracker. -/
theorem granted_observe {args : SubscribeBoardArgs} {s : BoardStream}
    {e : BoardEventEnvelope String} : (s.observe e).Granted args ↔ s.Granted args := by
  unfold observe
  split
  · exact granted_yield
  · exact Iff.rfl

theorem granted_replayOne {args : SubscribeBoardArgs} {s : BoardStream} {eventId : String}
    {payload : String × Value} :
    (s.replayOne args eventId payload).Granted args ↔ s.Granted args := by
  unfold replayOne
  split
  · exact granted_yield
  · exact Iff.rfl

theorem observe_times (s : BoardStream) (e : BoardEventEnvelope String) :
    (s.observe e).loopStart = s.loopStart ∧ (s.observe e).topAt = s.topAt ∧
      (s.observe e).clock = s.clock ∧
      (s.observe e).lastPermissionRecheck = s.lastPermissionRecheck := by
  unfold observe
  split <;> exact ⟨rfl, rfl, rfl, rfl⟩

/-- **One step** keeps what the private board's stream knows. -/
theorem GrantInv.step {args : SubscribeBoardArgs} (hpriv : args.isPrivate = true)
    {s t : BoardStream} {a : Input} (hs : s.GrantInv args) (hstep : s.step args a = some t) :
    t.GrantInv args := by
  cases step_cases hstep with
  | snapshot hloc | resume hloc | snapshotRead hloc | replayDone hloc =>
      simp only [GrantInv, hloc] at hs
      exact hs
  | subscribeFails | snapshotFails | denied | answerFails | lagged | channelClosed => trivial
  | replay hloc =>
      simp only [GrantInv, hloc] at hs
      exact fun h => hs (granted_replayOne.mp h)
  | cutover hloc =>
      simp only [GrantInv, hloc] at hs
      exact fun h => hs (granted_yield.mp h)
  | enter hloc hnow =>
      simp only [GrantInv, hloc] at hs
      exact ⟨le_rfl, le_rfl, fun h => (hs h).elim, fun _ => rfl, fun h => by cases h⟩
  | passRecheck hloc hnow _ helapsed =>
      simp only [GrantInv, hloc] at hs
      obtain ⟨hstart, htop, hgrant, hno, -⟩ := hs
      refine ⟨by dsimp only; omega, le_rfl, fun h => ?_, hno, fun _ => ?_⟩
      · have := hgrant h
        dsimp only; omega
      · by_cases h : s.Granted args
        · have := hgrant h
          dsimp only; omega
        · have := hno h
          dsimp only; omega
  | pass hloc hnow hnot =>
      simp only [GrantInv, hloc] at hs
      obtain ⟨hstart, htop, hgrant, hno, -⟩ := hs
      refine ⟨by dsimp only; omega, le_rfl, ⟨fun h => ?_, fun h => ?_⟩, hno⟩
      · have := hgrant h
        dsimp only; omega
      · -- without a grant the last recheck is the entry of the loop, too recent for this pass
        by_contra hng
        have := hno hng
        simp only [hpriv, true_and] at hnot
        dsimp only at h
        omega
  | granted hloc hnow =>
      simp only [GrantInv, hloc] at hs
      obtain ⟨hstart, htop, -, -, hdue⟩ := hs
      have hgr : (s.hear args true).Granted args := granted_hear.mpr (.inr rfl)
      exact ⟨hstart.trans hnow, htop.trans hnow, iff_of_true hgr (hdue trivial),
        fun h => (h hgr).elim⟩
  | @recv e hloc =>
      simp only [GrantInv, hloc] at hs
      obtain ⟨hstart, htop, hgrant, hno⟩ := hs
      obtain ⟨h1, h2, h3, h4⟩ := s.observe_times e
      refine ⟨by dsimp only; omega, by dsimp only; omega, fun h => ?_, fun h => ?_,
        fun h => by cases h⟩
      · have := hgrant.mp (granted_observe.mp h)
        dsimp only; omega
      · have := hno fun hg => h (granted_observe.mpr hg)
        dsimp only; omega
  | tick hloc =>
      simp only [GrantInv, hloc] at hs
      obtain ⟨hstart, htop, hgrant, hno⟩ := hs
      exact ⟨hstart, htop, fun h => hgrant.mp (granted_yield.mp h),
        fun h => hno fun hg => h (granted_yield.mpr hg), fun h => by cases h⟩

/-- **One step yields board data without a grant exactly when it misses the condition.** -/
theorem authorized_step {args : SubscribeBoardArgs} {s t : BoardStream} {a : Input}
    (hs : s.GrantInv args) (hstep : s.step args a = some t) :
    t.Authorized args ↔ s.Authorized args ∧ s.Checked args a := by
  have hkeep : ∀ {p : Prop}, p → (s.Authorized args ↔ s.Authorized args ∧ p) :=
    fun hp => (and_iff_left hp).symm
  cases step_cases hstep with
  | snapshot | resume | snapshotRead | enter | passRecheck | pass | channelClosed =>
      exact hkeep trivial
  | subscribeFails | snapshotFails | answerFails | lagged =>
      exact authorized_fail.trans (hkeep trivial)
  | denied => exact (authorized_fail.trans authorized_hear).trans (hkeep trivial)
  | granted => exact authorized_hear.trans (hkeep trivial)
  | replayDone hloc => exact hkeep (by simp [Checked, hloc])
  | @replay eventId payload pending lastReplay hloc =>
      simp only [GrantInv, hloc] at hs
      simp only [Checked, hloc]
      by_cases hemit : (s.tracker.observeReplay eventId).1 = .emit
      · have ht : (s.replayOne args eventId payload).Authorized args ↔ s.Authorized args ∧
            (Item.isBoardData (.snapshot (snapshotEnvelope args.boardId eventId payload)) →
              s.Granted args) := by
          simp only [replayOne, if_pos hemit]
          exact authorized_yield
        refine Iff.trans ht ?_
        simp [Item.isBoardData, hs, hemit]
      · have ht : (s.replayOne args eventId payload).Authorized args ↔ s.Authorized args := by
          simp only [replayOne, if_neg hemit]
          exact Iff.rfl
        exact ht.trans (hkeep hemit)
  | @cutover seq hloc =>
      have ht : (s.yield (.cutover seq)).Authorized args ↔ s.Authorized args ∧
          (Item.isBoardData (.cutover seq) → s.Granted args) := authorized_yield
      refine Iff.trans ht ?_
      simp [Item.isBoardData, Checked]
  | tick =>
      have ht : (s.yield .heartbeat).Authorized args ↔ s.Authorized args ∧
          (Item.isBoardData .heartbeat → s.Granted args) := authorized_yield
      refine Iff.trans ht ?_
      simp [Item.isBoardData, Checked]
  | @recv e hloc =>
      simp only [GrantInv, hloc] at hs
      simp only [Checked]
      by_cases hemit : (s.tracker.observeLive e.eventId e.natsSeq).1 = .emit
      · have ht : (s.observe e).Authorized args ↔ s.Authorized args ∧
            (Item.isBoardData (.live e) → s.Granted args) := by
          simp only [observe, if_pos hemit]
          exact authorized_yield
        refine Iff.trans ht ?_
        simp [Item.isBoardData, hemit, hs.2.2.1]
      · have ht : (s.observe e).Authorized args ↔ s.Authorized args := by
          simp only [observe, if_neg hemit]
          exact Iff.rfl
        exact ht.trans (hkeep fun h => absurd h hemit)

/-- **A private board's stream is authorized exactly along checked runs.** -/
theorem authorized_iff_checked {args : SubscribeBoardArgs} (hpriv : args.isPrivate = true)
    {tr : List Input} {s : BoardStream} (h : Exec (step args) (start args) tr s) :
    s.Authorized args ↔ ExecWhile (step args) (Checked args) (start args) tr s :=
  h.iff_execWhile (grantInv_start args) (fun _ _ _ ht hst => ht.step hpriv hst)
    along_nil fun _ _ _ ht hst => authorized_step ht hst

end BoardStream

end Kanban.Services
