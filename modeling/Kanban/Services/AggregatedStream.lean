import Kanban.Lib.Exec
import Kanban.Realtime.Cutover
import Kanban.Realtime.JetStream
import Kanban.Services.Common

/-!
# The aggregated stream

`services/aggregated_boards.rs`, `build_subscribe_aggregated_board_stream`: subscribe to the
aggregate and to every source board, forward all of them into one unbounded channel, and pass
what comes out of it through a single cutover tracker.

As in the board stream, each label is one await that returns, one yield or one reading of the
clock; the forwarder tasks run beside the loop, so their labels come at any point.

## Main definitions

* `SubscribeAggregatedBoardArgs` — the arguments of the stream.
* `AggregatedStream`, `AggregatedStream.step` — the stream with its forwarders.
* `AggregatedStream.Lossless` — no fresh event of a source is lost, repeated or reordered.
* `AggregatedStream.InOrder` — the condition under which the merge is lossless.
-/

namespace Kanban.Services

open Machine History Kanban.Realtime

variable {ι : Type*}

/-- Arguments of `build_subscribe_aggregated_board_stream`. -/
structure SubscribeAggregatedBoardArgs (ι : Type*) where
  auth : AuthContext
  aggregatedBoardId : String
  sourceBoardIds : List ι
  isPrivate : Bool
  permissionRecheckInterval : ℕ
  cutoverSeenCapacity : ℕ

/-- The subscription that an envelope comes through. -/
inductive Origin (ι : Type*)
  | aggregate
  | source (boardId : ι)
  deriving DecidableEq, Repr

/-- An envelope in the merged channel. -/
abbrev Forwarded (ι : Type*) := Origin ι × BoardEventEnvelope String

namespace AggregatedStream

/-- What the stream yields. -/
inductive Item (ι : Type*)
  | cutover (lastReplayNatsSeq : ℕ)
  | live (event : Forwarded ι)
  | heartbeat
  | error (e : ConnectError)

/-- Where the stream stands. -/
inductive Loc (ι : Type*)
  /-- Before the cutover envelope. -/
  | cutover
  /-- Awaiting the registry, with the subscriptions still to be made. -/
  | subscribe (pending : List (Origin ι))
  /-- Before the first pass, with the forwarders running. -/
  | enter
  /-- At the head of a pass. -/
  | top
  /-- Awaiting the permission recheck. -/
  | recheck
  /-- Waiting for an envelope or a heartbeat. -/
  | select
  | closed

end AggregatedStream

open AggregatedStream in
/-- The stream and its forwarders.  `queue` is the merged channel and `taken` what the loop has
received from it so far. -/
structure AggregatedStream (ι : Type*) where
  loc : Loc ι
  tracker : CutoverTracker String
  lastPermissionRecheck : ℕ
  clock : ℕ
  forwarders : List (Origin ι)
  queue : List (Forwarded ι)
  taken : List (Forwarded ι)
  trace : List (Obs (Item ι))

namespace AggregatedStream

inductive Input (ι : Type*)
  | cutover
  /-- The registry returns the next subscription. -/
  | subscribed
  | subscribeFails (message : String)
  /-- All subscriptions are made: the tracker goes live and the forwarders are spawned. -/
  | spawn
  /-- A forwarder receives an envelope and sends it on. -/
  | forward (event : Forwarded ι)
  /-- A forwarder's subscription lags or closes, and the task ends. -/
  | forwarderEnds (origin : Origin ι)
  | enter (now : ℕ)
  | pass (now : ℕ)
  | answer (granted : Bool) (now : ℕ)
  | answerFails
  | recv
  | channelClosed
  | tick

variable (args : SubscribeAggregatedBoardArgs ι)

/-- The subscriptions of the stream, in the order in which they are made. -/
def origins : List (Origin ι) := .aggregate :: args.sourceBoardIds.map .source

def start : AggregatedStream ι where
  loc := .cutover
  tracker := .withCapacity args.cutoverSeenCapacity
  lastPermissionRecheck := 0
  clock := 0
  forwarders := []
  queue := []
  taken := []
  trace := []

def yield (s : AggregatedStream ι) (item : Item ι) : AggregatedStream ι :=
  { s with trace := s.trace ++ [.yielded item] }

/-- Yield an error and end. -/
def fail (s : AggregatedStream ι) (code : ErrorCode) (message : String) : AggregatedStream ι :=
  { s.yield (.error ⟨code, message⟩) with loc := .closed }

/-- The question of the permission recheck. -/
def recheckQuery : PermissionQuery :=
  viewQuery args.auth "KanbanAggregatedBoard" args.aggregatedBoardId

/-- The answer of the permission backend to the recheck. -/
def hear (s : AggregatedStream ι) (granted : Bool) : AggregatedStream ι :=
  { s with trace := s.trace ++ [.answered (recheckQuery args) granted] }

/-- Pass an envelope of the merged channel through the tracker. -/
def observe (s : AggregatedStream ι) (event : Forwarded ι) : AggregatedStream ι :=
  let s' := { s with
    tracker := (s.tracker.observeLive event.2.eventId event.2.natsSeq).2
    taken := s.taken ++ [event] }
  if (s.tracker.observeLive event.2.eventId event.2.natsSeq).1 = .emit then s'.yield (.live event)
  else s'

section Step

variable [DecidableEq ι]

def step (s : AggregatedStream ι) : Input ι → Option (AggregatedStream ι)
  | .cutover =>
      match s.loc with
      | .cutover => some { s.yield (.cutover 0) with loc := .subscribe (origins args) }
      | _ => none
  | .subscribed =>
      match s.loc with
      | .subscribe (_ :: pending) => some { s with loc := .subscribe pending }
      | _ => none
  | .subscribeFails message =>
      match s.loc with
      | .subscribe (_ :: _) => some (s.fail .internal ("subscribe: " ++ message))
      | _ => none
  | .spawn =>
      match s.loc with
      | .subscribe [] => some { s with
          loc := .enter
          tracker := s.tracker.cutoverToLive 0
          forwarders := origins args }
      | _ => none
  | .forward event =>
      match s.loc with
      | .closed => none
      | _ =>
          if event.1 ∈ s.forwarders then some { s with queue := s.queue ++ [event] } else none
  | .forwarderEnds origin =>
      if origin ∈ s.forwarders then some { s with forwarders := s.forwarders.erase origin }
      else none
  | .enter now =>
      match s.loc with
      | .enter =>
          if s.clock ≤ now then
            some { s with loc := .top, lastPermissionRecheck := now, clock := now }
          else none
      | _ => none
  | .pass now =>
      match s.loc with
      | .top =>
          if s.clock ≤ now then
            -- `revalidate_token` always succeeds
            if args.isPrivate ∧ args.permissionRecheckInterval ≤ now - s.lastPermissionRecheck then
              some { s with loc := .recheck, clock := now }
            else some { s with loc := .select, clock := now }
          else none
      | _ => none
  | .answer granted now =>
      match s.loc with
      | .recheck =>
          if s.clock ≤ now then
            if granted then
              some { s.hear args true with
                loc := .select
                clock := now
                lastPermissionRecheck := now }
            else some ((s.hear args false).fail .permissionDenied "permission revoked mid-stream")
          else none
      | _ => none
  | .answerFails =>
      match s.loc with
      | .recheck => some (s.fail .internal "authorization check failed")
      | _ => none
  | .recv =>
      match s.loc, s.queue with
      | .select, event :: queue => some { s.observe event with loc := .top, queue := queue }
      | _, _ => none
  | .channelClosed =>
      match s.loc, s.queue, s.forwarders with
      | .select, [], [] => some { s with loc := .closed }
      | _, _, _ => none
  | .tick =>
      match s.loc with
      | .select => some { s.yield .heartbeat with loc := .top }
      | _ => none

/-- What one step does, case by case. -/
inductive Step (s : AggregatedStream ι) : Input ι → AggregatedStream ι → Prop
  | cutover : s.loc = .cutover →
      Step s .cutover { s.yield (.cutover 0) with loc := .subscribe (origins args) }
  | subscribed {origin pending} : s.loc = .subscribe (origin :: pending) →
      Step s .subscribed { s with loc := .subscribe pending }
  | subscribeFails {message origin pending} : s.loc = .subscribe (origin :: pending) →
      Step s (.subscribeFails message) (s.fail .internal ("subscribe: " ++ message))
  | spawn : s.loc = .subscribe [] →
      Step s .spawn { s with
        loc := .enter
        tracker := s.tracker.cutoverToLive 0
        forwarders := origins args }
  | forward {event} : s.loc ≠ .closed → event.1 ∈ s.forwarders →
      Step s (.forward event) { s with queue := s.queue ++ [event] }
  | forwarderEnds {origin} : origin ∈ s.forwarders →
      Step s (.forwarderEnds origin) { s with forwarders := s.forwarders.erase origin }
  | enter {now} : s.loc = .enter → s.clock ≤ now →
      Step s (.enter now) { s with loc := .top, lastPermissionRecheck := now, clock := now }
  | passRecheck {now} : s.loc = .top → s.clock ≤ now → args.isPrivate →
      args.permissionRecheckInterval ≤ now - s.lastPermissionRecheck →
      Step s (.pass now) { s with loc := .recheck, clock := now }
  | pass {now} : s.loc = .top → s.clock ≤ now →
      ¬ (args.isPrivate ∧ args.permissionRecheckInterval ≤ now - s.lastPermissionRecheck) →
      Step s (.pass now) { s with loc := .select, clock := now }
  | granted {now} : s.loc = .recheck → s.clock ≤ now →
      Step s (.answer true now) { s.hear args true with
        loc := .select
        clock := now
        lastPermissionRecheck := now }
  | denied {now} : s.loc = .recheck → s.clock ≤ now →
      Step s (.answer false now)
        ((s.hear args false).fail .permissionDenied "permission revoked mid-stream")
  | answerFails : s.loc = .recheck →
      Step s .answerFails (s.fail .internal "authorization check failed")
  | recv {event queue} : s.loc = .select → s.queue = event :: queue →
      Step s .recv { s.observe event with loc := .top, queue := queue }
  | channelClosed : s.loc = .select → s.queue = [] → s.forwarders = [] →
      Step s .channelClosed { s with loc := .closed }
  | tick : s.loc = .select → Step s .tick { s.yield .heartbeat with loc := .top }

variable {args}

theorem step_cases {s t : AggregatedStream ι} {a : Input ι} (hstep : s.step args a = some t) :
    Step args s a t := by
  cases a with
  | cutover =>
      simp only [step] at hstep
      split at hstep
      · obtain rfl := Option.some.inj hstep; exact .cutover ‹_›
      · cases hstep
  | subscribed =>
      simp only [step] at hstep
      split at hstep
      · obtain rfl := Option.some.inj hstep; exact .subscribed ‹_›
      · cases hstep
  | subscribeFails message =>
      simp only [step] at hstep
      split at hstep
      · obtain rfl := Option.some.inj hstep; exact .subscribeFails ‹_›
      · cases hstep
  | spawn =>
      simp only [step] at hstep
      split at hstep
      · obtain rfl := Option.some.inj hstep; exact .spawn ‹_›
      · cases hstep
  | forward event =>
      simp only [step] at hstep
      split at hstep
      · cases hstep
      · split at hstep
        · obtain rfl := Option.some.inj hstep; exact .forward ‹_› ‹_›
        · cases hstep
  | forwarderEnds origin =>
      simp only [step] at hstep
      split at hstep
      · obtain rfl := Option.some.inj hstep; exact .forwarderEnds ‹_›
      · cases hstep
  | enter now =>
      simp only [step] at hstep
      split at hstep
      · split at hstep
        · obtain rfl := Option.some.inj hstep; exact .enter ‹_› ‹_›
        · cases hstep
      · cases hstep
  | pass now =>
      simp only [step] at hstep
      split at hstep
      · split at hstep
        · split at hstep <;> obtain rfl := Option.some.inj hstep
          · rename_i hprivate
            exact .passRecheck ‹_› ‹_› hprivate.1 hprivate.2
          · exact .pass ‹_› ‹_› ‹_›
        · cases hstep
      · cases hstep
  | answer granted now =>
      simp only [step] at hstep
      split at hstep
      · split at hstep
        · cases granted <;> obtain rfl := Option.some.inj hstep
          · exact .denied ‹_› ‹_›
          · exact .granted ‹_› ‹_›
        · cases hstep
      · cases hstep
  | answerFails =>
      simp only [step] at hstep
      split at hstep
      · obtain rfl := Option.some.inj hstep; exact .answerFails ‹_›
      · cases hstep
  | recv =>
      simp only [step] at hstep
      split at hstep
      · obtain rfl := Option.some.inj hstep; exact .recv ‹_› ‹_›
      · cases hstep
  | channelClosed =>
      simp only [step] at hstep
      split at hstep
      · obtain rfl := Option.some.inj hstep; exact .channelClosed ‹_› ‹_› ‹_›
      · cases hstep
  | tick =>
      simp only [step] at hstep
      split at hstep
      · obtain rfl := Option.some.inj hstep; exact .tick ‹_›
      · cases hstep

end Step

/-! ## What the merge lets through -/

variable {args}

/-- The event that an observation shows. -/
def live? : Obs (Item ι) → Option (Forwarded ι)
  | .yielded (.live event) => some event
  | _ => none

/-- The live events of the stream. -/
def emitted (s : AggregatedStream ι) : List (Forwarded ι) := s.trace.filterMap live?

/-- No earlier event has the id of this one. -/
def Fresh (earlier : List (Forwarded ι)) (event : Forwarded ι) : Prop :=
  ∀ e ∈ earlier, e.2.eventId ≠ event.2.eventId

/-- Every event that comes fresh through a subscription, above the cutover, is emitted once, or
waits in the merged channel; and the events of each origin are emitted in the order of their
sequences. -/
structure Lossless [DecidableEq ι] (s : AggregatedStream ι) : Prop where
  all : Along (fun pre event => Fresh pre event → 0 < event.2.natsSeq →
    event ∈ s.emitted ∨ s.taken.length ≤ pre.length) (s.taken ++ s.queue)
  once : s.emitted.Nodup
  ordered : ∀ origin, (s.emitted.filter (·.1 = origin)).Pairwise
    fun e f => e.2.natsSeq < f.2.natsSeq

/-- The condition on a step: a fresh event that comes out of the merged channel exceeds the
sequences of all events emitted before. -/
def InOrder (s : AggregatedStream ι) : Input ι → Prop
  | .recv => ∀ event ∈ s.queue.head?, Fresh s.taken event → 0 < event.2.natsSeq →
      ∀ e ∈ s.emitted, e.2.natsSeq < event.2.natsSeq
  | _ => True

/-- What holds of the tracker, the events taken from the channel and the events emitted. -/
structure Merged (tracker : CutoverTracker String) (taken emitted : List (Forwarded ι)) :
    Prop where
  tail : Tailing (fun e : Forwarded ι => e.2.eventId) (fun e => e.2.natsSeq) 0 [] emitted tracker
  sub : ∀ e ∈ emitted, e ∈ taken
  /-- A fresh event is lost only to a later sequence. -/
  lost : Along (fun pre e => Fresh pre e → e ∉ emitted →
    e.2.natsSeq ≤ peak (fun e => e.2.natsSeq) 0 emitted) taken

section Merged

variable {tracker : CutoverTracker String} {taken emitted : List (Forwarded ι)}
  {event : Forwarded ι}

theorem Fresh.notMem (h : Fresh taken event) : event ∉ taken := fun hmem => h event hmem rfl

/-- **A fresh event** is let through exactly when it exceeds what has been emitted. -/
theorem Merged.emit_iff (h : Merged tracker taken emitted) (hfresh : Fresh taken event) :
    (tracker.observeLive event.2.eventId event.2.natsSeq).1 = .emit ↔
      peak (fun e => e.2.natsSeq) 0 emitted < event.2.natsSeq := by
  constructor
  · exact h.tail.emit_imp (e := event)
  · intro hlt
    rcases h.tail.emit_or_seen (e := event) hlt with hemit | hold | ⟨e, he, hid⟩
    · exact hemit
    · cases hold
    · exact absurd hid (hfresh e (h.sub e he))

/-- One more event goes through the tracker. -/
theorem Merged.observe (h : Merged tracker taken emitted) (event : Forwarded ι) :
    Merged (tracker.observeLive event.2.eventId event.2.natsSeq).2 (taken ++ [event])
      (if (tracker.observeLive event.2.eventId event.2.natsSeq).1 = .emit then
        emitted ++ [event] else emitted) := by
  have htail := h.tail.observe event
  by_cases hemit : (tracker.observeLive event.2.eventId event.2.natsSeq).1 = .emit
  · simp only [if_pos hemit] at htail ⊢
    refine ⟨htail, fun e he => ?_, along_concat.mpr ⟨h.lost.mono ?_, ?_⟩⟩
    · rcases List.mem_append.mp he with he | he
      · exact List.mem_append_left _ (h.sub e he)
      · exact List.mem_append_right _ he
    · intro pre e _ hlost hfresh he
      rw [peak_concat]
      exact le_max_of_le_left (hlost hfresh fun hmem => he (by simp [hmem]))
    · intro _ he
      exact absurd (by simp) he
  · simp only [if_neg hemit] at htail ⊢
    refine ⟨htail, fun e he => List.mem_append_left _ (h.sub e he), along_concat.mpr ⟨h.lost, ?_⟩⟩
    intro hfresh _
    exact not_lt.mp fun hlt => hemit ((h.emit_iff hfresh).mpr hlt)

/-- Every fresh event above the cutover that was taken has been emitted. -/
def Complete (taken emitted : List (Forwarded ι)) : Prop :=
  Along (fun pre event => Fresh pre event → 0 < event.2.natsSeq → event ∈ emitted) taken

/-- **One more event** keeps the merge complete exactly when it is in order. -/
theorem Merged.complete_observe (h : Merged tracker taken emitted) (event : Forwarded ι) :
    Complete (taken ++ [event])
      (if (tracker.observeLive event.2.eventId event.2.natsSeq).1 = .emit then
        emitted ++ [event] else emitted) ↔
    Complete taken emitted ∧ (Fresh taken event → 0 < event.2.natsSeq →
      ∀ e ∈ emitted, e.2.natsSeq < event.2.natsSeq) := by
  rw [Complete, along_concat]
  by_cases hemit : (tracker.observeLive event.2.eventId event.2.natsSeq).1 = .emit
  · have hlt : peak (fun e : Forwarded ι => e.2.natsSeq) 0 emitted < event.2.natsSeq :=
      h.tail.emit_imp (e := event) hemit
    simp only [if_pos hemit]
    constructor
    · intro ⟨hall, _⟩
      refine ⟨fun pre e post heq hfresh hpos => ?_, fun _ _ => (peak_lt_iff.mp hlt).2⟩
      rcases List.mem_append.mp (hall pre e post heq hfresh hpos) with hmem | hmem
      · exact hmem
      · -- an event that was lost before does not exceed the peak, so it is not this one
        by_contra hnot
        have hle := h.lost pre e post heq hfresh hnot
        rw [List.mem_singleton.mp hmem] at hle
        exact absurd hlt (not_lt.mpr hle)
    · intro ⟨hall, _⟩
      refine ⟨hall.mono fun pre e _ hin hfresh hpos => ?_, fun _ _ => by simp⟩
      exact List.mem_append_left _ (hin hfresh hpos)
  · simp only [if_neg hemit]
    refine and_congr Iff.rfl ⟨fun hin hfresh hpos => ?_, fun hord hfresh hpos => ?_⟩
    · exact absurd (h.sub _ (hin hfresh hpos)) hfresh.notMem
    · exact absurd ((h.emit_iff hfresh).mpr (peak_lt_iff.mpr ⟨hpos, hord hfresh hpos⟩)) hemit

end Merged

/-! ## The merge along a run -/

theorem emitted_yield {s : AggregatedStream ι} {item : Item ι}
    (h : live? (.yielded item) = none) : (s.yield item).emitted = s.emitted := by
  simp [yield, emitted, h]

theorem emitted_fail {s : AggregatedStream ι} {code : ErrorCode} {message : String} :
    (s.fail code message).emitted = s.emitted := emitted_yield rfl

theorem emitted_hear {s : AggregatedStream ι} {granted : Bool} :
    (s.hear args granted).emitted = s.emitted := by simp [hear, emitted, live?]

theorem emitted_observe {s : AggregatedStream ι} {event : Forwarded ι} :
    (s.observe event).emitted =
      if (s.tracker.observeLive event.2.eventId event.2.natsSeq).1 = .emit then
        s.emitted ++ [event] else s.emitted := by
  unfold observe
  split <;> simp [emitted, yield, live?]

theorem tracker_observe {s : AggregatedStream ι} {event : Forwarded ι} :
    (s.observe event).tracker =
      (s.tracker.observeLive event.2.eventId event.2.natsSeq).2 := by
  unfold observe
  split <;> rfl

theorem taken_observe {s : AggregatedStream ι} {event : Forwarded ι} :
    (s.observe event).taken = s.taken ++ [event] := by
  unfold observe
  split <;> rfl

/-- Everything in the merged channel comes through a subscription of the stream. -/
structure Sourced (args : SubscribeAggregatedBoardArgs ι) (s : AggregatedStream ι) : Prop where
  forwarders : ∀ origin ∈ s.forwarders, origin ∈ origins args
  queue : ∀ event ∈ s.queue, event.1 ∈ origins args

theorem sourced_start : (start args).Sourced args := by
  constructor <;> simp [start]

/-- Before the forwarders run. -/
structure Idle (s : AggregatedStream ι) : Prop where
  phase : s.tracker.phase = .replay
  seen : s.tracker.seenIds.queue = []
  forwarders : s.forwarders = []
  queue : s.queue = []
  taken : s.taken = []
  emitted : s.emitted = []

/-- The cutover and the subscriptions are behind the stream. -/
def Started (s : AggregatedStream ι) : Prop :=
  match s.loc with
  | .cutover | .subscribe _ => False
  | _ => True

/-- The stream either has not started its forwarders or merges what they send. -/
def MergeInv (s : AggregatedStream ι) : Prop :=
  s.Idle ∨ s.Started ∧ Merged s.tracker s.taken s.emitted

theorem mergeInv_start : (start args).MergeInv :=
  .inl ⟨rfl, rfl, rfl, rfl, rfl, rfl⟩

section Run

variable [DecidableEq ι]

omit [DecidableEq ι] in
theorem observe_forwarders {s : AggregatedStream ι} {event : Forwarded ι} :
    (s.observe event).forwarders = s.forwarders := by
  unfold observe
  split <;> rfl

theorem Sourced.step {s t : AggregatedStream ι} {a : Input ι} (hs : s.Sourced args)
    (hstep : s.step args a = some t) : t.Sourced args := by
  cases step_cases hstep with
  | cutover | subscribed | subscribeFails | enter | passRecheck | pass | granted | denied
    | answerFails | channelClosed | tick => exact ⟨hs.forwarders, hs.queue⟩
  | spawn => exact ⟨fun _ h => h, hs.queue⟩
  | @forward event hopen hmem =>
      refine ⟨hs.forwarders, fun e he => ?_⟩
      rcases List.mem_append.mp he with he | he
      · exact hs.queue e he
      · obtain rfl := List.mem_singleton.mp he
        exact hs.forwarders _ hmem
  | forwarderEnds hmem =>
      exact ⟨fun o ho => hs.forwarders o (List.mem_of_mem_erase ho), hs.queue⟩
  | recv hloc hq =>
      refine ⟨?_, fun e he => hs.queue e (by rw [hq]; exact List.mem_cons_of_mem _ he)⟩
      dsimp only
      rw [observe_forwarders]
      exact hs.forwarders

/-- A step emits at most one event, out of the merged channel. -/
theorem emitted_step {s t : AggregatedStream ι} {a : Input ι} (hstep : s.step args a = some t) :
    t.emitted = s.emitted ∨ ∃ event ∈ s.queue, t.emitted = s.emitted ++ [event] := by
  cases step_cases hstep with
  | cutover | tick => exact .inl (emitted_yield rfl)
  | subscribed | spawn | forward | forwarderEnds | enter | passRecheck | pass | channelClosed =>
      exact .inl rfl
  | subscribeFails | answerFails => exact .inl emitted_fail
  | granted => exact .inl emitted_hear
  | denied => exact .inl (emitted_fail.trans emitted_hear)
  | @recv event queue hloc hq =>
      have h : (s.observe event).emitted = s.emitted ∨
          (s.observe event).emitted = s.emitted ++ [event] := by
        rw [emitted_observe]
        split
        · exact .inr rfl
        · exact .inl rfl
      rcases h with h | h
      · exact .inl h
      · exact .inr ⟨event, by simp [hq], h⟩

/-- A forwarder hands an event to the waiting loop, and the tracker lets it through. -/
theorem forward_recv (args : SubscribeAggregatedBoardArgs ι) {s : AggregatedStream ι}
    (event : Forwarded ι) (hloc : s.loc = .select) (hqueue : s.queue = [])
    (hforward : event.1 ∈ s.forwarders)
    (hemit : (s.tracker.observeLive event.2.eventId event.2.natsSeq).1 = .emit) :
    ∃ t u, s.step args (.forward event) = some t ∧ t.emitted = s.emitted ∧
      t.step args .recv = some u ∧ u.emitted = s.emitted ++ [event] := by
  refine ⟨{ s with queue := [event] },
    { ({ s with queue := [event] } : AggregatedStream ι).observe event with
      loc := .top
      queue := [] }, ?_, rfl, ?_, ?_⟩
  · simp [step, hloc, hqueue, hforward]
  · simp [step, hloc]
  · refine Eq.trans emitted_observe ?_
    simp only [if_pos hemit]
    rfl

/-- **One step** of the stream or of a forwarder. -/
theorem MergeInv.step {s t : AggregatedStream ι} {a : Input ι} (hs : s.MergeInv)
    (hstep : s.step args a = some t) : t.MergeInv := by
  rcases hs with ⟨hphase, hseen, hfwd, hqueue, htaken, hem⟩ | ⟨hstarted, hmerged⟩
  · have hidle : ∀ {trace : List (Obs (Item ι))}, trace.filterMap live? = s.emitted →
        trace.filterMap live? = [] := fun h => h.trans hem
    cases step_cases hstep with
    | subscribed | enter | passRecheck | pass | channelClosed =>
        exact .inl ⟨hphase, hseen, hfwd, hqueue, htaken, hem⟩
    | cutover | tick => exact .inl ⟨hphase, hseen, hfwd, hqueue, htaken, hidle (emitted_yield rfl)⟩
    | subscribeFails | answerFails =>
        exact .inl ⟨hphase, hseen, hfwd, hqueue, htaken, hidle emitted_fail⟩
    | granted => exact .inl ⟨hphase, hseen, hfwd, hqueue, htaken, hidle emitted_hear⟩
    | denied =>
        exact .inl ⟨hphase, hseen, hfwd, hqueue, htaken, hidle (emitted_fail.trans emitted_hear)⟩
    | forward _ hmem => simp [hfwd] at hmem
    | forwarderEnds hmem => simp [hfwd] at hmem
    | recv _ hq => simp [hqueue] at hq
    | spawn =>
        have htail : Tailing (fun e : Forwarded ι => e.2.eventId) (fun e => e.2.natsSeq) 0 [] []
            (s.tracker.cutoverToLive 0) := Tailing.start hphase (by simp [hseen])
        have hmerged : Merged (s.tracker.cutoverToLive 0) s.taken s.emitted := by
          rw [hem, htaken]
          exact ⟨htail, by simp, along_nil⟩
        exact .inr ⟨trivial, hmerged⟩
  · have hkeep : ∀ {trace : List (Obs (Item ι))}, trace.filterMap live? = s.emitted →
        Merged s.tracker s.taken (trace.filterMap live?) := fun h => h ▸ hmerged
    cases step_cases hstep with
    | cutover hloc => simp [Started, hloc] at hstarted
    | subscribed hloc => simp [Started, hloc] at hstarted
    | subscribeFails hloc => simp [Started, hloc] at hstarted
    | spawn hloc => simp [Started, hloc] at hstarted
    | forward | forwarderEnds => exact .inr ⟨hstarted, hmerged⟩
    | enter | passRecheck | pass | channelClosed => exact .inr ⟨trivial, hmerged⟩
    | granted => exact .inr ⟨trivial, hkeep emitted_hear⟩
    | denied => exact .inr ⟨trivial, hkeep (emitted_fail.trans emitted_hear)⟩
    | answerFails => exact .inr ⟨trivial, hkeep emitted_fail⟩
    | tick => exact .inr ⟨trivial, hkeep (emitted_yield rfl)⟩
    | @recv event queue hloc hq =>
        have h := hmerged.observe event
        rw [← tracker_observe, ← taken_observe, ← emitted_observe] at h
        exact .inr ⟨trivial, h⟩

/-- **One step loses a fresh event exactly when it is not in order.** -/
theorem complete_step {s t : AggregatedStream ι} {a : Input ι} (hs : s.MergeInv)
    (hstep : s.step args a = some t) :
    Complete t.taken t.emitted ↔ Complete s.taken s.emitted ∧ s.InOrder a := by
  have hkeep : ∀ {trace : List (Obs (Item ι))}, trace.filterMap live? = s.emitted →
      (Complete s.taken (trace.filterMap live?) ↔ Complete s.taken s.emitted ∧ True) :=
    fun h => by rw [h, and_true]
  cases step_cases hstep with
  | cutover | tick => exact hkeep (emitted_yield rfl)
  | subscribed | spawn | forward | forwarderEnds | enter | passRecheck | pass | channelClosed =>
      exact hkeep rfl
  | subscribeFails | answerFails => exact hkeep emitted_fail
  | granted => exact hkeep emitted_hear
  | denied => exact hkeep (emitted_fail.trans emitted_hear)
  | @recv event queue hloc hq =>
      rcases hs with hidle | ⟨-, hmerged⟩
      · simp [hidle.queue] at hq
      · have h := hmerged.complete_observe event
        rw [← emitted_observe, ← taken_observe] at h
        have hord : s.InOrder .recv ↔ (Fresh s.taken event → 0 < event.2.natsSeq →
            ∀ e ∈ s.emitted, e.2.natsSeq < event.2.natsSeq) := by simp [InOrder, hq]
        exact h.trans (and_congr_right' hord.symm)

/-- The merge is lossless when all that was taken has been emitted. -/
theorem MergeInv.lossless_iff {s : AggregatedStream ι} (hs : s.MergeInv) :
    s.Lossless ↔ Complete s.taken s.emitted := by
  have hrising : Rising (fun e : Forwarded ι => e.2.natsSeq) 0 s.emitted := by
    rcases hs with hidle | ⟨-, hmerged⟩
    · rw [hidle.emitted]
      exact rising_nil
    · exact hmerged.tail.rising
  constructor
  · intro h pre e post heq hfresh hpos
    rcases h.all pre e (post ++ s.queue) (by simp [heq]) hfresh hpos with hmem | hle
    · exact hmem
    · simp only [heq, List.length_append, List.length_cons] at hle
      omega
  · intro h
    refine ⟨along_append.mpr ⟨h.mono fun _ _ _ hin hfresh hpos => .inl (hin hfresh hpos), ?_⟩,
      hrising.nodup, fun origin => hrising.pairwise.filter _⟩
    intro pre e post _ _ _
    exact .inr (by simp)

/-- **The fan-in loses nothing exactly when the merged channel is in order.**  Whatever the
sources, the interleaving of their forwarders and the steps of the loop: every event that comes
fresh through a subscription above the cutover is emitted once, in the order of its origin,
exactly when the fresh events leave the merged channel with rising sequences. -/
theorem lossless_iff_inOrder {tr : List (Input ι)} {s : AggregatedStream ι}
    (h : Exec (step args) (start args) tr s) :
    s.Lossless ↔ ExecWhile (step args) InOrder (start args) tr s := by
  have hinv := h.invariant MergeInv mergeInv_start fun _ _ _ ht hst => ht.step hst
  rw [hinv.lossless_iff]
  exact h.iff_execWhile mergeInv_start (fun _ _ _ ht hst => ht.step hst) along_nil
    fun _ _ _ ht hst => complete_step ht hst

end Run

/-- Two source boards, 1 and 2, of a public aggregate. -/
def twoSources : SubscribeAggregatedBoardArgs ℕ where
  auth := ⟨some "t", some "u"⟩
  aggregatedBoardId := "a"
  sourceBoardIds := [1, 2]
  isPrivate := false
  permissionRecheckInterval := 30
  cutoverSeenCapacity := 1024

/-- The event of board `boardId` with sequence `seq`. -/
def sourceEvent (boardId seq : ℕ) (eventId : String) : Forwarded ℕ :=
  (.source boardId, ⟨none, eventId, seq, 1, "system", "CardCreated", .object []⟩)

/-- The stream is opened and has its first pass before it. -/
def opening : List (Input ℕ) :=
  [.cutover, .subscribed, .subscribed, .subscribed, .spawn, .enter 0]

/-- The two events in the order of their sequences. -/
theorem inOrder_twoSources :
    ∃ s, ExecWhile (step twoSources) InOrder (start twoSources) (opening ++
        [.forward (sourceEvent 2 1 "x"), .forward (sourceEvent 1 2 "y"),
          .pass 1, .recv, .pass 2, .recv]) s ∧
      s.emitted = [sourceEvent 2 1 "x", sourceEvent 1 2 "y"] := by
  refine ⟨_, .cons trivial rfl <| .cons trivial rfl <| .cons trivial rfl <| .cons trivial rfl <|
    .cons trivial rfl <| .cons trivial rfl <| .cons trivial rfl <| .cons trivial rfl <|
    .cons trivial rfl <| .cons ?_ rfl <| .cons trivial rfl <| .cons ?_ rfl .nil, rfl⟩
  · intro _ _ _ _ e he
    change e ∈ [] at he
    simp at he
  · intro event hevent _ _ e he
    change e ∈ [sourceEvent 2 1 "x"] at he
    obtain rfl := List.mem_singleton.mp he
    obtain rfl : sourceEvent 1 2 "y" = event := Option.some.inj hevent
    decide

theorem lossless_iff_inOrder_twoSources :
    ∃ s, Exec (step twoSources) (start twoSources) (opening ++
        [.forward (sourceEvent 2 1 "x"), .forward (sourceEvent 1 2 "y"),
          .pass 1, .recv, .pass 2, .recv]) s ∧
      s.Lossless ∧ s.emitted = [sourceEvent 2 1 "x", sourceEvent 1 2 "y"] := by
  obtain ⟨s, hrun, hemitted⟩ := inOrder_twoSources
  exact ⟨s, hrun.exec, (lossless_iff_inOrder hrun.exec).mpr hrun, hemitted⟩

/-- The same two events with the forwarder of board 1 ahead. -/
theorem run_interleaved :
    ∃ s, Exec (step twoSources) (start twoSources) (opening ++
        [.forward (sourceEvent 1 2 "y"), .forward (sourceEvent 2 1 "x"),
          .pass 1, .recv, .pass 2, .recv]) s ∧
      s.taken = [sourceEvent 1 2 "y", sourceEvent 2 1 "x"] ∧ s.queue = [] ∧
      s.emitted = [sourceEvent 1 2 "y"] :=
  ⟨_, exec_of_run rfl, rfl, rfl, rfl⟩

/-- **The claim as stated fails**: two source boards have one event each, with sequences 1 and
2, and the forwarder of the second event runs first. -/
theorem not_lossless_interleaved :
    ¬ ∀ (args : SubscribeAggregatedBoardArgs ℕ) (tr : List (Input ℕ)) (s : AggregatedStream ℕ),
      Exec (step args) (start args) tr s →
      ((s.taken ++ s.queue).map fun e => e.2.natsSeq).Nodup →
      (∀ origin, ((s.taken ++ s.queue).filter (·.1 = origin)).Pairwise
        fun e f => e.2.natsSeq < f.2.natsSeq) → s.Lossless := by
  intro hall
  obtain ⟨s, hrun, htaken, hqueue, hemitted⟩ := run_interleaved
  have hreceived : s.taken ++ s.queue = [sourceEvent 1 2 "y", sourceEvent 2 1 "x"] := by
    rw [htaken, hqueue, List.append_nil]
  have h := hall twoSources _ s hrun (by rw [hreceived]; decide) (fun origin => by
    rw [hreceived]
    rcases origin with _ | b
    · simp [sourceEvent]
    · by_cases h1 : 1 = b <;> by_cases h2 : 2 = b <;> simp [sourceEvent, h1, h2]
      omega)
  have hfresh : Fresh [sourceEvent 1 2 "y"] (sourceEvent 2 1 "x") := by
    intro e he
    rw [List.mem_singleton.mp he]
    decide
  rcases h.all _ _ [] hreceived hfresh (by decide) with hmem | hle
  · rw [hemitted] at hmem
    simp [sourceEvent] at hmem
  · simp [htaken] at hle

end AggregatedStream

end Kanban.Services
