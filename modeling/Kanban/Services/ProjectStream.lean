import Kanban.Lib.FanIn
import Kanban.Services.FreshSubscription
import Kanban.Services.Staleness
import Kanban.Services.Subscriptions

/-!
# The project stream

`services/projects.rs`, `subscribe_project`: one board stream for each board of the project and
the events of the project itself, merged into one.  A task forwards each board stream into a
bounded channel; the loop yields what comes out of the channel, the events of the project, and
heartbeats of its own, and rechecks the view of the project.

The tasks, the registry and the outbox run beside the loop, so their labels come at any point.
The boards share one outbox, and each is a fresh subscription to it.

## Main definitions

* `ProjectStream`, `ProjectStream.step` — the loop with its boards.
* `ProjectStream.Step`, `ProjectStream.step_cases` — what one step does.
-/

namespace Kanban.Services

open Machine History Kanban.Realtime

/-- Arguments of the stream that `subscribe_project` makes. -/
structure SubscribeProjectArgs where
  auth : AuthContext
  projectId : String
  permissionRecheckInterval : ℕ
  boards : List SubscribeBoardArgs
  deriving DecidableEq, Repr

namespace ProjectStream

/-- The capacity of the channel. -/
def channelCapacity : ℕ := 256

/-- What the stream yields. -/
inductive Item
  /-- An envelope of the board stream with this number. -/
  | board (i : ℕ) (item : Services.Item)
  | project (e : BoardEventEnvelope String)
  | heartbeat
  | error (e : ConnectError)

/-- Where the stream stands. -/
inductive Loc
  /-- Awaiting the registry subscription, before the stream is made. -/
  | subscribe
  /-- Before the first pass. -/
  | enter
  /-- At the head of a pass. -/
  | top
  /-- Awaiting the permission recheck. -/
  | recheck
  /-- Waiting for an envelope or a heartbeat. -/
  | select
  /-- Both sources have ended. -/
  | ended
  /-- An error was yielded. -/
  | failed
  /-- The caller has gone. -/
  | dropped
  deriving DecidableEq, Repr

/-- The loop is still there, and with it the receiver of the channel. -/
def Loc.isOpen : Loc → Bool
  | .ended | .failed | .dropped => false
  | _ => true

/-- The tasks have been spawned. -/
def Loc.spawned : Loc → Bool
  | .subscribe | .enter => false
  | _ => true

/-- Where the task of a board stands. -/
inductive Forwarder
  /-- Awaiting the next item of the board stream. -/
  | next
  /-- Awaiting room in the channel. -/
  | send (item : Services.Item)
  /-- Ended, with its sender dropped. -/
  | done

def Forwarder.isNext : Forwarder → Bool
  | .next => true
  | _ => false

def Forwarder.isDone : Forwarder → Bool
  | .done => true
  | _ => false

/-- The envelope that the task is sending. -/
def Forwarder.holding : Forwarder → List Services.Item
  | .send item => [item]
  | _ => []

/-- What the task does with an item: heartbeats are left out, an error ends the task. -/
def Forwarder.handle : Services.Item → Forwarder
  | .heartbeat => .next
  | .error _ => .done
  | item => .send item

/-- The task after a step of the board stream that has yielded `items`. -/
def Forwarder.after (items : List Services.Item) (closed : Bool) : Forwarder :=
  match items with
  | item :: _ => handle item
  | [] => if closed then .done else .next

/-- A board of the project: its subscription, and the task that forwards its stream. -/
structure Child extends Subscriber where
  maxRead : Option ℕ
  reads : List (List String)
  task : Forwarder

namespace Child

/-- A board stream before its first poll. -/
def start (args : SubscribeBoardArgs) : Child where
  toSubscriber := .start args
  maxRead := none
  reads := []
  task := .next

/-- The board with the outbox is a fresh subscription. -/
def fresh (c : Child) (outbox : Outbox String) : FreshSubscription where
  toSubscriber := c.toSubscriber
  outbox := outbox
  evicted := 0
  maxRead := c.maxRead
  reads := c.reads

/-- The board after a step of its subscription. -/
def put (c : Child) (f : FreshSubscription) (task : Forwarder) : Child :=
  { c with toSubscriber := f.toSubscriber, maxRead := f.maxRead, reads := f.reads, task := task }

end Child

/-- What the registry does beside the stream of a board. -/
inductive Pumping
  | openConsumer
  | pump
  | pumpEnds
  | abort

def Pumping.action : Pumping → FreshSubscription.Action
  | .openConsumer => .subscriber .openConsumer
  | .pump => .subscriber .pump
  | .pumpEnds => .subscriber .pumpEnds
  | .abort => .subscriber .abort

/-- What a task awaits of its board stream. -/
inductive Polling
  | readMax
  | read
  | join
  | recv
  | stream (a : Services.Input)

def Polling.action : Polling → FreshSubscription.Action
  | .readMax => .readMax
  | .read => .read
  | .join => .subscriber .join
  | .recv => .subscriber .recv
  | .stream a => .subscriber (.stream a)

end ProjectStream

open ProjectStream in
/-- The stream, its tasks and the outbox.  `tail` is the subscription to the events of the
project, `subscribed` whether the loop still has it, and `taken` what came through it. -/
structure ProjectStream where
  outbox : Outbox String
  boards : List Child
  tail : LiveTail String
  subscribed : Bool
  taken : List (BoardEventEnvelope String)
  queue : List (ℕ × Services.Item)
  childrenOpen : Bool
  loc : ProjectStream.Loc
  lastPermissionRecheck : ℕ
  clock : ℕ
  trace : List (Obs ProjectStream.Item)

namespace ProjectStream

inductive Input
  | outbox (a : Outbox.Action String)
  /-- The registry serves the channel of a board. -/
  | pump (i : ℕ) (a : Pumping)
  /-- The task of a board polls its stream. -/
  | poll (i : ℕ) (a : Polling)
  /-- The task of a board sends what it holds. -/
  | send (i : ℕ)
  /-- The registry serves the channel of the project. -/
  | tail (a : Pumping)
  | subscribed
  | subscribeFails
  | enter (now : ℕ)
  | pass (now : ℕ)
  | answer (granted : Bool) (now : ℕ)
  | answerFails
  | recvChild
  | childrenEnd
  | recvProject
  /-- The project's channel has overwritten `n` envelopes that wait. -/
  | lagged (n : ℕ)
  | projectClosed
  | tick
  /-- The caller goes away. -/
  | disconnect

variable (batchSize : ℕ) (args : SubscribeProjectArgs)

def start (revision : Counter String → Option ℕ) : ProjectStream where
  outbox := .new revision
  boards := args.boards.map .start
  tail := .new
  subscribed := false
  taken := []
  queue := []
  childrenOpen := !args.boards.isEmpty
  loc := .subscribe
  lastPermissionRecheck := 0
  clock := 0
  trace := []

def yield (s : ProjectStream) (item : Item) : ProjectStream :=
  { s with trace := s.trace ++ [.yielded item] }

/-- Yield an error and end. -/
def fail (s : ProjectStream) (code : ErrorCode) (message : String) : ProjectStream :=
  { s.yield (.error ⟨code, message⟩) with loc := .failed }

/-- The question of the permission recheck. -/
def recheckQuery : PermissionQuery := viewQuery args.auth "KanbanProject" args.projectId

/-- The answer of the permission backend to the recheck. -/
def hear (s : ProjectStream) (granted : Bool) : ProjectStream :=
  { s with trace := s.trace ++ [.answered (recheckQuery args) granted] }

/-- The ids that the boards draw are new. -/
def FreshIds (s : ProjectStream) : Prop := ∀ c ∈ s.boards, (c.fresh s.outbox).FreshIds

instance (s : ProjectStream) : Decidable s.FreshIds :=
  inferInstanceAs (Decidable (∀ c ∈ s.boards, (c.fresh s.outbox).FreshIds))

/-- The registry serves the channel of the project. -/
def serveTail (s : ProjectStream) : Pumping → Option (LiveTail String)
  | .openConsumer => s.tail.openConsumer
  | .pump => s.tail.pump s.outbox.stream (.project args.projectId) 0
  | .pumpEnds => some s.tail.pumpEnds
  | .abort => some s.tail.abort

/-- A step of the subscription of board `i`. -/
def stepBoard (s : ProjectStream) (i : ℕ) (c : Child) (a : FreshSubscription.Action) :
    Option FreshSubscription :=
  args.boards[i]?.bind fun board => (c.fresh s.outbox).step batchSize board a

/-- A step of the stream, its tasks or its surroundings. -/
def step (s : ProjectStream) : Input → Option ProjectStream
  | .outbox a =>
      ((s.outbox.step batchSize a).map fun outbox => { s with outbox := outbox }).filter
        fun t => t.FreshIds
  | .pump i a => do
      let c ← s.boards[i]?
      let f ← s.stepBoard batchSize args i c a.action
      some { s with boards := s.boards.set i (c.put f c.task) }
  | .poll i a => do
      let c ← s.boards[i]?
      if s.loc.spawned ∧ c.task.isNext then
        let f ← s.stepBoard batchSize args i c a.action
        let task := Forwarder.after (c.stream.yields f.stream) f.stream.isClosed
        some { s with boards := s.boards.set i (c.put f task) }
      else none
  | .send i => do
      let c ← s.boards[i]?
      match c.task with
      | .send item =>
          if s.loc.isOpen then
            if s.queue.length < channelCapacity then
              some { s with
                boards := s.boards.set i { c with task := .next }
                queue := s.queue ++ [(i, item)] }
            else none
          -- the receiver is gone
          else some { s with boards := s.boards.set i { c with task := .done } }
      | _ => none
  | .tail a => (s.serveTail args a).map fun tail => { s with tail := tail }
  | .subscribed =>
      match s.loc with
      | .subscribe => s.tail.join.map fun tail =>
          { s with tail := tail, subscribed := true, loc := .enter }
      | _ => none
  | .subscribeFails =>
      match s.loc with
      | .subscribe => some { s with loc := .enter }
      | _ => none
  | .enter now =>
      match s.loc with
      | .enter =>
          if s.clock ≤ now then
            some { s with loc := .top, lastPermissionRecheck := now, clock := now }
          else none
      | _ => none
  | .pass now =>
      match s.loc with
      | .top =>
          if s.clock ≤ now then
            -- `revalidate_token` always succeeds
            if args.permissionRecheckInterval ≤ now - s.lastPermissionRecheck then
              some { s with loc := .recheck, clock := now }
            else some { s with loc := .select, clock := now }
          else none
      | _ => none
  | .answer granted now =>
      match s.loc with
      | .recheck =>
          if s.clock ≤ now then
            if granted then
              some { s.hear args true with
                loc := .select
                clock := now
                lastPermissionRecheck := now }
            else some ((s.hear args false).fail .permissionDenied "permission revoked mid-stream")
          else none
      | _ => none
  | .answerFails =>
      match s.loc with
      | .recheck => some (s.fail .internal "authorization check failed")
      | _ => none
  | .recvChild =>
      match s.loc, s.childrenOpen, s.queue with
      | .select, true, (i, item) :: queue =>
          some { s.yield (.board i item) with loc := .top, queue := queue }
      | _, _, _ => none
  | .childrenEnd =>
      match s.loc, s.childrenOpen, s.queue with
      | .select, true, [] =>
          if s.boards.all fun c => c.task.isDone then
            some { s with
              childrenOpen := false
              loc := if s.subscribed then .top else .ended }
          else none
      | _, _, _ => none
  | .recvProject =>
      match s.loc, s.subscribed with
      | .select, true => s.tail.take.map fun r =>
          { s.yield (.project r.1) with loc := .top, tail := r.2, taken := s.taken ++ [r.1] }
      | _, _ => none
  | .lagged n =>
      match s.loc, s.subscribed with
      | .select, true =>
          if n ≤ s.tail.buffer.length then some { s with loc := .top, tail := s.tail.skip n }
          else none
      | _, _ => none
  | .projectClosed =>
      match s.loc, s.subscribed, s.tail.closed with
      | .select, true, true =>
          some { s with
            subscribed := false
            loc := if s.childrenOpen then .top else .ended }
      | _, _, _ => none
  | .tick =>
      match s.loc with
      | .select => some { s.yield .heartbeat with loc := .top }
      | _ => none
  | .disconnect => if s.loc.isOpen then some { s with loc := .dropped } else none

/-- What one step does, case by case. -/
inductive Step (s : ProjectStream) : Input → ProjectStream → Prop
  | outbox {a outbox} : s.outbox.step batchSize a = some outbox →
      FreshIds { s with outbox := outbox } → Step s (.outbox a) { s with outbox := outbox }
  | pump {i a c board f} : s.boards[i]? = some c → args.boards[i]? = some board →
      (c.fresh s.outbox).step batchSize board a.action = some f →
      Step s (.pump i a) { s with boards := s.boards.set i (c.put f c.task) }
  | poll {i a c board f} : s.boards[i]? = some c → args.boards[i]? = some board →
      s.loc.spawned → c.task = .next →
      (c.fresh s.outbox).step batchSize board a.action = some f →
      Step s (.poll i a) { s with
        boards := s.boards.set i
          (c.put f (.after (c.stream.yields f.stream) f.stream.isClosed)) }
  | send {i c item} : s.boards[i]? = some c → c.task = .send item → s.loc.isOpen →
      s.queue.length < channelCapacity →
      Step s (.send i) { s with
        boards := s.boards.set i { c with task := .next }
        queue := s.queue ++ [(i, item)] }
  | sendFails {i c item} : s.boards[i]? = some c → c.task = .send item → s.loc.isOpen = false →
      Step s (.send i) { s with boards := s.boards.set i { c with task := .done } }
  | tail {a tail} : s.serveTail args a = some tail → Step s (.tail a) { s with tail := tail }
  | subscribed {tail} : s.loc = .subscribe → s.tail.join = some tail →
      Step s .subscribed { s with tail := tail, subscribed := true, loc := .enter }
  | subscribeFails : s.loc = .subscribe → Step s .subscribeFails { s with loc := .enter }
  | enter {now} : s.loc = .enter → s.clock ≤ now →
      Step s (.enter now) { s with loc := .top, lastPermissionRecheck := now, clock := now }
  | passRecheck {now} : s.loc = .top → s.clock ≤ now →
      args.permissionRecheckInterval ≤ now - s.lastPermissionRecheck →
      Step s (.pass now) { s with loc := .recheck, clock := now }
  | pass {now} : s.loc = .top → s.clock ≤ now →
      ¬ args.permissionRecheckInterval ≤ now - s.lastPermissionRecheck →
      Step s (.pass now) { s with loc := .select, clock := now }
  | granted {now} : s.loc = .recheck → s.clock ≤ now →
      Step s (.answer true now) { s.hear args true with
        loc := .select
        clock := now
        lastPermissionRecheck := now }
  | denied {now} : s.loc = .recheck → s.clock ≤ now →
      Step s (.answer false now)
        ((s.hear args false).fail .permissionDenied "permission revoked mid-stream")
  | answerFails : s.loc = .recheck →
      Step s .answerFails (s.fail .internal "authorization check failed")
  | recvChild {i item queue} : s.loc = .select → s.childrenOpen = true →
      s.queue = (i, item) :: queue →
      Step s .recvChild { s.yield (.board i item) with loc := .top, queue := queue }
  | childrenEnd : s.loc = .select → s.childrenOpen = true → s.queue = [] →
      (∀ c ∈ s.boards, c.task = .done) →
      Step s .childrenEnd { s with
        childrenOpen := false
        loc := if s.subscribed then .top else .ended }
  | recvProject {e tail} : s.loc = .select → s.subscribed = true → s.tail.take = some (e, tail) →
      Step s .recvProject
        { s.yield (.project e) with loc := .top, tail := tail, taken := s.taken ++ [e] }
  | lagged {n} : s.loc = .select → s.subscribed = true → n ≤ s.tail.buffer.length →
      Step s (.lagged n) { s with loc := .top, tail := s.tail.skip n }
  | projectClosed : s.loc = .select → s.subscribed = true → s.tail.closed = true →
      Step s .projectClosed { s with
        subscribed := false
        loc := if s.childrenOpen then .top else .ended }
  | tick : s.loc = .select → Step s .tick { s.yield .heartbeat with loc := .top }
  | disconnect : s.loc.isOpen → Step s .disconnect { s with loc := .dropped }

section StepCases

variable {batchSize args} {s t : ProjectStream} {a : Input}

theorem Forwarder.isNext_iff {task : Forwarder} : task.isNext ↔ task = .next := by
  cases task <;> simp [isNext]

theorem Forwarder.isDone_iff {task : Forwarder} : task.isDone ↔ task = .done := by
  cases task <;> simp [isDone]

theorem stepBoard_eq {i : ℕ} {c : Child} {b : FreshSubscription.Action} {f : FreshSubscription}
    (h : s.stepBoard batchSize args i c b = some f) :
    ∃ board, args.boards[i]? = some board ∧ (c.fresh s.outbox).step batchSize board b = some f :=
  Option.bind_eq_some_iff.mp h

theorem step_cases (hstep : s.step batchSize args a = some t) : Step batchSize args s a t := by
  cases a with
  | outbox a =>
      obtain ⟨hmap, hfresh⟩ := Option.filter_eq_some_iff.mp hstep
      obtain ⟨_, h, rfl⟩ := Option.map_eq_some_iff.mp hmap
      exact .outbox h (of_decide_eq_true hfresh)
  | pump i a =>
      obtain ⟨c, hc, hstep⟩ := Option.bind_eq_some_iff.mp hstep
      obtain ⟨f, hf, hstep⟩ := Option.bind_eq_some_iff.mp hstep
      obtain rfl := Option.some.inj hstep
      obtain ⟨board, hboard, hf⟩ := stepBoard_eq hf
      exact .pump hc hboard hf
  | poll i a =>
      obtain ⟨c, hc, hstep⟩ := Option.bind_eq_some_iff.mp hstep
      split at hstep
      · rename_i hcond
        obtain ⟨f, hf, hstep⟩ := Option.bind_eq_some_iff.mp hstep
        obtain rfl := Option.some.inj hstep
        obtain ⟨board, hboard, hf⟩ := stepBoard_eq hf
        exact .poll hc hboard hcond.1 (Forwarder.isNext_iff.mp hcond.2) hf
      · cases hstep
  | send i =>
      obtain ⟨c, hc, hstep⟩ := Option.bind_eq_some_iff.mp hstep
      split at hstep
      · rename_i hsend
        split at hstep
        · rename_i hopen
          split at hstep
          · obtain rfl := Option.some.inj hstep; exact .send hc hsend hopen ‹_›
          · cases hstep
        · obtain rfl := Option.some.inj hstep
          exact .sendFails hc hsend (by simpa using ‹¬ s.loc.isOpen = true›)
      · cases hstep
  | tail a =>
      obtain ⟨_, h, rfl⟩ := Option.map_eq_some_iff.mp hstep
      exact .tail h
  | subscribed =>
      simp only [step] at hstep
      split at hstep
      · obtain ⟨_, h, rfl⟩ := Option.map_eq_some_iff.mp hstep
        exact .subscribed ‹_› h
      · cases hstep
  | subscribeFails =>
      simp only [step] at hstep
      split at hstep
      · obtain rfl := Option.some.inj hstep; exact .subscribeFails ‹_›
      · cases hstep
  | enter now =>
      simp only [step] at hstep
      split at hstep
      · split at hstep
        · obtain rfl := Option.some.inj hstep; exact .enter ‹_› ‹_›
        · cases hstep
      · cases hstep
  | pass now =>
      simp only [step] at hstep
      split at hstep
      · split at hstep
        · split at hstep <;> obtain rfl := Option.some.inj hstep
          · exact .passRecheck ‹_› ‹_› ‹_›
          · exact .pass ‹_› ‹_› ‹_›
        · cases hstep
      · cases hstep
  | answer granted now =>
      simp only [step] at hstep
      split at hstep
      · split at hstep
        · cases granted <;> obtain rfl := Option.some.inj hstep
          · exact .denied ‹_› ‹_›
          · exact .granted ‹_› ‹_›
        · cases hstep
      · cases hstep
  | answerFails =>
      simp only [step] at hstep
      split at hstep
      · obtain rfl := Option.some.inj hstep; exact .answerFails ‹_›
      · cases hstep
  | recvChild =>
      simp only [step] at hstep
      split at hstep
      · obtain rfl := Option.some.inj hstep; exact .recvChild ‹_› ‹_› ‹_›
      · cases hstep
  | childrenEnd =>
      simp only [step] at hstep
      split at hstep
      · split at hstep
        · rename_i hall
          obtain rfl := Option.some.inj hstep
          exact .childrenEnd ‹_› ‹_› ‹_› fun c hc =>
            Forwarder.isDone_iff.mp (List.all_eq_true.mp hall c hc)
        · cases hstep
      · cases hstep
  | recvProject =>
      simp only [step] at hstep
      split at hstep
      · obtain ⟨_, h, rfl⟩ := Option.map_eq_some_iff.mp hstep
        exact .recvProject ‹_› ‹_› h
      · cases hstep
  | lagged n =>
      simp only [step] at hstep
      split at hstep
      · split at hstep
        · obtain rfl := Option.some.inj hstep; exact .lagged ‹_› ‹_› ‹_›
        · cases hstep
      · cases hstep
  | projectClosed =>
      simp only [step] at hstep
      split at hstep
      · obtain rfl := Option.some.inj hstep; exact .projectClosed ‹_› ‹_› ‹_›
      · cases hstep
  | tick =>
      simp only [step] at hstep
      split at hstep
      · obtain rfl := Option.some.inj hstep; exact .tick ‹_›
      · cases hstep
  | disconnect =>
      simp only [step] at hstep
      split at hstep
      · obtain rfl := Option.some.inj hstep; exact .disconnect ‹_›
      · cases hstep

end StepCases

end ProjectStream

end Kanban.Services
