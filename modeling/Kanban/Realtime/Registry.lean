import Mathlib.Data.List.Count
import Mathlib.Logic.Function.Basic
import Kanban.Lib.Exec

/-!
# The board subscriber registry

`realtime/registry.rs`: one push consumer and one broadcast channel per subscribed board
or project on a pod, shared by reference counting.  `subscribe_object` checks the map,
releases its lock, awaits the stream and the consumer, spawns the pump task and only then
takes the write lock again to insert the channel.  Every lock section and every await
is one step here, so the labels of a run are an interleaving of any number of calls and
handle drops.

## Main definitions

* `Registry` — the map, the calls in progress, the live handles and the running pumps.
* `Registry.step` — one lock section, one await, one drop or one pump exit.
* `Registry.Accounting` — one channel, one refcount and one pump for each subscribed key.
* `Registry.OpenAccounting` — the same up to the pumps that a call has spawned and not
  yet inserted.
* `Registry.Vacant` — the insert of a call finds its key vacant, and no pump exits.
-/

namespace Kanban.Realtime

open Machine

/-- Registry entry: the broadcast sender, the pump task and the number of live handles. -/
structure BoardChannel where
  sender : ℕ
  consumerTask : ℕ
  refcount : ℕ
  deriving DecidableEq, Repr

/-- A handle to an active subscription; `boardId` is the map key. -/
structure StreamHandle where
  boardId : String
  receiver : ℕ
  deriving DecidableEq, Repr

/-- A running pump task and the broadcast channel it sends to. -/
structure Pump where
  task : ℕ
  key : String
  sender : ℕ
  deriving DecidableEq, Repr

/-- Where a `subscribe_object` call stands. -/
inductive Pc
  /-- Before the read-lock section. -/
  | readCheck
  /-- Between the read lock and the write lock of the fast path. -/
  | writeJoin
  /-- Awaiting `get_stream`. -/
  | getStream
  /-- Awaiting `create_consumer`. -/
  | createConsumer
  /-- The pump is spawned and its receiver created; before the inserting write lock. -/
  | insert (channel : ℕ)
  deriving DecidableEq, Repr

/-- The call is about to insert its channel. -/
def Pc.inserting : Pc → Bool
  | .insert _ => true
  | _ => false

/-- The registry of one pod with the tasks around it.  `next` names the next broadcast
channel and its pump task. -/
structure Registry where
  boards : String → Option BoardChannel
  calls : ℕ → Option (String × Pc)
  handles : List StreamHandle
  pumps : List Pump
  next : ℕ

namespace Registry

def new : Registry where
  boards := fun _ => none
  calls := fun _ => none
  handles := []
  pumps := []
  next := 0

/-- A call moves on within `subscribe_object`. -/
def goto (s : Registry) (i : ℕ) (key : String) (pc : Pc) : Registry :=
  { s with calls := Function.update s.calls i (some (key, pc)) }

/-- `subscribe_object` is called under the task name `i`. -/
def subscribeObject (s : Registry) (i : ℕ) (mapKey : String) : Option Registry :=
  match s.calls i with
  | none => some (s.goto i mapKey .readCheck)
  | some _ => none

/-- Put a channel under its key and return a handle of it to the caller `i`. -/
def store (s : Registry) (i : ℕ) (key : String) (ch : BoardChannel) : Registry :=
  { s with
    boards := Function.update s.boards key (some ch)
    calls := Function.update s.calls i none
    handles := ⟨key, ch.sender⟩ :: s.handles }

/-- A new broadcast channel, its pump task and its first receiver. -/
def spawnPump (s : Registry) (i : ℕ) (key : String) : Registry :=
  { s with
    calls := Function.update s.calls i (some (key, .insert s.next))
    pumps := ⟨s.next, key, s.next⟩ :: s.pumps
    next := s.next + 1 }

/-- The next atomic section of the call `i`. -/
def proceed (s : Registry) (i : ℕ) : Option Registry :=
  match s.calls i with
  | none => none
  | some (key, .readCheck) =>
      if (s.boards key).isSome then some (s.goto i key .writeJoin)
      else some (s.goto i key .getStream)
  | some (key, .writeJoin) =>
      match s.boards key with
      | some ch => some (s.store i key { ch with refcount := ch.refcount + 1 })
      | none => some (s.goto i key .getStream)
  | some (key, .getStream) => some (s.goto i key .createConsumer)
  | some (key, .createConsumer) => some (s.spawnPump i key)
  | some (key, .insert c) => some (s.store i key ⟨c, c, 1⟩)

/-- `get_stream` or `create_consumer` returns an error, or the call's future is dropped
at one of these awaits. -/
def fail (s : Registry) (i : ℕ) : Option Registry :=
  match s.calls i with
  | some (_, .getStream) | some (_, .createConsumer) =>
      some { s with calls := Function.update s.calls i none }
  | _ => none

/-- Decrement the refcount for `mapKey`; at zero remove the entry and abort its pump. -/
def decrementRefcount (s : Registry) (mapKey : String) : Registry :=
  match s.boards mapKey with
  | some ch =>
      if ch.refcount - 1 = 0 then
        { s with
          boards := Function.update s.boards mapKey none
          pumps := s.pumps.filter (·.task ≠ ch.consumerTask) }
      else
        { s with
          boards := Function.update s.boards mapKey
            (some { ch with refcount := ch.refcount - 1 }) }
  | none => s

/-- `StreamHandle::drop`. -/
def dropHandle (s : Registry) (h : StreamHandle) : Option Registry :=
  if h ∈ s.handles then
    some ({ s with handles := s.handles.erase h }.decrementRefcount h.boardId)
  else none

inductive Action
  | subscribe (i : ℕ) (boardId : String)
  | subscribeProject (i : ℕ) (projectId : String)
  | proceed (i : ℕ)
  | fail (i : ℕ)
  | drop (h : StreamHandle)
  /-- A pump task returns by itself: its message stream failed to open or ended. -/
  | pumpEnds (p : Pump)
  deriving DecidableEq, Repr

def step (s : Registry) : Action → Option Registry
  | .subscribe i boardId => s.subscribeObject i ("board:" ++ boardId)
  | .subscribeProject i projectId => s.subscribeObject i ("project:" ++ projectId)
  | .proceed i => s.proceed i
  | .fail i => s.fail i
  | .drop h => s.dropHandle h
  | .pumpEnds p =>
      if p ∈ s.pumps then some { s with pumps := s.pumps.filter (·.task ≠ p.task) } else none

/-! ## The accounting -/

/-- The number of live handles of a key. -/
def liveHandles (s : Registry) (k : String) : ℕ := s.handles.countP (·.boardId = k)

/-- A call stands between spawning the pump `c` for `k` and inserting its channel. -/
def Held (s : Registry) (k : String) (c : ℕ) : Prop := ∃ i, s.calls i = some (k, .insert c)

/-- A pump whose channel is in the map under its key. -/
def Registered (s : Registry) (p : Pump) : Prop :=
  ∃ ch, s.boards p.key = some ch ∧ ch.consumerTask = p.task ∧ ch.sender = p.sender

/-- The map holds a channel for a key iff a handle for it is live, with the number of live
handles as its refcount; exactly one pump runs for such a key and feeds the receivers of
all these handles; and no pump runs without being in the map. -/
structure Accounting (s : Registry) : Prop where
  channel_iff : ∀ k, (s.boards k).isSome ↔ ∃ h ∈ s.handles, h.boardId = k
  refcount : ∀ k ch, s.boards k = some ch → ch.refcount = s.liveHandles k
  pump : ∀ k ch, s.boards k = some ch → ∃ p, (∀ q, q ∈ s.pumps ∧ q.key = k ↔ q = p) ∧
    ∀ h ∈ s.handles, h.boardId = k → h.receiver = p.sender
  registered : ∀ p ∈ s.pumps, s.Registered p

/-- The accounting while calls are under way: the running pumps are those of the map and
those that a call holds. -/
structure OpenAccounting (s : Registry) : Prop where
  channel_iff : ∀ k, (s.boards k).isSome ↔ ∃ h ∈ s.handles, h.boardId = k
  refcount : ∀ k ch, s.boards k = some ch → ch.refcount = s.liveHandles k
  pump : ∀ p, p ∈ s.pumps ↔ s.Registered p ∨ s.Held p.key p.task ∧ p.sender = p.task
  feeds : ∀ k ch, s.boards k = some ch →
    ∀ h ∈ s.handles, h.boardId = k → h.receiver = ch.sender

/-- The condition on a step: an insert finds its key vacant, and no pump exits by itself. -/
def Vacant (s : Registry) : Action → Prop
  | .proceed i => ∀ call ∈ s.calls i, call.2.inserting → s.boards call.1 = none
  | .pumpEnds _ => False
  | _ => True

instance (s : Registry) : ∀ a, Decidable (s.Vacant a)
  | .proceed i =>
      inferInstanceAs (Decidable (∀ call ∈ s.calls i, call.2.inserting → s.boards call.1 = none))
  | .pumpEnds _ => inferInstanceAs (Decidable False)
  | .subscribe _ _ | .subscribeProject _ _ | .fail _ | .drop _ => inferInstanceAs (Decidable True)

theorem liveHandles_pos {s : Registry} {k : String} :
    0 < s.liveHandles k ↔ ∃ h ∈ s.handles, h.boardId = k := by
  simp [liveHandles, List.countP_pos_iff]

/-- The broadcast channel and the pump task under a key. -/
def wiring (s : Registry) (k : String) : Option (ℕ × ℕ) :=
  (s.boards k).map fun ch => (ch.sender, ch.consumerTask)

/-- The running pumps are the registered and the held ones, all under distinct tasks that
have been spawned. -/
structure Wired (s : Registry) : Prop where
  pump : ∀ p, p ∈ s.pumps ↔
    s.wiring p.key = some (p.sender, p.task) ∨ s.Held p.key p.task ∧ p.sender = p.task
  task_lt : ∀ k b c, s.wiring k = some (b, c) → c < s.next
  held_lt : ∀ k c, s.Held k c → c < s.next
  task_inj : ∀ k k' b b' c, s.wiring k = some (b, c) → s.wiring k' = some (b', c) → k = k'
  held_ne : ∀ k k' b c, s.wiring k = some (b, c) → ¬ s.Held k' c
  held_inj : ∀ i j k k' c, s.calls i = some (k, .insert c) → s.calls j = some (k', .insert c) →
    i = j

/-- Every refcount is positive and counts the live handles, and these listen to the
channel of their key. -/
structure Counted (s : Registry) : Prop where
  refcount : ∀ k, (s.boards k).elim 0 BoardChannel.refcount = s.liveHandles k
  positive : ∀ k ch, s.boards k = some ch → 0 < ch.refcount
  feeds : ∀ h ∈ s.handles, ∀ b c, s.wiring h.boardId = some (b, c) → h.receiver = b

/-- The invariant of the registry. -/
structure Inv (s : Registry) : Prop where
  wired : s.Wired
  counted : s.Counted

theorem wiring_of_boards {s : Registry} {k : String} {ch : BoardChannel}
    (h : s.boards k = some ch) : s.wiring k = some (ch.sender, ch.consumerTask) := by
  rw [wiring, h]; rfl

theorem registered_iff {s : Registry} {p : Pump} :
    s.Registered p ↔ s.wiring p.key = some (p.sender, p.task) := by
  simp [Registered, wiring, and_comm]

theorem Inv.openAccounting {s : Registry} (hs : s.Inv) : s.OpenAccounting where
  channel_iff k := by
    rw [← liveHandles_pos, ← hs.counted.refcount k]
    cases hb : s.boards k with
    | none => simp
    | some ch => simpa using hs.counted.positive k ch hb
  refcount k ch hb := by simpa [hb] using hs.counted.refcount k
  pump p := by rw [registered_iff]; exact hs.wired.pump p
  feeds k ch hb h hh hk := hs.counted.feeds h hh _ _ (wiring_of_boards (hk ▸ hb))

/-- **With no call between spawn and insert the accounting is exact**, and only then. -/
theorem Inv.accounting_iff {s : Registry} (hs : s.Inv) :
    s.Accounting ↔ ¬ ∃ k c, s.Held k c := by
  constructor
  · rintro ha ⟨k, c, hheld⟩
    have hmem : (⟨c, k, c⟩ : Pump) ∈ s.pumps := (hs.wired.pump _).mpr (.inr ⟨hheld, rfl⟩)
    exact hs.wired.held_ne _ _ _ c (registered_iff.mp (ha.registered _ hmem)) hheld
  · intro hfree
    have hreg : ∀ p, p ∈ s.pumps ↔ s.Registered p := by
      intro p
      rw [hs.wired.pump, registered_iff]
      exact or_iff_left fun h => hfree ⟨_, _, h.1⟩
    have ho := hs.openAccounting
    refine ⟨ho.channel_iff, ho.refcount, fun k ch hb => ?_, fun p hp => (hreg p).mp hp⟩
    refine ⟨⟨ch.consumerTask, k, ch.sender⟩, fun q => ⟨?_, ?_⟩, ho.feeds k ch hb⟩
    · rintro ⟨hq, rfl⟩
      obtain ⟨ch', hb', htask, hsender⟩ := (hreg q).mp hq
      obtain rfl : ch = ch' := Option.some.inj (hb.symm.trans hb')
      rw [htask, hsender]
    · rintro rfl
      exact ⟨(hreg _).mpr ⟨ch, hb, rfl, rfl⟩, rfl⟩

theorem inv_new : new.Inv where
  wired := by
    refine ⟨fun p => ?_, ?_, ?_, ?_, ?_, ?_⟩ <;> simp [new, wiring, Held]
  counted := by
    refine ⟨fun k => rfl, ?_, ?_⟩ <;> simp [new]

/-! ## Each section keeps the invariant -/

/-- The wiring invariant sees the calls only through the inserts under way, and the map
only through its wiring. -/
theorem Wired.congr {s t : Registry} (hs : s.Wired) (hw : ∀ k, t.wiring k = s.wiring k)
    (hc : ∀ j k c, t.calls j = some (k, .insert c) ↔ s.calls j = some (k, .insert c))
    (hp : t.pumps = s.pumps) (hn : t.next = s.next) : t.Wired := by
  have hheld : ∀ k c, t.Held k c ↔ s.Held k c := fun k c => exists_congr fun j => hc j k c
  refine ⟨fun p => ?_, fun k b c => ?_, fun k c => ?_, fun k k' b b' c => ?_,
    fun k k' b c => ?_, fun i j k k' c => ?_⟩
  · rw [hp, hw, hheld]; exact hs.pump p
  · rw [hw, hn]; exact hs.task_lt k b c
  · rw [hheld, hn]; exact hs.held_lt k c
  · rw [hw, hw]; exact hs.task_inj k k' b b' c
  · rw [hw, hheld]; exact hs.held_ne k k' b c
  · rw [hc, hc]; exact hs.held_inj i j k k' c

/-- A change of one call that neither enters nor leaves the window between spawn and
insert. -/
theorem update_calls_iff {f : ℕ → Option (String × Pc)} {i : ℕ} {v : Option (String × Pc)}
    (hi : ∀ k c, f i ≠ some (k, .insert c)) (hv : ∀ k c, v ≠ some (k, .insert c))
    (j : ℕ) (k : String) (c : ℕ) :
    Function.update f i v j = some (k, .insert c) ↔ f j = some (k, .insert c) := by
  by_cases hj : j = i
  · subst hj
    rw [Function.update_self]
    exact ⟨fun h => (hv k c h).elim, fun h => (hi k c h).elim⟩
  · rw [Function.update_of_ne hj]

theorem Inv.setCall {s : Registry} (hs : s.Inv) {i : ℕ} {v : Option (String × Pc)}
    (hi : ∀ k c, s.calls i ≠ some (k, .insert c)) (hv : ∀ k c, v ≠ some (k, .insert c)) :
    Inv { s with calls := Function.update s.calls i v } where
  wired := hs.wired.congr (fun _ => rfl) (update_calls_iff hi hv) rfl rfl
  counted := ⟨hs.counted.refcount, hs.counted.positive, hs.counted.feeds⟩

/-- A subscriber joins the channel of its key. -/
theorem Inv.join {s : Registry} (hs : s.Inv) {i : ℕ} {key : String} {ch : BoardChannel}
    (hi : ∀ k c, s.calls i ≠ some (k, .insert c)) (hb : s.boards key = some ch) :
    (s.store i key { ch with refcount := ch.refcount + 1 }).Inv := by
  have hw : ∀ k, (s.store i key { ch with refcount := ch.refcount + 1 }).wiring k
      = s.wiring k := by
    intro k
    by_cases hk : k = key
    · subst hk; simp [store, wiring, hb]
    · simp [store, wiring, hk]
  refine ⟨hs.wired.congr hw (update_calls_iff hi (by simp)) rfl rfl, ?_, ?_, ?_⟩
  · intro k
    have hk := hs.counted.refcount k
    by_cases hkey : k = key
    · subst hkey
      simp_all [store, liveHandles]
    · simpa [store, liveHandles, hkey, Ne.symm hkey] using hk
  · intro k ch' h
    by_cases hkey : k = key
    · subst hkey
      obtain rfl : _ = ch' := by simpa [store] using h
      exact Nat.succ_pos _
    · exact hs.counted.positive k ch' (by simpa [store, hkey] using h)
  · intro h hmem b c hwire
    rw [hw] at hwire
    rcases List.mem_cons.mp hmem with rfl | hmem
    · rw [wiring_of_boards hb] at hwire
      exact (Prod.mk.inj (Option.some.inj hwire)).1
    · exact hs.counted.feeds h hmem b c hwire

/-- The first subscriber spawns its pump. -/
theorem Inv.spawnPump {s : Registry} (hs : s.Inv) {i : ℕ} {key : String}
    (hi : ∀ k c, s.calls i ≠ some (k, .insert c)) : (s.spawnPump i key).Inv := by
  have hheld : ∀ k c, (s.spawnPump i key).Held k c ↔ s.Held k c ∨ k = key ∧ c = s.next := by
    intro k c
    constructor
    · rintro ⟨j, hj⟩
      by_cases hji : j = i
      · subst hji
        obtain ⟨rfl, rfl⟩ : key = k ∧ s.next = c := by simpa [Registry.spawnPump] using hj
        exact .inr ⟨rfl, rfl⟩
      · exact .inl ⟨j, by simpa [Registry.spawnPump, hji] using hj⟩
    · rintro (⟨j, hj⟩ | ⟨rfl, rfl⟩)
      · have hji : j ≠ i := by rintro rfl; exact hi k c hj
        exact ⟨j, by simpa [Registry.spawnPump, hji] using hj⟩
      · exact ⟨i, by simp [Registry.spawnPump]⟩
  have hw : ∀ k, (s.spawnPump i key).wiring k = s.wiring k := fun _ => rfl
  have hnext : (s.spawnPump i key).next = s.next + 1 := rfl
  refine ⟨⟨fun p => ?_, fun k b c h => ?_, fun k c h => ?_, hs.wired.task_inj,
    fun k k' b c h hh => ?_, fun a b k k' c ha hb => ?_⟩, hs.counted.refcount,
    hs.counted.positive, hs.counted.feeds⟩
  · have hp := hs.wired.pump p
    rw [hw, hheld]
    show p ∈ _ :: s.pumps ↔ _
    rw [List.mem_cons, hp]
    obtain ⟨task, k, sender⟩ := p
    simp only [Pump.mk.injEq]
    constructor
    · rintro (⟨rfl, rfl, rfl⟩ | h | ⟨h, hst⟩)
      · exact .inr ⟨.inr ⟨rfl, rfl⟩, rfl⟩
      · exact .inl h
      · exact .inr ⟨.inl h, hst⟩
    · rintro (h | ⟨h | ⟨rfl, rfl⟩, rfl⟩)
      · exact .inr (.inl h)
      · exact .inr (.inr ⟨h, rfl⟩)
      · exact .inl ⟨rfl, rfl, rfl⟩
  · have := hs.wired.task_lt k b c h
    omega
  · rcases (hheld k c).mp h with h | ⟨-, rfl⟩
    · have := hs.wired.held_lt k c h
      omega
    · omega
  · rcases (hheld k' c).mp hh with hh | ⟨-, rfl⟩
    · exact hs.wired.held_ne k k' b c h hh
    · exact absurd (hs.wired.task_lt k b _ h) (Nat.lt_irrefl _)
  · by_cases hai : a = i <;> by_cases hbi : b = i
    · rw [hai, hbi]
    · have hc : s.next = c := by
        simpa [Registry.spawnPump, hai] using congrArg (Option.map Prod.snd) ha
      have hb' : s.calls b = some (k', .insert c) := by simpa [Registry.spawnPump, hbi] using hb
      have := hs.wired.held_lt k' c ⟨b, hb'⟩
      omega
    · have hc : s.next = c := by
        simpa [Registry.spawnPump, hbi] using congrArg (Option.map Prod.snd) hb
      have ha' : s.calls a = some (k, .insert c) := by simpa [Registry.spawnPump, hai] using ha
      have := hs.wired.held_lt k c ⟨a, ha'⟩
      omega
    · exact hs.wired.held_inj a b k k' c (by simpa [Registry.spawnPump, hai] using ha)
        (by simpa [Registry.spawnPump, hbi] using hb)

/-- An insert under a vacant key registers the pump that the call holds. -/
theorem Inv.insert {s : Registry} (hs : s.Inv) {i : ℕ} {key : String} {c : ℕ}
    (hi : s.calls i = some (key, .insert c)) (hb : s.boards key = none) :
    (s.store i key ⟨c, c, 1⟩).Inv := by
  have hwself : (s.store i key ⟨c, c, 1⟩).wiring key = some (c, c) := by simp [store, wiring]
  have hwkey : ∀ b d, (s.store i key ⟨c, c, 1⟩).wiring key = some (b, d) → c = b ∧ c = d := by
    intro b d h
    simpa using hwself.symm.trans h
  have hwof : ∀ k, k ≠ key → (s.store i key ⟨c, c, 1⟩).wiring k = s.wiring k := by
    intro k hk; simp [store, wiring, hk]
  have hwnone : s.wiring key = none := by simp [wiring, hb]
  have hcalls : ∀ j k d, (s.store i key ⟨c, c, 1⟩).calls j = some (k, .insert d) ↔
      j ≠ i ∧ s.calls j = some (k, .insert d) := by
    intro j k d
    by_cases hj : j = i <;> simp [store, hj]
  have hheld : ∀ k d, (s.store i key ⟨c, c, 1⟩).Held k d ↔ s.Held k d ∧ d ≠ c := by
    intro k d
    constructor
    · rintro ⟨j, hj⟩
      obtain ⟨hji, hj'⟩ := (hcalls j k d).mp hj
      refine ⟨⟨j, hj'⟩, ?_⟩
      rintro rfl
      exact hji (hs.wired.held_inj j i k key _ hj' hi)
    · rintro ⟨⟨j, hj⟩, hd⟩
      refine ⟨j, (hcalls j k d).mpr ⟨?_, hj⟩⟩
      rintro rfl
      rw [hi] at hj
      simp_all
  have hlive : s.liveHandles key = 0 := by rw [← hs.counted.refcount key, hb]; rfl
  refine ⟨⟨fun p => ?_, fun k b d h => ?_, fun k d h => ?_, fun k k' b b' d h h' => ?_,
    fun k k' b d h hh => ?_, fun a b k k' d ha hb => ?_⟩, fun k => ?_, fun k ch h => ?_,
    fun h hmem b d hwire => ?_⟩
  · rw [hheld]
    have hp := hs.wired.pump p
    show p ∈ s.pumps ↔ _
    rw [hp]
    by_cases hk : p.key = key
    · rw [hk, hwself, hwnone]
      constructor
      · rintro (h | ⟨h, hst⟩)
        · cases h
        · by_cases hc : p.task = c
          · exact .inl (by rw [hst, hc])
          · exact .inr ⟨⟨h, hc⟩, hst⟩
      · rintro (h | ⟨⟨h, -⟩, hst⟩)
        · obtain ⟨h1, h2⟩ := Prod.mk.inj (Option.some.inj h)
          exact .inr ⟨⟨i, by rw [hi, h2]⟩, by rw [← h1, ← h2]⟩
        · exact .inr ⟨h, hst⟩
    · rw [hwof _ hk]
      refine or_congr_right ⟨fun ⟨h, hst⟩ => ⟨⟨h, ?_⟩, hst⟩, fun ⟨⟨h, _⟩, hst⟩ => ⟨h, hst⟩⟩
      rintro rfl
      obtain ⟨j, hj⟩ := h
      have hji := hs.wired.held_inj j i _ _ _ hj hi
      rw [hji, hi] at hj
      exact hk (Prod.mk.inj (Option.some.inj hj)).1.symm
  · by_cases hk : k = key
    · subst hk
      obtain ⟨-, rfl⟩ := hwkey b d h
      exact hs.wired.held_lt k c ⟨i, hi⟩
    · exact hs.wired.task_lt k b d (by rwa [hwof k hk] at h)
  · exact hs.wired.held_lt k d ((hheld k d).mp h).1
  · have hother : ∀ k b, k ≠ key → (s.store i key ⟨c, c, 1⟩).wiring k = some (b, c) → False := by
      intro k b hk h
      rw [hwof k hk] at h
      exact hs.wired.held_ne k key b c h ⟨i, hi⟩
    by_cases hk : k = key <;> by_cases hk' : k' = key
    · rw [hk, hk']
    · obtain ⟨-, rfl⟩ := hwkey b d (hk ▸ h)
      exact (hother k' b' hk' h').elim
    · obtain ⟨-, rfl⟩ := hwkey b' d (hk' ▸ h')
      exact (hother k b hk h).elim
    · exact hs.wired.task_inj k k' b b' d (by rwa [hwof k hk] at h) (by rwa [hwof k' hk'] at h')
  · obtain ⟨hh, hd⟩ := (hheld k' d).mp hh
    by_cases hk : k = key
    · subst hk
      exact hd (hwkey b d h).2.symm
    · exact hs.wired.held_ne k k' b d (by rwa [hwof k hk] at h) hh
  · exact hs.wired.held_inj a b k k' d ((hcalls a k d).mp ha).2 ((hcalls b k' d).mp hb).2
  · have hk := hs.counted.refcount k
    by_cases hkey : k = key
    · subst hkey
      simp_all [store, liveHandles]
    · simpa [store, liveHandles, hkey, Ne.symm hkey] using hk
  · by_cases hkey : k = key
    · subst hkey
      obtain rfl : _ = ch := by simpa [store] using h
      exact Nat.one_pos
    · exact hs.counted.positive k ch (by simpa [store, hkey] using h)
  · rcases List.mem_cons.mp hmem with rfl | hmem
    · exact (hwkey b d hwire).1
    · have hk : h.boardId ≠ key := by
        intro hk
        have := liveHandles_pos.mpr ⟨h, hmem, hk⟩
        omega
      exact hs.counted.feeds h hmem b d (by rwa [hwof _ hk] at hwire)

theorem liveHandles_erase {s : Registry} {h : StreamHandle} (hmem : h ∈ s.handles) (k : String) :
    { s with handles := s.handles.erase h }.liveHandles k + (if h.boardId = k then 1 else 0)
      = s.liveHandles k := by
  have hpos : h.boardId = k → 0 < s.liveHandles k :=
    fun hk => liveHandles_pos.mpr ⟨h, hmem, hk⟩
  simp only [liveHandles, List.countP_erase, hmem, true_and, decide_eq_true_eq] at *
  split <;> simp_all

/-- Dropping the last handle of a key removes its channel and aborts its pump. -/
theorem Inv.dropLast {s : Registry} (hs : s.Inv) {h : StreamHandle} (hmem : h ∈ s.handles)
    {ch : BoardChannel} (hb : s.boards h.boardId = some ch) (hlast : ch.refcount = 1) :
    Inv { s with
      handles := s.handles.erase h
      boards := Function.update s.boards h.boardId none
      pumps := s.pumps.filter (·.task ≠ ch.consumerTask) } := by
  set t : Registry := { s with
    handles := s.handles.erase h
    boards := Function.update s.boards h.boardId none
    pumps := s.pumps.filter (·.task ≠ ch.consumerTask) } with ht
  have hwb := wiring_of_boards hb
  have hwiring : ∀ k b c, t.wiring k = some (b, c) ↔
      s.wiring k = some (b, c) ∧ c ≠ ch.consumerTask := by
    intro k b c
    by_cases hk : k = h.boardId
    · subst hk
      rw [hwb]
      simp [ht, wiring]
      rintro - rfl
      rfl
    · have : t.wiring k = s.wiring k := by simp [ht, wiring, hk]
      rw [this]
      refine ⟨fun hw => ⟨hw, ?_⟩, And.left⟩
      rintro rfl
      exact hk (hs.wired.task_inj _ _ _ _ _ hw hwb)
  refine ⟨⟨fun p => ?_, fun k b c hw => ?_, hs.wired.held_lt, fun k k' b b' c hw hw' => ?_,
    fun k k' b c hw => ?_, hs.wired.held_inj⟩, fun k => ?_, fun k ch' hk => ?_,
    fun g hg b c hw => ?_⟩
  · rw [hwiring, ht, List.mem_filter, hs.wired.pump p, or_and_right]
    simp only [ne_eq, decide_eq_true_eq]
    refine or_congr_right ⟨And.left, fun hp => ⟨hp, ?_⟩⟩
    intro htask
    exact hs.wired.held_ne _ _ _ _ hwb (htask ▸ hp.1)
  · exact hs.wired.task_lt k b c ((hwiring k b c).mp hw).1
  · exact hs.wired.task_inj k k' b b' c ((hwiring k b c).mp hw).1 ((hwiring k' b' c).mp hw').1
  · exact hs.wired.held_ne k k' b c ((hwiring k b c).mp hw).1
  · have hk := hs.counted.refcount k
    have hlive : t.liveHandles k + (if h.boardId = k then 1 else 0) = s.liveHandles k :=
      liveHandles_erase hmem k
    by_cases hkey : k = h.boardId
    · subst hkey
      simp only [hb, Option.elim, if_pos] at hk hlive
      simp only [ht, Function.update_self, Option.elim] at hlive ⊢
      omega
    · simp only [if_neg (Ne.symm hkey), Nat.add_zero] at hlive
      rw [hlive, ← hk]
      simp [ht, hkey]
  · refine hs.counted.positive k ch' ?_
    by_cases hkey : k = h.boardId
    · subst hkey; simp [ht] at hk
    · simpa [ht, hkey] using hk
  · exact hs.counted.feeds g (List.mem_of_mem_erase hg) b c ((hwiring _ b c).mp hw).1

/-- Dropping one of several handles of a key keeps its channel. -/
theorem Inv.dropOne {s : Registry} (hs : s.Inv) {h : StreamHandle} (hmem : h ∈ s.handles)
    {ch : BoardChannel} (hb : s.boards h.boardId = some ch) (hmore : 1 < ch.refcount) :
    Inv { s with
      handles := s.handles.erase h
      boards := Function.update s.boards h.boardId
        (some { ch with refcount := ch.refcount - 1 }) } := by
  set t : Registry := { s with
    handles := s.handles.erase h
    boards := Function.update s.boards h.boardId
      (some { ch with refcount := ch.refcount - 1 }) } with ht
  have hw : ∀ k, t.wiring k = s.wiring k := by
    intro k
    by_cases hk : k = h.boardId
    · subst hk; simp [ht, wiring, hb]
    · simp [ht, wiring, hk]
  refine ⟨hs.wired.congr hw (fun _ _ _ => Iff.rfl) rfl rfl, fun k => ?_, fun k ch' hk => ?_,
    fun g hg b c hwire => ?_⟩
  · have hk := hs.counted.refcount k
    have hlive : t.liveHandles k + (if h.boardId = k then 1 else 0) = s.liveHandles k :=
      liveHandles_erase hmem k
    by_cases hkey : k = h.boardId
    · subst hkey
      simp only [hb, Option.elim, if_pos] at hk hlive
      simp only [ht, Function.update_self, Option.elim] at hlive ⊢
      omega
    · simp only [if_neg (Ne.symm hkey), Nat.add_zero] at hlive
      rw [hlive, ← hk]
      simp [ht, hkey]
  · by_cases hkey : k = h.boardId
    · subst hkey
      obtain rfl : _ = ch' := by simpa [ht] using hk
      exact Nat.sub_pos_of_lt hmore
    · exact hs.counted.positive k ch' (by simpa [ht, hkey] using hk)
  · exact hs.counted.feeds g (List.mem_of_mem_erase hg) b c (by rwa [hw] at hwire)

/-- A live handle's key has a channel. -/
theorem Inv.boards_of_handle {s : Registry} (hs : s.Inv) {h : StreamHandle}
    (hmem : h ∈ s.handles) : ∃ ch, s.boards h.boardId = some ch :=
  Option.isSome_iff_exists.mp ((hs.openAccounting.channel_iff _).mpr ⟨h, hmem, rfl⟩)

theorem Inv.dropHandle {s t : Registry} (hs : s.Inv) {h : StreamHandle}
    (hstep : s.dropHandle h = some t) : t.Inv := by
  unfold Registry.dropHandle at hstep
  split at hstep
  · rename_i hmem
    obtain rfl := Option.some.inj hstep
    obtain ⟨ch, hb⟩ := hs.boards_of_handle hmem
    have hpos := hs.counted.positive _ _ hb
    simp only [decrementRefcount, hb]
    split
    · exact hs.dropLast hmem hb (by omega)
    · exact hs.dropOne hmem hb (by omega)
  · cases hstep

theorem Inv.proceed {s t : Registry} (hs : s.Inv) {i : ℕ} (hv : s.Vacant (.proceed i))
    (hstep : s.proceed i = some t) : t.Inv := by
  unfold Registry.proceed at hstep
  split at hstep
  · cases hstep
  · rename_i key hi
    have hi' : ∀ k c, s.calls i ≠ some (k, .insert c) := by simp [hi]
    split at hstep <;> obtain rfl := Option.some.inj hstep <;> exact hs.setCall hi' (by simp)
  · rename_i key hi
    have hi' : ∀ k c, s.calls i ≠ some (k, .insert c) := by simp [hi]
    split at hstep <;> obtain rfl := Option.some.inj hstep
    · exact hs.join hi' ‹_›
    · exact hs.setCall hi' (by simp)
  · rename_i key hi
    obtain rfl := Option.some.inj hstep
    exact hs.setCall (by simp [hi]) (by simp)
  · rename_i key hi
    obtain rfl := Option.some.inj hstep
    exact hs.spawnPump (by simp [hi])
  · rename_i key c hi
    obtain rfl := Option.some.inj hstep
    exact hs.insert hi (hv (key, .insert c) hi rfl)

theorem Inv.subscribeObject {s t : Registry} (hs : s.Inv) {i : ℕ} {key : String}
    (hstep : s.subscribeObject i key = some t) : t.Inv := by
  unfold Registry.subscribeObject at hstep
  split at hstep
  · obtain rfl := Option.some.inj hstep
    exact hs.setCall (by simp [*]) (by simp)
  · cases hstep

theorem Inv.fail {s t : Registry} (hs : s.Inv) {i : ℕ} (hstep : s.fail i = some t) : t.Inv := by
  unfold Registry.fail at hstep
  split at hstep
  · obtain rfl := Option.some.inj hstep
    exact hs.setCall (by simp [*]) (by simp)
  · obtain rfl := Option.some.inj hstep
    exact hs.setCall (by simp [*]) (by simp)
  · cases hstep

/-- **One step.**  Every section whose insert finds its key vacant keeps the invariant. -/
theorem Inv.step {s t : Registry} {a : Action} (hs : s.Inv) (hv : s.Vacant a)
    (hstep : s.step a = some t) : t.Inv := by
  cases a with
  | subscribe i boardId => exact hs.subscribeObject hstep
  | subscribeProject i projectId => exact hs.subscribeObject hstep
  | proceed i => exact hs.proceed hv hstep
  | fail i => exact hs.fail hstep
  | drop h => exact hs.dropHandle hstep
  | pumpEnds p => exact hv.elim

/-- Every run whose inserts find their keys vacant keeps the invariant. -/
theorem inv_of_execWhile {tr : List Action} {s : Registry}
    (h : ExecWhile Registry.step Vacant new tr s) : s.Inv :=
  h.invariant Inv inv_new fun _ _ _ hs hv hstep => hs.step hv hstep

/-! ## What the condition decides -/

/-- An insert over a channel that is in use, or a pump that exits, breaks the accounting at
once. -/
theorem Inv.broken {s t : Registry} {a : Action} (hs : s.Inv) (hv : ¬ s.Vacant a)
    (hstep : s.step a = some t) : ¬ t.OpenAccounting := by
  intro ht
  cases a with
  | subscribe i boardId => exact hv trivial
  | subscribeProject i projectId => exact hv trivial
  | fail i => exact hv trivial
  | drop h => exact hv trivial
  | proceed i =>
      simp only [Vacant, not_forall] at hv
      obtain ⟨⟨key, pc⟩, hi, hpc, hb⟩ := hv
      cases pc with
      | insert c =>
          have hi : s.calls i = some (key, .insert c) := hi
          simp only [Registry.step, Registry.proceed, hi] at hstep
          obtain rfl := Option.some.inj hstep
          obtain ⟨ch, hch⟩ := Option.ne_none_iff_exists'.mp hb
          -- the map says one handle, but the handles of the replaced channel still live
          have hone := ht.refcount key ⟨c, c, 1⟩ (by simp [store])
          have hpos := hs.counted.positive key ch hch
          have hold := hs.counted.refcount key
          simp only [hch, Option.elim, liveHandles] at hold
          simp only [store, liveHandles, List.countP_cons, decide_true, if_true] at hone
          omega
      | readCheck => simp [Pc.inserting] at hpc
      | writeJoin => simp [Pc.inserting] at hpc
      | getStream => simp [Pc.inserting] at hpc
      | createConsumer => simp [Pc.inserting] at hpc
  | pumpEnds p =>
      simp only [Registry.step] at hstep
      split at hstep
      · rename_i hp
        obtain rfl := Option.some.inj hstep
        have hsp := (hs.openAccounting.pump p).mp hp
        have := (ht.pump p).mpr hsp
        simp at this
      · cases hstep

/-- A pump whose task is that of a channel in the map belongs to the channel's key. -/
theorem Wired.key_of_task {s : Registry} (hs : s.Wired) {p : Pump} (hp : p ∈ s.pumps)
    {k : String} {ch : BoardChannel} (hb : s.boards k = some ch) (ht : p.task = ch.consumerTask) :
    p.key = k := by
  rcases (hs.pump p).mp hp with h | ⟨h, -⟩
  · exact hs.task_inj _ _ _ _ _ h (ht ▸ wiring_of_boards hb)
  · exact (hs.held_ne _ _ _ _ (wiring_of_boards hb) (ht ▸ h)).elim

/-- The call sections abort no pump. -/
theorem pumps_subset_proceed {s t : Registry} {i : ℕ} (hstep : s.proceed i = some t) :
    s.pumps ⊆ t.pumps := by
  unfold Registry.proceed at hstep
  split at hstep
  · cases hstep
  · split at hstep <;> obtain rfl := Option.some.inj hstep <;> exact List.Subset.refl _
  · split at hstep <;> obtain rfl := Option.some.inj hstep <;> exact List.Subset.refl _
  · obtain rfl := Option.some.inj hstep; exact List.Subset.refl _
  · obtain rfl := Option.some.inj hstep; exact List.subset_cons_self _ _
  · obtain rfl := Option.some.inj hstep; exact List.Subset.refl _

/-- A step under the condition aborts a pump only with the last handle of its key. -/
theorem Inv.aborted {s t : Registry} {a : Action} (hs : s.Inv) (hv : s.Vacant a)
    (hstep : s.step a = some t) {p : Pump} (hp : p ∈ s.pumps) (hgone : p ∉ t.pumps) :
    ∀ h ∈ t.handles, h.boardId ≠ p.key := by
  have ht := hs.step hv hstep
  cases a with
  | subscribe i boardId | subscribeProject i projectId =>
      simp only [Registry.step, Registry.subscribeObject] at hstep
      split at hstep
      · obtain rfl := Option.some.inj hstep; exact (hgone hp).elim
      · cases hstep
  | proceed i => exact (hgone (pumps_subset_proceed hstep hp)).elim
  | fail i =>
      simp only [Registry.step, Registry.fail] at hstep
      split at hstep
      · obtain rfl := Option.some.inj hstep; exact (hgone hp).elim
      · obtain rfl := Option.some.inj hstep; exact (hgone hp).elim
      · cases hstep
  | pumpEnds q => exact hv.elim
  | drop h =>
      simp only [Registry.step, Registry.dropHandle] at hstep
      split at hstep
      · rename_i hmem
        obtain rfl := Option.some.inj hstep
        obtain ⟨ch, hb⟩ := hs.boards_of_handle hmem
        simp only [decrementRefcount, hb] at hgone ht ⊢
        split at hgone
        · rename_i hlast
          simp only [if_pos hlast] at ht ⊢
          have htask : p.task = ch.consumerTask := by
            by_contra hne
            exact hgone (List.mem_filter.mpr ⟨hp, by simpa using hne⟩)
          have hkey := hs.wired.key_of_task hp hb htask
          intro g hg hgk
          obtain ⟨ch', hb'⟩ := ht.boards_of_handle hg
          simp [hgk, hkey] at hb'
        · exact (hgone hp).elim
      · cases hstep

/-- **Channel accounting under vacant inserts.**  Along every run whose inserts find their
keys vacant, and in which no pump exits by itself, the map, the handles and the pumps agree;
the accounting is exact unless a call stands between spawn and insert; no pump is aborted
while a handle of its key lives; and a step that misses the condition breaks the accounting
there and then. -/
theorem accounting_of_vacant_inserts {tr : List Action} {s : Registry}
    (h : ExecWhile Registry.step Vacant new tr s) :
    s.OpenAccounting ∧ (s.Accounting ↔ ¬ ∃ k c, s.Held k c) ∧
      ∀ a t, s.step a = some t → (s.Vacant a ↔ t.OpenAccounting) ∧
        (s.Vacant a → ∀ p ∈ s.pumps, p ∉ t.pumps → ∀ g ∈ t.handles, g.boardId ≠ p.key) := by
  have hs := inv_of_execWhile h
  refine ⟨hs.openAccounting, hs.accounting_iff, fun a t hstep => ⟨⟨fun hv => ?_, fun ht => ?_⟩,
    fun hv p hp hgone => hs.aborted hv hstep hp hgone⟩⟩
  · exact (hs.step hv hstep).openAccounting
  · by_contra hv
    exact hs.broken hv hstep ht

/-- One call opens the channel of a board and a second one joins it. -/
def sharedRun : List Action :=
  [.subscribe 0 "b", .proceed 0, .proceed 0, .proceed 0, .proceed 0,
    .subscribe 1 "b", .proceed 1, .proceed 1]

/-- Two subscribers in turn share one channel with refcount two. -/
theorem accounting_of_vacant_inserts_shared :
    ∃ s, ExecWhile Registry.step Vacant new sharedRun s ∧ s.Accounting ∧
      (s.boards "board:b").map BoardChannel.refcount = some 2 := by
  have hrun : run (guarded Registry.step Vacant) new sharedRun = some _ := rfl
  refine ⟨_, execWhile_of_run hrun, ?_, by decide⟩
  refine (accounting_of_vacant_inserts (execWhile_of_run hrun)).2.1.mpr ?_
  rintro ⟨k, c, i, hi⟩
  by_cases h0 : i = 0 <;> by_cases h1 : i = 1 <;>
    simp [store, goto, spawnPump, new, h0, h1] at hi

/-- Two first subscribers of one board, both past the check before either inserts. -/
def firstSubscriberRace : List Action :=
  [.subscribe 0 "b", .subscribe 1 "b", .proceed 0, .proceed 1, .proceed 0, .proceed 1,
    .proceed 0, .proceed 1, .proceed 0, .proceed 1]

/-- The second insert replaces the first channel.  With both calls returned and both handles
live the refcount is one, two pumps run for the key, and the drop of one handle aborts the
pump that the map holds although the other handle of its key lives. -/
theorem not_accounting_firstSubscriberRace :
    ∃ s, run Registry.step new firstSubscriberRace = some s ∧
      (∀ i, s.calls i = none) ∧ ¬ s.Accounting ∧
      ∃ h t p g, s.step (.drop h) = some t ∧ p ∈ s.pumps ∧ p ∉ t.pumps ∧
        g ∈ t.handles ∧ g.boardId = p.key := by
  refine ⟨_, rfl, fun i => ?_, fun hacc => ?_, ⟨"board:b", 0⟩, _, ⟨1, "board:b", 1⟩,
    ⟨"board:b", 1⟩, rfl, by decide, by decide, by decide, rfl⟩
  · by_cases h0 : i = 0 <;> by_cases h1 : i = 1 <;> simp [store, goto, spawnPump, new, h0, h1]
  · have hcount := hacc.refcount "board:b" ⟨1, 1, 1⟩ rfl
    revert hcount
    decide

end Registry

end Kanban.Realtime
