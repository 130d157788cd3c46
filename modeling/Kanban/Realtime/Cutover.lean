import Mathlib.Algebra.Group.Nat.Defs
import Mathlib.Data.Finset.Basic
import Mathlib.Data.Finset.Insert
import Mathlib.Data.Finset.Erase
import Mathlib.Data.List.Nodup
import Kanban.Lib.History

/-!
# The cutover tracker

`realtime/cutover.rs`: the state machine that takes one subscription from snapshot
replay to the live tail, and drops what was already sent.  The event-id memory is a
bounded ring buffer; its queue and its hash set always hold the same ids, and
`BoundedSet` carries that fact.

## Main definitions

* `BoundedSet` — the ring buffer, with its invariant.
* `CutoverTracker` — phase, seen ids and the last live sequence.
* `observeReplay`, `cutoverToLive`, `observeLive` — the three operations.
* `Tailing` — what a tracker in the live phase knows about the tail: what it has emitted rises
  from the cutover, and its last sequence is the peak of it.
-/

namespace Kanban.Realtime

open History

/-! ## The bounded set -/

/-- Ring-buffer deduplication set with a fixed capacity. -/
structure BoundedSet (ι : Type*) [DecidableEq ι] where
  capacity : ℕ
  queue : List ι
  set : Finset ι
  queue_nodup : queue.Nodup
  set_eq : set = queue.toFinset

variable {ι : Type*} [DecidableEq ι]

namespace BoundedSet

def new (capacity : ℕ) : BoundedSet ι where
  capacity := capacity
  queue := []
  set := ∅
  queue_nodup := List.nodup_nil
  set_eq := rfl

theorem mem_set (s : BoundedSet ι) (id : ι) : id ∈ s.set ↔ id ∈ s.queue := by
  rw [s.set_eq, List.mem_toFinset]

/-- Remove the oldest entry, if there is one, from the queue and from the set. -/
def popFront (s : BoundedSet ι) : BoundedSet ι where
  capacity := s.capacity
  queue := s.queue.tail
  set := s.queue.head?.elim s.set s.set.erase
  queue_nodup := s.queue_nodup.sublist (List.tail_sublist _)
  set_eq := by
    have hnd := s.queue_nodup
    rw [s.set_eq]
    cases hq : s.queue with
    | nil => rfl
    | cons oldest rest =>
        rw [hq] at hnd
        have hold : oldest ∉ rest.toFinset := by simpa using (List.nodup_cons.mp hnd).1
        simp [Finset.erase_insert hold]

/-- Append an id that is not in the queue. -/
def pushBack (s : BoundedSet ι) (id : ι) (h : id ∉ s.queue) : BoundedSet ι where
  capacity := s.capacity
  queue := s.queue ++ [id]
  set := insert id s.set
  queue_nodup := by
    rw [List.nodup_append]
    refine ⟨s.queue_nodup, List.nodup_singleton id, fun a ha b hb => ?_⟩
    rintro rfl
    exact h (List.mem_singleton.mp hb ▸ ha)
  set_eq := by
    rw [s.set_eq]
    ext x
    simp only [Finset.mem_insert, List.mem_toFinset, List.mem_append, List.mem_singleton]
    exact or_comm

/-- Evict the oldest entry when the capacity is reached. -/
def makeRoom (s : BoundedSet ι) : BoundedSet ι :=
  if s.capacity ≤ s.queue.length then s.popFront else s

theorem mem_of_mem_makeRoom {s : BoundedSet ι} {x : ι} (h : x ∈ s.makeRoom.queue) :
    x ∈ s.queue := by
  unfold makeRoom at h
  split at h
  · exact List.mem_of_mem_tail h
  · exact h

/-- Insert `id`.  The flag is `true` if it was newly inserted and `false` if it was
already present. -/
def insert (s : BoundedSet ι) (id : ι) : Bool × BoundedSet ι :=
  if h : id ∈ s.set then (false, s)
  else (true, s.makeRoom.pushBack id fun hid => h ((s.mem_set id).mpr (mem_of_mem_makeRoom hid)))

theorem insert_of_mem {s : BoundedSet ι} {id : ι} (h : id ∈ s.queue) : s.insert id = (false, s) :=
  dif_pos ((s.mem_set id).mpr h)

theorem insert_fst {s : BoundedSet ι} {id : ι} : (s.insert id).1 = true ↔ id ∉ s.queue := by
  rw [← s.mem_set]
  by_cases h : id ∈ s.set <;> simp [insert, h]

theorem mem_insert {s : BoundedSet ι} {id x : ι} (h : x ∈ (s.insert id).2.queue) :
    x ∈ s.queue ∨ x = id := by
  unfold insert at h
  split at h
  · exact .inl h
  · rcases List.mem_append.mp h with h | h
    · exact .inl (mem_of_mem_makeRoom h)
    · exact .inr (List.mem_singleton.mp h)

end BoundedSet

/-! ## The tracker -/

/-- Phase of the cutover state machine. -/
inductive Phase
  | replay
  | live (resumeSeq : ℕ)
  deriving DecidableEq, Repr

/-- Result of observing an event through the cutover tracker. -/
inductive Outcome
  | emit
  | drop
  | outOfOrder
  deriving DecidableEq, Repr

/-- `u64::saturating_add`. -/
def saturatingAdd (a b : ℕ) : ℕ := min (a + b) (2 ^ 64 - 1)

/-- Tracks cutover progress for a single `SubscribeBoard` stream. -/
structure CutoverTracker (ι : Type*) [DecidableEq ι] where
  phase : Phase
  seenIds : BoundedSet ι
  lastLiveSeq : Option ℕ

namespace CutoverTracker

/-- Default capacity of the event-id ring buffer. -/
def defaultSeenCapacity : ℕ := 1024

def withCapacity (capacity : ℕ) : CutoverTracker ι where
  phase := .replay
  seenIds := .new capacity
  lastLiveSeq := none

def new : CutoverTracker ι := withCapacity defaultSeenCapacity

/-- Observe a snapshot replay event. -/
def observeReplay (t : CutoverTracker ι) (eventId : ι) : Outcome × CutoverTracker ι :=
  match t.seenIds.insert eventId with
  | (true, seen) => (.emit, { t with seenIds := seen })
  | (false, seen) => (.drop, { t with seenIds := seen })

/-- Transition from replay to live; a no-op when already live. -/
def cutoverToLive (t : CutoverTracker ι) (lastReplayNatsSeq : ℕ) : CutoverTracker ι :=
  match t.phase with
  | .replay =>
      { t with
        phase := .live (saturatingAdd lastReplayNatsSeq 1)
        lastLiveSeq := some lastReplayNatsSeq }
  | .live _ => t

/-- Observe a live JetStream event. -/
def observeLive (t : CutoverTracker ι) (eventId : ι) (natsSeq : ℕ) :
    Outcome × CutoverTracker ι :=
  match t.phase with
  | .replay => (.outOfOrder, t)
  | .live _ =>
      if t.lastLiveSeq.any (natsSeq ≤ ·) then (.outOfOrder, t)
      else
        match t.seenIds.insert eventId with
        | (false, seen) => (.drop, { t with seenIds := seen })
        | (true, seen) => (.emit, { t with seenIds := seen, lastLiveSeq := some natsSeq })

/-- The tracker is in the live phase and `last` is its last live sequence. -/
structure LiveAt (t : CutoverTracker ι) (last : ℕ) : Prop where
  phase : t.phase ≠ .replay
  lastLiveSeq : t.lastLiveSeq = some last

@[simp] theorem new_phase : (new : CutoverTracker ι).phase = .replay := rfl

@[simp] theorem new_queue : (new : CutoverTracker ι).seenIds.queue = [] := rfl

@[simp] theorem observeReplay_phase (t : CutoverTracker ι) (eventId : ι) :
    (t.observeReplay eventId).2.phase = t.phase := by
  unfold observeReplay; split <;> rfl

@[simp] theorem observeReplay_lastLiveSeq (t : CutoverTracker ι) (eventId : ι) :
    (t.observeReplay eventId).2.lastLiveSeq = t.lastLiveSeq := by
  unfold observeReplay; split <;> rfl

theorem observeReplay_fst {t : CutoverTracker ι} {eventId : ι} :
    (t.observeReplay eventId).1 = .emit ↔ eventId ∉ t.seenIds.queue := by
  rw [← BoundedSet.insert_fst]
  unfold observeReplay
  split <;> simp_all

theorem mem_observeReplay {t : CutoverTracker ι} {eventId x : ι}
    (h : x ∈ (t.observeReplay eventId).2.seenIds.queue) : x ∈ t.seenIds.queue ∨ x = eventId := by
  refine BoundedSet.mem_insert ?_
  unfold observeReplay at h
  split at h <;> simp_all

theorem liveAt_cutoverToLive {t : CutoverTracker ι} (h : t.phase = .replay) (seq : ℕ) :
    (t.cutoverToLive seq).LiveAt seq := by
  refine ⟨?_, ?_⟩ <;> simp [cutoverToLive, h]

/-- A second cutover is a no-op. -/
theorem cutoverToLive_of_live {t : CutoverTracker ι} (h : t.phase ≠ .replay) (seq : ℕ) :
    t.cutoverToLive seq = t := by
  unfold cutoverToLive
  split
  · exact absurd ‹_› h
  · rfl

@[simp] theorem cutoverToLive_seenIds (t : CutoverTracker ι) (seq : ℕ) :
    (t.cutoverToLive seq).seenIds = t.seenIds := by
  unfold cutoverToLive; split <;> rfl

/-- In the replay phase nothing is emitted live. -/
theorem observeLive_of_replay {t : CutoverTracker ι} (h : t.phase = .replay) (eventId : ι)
    (seq : ℕ) : t.observeLive eventId seq = (.outOfOrder, t) := by
  simp [observeLive, h]

/-- A sequence that does not exceed the last one is out of order. -/
theorem observeLive_of_le {t : CutoverTracker ι} {last seq : ℕ} (h : t.LiveAt last)
    (hle : seq ≤ last) (eventId : ι) : t.observeLive eventId seq = (.outOfOrder, t) := by
  unfold observeLive
  split
  · rfl
  · rw [h.lastLiveSeq]; simp [hle]

/-- A later sequence under an id that is not remembered is emitted. -/
theorem observeLive_of_lt {t : CutoverTracker ι} {last seq : ℕ} (h : t.LiveAt last)
    (hlt : last < seq) {eventId : ι} (hid : eventId ∉ t.seenIds.queue) :
    t.observeLive eventId seq =
      (.emit, { t with seenIds := (t.seenIds.insert eventId).2, lastLiveSeq := some seq }) := by
  have hins := BoundedSet.insert_fst.mpr hid
  unfold observeLive
  split
  · exact absurd ‹_› h.phase
  · rw [h.lastLiveSeq]
    simp only [Option.any_some, decide_eq_true_eq, if_neg (not_le.mpr hlt)]
    split <;> simp_all

/-- A later sequence under a remembered id is dropped, and changes nothing. -/
theorem observeLive_of_mem {t : CutoverTracker ι} {last seq : ℕ} (h : t.LiveAt last)
    (hlt : last < seq) {eventId : ι} (hid : eventId ∈ t.seenIds.queue) :
    t.observeLive eventId seq = (.drop, t) := by
  unfold observeLive
  split
  · exact absurd ‹_› h.phase
  · have hgo : ¬ t.lastLiveSeq.any (seq ≤ ·) := by simpa [h.lastLiveSeq] using hlt
    simp only [if_neg hgo, BoundedSet.insert_of_mem hid]

end CutoverTracker

/-! ## A tracker on its tail -/

section Tail

variable {ε : Type*} (eventId : ε → ι) (natsSeq : ε → ℕ)

/-- What a live tracker knows when it was cut over at `base` and has let `emitted` through;
`old` holds the ids it may remember from the replay. -/
structure Tailing (base : ℕ) (old : List ι) (emitted : List ε) (t : CutoverTracker ι) :
    Prop where
  live : t.LiveAt (peak natsSeq base emitted)
  rising : Rising natsSeq base emitted
  seen : ∀ id ∈ t.seenIds.queue, id ∈ old ∨ ∃ e ∈ emitted, eventId e = id

variable {eventId natsSeq} {base : ℕ} {old : List ι} {emitted : List ε} {t : CutoverTracker ι}

theorem Tailing.start (h : t.phase = .replay) (hseen : ∀ id ∈ t.seenIds.queue, id ∈ old) :
    Tailing eventId natsSeq base old [] (t.cutoverToLive base) where
  live := CutoverTracker.liveAt_cutoverToLive h base
  rising := rising_nil
  seen := by
    rw [CutoverTracker.cutoverToLive_seenIds]
    exact fun id hid => .inl (hseen id hid)

/-- Only what exceeds the peak is let through. -/
theorem Tailing.emit_imp (h : Tailing eventId natsSeq base old emitted t) {e : ε}
    (hemit : (t.observeLive (eventId e) (natsSeq e)).1 = .emit) :
    peak natsSeq base emitted < natsSeq e := by
  by_contra hle
  rw [CutoverTracker.observeLive_of_le h.live (not_lt.mp hle)] at hemit
  cases hemit

/-- What exceeds the peak is let through, unless its id is remembered. -/
theorem Tailing.emit_or_seen (h : Tailing eventId natsSeq base old emitted t) {e : ε}
    (hlt : peak natsSeq base emitted < natsSeq e) :
    (t.observeLive (eventId e) (natsSeq e)).1 = .emit ∨ eventId e ∈ old ∨
      ∃ e' ∈ emitted, eventId e' = eventId e := by
  by_cases hid : eventId e ∈ t.seenIds.queue
  · exact .inr (h.seen _ hid)
  · rw [CutoverTracker.observeLive_of_lt h.live hlt hid]
    exact .inl rfl

/-- **One more event of the tail.** -/
theorem Tailing.observe (h : Tailing eventId natsSeq base old emitted t) (e : ε) :
    Tailing eventId natsSeq base old
      (if (t.observeLive (eventId e) (natsSeq e)).1 = .emit then emitted ++ [e] else emitted)
      (t.observeLive (eventId e) (natsSeq e)).2 := by
  by_cases hlt : peak natsSeq base emitted < natsSeq e
  · by_cases hid : eventId e ∈ t.seenIds.queue
    · rw [CutoverTracker.observeLive_of_mem h.live hlt hid]
      exact h
    · rw [CutoverTracker.observeLive_of_lt h.live hlt hid]
      refine ⟨⟨h.live.phase, ?_⟩, rising_concat.mpr ⟨h.rising, hlt⟩, fun id hmem => ?_⟩
      · simp [max_eq_right hlt.le]
      · rcases BoundedSet.mem_insert hmem with hmem | rfl
        · rcases h.seen _ hmem with hmem | ⟨e', he', heq⟩
          · exact .inl hmem
          · exact .inr ⟨e', by simp [he'], heq⟩
        · exact .inr ⟨e, by simp, rfl⟩
  · rw [CutoverTracker.observeLive_of_le h.live (not_lt.mp hlt)]
    exact h

end Tail

end Kanban.Realtime
