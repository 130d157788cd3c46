import Kanban.Realtime.CutoverRuns

/-!
# The window of the seen ids

The ids that were seen are in two containers, which are changed side by side.  `BoundedSet` packs them
with the fact that they hold the same ids; here they are taken as they are, so that this fact is a
result about every sequence of inserts.  The queue then is a window over the ids that were new, and an
id is refused exactly when it is in that window.

## Main definitions

* `SeenIds`, `SeenIds.insert` — the two containers, and an insert into both.
* `insertAll` — a sequence of inserts, with the ids that were newly inserted.
* `IsWindow`, `insertAll_window` — what the containers hold, and what the next insert returns.
-/

namespace Kanban.Realtime

variable {ι : Type*} [DecidableEq ι] {c : ℕ}

/-- The containers of a bounded set, as the code declares them. -/
structure SeenIds (ι : Type*) [DecidableEq ι] where
  capacity : ℕ
  queue : List ι
  set : Finset ι

namespace SeenIds

def new (capacity : ℕ) : SeenIds ι := ⟨capacity, [], ∅⟩

/-- `pop_front` of the queue, and `remove` of what came off. -/
def evict (s : SeenIds ι) : SeenIds ι :=
  match s.queue with
  | [] => s
  | oldest :: rest => { s with queue := rest, set := s.set.erase oldest }

/-- `true` if the id was newly inserted.  It is looked up in the set, and the room is counted in the
queue. -/
def insert (s : SeenIds ι) (id : ι) : Bool × SeenIds ι :=
  if id ∈ s.set then (false, s)
  else
    let s := if s.capacity ≤ s.queue.length then s.evict else s
    (true, { s with queue := s.queue ++ [id], set := Insert.insert id s.set })

end SeenIds

/-! ## The packed set -/

namespace BoundedSet

/-- The containers of a packed set. -/
def seenIds (s : BoundedSet ι) : SeenIds ι := ⟨s.capacity, s.queue, s.set⟩

theorem seenIds_popFront (s : BoundedSet ι) : s.popFront.seenIds = s.seenIds.evict := by
  obtain ⟨capacity, queue, set, hnodup, hset⟩ := s
  cases queue <;> rfl

theorem seenIds_makeRoom (s : BoundedSet ι) :
    s.makeRoom.seenIds = if s.capacity ≤ s.queue.length then s.seenIds.evict else s.seenIds := by
  unfold makeRoom
  split
  · exact s.seenIds_popFront
  · rfl

/-- An insert into the containers of a packed set is one into the packed set. -/
theorem seenIds_insert (s : BoundedSet ι) (id : ι) :
    s.seenIds.insert id = ((s.insert id).1, (s.insert id).2.seenIds) := by
  unfold SeenIds.insert insert
  by_cases h : id ∈ s.set
  · rw [dif_pos h]
    exact if_pos h
  · rw [dif_neg h]
    refine (if_neg h).trans ?_
    have hroom := s.seenIds_makeRoom
    change s.makeRoom.seenIds = if s.seenIds.capacity ≤ s.seenIds.queue.length then _ else _ at hroom
    rw [← hroom]
    rfl

end BoundedSet

/-! ## Sequences of inserts -/

/-- One more insert, with the ids that were newly inserted so far. -/
def insertNext (s : SeenIds ι × List ι) (id : ι) : SeenIds ι × List ι :=
  ((s.1.insert id).2, if (s.1.insert id).1 then s.2 ++ [id] else s.2)

/-- A sequence of inserts into a new set, with the ids that were newly inserted. -/
def insertAll (c : ℕ) (ids : List ι) : SeenIds ι × List ι := ids.foldl insertNext (.new c, [])

/-- The containers are those of a packed set, the queue of which is a window over the new ids. -/
def Windowed (c : ℕ) (s : SeenIds ι) (fresh : List ι) : Prop :=
  ∃ b : BoundedSet ι, b.seenIds = s ∧ b.capacity = c ∧ b.queue = lastIds (max c 1) fresh

omit [DecidableEq ι] in
/-- A window that is at least one wide makes room under the same condition as one that may be empty. -/
theorem lastIds_max_concat {fresh : List ι} {id : ι} : lastIds (max c 1) (fresh ++ [id]) =
    (if c ≤ (lastIds (max c 1) fresh).length then (lastIds (max c 1) fresh).tail
      else lastIds (max c 1) fresh) ++ [id] := by
  rw [lastIds_concat (le_max_right c 1)]
  rcases Nat.eq_zero_or_pos c with rfl | hpos
  · -- an empty queue has nothing to evict
    rw [if_pos (Nat.zero_le _)]
    cases h : lastIds (max 0 1) fresh with
    | nil => rfl
    | cons oldest rest => rw [if_pos (by simp)]
  · rw [max_eq_left hpos]

/-- **One more insert** keeps the window. -/
theorem Windowed.insert {s : SeenIds ι} {fresh : List ι} (h : Windowed c s fresh) (id : ι) :
    Windowed c (s.insert id).2 (if (s.insert id).1 then fresh ++ [id] else fresh) := by
  obtain ⟨b, rfl, hcapacity, hqueue⟩ := h
  rw [b.seenIds_insert]
  refine ⟨(b.insert id).2, rfl, BoundedSet.capacity_insert.trans hcapacity, ?_⟩
  by_cases hid : id ∈ b.queue
  · rw [BoundedSet.insert_of_mem hid]
    exact hqueue
  · rw [if_pos (BoundedSet.insert_fst.mpr hid), BoundedSet.queue_insert hid, hcapacity, hqueue,
      lastIds_max_concat]

theorem windowed_insertAll (c : ℕ) (ids : List ι) :
    Windowed c (insertAll c ids).1 (insertAll c ids).2 := by
  induction ids using List.reverseRecOn with
  | nil => exact ⟨.new c, rfl, rfl, List.drop_nil.symm⟩
  | append_singleton ids id ih =>
      rw [insertAll, List.foldl_append]
      exact ih.insert id

omit [DecidableEq ι] in
theorem length_lastIds_le {fresh : List ι} : (lastIds c fresh).length ≤ c := by
  rw [lastIds, List.length_drop]
  omega

/-- The containers hold the last of the ids that were new, as many as there is room for. -/
structure IsWindow (c : ℕ) (s : SeenIds ι) (fresh : List ι) : Prop where
  queue_nodup : s.queue.Nodup
  mem_set : ∀ x, x ∈ s.set ↔ x ∈ s.queue
  length_le : s.queue.length ≤ max c 1
  queue_eq : s.queue = lastIds (max c 1) fresh
  refuses : ∀ id, (s.insert id).1 = false ↔ id ∈ lastIds (max c 1) fresh

/-- **The seen ids are a window over the ids that were new**, after every sequence of inserts. -/
theorem insertAll_window (c : ℕ) (ids : List ι) :
    IsWindow c (insertAll c ids).1 (insertAll c ids).2 := by
  obtain ⟨b, hb, -, hqueue⟩ := windowed_insertAll c ids
  rw [← hb]
  refine ⟨b.queue_nodup, b.mem_set, ?_, hqueue, fun id => ?_⟩
  · exact (congrArg List.length hqueue).trans_le length_lastIds_le
  · rw [b.seenIds_insert, ← hqueue, ← Bool.not_eq_true, BoundedSet.insert_fst, not_not]

example : (insertAll 0 ["a", "a", "b", "a"]).1.queue = ["a"] ∧
    (insertAll 0 ["a", "a", "b", "a"]).2 = ["a", "b", "a"] := by decide

end Kanban.Realtime
