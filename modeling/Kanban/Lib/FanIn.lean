import Mathlib.Data.List.Infix

/-!
# Many senders and one queue

Senders make messages, hold the one that they are about to send, and put it into a queue that one
receiver takes from.  `Carried made held queue received` says where the messages of every sender
are: what was received, what waits in the queue and what is held make up what was made, in the
order in which it was made.

## Main definitions

* `of k l` — the messages of one sender.
* `Carried` — nothing is lost, repeated or put out of order.
* `Carried.make`, `Carried.send`, `Carried.receive` — the steps of the senders and of the receiver.
* `Carried.received`, `Carried.all_received` — what the receiver has of one sender.
-/

namespace FanIn

variable {κ α : Type*} [DecidableEq κ]

/-- The messages of `k`. -/
def of (k : κ) (l : List (κ × α)) : List α := (l.filter fun m => m.1 = k).map Prod.snd

section Of

variable {k j : κ} {x : α} {l l' : List (κ × α)}

@[simp] theorem of_nil : of k ([] : List (κ × α)) = [] := rfl

@[simp] theorem of_append : of k (l ++ l') = of k l ++ of k l' := by
  simp [of]

@[simp] theorem of_cons_self : of k ((k, x) :: l) = x :: of k l := by
  simp [of]

theorem of_cons_ne (h : j ≠ k) : of k ((j, x) :: l) = of k l := by
  simp [of, h]

end Of

/-- The messages that each sender has made were received, wait in the queue or are held. -/
def Carried (made held : κ → List α) (queue received : List (κ × α)) : Prop :=
  ∀ k, made k = of k received ++ of k queue ++ held k

namespace Carried

variable {made made' held held' : κ → List α} {queue received : List (κ × α)} {k : κ} {x : α}

/-- A sender that holds nothing makes messages, and holds them. -/
theorem make (h : Carried made held queue received) (k : κ) (hfree : held k = [])
    (hmade : made' k = made k ++ held' k)
    (hrest : ∀ j, j ≠ k → made' j = made j ∧ held' j = held j) :
    Carried made' held' queue received := by
  intro j
  by_cases hj : j = k
  · subst hj
    rw [hmade, h j, hfree, List.append_nil]
  · rw [(hrest j hj).1, (hrest j hj).2]
    exact h j

/-- A sender sends what it holds. -/
theorem send (h : Carried made held queue received) (hheld : held k = [x]) (hsent : held' k = [])
    (hrest : ∀ j, j ≠ k → held' j = held j) :
    Carried made held' (queue ++ [(k, x)]) received := by
  intro j
  by_cases hj : j = k
  · subst hj
    rw [h j, hheld, hsent]
    simp
  · rw [hrest j hj, h j, of_append, of_cons_ne (Ne.symm hj)]
    simp

/-- The receiver takes the oldest message. -/
theorem receive (h : Carried made held ((k, x) :: queue) received) :
    Carried made held queue (received ++ [(k, x)]) := by
  intro j
  rw [h j]
  by_cases hj : j = k
  · subst hj
    simp
  · rw [of_append, of_cons_ne (Ne.symm hj), of_cons_ne (Ne.symm hj)]
    simp

/-- The receiver has the first messages of a sender. -/
theorem received_prefix (h : Carried made held queue received) (k : κ) :
    of k received <+: made k := by
  rw [h k, List.append_assoc]
  exact List.prefix_append _ _

/-- **Nothing on the way**: the receiver has all messages of the sender. -/
theorem all_received (h : Carried made held queue received) (hqueue : of k queue = [])
    (hheld : held k = []) : of k received = made k := by
  rw [h k, hqueue, hheld]
  simp

end Carried

end FanIn
