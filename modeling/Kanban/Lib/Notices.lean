import Mathlib.Data.List.Induction
import Mathlib.Logic.Function.Basic
import Mathlib.Data.Nat.Notation

/-!
# Versions and the notices of their changes

Things have versions, which grow by one at every change.  A log has a notice of each change, with the
version before and the version after, so that somebody who follows the log notices when one is missing.
A step announces what it does to the versions if the notices that it appends tell it; then whoever
follows the log of a run knows the versions.

## Main definitions

* `Notice`, `follow` — the notices, and what one who follows them knows of a thing.
* `Announces` — the notices tell how the versions have changed.
* `Chain`, `chain_of_follow` — the changes from the version zero on, without a gap.
-/

namespace Notices

variable {κ : Type}

/-- A thing is new, or it has changed from a version to another, or it is gone.  A change that is shared
is told more than once. -/
inductive Notice (κ : Type)
  | created (k : κ)
  | changed (k : κ) (prev new : ℕ)
  | shared (k : κ) (prev new : ℕ)
  | deleted (k : κ)
  deriving DecidableEq, Repr

def Notice.key : Notice κ → κ
  | .created k => k
  | .changed k _ _ => k
  | .shared k _ _ => k
  | .deleted k => k

/-- The change that is told. -/
def Notice.change : Notice κ → Option (κ × ℕ × ℕ)
  | .changed k prev new => some (k, prev, new)
  | .shared k prev new => some (k, prev, new)
  | _ => none

theorem Notice.key_of_change {a : Notice κ} {k : κ} {p n : ℕ} (h : a.change = some (k, p, n)) :
    a.key = k := by
  cases a with
  | created _ => cases h
  | changed _ _ _ =>
      cases h
      rfl
  | shared _ _ _ =>
      cases h
      rfl
  | deleted _ => cases h

variable [DecidableEq κ]

/-- The version of `k` that is known after a notice; nothing is known when a change was missed. -/
def follow (k : κ) (known : Option ℕ) : Notice κ → Option ℕ
  | .created k' => if k' = k then some 0 else known
  | .changed k' p n => if k' = k then (if known = some p ∧ n = p + 1 then some n else none) else known
  | .shared k' p n =>
      if k' = k then (if (known = some p ∨ known = some n) ∧ n = p + 1 then some n else none) else known
  | .deleted k' => if k' = k then none else known

/-- The notices tell how the versions went from `s` to `s'`; each change is told from the version
before to the version after. -/
structure Announces (s : κ → Option ℕ) (l : List (Notice κ)) (s' : κ → Option ℕ) : Prop where
  follows : ∀ k, l.foldl (follow k) (s k) = s' k
  changed : ∀ a ∈ l, ∀ k p n, a.change = some (k, p, n) → s k = some p ∧ s' k = some n ∧ n = p + 1

variable {s s' s'' : κ → Option ℕ} {l l' : List (Notice κ)} {k : κ} {v : ℕ}

theorem follow_of_ne {a : Notice κ} {known : Option ℕ} (h : a.key ≠ k) : follow k known a = known := by
  cases a with
  | created k' => exact if_neg h
  | changed k' p n => exact if_neg h
  | shared k' p n => exact if_neg h
  | deleted k' => exact if_neg h

/-- Notices of other things. -/
theorem foldl_follow_of_ne {known : Option ℕ} (h : ∀ a ∈ l, a.key ≠ k) :
    l.foldl (follow k) known = known := by
  induction l with
  | nil => rfl
  | cons a l ih =>
      rw [List.foldl_cons, follow_of_ne (h a List.mem_cons_self)]
      exact ih fun b hb => h b (List.mem_cons_of_mem _ hb)

namespace Announces

theorem refl : Announces s [] s := ⟨fun _ => rfl, List.forall_mem_nil _⟩

/-- All the notices are about one thing. -/
theorem of_one {known : Option ℕ} (hl : ∀ a ∈ l, a.key = k)
    (hfollow : l.foldl (follow k) (s k) = known)
    (hchange : ∀ a ∈ l, ∀ k' p n, a.change = some (k', p, n) → s k = some p ∧ known = some n ∧ n = p + 1) :
    Announces s l (Function.update s k known) where
  follows k' := by
    by_cases hk : k' = k
    · subst hk
      rw [Function.update_self, hfollow]
    · rw [Function.update_of_ne hk]
      exact foldl_follow_of_ne fun a ha heq => hk (heq.symm.trans (hl a ha))
  changed a ha k' p n h := by
    obtain rfl : k' = k := (Notice.key_of_change h).symm.trans (hl a ha)
    rw [Function.update_self]
    exact hchange a ha k' p n h

theorem change (h : s k = some v) :
    Announces s [.changed k v (v + 1)] (Function.update s k (some (v + 1))) := by
  refine of_one (by simp [Notice.key]) (by simp [follow, h]) fun a ha k' p n hchange => ?_
  cases List.mem_singleton.mp ha
  cases hchange
  exact ⟨h, rfl, rfl⟩

/-- A change that is told twice. -/
theorem change_shared (h : s k = some v) :
    Announces s [.shared k v (v + 1), .shared k v (v + 1)] (Function.update s k (some (v + 1))) := by
  refine of_one (by simp [Notice.key]) (by simp [follow, h]) fun a ha k' p n hchange => ?_
  rcases List.mem_cons.mp ha with rfl | ha
  · cases hchange
    exact ⟨h, rfl, rfl⟩
  · cases List.mem_singleton.mp ha
    cases hchange
    exact ⟨h, rfl, rfl⟩

theorem create : Announces s [.created k] (Function.update s k (some 0)) := by
  refine of_one (by simp [Notice.key]) (by simp [follow]) fun a ha k' p n hchange => ?_
  cases List.mem_singleton.mp ha
  cases hchange

theorem delete : Announces s [.deleted k] (Function.update s k none) := by
  refine of_one (by simp [Notice.key]) (by simp [follow]) fun a ha k' p n hchange => ?_
  cases List.mem_singleton.mp ha
  cases hchange

/-- Changes of different things. -/
theorem append (h : Announces s l s') (h' : Announces s' l' s'')
    (hne : ∀ a ∈ l, ∀ b ∈ l', a.key ≠ b.key) : Announces s (l ++ l') s'' where
  follows k := by rw [List.foldl_append, h.follows, h'.follows]
  changed a hmem k p n hchange := by
    have hkey := Notice.key_of_change hchange
    rcases List.mem_append.mp hmem with hmem | hmem
    · obtain ⟨hp, hn, hnp⟩ := h.changed a hmem k p n hchange
      have hkept : l'.foldl (follow k) (s' k) = s' k :=
        foldl_follow_of_ne fun b hb heq => hne a hmem b hb (hkey.trans heq.symm)
      exact ⟨hp, (h'.follows k).symm.trans (hkept.trans hn), hnp⟩
    · obtain ⟨hp, hn, hnp⟩ := h'.changed a hmem k p n hchange
      have hkept : l.foldl (follow k) (s k) = s k :=
        foldl_follow_of_ne fun b hb heq => hne b hb a hmem (heq.trans hkey.symm)
      exact ⟨hkept.symm.trans ((h.follows k).trans hp), hn, hnp⟩

end Announces

/-! ## Chains -/

/-- The changes of `k` that are told, in their order. -/
def changesOf (k : κ) (l : List (Notice κ)) : List (ℕ × ℕ) :=
  l.filterMap fun a => (a.change.filter fun c => c.1 = k).map Prod.snd

/-- The changes go from the version zero to `v`, one version at a time. -/
structure Chain (changes : List (ℕ × ℕ)) (v : ℕ) : Prop where
  mem : ∀ p n, (p, n) ∈ changes ↔ n = p + 1 ∧ p < v
  sorted : changes.Pairwise fun a b => a.1 ≤ b.1

namespace Chain

variable {changes : List (ℕ × ℕ)}

theorem nil : Chain [] 0 := ⟨by simp, List.Pairwise.nil⟩

/-- The next version. -/
theorem concat (h : Chain changes v) : Chain (changes ++ [(v, v + 1)]) (v + 1) where
  mem p n := by
    rw [List.mem_append, List.mem_singleton, h.mem, Prod.mk.injEq]
    omega
  sorted := List.pairwise_append.mpr ⟨h.sorted, List.pairwise_singleton _ _, fun a ha b hb => by
    rw [List.mem_singleton.mp hb]
    exact Nat.le_of_lt ((h.mem a.1 a.2).mp ha).2⟩

/-- The last version, told once more. -/
theorem again (h : Chain changes (v + 1)) : Chain (changes ++ [(v, v + 1)]) (v + 1) where
  mem p n := by
    rw [List.mem_append, List.mem_singleton, h.mem, Prod.mk.injEq]
    omega
  sorted := List.pairwise_append.mpr ⟨h.sorted, List.pairwise_singleton _ _, fun a ha b hb => by
    rw [List.mem_singleton.mp hb]
    exact Nat.le_of_lt_succ ((h.mem a.1 a.2).mp ha).2⟩

end Chain

theorem changesOf_concat {a : Notice κ} : changesOf k (l ++ [a]) =
    changesOf k l ++ ((a.change.filter fun c => c.1 = k).map Prod.snd).toList := by
  unfold changesOf
  rw [List.filterMap_append]
  cases h : (a.change.filter fun c => c.1 = k).map Prod.snd <;> simp [h]

theorem changesOf_concat_of_ne {a : Notice κ} (h : a.key ≠ k) :
    changesOf k (l ++ [a]) = changesOf k l := by
  rw [changesOf_concat]
  cases hc : a.change with
  | none => exact List.append_nil _
  | some c =>
      obtain ⟨k', p, n⟩ := c
      have hne : k' ≠ k := fun heq => h ((Notice.key_of_change hc).trans heq)
      rw [Option.filter_some_neg (by simpa using hne)]
      exact List.append_nil _

/-- **Who follows from nothing to a version** was told that the thing is new, and then one unbroken
chain of changes. -/
theorem chain_of_follow (h : l.foldl (follow k) none = some v) :
    ∃ before after, l = before ++ .created k :: after ∧ Chain (changesOf k after) v := by
  induction l using List.reverseRecOn generalizing v with
  | nil => cases h
  | append_singleton l a ih =>
      rw [List.foldl_append] at h
      change follow k (l.foldl (follow k) none) a = some v at h
      by_cases hk : a.key = k
      · -- the change is the next one, or the last one again
        have hchange : ∀ p n, a.change = some (k, p, n) →
            (l.foldl (follow k) none = some p ∨ l.foldl (follow k) none = some n) →
            n = p + 1 → n = v → ∃ before after, l ++ [a] = before ++ .created k :: after ∧
              Chain (changesOf k after) v := by
          rintro p n ha hknown rfl rfl
          have hlast : ∀ after, changesOf k (after ++ [a]) = changesOf k after ++ [(p, p + 1)] := by
            intro after
            rw [changesOf_concat, ha, Option.filter_some_pos (by simp)]
            rfl
          rcases hknown with hknown | hknown
          · obtain ⟨before, after, rfl, hchain⟩ := ih hknown
            exact ⟨before, after ++ [a], List.append_assoc _ _ _, hlast after ▸ hchain.concat⟩
          · obtain ⟨before, after, rfl, hchain⟩ := ih hknown
            exact ⟨before, after ++ [a], List.append_assoc _ _ _, hlast after ▸ hchain.again⟩
        cases a with
        | created k' =>
            obtain rfl : k' = k := hk
            obtain rfl : 0 = v := Option.some.inj ((if_pos rfl).symm.trans h)
            exact ⟨l, [], rfl, .nil⟩
        | changed k' p n =>
            obtain rfl : k' = k := hk
            obtain ⟨⟨hknown, hn⟩, heq⟩ := Option.ite_none_right_eq_some.mp ((if_pos rfl).symm.trans h)
            exact hchange p n rfl (.inl hknown) hn (Option.some.inj heq)
        | shared k' p n =>
            obtain rfl : k' = k := hk
            obtain ⟨⟨hknown, hn⟩, heq⟩ := Option.ite_none_right_eq_some.mp ((if_pos rfl).symm.trans h)
            exact hchange p n rfl hknown hn (Option.some.inj heq)
        | deleted k' =>
            obtain rfl : k' = k := hk
            exact absurd ((if_pos rfl).symm.trans h) nofun
      · rw [follow_of_ne hk] at h
        obtain ⟨before, after, rfl, hchain⟩ := ih h
        exact ⟨before, after ++ [a], List.append_assoc _ _ _, (changesOf_concat_of_ne hk).symm ▸ hchain⟩

end Notices
