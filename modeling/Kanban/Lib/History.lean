import Mathlib.Data.List.Induction
import Mathlib.Data.List.Pairwise
import Mathlib.Order.MinMax

/-!
# Lists as histories

A run leaves a list that grows at its end.  `Along P l` says that every element met `P` with
respect to the elements before it.  `Rising f b l` is the history of a filter that remembers
only the largest key it has let through: the keys rise strictly from a starting bound.

## Main definitions

* `Along P l` — every element of `l` meets `P` after the elements before it.
* `along_concat` — one more element.
* `peak f b l` — the largest key of `l`, or the bound `b`.
* `Rising f b l` — the keys of `l` exceed the bound and rise strictly.
* `rising_concat` — one more element keeps a history rising exactly when it exceeds the peak.
-/

namespace History

section Along

variable {α : Type*} {P Q : List α → α → Prop} {l : List α} {x : α}

/-- Every element meets `P` with respect to the elements before it. -/
def Along (P : List α → α → Prop) (l : List α) : Prop :=
  ∀ pre x post, l = pre ++ x :: post → P pre x

@[simp] theorem along_nil : Along P [] := by
  intro pre x post h
  simp at h

/-- **One more element.** -/
@[simp] theorem along_concat : Along P (l ++ [x]) ↔ Along P l ∧ P l x := by
  constructor
  · intro h
    refine ⟨fun pre y post heq => ?_, h l x [] rfl⟩
    exact h pre y (post ++ [x]) (by simp [heq])
  · intro ⟨h, hlast⟩ pre y post heq
    rcases post.eq_nil_or_concat with rfl | ⟨post', z, rfl⟩
    · obtain ⟨rfl, hx⟩ := List.append_inj' heq rfl
      exact List.head_eq_of_cons_eq hx ▸ hlast
    · have heq : l ++ [x] = (pre ++ y :: post') ++ [z] := by simpa using heq
      exact h pre y post' (List.append_inj' heq rfl).1

/-- A history in two parts. -/
theorem along_append {l' : List α} :
    Along P (l ++ l') ↔ Along P l ∧ Along (fun pre x => P (l ++ pre) x) l' := by
  induction l' using List.reverseRecOn with
  | nil => simp
  | append_singleton l' x ih => rw [← List.append_assoc, along_concat, ih, along_concat, and_assoc]

/-- A consequence for the elements of the history may use that they belong to it. -/
theorem Along.mono (h : Along P l) (hPQ : ∀ pre x, x ∈ l → P pre x → Q pre x) : Along Q l :=
  fun pre x post heq => hPQ pre x (by simp [heq]) (h pre x post heq)

end Along

section Peak

variable {α β : Type*} [LinearOrder β] {f : α → β} {b : β} {l : List α} {x : α}

/-- The largest key of the list, or the bound. -/
def peak (f : α → β) (b : β) (l : List α) : β := (l.map f).foldl max b

@[simp] theorem peak_nil : peak f b [] = b := rfl

theorem peak_cons : peak f b (x :: l) = peak f (max b (f x)) l := rfl

@[simp] theorem peak_concat : peak f b (l ++ [x]) = max (peak f b l) (f x) := by simp [peak]

theorem le_peak : b ≤ peak f b l := by
  induction l generalizing b with
  | nil => exact le_rfl
  | cons x l ih => exact le_trans (le_max_left _ _) ih

theorem le_peak_of_mem (h : x ∈ l) : f x ≤ peak f b l := by
  induction l generalizing b with
  | nil => cases h
  | cons y l ih =>
      rw [peak_cons]
      rcases List.mem_cons.mp h with rfl | h
      · exact le_trans (le_max_right _ _) le_peak
      · exact ih h

theorem peak_eq_or_mem (b : β) (l : List α) : peak f b l = b ∨ ∃ x ∈ l, peak f b l = f x := by
  induction l generalizing b with
  | nil => exact .inl rfl
  | cons x l ih =>
      rw [peak_cons]
      rcases ih (max b (f x)) with h | ⟨y, hy, h⟩
      · rcases max_choice b (f x) with hm | hm
        · exact .inl (by rw [h, hm])
        · exact .inr ⟨x, by simp, by rw [h, hm]⟩
      · exact .inr ⟨y, List.mem_cons_of_mem _ hy, h⟩

/-- The peak is below a key exactly when the bound and every key of the list are. -/
theorem peak_lt_iff {c : β} : peak f b l < c ↔ b < c ∧ ∀ x ∈ l, f x < c := by
  constructor
  · intro h
    exact ⟨le_peak.trans_lt h, fun x hx => (le_peak_of_mem hx).trans_lt h⟩
  · intro ⟨hb, hl⟩
    rcases peak_eq_or_mem (f := f) b l with h | ⟨x, hx, h⟩
    · rwa [h]
    · rw [h]; exact hl x hx

/-- The keys exceed the bound and rise strictly. -/
structure Rising (f : α → β) (b : β) (l : List α) : Prop where
  above : ∀ x ∈ l, b < f x
  pairwise : l.Pairwise fun x y => f x < f y

theorem rising_nil : Rising f b [] := ⟨fun _ h => by simp at h, List.Pairwise.nil⟩

/-- **One more element** keeps a history rising exactly when its key exceeds the peak. -/
theorem rising_concat : Rising f b (l ++ [x]) ↔ Rising f b l ∧ peak f b l < f x := by
  rw [peak_lt_iff]
  constructor
  · intro ⟨habove, hpair⟩
    obtain ⟨hl, -, hx⟩ := List.pairwise_append.mp hpair
    exact ⟨⟨fun y hy => habove y (by simp [hy]), hl⟩, habove x (by simp),
      fun y hy => hx y hy x (by simp)⟩
  · intro ⟨⟨habove, hpair⟩, hb, hx⟩
    constructor
    · intro y hy
      rcases List.mem_append.mp hy with hy | hy
      · exact habove y hy
      · rwa [List.mem_singleton.mp hy]
    · refine List.pairwise_append.mpr ⟨hpair, List.pairwise_singleton _ _, fun y hy z hz => ?_⟩
      rw [List.mem_singleton.mp hz]
      exact hx y hy

/-- Nothing occurs twice in a rising history. -/
theorem Rising.nodup (h : Rising f b l) : l.Nodup :=
  h.pairwise.imp fun hlt heq => (heq ▸ hlt).false

end Peak

end History
