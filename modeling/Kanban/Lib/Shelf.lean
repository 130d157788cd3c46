import Mathlib.Data.List.Sort
import Mathlib.Data.List.InsertIdx
import Mathlib.Tactic.Linarith

/-!
# Items in order of their positions

A shelf holds items, each at an integer position, in no particular order of its own.  The positions
put the items in a list.  They may have gaps, and any change of them that keeps their order leaves
the list as it is.

## Main definitions

* `Shelf.Apart` — no two items share a position.
* `Shelf.order` — the items in the order of their positions.
* `Shelf.below` — how many items are below a position.
* `Shelf.shift` — some items move by a number of positions.
* `Shelf.Open` — a position that is free.
* `Shelf.others` — the items but for one.
* `Shelf.makeRoom` — the others make room for an item that leaves its position for another.
* `Shelf.Dense` — the positions are those from 0 on, without a gap.
-/

namespace Shelf

variable {α : Type} {l l' : List (α × ℤ)} {p : ℤ} {a : α}

/-- No two items share a position. -/
def Apart (l : List (α × ℤ)) : Prop := (l.map Prod.snd).Nodup

/-- The items in the order of their positions. -/
def order (l : List (α × ℤ)) : List α := (l.insertionSort fun s t => s.2 ≤ t.2).map Prod.fst

/-- How many items are below a position. -/
def below (p : ℤ) (l : List (α × ℤ)) : ℕ := l.countP fun s => s.2 < p

/-- The items at the positions `q` move by `d`. -/
def shift (q : ℤ → Bool) (d : ℤ) (l : List (α × ℤ)) : List (α × ℤ) :=
  l.map fun s => if q s.2 then (s.1, s.2 + d) else s

instance : Decidable (Apart l) := inferInstanceAs (Decidable (List.Nodup _))

/-! ## The order -/

theorem Apart.perm (h : Apart l) (hp : l.Perm l') : Apart l' := (hp.map Prod.snd).nodup_iff.mp h

theorem Apart.of_sublist (h : Apart l) (hs : l'.Sublist l) : Apart l' :=
  List.Nodup.sublist (hs.map Prod.snd) h

theorem Apart.eq_of_snd (h : Apart l) {s t : α × ℤ} (hs : s ∈ l) (ht : t ∈ l) (heq : s.2 = t.2) :
    s = t := List.inj_on_of_nodup_map h hs ht heq

theorem apart_cons : Apart ((a, p) :: l) ↔ (∀ s ∈ l, s.2 ≠ p) ∧ Apart l := by
  rw [Apart, List.map_cons, List.nodup_cons]
  refine and_congr_left fun _ => ⟨fun h s hs heq => h ?_, fun h hmem => ?_⟩
  · exact List.mem_map.mpr ⟨s, hs, heq⟩
  · obtain ⟨s, hs, heq⟩ := List.mem_map.mp hmem
    exact h s hs heq

/-- Items that are apart can be put in a row. -/
theorem Apart.exists_sorted (h : Apart l) :
    ∃ m : List (α × ℤ), m.Perm l ∧ m.Pairwise fun s t => s.2 < t.2 := by
  have hperm := List.perm_insertionSort (fun s t : α × ℤ => s.2 ≤ t.2) l
  refine ⟨_, hperm, ?_⟩
  have : IsTrans (α × ℤ) fun s t => s.2 ≤ t.2 := ⟨fun _ _ _ => le_trans⟩
  have : Std.Total fun s t : α × ℤ => s.2 ≤ t.2 := ⟨fun s t => le_total s.2 t.2⟩
  have hnodup : (l.insertionSort fun s t => s.2 ≤ t.2).Pairwise fun s t => s.2 ≠ t.2 :=
    List.pairwise_map.mp (h.perm hperm.symm)
  exact (List.pairwise_insertionSort _ l).imp₂ (fun _ _ hle hne => lt_of_le_of_ne hle hne) hnodup

/-- The row that items stand in is their order. -/
theorem order_eq {m : List (α × ℤ)} (hp : m.Perm l) (hm : m.Pairwise fun s t => s.2 < t.2) :
    order l = m.map Prod.fst := by
  have hperm := (List.perm_insertionSort (fun s t : α × ℤ => s.2 ≤ t.2) l).trans hp.symm
  have : IsTrans (α × ℤ) fun s t => s.2 ≤ t.2 := ⟨fun _ _ _ => le_trans⟩
  have : Std.Total fun s t : α × ℤ => s.2 ≤ t.2 := ⟨fun s t => le_total s.2 t.2⟩
  have hapart : Apart m := (List.pairwise_map.mpr (hm.imp ne_of_lt))
  rw [order, hperm.eq_of_pairwise ?_ (List.pairwise_insertionSort _ l) (hm.imp le_of_lt)]
  intro s t hs ht hst hts
  exact hapart.eq_of_snd (hperm.mem_iff.mp hs) ht (le_antisymm hst hts)

theorem order_perm (h : Apart l) (hp : l.Perm l') : order l = order l' := by
  obtain ⟨m, hm, hsorted⟩ := h.exists_sorted
  rw [order_eq hm hsorted, order_eq (hm.trans hp) hsorted]

theorem perm_order : (order l).Perm (l.map Prod.fst) := (List.perm_insertionSort _ l).map Prod.fst

theorem mem_order : a ∈ order l ↔ ∃ p, (a, p) ∈ l := by
  simp [order, List.mem_insertionSort]

theorem length_order : (order l).length = l.length := by simp [order]

theorem below_le : below p l ≤ (order l).length := by
  rw [length_order]
  exact List.countP_le_length

/-- A change of the positions that keeps their order keeps the order of the items. -/
theorem order_map {f : ℤ → ℤ} (h : Apart l)
    (hf : ∀ s ∈ l, ∀ t ∈ l, s.2 < t.2 → f s.2 < f t.2) :
    Apart (l.map fun s => (s.1, f s.2)) ∧ order (l.map fun s => (s.1, f s.2)) = order l := by
  obtain ⟨m, hm, hsorted⟩ := h.exists_sorted
  have hsorted' : (m.map fun s => (s.1, f s.2)).Pairwise fun s t => s.2 < t.2 :=
    List.pairwise_map.mpr (hsorted.imp_of_mem fun {s t} hs ht hlt =>
      hf s (hm.mem_iff.mp hs) t (hm.mem_iff.mp ht) hlt)
  have hm' := hm.map fun s => (s.1, f s.2)
  refine ⟨Apart.perm (List.pairwise_map.mpr (hsorted'.imp ne_of_lt)) hm', ?_⟩
  rw [order_eq hm' hsorted', order_eq hm hsorted, List.map_map]
  rfl

/-- Some of the items. -/
theorem order_filter (h : Apart l) (q : α → Bool) :
    order (l.filter fun s => q s.1) = (order l).filter q := by
  obtain ⟨m, hm, hsorted⟩ := h.exists_sorted
  rw [order_eq (hm.filter _) (hsorted.filter _), order_eq hm hsorted, List.filter_map]
  rfl

/-- A row is split at a position. -/
theorem sorted_split {m : List (α × ℤ)} (h : m.Pairwise fun s t => s.2 < t.2) (p : ℤ) :
    m = m.filter (fun s => s.2 < p) ++ m.filter (fun s => !decide (s.2 < p)) := by
  induction m with
  | nil => rfl
  | cons s m ih =>
      obtain ⟨hs, hm⟩ := List.pairwise_cons.mp h
      by_cases hp : s.2 < p
      · simpa [hp] using ih hm
      · have hnone : m.filter (fun t => decide (t.2 < p)) = [] := by
          refine List.filter_eq_nil_iff.mpr fun t ht htp => hp ?_
          exact (hs t ht).trans (of_decide_eq_true htp)
        have hall : m.filter (fun t => !decide (t.2 < p)) = m := by
          refine List.filter_eq_self.mpr fun t ht => ?_
          have := hs t ht
          simp
          omega
        simp [hp, hnone, hall]

theorem insertIdx_append_length {β : Type} (l₁ l₂ : List β) (b : β) :
    (l₁ ++ l₂).insertIdx l₁.length b = l₁ ++ b :: l₂ := by
  induction l₁ with
  | nil => rfl
  | cons c l₁ ih => simp [ih]

/-- An inserted item can be left out again. -/
theorem filter_insertIdx {q : α → Bool} (hq : q a = false) (l : List α) (i : ℕ) :
    (l.insertIdx i a).filter q = l.filter q := by
  induction l generalizing i with
  | nil =>
      cases i with
      | zero => simp [hq]
      | succ i => rfl
  | cons b l ih =>
      cases i with
      | zero => simp [hq]
      | succ i => simp only [List.insertIdx_succ_cons, List.filter_cons, ih]

/-- A new item tells where it was inserted. -/
theorem insertIdx_inj {l : List α} {i j : ℕ} (ha : a ∉ l) (hi : i ≤ l.length) (hj : j ≤ l.length) :
    l.insertIdx i a = l.insertIdx j a ↔ i = j := by
  refine ⟨fun h => ?_, fun h => h ▸ rfl⟩
  induction l generalizing i j with
  | nil => exact (Nat.le_zero.mp hi).trans (Nat.le_zero.mp hj).symm
  | cons b l ih =>
      obtain ⟨hne, hmem⟩ := List.ne_and_not_mem_of_not_mem_cons ha
      cases i with
      | zero =>
          cases j with
          | zero => rfl
          | succ j => exact absurd (List.cons.inj h).1 hne
      | succ i =>
          cases j with
          | zero => exact absurd (List.cons.inj h).1.symm hne
          | succ j =>
              exact congrArg _ (ih hmem (Nat.le_of_succ_le_succ hi) (Nat.le_of_succ_le_succ hj)
                (List.cons.inj h).2)

/-- **An item at a position that is free** comes after the items below it. -/
theorem order_cons (h : Apart l) (hfree : ∀ s ∈ l, s.2 ≠ p) :
    order ((a, p) :: l) = (order l).insertIdx (below p l) a := by
  obtain ⟨m, hm, hsorted⟩ := h.exists_sorted
  have hbelow : below p l = ((m.filter fun s => s.2 < p).map Prod.fst).length := by
    rw [List.length_map, ← List.countP_eq_length_filter]
    exact (hm.countP_eq _).symm
  have hsplit := sorted_split hsorted p
  have hrow : (m.filter (fun s => s.2 < p) ++ (a, p) :: m.filter fun s => !decide (s.2 < p)).Pairwise
      fun s t => s.2 < t.2 := by
    refine List.pairwise_append.mpr ⟨hsorted.filter _, List.pairwise_cons.mpr
      ⟨fun t ht => ?_, hsorted.filter _⟩, fun s hs t ht => ?_⟩
    · obtain ⟨hmem, hnot⟩ := List.mem_filter.mp ht
      have hne := hfree t (hm.mem_iff.mp hmem)
      simp at hnot
      exact lt_of_le_of_ne hnot (Ne.symm hne)
    · have hlt : s.2 < p := of_decide_eq_true (List.mem_filter.mp hs).2
      rcases List.mem_cons.mp ht with rfl | ht
      · exact hlt
      · have hnot := (List.mem_filter.mp ht).2
        simp at hnot
        omega
  have hperm : (m.filter (fun s => s.2 < p) ++ (a, p) :: m.filter fun s => !decide (s.2 < p)).Perm
      ((a, p) :: l) := by
    refine List.perm_middle.trans (List.Perm.cons _ ?_)
    rwa [← hsplit]
  have hsplit' : m.map Prod.fst = (m.filter fun s => s.2 < p).map Prod.fst ++
      (m.filter fun s => !decide (s.2 < p)).map Prod.fst := by
    rw [← List.map_append, ← hsplit]
  rw [order_eq hperm hrow, order_eq hm hsorted, hbelow, hsplit', insertIdx_append_length,
    List.map_append, List.map_cons]

/-! ## Shifts -/

theorem map_fst_shift {q : ℤ → Bool} {d : ℤ} : (shift q d l).map Prod.fst = l.map Prod.fst := by
  rw [shift, List.map_map]
  refine List.map_congr_left fun s _ => ?_
  dsimp only [Function.comp_apply]
  split <;> rfl

theorem exists_of_mem_shift {q : ℤ → Bool} {d : ℤ} {s : α × ℤ} (hs : s ∈ shift q d l) :
    ∃ t ∈ l, s.2 = if q t.2 then t.2 + d else t.2 := by
  obtain ⟨t, ht, rfl⟩ := List.mem_map.mp hs
  refine ⟨t, ht, ?_⟩
  split <;> rfl

/-- Rows that move their positions are items that move. -/
theorem shift_rows {τ : Type} {r : τ → Bool} {f : τ → α × ℤ} {g : τ → τ} {q : ℤ → Bool} {d : ℤ}
    (hr : ∀ x, r (g x) = r x) (hf : ∀ x, f (g x) = ((f x).1, (f x).2 + d)) (rows : List τ) :
    ((rows.map fun x => if r x ∧ q (f x).2 then g x else x).filter r).map f =
      shift q d ((rows.filter r).map f) := by
  induction rows with
  | nil => rfl
  | cons x rows ih =>
      rw [List.map_cons]
      by_cases hx : r x = true
      · by_cases hq : q (f x).2 = true
        · rw [if_pos ⟨hx, hq⟩, List.filter_cons_of_pos (by rw [hr, hx]), List.filter_cons_of_pos hx,
            List.map_cons, ih, hf]
          simp [shift, hq]
        · rw [if_neg fun h => hq h.2, List.filter_cons_of_pos hx, List.filter_cons_of_pos hx,
            List.map_cons, ih]
          simp [shift, hq]
      · rw [if_neg fun h => hx h.1, List.filter_cons_of_neg hx, List.filter_cons_of_neg hx, ih]

/-- A shift that keeps the order of the positions. -/
theorem order_shift {q : ℤ → Bool} {d : ℤ} (h : Apart l)
    (hf : ∀ s ∈ l, ∀ t ∈ l, s.2 < t.2 →
      (if q s.2 then s.2 + d else s.2) < if q t.2 then t.2 + d else t.2) :
    Apart (shift q d l) ∧ order (shift q d l) = order l := by
  have heq : shift q d l = l.map fun s => (s.1, if q s.2 then s.2 + d else s.2) := by
    refine List.map_congr_left fun s _ => ?_
    split <;> rfl
  rw [heq]
  exact order_map (f := fun x => if q x then x + d else x) h hf

theorem below_shift {q : ℤ → Bool} {d : ℤ} :
    below p (shift q d l) = l.countP fun s => (if q s.2 then s.2 + d else s.2) < p := by
  unfold below shift
  rw [List.countP_map]
  refine List.countP_congr fun s _ => ?_
  dsimp only [Function.comp_apply]
  split <;> rfl

theorem below_shift_above : below p (shift (p ≤ ·) 1 l) = below p l := by
  rw [below_shift]
  refine List.countP_congr fun s _ => ?_
  simp only [decide_eq_true_eq]
  split <;> omega

theorem free_shift_above : ∀ s ∈ shift (p ≤ ·) 1 l, s.2 ≠ p := by
  intro s hs
  obtain ⟨t, -, rfl⟩ := List.mem_map.mp hs
  simp only [decide_eq_true_eq]
  split <;> omega

/-- A row and a position that none of its items has: where the next item can go. -/
structure Open (p : ℤ) (l : List (α × ℤ)) : Prop where
  apart : Apart l
  free : ∀ s ∈ l, s.2 ≠ p

/-- The items from `p` on make room. -/
theorem open_above (h : Apart l) (p : ℤ) :
    Open p (shift (p ≤ ·) 1 l) ∧ order (shift (p ≤ ·) 1 l) = order l ∧
      below p (shift (p ≤ ·) 1 l) = below p l := by
  obtain ⟨hapart, horder⟩ := order_shift (q := fun x => decide (p ≤ x)) (d := 1) h
    fun s _ t _ hlt => by simp only [decide_eq_true_eq]; split <;> split <;> omega
  exact ⟨⟨hapart, free_shift_above⟩, horder, below_shift_above⟩

/-- The items above a free position `p` go down by one. -/
theorem close_above (h : Open p l) :
    Apart (shift (p < ·) (-1) l) ∧ order (shift (p < ·) (-1) l) = order l :=
  order_shift h.apart fun s hs t ht hlt => by
    have := h.free s hs
    have := h.free t ht
    simp only [decide_eq_true_eq]
    split <;> split <;> omega

/-- The items from a free position `p` up to `p'` go down by one. -/
theorem open_forward {p' : ℤ} (h : Open p l) (hp : p < p') :
    Open p' (shift (fun x => p < x ∧ x ≤ p') (-1) l) ∧
      order (shift (fun x => p < x ∧ x ≤ p') (-1) l) = order l ∧
      below p' (shift (fun x => p < x ∧ x ≤ p') (-1) l) = below (p' + 1) l := by
  obtain ⟨hapart, horder⟩ := order_shift (q := fun x => decide (p < x ∧ x ≤ p')) (d := -1) h.apart
    fun s hs t ht hlt => by
      have := h.free s hs
      have := h.free t ht
      simp only [decide_eq_true_eq]
      split <;> split <;> omega
  refine ⟨⟨hapart, fun s hs => ?_⟩, horder, ?_⟩
  · obtain ⟨t, ht, rfl⟩ := List.mem_map.mp hs
    have := h.free t ht
    simp only [decide_eq_true_eq]
    split <;> omega
  · rw [below_shift]
    refine List.countP_congr fun s hs => ?_
    have := h.free s hs
    simp only [decide_eq_true_eq]
    split <;> omega

/-- The items from `p'` up to a free position `p` go up by one. -/
theorem open_backward {p' : ℤ} (h : Open p l) (hp : p' < p) :
    Open p' (shift (fun x => p' ≤ x ∧ x < p) 1 l) ∧
      order (shift (fun x => p' ≤ x ∧ x < p) 1 l) = order l ∧
      below p' (shift (fun x => p' ≤ x ∧ x < p) 1 l) = below p' l := by
  obtain ⟨hapart, horder⟩ := order_shift (q := fun x => decide (p' ≤ x ∧ x < p)) (d := 1) h.apart
    fun s hs t ht hlt => by
      have := h.free s hs
      have := h.free t ht
      simp only [decide_eq_true_eq]
      split <;> split <;> omega
  refine ⟨⟨hapart, fun s hs => ?_⟩, horder, ?_⟩
  · obtain ⟨t, ht, rfl⟩ := List.mem_map.mp hs
    have := h.free t ht
    simp only [decide_eq_true_eq]
    split <;> omega
  · rw [below_shift]
    refine List.countP_congr fun s hs => ?_
    have := h.free s hs
    simp only [decide_eq_true_eq]
    split <;> omega

/-- The position after all items. -/
def top (l : List (α × ℤ)) : ℤ := ((l.map Prod.snd).max?).getD (-1) + 1

theorem lt_top {s : α × ℤ} (hs : s ∈ l) : s.2 < top l := by
  unfold top
  cases hmax : (l.map Prod.snd).max? with
  | none =>
      rw [List.max?_eq_none_iff, List.map_eq_nil_iff] at hmax
      rw [hmax] at hs
      cases hs
  | some m =>
      have := (List.max?_eq_some_iff.mp hmax).2 s.2 (List.mem_map_of_mem hs)
      simp only [Option.getD_some]
      omega

theorem open_top (h : Apart l) : Open (top l) l := ⟨h, fun _ hs => (lt_top hs).ne⟩

theorem below_top : below (top l) l = l.length :=
  List.countP_eq_length.mpr fun _ hs => decide_eq_true (lt_top hs)

/-- The place of an item in the order is the number of items below it. -/
theorem idxOf_order [BEq α] [LawfulBEq α] (hp : l'.Perm ((a, p) :: l)) (hnew : a ∉ l.map Prod.fst)
    (hfree : ∀ s ∈ l, s.2 ≠ p) : (order l').idxOf a = below p l := by
  have hperm := (List.perm_insertionSort (fun s t : α × ℤ => s.2 ≤ t.2) l').trans hp
  have : IsTrans (α × ℤ) fun s t => s.2 ≤ t.2 := ⟨fun _ _ _ => le_trans⟩
  have : Std.Total fun s t : α × ℤ => s.2 ≤ t.2 := ⟨fun s t => le_total s.2 t.2⟩
  have hsorted := List.pairwise_insertionSort (fun s t : α × ℤ => s.2 ≤ t.2) l'
  unfold order
  obtain ⟨m₁, m₂, hsplit⟩ := List.append_of_mem (hperm.mem_iff.mpr List.mem_cons_self)
  rw [hsplit] at hperm hsorted ⊢
  have hrest : (m₁ ++ m₂).Perm l := List.Perm.cons_inv (List.perm_middle.symm.trans hperm)
  have hmem : ∀ s ∈ m₁ ++ m₂, s ∈ l := fun s hs => hrest.mem_iff.mp hs
  -- what comes before the item is below it, and what comes after it is above
  have hbefore : ∀ s ∈ m₁, s.2 < p := fun s hs =>
    lt_of_le_of_ne ((List.pairwise_append.mp hsorted).2.2 s hs _ List.mem_cons_self)
      (hfree s (hmem s (List.mem_append_left _ hs)))
  have hafter : ∀ s ∈ m₂, ¬ s.2 < p := fun s hs => not_lt_of_ge
    ((List.pairwise_cons.mp (List.pairwise_append.mp hsorted).2.1).1 s hs)
  have hidx : a ∉ m₁.map Prod.fst := by
    intro h
    obtain ⟨s, hs, heq⟩ := List.mem_map.mp h
    exact hnew (heq ▸ List.mem_map_of_mem (hmem s (List.mem_append_left _ hs)))
  rw [List.map_append, List.map_cons, List.idxOf_append_of_notMem hidx, List.idxOf_cons_self,
    Nat.add_zero, List.length_map, below, ← hrest.countP_eq, List.countP_append,
    List.countP_eq_length.mpr fun s hs => decide_eq_true (hbefore s hs),
    List.countP_eq_zero.mpr fun s hs => by simpa using hafter s hs, Nat.add_zero]

/-- **An item is put at a position** that the others have left free. -/
theorem Open.put (h : Open p l) (a : α) :
    Apart ((a, p) :: l) ∧ order ((a, p) :: l) = (order l).insertIdx (below p l) a :=
  ⟨apart_cons.mpr ⟨h.free, h.apart⟩, order_cons h.apart h.free⟩

/-! ## New items -/

/-- `l'` are the items `l`, at whatever positions, and the new item `a` at a position of its own. -/
structure Gains (a : α) (l l' : List (α × ℤ)) : Prop where
  new : a ∉ l.map Prod.fst
  items : (l'.map Prod.fst).Perm (a :: l.map Prod.fst)
  alone : ∀ s ∈ l', ∀ t ∈ l', s.1 = a → s.2 = t.2 → s = t

section Gains

variable {m : List (α × ℤ)}

theorem gains (hp : l'.Perm ((a, p) :: m)) (hm : m.map Prod.fst = l.map Prod.fst)
    (hnew : a ∉ l.map Prod.fst) (hfree : ∀ s ∈ m, s.2 ≠ p) : Gains a l l' := by
  refine ⟨hnew, hm ▸ hp.map Prod.fst, fun s hs t ht hid hpos => ?_⟩
  rcases List.mem_cons.mp (hp.mem_iff.mp hs) with rfl | hs
  · rcases List.mem_cons.mp (hp.mem_iff.mp ht) with rfl | ht
    · rfl
    · exact absurd hpos.symm (hfree t ht)
  · exact absurd (hm ▸ List.mem_map.mpr ⟨s, hs, hid⟩) hnew

variable [BEq α] [LawfulBEq α]

/-- A new item is put after all others. -/
theorem gains_top (hp : l'.Perm ((a, top l) :: l)) (hnew : a ∉ l.map Prod.fst) :
    Gains a l l' ∧ (order l').idxOf a = l.length :=
  ⟨gains hp rfl hnew fun _ hs => (lt_top hs).ne,
    (idxOf_order hp hnew fun _ hs => (lt_top hs).ne).trans below_top⟩

/-- A new item is put where the others have made room. -/
theorem gains_at (hp : l'.Perm ((a, p) :: shift (p ≤ ·) 1 l)) (hnew : a ∉ l.map Prod.fst) :
    Gains a l l' ∧ (order l').idxOf a = below p l :=
  ⟨gains hp map_fst_shift hnew free_shift_above,
    (idxOf_order hp (by rwa [map_fst_shift]) free_shift_above).trans below_shift_above⟩

end Gains

/-! ## One item among others -/

section Others

variable [DecidableEq α]

/-- The items but for one. -/
def others (a : α) (l : List (α × ℤ)) : List (α × ℤ) := l.filter fun s => s.1 ≠ a

theorem apart_others (h : Apart l) : Apart (others a l) := h.of_sublist List.filter_sublist

theorem order_others (h : Apart l) : order (others a l) = (order l).filter (· ≠ a) :=
  order_filter h fun b => decide (b ≠ a)

theorem others_shift {q : ℤ → Bool} {d : ℤ} : others a (shift q d l) = shift q d (others a l) := by
  unfold others shift
  rw [List.filter_map]
  congr 1
  refine List.filter_congr fun s _ => ?_
  dsimp only [Function.comp_apply]
  split <;> rfl

theorem others_eq_self (h : ∀ s ∈ l, s.1 ≠ a) : others a l = l :=
  List.filter_eq_self.mpr fun s hs => decide_eq_true (h s hs)

theorem not_mem_order_others : a ∉ order (others a l) := by
  intro h
  obtain ⟨p, hp⟩ := mem_order.mp h
  simpa using (List.mem_filter.mp hp).2

/-- An item leaves its position free. -/
theorem Apart.open_others (h : Apart l) (ha : (a, p) ∈ l) : Open p (others a l) := by
  refine ⟨apart_others h, fun s hs heq => ?_⟩
  obtain ⟨hmem, hne⟩ := List.mem_filter.mp hs
  have := h.eq_of_snd hmem ha heq
  simp [this] at hne

theorem perm_others (hkeys : (l.map Prod.fst).Nodup) (ha : (a, p) ∈ l) :
    l.Perm ((a, p) :: others a l) := by
  obtain ⟨l₁, l₂, rfl⟩ := List.append_of_mem ha
  rw [List.map_append, List.map_cons] at hkeys
  obtain ⟨-, h₂, hne⟩ := List.nodup_append.mp hkeys
  have hbefore : ∀ s ∈ l₁, s.1 ≠ a := fun s hs => hne _ (List.mem_map_of_mem hs) _ List.mem_cons_self
  have hafter : ∀ s ∈ l₂, s.1 ≠ a := fun s hs heq =>
    (List.nodup_cons.mp h₂).1 (List.mem_map.mpr ⟨s, hs, heq⟩)
  have hothers : others a (l₁ ++ (a, p) :: l₂) = l₁ ++ l₂ := by
    rw [others, List.filter_append, List.filter_cons_of_neg (by simp)]
    exact congrArg₂ _ (others_eq_self hbefore) (others_eq_self hafter)
  rw [hothers]
  exact List.perm_middle

/-- A new item that is put among the others keeps their order. -/
theorem order_new {m : List (α × ℤ)} (hp : l'.Perm ((a, p) :: m)) (hm : Open p m)
    (horder : order m = order l) (hnew : a ∉ l.map Prod.fst) :
    (order l').filter (· ≠ a) = order l := by
  obtain ⟨hapart, hput⟩ := hm.put a
  rw [order_perm (hapart.perm hp.symm) hp, hput, filter_insertIdx (by simp), horder]
  refine List.filter_eq_self.mpr fun b hb => decide_eq_true ?_
  rintro rfl
  obtain ⟨q, hq⟩ := mem_order.mp hb
  exact hnew (List.mem_map_of_mem hq)

end Others

/-! ## An item that moves -/

/-- The others make room for an item that goes from the position `p` to `p'`. -/
def makeRoom (p p' : ℤ) (l : List (α × ℤ)) : List (α × ℤ) :=
  if p < p' then shift (fun x => p < x ∧ x ≤ p') (-1) l else shift (fun x => p' ≤ x ∧ x < p) 1 l

theorem length_makeRoom {p' : ℤ} : (makeRoom p p' l).length = l.length := by
  unfold makeRoom shift
  split <;> simp

theorem makeRoom_self : makeRoom p p l = l := by
  rw [makeRoom, if_neg (lt_irrefl p)]
  refine (List.map_congr_left fun s _ => if_neg ?_).trans (List.map_id l)
  simp only [decide_eq_true_eq]
  omega

/-- Where the item goes, the position becomes free, and the others keep their order. -/
theorem open_makeRoom (p' : ℤ) (h : Open p l) :
    Open p' (makeRoom p p' l) ∧ order (makeRoom p p' l) = order l ∧
      below p' (makeRoom p p' l) = below (if p < p' then p' + 1 else p') l := by
  rcases lt_trichotomy p p' with hlt | rfl | hgt
  · rw [makeRoom, if_pos hlt, if_pos hlt]
    exact open_forward h hlt
  · rw [makeRoom_self, if_neg (lt_irrefl p)]
    exact ⟨h, rfl, rfl⟩
  · rw [makeRoom, if_neg hgt.not_gt, if_neg hgt.not_gt]
    exact open_backward h hgt

/-! ## Positions without gaps -/

/-- The positions are `0`, `1`, … up to the number of the items. -/
def Dense (l : List (α × ℤ)) : Prop :=
  (l.map Prod.snd).Perm ((List.range l.length).map fun n : ℕ => (n : ℤ))

instance : Decidable (Dense l) := inferInstanceAs (Decidable (List.Perm _ _))

theorem dense_nil : Dense ([] : List (α × ℤ)) := List.Perm.nil

theorem dense_iff : Dense l ↔ Apart l ∧ ∀ s ∈ l, 0 ≤ s.2 ∧ s.2 < l.length := by
  have hnodup : ((List.range l.length).map fun n : ℕ => (n : ℤ)).Nodup :=
    List.nodup_range.map Nat.cast_injective
  constructor
  · intro h
    refine ⟨h.nodup_iff.mpr hnodup, fun s hs => ?_⟩
    obtain ⟨n, hn, heq⟩ := List.mem_map.mp (h.mem_iff.mp (List.mem_map_of_mem hs))
    have := List.mem_range.mp hn
    omega
  · rintro ⟨hapart, hrange⟩
    have hsub : l.map Prod.snd ⊆ (List.range l.length).map fun n : ℕ => (n : ℤ) := by
      intro x hx
      obtain ⟨s, hs, rfl⟩ := List.mem_map.mp hx
      obtain ⟨hlow, hhigh⟩ := hrange s hs
      exact List.mem_map.mpr ⟨s.2.toNat, List.mem_range.mpr (by omega), by omega⟩
    exact (List.subperm_of_subset hapart hsub).perm_of_length_le (by simp)

namespace Dense

theorem apart (h : Dense l) : Apart l := (dense_iff.mp h).1

theorem range (h : Dense l) {s : α × ℤ} (hs : s ∈ l) : 0 ≤ s.2 ∧ s.2 < l.length :=
  (dense_iff.mp h).2 s hs

theorem perm (h : Dense l) (hp : l'.Perm l) : Dense l' := by
  unfold Dense
  rw [hp.length_eq]
  exact (hp.map Prod.snd).trans h

/-- The number of items below a position is the position. -/
theorem below_eq (h : Dense l) (p : ℤ) : below p l = min p.toNat l.length := by
  have hcount : ∀ n : ℕ, ((List.range n).map fun n : ℕ => (n : ℤ)).countP (· < p) =
      min p.toNat n := by
    intro n
    induction n with
    | zero => simp
    | succ n ih =>
        rw [List.range_succ, List.map_append, List.countP_append, ih]
        by_cases hlt : (n : ℤ) < p
        · simp [hlt]
          omega
        · simp [hlt]
          omega
  rw [← hcount, ← h.countP_eq, List.countP_map]
  rfl

theorem top_eq (h : Dense l) : top l = l.length := by
  have hbelow := h.below_eq (top l)
  rw [below_top] at hbelow
  cases l with
  | nil => rfl
  | cons s l =>
      obtain ⟨t, ht, htop⟩ : ∃ t ∈ s :: l, t.2 + 1 = top (s :: l) := by
        cases hmax : ((s :: l).map Prod.snd).max? with
        | none => simp at hmax
        | some m =>
            obtain ⟨t, ht, rfl⟩ := List.mem_map.mp (List.max?_mem hmax)
            exact ⟨t, ht, by rw [top, hmax]; rfl⟩
      have hpos := List.length_pos_of_mem ht
      have := (h.range ht).2
      omega

/-- An item after all others. -/
theorem append (h : Dense l) : Dense ((a, top l) :: l) := by
  refine dense_iff.mpr ⟨apart_cons.mpr ⟨fun s hs => (lt_top hs).ne, h.apart⟩, fun s hs => ?_⟩
  rw [List.length_cons]
  rcases List.mem_cons.mp hs with rfl | hs
  · have := h.top_eq
    constructor <;> dsimp only <;> omega
  · have := h.range hs
    omega

/-- An item where the others have made room. -/
theorem insert (h : Dense l) (hlow : 0 ≤ p) (hhigh : p ≤ l.length) :
    Dense ((a, p) :: shift (p ≤ ·) 1 l) := by
  obtain ⟨hopen, -, -⟩ := open_above h.apart p
  refine dense_iff.mpr ⟨apart_cons.mpr ⟨hopen.free, hopen.apart⟩, fun s hs => ?_⟩
  rw [List.length_cons, shift, List.length_map]
  rcases List.mem_cons.mp hs with rfl | hs
  · constructor <;> dsimp only <;> omega
  · obtain ⟨t, ht, hst⟩ := exists_of_mem_shift hs
    have := h.range ht
    rw [hst]
    simp only [decide_eq_true_eq]
    split <;> omega

section Moves

variable [DecidableEq α] {c : ℤ}

/-- **An item that moves** goes to the index of its new position, or to the end. -/
theorem order_move (h : Dense l) (hkeys : (l.map Prod.fst).Nodup) (ha : (a, c) ∈ l) (hp : 0 ≤ p) :
    order ((a, p) :: makeRoom c p (others a l)) =
      (order (others a l)).insertIdx (min p.toNat (l.length - 1)) a := by
  have hperm := perm_others hkeys ha
  obtain ⟨hopen, horder, hbelow⟩ := open_makeRoom p (h.apart.open_others ha)
  have hcount : ∀ x, below x l = below x (others a l) + if c < x then 1 else 0 := by
    intro x
    unfold below
    rw [hperm.countP_eq, List.countP_cons]
    simp only [decide_eq_true_eq]
  have hlow := (h.range ha).1
  have hhigh := (h.range ha).2
  dsimp only at hlow hhigh
  rw [(hopen.put a).2, horder, hbelow]
  congr 1
  by_cases hlt : c < p
  · have := hcount (p + 1)
    rw [h.below_eq, if_pos (by omega)] at this
    rw [if_pos hlt]
    omega
  · have := hcount p
    rw [h.below_eq, if_neg hlt] at this
    rw [if_neg hlt]
    omega

theorem move (h : Dense l) (hkeys : (l.map Prod.fst).Nodup) (ha : (a, c) ∈ l) (hlow : 0 ≤ p)
    (hhigh : p < l.length) : Dense ((a, p) :: makeRoom c p (others a l)) := by
  obtain ⟨hopen, -, -⟩ := open_makeRoom p (h.apart.open_others ha)
  have hlen := (perm_others hkeys ha).length_eq
  rw [List.length_cons] at hlen
  refine dense_iff.mpr ⟨apart_cons.mpr ⟨hopen.free, hopen.apart⟩, fun s hs => ?_⟩
  rw [List.length_cons, length_makeRoom, ← hlen]
  rcases List.mem_cons.mp hs with rfl | hs
  · exact ⟨hlow, hhigh⟩
  · have hc := h.range ha
    dsimp only at hc
    unfold makeRoom at hs
    split at hs
    all_goals
      obtain ⟨t, ht, hst⟩ := exists_of_mem_shift hs
      have := h.range (List.mem_filter.mp ht).1
      rw [hst]
      simp only [decide_eq_true_eq]
      split <;> omega

end Moves

end Dense

/-- Items that are numbered in the order of a list. -/
theorem dense_numbered {ids : List α} (hl : l.Perm (ids.zipIdx.map fun s => (s.1, (s.2 : ℤ)))) :
    Dense l ∧ order l = ids := by
  have hsnd : (ids.zipIdx.map fun s => (s.1, (s.2 : ℤ))).map Prod.snd =
      (List.range ids.length).map fun n : ℕ => (n : ℤ) := by
    rw [List.range_eq_range', ← List.zipIdx_map_snd, List.map_map, List.map_map]
    rfl
  have hfst : (ids.zipIdx.map fun s => (s.1, (s.2 : ℤ))).map Prod.fst = ids := by
    rw [List.map_map]
    exact List.zipIdx_map_fst 0 ids
  have hsorted : (ids.zipIdx.map fun s => (s.1, (s.2 : ℤ))).Pairwise fun s t => s.2 < t.2 := by
    have hrange : ((List.range ids.length).map fun n : ℕ => (n : ℤ)).Pairwise (· < ·) :=
      List.pairwise_map.mpr (List.pairwise_lt_range.imp Int.ofNat_lt.mpr)
    rw [← hsnd] at hrange
    exact List.pairwise_map.mp hrange
  refine ⟨?_, by rw [order_eq hl.symm hsorted, hfst]⟩
  unfold Dense
  rw [hl.length_eq, List.length_map, List.length_zipIdx, ← hsnd]
  exact hl.map Prod.snd

/-- Items that are numbered in their order. -/
theorem dense_renumber {m : List (α × ℤ)} (hp : m.Perm l) (hm : m.Pairwise fun s t => s.2 < t.2)
    (hl : l'.Perm (m.zipIdx.map fun s => (s.1.1, (s.2 : ℤ)))) : Dense l' ∧ order l' = order l := by
  have hnumbered : (m.zipIdx.map fun s => (s.1.1, (s.2 : ℤ))) =
      (m.map Prod.fst).zipIdx.map fun s => (s.1, (s.2 : ℤ)) := by
    rw [List.zipIdx_map, List.map_map]
    rfl
  rw [order_eq hp hm]
  exact dense_numbered (hnumbered ▸ hl)

end Shelf
