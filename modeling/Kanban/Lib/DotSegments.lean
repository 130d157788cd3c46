import Mathlib.Data.List.Basic

/-!
# Dot segments

Who resolves a path takes the dot segments out of it: a segment that stands for the directory is
dropped, and one that stands for its parent goes together with the segment before.  A dot segment at the
end leaves the name of a directory, which ends in the empty segment.

## Main definitions

* `removeDots` — the path without dot segments.
* `removeDots_concat` — what becomes of the last segment of a path.
-/

namespace DotSegments

variable {σ : Type*} {self parent : σ → Bool} {empty s : σ} {pre rest out : List σ}

/-- The rest of a path, after the segments in `out`, of which the last comes first. -/
def removeDotsAfter (self parent : σ → Bool) (empty : σ) (out : List σ) : List σ → List σ
  | [] => out.reverse
  | [s] =>
      if self s then (empty :: out).reverse
      else if parent s then (empty :: out.tail).reverse
      else (s :: out).reverse
  | s :: rest =>
      if self s then removeDotsAfter self parent empty out rest
      else if parent s then removeDotsAfter self parent empty out.tail rest
      else removeDotsAfter self parent empty (s :: out) rest

/-- `remove_dot_segments` of a path, by its segments. -/
def removeDots (self parent : σ → Bool) (empty : σ) (segments : List σ) : List σ :=
  removeDotsAfter self parent empty [] segments

/-- A segment that is kept. -/
def Ordinary (self parent : σ → Bool) (s : σ) : Prop := self s = false ∧ parent s = false

theorem removeDotsAfter_append (hpre : ∀ s ∈ pre, Ordinary self parent s) (hrest : rest ≠ []) :
    removeDotsAfter self parent empty out (pre ++ rest) =
      removeDotsAfter self parent empty (pre.reverse ++ out) rest := by
  induction pre generalizing out with
  | nil => rfl
  | cons s pre ih =>
      obtain ⟨hself, hparent⟩ := hpre s List.mem_cons_self
      have hne : pre ++ rest ≠ [] := fun h => hrest (List.append_eq_nil_iff.mp h).2
      have hstep : removeDotsAfter self parent empty out (s :: (pre ++ rest)) =
          removeDotsAfter self parent empty (s :: out) (pre ++ rest) := by
        obtain ⟨a, l, hl⟩ := List.exists_cons_of_ne_nil hne
        rw [hl]
        simp only [removeDotsAfter, hself, hparent, Bool.false_eq_true, if_false]
      rw [List.cons_append, hstep, ih fun a ha => hpre a (List.mem_cons_of_mem _ ha),
        List.reverse_cons, List.append_assoc, List.singleton_append]

/-- **The last segment** of a path decides what becomes of the path, if no other is a dot segment. -/
theorem removeDots_concat (hpre : ∀ s ∈ pre, Ordinary self parent s) :
    removeDots self parent empty (pre ++ [s]) =
      if self s then pre ++ [empty]
      else if parent s then pre.dropLast ++ [empty]
      else pre ++ [s] := by
  rw [removeDots, removeDotsAfter_append hpre (List.cons_ne_nil _ _), List.append_nil,
    removeDotsAfter]
  simp only [List.reverse_cons, List.tail_reverse, List.reverse_reverse]

end DotSegments
