import Mathlib.Data.List.DropRight

/-!
# Texts

The operations on strings by which a program takes its input apart, on lists of characters.

## Main definitions

* `trim` — without the blanks on both sides.
* `stripPrefix` — what follows a prefix.
* `firstWord` — the first word.
-/

namespace Text

variable {α : Type*} {p : α → Bool} {s l r : List α} {a : α}

/-- What holds of every character of a text is decided along the text, not over all
characters. -/
instance (priority := 1100) decidableForallChar (q : Char → Prop) [DecidablePred q]
    (s : List Char) : Decidable (∀ c ∈ s, q c) :=
  List.decidableBAll q s

instance (priority := 1100) decidableExistsChar (q : Char → Prop) [DecidablePred q]
    (s : List Char) : Decidable (∃ c ∈ s, q c) :=
  List.decidableBEx q s

instance (priority := 1100) decidableForallHead (q : Char → Prop) [DecidablePred q]
    (o : Option Char) : Decidable (∀ c ∈ o, q c) :=
  o.decidableForallMem

theorem toLower_of_not_ascii {c : Char} (h : ¬ c.toNat < 128) : c.toLower = c :=
  dif_neg fun ⟨_, hle⟩ => h (Nat.lt_of_le_of_lt (show c.toNat ≤ 90 from hle) (by decide))

/-- `str::trim`, where `p` are the blanks. -/
def trim (p : α → Bool) (s : List α) : List α := (s.dropWhile p).rdropWhile p

/-- `str::strip_prefix`. -/
def stripPrefix [DecidableEq α] (pre s : List α) : Option (List α) :=
  if pre <+: s then some (s.drop pre.length) else none

/-- `split_whitespace().next()`, the empty text if there is no word. -/
def firstWord (p : α → Bool) (s : List α) : List α := (s.dropWhile p).takeWhile fun a => !p a

theorem stripPrefix_eq_some [DecidableEq α] {pre : List α} :
    stripPrefix pre s = some r ↔ s = pre ++ r := by
  unfold stripPrefix
  constructor
  · intro h
    obtain ⟨⟨r', rfl⟩, h⟩ := Option.ite_none_right_eq_some.mp h
    rw [List.drop_left] at h
    rw [Option.some.inj h]
  · rintro rfl
    rw [if_pos (List.prefix_append _ _), List.drop_left]

/-! ## The end of a text -/

theorem rdropWhile_append_of_all (hr : ∀ a ∈ r, p a = true) :
    (s ++ r).rdropWhile p = s.rdropWhile p := by
  induction r using List.reverseRecOn with
  | nil => rw [List.append_nil]
  | append_singleton r a ih =>
      rw [← List.append_assoc, List.rdropWhile_concat_pos _ _ _ (hr a (by simp))]
      exact ih fun a ha => hr a (List.mem_append_left _ ha)

/-- What stands before the end is kept if it holds no blank. -/
theorem rdropWhile_append_of_none (hs : ∀ a ∈ s, p a = false) :
    (s ++ r).rdropWhile p = s ++ r.rdropWhile p := by
  induction r using List.reverseRecOn with
  | nil =>
      rw [List.append_nil, List.rdropWhile_nil, List.append_nil, List.rdropWhile_eq_self_iff]
      intro hne
      rw [hs _ (List.getLast_mem hne)]
      exact Bool.false_ne_true
  | append_singleton r a ih =>
      rw [← List.append_assoc]
      by_cases ha : p a = true
      · rw [List.rdropWhile_concat_pos _ _ _ ha, List.rdropWhile_concat_pos _ _ _ ha, ih]
      · rw [List.rdropWhile_concat_neg _ _ _ ha, List.rdropWhile_concat_neg _ _ _ ha,
          List.append_assoc]

/-! ## Trimming -/

/-- Blanks around a text are lost. -/
theorem trim_padded (hl : ∀ a ∈ l, p a = true) (hr : ∀ a ∈ r, p a = true) :
    trim p (l ++ s ++ r) = trim p s := by
  rw [trim, List.append_assoc, List.dropWhile_append_of_pos hl]
  by_cases hs : ∀ a ∈ s, p a = true
  · have hall : ∀ a ∈ s ++ r, p a = true := fun a ha => (List.mem_append.mp ha).elim (hs a) (hr a)
    rw [List.dropWhile_eq_nil_iff.mpr hall, trim, List.dropWhile_eq_nil_iff.mpr hs]
  · have hne : (s.dropWhile p).isEmpty = false := by
      rw [List.isEmpty_eq_false_iff]
      exact fun h => hs (List.dropWhile_eq_nil_iff.mp h)
    rw [List.dropWhile_append, hne, if_neg Bool.false_ne_true, rdropWhile_append_of_all hr, trim]

/-- A text is its trimmed form with blanks around. -/
theorem exists_padding (p : α → Bool) (s : List α) :
    ∃ l r, s = l ++ trim p s ++ r ∧ (∀ a ∈ l, p a = true) ∧ ∀ a ∈ r, p a = true := by
  refine ⟨s.takeWhile p, (s.dropWhile p).rtakeWhile p, ?_, fun a ha => List.mem_takeWhile_imp ha,
    fun a ha => List.mem_rtakeWhile_imp ha⟩
  rw [trim, List.append_assoc, List.rdropWhile_append_rtakeWhile, List.takeWhile_append_dropWhile]

/-- The ends of a trimmed text are no blanks. -/
theorem not_head_trim (h : (trim p s).head? = some a) : p a = false := by
  have hprefix : trim p s <+: s.dropWhile p := List.rdropWhile_prefix _ _
  obtain ⟨r, hr⟩ := hprefix
  have hhead : (s.dropWhile p).head? = some a := by
    rw [← hr]
    cases hs : trim p s with
    | nil =>
        rw [hs] at h
        cases h
    | cons b t =>
        rw [hs] at h
        exact h
  have := List.head?_dropWhile_not p s
  rw [hhead] at this
  simpa using this

theorem not_getLast_trim (h : (trim p s).getLast? = some a) : p a = false := by
  have hne : (s.dropWhile p).rdropWhile p ≠ [] := by
    rw [trim] at h
    rintro heq
    rw [heq] at h
    cases h
  have hlast := List.rdropWhile_last_not p (s.dropWhile p) hne
  rw [trim, List.getLast?_eq_some_getLast hne, Option.some.injEq] at h
  rw [h] at hlast
  simpa using hlast

/-- A text without blanks at its ends is trimmed. -/
theorem trim_eq_self (hhead : ∀ a ∈ s.head?, p a = false) (hlast : ∀ a ∈ s.getLast?, p a = false) :
    trim p s = s := by
  have hdrop : s.dropWhile p = s := by
    cases s with
    | nil => rfl
    | cons a s => rw [List.dropWhile_cons_of_neg (by simp [hhead a rfl])]
  rw [trim, hdrop, List.rdropWhile_eq_self_iff]
  intro hne
  simp [hlast _ (List.getLast?_eq_some_getLast hne)]

theorem dropWhile_append_of_none (hs : ∀ a ∈ s, p a = false) (hne : s ≠ []) :
    (s ++ r).dropWhile p = s ++ r := by
  cases s with
  | nil => exact absurd rfl hne
  | cons a s => rw [List.cons_append, List.dropWhile_cons_of_neg (by simp [hs a List.mem_cons_self])]

/-- A text that starts without blanks is only cut at its end. -/
theorem trim_append_of_none (hs : ∀ a ∈ s, p a = false) (hne : s ≠ []) :
    trim p (s ++ r) = s ++ r.rdropWhile p := by
  rw [trim, dropWhile_append_of_none hs hne, rdropWhile_append_of_none hs]

end Text
