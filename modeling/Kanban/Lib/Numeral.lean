import Mathlib.Data.Nat.Digits.Lemmas
import Mathlib.Tactic.Ring

/-!
# Numerals of a fixed length

A number is written with the digits of a base, the highest first, and padded with zeros.  Each digit
has a symbol; a reader may take other symbols for the same digit, as an upper and a lower case.

## Main definitions

* `Alphabet` — the symbols of a base.
* `Alphabet.write`, `Alphabet.read` — the numeral of a number, and the number of a numeral.
-/

namespace Numeral

/-- The symbols of the digits below `base`. -/
structure Alphabet (base : ℕ) where
  symbol : ℕ → Char
  digit : Char → Option ℕ
  digit_lt : ∀ c d, digit c = some d → d < base
  digit_symbol : ∀ d < base, digit (symbol d) = some d

namespace Alphabet

variable {base : ℕ} (A : Alphabet base)

/-- The numeral of `v` with `n` digits. -/
def write (n v : ℕ) : List Char := (Nat.digitsAppend base n v).reverse.map A.symbol

/-- The number of a numeral. -/
def read (s : List Char) : Option ℕ :=
  (s.mapM A.digit).map fun ds => Nat.ofDigits base ds.reverse

/-- The character is the symbol of a digit. -/
def Proper (c : Char) : Prop := ∃ d < base, A.symbol d = c

variable {A} {n v : ℕ} {s : List Char} {ds : List ℕ}

theorem length_write (hbase : 1 < base) (hv : v < base ^ n) : (A.write n v).length = n := by
  rw [write, List.length_map, List.length_reverse, Nat.length_digitsAppend hbase n hv]

theorem proper_of_mem_write (hbase : 1 < base) : ∀ c ∈ A.write n v, A.Proper c := by
  intro c hc
  obtain ⟨d, hd, rfl⟩ := List.mem_map.mp hc
  exact ⟨d, Nat.lt_of_mem_digitsAppend hbase n d (List.mem_reverse.mp hd), rfl⟩

theorem mapM_digit_symbol (h : ∀ d ∈ ds, d < base) : (ds.map A.symbol).mapM A.digit = some ds := by
  induction ds with
  | nil => rfl
  | cons d ds ih =>
      obtain ⟨hd, hds⟩ := List.forall_mem_cons.mp h
      rw [List.map_cons, List.mapM_cons, A.digit_symbol d hd, ih hds]
      rfl

/-- What is read has as many digits as symbols, and each is below the base. -/
theorem digits_of_mapM (h : s.mapM A.digit = some ds) :
    ds.length = s.length ∧ ∀ d ∈ ds, d < base := by
  induction s generalizing ds with
  | nil =>
      cases h
      exact ⟨rfl, List.forall_mem_nil _⟩
  | cons c s ih =>
      rw [List.mapM_cons] at h
      obtain ⟨d, hd, h⟩ := Option.bind_eq_some_iff.mp h
      obtain ⟨ds', hds, h⟩ := Option.bind_eq_some_iff.mp h
      cases h
      obtain ⟨hlength, hall⟩ := ih hds
      exact ⟨congrArg Nat.succ hlength, List.forall_mem_cons.mpr ⟨A.digit_lt c d hd, hall⟩⟩

/-- Proper symbols are the symbols of the digits that are read. -/
theorem map_symbol_of_mapM (hs : ∀ c ∈ s, A.Proper c) (h : s.mapM A.digit = some ds) :
    ds.map A.symbol = s := by
  induction s generalizing ds with
  | nil =>
      cases h
      rfl
  | cons c s ih =>
      rw [List.mapM_cons] at h
      obtain ⟨d, hd, h⟩ := Option.bind_eq_some_iff.mp h
      obtain ⟨ds', hds, h⟩ := Option.bind_eq_some_iff.mp h
      cases h
      obtain ⟨⟨d', hd', rfl⟩, hrest⟩ := List.forall_mem_cons.mp hs
      obtain rfl := Option.some.inj ((A.digit_symbol d' hd').symm.trans hd)
      rw [List.map_cons, ih hrest hds]

/-- **A numeral is read as the number that it was written for.** -/
theorem read_write (hbase : 1 < base) (hv : v < base ^ n) : A.read (A.write n v) = some v := by
  have hdigits : ∀ d ∈ (Nat.digitsAppend base n v).reverse, d < base := fun d hd =>
    Nat.lt_of_mem_digitsAppend hbase n d (List.mem_reverse.mp hd)
  rw [read, write, mapM_digit_symbol hdigits, Option.map_some, List.reverse_reverse,
    (Nat.setInvOn_digitsAppend_ofDigits hbase n).2 hv]

/-- The number of a numeral. -/
theorem read_lt (hbase : 1 < base) (h : A.read s = some v) : v < base ^ s.length := by
  obtain ⟨ds, hds, rfl⟩ := Option.map_eq_some_iff.mp h
  obtain ⟨hlength, hall⟩ := digits_of_mapM hds
  rw [← hlength, ← List.length_reverse]
  exact Nat.ofDigits_lt_base_pow_length hbase fun d hd => hall d (List.mem_reverse.mp hd)

/-- A numeral of proper symbols is written again as it was. -/
theorem write_read (hbase : 1 < base) (hs : ∀ c ∈ s, A.Proper c) (h : A.read s = some v) :
    A.write s.length v = s := by
  obtain ⟨ds, hds, rfl⟩ := Option.map_eq_some_iff.mp h
  obtain ⟨hlength, hall⟩ := digits_of_mapM hds
  have hinv := (Nat.setInvOn_digitsAppend_ofDigits hbase s.length).1
    (show ds.reverse ∈ _ from ⟨(List.length_reverse).trans hlength, fun d hd =>
      hall d (List.mem_reverse.mp hd)⟩)
  rw [write, hinv, List.reverse_reverse, map_symbol_of_mapM hs hds]

/-- The highest digit and the rest. -/
theorem read_cons {c : Char} (h : A.read (c :: s) = some v) :
    ∃ d w, A.digit c = some d ∧ A.read s = some w ∧ v = d * base ^ s.length + w := by
  obtain ⟨ds, hds, rfl⟩ := Option.map_eq_some_iff.mp h
  rw [List.mapM_cons] at hds
  obtain ⟨d, hd, hds⟩ := Option.bind_eq_some_iff.mp hds
  obtain ⟨ds', hds', hds⟩ := Option.bind_eq_some_iff.mp hds
  cases hds
  refine ⟨d, Nat.ofDigits base ds'.reverse, hd, ?_, ?_⟩
  · rw [read, hds', Option.map_some]
  · rw [List.reverse_cons, Nat.ofDigits_append, Nat.ofDigits_singleton, List.length_reverse,
      (digits_of_mapM hds').1]
    ring

/-- A text of proper symbols is a numeral. -/
theorem read_isSome (hs : ∀ c ∈ s, A.Proper c) : ∃ v, A.read s = some v := by
  induction s with
  | nil => exact ⟨_, rfl⟩
  | cons c s ih =>
      obtain ⟨⟨d, hd, rfl⟩, hrest⟩ := List.forall_mem_cons.mp hs
      obtain ⟨w, hw⟩ := ih hrest
      obtain ⟨ds, hds, -⟩ := Option.map_eq_some_iff.mp hw
      refine ⟨Nat.ofDigits base (d :: ds).reverse, ?_⟩
      rw [read, List.mapM_cons, A.digit_symbol d hd, hds]
      rfl

/-- Every character of a numeral is a digit. -/
theorem exists_digit_of_read (h : A.read s = some v) : ∀ c ∈ s, ∃ d, A.digit c = some d := by
  obtain ⟨ds, hds, -⟩ := Option.map_eq_some_iff.mp h
  clear h
  induction s generalizing ds with
  | nil => exact List.forall_mem_nil _
  | cons c s ih =>
      rw [List.mapM_cons] at hds
      obtain ⟨d, hd, hds⟩ := Option.bind_eq_some_iff.mp hds
      obtain ⟨ds', hds', -⟩ := Option.bind_eq_some_iff.mp hds
      exact List.forall_mem_cons.mpr ⟨⟨d, hd⟩, ih ds' hds'⟩

end Alphabet

end Numeral
