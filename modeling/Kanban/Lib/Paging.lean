import Mathlib.Data.List.Basic
import Mathlib.Data.List.Dedup
import Mathlib.Data.List.Induction
import Mathlib.Data.List.Nodup
import Mathlib.Data.List.Sort

/-!
# Listings in pages

A listing is read in pages: each page holds at most so many items, and the text of its last item is
the cursor of the next one.  The next page shows what comes after the cursor by a test of its own;
the pages make up the whole listing exactly if, at the end of each page, that test splits the items
into those that were shown and those that were not.

## Main definitions

* `Serves` — what the answer to a cursor shows.
* `Listing` — pages that follow one another from the empty cursor.
* `SplitsAt`, `Splits` — the test agrees with the order where a page ends, and where every page ends.
* `ShownUpTo` — the pages show the first items.
* `Arranged` — an order of the items that the sort allows.
-/

namespace Paging

section Sorted

variable {α : Type*} {r : α → α → Prop} [DecidableRel r] {q : α → Bool} {l : List α} {a : α}

theorem filter_orderedInsert_of_neg (ha : q a = false) :
    (l.orderedInsert r a).filter q = l.filter q := by
  induction l with
  | nil => simp [ha]
  | cons b l ih =>
      rw [List.orderedInsert_cons]
      split
      · rw [List.filter_cons_of_neg (by simp [ha])]
      · rw [List.filter_cons, List.filter_cons, ih]

theorem filter_orderedInsert_of_pos (htrans : ∀ x y z, r x y → r y z → r x z)
    (hl : l.Pairwise r) (ha : q a = true) :
    (l.orderedInsert r a).filter q = (l.filter q).orderedInsert r a := by
  induction l with
  | nil => simp [ha]
  | cons b l ih =>
      obtain ⟨hb, hl⟩ := List.pairwise_cons.mp hl
      rw [List.orderedInsert_cons]
      by_cases hab : r a b
      · -- what comes after `b` is not before `a` either
        have hhead : ∀ {m : List α}, (∀ x ∈ m, r a x) → m.orderedInsert r a = a :: m := by
          intro m hm
          cases m with
          | nil => rfl
          | cons x m => rw [List.orderedInsert_cons, if_pos (hm x List.mem_cons_self)]
        rw [if_pos hab, List.filter_cons_of_pos ha, hhead fun x hx => ?_]
        rcases List.mem_cons.mp (List.mem_filter.mp hx).1 with rfl | hx
        · exact hab
        · exact htrans _ _ _ hab (hb x hx)
      · rw [if_neg hab]
        by_cases hqb : q b = true
        · rw [List.filter_cons_of_pos hqb, List.filter_cons_of_pos hqb, ih hl,
            List.orderedInsert_cons, if_neg hab]
        · rw [List.filter_cons_of_neg hqb, List.filter_cons_of_neg hqb, ih hl]

/-- A sort leaves the items that were kept in the order in which they stood among all. -/
theorem filter_insertionSort (htrans : ∀ x y z, r x y → r y z → r x z) (htotal : ∀ x y, r x y ∨ r y x) :
    (l.insertionSort r).filter q = (l.filter q).insertionSort r := by
  have : IsTrans α r := ⟨htrans⟩
  have : Std.Total r := ⟨htotal⟩
  induction l with
  | nil => rfl
  | cons a l ih =>
      rw [List.insertionSort_cons]
      by_cases ha : q a = true
      · rw [filter_orderedInsert_of_pos htrans (List.pairwise_insertionSort r l) ha, ih,
          List.filter_cons_of_pos ha, List.insertionSort_cons]
      · rw [filter_orderedInsert_of_neg (by simpa using ha), ih, List.filter_cons_of_neg ha]

end Sorted

variable {τ R : Type*} {text : τ → String} {later : τ → τ → Bool} {limit : ℕ} {L rest : List τ}
  {answers : String → R → Prop} {items : R → List String} {next : R → String}

/-- The items that are not shown yet when the next page is asked for with this cursor. -/
inductive Remaining (text : τ → String) (later : τ → τ → Bool) (L : List τ) : String → List τ → Prop
  | first : Remaining text later L "" L
  | after {x : τ} : x ∈ L → Remaining text later L (text x) (L.filter (later x))

/-- An answer shows the first items that remain, and names its last one if there are more. -/
def Serves (text : τ → String) (limit : ℕ) (items : R → List String) (next : R → String)
    (rest : List τ) (r : R) : Prop :=
  items r = (rest.take limit).map text ∧
    next r = if limit < rest.length then ((rest.take limit).getLast?.map text).getD "" else ""

/-- A cursor that is not empty is the text of an item that remained. -/
theorem Serves.exists_of_next_ne {r : R} (h : Serves text limit items next rest r) (hnext : next r ≠ "") :
    ∃ x ∈ rest, next r = text x := by
  have heq := h.2
  split at heq
  · rcases (rest.take limit).eq_nil_or_concat' with hnil | ⟨pre, x, hcat⟩
    · rw [hnil] at heq
      exact absurd heq hnext
    · rw [hcat, List.getLast?_append, List.getLast?_singleton, Option.some_or] at heq
      have hx : x ∈ rest.take limit := hcat ▸ List.mem_append_right _ List.mem_cons_self
      exact ⟨x, List.mem_of_mem_take hx, heq⟩
  · exact absurd heq hnext

/-- The same items remain in another order of the list. -/
theorem Remaining.perm {c : String} {L' : List τ} (h : Remaining text later L c rest) (hL : L'.Perm L) :
    ∃ rest', Remaining text later L' c rest' ∧ rest'.Perm rest := by
  cases h with
  | first => exact ⟨L', .first, hL⟩
  | after hx => exact ⟨_, .after (hL.mem_iff.mpr hx), hL.filter _⟩

/-- Pages that follow one another from the empty cursor. -/
inductive Listing (answers : String → R → Prop) (next : R → String) : List R → Prop
  | first {r : R} : answers "" r → Listing answers next [r]
  | more {rs : List R} {r r' : R} : Listing answers next (rs ++ [r]) → next r ≠ "" →
      answers (next r) r' → Listing answers next (rs ++ [r] ++ [r'])

theorem Listing.mono {answers' : String → R → Prop} (hanswers : ∀ c r, answers c r → answers' c r)
    {rs : List R} (h : Listing answers next rs) : Listing answers' next rs := by
  induction h with
  | first hr => exact .first (hanswers _ _ hr)
  | more _ hmore hr ih => exact .more ih hmore (hanswers _ _ hr)

/-- A listing starts with the page of the empty cursor. -/
theorem Listing.exists_first {rs : List R} (h : Listing answers next rs) : ∃ r, answers "" r := by
  induction h with
  | first hr => exact ⟨_, hr⟩
  | more _ _ _ ih => exact ih

/-- A listing that is broken off. -/
theorem Listing.of_append {rs rs' : List R} (h : Listing answers next (rs ++ rs')) (hne : rs ≠ []) :
    Listing answers next rs := by
  induction rs' using List.reverseRecOn with
  | nil => rwa [List.append_nil] at h
  | append_singleton rs' r ih =>
      rw [← List.append_assoc] at h
      generalize hall : rs ++ rs' ++ [r] = all at h
      cases h with
      | first =>
          have := congrArg List.length hall
          have := List.length_pos_iff.mpr hne
          simp only [List.length_append, List.length_singleton] at *
          omega
      | more h₀ _ _ => exact ih ((List.append_inj' hall rfl).1 ▸ h₀)

/-- A page answers the cursor of the page before it. -/
theorem Listing.answers_next {rs : List R} {r r' : R} (h : Listing answers next (rs ++ [r] ++ [r'])) :
    answers (next r) r' := by
  generalize hall : rs ++ [r] ++ [r'] = all at h
  cases h with
  | first =>
      have := congrArg List.length hall
      simp only [List.length_append, List.length_singleton] at this
      omega
  | more _ _ hr =>
      obtain ⟨hcat, hlast⟩ := List.append_inj' hall rfl
      obtain rfl := List.head_eq_of_cons_eq hlast
      obtain rfl := List.head_eq_of_cons_eq (List.append_inj' hcat rfl).2
      exact hr

/-- Where a page ends after `pre` and `x`, the test tells what was shown from what was not. -/
def SplitsAt (later : τ → τ → Bool) (pre : List τ) (x : τ) (post : List τ) : Prop :=
  (∀ y ∈ pre ++ [x], later x y = false) ∧ ∀ y ∈ post, later x y = true

/-- The test agrees with the order of the list where a page ends that is not the last. -/
def Splits (later : τ → τ → Bool) (limit : ℕ) (L : List τ) : Prop :=
  ∀ pre x post, L = pre ++ x :: post → post ≠ [] → limit ∣ pre.length + 1 → SplitsAt later pre x post

/-- So it does where a page ends before the item number `n`. -/
def SplitsBelow (later : τ → τ → Bool) (limit : ℕ) (L : List τ) (n : ℕ) : Prop :=
  ∀ pre x post, L = pre ++ x :: post → post ≠ [] → limit ∣ pre.length + 1 → pre.length + 1 < n →
    SplitsAt later pre x post

theorem SplitsBelow.mono {n m : ℕ} (h : SplitsBelow later limit L n) (hm : m ≤ n) :
    SplitsBelow later limit L m := fun pre x post hL hpost hdvd hlt =>
  h pre x post hL hpost hdvd (Nat.lt_of_lt_of_le hlt hm)

theorem Splits.below (h : Splits later limit L) (n : ℕ) : SplitsBelow later limit L n :=
  fun pre x post hL hpost hdvd _ => h pre x post hL hpost hdvd

theorem SplitsAt.filter {pre post : List τ} {x : τ} (h : SplitsAt later pre x post) :
    (pre ++ x :: post).filter (later x) = post := by
  rw [List.append_cons, List.filter_append, List.filter_eq_nil_iff.mpr fun y hy => by
    simp [h.1 y hy], List.filter_eq_self.mpr h.2, List.nil_append]

/-- In a list that is sorted by the test, it splits everywhere. -/
theorem splitsAt_of_sorted (hirrefl : ∀ x, later x x = false)
    (hasymm : ∀ x y, later x y = true → later y x = false)
    (hL : L.Pairwise fun x y => later x y = true) (pre : List τ) (x : τ) (post : List τ)
    (hcut : L = pre ++ x :: post) : SplitsAt later pre x post := by
  obtain ⟨-, hpost, hpre⟩ := List.pairwise_append.mp (hcut ▸ hL)
  refine ⟨fun y hy => ?_, (List.pairwise_cons.mp hpost).1⟩
  rcases List.mem_append.mp hy with hy | hy
  · exact hasymm _ _ (hpre y hy x List.mem_cons_self)
  · rw [List.mem_singleton.mp hy]
    exact hirrefl x

theorem splits_of_sorted (hirrefl : ∀ x, later x x = false)
    (hasymm : ∀ x y, later x y = true → later y x = false)
    (hL : L.Pairwise fun x y => later x y = true) : Splits later limit L :=
  fun pre x post hcut _ _ => splitsAt_of_sorted hirrefl hasymm hL pre x post hcut

/-- The last item of a list that is cut in two. -/
theorem exists_take_eq (hlimit : 0 < limit) (h : limit ≤ L.length) :
    ∃ pre x, L.take limit = pre ++ [x] ∧ L = pre ++ x :: L.drop limit ∧ pre.length + 1 = limit := by
  rcases (L.take limit).eq_nil_or_concat' with hnil | ⟨pre, x, hcat⟩
  · have := congrArg List.length hnil
    rw [List.length_take, List.length_nil] at this
    omega
  · refine ⟨pre, x, hcat, ?_, ?_⟩
    · rw [List.append_cons, ← hcat, List.take_append_drop]
    · have := congrArg List.length hcat
      rw [List.length_take, List.length_append, List.length_singleton] at this
      omega

theorem Remaining.sub {c : String} {x : τ} (h : Remaining text later L c rest) (hx : x ∈ rest) :
    x ∈ L := by
  cases h with
  | first => exact hx
  | after _ => exact (List.mem_filter.mp hx).1

/-- The pages so far show the first `n` items, and the last of them names a cursor if there are more. -/
def ShownUpTo (text : τ → String) (items : R → List String) (next : R → String) (L : List τ) (n : ℕ)
    (rs : List R) : Prop :=
  rs.flatMap items = (L.take n).map text ∧
    ∀ r ∈ rs.getLast?, next r = if n < L.length then ((L.take n).getLast?.map text).getD "" else ""

/-- A page that serves what is left shows so many items more. -/
theorem ShownUpTo.more {rs : List R} {r : R} {n : ℕ} (hlimit : 0 < limit) (hn : n < L.length)
    (h : rs.flatMap items = (L.take n).map text) (hr : Serves text limit items next (L.drop n) r) :
    ShownUpTo text items next L (n + limit) (rs ++ [r]) := by
  obtain ⟨hitems, hnext⟩ := hr
  refine ⟨?_, fun r₁ hr₁ => ?_⟩
  · rw [List.flatMap_append, h, List.flatMap_singleton, hitems, ← List.map_append, List.take_add]
  · obtain rfl : r = r₁ := by simpa using hr₁
    rw [hnext, List.length_drop, List.take_add]
    have hcount : limit < L.length - n ↔ n + limit < L.length := by omega
    by_cases hmore : n + limit < L.length
    · rw [if_pos hmore, if_pos (hcount.mpr hmore), List.getLast?_append_of_ne_nil]
      intro hnil
      have := congrArg List.length hnil
      rw [List.length_take, List.length_drop, List.length_nil] at this
      omega
    · rw [if_neg hmore, if_neg fun h => hmore (hcount.mp h)]

/-- Pages that do not end the listing name the last item that was shown. -/
theorem ShownUpTo.cut {rs : List R} {r : R} {n : ℕ} (hn : 0 < n)
    (h : ShownUpTo text items next L n (rs ++ [r])) (hmore : next r ≠ "") :
    n < L.length ∧ ∃ pre x, L.take n = pre ++ [x] ∧ L = pre ++ x :: L.drop n ∧ pre.length + 1 = n ∧
      next r = text x := by
  have hlast := h.2 r (by simp)
  have hlt : n < L.length := by
    by_contra hge
    rw [if_neg hge] at hlast
    exact hmore hlast
  obtain ⟨pre, x, htake, hL, hpre⟩ := exists_take_eq hn (Nat.le_of_lt hlt)
  rw [if_pos hlt, htake, List.getLast?_append, List.getLast?_singleton, Option.some_or,
    Option.map_some, Option.getD_some] at hlast
  exact ⟨hlt, pre, x, htake, hL, hpre, hlast⟩

theorem ShownUpTo.complete {rs : List R} {r : R} {n : ℕ} (hn : 0 < n)
    (h : ShownUpTo text items next L n (rs ++ [r])) (htext : ∀ x ∈ L, text x ≠ "")
    (hend : next r = "") : (rs ++ [r]).flatMap items = L.map text := by
  obtain ⟨hitems, hlast⟩ := h
  have hnext := hlast r (by simp)
  rw [hitems, List.take_of_length_le]
  by_contra hlt
  rw [Nat.not_le] at hlt
  rw [if_pos hlt] at hnext
  obtain ⟨pre, x, htake, hL, -⟩ := exists_take_eq hn (Nat.le_of_lt hlt)
  rw [htake, List.getLast?_append, List.getLast?_singleton, Option.some_or, Option.map_some,
    Option.getD_some, hend] at hnext
  exact htext x (hL ▸ List.mem_append_right _ List.mem_cons_self) hnext.symm

/-! ## Pages with ties

A sort leaves open in which order equal items come, and each page may have another one. -/

/-- The items in an order that the sort allows. -/
def Arranged (le : τ → τ → Prop) (S L : List τ) : Prop := L.Perm S ∧ L.Pairwise le

/-- Where the test splits one order, what was not shown may go on in another one. -/
theorem Arranged.go_on {le : τ → τ → Prop} {S pre post L' : List τ} {x : τ}
    (h : Arranged le S (pre ++ x :: post)) (hsplit : SplitsAt later pre x post)
    (h' : Arranged le S L') : Arranged le S (pre ++ [x] ++ L'.filter (later x)) := by
  have hperm : (L'.filter (later x)).Perm post := by
    rw [← hsplit.filter]
    exact (h'.1.trans h.1.symm).filter _
  rw [List.append_cons] at h
  refine ⟨(hperm.append_left _).trans h.1, ?_⟩
  obtain ⟨hpre, -, hcross⟩ := List.pairwise_append.mp h.2
  exact List.pairwise_append.mpr ⟨hpre, h'.2.sublist List.filter_sublist,
    fun y hy z hz => hcross y hy z (hperm.mem_iff.mp hz)⟩

/-- **The pages of a listing with ties**: if the test splits every order where the pages end, the pages
show the first items of one of the orders. -/
theorem Listing.take_arranged {le : τ → τ → Prop} {S : List τ} (hlimit : 0 < limit)
    (hserve : ∀ c r, answers c r → ∃ L, Arranged le S L ∧
      ∀ rest, Remaining text later L c rest → Serves text limit items next rest r)
    (hsplits : ∀ L, Arranged le S L → Splits later limit L) {rs : List R}
    (h : Listing answers next rs) :
    ∃ L, Arranged le S L ∧ ShownUpTo text items next L (rs.length * limit) rs := by
  induction h with
  | first hr =>
      obtain ⟨L, hL, hserves⟩ := hserve _ _ hr
      obtain ⟨hitems, hnext⟩ := hserves _ .first
      refine ⟨L, hL, by simpa using hitems, fun r hr => ?_⟩
      obtain rfl : _ = r := by simpa using hr
      simpa using hnext
  | @more rs r r' hrs hmore hr' ih =>
      have hpos : 0 < (rs ++ [r]).length * limit := Nat.mul_pos (by simp) hlimit
      have hlen : (rs ++ [r] ++ [r']).length = (rs ++ [r]).length + 1 := List.length_append
      obtain ⟨L, hL, hshown⟩ := ih
      obtain ⟨hlt, pre, x, htake, hcut, hpre, hnext⟩ := hshown.cut hpos hmore
      obtain ⟨L', hL', hserves⟩ := hserve _ _ hr'
      have hpost : L.drop ((rs ++ [r]).length * limit) ≠ [] := by
        rw [Ne, List.drop_eq_nil_iff]
        omega
      have hsplit := hsplits L hL pre x _ hcut hpost (hpre ▸ Nat.dvd_mul_left _ _)
      rw [hcut] at hL
      -- the items that were shown, and the others as this page has them
      have hgo := hL.go_on hsplit hL'
      have hx : x ∈ L' := (hL'.1.trans hL.1.symm).mem_iff.mpr
        (List.mem_append_right _ List.mem_cons_self)
      have hlength : (pre ++ [x]).length = (rs ++ [r]).length * limit := by
        rw [List.length_append, List.length_singleton, hpre]
      refine ⟨_, hgo, ?_⟩
      rw [hlen, Nat.succ_mul]
      refine .more hlimit ?_ ?_ ?_
      · rw [hgo.1.length_eq, ← hL.1.length_eq, ← hcut]
        exact hlt
      · rw [hshown.1, htake, List.take_left' hlength]
      · rw [List.drop_left' hlength]
        exact hserves _ (hnext ▸ .after hx)

/-- What the last page of a listing was asked for with. -/
theorem Listing.last {rs : List R} {r : R} (h : Listing answers next (rs ++ [r]))
    (hnames : ∀ c rest r, Remaining text later L c rest → answers c r → next r ≠ "" →
      ∃ x ∈ rest, next r = text x) :
    ∃ c rest, Remaining text later L c rest ∧ answers c r := by
  generalize hcat : rs ++ [r] = all at h
  induction h generalizing rs r with
  | @first r₀ hr =>
      obtain rfl : r = r₀ := by simpa using congrArg List.getLast? hcat
      exact ⟨_, _, .first, hr⟩
  | @more rs₀ r₀ r₁ _ hmore hr ih =>
      obtain rfl : r = r₁ := by simpa using congrArg List.getLast? hcat
      obtain ⟨c, rest, hrest, hr₀⟩ := ih rfl
      obtain ⟨x, hx, hnext⟩ := hnames _ _ _ hrest hr₀ hmore
      exact ⟨text x, _, .after (hrest.sub hx), hnext ▸ hr⟩

/-- **A listing comes to an end**: a cursor comes later than the one before, so that fewer items
remain. -/
theorem Listing.exists_complete {rs : List R} {r : R} (h : Listing answers next (rs ++ [r]))
    (hnames : ∀ c rest r, Remaining text later L c rest → answers c r → next r ≠ "" →
      ∃ x ∈ rest, next r = text x) (hirrefl : ∀ x, later x x = false)
    (htrans : ∀ x y z, later x y = true → later y z = true → later x z = true)
    (hanswers : ∀ c rest, Remaining text later L c rest → ∃ r, answers c r) :
    ∃ rs' r', Listing answers next (rs' ++ [r']) ∧ rs ++ [r] <+: rs' ++ [r'] ∧ next r' = "" := by
  by_cases hend : next r = ""
  · exact ⟨rs, r, h, List.prefix_rfl, hend⟩
  obtain ⟨c, rest, hrest, hr⟩ := h.last hnames
  obtain ⟨x, hx, hnext⟩ := hnames _ _ _ hrest hr hend
  generalize hn : (L.filter (later x)).length = n
  induction n using Nat.strongRecOn generalizing rs r c rest x with
  | ind n ih =>
      have hrem : Remaining text later L (next r) (L.filter (later x)) := hnext ▸ .after (hrest.sub hx)
      obtain ⟨r', hr'⟩ := hanswers _ _ hrem
      have h' := h.more hend hr'
      by_cases hend' : next r' = ""
      · exact ⟨rs ++ [r], r', h', List.prefix_append _ _, hend'⟩
      obtain ⟨y, hy, hnext'⟩ := hnames _ _ _ hrem hr' hend'
      have hlt : (L.filter (later y)).length < n := by
        have hsub : L.filter (later y) = (L.filter (later x)).filter (later y) := by
          rw [List.filter_filter]
          refine List.filter_congr fun z _ => ?_
          cases hz : later y z with
          | false => rfl
          | true => rw [htrans x y z (List.mem_filter.mp hy).2 hz, Bool.and_self]
        rw [hsub, ← hn, List.length_filter_lt_length_iff_exists]
        exact ⟨y, hy, by rw [hirrefl]; decide⟩
      obtain ⟨rs₁, r₁, h₁, hpre, hend₁⟩ := ih _ hlt h' hend' _ _ hrem hr' y hy hnext' rfl
      exact ⟨rs₁, r₁, h₁, (List.prefix_append _ _).trans hpre, hend₁⟩

/-- What passes a filter in the front of a list comes first. -/
theorem exists_mem_take_filter {p : τ → Bool} {pre post : List τ} {y : τ} (hlimit : 0 < limit)
    (hy : y ∈ pre) (hp : p y = true) : ∃ z ∈ pre, z ∈ ((pre ++ post).filter p).take limit := by
  obtain ⟨z, zs, hzs⟩ := List.exists_cons_of_ne_nil
    (List.ne_nil_of_mem (List.mem_filter.mpr ⟨hy, hp⟩))
  refine ⟨z, (List.mem_filter.mp (hzs ▸ List.mem_cons_self)).1, ?_⟩
  obtain ⟨m, rfl⟩ := Nat.exists_eq_succ_of_ne_zero (Nat.pos_iff_ne_zero.mp hlimit)
  rw [List.filter_append, hzs, List.cons_append, List.take_succ_cons]
  exact List.mem_cons_self

section Chain

variable (hserve : ∀ c rest r, Remaining text later L c rest → answers c r →
  Serves text limit items next rest r)

include hserve

/-- **The pages of a listing.**  If the test splits where the pages end, so many pages show the first
items of the list, each once, and the last names a cursor exactly if there are more. -/
theorem Listing.take {rs : List R} (hlimit : 0 < limit)
    (hsplits : SplitsBelow later limit L (rs.length * limit)) (h : Listing answers next rs) :
    ShownUpTo text items next L (rs.length * limit) rs := by
  induction h with
  | first hr =>
      obtain ⟨hitems, hnext⟩ := hserve _ _ _ .first hr
      refine ⟨by simpa using hitems, fun r hr => ?_⟩
      obtain rfl : _ = r := by simpa using hr
      simpa using hnext
  | @more rs r r' hrs hmore hr' ih =>
      have hpos : 0 < (rs ++ [r]).length * limit := Nat.mul_pos (by simp) hlimit
      have hlen : (rs ++ [r] ++ [r']).length = (rs ++ [r]).length + 1 := List.length_append
      rw [hlen, Nat.succ_mul] at hsplits ⊢
      have hshown := ih (hsplits.mono (Nat.le_add_right _ limit))
      -- the cursor is the last item that was shown
      obtain ⟨hlt, pre, x, -, hL, hpre, hnext⟩ := hshown.cut hpos hmore
      have hpost : L.drop ((rs ++ [r]).length * limit) ≠ [] := by
        rw [Ne, List.drop_eq_nil_iff]
        omega
      have hfilter := (hsplits pre x _ hL hpost (hpre ▸ Nat.dvd_mul_left _ _) (by omega)).filter
      rw [← hL] at hfilter
      have hx : x ∈ L := by
        rw [hL]
        exact List.mem_append_right _ List.mem_cons_self
      rw [hnext] at hr'
      exact .more hlimit hlt hshown.1 (hfilter ▸ hserve _ _ _ (.after hx) hr')

/-- A page that is not the last one leaves items. -/
theorem Listing.length_lt {rs : List R} {r : R} (hlimit : 0 < limit) (hsplits : Splits later limit L)
    (h : Listing answers next (rs ++ [r])) (hmore : next r ≠ "") :
    (rs.length + 1) * limit < L.length := by
  have hnext := (h.take hserve hlimit (hsplits.below _)).2 r (by simp)
  rw [List.length_append, List.length_singleton] at hnext
  by_contra hge
  rw [if_neg hge] at hnext
  exact hmore hnext

/-- **The pages of a complete listing show every item once, in order.** -/
theorem Listing.complete {rs : List R} {r : R} (hlimit : 0 < limit) (htext : ∀ x ∈ L, text x ≠ "")
    (hsplits : Splits later limit L) (h : Listing answers next (rs ++ [r])) (hend : next r = "") :
    (rs ++ [r]).flatMap items = L.map text :=
  (h.take hserve hlimit (hsplits.below _)).complete (Nat.mul_pos (by simp) hlimit) htext hend

variable (hirrefl : ∀ x, later x x = false)
  (htrans : ∀ x y z, later x y = true → later y z = true → later x z = true)

include hirrefl htrans

omit hirrefl in
/-- What is shown from a cursor on comes later than the cursor. -/
theorem Listing.later_of_mem {rs rs' : List R} {r : R} {x : τ} (hx : x ∈ L) (hnext : next r = text x)
    (h : Listing answers next (rs ++ [r] ++ rs')) :
    ∀ s ∈ rs'.flatMap items, ∃ y ∈ L, later x y = true ∧ text y = s := by
  have key : ∀ rs', Listing answers next (rs ++ [r] ++ rs') →
      (∀ s ∈ rs'.flatMap items, ∃ y ∈ L, later x y = true ∧ text y = s) ∧
        ∀ r' ∈ ([r] ++ rs').getLast?, next r' ≠ "" →
          ∃ y ∈ L, (y = x ∨ later x y = true) ∧ next r' = text y := by
    intro rs'
    induction rs' using List.reverseRecOn with
    | nil => exact fun _ => ⟨nofun, fun r' hr' _ => ⟨x, hx, .inl rfl, by
        obtain rfl : r = r' := by simpa using hr'
        exact hnext⟩⟩
    | append_singleton rs' r₁ ih =>
        intro h
        rw [← List.append_assoc] at h
        generalize hall : rs ++ [r] ++ rs' ++ [r₁] = all at h
        cases h with
        | first =>
            have := congrArg List.length hall
            simp only [List.length_append, List.length_singleton] at this
            omega
        | @more rs₀ r₀ r₂ h₀ hmore hr₂ =>
            obtain ⟨hcat, hlast⟩ := List.append_inj' hall rfl
            obtain rfl := List.head_eq_of_cons_eq hlast
            obtain ⟨hitems, hcursor⟩ := ih (hcat ▸ h₀)
            have hlast₀ : r₀ ∈ ([r] ++ rs').getLast? := by
              have := congrArg List.getLast? hcat
              rw [List.append_assoc, List.getLast?_append_of_ne_nil _ (by simp)] at this
              rw [this]
              simp
            obtain ⟨y, hy, hxy, hny⟩ := hcursor r₀ hlast₀ hmore
            rw [hny] at hr₂
            have hrem : Remaining text later L (text y) (L.filter (later y)) := .after hy
            have hlater : ∀ z ∈ L.filter (later y), later x z = true := by
              intro z hz
              rcases hxy with rfl | hxy
              · exact (List.mem_filter.mp hz).2
              · exact htrans x y z hxy (List.mem_filter.mp hz).2
            refine ⟨fun s hs => ?_, fun r' hr' hne => ?_⟩
            · rw [List.flatMap_append, List.flatMap_singleton] at hs
              rcases List.mem_append.mp hs with hs | hs
              · exact hitems s hs
              · rw [(hserve _ _ _ hrem hr₂).1] at hs
                obtain ⟨z, hz, rfl⟩ := List.mem_map.mp hs
                have hz := List.mem_of_mem_take hz
                exact ⟨z, hrem.sub hz, hlater z hz, rfl⟩
            · rw [← List.append_assoc, List.getLast?_append, List.getLast?_singleton,
                Option.some_or] at hr'
              obtain rfl := Option.some.inj hr'
              obtain ⟨z, hz, heq⟩ := (hserve _ _ _ hrem hr₂).exists_of_next_ne hne
              exact ⟨z, hrem.sub hz, .inr (hlater z hz), heq⟩
  exact (key rs' h).1

omit hirrefl htrans in
/-- So many pages are there, as long as items are left. -/
theorem Listing.exists_length (hlimit : 0 < limit) (htext : ∀ x ∈ L, text x ≠ "")
    (hanswers : ∀ c rest, Remaining text later L c rest → ∃ r, answers c r) {n : ℕ}
    (hsplits : SplitsBelow later limit L ((n + 1) * limit)) (hn : n * limit < L.length) :
    ∃ rs r, Listing answers next (rs ++ [r]) ∧ rs.length = n := by
  induction n with
  | zero =>
      obtain ⟨r, hr⟩ := hanswers _ _ .first
      exact ⟨[], r, .first hr, rfl⟩
  | succ n ih =>
      have hle : n * limit ≤ (n + 1) * limit := Nat.mul_le_mul_right limit (Nat.le_succ n)
      obtain ⟨rs, r, h, rfl⟩ := ih (hsplits.mono (Nat.mul_le_mul_right limit (Nat.le_succ _)))
        (Nat.lt_of_le_of_lt hle hn)
      have hlast := (h.take hserve hlimit (by
        rw [List.length_append, List.length_singleton]
        exact hsplits.mono (Nat.mul_le_mul_right limit (Nat.le_succ _)))).2 r (by simp)
      rw [List.length_append, List.length_singleton, if_pos hn] at hlast
      obtain ⟨pre, x, htake, hL, -⟩ := exists_take_eq (L := L)
        (Nat.mul_pos (Nat.succ_pos rs.length) hlimit) (Nat.le_of_lt hn)
      have hx : x ∈ L := hL ▸ List.mem_append_right _ List.mem_cons_self
      rw [htake, List.getLast?_append, List.getLast?_singleton, Option.some_or, Option.map_some,
        Option.getD_some] at hlast
      obtain ⟨r', hr'⟩ := hanswers _ _ (.after hx)
      rw [← hlast] at hr'
      exact ⟨rs ++ [r], r', h.more (hlast ▸ htext x hx) hr', by simp⟩

/-- **Pages that show everything once split.**  Where they did not, an item would be shown again, or
one would never be shown. -/
theorem splits_of_perm (hlimit : 0 < limit) (htext : ∀ x ∈ L, text x ≠ "")
    (hnodup : (L.map text).Nodup)
    (hanswers : ∀ c rest, Remaining text later L c rest → ∃ r, answers c r)
    (h : ∀ rs r, Listing answers next (rs ++ [r]) → next r = "" →
      ((rs ++ [r]).flatMap items).Perm (L.map text)) : Splits later limit L := by
  have hinj : ∀ x ∈ L, ∀ y ∈ L, text x = text y → x = y := fun x hx y hy heq =>
    List.inj_on_of_nodup_map hnodup hx hy heq
  intro pre
  generalize hn : pre.length = n
  induction n using Nat.strongRecOn generalizing pre with
  | ind n ih =>
      intro x post hL hpost hdvd
      obtain ⟨k, hk⟩ := hdvd
      obtain ⟨k, rfl⟩ : ∃ k', k = k' + 1 := Nat.exists_eq_succ_of_ne_zero (by rintro rfl; simp at hk)
      rw [Nat.mul_comm] at hk
      have hbelow : SplitsBelow later limit L ((k + 1) * limit) :=
        fun pre' x' post' hL' hpost' hdvd' hlt =>
          ih pre'.length (by omega) pre' rfl x' post' hL' hpost' hdvd'
      have hlen : L.length = n + 1 + post.length := by
        rw [hL, List.length_append, List.length_cons, hn]
        omega
      have hpos := List.length_pos_iff.mpr hpost
      have hx : x ∈ L := hL ▸ List.mem_append_right _ List.mem_cons_self
      -- the pages up to here
      obtain ⟨rs, r, hrs, rfl⟩ := Listing.exists_length hserve hlimit htext hanswers
        hbelow (by rw [Nat.succ_mul] at hk; omega)
      obtain ⟨hitems, hlast⟩ := hrs.take hserve hlimit (by
        rw [List.length_append, List.length_singleton]
        exact hbelow)
      rw [List.length_append, List.length_singleton, ← hk] at hitems hlast
      have htake : L.take (n + 1) = pre ++ [x] := by
        rw [hL, List.append_cons, List.take_append_of_le_length (by simp [hn]),
          List.take_of_length_le (by simp [hn])]
      have hnext : next r = text x := by
        have := hlast r (by simp)
        rwa [if_pos (by omega), htake, List.getLast?_append, List.getLast?_singleton, Option.some_or,
          Option.map_some, Option.getD_some] at this
      -- the rest of the listing
      obtain ⟨rs₁, r₁, h₁, ⟨more, hmore⟩, hend⟩ :=
        hrs.exists_complete (fun _ _ _ hrest hr => (hserve _ _ _ hrest hr).exists_of_next_ne)
          hirrefl htrans hanswers
      rw [← hmore] at h₁
      have hperm := h rs₁ r₁ (hmore ▸ h₁) hend
      have hcut : (pre ++ x :: post).map text = (pre ++ [x]).map text ++ post.map text := by simp
      rw [← hmore, List.flatMap_append, hitems, htake, hL, hcut] at hperm
      have hpost' : (more.flatMap items).Perm (post.map text) := (List.perm_append_left_iff _).mp hperm
      have hlater := h₁.later_of_mem hserve htrans hx hnext
      refine ⟨fun y hy => ?_, fun y hy => ?_⟩
      · by_contra hy'
        obtain ⟨r₂, more', rfl⟩ : ∃ r₂ more', more = r₂ :: more' := by
          cases more with
          | nil =>
              rw [List.append_nil] at hmore
              have hsame : r = r₁ := by simpa using congrArg List.getLast? hmore
              exact absurd ((hsame ▸ hnext).symm.trans hend) (htext x hx)
          | cons r₂ more' => exact ⟨r₂, more', rfl⟩
        have hr₂ : answers (text x) r₂ := by
          rw [← hnext]
          exact Listing.answers_next (@Listing.of_append _ _ _ _ more' (by simpa using h₁) (by simp))
        have hshown := (hserve _ _ _ (.after hx) hr₂).1
        -- the first item that the next page shows was shown before
        obtain ⟨z, hz, hmem⟩ := exists_mem_take_filter (p := later x) hlimit hy
          (by simpa using hy')
        have hz' : text z ∈ post.map text := by
          refine hpost'.mem_iff.mp (List.mem_flatMap.mpr ⟨r₂, List.mem_cons_self, ?_⟩)
          rw [hshown, hL, List.append_cons]
          exact List.mem_map_of_mem hmem
        rw [hL, List.append_cons, List.map_append] at hnodup
        exact (List.nodup_append.mp hnodup).2.2 _ (List.mem_map_of_mem hz) _ hz' rfl
      · obtain ⟨z, hz, hxz, heq⟩ := hlater _ (hpost'.mem_iff.mpr (List.mem_map_of_mem hy))
        have hy' : y ∈ L := by
          rw [hL]
          exact List.mem_append_right _ (List.mem_cons_of_mem _ hy)
        rwa [hinj z hz y hy' heq] at hxz

end Chain

end Paging
