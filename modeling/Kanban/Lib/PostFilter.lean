import Kanban.Lib.Paging

/-!
# Pages that are filtered

A listing is read in pages, and the items of a page that fail a test are dropped after the page was
read.  The page names a cursor only if it is still full.  Where a page loses an item the listing ends,
so that what passes the test on a later page is never shown.

## Main definitions

* `Screens` — what the answer to a cursor shows.
* `Screened` — where a page ends, all before passes the test, or nothing after does.
-/

namespace Paging

variable {τ ρ R : Type*} {text : τ → String} {later : τ → τ → Bool} {vis : τ → Bool} {item : τ → ρ}
  {limit : ℕ} {L rest : List τ} {answers : String → R → Prop} {items : R → List ρ} {next : R → String}

/-- The first items that remain and that pass the test. -/
def kept (vis : τ → Bool) (limit : ℕ) (rest : List τ) : List τ := (rest.take limit).filter vis

/-- An answer shows what is kept of the first items, and names its last one if nothing was dropped
from a full page. -/
def Screens (text : τ → String) (vis : τ → Bool) (item : τ → ρ) (limit : ℕ) (items : R → List ρ)
    (next : R → String) (rest : List τ) (r : R) : Prop :=
  items r = (kept vis limit rest).map item ∧
    next r = if limit ≤ (kept vis limit rest).length then
      ((kept vis limit rest).getLast?.map text).getD "" else ""

/-- Where a page ends, everything before it passes the test, or nothing after it does. -/
def Screened (vis : τ → Bool) (limit : ℕ) (L : List τ) : Prop :=
  ∀ pre post, L = pre ++ post → limit ∣ pre.length →
    (∀ x ∈ pre, vis x = true) ∨ ∀ x ∈ post, vis x = false

/-- A page that is full after the filter has lost nothing. -/
theorem kept_full (h : limit ≤ (kept vis limit rest).length) :
    kept vis limit rest = rest.take limit ∧ limit ≤ rest.length ∧ ∀ x ∈ rest.take limit, vis x = true := by
  have hle := List.length_filter_le vis (rest.take limit)
  have htake : (rest.take limit).length = min limit rest.length := List.length_take
  have hall := List.length_filter_eq_length_iff.mp (le_antisymm hle (by unfold kept at h; omega))
  exact ⟨List.filter_eq_self.mpr hall, by unfold kept at h; omega, hall⟩

section Chain

variable (hserve : ∀ c rest r, Remaining text later L c rest → answers c r →
    Screens text vis item limit items next rest r)
  (hsplit : ∀ pre x post, L = pre ++ x :: post → SplitsAt later pre x post) (hlimit : 0 < limit)

include hserve hsplit hlimit

/-- **The pages of a filtered listing**: nothing was dropped from the pages before the last one, and
the last one is read from where they end. -/
theorem Listing.screened {rs : List R} {r : R} (h : Listing answers next (rs ++ [r])) :
    (rs.length * limit ≤ L.length ∧ (∀ x ∈ L.take (rs.length * limit), vis x = true)) ∧
    rs.flatMap items = (L.take (rs.length * limit)).map item ∧
    ∃ c, Remaining text later L c (L.drop (rs.length * limit)) ∧ answers c r := by
  generalize hcat : rs ++ [r] = all at h
  induction h generalizing rs r with
  | @first r₀ hr =>
      have hone : rs ++ [r] = [] ++ [r₀] := hcat
      obtain ⟨rfl, hr₀⟩ := List.append_inj' hone rfl
      obtain rfl := List.head_eq_of_cons_eq hr₀
      simpa using ⟨_, .first, hr⟩
  | @more rs₀ r₀ r₁ _ hmore hr ih =>
      obtain ⟨rfl, hr₁⟩ := List.append_inj' hcat rfl
      obtain rfl := List.head_eq_of_cons_eq hr₁
      obtain ⟨⟨hle, hvis⟩, hitems, c, hrest, hr₀⟩ := ih rfl
      obtain ⟨hshown, hnext⟩ := hserve _ _ _ hrest hr₀
      -- a cursor means that the page was full, and its last item is where the next one starts
      have hfull : limit ≤ (kept vis limit (L.drop (rs₀.length * limit))).length := by
        by_contra hlt
        rw [if_neg hlt] at hnext
        exact hmore hnext
      obtain ⟨hkept, hlong, hall⟩ := kept_full hfull
      rw [hkept] at hshown
      rw [if_pos hfull, hkept] at hnext
      obtain ⟨pre, x, htake, hdrop, -⟩ := exists_take_eq hlimit hlong
      rw [htake, List.getLast?_append, List.getLast?_singleton, Option.some_or, Option.map_some,
        Option.getD_some] at hnext
      have hcount : (rs₀ ++ [r₀]).length * limit = rs₀.length * limit + limit := by
        rw [List.length_append, List.length_singleton, Nat.succ_mul]
      have hL : L = (L.take (rs₀.length * limit) ++ pre) ++ x :: (L.drop (rs₀.length * limit)).drop limit := by
        rw [List.append_assoc, ← hdrop, List.take_append_drop]
      have hlater : L.filter (later x) = L.drop ((rs₀ ++ [r₀]).length * limit) := by
        have hfilter := (hsplit _ _ _ hL).filter
        rwa [← hL, List.drop_drop, ← hcount] at hfilter
      rw [List.length_drop] at hlong
      rw [hcount, List.take_add]
      refine ⟨⟨by omega, fun y hy => ?_⟩, ?_, _, ?_, hr⟩
      · exact (List.mem_append.mp hy).elim (hvis y) (hall y)
      · rw [List.flatMap_append, hitems, List.flatMap_singleton, hshown, List.map_append]
      · rw [← hcount, ← hlater, hnext]
        refine .after ?_
        rw [hL]
        exact List.mem_append_right _ List.mem_cons_self

/-- What a complete listing has shown: everything was kept up to its last page, and that page was not
full. -/
theorem Listing.screened_end (htext : ∀ x ∈ L, text x ≠ "") {rs : List R} {r : R}
    (h : Listing answers next (rs ++ [r])) (hend : next r = "") :
    (rs ++ [r]).flatMap items = ((L.take ((rs.length + 1) * limit)).filter vis).map item ∧
    (∀ x ∈ L.take (rs.length * limit), vis x = true) ∧
    ¬ limit ≤ (kept vis limit (L.drop (rs.length * limit))).length := by
  obtain ⟨⟨hle, hvis⟩, hitems, c, hrest, hr⟩ := h.screened hserve hsplit hlimit
  obtain ⟨hshown, hnext⟩ := hserve _ _ _ hrest hr
  refine ⟨?_, hvis, fun hfull => ?_⟩
  · rw [List.flatMap_append, hitems, List.flatMap_singleton, hshown, Nat.succ_mul, List.take_add,
      List.filter_append, List.filter_eq_self.mpr hvis, List.map_append]
    rfl
  · obtain ⟨hkept, hlong, -⟩ := kept_full hfull
    obtain ⟨pre, x, htake, hdrop, -⟩ := exists_take_eq hlimit hlong
    rw [if_pos hfull, hkept, htake, List.getLast?_append, List.getLast?_singleton, Option.some_or,
      Option.map_some, Option.getD_some, hend] at hnext
    refine htext x (List.mem_of_mem_drop (?_ : x ∈ L.drop (rs.length * limit))) hnext.symm
    rw [hdrop]
    exact List.mem_append_right _ List.mem_cons_self

/-- A filtered listing comes to an end. -/
theorem Listing.exists_screened_end
    (hanswers : ∀ c rest, Remaining text later L c rest → ∃ r, answers c r) {rs : List R} {r : R}
    (h : Listing answers next (rs ++ [r])) : ∃ rs' r', Listing answers next (rs' ++ [r']) ∧ next r' = "" := by
  generalize hn : L.length - rs.length * limit = n
  induction n using Nat.strongRecOn generalizing rs r with
  | ind n ih =>
      by_cases hend : next r = ""
      · exact ⟨rs, r, h, hend⟩
      obtain ⟨-, -, c, hrest, hr⟩ := h.screened hserve hsplit hlimit
      obtain ⟨-, hnext⟩ := hserve _ _ _ hrest hr
      -- the cursor is the last item of a full page
      obtain ⟨c', rest', hrest', hc'⟩ : ∃ c' rest', Remaining text later L c' rest' ∧ c' = next r := by
        by_cases hfull : limit ≤ (kept vis limit (L.drop (rs.length * limit))).length
        · obtain ⟨hkept, hlong, -⟩ := kept_full hfull
          obtain ⟨pre, x, htake, hdrop, -⟩ := exists_take_eq hlimit hlong
          rw [if_pos hfull, hkept, htake, List.getLast?_append, List.getLast?_singleton, Option.some_or,
            Option.map_some, Option.getD_some] at hnext
          refine ⟨_, _, .after (List.mem_of_mem_drop (?_ : x ∈ L.drop (rs.length * limit))), hnext.symm⟩
          rw [hdrop]
          exact List.mem_append_right _ List.mem_cons_self
        · rw [if_neg hfull] at hnext
          exact absurd hnext hend
      obtain ⟨r', hr'⟩ := hanswers _ _ hrest'
      have h' := h.more hend (hc' ▸ hr')
      have hle := (h'.screened hserve hsplit hlimit).1.1
      rw [List.length_append, List.length_singleton, Nat.succ_mul] at hle
      refine ih _ ?_ h' rfl
      rw [List.length_append, List.length_singleton, Nat.succ_mul]
      omega

/-- **Complete listings of filtered pages.**  A listing can be followed to its end; and every complete
listing shows each item that passes the test once and nothing else exactly if, where a page ends,
everything before it passes or nothing after it does. -/
theorem screened_iff (htext : ∀ x ∈ L, text x ≠ "")
    (hanswers : ∀ c rest, Remaining text later L c rest → ∃ r, answers c r) :
    (∃ rs r, Listing answers next (rs ++ [r]) ∧ next r = "") ∧
    ((∀ rs r, Listing answers next (rs ++ [r]) → next r = "" →
      ((rs ++ [r]).flatMap items).Perm ((L.filter vis).map item)) ↔ Screened vis limit L) := by
  have hexists : ∃ rs r, Listing answers next (rs ++ [r]) ∧ next r = "" := by
    obtain ⟨r, hr⟩ := hanswers _ _ .first
    exact Listing.exists_screened_end hserve hsplit hlimit hanswers
      (show Listing answers next ([] ++ [r]) from .first hr)
  refine ⟨hexists, fun hall => ?_, fun hscreened rs r h hend => ?_⟩
  · obtain ⟨rs, r, h, hend⟩ := hexists
    obtain ⟨hshown, hvis, -⟩ := h.screened_end hserve hsplit hlimit htext hend
    have hnone : ∀ x ∈ L.drop ((rs.length + 1) * limit), vis x = false := by
      have hlen := (hall rs r h hend).length_eq
      rw [hshown, List.length_map, List.length_map, ← List.take_append_drop ((rs.length + 1) * limit) L,
        List.filter_append, List.length_append, List.take_append_drop] at hlen
      have hnil : (L.drop ((rs.length + 1) * limit)).filter vis = [] :=
        List.length_eq_zero_iff.mp (by omega)
      simpa using List.filter_eq_nil_iff.mp hnil
    rintro pre post rfl ⟨k, hk⟩
    rw [Nat.mul_comm] at hk
    rcases Nat.lt_or_ge rs.length k with hlt | hge
    · refine .inr fun x hx => hnone x ?_
      have hle : (rs.length + 1) * limit ≤ pre.length := hk ▸ Nat.mul_le_mul_right limit hlt
      rw [List.drop_append_of_le_length hle]
      exact List.mem_append_right _ hx
    · refine .inl fun x hx => hvis x ?_
      have hle : pre.length ≤ rs.length * limit := hk ▸ Nat.mul_le_mul_right limit hge
      rw [List.take_append, List.take_of_length_le hle]
      exact List.mem_append_left _ hx
  · obtain ⟨hshown, hvis, hnot⟩ := h.screened_end hserve hsplit hlimit htext hend
    rw [hshown]
    refine List.Perm.of_eq (congrArg (List.map item) ?_)
    suffices hnone : ∀ x ∈ L.drop ((rs.length + 1) * limit), vis x = false by
      have hdrop : (L.drop ((rs.length + 1) * limit)).filter vis = [] :=
        List.filter_eq_nil_iff.mpr fun x hx => by simp [hnone x hx]
      conv_rhs => rw [← List.take_append_drop ((rs.length + 1) * limit) L, List.filter_append, hdrop,
        List.append_nil]
    by_cases hlong : (rs.length + 1) * limit ≤ L.length
    · have hdvd : limit ∣ (L.take ((rs.length + 1) * limit)).length := by
        rw [List.length_take, Nat.min_eq_left hlong]
        exact Nat.dvd_mul_left _ _
      refine (hscreened _ _ (List.take_append_drop _ L).symm hdvd).resolve_left fun hpass => hnot ?_
      -- a page from which nothing was dropped would be full
      have hkept : kept vis limit (L.drop (rs.length * limit)) = (L.drop (rs.length * limit)).take limit := by
        refine List.filter_eq_self.mpr fun x hx => hpass x ?_
        rw [Nat.succ_mul, List.take_add]
        exact List.mem_append_right _ hx
      rw [Nat.succ_mul] at hlong
      rw [hkept, List.length_take, List.length_drop]
      omega
    · rw [List.drop_eq_nil_of_le (by omega)]
      exact List.forall_mem_nil _

end Chain

end Paging
