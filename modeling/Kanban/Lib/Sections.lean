import Mathlib.Data.List.Induction

/-!
# Items under headings

A list is read from the top: some elements open a section, some end one, and an item belongs to the
section that is open where it stands.  A scanner that recognises headings and items by tests of its
own finds the items of the list exactly if it reads each of them where it stands.

## Main definitions

* `nearest` — the section that is open after a list.
* `Collects` — the items, with their sections.
* `collects_iff_reads` — when two readings find the same items.
-/

namespace Sections

variable {α β γ : Type*} {mark : α → Option (Option β)} {item : α → Option γ} {l pre post : List α}
  {x : α} {b b' : β} {c : γ}

/-- The section that is open after the list: the last element that opens or ends one decides. -/
def nearest (mark : α → Option (Option β)) (l : List α) : Option β := (l.reverse.findSome? mark).join

@[simp] theorem nearest_nil : nearest mark [] = none := rfl

/-- One more element. -/
theorem nearest_concat : nearest mark (l ++ [x]) = (mark x).elim (nearest mark l) id := by
  rw [nearest, List.reverse_concat, List.findSome?_cons]
  cases mark x with
  | none => rfl
  | some v => rfl

/-- After a heading its section is open, or one that was opened later. -/
theorem eq_or_mem_of_nearest (hx : mark x = some (some b')) (h : nearest mark (pre ++ x :: post) = some b) :
    b' = b ∨ ∃ y ∈ post, mark y = some (some b) := by
  induction post using List.reverseRecOn with
  | nil =>
      rw [nearest_concat, hx] at h
      exact .inl (Option.some.inj h)
  | append_singleton post y ih =>
      rw [← List.cons_append, ← List.append_assoc, nearest_concat] at h
      cases hy : mark y with
      | some v =>
          rw [hy] at h
          obtain rfl : v = some b := h
          exact .inr ⟨y, by simp, hy⟩
      | none =>
          rw [hy] at h
          exact (ih h).imp_right fun ⟨z, hz, hmark⟩ => ⟨z, List.mem_append_left _ hz, hmark⟩

/-- Where the open section was opened. -/
theorem exists_of_nearest (h : nearest mark l = some b) :
    ∃ pre x post, l = pre ++ x :: post ∧ mark x = some (some b) ∧ ∀ y ∈ post, mark y = none := by
  induction l using List.reverseRecOn with
  | nil => cases h
  | append_singleton l y ih =>
      rw [nearest_concat] at h
      cases hy : mark y with
      | some v =>
          rw [hy] at h
          obtain rfl : v = some b := h
          exact ⟨l, y, [], rfl, hy, nofun⟩
      | none =>
          rw [hy] at h
          obtain ⟨pre, x, post, rfl, hx, hpost⟩ := ih h
          refine ⟨pre, x, post ++ [y], by simp, hx, fun z hz => ?_⟩
          rcases List.mem_append.mp hz with hz | hz
          · exact hpost z hz
          · rw [List.mem_singleton.mp hz]
            exact hy

/-- The item `c` stands in the section `b`. -/
def Collects (mark : α → Option (Option β)) (item : α → Option γ) (l : List α) (b : β) (c : γ) : Prop :=
  ∃ pre x post, l = pre ++ x :: post ∧ nearest mark pre = some b ∧ item x = some c

@[simp] theorem not_collects_nil : ¬ Collects mark item [] b c := by
  rintro ⟨pre, x, post, h, -⟩
  simp at h

/-- **One more element.** -/
theorem collects_concat : Collects mark item (l ++ [x]) b c ↔
    Collects mark item l b c ∨ nearest mark l = some b ∧ item x = some c := by
  constructor
  · rintro ⟨pre, y, post, h, hpre, hy⟩
    rcases post.eq_nil_or_concat with rfl | ⟨post, z, rfl⟩
    · obtain ⟨rfl, hx⟩ := List.append_inj' h rfl
      rw [List.head_eq_of_cons_eq hx]
      exact .inr ⟨hpre, hy⟩
    · have h : l ++ [x] = (pre ++ y :: post) ++ [z] := by simpa using h
      exact .inl ⟨pre, y, post, (List.append_inj' h rfl).1, hpre, hy⟩
  · rintro (⟨pre, y, post, rfl, hpre, hy⟩ | ⟨hl, hx⟩)
    · exact ⟨pre, y, post ++ [x], by simp, hpre, hy⟩
    · exact ⟨l, x, [], rfl, hl, hx⟩

theorem nearest_map {δ : Type*} {f : δ → α} (l : List δ) :
    nearest mark (l.map f) = nearest (fun x => mark (f x)) l := by
  induction l using List.reverseRecOn with
  | nil => rfl
  | append_singleton l x ih => rw [List.map_append, List.map_singleton, nearest_concat, nearest_concat, ih]

theorem collects_map {δ : Type*} {f : δ → α} {l : List δ} : Collects mark item (l.map f) b c ↔
    Collects (fun x => mark (f x)) (fun x => item (f x)) l b c := by
  induction l using List.reverseRecOn with
  | nil => simp
  | append_singleton l x ih =>
      rw [List.map_append, List.map_singleton, collects_concat, collects_concat, ih, nearest_map]

/-! ## Two readings -/

/-- The second reading finds the items of the first where they stand. -/
def Reads (mark mark' : α → Option (Option β)) (item item' : α → Option γ) (l : List α) : Prop :=
  ∀ pre x post b c, l = pre ++ x :: post → nearest mark pre = some b → item x = some c →
    nearest mark' pre = some b ∧ item' x = some c

/-- What the first reading is to be: every section is opened once, no section holds an item twice, and no
item is outside of every section. -/
structure Proper (mark : α → Option (Option β)) (item : α → Option γ) (l : List α) : Prop where
  sections : ∀ pre x post pre' x' post' b, l = pre ++ x :: post → l = pre' ++ x' :: post' →
    mark x = some (some b) → mark x' = some (some b) → pre = pre'
  items : ∀ pre x post pre' x' post' b c, l = pre ++ x :: post → l = pre' ++ x' :: post' →
    nearest mark pre = some b → nearest mark pre' = some b → item x = some c → item x' = some c →
      pre = pre'
  inside : ∀ pre x post c, l = pre ++ x :: post → item x = some c → ∃ b, nearest mark pre = some b

variable {mark' : α → Option (Option β)} {item' : α → Option γ}

/-- The places of a list, each with what stands before it. -/
def places : List α → List (List α × α)
  | [] => []
  | x :: l => ([], x) :: (places l).map fun s => (x :: s.1, s.2)

theorem mem_places {l : List α} : (pre, x) ∈ places l ↔ ∃ post, l = pre ++ x :: post := by
  induction l generalizing pre with
  | nil => simp [places]
  | cons y l ih =>
      simp only [places, List.mem_cons, Prod.mk.injEq, List.mem_map, Prod.exists]
      constructor
      · rintro (⟨rfl, rfl⟩ | ⟨pre', x', hmem, rfl, rfl⟩)
        · exact ⟨l, rfl⟩
        · obtain ⟨post, rfl⟩ := ih.mp hmem
          exact ⟨post, rfl⟩
      · rintro ⟨post, h⟩
        cases pre with
        | nil =>
            obtain ⟨rfl, -⟩ := List.cons_eq_cons.mp h
            exact .inl ⟨rfl, rfl⟩
        | cons z pre =>
            obtain ⟨rfl, rfl⟩ := List.cons_eq_cons.mp h
            exact .inr ⟨pre, x, ih.mpr ⟨post, rfl⟩, rfl, rfl⟩

/-- What a proper reading is, place by place. -/
theorem proper_of_places {l : List α}
    (hsections : ∀ s ∈ places l, ∀ s' ∈ places l, (mark s.2).join.isSome → mark s.2 = mark s'.2 → s.1 = s'.1)
    (hitems : ∀ s ∈ places l, ∀ s' ∈ places l, (item s.2).isSome → item s.2 = item s'.2 →
      nearest mark s.1 = nearest mark s'.1 → s.1 = s'.1)
    (hinside : ∀ s ∈ places l, (item s.2).isSome → (nearest mark s.1).isSome) : Proper mark item l where
  sections pre x post pre' x' post' b h h' hx hx' :=
    hsections (pre, x) (mem_places.mpr ⟨post, h⟩) (pre', x') (mem_places.mpr ⟨post', h'⟩)
      (by rw [hx]; rfl) (hx.trans hx'.symm)
  items pre x post pre' x' post' b c h h' hpre hpre' hx hx' :=
    hitems (pre, x) (mem_places.mpr ⟨post, h⟩) (pre', x') (mem_places.mpr ⟨post', h'⟩)
      (by rw [hx]; rfl) (hx.trans hx'.symm) (hpre.trans hpre'.symm)
  inside pre x post c h hx := Option.isSome_iff_exists.mp
    (hinside (pre, x) (mem_places.mpr ⟨post, h⟩) (by rw [hx]; rfl))

/-- What is to be read, place by place. -/
theorem reads_of_places {l : List α} (h : ∀ s ∈ places l, (item s.2).isSome →
    nearest mark' s.1 = nearest mark s.1 ∧ item' s.2 = item s.2) : Reads mark mark' item item' l := by
  intro pre x post b c hl hpre hx
  obtain ⟨hmark, hitem⟩ := h (pre, x) (mem_places.mpr ⟨post, hl⟩) (by rw [hx]; rfl)
  exact ⟨hmark.trans hpre, hitem.trans hx⟩

/-- Two places of a list with the same elements before them are one. -/
theorem eq_of_split {x' : α} {post' : List α} (h : l = pre ++ x :: post) (h' : l = pre ++ x' :: post') :
    x = x' := List.head_eq_of_cons_eq (List.append_cancel_left (h.symm.trans h'))

/-- **When two readings find the same items.**  Let the second reading take no element for a heading
or an item that is none in the first, and no heading or item for another one of the list.  Then it
finds the same items exactly if it reads each where it stands. -/
theorem collects_iff_reads (h : Proper mark item l)
    (hmark : ∀ x ∈ l, ∀ b, mark' x = some (some b) → (∃ c, Collects mark item l b c) →
      mark x = some (some b))
    (hitem : ∀ x ∈ l, ∀ c, item' x = some c → (∃ b, Collects mark item l b c) → item x = some c)
    (hreal : ∀ x ∈ l, ∀ c, item' x = some c → ∃ c', item x = some c') :
    (∀ b c, Collects mark' item' l b c ↔ Collects mark item l b c) ↔
      Reads mark mark' item item' l := by
  constructor
  · intro hsame pre x post b c hl hpre hx
    obtain ⟨pre', x', post', hl', hpre', hx'⟩ := (hsame b c).mpr ⟨pre, x, post, hl, hpre, hx⟩
    have hmem' : x' ∈ l := by simp [hl']
    have hitem' : item x' = some c := hitem x' hmem' c hx' ⟨b, pre, x, post, hl, hpre, hx⟩
    obtain ⟨b', hb'⟩ := h.inside pre' x' post' c hl' hitem'
    by_cases hbb : b' = b
    · -- the item is read where it stands
      subst hbb
      obtain rfl := h.items pre x post pre' x' post' b' c hl hl' hpre hb' hx hitem'
      rw [eq_of_split hl hl']
      exact ⟨hpre', hx'⟩
    · -- it is read at an item of another section, whose heading is then read as such
      exfalso
      obtain ⟨q, heading, mid, rfl, hheading, hmid⟩ := exists_of_nearest hb'
      obtain ⟨pre'', x'', post'', hl'', hpre'', -⟩ := (hsame b' c).mpr ⟨_, x', post', hl', hb', hitem'⟩
      obtain ⟨q', heading', mid', rfl, hheading', -⟩ := exists_of_nearest hpre''
      have hread : mark heading' = some (some b') :=
        hmark heading' (by simp [hl'']) b' hheading' ⟨c, _, x', post', hl', hb', hitem'⟩
      have hsplit : l = q ++ heading :: (mid ++ x' :: post') := by simpa using hl'
      have hsplit' : l = q' ++ heading' :: (mid' ++ x'' :: post'') := by simpa using hl''
      obtain rfl := h.sections q heading _ q' heading' _ b' hsplit hsplit' hheading hread
      obtain rfl := eq_of_split hsplit hsplit'
      rcases eq_or_mem_of_nearest hheading' hpre' with rfl | ⟨y, hymid, hy⟩
      · exact hbb rfl
      · have hymark := hmark y (by simp [hl', hymid]) b hy ⟨c, pre, x, post, hl, hpre, hx⟩
        rw [hmid y hymid] at hymark
        cases hymark
  · intro hreads b c
    constructor
    · rintro ⟨pre, x, post, hl, hpre, hx⟩
      obtain ⟨c', hc'⟩ := hreal x (by simp [hl]) c hx
      obtain ⟨b', hb'⟩ := h.inside pre x post c' hl hc'
      obtain ⟨hpre', hx'⟩ := hreads pre x post b' c' hl hb' hc'
      obtain rfl := Option.some.inj (hpre.symm.trans hpre')
      obtain rfl := Option.some.inj (hx.symm.trans hx')
      exact ⟨pre, x, post, hl, hb', hc'⟩
    · rintro ⟨pre, x, post, hl, hpre, hx⟩
      obtain ⟨hpre', hx'⟩ := hreads pre x post b c hl hpre hx
      exact ⟨pre, x, post, hl, hpre', hx'⟩

end Sections
