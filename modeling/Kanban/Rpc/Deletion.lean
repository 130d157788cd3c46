import Kanban.Rpc.Handler

/-!
# Deleting relation tuples

`delete_relation_tuples` lists the tuples under a filter page by page and deletes those of a
subject one by one.  The rules here say what it leaves behind.

## Main results

* `ensures_deleteRelationTuples` — what each of its calls keeps, under any interference.
* `ensures_deleteRelationTuples_exact` — which tuples are left, when nobody else touches
  the tuples.
-/

namespace Kanban.Rpc

open Program Kanban.Store Kanban.Auth
open Kanban.Services (ConnectError)

variable {ι : Type} [DecidableEq ι] {R : Rely (Db ι) (Rec ι) (Call ι) (Reply ι) (Backend ι)}
  {G : Guarantee (Db ι) (Rec ι) (Call ι) (Reply ι) (Backend ι)} {tx : Tx (Rec ι)}
  {tr : Trace (Rec ι) (Call ι) (Reply ι)} {w : World (Db ι) (Backend ι)}
  {Q : Post (Db ι) (Rec ι) (Call ι) (Reply ι) (Backend ι) ConnectError Bool}
  {filter : TupleFilter} {subject : Option String} {pages : ℕ}

/-- A page was listed, or the listing failed. -/
def listed (f : TupleFilter) (after : Option ℕ) (r : Option (List RelationTuple × Option ℕ)) :
    Event (Rec ι) (Call ι) (Reply ι) :=
  .called (.listRelationTuples f after) r

/-- A tuple was deleted, or its deletion failed. -/
def deletedTuple (id : ℕ) (ok : Bool) : Event (Rec ι) (Call ι) (Reply ι) :=
  .called (.deleteRelationTuple id) ok

/-- True if the tuple is to be deleted. -/
def targeted (filter : TupleFilter) (subject : Option String) (t : RelationTuple) : Bool :=
  filter.admits t ∧ ∀ s ∈ subject, t.subjectId = s

/-- The world after a tuple was deleted. -/
def dropTuple (w : World (Db ι) (Backend ι)) (id : ℕ) : World (Db ι) (Backend ι) :=
  { w with ext := w.ext.delete id }

omit [DecidableEq ι] in
/-- A listed tuple is stored and passes the filter. -/
theorem mem_page {b : Backend ι} {f : TupleFilter} {after : Option ℕ} {size : ℕ}
    {t : RelationTuple} (h : t ∈ (b.page f after size).1) : t ∈ b.tuples ∧ f.admits t := by
  obtain ⟨ht, hf⟩ := List.mem_filter.mp (List.mem_of_mem_take h)
  simp only [Bool.and_eq_true] at hf
  exact ⟨ht, hf.1⟩

/-- The rule of a listing. -/
theorem ensures_list {α : Type}
    {Q : Post (Db ι) (Rec ι) (Call ι) (Reply ι) (Backend ι) ConnectError α} {after : Option ℕ}
    {k : Option (List RelationTuple × Option ℕ) → Handler ι α} :
    Ensures (kanban ι) R G Q (.call (.listRelationTuples filter after) k) tx tr w ↔
      ∀ w₁, R tr w w₁ →
        (∀ size, 0 < size →
          G tr w₁ (listed filter after (some (w₁.ext.page filter after size)) :: tr) w₁ ∧
          Ensures (kanban ι) R G Q (k (some (w₁.ext.page filter after size))) tx
            (listed filter after (some (w₁.ext.page filter after size)) :: tr) w₁) ∧
        G tr w₁ (listed filter after none :: tr) w₁ ∧
        Ensures (kanban ι) R G Q (k none) tx (listed filter after none :: tr) w₁ := by
  constructor
  · intro h w₁ hw
    refine ⟨fun size hsize => ?_, ?_⟩
    · exact h w₁ hw (.page size) (some (w₁.ext.page filter after size), w₁.ext) (if_pos hsize)
    · exact h w₁ hw (.refuse true) (none, w₁.ext) rfl
  · intro h w₁ hw m r hr
    obtain ⟨hpage, hnone⟩ := h w₁ hw
    cases m with
    | page size =>
        simp only [kanban, react] at hr
        split at hr
        · rename_i hsize
          cases hr
          exact hpage size hsize
        · cases hr
    | refuse t =>
        cases hr
        exact hnone
    | done => cases hr
    | lose t => cases hr
    | answer g => cases hr
    | resolved s => cases hr
    | fresh id => cases hr

/-- The rule of a deletion; one that fails was refused, or its answer was lost. -/
theorem ensures_delete {α : Type}
    {Q : Post (Db ι) (Rec ι) (Call ι) (Reply ι) (Backend ι) ConnectError α} {id : ℕ}
    {k : Bool → Handler ι α} :
    Ensures (kanban ι) R G Q (.call (.deleteRelationTuple id) k) tx tr w ↔
      ∀ w₁, R tr w w₁ →
        (G tr w₁ (deletedTuple id true :: tr) (dropTuple w₁ id) ∧
          Ensures (kanban ι) R G Q (k true) tx (deletedTuple id true :: tr) (dropTuple w₁ id)) ∧
        ∀ w₂, w₂ = w₁ ∨ w₂ = dropTuple w₁ id →
          G tr w₁ (deletedTuple id false :: tr) w₂ ∧
          Ensures (kanban ι) R G Q (k false) tx (deletedTuple id false :: tr) w₂ := by
  constructor
  · intro h w₁ hw
    refine ⟨h w₁ hw .done (true, w₁.ext.delete id) rfl, ?_⟩
    rintro w₂ (rfl | rfl)
    · exact h w₂ hw (.refuse true) (false, w₂.ext) rfl
    · exact h w₁ hw (.lose true) (false, w₁.ext.delete id) rfl
  · intro h w₁ hw m r hr
    obtain ⟨htrue, hfalse⟩ := h w₁ hw
    cases m with
    | done =>
        cases hr
        exact htrue
    | refuse t =>
        cases hr
        exact hfalse w₁ (.inl rfl)
    | lose t =>
        cases hr
        exact hfalse (dropTuple w₁ id) (.inr rfl)
    | page size => cases hr
    | answer g => cases hr
    | resolved s => cases hr
    | fresh id => cases hr

/-! ## Under interference -/

/-- The rule of the deletion under interference: `I` holds throughout, and every tuple that is
deleted was listed in a world where `I` held. -/
theorem ensures_deleteRelationTuples
    (I : Trace (Rec ι) (Call ι) (Reply ι) → World (Db ι) (Backend ι) → Prop)
    (safe : RelationTuple → Prop) (h : I tr w)
    (hrely : ∀ tr w w', I tr w → R tr w w' → I tr w')
    (hsafe : ∀ tr w t, I tr w → t ∈ w.ext.tuples → targeted filter subject t → safe t)
    (hlist : ∀ tr w after r, I tr w →
      G tr w (listed filter after r :: tr) w ∧ I (listed filter after r :: tr) w)
    (hdelete : ∀ tr w t ok w', safe t → I tr w → w' = w ∨ w' = dropTuple w t.id →
      G tr w (deletedTuple t.id ok :: tr) w' ∧ I (deletedTuple t.id ok :: tr) w')
    (hend : ∀ tr w ok, I tr w → Q (.ok ok) tx tr w) :
    Ensures (kanban ι) R G Q (deleteRelationTuples pages filter subject) tx tr w := by
  have hpage : ∀ (Q' : Post (Db ι) (Rec ι) (Call ι) (Reply ι) (Backend ι) ConnectError Bool)
      (page : List RelationTuple) tr w, I tr w →
      (∀ t ∈ page, (∀ s ∈ subject, t.subjectId = s) → safe t) →
      (∀ tr w ok, I tr w → Q' (.ok ok) tx tr w) →
      Ensures (kanban ι) R G Q' (deletePage subject page) tx tr w := by
    intro Q' page
    induction page with
    | nil => exact fun tr w hI _ hQ' => hQ' tr w true hI
    | cons t rest ih =>
        intro tr w hI hpage hQ'
        have hrest := fun t ht => hpage t (List.mem_cons_of_mem _ ht)
        rw [deletePage]
        split
        · rename_i hs
          rw [ensures_delete]
          intro w₁ hw
          have hI₁ := hrely _ _ _ hI hw
          have hsafe := hpage t List.mem_cons_self hs
          refine ⟨?_, fun w₂ hw₂ => ?_⟩
          · obtain ⟨hg, hI₂⟩ := hdelete tr w₁ t true _ hsafe hI₁ (.inr rfl)
            exact ⟨hg, ih _ _ hI₂ hrest hQ'⟩
          · obtain ⟨hg, hI₂⟩ := hdelete tr w₁ t false _ hsafe hI₁ hw₂
            exact ⟨hg, hQ' _ _ _ hI₂⟩
        · exact ih _ _ hI hrest hQ'
  have hloop : ∀ n after tr w, I tr w →
      Ensures (kanban ι) R G Q (deleteRelationTuples.loop filter subject n after) tx tr w := by
    intro n
    induction n with
    | zero =>
        intro after tr w _ w₁ _ m r hr
        exact r.1.elim
    | succ n ih =>
        intro after tr w hI
        rw [deleteRelationTuples.loop, ensures_list]
        intro w₁ hw
        have hI₁ := hrely _ _ _ hI hw
        refine ⟨fun size _ => ?_, ?_⟩
        · obtain ⟨hg, hI₂⟩ := hlist tr w₁ after (some (w₁.ext.page filter after size)) hI₁
          refine ⟨hg, ?_⟩
          rw [ensures_bind]
          refine hpage _ _ _ _ hI₂ (fun t ht hs => ?_) fun tr w ok hI => ?_
          · obtain ⟨hmem, hadmits⟩ := mem_page ht
            exact hsafe _ _ _ hI₁ hmem (decide_eq_true ⟨hadmits, hs⟩)
          · cases ok with
            | true =>
                dsimp only
                cases (w₁.ext.page filter after size).2 with
                | none => exact hend _ _ _ hI
                | some token => exact ih _ _ _ hI
            | false => exact hend _ _ _ hI
        · obtain ⟨hg, hI₂⟩ := hlist tr w₁ after none hI₁
          exact ⟨hg, hend _ _ _ hI₂⟩
  exact hloop pages none tr w h

/-! ## Without interference -/

/-- The tuples that are left once those up to `after` are deleted. -/
def cleared (filter : TupleFilter) (subject : Option String) (after : Option ℕ)
    (tuples : List RelationTuple) : List RelationTuple :=
  tuples.filter fun t => !(targeted filter subject t && after.any (t.id ≤ ·))

/-- The ids of a page that are deleted. -/
def pageIds (subject : Option String) (page : List RelationTuple) : List ℕ :=
  (page.filter fun t => ∀ s ∈ subject, t.subjectId = s).map RelationTuple.id

theorem pageIds_cons {t : RelationTuple} {rest : List RelationTuple} :
    pageIds subject (t :: rest) =
      if ∀ s ∈ subject, t.subjectId = s then t.id :: pageIds subject rest
      else pageIds subject rest := by
  rw [pageIds, List.filter_cons]
  simp only [decide_eq_true_eq]
  split
  · rfl
  · rfl

section Paging

variable {tuples page : List RelationTuple} {after : Option ℕ} {size : ℕ} {t t' : RelationTuple}

theorem eq_of_id_eq (hsorted : tuples.Pairwise fun t t' => t.id < t'.id) (ht : t ∈ tuples)
    (ht' : t' ∈ tuples) (h : t.id = t'.id) : t = t' := by
  have hnodup : (tuples.map RelationTuple.id).Nodup :=
    List.pairwise_map.mpr (hsorted.imp fun hlt => hlt.ne)
  exact List.inj_on_of_nodup_map hnodup ht ht' h

/-- A tuple's id is among those a page deletes when the tuple is on the page. -/
theorem mem_pageIds (hsorted : tuples.Pairwise fun t t' => t.id < t'.id)
    (hpage : ∀ t ∈ page, t ∈ tuples) (ht : t ∈ tuples) :
    t.id ∈ pageIds subject page ↔ t ∈ page ∧ ∀ s ∈ subject, t.subjectId = s := by
  simp only [pageIds, List.mem_map, List.mem_filter, decide_eq_true_eq]
  constructor
  · rintro ⟨t', ⟨ht', hs⟩, hid⟩
    obtain rfl := eq_of_id_eq hsorted (hpage t' ht') ht hid
    exact ⟨ht', hs⟩
  · rintro ⟨hmem, hs⟩
    exact ⟨t, ⟨hmem, hs⟩, rfl⟩

/-- In a sorted list, a member no greater than the last of a prefix is in the prefix. -/
theorem mem_take_iff (hsorted : tuples.Pairwise fun t t' => t.id < t'.id)
    (hlast : (tuples.take size).getLast? = some t') (ht : t ∈ tuples) :
    t ∈ tuples.take size ↔ t.id ≤ t'.id := by
  have hlast' : t' ∈ tuples.take size := List.mem_of_getLast? hlast
  have happend : (tuples.take size ++ tuples.drop size).Pairwise fun t t' => t.id < t'.id := by
    rwa [List.take_append_drop]
  obtain ⟨htake, -, hcross⟩ := List.pairwise_append.mp happend
  constructor
  · intro hmem
    obtain ⟨ys, hys⟩ := List.getLast?_eq_some_iff.mp hlast
    rw [hys] at hmem htake
    rcases List.mem_append.mp hmem with h | h
    · exact ((List.pairwise_append.mp htake).2.2 t h t' (List.mem_singleton_self t')).le
    · rw [List.mem_singleton.mp h]
  · intro hle
    rw [← List.take_append_drop size tuples] at ht
    rcases List.mem_append.mp ht with h | h
    · exact h
    · exact absurd (hcross t' hlast' t h) (Nat.not_lt.mpr hle)

omit [DecidableEq ι] in
theorem mem_pending {b : Backend ι} :
    t ∈ b.pending filter after ↔ t ∈ b.tuples ∧ filter.admits t ∧ after.all (· < t.id) := by
  simp [Backend.pending, List.mem_filter]

omit [DecidableEq ι] in
theorem pending_sorted {b : Backend ι} :
    (b.pending filter after).Pairwise fun t t' => t.id < t'.id := b.sorted.filter _

omit [DecidableEq ι] in
/-- What a page deletes, of the tuples that are stored. -/
theorem mem_pageIds_page {b : Backend ι} (ht : t ∈ b.tuples) :
    t.id ∈ pageIds subject (b.page filter after size).1 ↔
      t ∈ (b.pending filter after).take size ∧ ∀ s ∈ subject, t.subjectId = s :=
  mem_pageIds b.sorted (fun _ ht => (mem_page ht).1) ht

omit [DecidableEq ι] in
/-- The last page holds all that is left. -/
theorem take_pending_of_last {b : Backend ι} (hsize : 0 < size)
    (hnext : (b.page filter after size).2 = none) :
    (b.pending filter after).take size = b.pending filter after := by
  unfold Backend.page at hnext
  dsimp only at hnext
  split at hnext
  · rename_i hle
    exact List.take_of_length_le hle
  · rename_i hlt
    rw [Option.map_eq_none_iff, List.getLast?_eq_none_iff, List.take_eq_nil_iff] at hnext
    rcases hnext with h | h
    · omega
    · simp [h] at hlt

omit [DecidableEq ι] in
/-- The token of the next page is the id of the last tuple of the page. -/
theorem exists_last_of_next {b : Backend ι} {token : ℕ}
    (hnext : (b.page filter after size).2 = some token) :
    ∃ t, ((b.pending filter after).take size).getLast? = some t ∧ t.id = token := by
  unfold Backend.page at hnext
  dsimp only at hnext
  split at hnext
  · cases hnext
  · exact Option.map_eq_some_iff.mp hnext

omit [DecidableEq ι] in
/-- The last page deletes what is left. -/
theorem cleared_last {b : Backend ι} (hb : b.tuples = cleared filter subject after tuples)
    (hsize : 0 < size) (hnext : (b.page filter after size).2 = none) :
    b.tuples.filter (fun t => t.id ∉ pageIds subject (b.page filter after size).1) =
      tuples.filter fun t => !targeted filter subject t := by
  have hall := take_pending_of_last hsize hnext
  have hkeep : b.tuples.filter (fun t => t.id ∉ pageIds subject (b.page filter after size).1) =
      b.tuples.filter fun t => ¬ (targeted filter subject t ∧ after.all (· < t.id)) := by
    refine List.filter_congr fun t ht => decide_eq_decide.mpr ?_
    rw [mem_pageIds_page ht, hall, mem_pending]
    simp only [targeted, decide_eq_true_eq]
    tauto
  rw [hkeep, hb, cleared, List.filter_filter]
  refine List.filter_congr fun t _ => ?_
  by_cases hs : targeted filter subject t = true
  · cases after with
    | none => simp [hs]
    | some a =>
        simp only [hs, Option.all_some, Option.any_some, decide_eq_true_eq, Bool.true_and]
        by_cases h : a < t.id
        · simp [h]
        · simp [h]
          omega
  · simp [hs]

omit [DecidableEq ι] in
/-- A page that is not the last deletes what is left up to its last tuple. -/
theorem cleared_next {b : Backend ι} {token : ℕ}
    (hb : b.tuples = cleared filter subject after tuples)
    (hnext : (b.page filter after size).2 = some token) :
    b.tuples.filter (fun t => t.id ∉ pageIds subject (b.page filter after size).1) =
      cleared filter subject (some token) tuples := by
  obtain ⟨last, hlast, rfl⟩ := exists_last_of_next hnext
  have hafter : after.all (· < last.id) :=
    (mem_pending.mp (List.mem_of_mem_take (List.mem_of_getLast? hlast))).2.2
  have hkeep : b.tuples.filter (fun t => t.id ∉ pageIds subject (b.page filter after size).1) =
      b.tuples.filter fun t =>
        ¬ (targeted filter subject t ∧ after.all (· < t.id) ∧ t.id ≤ last.id) := by
    refine List.filter_congr fun t ht => decide_eq_decide.mpr ?_
    rw [mem_pageIds_page ht]
    by_cases hp : t ∈ b.pending filter after
    · rw [mem_take_iff pending_sorted hlast hp]
      rw [mem_pending] at hp
      simp only [targeted, decide_eq_true_eq]
      tauto
    · rw [mem_pending] at hp
      have hnot : t ∉ (b.pending filter after).take size :=
        fun h => hp (mem_pending.mp (List.mem_of_mem_take h))
      simp only [targeted, decide_eq_true_eq]
      tauto
  rw [hkeep, hb, cleared, cleared, List.filter_filter]
  refine List.filter_congr fun t _ => ?_
  by_cases hs : targeted filter subject t = true
  · cases after with
    | none => by_cases h : t.id ≤ last.id <;> simp [hs, h]
    | some a =>
        simp only [Option.all_some, decide_eq_true_eq] at hafter
        simp only [hs, Option.all_some, Option.any_some, decide_eq_true_eq, Bool.true_and]
        by_cases h : a < t.id <;> by_cases h' : t.id ≤ last.id <;> simp [h, h'] <;> omega
  · simp [hs]

end Paging

/-- A call of the deletion that failed. -/
def DeletionFailed : Event (Rec ι) (Call ι) (Reply ι) → Prop
  | .called (.listRelationTuples _ _) r => r = none
  | .called (.deleteRelationTuple _) ok => ok = false
  | _ => False

/-- What a deletion that was cut short leaves: nothing new, and all that is not targeted. -/
def Partial (filter : TupleFilter) (subject : Option String) (tuples tuples' : List RelationTuple) :
    Prop :=
  (∀ t ∈ tuples', t ∈ tuples) ∧ ∀ t ∈ tuples, ¬ targeted filter subject t → t ∈ tuples'

/-- The rule of one page: its tuples are deleted up to the first failure. -/
theorem ensures_deletePage
    (I : Trace (Rec ι) (Call ι) (Reply ι) → World (Db ι) (Backend ι) → Prop)
    (hrely : ∀ tr w w', I tr w → R tr w w' → I tr w' ∧ w'.ext.tuples = w.ext.tuples)
    (hdelete : ∀ tr w id ok w', I tr w → w' = w ∨ w' = dropTuple w id →
      G tr w (deletedTuple id ok :: tr) w' ∧ (ok = true → I (deletedTuple id ok :: tr) w'))
    {page : List RelationTuple} (h : I tr w)
    (hdone : ∀ tr w', I tr w' →
      w'.ext.tuples = w.ext.tuples.filter (fun t => t.id ∉ pageIds subject page) →
      Q (.ok true) tx tr w')
    (hfail : ∀ tr e w₁ w', I tr w₁ → w'.store = w₁.store → DeletionFailed e →
      (∀ t ∈ w'.ext.tuples, t ∈ w.ext.tuples) →
      (∀ t ∈ w.ext.tuples, t.id ∉ pageIds subject page → t ∈ w'.ext.tuples) →
      Q (.ok false) tx (e :: tr) w') :
    Ensures (kanban ι) R G Q (deletePage subject page) tx tr w := by
  induction page generalizing tr w with
  | nil => exact hdone tr w h (by simp [pageIds])
  | cons t rest ih =>
      rw [deletePage]
      split
      · rename_i hs
        have hids : pageIds subject (t :: rest) = t.id :: pageIds subject rest := by
          rw [pageIds_cons, if_pos hs]
        rw [hids] at hdone hfail
        rw [ensures_delete]
        intro w₁ hw
        obtain ⟨hI, htuples⟩ := hrely _ _ _ h hw
        rw [← htuples] at hdone hfail
        refine ⟨?_, fun w₂ hw₂ => ?_⟩
        · obtain ⟨hg, hI'⟩ := hdelete tr w₁ t.id true _ hI (.inr rfl)
          refine ⟨hg, ih (hI' rfl) (fun tr w' hI htuples' => ?_)
            fun tr e w₂ w' hI hstore he hsub hkeep => ?_⟩
          · refine hdone tr w' hI ?_
            rw [htuples', dropTuple, Backend.delete, List.filter_filter]
            refine List.filter_congr fun t' _ => ?_
            rw [Bool.eq_iff_iff]
            simp [not_or, and_comm]
          · refine hfail tr e w₂ w' hI hstore he
              (fun t' ht' => (List.mem_filter.mp (hsub t' ht')).1) ?_
            intro t' ht' hid
            rw [List.mem_cons, not_or] at hid
            exact hkeep t' (List.mem_filter.mpr ⟨ht', decide_eq_true hid.1⟩) hid.2
        · obtain ⟨hg, -⟩ := hdelete tr w₁ t.id false _ hI hw₂
          refine ⟨hg, hfail tr _ w₁ w₂ hI ?_ rfl ?_ ?_⟩
          · rcases hw₂ with rfl | rfl
            · rfl
            · rfl
          · intro t' ht'
            rcases hw₂ with rfl | rfl
            · exact ht'
            · exact (List.mem_filter.mp ht').1
          · intro t' ht' hid
            rw [List.mem_cons, not_or] at hid
            rcases hw₂ with rfl | rfl
            · exact ht'
            · exact List.mem_filter.mpr ⟨ht', decide_eq_true hid.1⟩
      · rename_i hs
        have hids : pageIds subject (t :: rest) = pageIds subject rest := by
          rw [pageIds_cons, if_neg hs]
        rw [hids] at hdone hfail
        exact ih h hdone hfail

/-- The rule of the deletion when nobody else touches the tuples: exactly the targeted tuples are
gone, unless a call failed. -/
theorem ensures_deleteRelationTuples_exact
    (I : Trace (Rec ι) (Call ι) (Reply ι) → World (Db ι) (Backend ι) → Prop) (h : I tr w)
    (hrely : ∀ tr w w', I tr w → R tr w w' → I tr w' ∧ w'.ext.tuples = w.ext.tuples)
    (hlist : ∀ tr w after r, I tr w → G tr w (listed filter after r :: tr) w ∧
      (r.isSome → I (listed filter after r :: tr) w))
    (hdelete : ∀ tr w id ok w', I tr w → w' = w ∨ w' = dropTuple w id →
      G tr w (deletedTuple id ok :: tr) w' ∧ (ok = true → I (deletedTuple id ok :: tr) w'))
    (hdone : ∀ tr w', I tr w' →
      w'.ext.tuples = w.ext.tuples.filter (fun t => !targeted filter subject t) →
      Q (.ok true) tx tr w')
    (hfail : ∀ tr e w₁ w', I tr w₁ → w'.store = w₁.store → DeletionFailed e →
      Partial filter subject w.ext.tuples w'.ext.tuples → Q (.ok false) tx (e :: tr) w') :
    Ensures (kanban ι) R G Q (deleteRelationTuples pages filter subject) tx tr w := by
  have hunfinished : ∀ (after : Option ℕ) {tuples' : List RelationTuple},
      (∀ t ∈ tuples', t ∈ cleared filter subject after w.ext.tuples) →
      (∀ t ∈ cleared filter subject after w.ext.tuples, ¬ targeted filter subject t →
        t ∈ tuples') → Partial filter subject w.ext.tuples tuples' := by
    intro after tuples' hsub hkeep
    refine ⟨fun t ht => (List.mem_filter.mp (hsub t ht)).1, fun t ht hnot => ?_⟩
    exact hkeep t (List.mem_filter.mpr ⟨ht, by simp [hnot]⟩) hnot
  have hloop : ∀ n after tr w₀, I tr w₀ →
      w₀.ext.tuples = cleared filter subject after w.ext.tuples →
      Ensures (kanban ι) R G Q (deleteRelationTuples.loop filter subject n after) tx tr w₀ := by
    intro n
    induction n with
    | zero =>
        intro after tr w₀ _ _ w₁ _ m r hr
        exact r.1.elim
    | succ n ih =>
        intro after tr w₀ hI hcleared
        rw [deleteRelationTuples.loop, ensures_list]
        intro w₁ hw
        obtain ⟨hI₁, htuples⟩ := hrely _ _ _ hI hw
        rw [← htuples] at hcleared
        refine ⟨fun size hsize => ?_, ?_⟩
        · obtain ⟨hg, hI₂⟩ := hlist tr w₁ after (some (w₁.ext.page filter after size)) hI₁
          refine ⟨hg, ?_⟩
          rw [ensures_bind]
          refine ensures_deletePage I hrely hdelete (hI₂ rfl) (fun tr w' hI' htuples' => ?_)
            fun tr e w₂ w' hI' hstore he hsub hkeep => ?_
          · dsimp only
            rw [if_pos rfl]
            cases hnext : (w₁.ext.page filter after size).2 with
            | none =>
                rw [cleared_last hcleared hsize hnext] at htuples'
                exact hdone tr w' hI' htuples'
            | some token =>
                rw [cleared_next hcleared hnext] at htuples'
                exact ih (some token) tr w' hI' htuples'
          · refine hfail tr e w₂ w' hI' hstore he (hunfinished after (hcleared ▸ hsub) ?_)
            intro t ht hnot
            rw [← hcleared] at ht
            refine hkeep t ht fun hid => hnot ?_
            obtain ⟨hmem, hs⟩ := (mem_pageIds_page ht).mp hid
            exact decide_eq_true ⟨(mem_page hmem).2, hs⟩
        · obtain ⟨hg, -⟩ := hlist tr w₁ after none hI₁
          refine ⟨hg, hfail tr _ w₁ w₁ hI₁ rfl rfl (hunfinished after ?_ ?_)⟩
          · rw [hcleared]
            exact fun t ht => ht
          · rw [hcleared]
            exact fun t ht _ => ht
  refine hloop pages none tr w h ?_
  simp [cleared]

/-! ## While nobody adds a tuple -/

section Cleared

variable {I : Trace (Rec ι) (Call ι) (Reply ι) → Prop}

/-- The rule of one page while nobody adds a targeted tuple: its tuples are gone, unless a call
failed. -/
theorem ensures_deletePage_cleared
    (hrely : ∀ tr w w', I tr → R tr w w' →
      ∀ t ∈ w'.ext.tuples, targeted filter subject t → t ∈ w.ext.tuples)
    (hdelete : ∀ tr id ok, I tr → I (deletedTuple id ok :: tr)) {page : List RelationTuple} (h : I tr)
    (hdone : ∀ tr w', I tr → (∀ t ∈ w'.ext.tuples, targeted filter subject t →
      t ∈ w.ext.tuples ∧ t.id ∉ pageIds subject page) → Q (.ok true) tx tr w')
    (hfail : ∀ tr e w', I (e :: tr) → DeletionFailed e → Q (.ok false) tx (e :: tr) w') :
    Ensures (kanban ι) R (fun _ _ _ _ => True) Q (deletePage subject page) tx tr w := by
  induction page generalizing tr w with
  | nil => exact hdone tr w h fun t ht _ => ⟨ht, List.not_mem_nil⟩
  | cons t₀ rest ih =>
      rw [deletePage]
      rw [pageIds_cons] at hdone
      split
      · rename_i hs
        rw [if_pos hs] at hdone
        rw [ensures_delete]
        intro w₁ hw
        refine ⟨⟨trivial, ih (hdelete _ _ _ h) fun tr' w' htr' hleft => ?_⟩, fun w₂ _ => ⟨trivial, ?_⟩⟩
        · refine hdone tr' w' htr' fun t ht htarget => ?_
          obtain ⟨hold, hid⟩ := hleft t ht htarget
          obtain ⟨hold, hne⟩ := List.mem_filter.mp hold
          refine ⟨hrely _ _ _ h hw t hold htarget, fun hmem => ?_⟩
          rcases List.mem_cons.mp hmem with heq | hmem
          · exact of_decide_eq_true hne heq
          · exact hid hmem
        · exact hfail _ _ _ (hdelete _ _ _ h) rfl
      · rename_i hs
        rw [if_neg hs] at hdone
        exact ih h hdone

/-- The rule of the deletion while nobody adds a targeted tuple: none is left, unless a call
failed. -/
theorem ensures_deleteRelationTuples_cleared
    (hrely : ∀ tr w w', I tr → R tr w w' →
      ∀ t ∈ w'.ext.tuples, targeted filter subject t → t ∈ w.ext.tuples)
    (hlist : ∀ tr after r, I tr → I (listed filter after r :: tr))
    (hdelete : ∀ tr id ok, I tr → I (deletedTuple id ok :: tr)) (h : I tr)
    (hdone : ∀ tr w', I tr → (∀ t ∈ w'.ext.tuples, ¬ targeted filter subject t) →
      Q (.ok true) tx tr w')
    (hfail : ∀ tr e w', I (e :: tr) → DeletionFailed e → Q (.ok false) tx (e :: tr) w') :
    Ensures (kanban ι) R (fun _ _ _ _ => True) Q (deleteRelationTuples pages filter subject) tx tr w := by
  have hloop : ∀ n after tr w, I tr →
      (∀ t ∈ w.ext.tuples, targeted filter subject t → after.all (· < t.id)) →
      Ensures (kanban ι) R (fun _ _ _ _ => True) Q (deleteRelationTuples.loop filter subject n after)
        tx tr w := by
    intro n
    induction n with
    | zero =>
        intro after tr w _ _ w₁ _ m r hr
        exact r.1.elim
    | succ n ih =>
        intro after tr w htr hafter
        rw [deleteRelationTuples.loop, ensures_list]
        intro w₁ hw
        refine ⟨fun size hsize => ⟨trivial, ?_⟩, trivial, ?_⟩
        · rw [ensures_bind]
          refine ensures_deletePage_cleared hrely hdelete (hlist _ _ _ htr)
            (fun tr' w' htr' hleft => ?_) fun tr' e w' htr' he => hfail tr' e w' htr' he
          -- what is left was listed before, but not on this page
          have hrest : ∀ t ∈ w'.ext.tuples, targeted filter subject t →
              t ∈ w₁.ext.pending filter after ∧ t ∉ (w₁.ext.pending filter after).take size := by
            intro t ht htarget
            obtain ⟨hold, hid⟩ := hleft t ht htarget
            obtain ⟨hadmits, hs⟩ := of_decide_eq_true htarget
            have hpending : t ∈ w₁.ext.pending filter after :=
              mem_pending.mpr ⟨hold, hadmits, hafter t (hrely _ _ _ htr hw t hold htarget) htarget⟩
            exact ⟨hpending, fun htake => hid ((mem_pageIds_page hold).mpr ⟨htake, hs⟩)⟩
          dsimp only
          rw [if_pos rfl]
          cases hnext : (w₁.ext.page filter after size).2 with
          | none =>
              refine hdone tr' w' htr' fun t ht htarget => ?_
              obtain ⟨hpending, htake⟩ := hrest t ht htarget
              rw [take_pending_of_last hsize hnext] at htake
              exact htake hpending
          | some token =>
              refine ih _ _ _ htr' fun t ht htarget => ?_
              obtain ⟨hpending, htake⟩ := hrest t ht htarget
              obtain ⟨last, hlast, rfl⟩ := exists_last_of_next hnext
              rw [mem_take_iff pending_sorted hlast hpending] at htake
              exact decide_eq_true (Nat.lt_of_not_le htake)
        · exact hfail _ _ _ (hlist _ _ _ htr) rfl
  exact hloop pages none tr w h fun _ _ _ => rfl

end Cleared

end Kanban.Rpc
