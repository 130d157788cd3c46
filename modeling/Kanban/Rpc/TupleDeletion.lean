import Kanban.Rpc.Surely

/-!
# What a deletion of tuples leaves

`delete_relation_tuples` lists the tuples under a filter page by page and deletes those of a subject
before it asks for the next page.  On a backend that does not fail the loop ends, and it has deleted
the tuples that match and no others.

## Main definitions

* `listFilter` — the filter of a listing, from the arguments of the client.
* `Matches` — the tuples a deletion is about.
* `unfailing` — the answers of a backend that does not fail.
-/

namespace Kanban.Rpc

open Program Kanban.Store Kanban.Auth

variable {ι : Type} [DecidableEq ι]

/-- The field of a list request: `unwrap_or_default`, and the empty string matches any. -/
def listField (field : Option String) : Option String :=
  if field.getD "" = "" then none else some (field.getD "")

/-- The filter of `list_relation_tuples`. -/
def listFilter (tenant namespaceName : String) (object relation : Option String) : TupleFilter where
  tenant := tenant
  namespaceName := namespaceName
  object := listField object
  relation := listField relation

/-- A field that is absent or empty matches any. -/
def FieldMatches (field : Option String) (value : String) : Prop :=
  field = none ∨ field = some "" ∨ field = some value

/-- The tuple matches the arguments of a deletion. -/
structure Matches (tenant namespaceName : String) (object relation subjectId : Option String)
    (t : RelationTuple) : Prop where
  tenant : t.tenant = tenant
  namespaceName : t.namespaceName = namespaceName
  object : FieldMatches object t.object
  relation : FieldMatches relation t.relation
  subjectId : subjectId = none ∨ subjectId = some t.subjectId

theorem fieldMatches_iff {field : Option String} {value : String} :
    FieldMatches field value ↔ ∀ v ∈ listField field, value = v := by
  unfold FieldMatches listField
  cases field with
  | none => simp
  | some v =>
      by_cases h : v = ""
      · simp [h]
      · simp [h, eq_comm]

/-- What the loop deletes is what matches. -/
theorem targeted_iff {tenant namespaceName : String} {object relation subjectId : Option String}
    {t : RelationTuple} :
    targeted (listFilter tenant namespaceName object relation) subjectId t = true ↔
      Matches tenant namespaceName object relation subjectId t := by
  have hsubject : (∀ s ∈ subjectId, t.subjectId = s) ↔ subjectId = none ∨ subjectId = some t.subjectId := by
    cases subjectId <;> simp [eq_comm]
  rw [targeted, TupleFilter.admits, decide_eq_true_iff, decide_eq_true_iff, hsubject]
  change (_ ∧ _ ∧ (∀ o ∈ listField object, _) ∧ ∀ r ∈ listField relation, _) ∧ _ ↔ _
  rw [← fieldMatches_iff, ← fieldMatches_iff]
  constructor
  · rintro ⟨⟨htenant, hns, hobject, hrelation⟩, hs⟩
    exact ⟨htenant, hns, hobject, hrelation, hs⟩
  · exact fun h => ⟨⟨h.tenant, h.namespaceName, h.object, h.relation⟩, h.subjectId⟩

instance (tenant namespaceName : String) (object relation subjectId : Option String) :
    DecidablePred (Matches tenant namespaceName object relation subjectId) :=
  fun _ => decidable_of_iff _ targeted_iff

/-- A backend that does not fail: no call is refused, and no answer is lost. -/
def unfailing : Call ι → Move ι → Bool
  | _, .refuse _ => false
  | _, .lose _ => false
  | _, _ => true

section Exact

variable {tx : Tx (Rec ι)} {w : World (Db ι) (Backend ι)} {filter : TupleFilter}
  {subject : Option String} {Q : Bool → Tx (Rec ι) → World (Db ι) (Backend ι) → Prop}

/-- One page: the tuples of the subject are gone, and no others. -/
theorem sure_deletePage_exact {page : List RelationTuple}
    (h : ∀ ext : Backend ι,
      ext.tuples = w.ext.tuples.filter (fun t => t.id ∉ pageIds subject page) →
        Q true tx { w with ext := ext }) :
    Sure ((kanban ι).limit unfailing) (deletePage subject page) tx w Q := by
  induction page generalizing w with
  | nil => exact h w.ext (by simp [pageIds])
  | cons t rest ih =>
      rw [deletePage]
      split
      · rename_i hs
        rw [pageIds_cons, if_pos hs] at h
        refine ⟨⟨.done, _, react_limit.mpr ⟨rfl, rfl⟩⟩, fun m r hr => ?_⟩
        obtain ⟨hm, hr⟩ := react_limit.mp hr
        cases m with
        | done =>
            cases hr
            refine ih fun ext hext => h ext ?_
            rw [hext]
            simp only [Backend.delete, List.filter_filter]
            refine List.filter_congr fun t' _ => ?_
            rw [Bool.eq_iff_iff]
            simp [not_or, and_comm]
        | refuse tr => cases hm
        | lose tr => cases hm
        | answer g => cases hr
        | page n => cases hr
        | resolved s => cases hr
        | fresh i => cases hr
      · rename_i hs
        rw [pageIds_cons, if_neg hs] at h
        exact ih h

/-- **The loop.**  What is deleted so far are the tuples that match up to the last one listed, and
after a page that is not the last fewer are left to list. -/
theorem sure_deleteRelationTuples_exact {pages : ℕ} (hpages : w.ext.tuples.length < pages)
    (h : ∀ ext : Backend ι,
      ext.tuples = w.ext.tuples.filter (fun t => !targeted filter subject t) →
        Q true tx { w with ext := ext }) :
    Sure ((kanban ι).limit unfailing) (deleteRelationTuples pages filter subject) tx w Q := by
  have hloop : ∀ n after (ext : Backend ι), (ext.pending filter after).length < n →
      ext.tuples = cleared filter subject after w.ext.tuples →
      Sure ((kanban ι).limit unfailing) (deleteRelationTuples.loop filter subject n after) tx
        { w with ext := ext } Q := by
    intro n
    induction n with
    | zero => exact fun _ _ hn _ => absurd hn (Nat.not_lt_zero _)
    | succ n ih =>
        intro after ext hn hext
        refine ⟨⟨.page 1, _, react_limit.mpr ⟨rfl, rfl⟩⟩, fun m r hr => ?_⟩
        obtain ⟨hm, hr⟩ := react_limit.mp hr
        cases m with
        | page size =>
            obtain ⟨hsize, hr⟩ := Option.ite_none_right_eq_some.mp hr
            generalize hlisted : ext.page filter after size = listed at hr
            cases hr
            refine sure_bind (sure_deletePage_exact fun ext' hext' => ?_)
            rw [if_pos rfl]
            rw [← hlisted] at hext'
            cases hnext : listed.2 with
            | none =>
                rw [← hlisted] at hnext
                exact h ext' (hext'.trans (cleared_last hext hsize hnext))
            | some token =>
                rw [← hlisted] at hnext
                have hsub : ext'.tuples.Sublist ext.tuples := by
                  rw [hext']
                  exact List.filter_sublist
                refine ih _ _ ?_ (hext'.trans (cleared_next hext hnext))
                exact (length_pending_lt hnext hsub).trans_le (Nat.le_of_lt_succ hn)
        | refuse tr => cases hm
        | done => cases hr
        | lose tr => cases hr
        | answer g => cases hr
        | resolved s => cases hr
        | fresh i => cases hr
  refine hloop pages none w.ext (lt_of_le_of_lt (List.length_filter_le _ _) hpages) ?_
  simp [cleared]

end Exact

/-- **Tuple deletion is exact.**  On a backend that does not fail, however it splits its listings
into pages, no run of `delete_relation_tuples` goes on for ever; wherever a run has got, either it can
take one more step or it has returned, and then the tuples that are stored are exactly those that
were and do not match. -/
theorem delete_relation_tuples_exact (w : World (Db ι) (Backend ι)) (tenant namespaceName : String)
    (object relation subjectId : Option String) (pages : ℕ) (hpages : w.ext.tuples.length < pages) :
    let M := (kanban ι).limit unfailing
    let start := (Thread.start
      (deleteRelationTuples pages (listFilter tenant namespaceName object relation) subjectId), w)
    (¬ ∃ states : ℕ → _, states 0 = start ∧
      ∀ n, ∃ a, Thread.step M (states n) a = some (states (n + 1))) ∧
    ∀ acts t w', Act.fail ∉ acts → Machine.Exec (Thread.step M) start acts (t, w') →
      (∃ a c, Act.fail ≠ a ∧ Thread.step M (t, w') a = some c) ∨
      (t.prog = .pure true ∧ w'.store = w.store ∧
        w'.ext.tuples = w.ext.tuples.filter
          fun u => ¬ Matches tenant namespaceName object relation subjectId u) := by
  intro M start
  refine ⟨Thread.not_endless _ w, fun acts t w' hok hrun => ?_⟩
  have hsure : Sure M (deleteRelationTuples pages (listFilter tenant namespaceName object relation)
      subjectId) .idle w fun ok _ w' => ok = true ∧ w'.store = w.store ∧
        w'.ext.tuples = w.ext.tuples.filter
          fun u => ¬ Matches tenant namespaceName object relation subjectId u := by
    refine sure_deleteRelationTuples_exact hpages fun ext hext => ⟨rfl, rfl, hext.trans ?_⟩
    refine List.filter_congr fun u _ => ?_
    rw [Bool.eq_iff_iff, Bool.not_eq_true', decide_eq_true_eq, ← targeted_iff, Bool.not_eq_true]
  rcases (hsure.exec (undisturbed_of_not_mem hok hrun)).next with hstep | ⟨b, hb, rfl, hw⟩
  · exact .inl hstep
  · exact .inr ⟨hb, hw⟩

/-- Two owners and a viewer of one project, and an owner of another. -/
def fourGrants : Backend ℕ :=
  (((Backend.empty.create "t" "KanbanProject" "p" "owner" "user:a").create "t" "KanbanProject" "p"
    "viewer" "user:a").create "t" "KanbanProject" "p" "owner" "user:b").create "t" "KanbanProject" "q"
    "owner" "user:a"

/-- The grants of one user on one project are deleted in three pages, whatever the relation. -/
theorem delete_relation_tuples_exact_fourGrants :
    let M := (kanban ℕ).limit unfailing
    let start : _ × World (Db ℕ) (Backend ℕ) := (Thread.start (deleteRelationTuples 5
      (listFilter "t" "KanbanProject" (some "p") (some "")) (some "user:a")), ⟨Db.empty, fourGrants⟩)
    ∃ t w', Machine.Exec (Thread.step M) start
        [.move (.page 1), .move .done, .move (.page 1), .move .done, .move (.page 1)] (t, w') ∧
      ((∃ a c, Act.fail ≠ a ∧ Thread.step M (t, w') a = some c) ∨
        (t.prog = .pure true ∧ w'.store = Db.empty ∧ w'.ext.tuples = fourGrants.tuples.filter
          fun u => ¬ Matches "t" "KanbanProject" (some "p") (some "") (some "user:a") u)) ∧
      t.prog.result = some (.ok true) ∧ w'.ext.tuples.map RelationTuple.id = [2, 3] := by
  intro M start
  obtain ⟨t, w', hrun, hdone, hleft⟩ : ∃ t w', Machine.run (Thread.step M) start
      [.move (.page 1), .move .done, .move (.page 1), .move .done, .move (.page 1)] = some (t, w') ∧
      t.prog.result = some (.ok true) ∧ w'.ext.tuples.map RelationTuple.id = [2, 3] :=
    ⟨_, _, rfl, by decide, by decide⟩
  have hexec := Machine.exec_of_run hrun
  refine ⟨t, w', hexec, ?_, hdone, hleft⟩
  exact (delete_relation_tuples_exact ⟨Db.empty, fourGrants⟩ "t" "KanbanProject" (some "p") (some "")
    (some "user:a") 5 (by decide)).2 _ t w' (by simp) hexec

end Kanban.Rpc
