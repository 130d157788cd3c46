import Kanban.Ids.Codec
import Kanban.Lib.Keyset
import Kanban.Services.Search
import Mathlib.Data.String.Basic

/-!
# The backfills

`card_parent_tuples.rs` and `opensearch_cards.rs` walk the table of cards.  The ids are texts in the
database; a query reads them as identifiers, and the next query is asked with the last of them
written again.

## Main definitions

* `CardRecord` — a card as it is stored.
* `Deployment` — the table, and what answers the calls of a backfill.
* `backfillParentTuples`, `backfillSearchIndex` — the two loops.
-/

namespace Kanban.Migrations

open Kanban.Ids Keyset
open Kanban.Services (CardDocument)

/-- A row of `cards`: the columns that are read, as they are stored. -/
structure CardRecord where
  id : String
  tenantId : String
  boardId : String
  projectId : String
  ref : String
  title : String
  description : Option String
  priority : String
  completedAt : Option ℤ
  deriving DecidableEq, Repr

/-- A request of a backfill to the database or to a service. -/
inductive Request
  | ensureIndex
  | select (after : Option Id)
  | tenantClient (tenantId : String)
  | grant (tenantId namespaceName object relation subject : String)
  | load (cardId : Id) (tenantId : String)
  | indexCard (doc : CardDocument)
  deriving DecidableEq

/-- The end of a backfill that did not go through: an error with its context, or a column that cannot
be read. -/
inductive Halt
  | failed (context : String)
  | panicked
  deriving DecidableEq, Repr

/-- What a backfill runs with.  The labels and the assignees of a card are what the queries for them
answer; a request fails or not depending on those that went through before. -/
structure Deployment where
  crate : UlidCrate
  collation : Collation String
  cards : List CardRecord
  pageSize : ℕ
  indexName : String
  labels : String → String → List String
  assignees : String → String → List String
  toRfc3339 : ℤ → String
  fails : List Request → Request → Bool

/-- The state of a backfill: its variables, and the requests that changed something. -/
structure Progress where
  tenantClients : List String
  count : ℕ
  lastId : Option Id
  requests : List Request

def Progress.start : Progress := ⟨[], 0, none, []⟩

section Backfills

variable (D : Deployment)

/-- `row.get` of an identifier. -/
def readId (text : String) : Except Halt Id :=
  match Id.fromStr D.crate text with
  | some id => .ok id
  | none => .error .panicked

/-- A request, with the context of its error. -/
def attempt (context : String) (request : Request) (s : Progress) : Except Halt Progress :=
  if D.fails s.requests request then .error (.failed context)
  else .ok { s with requests := s.requests ++ [request] }

/-- The query of a batch. -/
def selectCards (context : String) (s : Progress) : Except Halt (List CardRecord) :=
  if D.fails s.requests (.select s.lastId) then .error (.failed context)
  else .ok (D.collation.select CardRecord.id D.cards (s.lastId.map (Id.display D.crate)) D.pageSize)

/-! ## Parent tuples -/

/-- The client of a tenant is derived once. -/
def tenantClient (tenantId : String) (s : Progress) : Except Halt Progress :=
  if tenantId ∈ s.tenantClients then .ok s
  else do
    let s ← attempt D s!"failed to derive permission client for tenant {tenantId}"
      (.tenantClient tenantId) s
    .ok { s with tenantClients := tenantId :: s.tenantClients }

/-- The body of the loop of `card_parent_tuples`. -/
def grantParent (s : Progress) (row : CardRecord) : Except Halt Progress := do
  let cardId ← readId D row.id
  let boardId ← readId D row.boardId
  let s ← tenantClient D row.tenantId s
  let card := cardId.display D.crate
  let board := boardId.display D.crate
  let s ← attempt D s!"failed to backfill parent tuple for card {card} on board {board}"
    (.grant row.tenantId "KanbanCard" card "parent" s!"KanbanBoard:{board}") s
  .ok { s with count := s.count + 1, lastId := some cardId }

/-- `backfill` of `card_parent_tuples`. -/
def backfillParentTuples (fuel : ℕ) : Option (Except Halt Progress) :=
  scan (selectCards D "failed to scan cards for parent-tuple backfill") (grantParent D) fuel .start

/-! ## The search index -/

/-- `card_document_from_db`. -/
def cardDocumentFromDb (cardId : Id) (tenantId : String) : Except Halt (Option CardDocument) :=
  match D.cards.find? fun c => c.id = cardId.display D.crate ∧ c.tenantId = tenantId with
  | none => .ok none
  | some row => do
      let boardId ← readId D row.boardId
      let projectId ← readId D row.projectId
      .ok (some {
        id := cardId.display D.crate
        tenantId := tenantId
        boardId := boardId.display D.crate
        projectId := projectId.display D.crate
        cardRef := row.ref
        title := row.title
        description := row.description.getD ""
        priority := row.priority
        labels := D.labels (cardId.display D.crate) tenantId
        assignees := D.assignees (cardId.display D.crate) tenantId
        completedAt := row.completedAt.map D.toRfc3339 })

/-- The body of the loop of `opensearch_cards`. -/
def indexRow (s : Progress) (row : CardRecord) : Except Halt Progress := do
  let cardId ← readId D row.id
  let card := cardId.display D.crate
  if D.fails s.requests (.load cardId row.tenantId) then
    .error (.failed s!"failed to load card {card} for search backfill")
  else do
    match ← cardDocumentFromDb D cardId row.tenantId with
    | some doc => do
        let s ← attempt D s!"failed to index card {card}" (.indexCard doc) s
        .ok { s with count := s.count + 1, lastId := some cardId }
    | none => .ok { s with lastId := some cardId }

/-- `backfill` of `opensearch_cards`. -/
def backfillSearchIndex (fuel : ℕ) : Option (Except Halt Progress) :=
  match attempt D s!"failed to ensure OpenSearch index {D.indexName}" .ensureIndex .start with
  | .error e => some (.error e)
  | .ok s => scan (selectCards D "failed to scan cards for search backfill") (indexRow D) fuel s

end Backfills

/-! ## Every card once -/

/-- A table of cards as the program writes it: its identifiers are canonical texts, and no two cards
share theirs. -/
structure Deployment.CanonicalTable (D : Deployment) : Prop where
  documented : D.crate.Documented
  nodup : (D.cards.map CardRecord.id).Nodup
  canonical : ∀ row ∈ D.cards, ∀ text ∈ [row.id, row.boardId, row.projectId],
    CanonicalUlid text ∨ CanonicalUuid text

/-- The tuple of a card. -/
def parentTuple (row : CardRecord) : Request :=
  .grant row.tenantId "KanbanCard" row.id "parent" ("KanbanBoard:" ++ row.boardId)

/-- The document of a card. -/
def Deployment.document (D : Deployment) (row : CardRecord) : CardDocument where
  id := row.id
  tenantId := row.tenantId
  boardId := row.boardId
  projectId := row.projectId
  cardRef := row.ref
  title := row.title
  description := row.description.getD ""
  priority := row.priority
  labels := D.labels row.id row.tenantId
  assignees := D.assignees row.id row.tenantId
  completedAt := row.completedAt.map D.toRfc3339

/-- The grants and the documents among the requests of a backfill. -/
def Progress.cards (s : Progress) : List Request :=
  s.requests.filter fun
    | .grant _ _ _ _ _ => true
    | .indexCard _ => true
    | _ => false

section Cover

variable {D : Deployment} {s s' : Progress} {row : CardRecord} {text context : String} {id : Id}

theorem parse_of_canonical (hU : D.crate.Documented) (h : CanonicalUlid text ∨ CanonicalUuid text) :
    ∃ id, Id.fromStr D.crate text = some id := by
  rcases h with h | h
  · obtain ⟨v, hv, -⟩ := parseUlid_of_canonical hU h
    exact ⟨⟨v, .ulid⟩, by rw [Id.fromStr, hv]⟩
  · obtain ⟨v, hv, -⟩ := parseUuid_of_canonical h
    exact ⟨⟨v, .uuid⟩, by rw [Id.fromStr, parseUlid_of_canonicalUuid h, hv]; rfl⟩

/-- A canonical text is read, and written back as it was. -/
theorem readId_of_canonical (hU : D.crate.Documented) (h : CanonicalUlid text ∨ CanonicalUuid text) :
    ∃ id, readId D text = .ok id ∧ id.display D.crate = text := by
  obtain ⟨id, hid⟩ := parse_of_canonical hU h
  exact ⟨id, by rw [readId, hid], (display_eq_iff hU hid).mpr h⟩

/-- Some request fails. -/
def Deployment.SomeFails (D : Deployment) : Prop := ∃ requests request, D.fails requests request = true

theorem attempt_cases (context : String) (request : Request) (s : Progress) :
    (attempt D context request s = .error (.failed context) ∧ D.SomeFails) ∨
      attempt D context request s = .ok { s with requests := s.requests ++ [request] } := by
  unfold attempt
  split
  · rename_i h
    exact .inl ⟨rfl, _, _, h⟩
  · exact .inr rfl

theorem tenantClient_cases (tenantId : String) (s : Progress) :
    (∃ context, tenantClient D tenantId s = .error (.failed context) ∧ D.SomeFails) ∨
      ∃ s', tenantClient D tenantId s = .ok s' ∧ s'.cards = s.cards := by
  unfold tenantClient
  split
  · exact .inr ⟨s, rfl, rfl⟩
  · rcases attempt_cases (D := D) s!"failed to derive permission client for tenant {tenantId}"
      (.tenantClient tenantId) s with ⟨h, hfails⟩ | h
    · exact .inl ⟨_, by rw [h]; rfl, hfails⟩
    · exact .inr ⟨_, by rw [h]; rfl, by simp [Progress.cards]⟩

/-- A row either stops the backfill, because a request failed, or it adds one item to what the backfill
has done and moves the cursor to the row. -/
def Processes (D : Deployment) (body : Progress → CardRecord → Except Halt Progress)
    (item : CardRecord → Request) : Prop :=
  ∀ s, ∀ row ∈ D.cards,
    (∃ context, body s row = .error (.failed context) ∧ D.SomeFails) ∨
    ∃ s', body s row = .ok s' ∧ s'.lastId.map (Id.display D.crate) = some row.id ∧
      s'.cards = s.cards ++ [item row]

theorem processes_grantParent (h : D.CanonicalTable) : Processes D (grantParent D) parentTuple := by
  intro s row hrow
  obtain ⟨cardId, hcard, hcardText⟩ := readId_of_canonical h.documented
    (h.canonical row hrow row.id (by simp))
  obtain ⟨boardId, hboard, hboardText⟩ := readId_of_canonical h.documented
    (h.canonical row hrow row.boardId (by simp))
  unfold grantParent
  simp only [hcard, hboard, hcardText, hboardText, bind, Except.bind]
  rcases tenantClient_cases (D := D) row.tenantId s with ⟨context, hclient, hfails⟩ | ⟨s₁, hclient, hs₁⟩
  · exact .inl ⟨context, by rw [hclient], hfails⟩
  · rw [hclient]
    dsimp only
    rcases attempt_cases (D := D)
      s!"failed to backfill parent tuple for card {row.id} on board {row.boardId}"
      (.grant row.tenantId "KanbanCard" row.id "parent" s!"KanbanBoard:{row.boardId}") s₁
      with ⟨hgrant, hfails⟩ | hgrant
    · exact .inl ⟨_, by rw [hgrant], hfails⟩
    · refine .inr ⟨_, by rw [hgrant], ?_, ?_⟩
      · exact congrArg some hcardText
      · rw [← hs₁]
        exact List.filter_append _ _

/-- The document of a stored card is found under its id. -/
theorem cardDocumentFromDb_eq (h : D.CanonicalTable) (hrow : row ∈ D.cards)
    (hid : id.display D.crate = row.id) :
    cardDocumentFromDb D id row.tenantId = .ok (some (D.document row)) := by
  have hfind : D.cards.find? (fun c => c.id = id.display D.crate ∧ c.tenantId = row.tenantId) = some row := by
    cases hfound : D.cards.find? fun c => c.id = id.display D.crate ∧ c.tenantId = row.tenantId with
    | none =>
        have := List.find?_eq_none.mp hfound row hrow
        simp [hid] at this
    | some other =>
        have hother := List.find?_some hfound
        simp only [decide_eq_true_eq] at hother
        rw [List.inj_on_of_nodup_map h.nodup (List.mem_of_find?_eq_some hfound) hrow
          (hother.1.trans hid)]
  obtain ⟨boardId, hboard, hboardText⟩ := readId_of_canonical h.documented
    (h.canonical row hrow row.boardId (by simp))
  obtain ⟨projectId, hproject, hprojectText⟩ := readId_of_canonical h.documented
    (h.canonical row hrow row.projectId (by simp))
  rw [hid] at hfind
  unfold cardDocumentFromDb
  simp only [hid, hfind, hboard, hproject, hboardText, hprojectText, bind, Except.bind]
  rfl

theorem processes_indexRow (h : D.CanonicalTable) :
    Processes D (indexRow D) fun row => .indexCard (D.document row) := by
  intro s row hrow
  obtain ⟨cardId, hcard, hcardText⟩ := readId_of_canonical h.documented
    (h.canonical row hrow row.id (by simp))
  have hdocument := cardDocumentFromDb_eq h hrow hcardText
  unfold indexRow
  simp only [hcard, hcardText, hdocument, bind, Except.bind]
  split
  · rename_i hload
    exact .inl ⟨_, rfl, _, _, hload⟩
  · rcases attempt_cases (D := D) s!"failed to index card {row.id}" (.indexCard (D.document row)) s
      with ⟨hindex, hfails⟩ | hindex
    · exact .inl ⟨_, by rw [hindex], hfails⟩
    · refine .inr ⟨_, by rw [hindex], ?_, ?_⟩
      · exact congrArg some hcardText
      · exact List.filter_append _ _

/-- A backfill covers the table: it ends, with an error only if a request failed, and otherwise with one
item a card. -/
def Covers (D : Deployment) (item : CardRecord → Request) (result : Option (Except Halt Progress)) :
    Prop :=
  (∃ context, result = some (.error (.failed context)) ∧ D.SomeFails) ∨
    ∃ s, result = some (.ok s) ∧ s.cards.Perm (D.cards.map item)

/-- **The loop of a backfill** covers the table. -/
theorem covers_scan (h : D.CanonicalTable) (hsize : 0 < D.pageSize)
    {body : Progress → CardRecord → Except Halt Progress} {item : CardRecord → Request}
    (hbody : Processes D body item) {fuel : ℕ} (hfuel : D.cards.length < fuel) (hstart : s.lastId = none)
    (hcards : s.cards = []) : Covers D item (scan (selectCards D context) body fuel s) := by
  have hscans : Scans D.collation CardRecord.id D.cards D.pageSize
      (fun s => s.lastId.map (Id.display D.crate)) (selectCards D context) body := by
    constructor
    · intro s page hpage
      unfold selectCards at hpage
      split at hpage
      · cases hpage
      · cases hpage
        rfl
    · intro s row hrow s' hs'
      rcases hbody s row hrow with ⟨context, herror, -⟩ | ⟨s'', hok, hcursor, -⟩
      · rw [herror] at hs'
        cases hs'
      · rw [hok] at hs'
        cases hs'
        exact hcursor
  obtain ⟨done, rest, s', hrows, hdone, ⟨rfl, hscan⟩ | ⟨e, hscan, he⟩⟩ :=
    hscans.ends h.nodup hsize (by rw [hstart]; rfl) hfuel
  · rw [List.append_nil] at hrows
    rw [← hrows] at hdone
    refine .inr ⟨s', hscan, ?_⟩
    have hitems : s'.cards = s.cards ++ (D.collation.sorted CardRecord.id D.cards).map item :=
      items_of_foldlM_ok (fun s row hrow s' hs' => ?_) hdone
    · rw [hitems, hcards, List.nil_append]
      exact Collation.sorted_perm.map item
    · rcases hbody s row (Collation.sorted_perm.mem_iff.mp hrow) with ⟨_, herror, -⟩ | ⟨s'', hok, -, h⟩
      · rw [herror] at hs'
        cases hs'
      · rw [hok] at hs'
        cases hs'
        exact h
  · refine .inl ?_
    rcases he with he | ⟨row, hrow, he⟩
    · unfold selectCards at he
      split at he
      · rename_i hfails
        cases he
        exact ⟨_, hscan, _, _, hfails⟩
      · cases he
    · rcases hbody s' row hrow with ⟨context, herror, hfails⟩ | ⟨s'', hok, -⟩
      · rw [herror] at he
        cases he
        exact ⟨_, hscan, hfails⟩
      · rw [hok] at he
        cases he

end Cover

/-- **The backfills cover the table.**  On a table that stands still, with any batch size, both loops end
after finitely many rounds; a loop stops early only when a request fails, and otherwise it has
written the parent tuple, or the document, of each card once, and nothing for any other card. -/
theorem backfills_cover (D : Deployment) (h : D.CanonicalTable) (hsize : 0 < D.pageSize) (fuel : ℕ)
    (hfuel : D.cards.length < fuel) :
    Covers D parentTuple (backfillParentTuples D fuel) ∧
      Covers D (fun row => .indexCard (D.document row)) (backfillSearchIndex D fuel) := by
  refine ⟨covers_scan h hsize (processes_grantParent h) hfuel rfl rfl, ?_⟩
  unfold backfillSearchIndex
  rcases attempt_cases (D := D) s!"failed to ensure OpenSearch index {D.indexName}" .ensureIndex .start
    with ⟨hensure, hfails⟩ | hensure
  · rw [hensure]
    exact .inl ⟨_, rfl, hfails⟩
  · rw [hensure]
    exact covers_scan h hsize (processes_indexRow h) hfuel rfl rfl

/-- The order of the code points. -/
def codePoints : Collation String where
  le a b := decide (a ≤ b)
  le_trans a b c h h' := decide_eq_true ((of_decide_eq_true h).trans (of_decide_eq_true h'))
  le_total a b := by simpa using le_total a b
  le_antisymm a b h h' := le_antisymm (of_decide_eq_true h) (of_decide_eq_true h')

/-- Three cards of two tenants, one with an old id, in batches of two. -/
def threeCards : Deployment where
  crate := crockfordCrate
  collation := codePoints
  cards :=
    [⟨"01ARZ3NDEKTSV4RRFFQ69G5FAV", "t", "01BX5ZZKBKACTAV9WEVGEMMVRZ", "01BX5ZZKBKACTAV9WEVGEMMVS0",
        "KAN-1", "a", none, "low", none⟩,
      ⟨"f47ac10b-58cc-4372-a567-0e02b2c3d479", "u", "01BX5ZZKBKACTAV9WEVGEMMVRZ",
        "01BX5ZZKBKACTAV9WEVGEMMVS0", "KAN-2", "b", some "c", "high", some 5⟩,
      ⟨"01BX5ZZKBKACTAV9WEVGEMMVS1", "t", "f47ac10b-58cc-4372-a567-0e02b2c3d479",
        "01BX5ZZKBKACTAV9WEVGEMMVS0", "KAN-3", "d", none, "medium", none⟩]
  pageSize := 2
  indexName := "cards"
  labels _ _ := []
  assignees _ _ := []
  toRfc3339 _ := ""
  fails _ _ := false

theorem canonical_threeCards : threeCards.CanonicalTable where
  documented := documented_crockfordCrate
  nodup := by decide
  canonical := by
    have huuid : CanonicalUuid "f47ac10b-58cc-4372-a567-0e02b2c3d479" :=
      ⟨["f47ac10b".toList, "58cc".toList, "4372".toList, "a567".toList, "0e02b2c3d479".toList],
        by decide, by decide, by decide⟩
    have hulid : ∀ text ∈ ["01ARZ3NDEKTSV4RRFFQ69G5FAV", "01BX5ZZKBKACTAV9WEVGEMMVRZ",
      "01BX5ZZKBKACTAV9WEVGEMMVS0", "01BX5ZZKBKACTAV9WEVGEMMVS1"], CanonicalUlid text := by decide
    simp only [List.forall_mem_cons] at hulid
    obtain ⟨h₁, h₂, h₃, h₄, -⟩ := hulid
    simp [threeCards, h₁, h₂, h₃, h₄, huuid]

theorem backfills_cover_threeCards :
    Covers threeCards parentTuple (backfillParentTuples threeCards 4) ∧
      Covers threeCards (fun row => .indexCard (threeCards.document row))
        (backfillSearchIndex threeCards 4) ∧ ¬ threeCards.SomeFails := by
  obtain ⟨hgrants, hdocs⟩ := backfills_cover threeCards canonical_threeCards (by decide) 4 (by decide)
  exact ⟨hgrants, hdocs, fun ⟨_, _, h⟩ => Bool.false_ne_true h⟩

end Kanban.Migrations
