import Kanban.Services.AggregatedBoards
import Kanban.Services.SearchCursor
import Mathlib.Algebra.Order.Field.Rat
import Mathlib.Data.List.Dedup

/-!
# Searching for cards

`services/search.rs`: a full-text query is put to the index, and the hits of the page whose board the
caller cannot view are dropped afterwards.

## Main definitions

* `SearchBody`, `buildQuery` — the request that the index is asked with.
* `SearchServiceImpl` — the database, the permission backend and the search engine.
* `postFilter`, `collectHits` — the boards that the caller may view, and the loop over the hits.
* `searchCards` — the handler.
* `viewable`, `page` — the hits that pass the filter, and the answer made of them.
-/

namespace Kanban.Services

/-! ## The index -/

/-- Shape of a card document stored in the search index. -/
structure CardDocument where
  id : String
  tenantId : String
  boardId : String
  projectId : String
  cardRef : String
  title : String
  description : String
  priority : String
  labels : List String
  assignees : List String
  completedAt : Option String
  deriving DecidableEq, Repr

structure SearchHit (V : Type) where
  score : Option ℚ
  source : CardDocument
  sort : Option (List V)
  deriving DecidableEq

structure SearchResponse (V : Type) where
  total : ℤ
  hits : List (SearchHit V)

/-- A clause of the boolean query. -/
inductive Clause
  | multiMatch (query : String) (fields : List String) (kind fuzziness : String)
  | matchAll
  | term (field value : String)
  | terms (field : String) (values : List String)
  deriving DecidableEq, Repr

/-- The body of `POST /<index>/_search`. -/
structure SearchBody (V : Type) where
  must : List Clause
  filter : List Clause
  size : ℕ
  sort : List (String × String)
  trackTotalHits : Bool
  searchAfter : Option V

structure SearchCardsRequest where
  query : String
  projectIds : List String
  boardIds : List String
  labelNames : List String
  assigneeSubjects : List String
  limit : ℤ
  cursor : String
  deriving DecidableEq, Repr

structure CardSearchHit where
  cardId : String
  cardRef : String
  boardId : String
  projectId : String
  title : String
  descriptionSnippet : String
  priority : String
  status : String
  labelNames : List String
  assigneeSubjects : List String
  score : ℚ
  deriving DecidableEq, Repr

structure SearchCardsResponse where
  hits : List CardSearchHit
  nextCursor : String
  total : ℤ
  deriving DecidableEq, Repr

/-! ## The query -/

def defaultSearchLimit : ℤ := 20
def maxSearchLimit : ℤ := 100

/-- The page size of a request. -/
def searchLimit (limit : ℤ) : ℕ :=
  (min (if limit ≤ 0 then defaultSearchLimit else limit) maxSearchLimit).toNat

theorem searchLimit_pos (limit : ℤ) : 0 < searchLimit limit := by
  unfold searchLimit defaultSearchLimit maxSearchLimit
  split <;> omega

/-- `char::is_whitespace`. -/
def isWhitespace (c : Char) : Bool :=
  c.toNat ∈ [0x09, 0x0a, 0x0b, 0x0c, 0x0d, 0x20, 0x85, 0xa0, 0x1680, 0x2028, 0x2029, 0x202f, 0x205f,
    0x3000] ∨ 0x2000 ≤ c.toNat ∧ c.toNat ≤ 0x200a

/-- The clauses that score: a text query, or everything. -/
def mustClauses (req : SearchCardsRequest) : List Clause :=
  if req.query.toList.all isWhitespace then [.matchAll]
  else [.multiMatch req.query ["title^3", "description", "ref"] "best_fields" "AUTO"]

/-- A facet filter is only added when the caller provided values. -/
def facet (field : String) (values : List String) : List Clause :=
  if values = [] then [] else [.terms field values]

/-- The clauses that filter; every search is scoped to the caller's tenant. -/
def filterClauses (req : SearchCardsRequest) (tenantId : String) : List Clause :=
  .term "tenant_id" tenantId :: (facet "project_id" req.projectIds ++ facet "board_id" req.boardIds ++
    facet "labels" req.labelNames ++ facet "assignees" req.assigneeSubjects)

variable {ι V : Type}

/-- `build_query`: assemble the request body from the search parameters. -/
def buildQuery (json : Json V) (req : SearchCardsRequest) (tenantId : String) :
    Except ConnectError (SearchBody V) :=
  let body : SearchBody V :=
    { must := mustClauses req
      filter := filterClauses req tenantId
      size := searchLimit req.limit
      sort := [("_score", "desc"), ("id", "asc")]
      trackTotalHits := true
      searchAfter := none }
  if req.cursor = "" then .ok body
  else match decodeCursor json req.cursor with
    | .ok decoded => .ok { body with searchAfter := some decoded }
    | .error e => .error ⟨.invalidArgument, "invalid cursor: " ++ e⟩

/-! ## The handler -/

/-- Upper bound on the number of boards returned by the permission expand. -/
def maxBoardExpand : ℕ := 50000

/-- The canonical index name. -/
def kanbanCardsIndex : String := "sunbeam-kanban-cards-v1"

/-- The service: the database, `none` when its reads fail; the permission backend of a tenant, `none`
when no client can be built; and the search engine, which fails or finds no such index. -/
structure SearchServiceImpl (ι V : Type) where
  pool : Option (Boards ι)
  tenantClient : String → Option Permissions
  search : String → SearchBody V → Option (Option (SearchResponse V))
  indexName : Option String
  asF32 : ℚ → ℚ

section Handler

variable [DecidableEq ι] (codec : IdCodec ι) (json : Json V) (svc : SearchServiceImpl ι V)

/-- Filter a list of board ids down to those with public or internal visibility within the caller's
tenant. -/
def fetchPublicInternalBoardIds (boards : Boards ι) (tenantId : String) (boardIds : List ι) : List ι :=
  (boards.rows.filter fun b =>
    b.id ∈ boardIds ∧ b.tenantId = tenantId ∧ isPublicOrInternal b.visibility).map BoardRow.id

/-- The boards of the page that the caller may view. -/
def postFilter (permission : Permissions) (subject tenantId : String) (rawHits : List (SearchHit V)) :
    Except ConnectError (List String) := do
  let some allowedPrivateBoards :=
      permission.expandObjects "KanbanBoard" "view" subject maxBoardExpand
    | .error ⟨.internal, "permission expand failed during search post-filter"⟩
  let boardIds := (rawHits.filterMap fun h => codec.parse h.source.boardId).dedup
  let some boards := svc.pool
    | .error ⟨.internal, "failed to fetch board visibilities for search"⟩
  let publicInternalIds := fetchPublicInternalBoardIds boards tenantId boardIds
  .ok ((boardIds.filter (· ∈ publicInternalIds)).map codec.toString ++ allowedPrivateBoards)

/-- What the caller is shown of a hit. -/
def toCardSearchHit (hit : SearchHit V) : CardSearchHit where
  cardId := hit.source.id
  cardRef := hit.source.cardRef
  boardId := hit.source.boardId
  projectId := hit.source.projectId
  title := hit.source.title
  descriptionSnippet := String.ofList (hit.source.description.toList.take 256)
  priority := hit.source.priority
  status := if hit.source.completedAt.isSome then "completed" else "open"
  labelNames := hit.source.labels
  assigneeSubjects := hit.source.assignees
  score := svc.asF32 (hit.score.getD 0)

/-- The loop over the raw hits, with the sort key of the last hit that was kept. -/
def collectHits (allowedBoards : List String) :
    List (SearchHit V) → Option (List V) → List CardSearchHit → Option (List V) × List CardSearchHit
  | [], lastSort, hits => (lastSort, hits)
  | hit :: rawHits, lastSort, hits =>
      -- Drop cards in boards the caller cannot view.
      if hit.source.boardId ∈ allowedBoards then
        collectHits allowedBoards rawHits (hit.sort.or lastSort) (hits ++ [toCardSearchHit svc hit])
      else collectHits allowedBoards rawHits lastSort hits

/-- `search_cards`. -/
def searchCards (auth : Option AuthContext) (req : SearchCardsRequest) :
    Except ConnectError SearchCardsResponse := do
  let subject ← subjectFromRequest auth
  let tenantId ← tenantIdFromRequest auth
  let some permission := svc.tenantClient tenantId
    | .error ⟨.internal, "failed to build tenant permission client"⟩
  let limit := searchLimit req.limit
  let queryBody ← buildQuery json req tenantId
  let some searchResp := svc.search (svc.indexName.getD kanbanCardsIndex) queryBody
    | .error ⟨.internal, "opensearch search failed"⟩
  -- Missing index: defensive empty response.
  let some searchResp := searchResp | .ok ⟨[], "", 0⟩
  if searchResp.hits.isEmpty then .ok ⟨[], "", searchResp.total⟩
  else
    let allowedBoards ← postFilter codec svc permission subject tenantId searchResp.hits
    let (lastSort, hits) := collectHits svc allowedBoards searchResp.hits none []
    -- Emit a cursor only for a full page of authorized hits.
    let nextCursor := if limit ≤ hits.length then (lastSort.map (encodeCursor json)).getD "" else ""
    .ok ⟨hits, nextCursor, searchResp.total⟩

end Handler

end Kanban.Services
