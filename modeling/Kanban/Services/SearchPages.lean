import Kanban.Lib.PostFilter
import Kanban.Services.Search

/-!
# The pages of a search

What `search_cards` answers is told from the matches of the index: the next matches after the cursor,
less those on boards that the caller may not view.  The count of the matches, the filling of a page and
its cursor come from before the filter, so that pages end where a match was dropped, and the answers
tell of matches that are not shown.

## Main definitions

* `mayView` — the caller may view the board of a hit.
* `Index`, `Index.Answers` — what is indexed, and an engine that answers from it.
* `searchPage` — a search with its cursor open.
* `Contents`, `Engine` — the documents, and what an engine makes of them.
* `Alike` — two raw answers that look the same to the caller.
-/

namespace Kanban.Services

open Paging

variable {ι V : Type} [DecidableEq ι]

/-! ## What the handler answers -/

section Spec

variable (codec : IdCodec ι) (json : Json V) (svc : SearchServiceImpl ι V) (auth : Option AuthContext)

/-- The caller, the caller's tenant and the client of it. -/
def searcher : Option (String × String × Permissions) := do
  let subject ← auth.bind AuthContext.subject
  let tenantId ← auth.bind AuthContext.tenantId
  let permission ← svc.tenantClient tenantId
  some (subject, tenantId, permission)

/-- What the filter reads: the boards, and those that the caller has the relation to view. -/
def filterReads (permission : Permissions) (subject : String) : Option (Boards ι × List String) := do
  let allowedPrivateBoards ← permission.expandObjects "KanbanBoard" "view" subject maxBoardExpand
  let boards ← svc.pool
  some (boards, allowedPrivateBoards)

/-- A board is public or internal in the tenant, or the caller has the relation to view it. -/
def viewable (tenantId : String) (reads : Boards ι × List String) (boardId : String) : Bool :=
  (reads.1.rows.any fun b => codec.toString b.id = boardId ∧ b.tenantId = tenantId ∧
    isPublicOrInternal b.visibility) || decide (boardId ∈ reads.2)

/-- The caller may view a board. -/
def mayViewBoard (boardId : String) : Bool :=
  (searcher svc auth).any fun (subject, tenantId, permission) =>
    (filterReads svc permission subject).any fun reads => viewable codec tenantId reads boardId

/-- The caller may view the board of a hit. -/
def mayView (hit : SearchHit V) : Bool := mayViewBoard codec svc auth hit.source.boardId

/-- The answer made of the hits that were kept. -/
def pageOfHits (limit : ℕ) (total : ℤ) (shown : List (SearchHit V)) : SearchCardsResponse where
  hits := shown.map (toCardSearchHit svc)
  nextCursor := if limit ≤ shown.length then
    ((shown.filterMap SearchHit.sort).getLast?.map (encodeCursor json)).getD "" else ""
  total := total

variable {codec json svc auth} {subject tenantId : String} {permission : Permissions}

theorem postFilter_ok (codec : IdCodec ι) (tenantId : String) {reads : Boards ι × List String}
    {rawHits : List (SearchHit V)}
    (h : filterReads svc permission subject = some reads) :
    ∃ allowed, postFilter codec svc permission subject tenantId rawHits = .ok allowed ∧
      ∀ hit ∈ rawHits, hit.source.boardId ∈ allowed ↔ viewable codec tenantId reads hit.source.boardId := by
  obtain ⟨expanded, hexpand, boards, hpool, rfl⟩ : ∃ expanded,
      permission.expandObjects "KanbanBoard" "view" subject maxBoardExpand = some expanded ∧
      ∃ boards, svc.pool = some boards ∧ (boards, expanded) = reads := by
    simpa [filterReads, Option.bind_eq_some_iff] using h
  refine ⟨_, by simp only [postFilter, hexpand, hpool]; rfl, fun hit hhit => ?_⟩
  simp only [viewable, List.mem_append, Bool.or_eq_true, decide_eq_true_eq, List.any_eq_true]
  refine or_congr_left ⟨fun hmem => ?_, ?_⟩
  · obtain ⟨id, hid, htext⟩ := List.mem_map.mp hmem
    obtain ⟨-, hpublic⟩ := List.mem_filter.mp hid
    obtain ⟨b, hb, rfl⟩ := List.mem_map.mp (of_decide_eq_true hpublic)
    obtain ⟨hb, hshown⟩ := List.mem_filter.mp hb
    exact ⟨b, hb, htext, (of_decide_eq_true hshown).2⟩
  · rintro ⟨b, hb, htext, hshown⟩
    -- the id of the board is one of those that the page names
    have hid : b.id ∈ (rawHits.filterMap fun h => codec.parse h.source.boardId).dedup :=
      List.mem_dedup.mpr (List.mem_filterMap.mpr ⟨hit, hhit, htext ▸ codec.parse_toString b.id⟩)
    refine List.mem_map.mpr ⟨b.id, List.mem_filter.mpr ⟨hid, decide_eq_true ?_⟩, htext⟩
    exact List.mem_map.mpr ⟨b, List.mem_filter.mpr ⟨hb, decide_eq_true ⟨hid, hshown⟩⟩, rfl⟩

theorem postFilter_error (codec : IdCodec ι) (tenantId : String) (h : filterReads svc permission subject = none) :
    ∃ e, ∀ rawHits : List (SearchHit V),
      postFilter codec svc permission subject tenantId rawHits = .error e := by
  cases hexpand : permission.expandObjects "KanbanBoard" "view" subject maxBoardExpand with
  | none => exact ⟨_, fun rawHits => by simp only [postFilter, hexpand]; rfl⟩
  | some expanded =>
      have hpool : svc.pool = none := by
        cases hpool : svc.pool with
        | none => rfl
        | some boards =>
            rw [filterReads, hexpand, hpool] at h
            cases h
      exact ⟨_, fun rawHits => by simp only [postFilter, hexpand, hpool]; rfl⟩

omit [DecidableEq ι] in
/-- The loop keeps the hits on boards that are allowed, and the last sort key among them. -/
theorem collectHits_eq {allowed : List String} {rawHits : List (SearchHit V)} {lastSort : Option (List V)}
    {hits : List CardSearchHit} : collectHits svc allowed rawHits lastSort hits =
      ((((rawHits.filter fun h => h.source.boardId ∈ allowed).filterMap SearchHit.sort).getLast?).or lastSort,
        hits ++ (rawHits.filter fun h => h.source.boardId ∈ allowed).map (toCardSearchHit svc)) := by
  induction rawHits generalizing lastSort hits with
  | nil => simp [collectHits]
  | cons hit rawHits ih =>
      rw [collectHits]
      split
      · rename_i hin
        rw [ih, List.filter_cons_of_pos (by simpa using hin), List.map_cons, List.append_assoc,
          List.singleton_append]
        refine Prod.ext ?_ rfl
        cases hsort : hit.sort with
        | none => rw [List.filterMap_cons_none hsort, Option.none_or]
        | some sort =>
            rw [List.filterMap_cons_some hsort, List.getLast?_cons, Option.some_or]
            cases (List.filterMap SearchHit.sort _).getLast? <;> rfl
      · rename_i hout
        rw [ih, List.filter_cons_of_neg (by simpa using hout)]

variable {req : SearchCardsRequest} {body : SearchBody V} {resp : SearchResponse V}

omit [DecidableEq ι] in
theorem searcher_eq (h : searcher svc auth = some (subject, tenantId, permission)) :
    auth.bind AuthContext.subject = some subject ∧ auth.bind AuthContext.tenantId = some tenantId ∧
      svc.tenantClient tenantId = some permission := by
  obtain ⟨s, hs, t, ht, p, hp, heq⟩ : ∃ s, auth.bind AuthContext.subject = some s ∧
      ∃ t, auth.bind AuthContext.tenantId = some t ∧ ∃ p, svc.tenantClient t = some p ∧
      (s, t, p) = (subject, tenantId, permission) := by
    simpa [searcher, Option.bind_eq_some_iff] using h
  simp only [Prod.mk.injEq] at heq
  obtain ⟨rfl, rfl, rfl⟩ := heq
  exact ⟨hs, ht, hp⟩

/-- The answer is made of the raw hits that pass the filter. -/
theorem searchCards_eq (h : searcher svc auth = some (subject, tenantId, permission))
    (hbody : buildQuery json req tenantId = .ok body)
    (hsearch : svc.search (svc.indexName.getD kanbanCardsIndex) body = some (some resp)) :
    searchCards codec json svc auth req = if resp.hits.isEmpty then .ok ⟨[], "", resp.total⟩ else
      (postFilter codec svc permission subject tenantId resp.hits).map fun allowed =>
        pageOfHits json svc (searchLimit req.limit) resp.total
          (resp.hits.filter fun hit => hit.source.boardId ∈ allowed) := by
  obtain ⟨hs, ht, hp⟩ := searcher_eq h
  unfold searchCards
  simp only [subjectFromRequest, tenantIdFromRequest, hs, ht, hp, bind, Except.bind, hbody, hsearch]
  split
  · rfl
  · cases postFilter codec svc permission subject tenantId resp.hits with
    | error e => rfl
    | ok allowed =>
        simp only [collectHits_eq, Except.map, List.nil_append, Option.or_none, pageOfHits, List.length_map]

/-- With the filter's reads, the hits on boards that the caller may view are shown. -/
theorem searchCards_filtered (h : searcher svc auth = some (subject, tenantId, permission))
    (hbody : buildQuery json req tenantId = .ok body)
    (hsearch : svc.search (svc.indexName.getD kanbanCardsIndex) body = some (some resp))
    (hreads : resp.hits = [] ∨ (filterReads svc permission subject).isSome) :
    searchCards codec json svc auth req = .ok (pageOfHits json svc (searchLimit req.limit) resp.total
      (resp.hits.filter (mayView codec svc auth))) := by
  rw [searchCards_eq h hbody hsearch]
  by_cases hnil : resp.hits = []
  · have hlimit := searchLimit_pos req.limit
    rw [hnil, List.isEmpty_nil, if_pos rfl, List.filter_nil, pageOfHits, List.length_nil,
      if_neg (by omega), List.map_nil]
  · obtain ⟨reads, hread⟩ := Option.isSome_iff_exists.mp (hreads.resolve_left hnil)
    obtain ⟨allowed, hallowed, hmem⟩ := postFilter_ok codec tenantId hread
    rw [if_neg (by simpa using hnil), hallowed, Except.map]
    refine congrArg (Except.ok ∘ pageOfHits json svc _ _) (List.filter_congr fun hit hhit => ?_)
    rw [Bool.eq_iff_iff, decide_eq_true_eq, hmem hit hhit]
    simp only [mayView, mayViewBoard, h, hread, Option.any_some]

/-- Without them, only an empty page is answered. -/
theorem searchCards_unread (codec : IdCodec ι) (json : Json V)
    (h : searcher svc auth = some (subject, tenantId, permission))
    (hreads : filterReads svc permission subject = none) :
    ∃ e, ∀ (svc' : SearchServiceImpl ι V) req body resp, svc'.pool = svc.pool →
      svc'.tenantClient = svc.tenantClient → buildQuery json req tenantId = .ok body →
      svc'.search (svc'.indexName.getD kanbanCardsIndex) body = some (some resp) →
      searchCards codec json svc' auth req =
        if resp.hits = [] then .ok ⟨[], "", resp.total⟩ else .error e := by
  obtain ⟨e, he⟩ := postFilter_error codec tenantId hreads
  refine ⟨e, fun svc' req body resp hpool hclient hbody hsearch => ?_⟩
  have h' : searcher svc' auth = some (subject, tenantId, permission) := by
    rw [← h]
    simp only [searcher, hclient]
  have he' : postFilter codec svc' permission subject tenantId resp.hits = .error e := by
    rw [← he resp.hits]
    simp only [postFilter, hpool]
  rw [searchCards_eq h' hbody hsearch, he']
  simp only [List.isEmpty_iff, Except.map]

end Spec

/-! ## The engine -/

/-- What is indexed, as it is searched: for the clauses of a query, the matches in the order of their
sort keys. -/
structure Index (V : Type) where
  hits : List Clause → List Clause → List (SearchHit V)

/-- The order of the sort keys: which values the engine takes for `search_after`, and the keys that come
after one. -/
structure SortOrder (V : Type) where
  accepts : V → Bool
  after : V → List V → Bool

/-- All matches are counted; the page holds the next ones after `search_after`. -/
def Index.answer (order : SortOrder V) (ix : Index V) (body : SearchBody V) : SearchResponse V where
  total := (ix.hits body.must body.filter).length
  hits := ((ix.hits body.must body.filter).filter fun hit =>
    body.searchAfter.all fun v => hit.sort.any (order.after v)).take body.size

/-- An engine that answers from the index. -/
def Index.Answers (order : SortOrder V) (ix : Index V)
    (search : SearchBody V → Option (Option (SearchResponse V))) : Prop :=
  ∀ body, search body =
    if body.searchAfter.all order.accepts then some (some (ix.answer order body)) else none

/-- A strict order of the sort keys, in which the matches are sorted. -/
structure Index.Sorted (json : Json V) (order : SortOrder V) (ix : Index V) : Prop where
  accepts : ∀ key, order.accepts (json.array key) = true
  irrefl : ∀ key, order.after (json.array key) key = false
  asymm : ∀ key key', order.after (json.array key) key' = true → order.after (json.array key') key = false
  keyed : ∀ must filter, ∀ hit ∈ ix.hits must filter, hit.sort.isSome
  sorted : ∀ must filter, (ix.hits must filter).Pairwise fun hit hit' =>
    ∀ key ∈ hit.sort, ∀ key' ∈ hit'.sort, order.after (json.array key) key' = true

/-! ## Pages -/

section Pages

/-- The matches of a query in the tenant. -/
def Index.matchesOf (ix : Index V) (req : SearchCardsRequest) (tenantId : String) : List (SearchHit V) :=
  ix.hits (mustClauses req) (filterClauses req tenantId)

/-- The cursor of a hit. -/
def hitCursor (json : Json V) (hit : SearchHit V) : String := encodeCursor json (hit.sort.getD [])

/-- A hit comes after another one. -/
def hitLater (json : Json V) (order : SortOrder V) (hit hit' : SearchHit V) : Bool :=
  hit'.sort.any (order.after (json.array (hit.sort.getD [])))

/-- `SearchCards` with the cursor open. -/
def searchPage (codec : IdCodec ι) (json : Json V) (svc : SearchServiceImpl ι V) (auth : Option AuthContext)
    (req : SearchCardsRequest) (cursor : String) (r : SearchCardsResponse) : Prop :=
  searchCards codec json svc auth { req with cursor := cursor } = .ok r

/-- Following the cursor to its end shows every match on a board that the caller may view, once, and no
other match. -/
def PagesComplete (codec : IdCodec ι) (json : Json V) (svc : SearchServiceImpl ι V)
    (auth : Option AuthContext) (req : SearchCardsRequest) (hits : List (SearchHit V)) : Prop :=
  (∃ rs r, Listing (searchPage codec json svc auth req) SearchCardsResponse.nextCursor (rs ++ [r]) ∧
    r.nextCursor = "") ∧
  ∀ rs r, Listing (searchPage codec json svc auth req) SearchCardsResponse.nextCursor (rs ++ [r]) →
    r.nextCursor = "" → ((rs ++ [r]).flatMap SearchCardsResponse.hits).Perm
      ((hits.filter (mayView codec svc auth)).map (toCardSearchHit svc))

variable {codec : IdCodec ι} {json : Json V} {svc : SearchServiceImpl ι V} {auth : Option AuthContext}
  {subject tenantId : String} {permission : Permissions} {order : SortOrder V} {ix : Index V}
  {req : SearchCardsRequest}

omit [DecidableEq ι] in
/-- The engine is asked for what remains. -/
theorem exists_body (hjson : json.Lawful)
    (hix : ix.Answers order (svc.search (svc.indexName.getD kanbanCardsIndex))) (hsorted : ix.Sorted json order)
    {cursor : String} {rest : List (SearchHit V)}
    (hrest : Remaining (hitCursor json) (hitLater json order) (ix.matchesOf req tenantId) cursor rest) :
    ∃ body, buildQuery json { req with cursor := cursor } tenantId = .ok body ∧
      svc.search (svc.indexName.getD kanbanCardsIndex) body =
        some (some ⟨(ix.matchesOf req tenantId).length, rest.take (searchLimit req.limit)⟩) := by
  cases hrest with
  | first =>
      refine ⟨_, by rw [buildQuery, if_pos rfl], ?_⟩
      rw [hix, if_pos (by rfl)]
      simp only [Index.answer, Option.all_none, List.filter_true]
      rfl
  | @after hit hhit =>
      have hbody : buildQuery json { req with cursor := hitCursor json hit } tenantId = .ok
          { must := mustClauses req
            filter := filterClauses req tenantId
            size := searchLimit req.limit
            sort := [("_score", "desc"), ("id", "asc")]
            trackTotalHits := true
            searchAfter := some (json.array (hit.sort.getD [])) } := by
        unfold buildQuery hitCursor
        rw [if_neg (encodeCursor_ne hjson _), decodeCursor_encode hjson]
        rfl
      refine ⟨_, hbody, ?_⟩
      rw [hix, if_pos (by simpa using hsorted.accepts _)]
      rfl

/-- A page shows what is kept of the matches that remain. -/
theorem searchPage_eq (hjson : json.Lawful) (h : searcher svc auth = some (subject, tenantId, permission))
    (hix : ix.Answers order (svc.search (svc.indexName.getD kanbanCardsIndex))) (hsorted : ix.Sorted json order)
    {cursor : String} {rest : List (SearchHit V)}
    (hrest : Remaining (hitCursor json) (hitLater json order) (ix.matchesOf req tenantId) cursor rest)
    (hreads : rest = [] ∨ (filterReads svc permission subject).isSome) :
    searchCards codec json svc auth { req with cursor := cursor } = .ok (pageOfHits json svc
      (searchLimit req.limit) (ix.matchesOf req tenantId).length
      (kept (mayView codec svc auth) (searchLimit req.limit) rest)) := by
  obtain ⟨body, hbody, hsearch⟩ := exists_body hjson hix hsorted hrest
  refine searchCards_filtered h hbody hsearch (hreads.imp_left ?_)
  rintro rfl
  exact List.take_nil

theorem serves_searchPage (hjson : json.Lawful)
    (h : searcher svc auth = some (subject, tenantId, permission))
    (hix : ix.Answers order (svc.search (svc.indexName.getD kanbanCardsIndex))) (hsorted : ix.Sorted json order)
    (hreads : ix.matchesOf req tenantId = [] ∨ (filterReads svc permission subject).isSome)
    {cursor : String} {rest : List (SearchHit V)}
    (hrest : Remaining (hitCursor json) (hitLater json order) (ix.matchesOf req tenantId) cursor rest) :
    ∃ r, searchPage codec json svc auth req cursor r ∧ Screens (hitCursor json) (mayView codec svc auth)
      (toCardSearchHit svc) (searchLimit req.limit) SearchCardsResponse.hits SearchCardsResponse.nextCursor
      rest r := by
  have hsub : ∀ hit ∈ rest, hit ∈ ix.matchesOf req tenantId := fun hit hhit => hrest.sub hhit
  refine ⟨_, searchPage_eq hjson h hix hsorted hrest (hreads.imp_left fun hnil => ?_), rfl, ?_⟩
  · rw [hnil] at hsub
    exact List.eq_nil_iff_forall_not_mem.mpr fun hit hhit => by cases hsub hit hhit
  · -- every match has a sort key
    have hkeyed : ∀ l : List (SearchHit V), (∀ hit ∈ l, hit.sort.isSome) →
        l.filterMap SearchHit.sort = l.map fun hit => hit.sort.getD [] := by
      intro l hl
      rw [← List.filterMap_eq_map]
      refine List.filterMap_congr fun hit hhit => ?_
      obtain ⟨key, hkey⟩ := Option.isSome_iff_exists.mp (hl hit hhit)
      rw [Function.comp_apply, hkey, Option.getD_some]
    have hall : ∀ hit ∈ kept (mayView codec svc auth) (searchLimit req.limit) rest, hit.sort.isSome :=
      fun hit hhit => hsorted.keyed _ _ hit (hsub hit (List.mem_of_mem_take (List.mem_filter.mp hhit).1))
    simp only [pageOfHits, hkeyed _ hall, List.getLast?_map, Option.map_map]
    rfl

omit [DecidableEq ι] in
theorem hitLater_irrefl (hsorted : ix.Sorted json order) (hit : SearchHit V) :
    hitLater json order hit hit = false := by
  unfold hitLater
  cases hit.sort with
  | none => rfl
  | some key => exact hsorted.irrefl key

omit [DecidableEq ι] in
theorem hitLater_asymm (hsorted : ix.Sorted json order) (hit hit' : SearchHit V)
    (h : hitLater json order hit hit' = true) : hitLater json order hit' hit = false := by
  unfold hitLater at h ⊢
  cases hkey : hit.sort with
  | none => rfl
  | some key =>
      cases hkey' : hit'.sort with
      | none =>
          rw [hkey'] at h
          cases h
      | some key' =>
          rw [hkey, hkey'] at h
          exact hsorted.asymm key key' h

/-- **The pages of a search.**  They are complete exactly if nothing matches, or the filter's reads
succeed and wherever a page of the matches ends, the caller may view all that comes before or nothing
that comes after. -/
theorem search_pages_complete_iff (hjson : json.Lawful)
    (h : searcher svc auth = some (subject, tenantId, permission))
    (hix : ix.Answers order (svc.search (svc.indexName.getD kanbanCardsIndex)))
    (hsorted : ix.Sorted json order) :
    PagesComplete codec json svc auth req (ix.matchesOf req tenantId) ↔
      ix.matchesOf req tenantId = [] ∨ (filterReads svc permission subject).isSome ∧
        Screened (mayView codec svc auth) (searchLimit req.limit) (ix.matchesOf req tenantId) := by
  by_cases hreads : ix.matchesOf req tenantId = [] ∨ (filterReads svc permission subject).isSome
  · have hanswer := fun cursor rest => @serves_searchPage ι V _ codec json svc auth subject tenantId permission
      order ix req hjson h hix hsorted hreads cursor rest
    have hserve : ∀ cursor rest r, Remaining (hitCursor json) (hitLater json order)
        (ix.matchesOf req tenantId) cursor rest → searchPage codec json svc auth req cursor r →
        Screens (hitCursor json) (mayView codec svc auth) (toCardSearchHit svc) (searchLimit req.limit)
          SearchCardsResponse.hits SearchCardsResponse.nextCursor rest r := by
      intro cursor rest r hrest hr
      obtain ⟨r', hr', hscreens⟩ := hanswer cursor rest hrest
      obtain rfl := Except.ok.inj (hr.symm.trans hr')
      exact hscreens
    have hlater : (ix.matchesOf req tenantId).Pairwise fun hit hit' => hitLater json order hit hit' = true := by
      refine (hsorted.sorted _ _).imp_of_mem fun {hit hit'} hhit hhit' hkeys => ?_
      obtain ⟨key, hkey⟩ := Option.isSome_iff_exists.mp (hsorted.keyed _ _ hit hhit)
      obtain ⟨key', hkey'⟩ := Option.isSome_iff_exists.mp (hsorted.keyed _ _ hit' hhit')
      simpa [hitLater, hkey, hkey'] using hkeys key hkey key' hkey'
    have hsplit := splitsAt_of_sorted (hitLater_irrefl hsorted) (hitLater_asymm hsorted) hlater
    obtain ⟨hexists, hiff⟩ := screened_iff hserve hsplit (searchLimit_pos req.limit)
      (fun hit _ => encodeCursor_ne hjson _) fun cursor rest hrest =>
        (hanswer cursor rest hrest).imp fun r hr => hr.1
    refine ⟨fun hcomplete => ?_, fun hcond => ⟨hexists, hiff.mpr ?_⟩⟩
    · exact hreads.imp_right fun hread => ⟨hread, hiff.mp hcomplete.2⟩
    · rcases hcond with hnil | ⟨-, hscreened⟩
      · intro pre post hcut _
        rw [hnil] at hcut
        rw [(List.append_eq_nil_iff.mp hcut.symm).1]
        exact .inl (List.forall_mem_nil _)
      · exact hscreened
  · -- the first page is refused
    obtain ⟨hne, hnone⟩ := not_or.mp hreads
    refine iff_of_false ?_ fun hcond => hreads (hcond.imp_right And.left)
    rintro ⟨⟨rs, r, hlist, -⟩, -⟩
    obtain ⟨r, hr⟩ := hlist.exists_first
    have hfirst : Remaining (hitCursor json) (hitLater json order) (ix.matchesOf req tenantId) "" _ := .first
    obtain ⟨body, hbody, hsearch⟩ := exists_body hjson hix hsorted hfirst
    obtain ⟨e, he⟩ := searchCards_unread codec json h (by simpa using hnone)
    have hpage := he svc _ body _ rfl rfl hbody hsearch
    rw [if_neg ?_] at hpage
    · cases hr.symm.trans hpage
    · rw [List.take_eq_nil_iff, not_or]
      exact ⟨Nat.ne_of_gt (searchLimit_pos _), hne⟩

end Pages

/-! ## A small index -/

/-- Equal scores, and the order of the ids. -/
def keyOrder : SortOrder (List UInt8) where
  accepts _ := true
  after v key := v < jsonText.array key

/-- A card of the tenant `t` whose id is one character. -/
def cardDocument (id : Char) (title boardId : String) : CardDocument :=
  ⟨id.toString, "t", boardId, "p", id.toString, title, "", "medium", [], [], none⟩

/-- A hit with the score `1.0`. -/
def hitOf (doc : CardDocument) : SearchHit (List UInt8) :=
  ⟨some 1, doc, some [asBytes "1.0", asBytes ("\"" ++ doc.id ++ "\"")]⟩

def indexedCard (id : Char) (title boardId : String) : SearchHit (List UInt8) :=
  hitOf (cardDocument id title boardId)

/-- The cards that match any query of the tenant `t`. -/
def indexOf (cards : List (SearchHit (List UInt8))) : Index (List UInt8) where
  hits _ filter := if filter = [.term "tenant_id" "t"] then cards else []

/-- The permission backend of a tenant in which nothing is granted. -/
def nothingGranted : Permissions := ⟨fun _ => some false, fun _ _ _ => some []⟩

/-- A public board `b` and a private board `x`, and an engine for the cards. -/
def searchOver (cards : List (SearchHit (List UInt8))) : SearchServiceImpl String (List UInt8) where
  pool := some ⟨[⟨"b", "t", "p", "Board", none, "public", 0⟩, ⟨"x", "t", "p", "Plans", none, "private", 0⟩],
    by decide⟩
  tenantClient _ := some nothingGranted
  search _ body := some (some ((indexOf cards).answer keyOrder body))
  indexName := none
  asF32 score := score

theorem searchOver_answers {cards : List (SearchHit (List UInt8))} {index : String} :
    (indexOf cards).Answers keyOrder ((searchOver cards).search index) := by
  intro body
  rw [if_pos]
  · rfl
  · cases body.searchAfter <;> rfl

/-- A member without a relation to any board. -/
def member : Option AuthContext := some ⟨some "t", some "user:ann"⟩

/-- A search for everything. -/
def searchAll (limit : ℤ) : SearchCardsRequest := ⟨"", [], [], [], [], limit, ""⟩

theorem indexOf_sorted {cards : List (SearchHit (List UInt8))} (hkeyed : ∀ hit ∈ cards, hit.sort.isSome)
    (hsorted : cards.Pairwise fun hit hit' =>
      ∀ key ∈ hit.sort, ∀ key' ∈ hit'.sort, keyOrder.after (jsonText.array key) key' = true) :
    (indexOf cards).Sorted jsonText keyOrder where
  accepts _ := rfl
  irrefl _ := decide_eq_false (List.lt_irrefl _)
  asymm _ _ h := decide_eq_false (List.lt_asymm (of_decide_eq_true h))
  keyed must filter := by
    dsimp only [indexOf]
    split
    · exact hkeyed
    · exact List.forall_mem_nil _
  sorted must filter := by
    dsimp only [indexOf]
    split
    · exact hsorted
    · exact .nil

/-- Three cards on the public board, in pages of two. -/
theorem search_pages_complete_iff_three :
    PagesComplete BoardStream.plainIds jsonText
      (searchOver [indexedCard 'a' "One" "b", indexedCard 'c' "Two" "b", indexedCard 'd' "Three" "b"])
      member (searchAll 2) [indexedCard 'a' "One" "b", indexedCard 'c' "Two" "b",
        indexedCard 'd' "Three" "b"] := by
  have hsorted : (indexOf [indexedCard 'a' "One" "b", indexedCard 'c' "Two" "b",
      indexedCard 'd' "Three" "b"]).Sorted jsonText keyOrder := indexOf_sorted (by decide) (by decide)
  have hsearcher : searcher (searchOver [indexedCard 'a' "One" "b", indexedCard 'c' "Two" "b",
      indexedCard 'd' "Three" "b"]) member = some ("user:ann", "t", nothingGranted) := rfl
  refine (search_pages_complete_iff jsonText_lawful hsearcher searchOver_answers
    hsorted).mpr (.inr ⟨rfl, fun pre post hcut _ => .inl fun hit hhit => ?_⟩)
  have hall : ∀ hit ∈ [indexedCard 'a' "One" "b", indexedCard 'c' "Two" "b", indexedCard 'd' "Three" "b"],
      mayView BoardStream.plainIds (searchOver [indexedCard 'a' "One" "b", indexedCard 'c' "Two" "b",
        indexedCard 'd' "Three" "b"]) member hit = true := by
    decide
  have hmem : hit ∈ pre ++ post := List.mem_append_left _ hhit
  rw [← hcut] at hmem
  exact hall hit hmem

/-- A hidden card fills the first page, which ends the search before the card that may be seen. -/
theorem search_ends_before_visible : ∃ r,
    Listing (searchPage BoardStream.plainIds jsonText
      (searchOver [indexedCard 'a' "Secret" "x", indexedCard 'c' "Two" "b"]) member (searchAll 1))
      SearchCardsResponse.nextCursor [r] ∧ r.nextCursor = "" ∧ r.hits = [] ∧
    ¬ PagesComplete BoardStream.plainIds jsonText
      (searchOver [indexedCard 'a' "Secret" "x", indexedCard 'c' "Two" "b"]) member (searchAll 1)
      [indexedCard 'a' "Secret" "x", indexedCard 'c' "Two" "b"] := by
  have hpage : Listing (searchPage BoardStream.plainIds jsonText
      (searchOver [indexedCard 'a' "Secret" "x", indexedCard 'c' "Two" "b"]) member (searchAll 1))
      SearchCardsResponse.nextCursor ([] ++ [⟨[], "", 2⟩]) := .first rfl
  refine ⟨_, hpage, rfl, rfl, fun hcomplete => ?_⟩
  have hlen := (hcomplete.2 _ _ hpage rfl).length_eq
  revert hlen
  decide

/-! ## What the answers tell -/

/-- What is indexed: a document for each card, under the card's id. -/
structure Contents where
  docs : List CardDocument
  keyed : (docs.map CardDocument.id).Nodup

/-- What a search engine makes of the contents.  Which documents match a query, their scores, their order
and their sort keys may depend on everything that is indexed; a hit shows a document as it is indexed. -/
structure Engine (V : Type) where
  order : SortOrder V
  index : Contents → Index V
  found : ∀ c must filter, ∀ hit ∈ (index c).hits must filter, hit.source ∈ c.docs

/-- The service with an engine over the contents. -/
def SearchServiceImpl.over (svc : SearchServiceImpl ι V) (engine : Engine V) (c : Contents) :
    SearchServiceImpl ι V :=
  { svc with
    search := fun _ body =>
      if body.searchAfter.all engine.order.accepts then
        some (some ((engine.index c).answer engine.order body))
      else none }

section Revealed

/-- Two hits show the same card with the same score. -/
def SameHit (asF32 : ℚ → ℚ) (hit hit' : SearchHit V) : Prop :=
  hit.source.id = hit'.source.id ∧ asF32 (hit.score.getD 0) = asF32 (hit'.score.getD 0)

/-- The sort key that the cursor of a full page is made of, as it is written. -/
def lastKey (json : Json V) (limit : ℕ) (shown : List (SearchHit V)) : Option (List UInt8) :=
  if limit ≤ shown.length then (shown.filterMap SearchHit.sort).getLast?.bind json.toVec else none

/-- Two raw answers that look the same to the caller: there are as many matches, and the page has the same
cards that the caller may view, in the same order and with the same scores, and the same sort key at the
end if these fill it; or, if the filter cannot be read, it is needed for both pages or for none. -/
def Alike (json : Json V) (asF32 : ℚ → ℚ) (limit : ℕ) (filtered : Bool) (vis : SearchHit V → Bool)
    (resp resp' : SearchResponse V) : Prop :=
  if filtered then
    resp.total = resp'.total ∧
      List.Forall₂ (SameHit asF32) (resp.hits.filter vis) (resp'.hits.filter vis) ∧
      lastKey json limit (resp.hits.filter vis) = lastKey json limit (resp'.hits.filter vis)
  else resp.hits ≠ [] ∧ resp'.hits ≠ [] ∨ resp.hits = [] ∧ resp'.hits = [] ∧ resp.total = resp'.total

variable {codec : IdCodec ι} {json : Json V} {svc : SearchServiceImpl ι V} {auth : Option AuthContext}
  {subject tenantId : String} {permission : Permissions} {engine : Engine V} {c c' : Contents}
  {req : SearchCardsRequest} {body : SearchBody V} {resp resp' : SearchResponse V}

omit [DecidableEq ι] in
/-- The page names the last key. -/
theorem nextCursor_eq (limit : ℕ) (total : ℤ) (shown : List (SearchHit V)) (hjson : json.Lawful) :
    (pageOfHits json svc limit total shown).nextCursor =
      ((lastKey json limit shown).map fun key => String.ofList (base64Encode key)).getD "" := by
  unfold pageOfHits lastKey
  dsimp only
  split
  · cases (shown.filterMap SearchHit.sort).getLast? with
    | none => rfl
    | some key =>
        obtain ⟨bytes, hbytes, -⟩ := hjson.fromSlice_toVec key
        simp [encodeCursor, hbytes]
  · rfl

/-- A cursor tells its key. -/
theorem base64Text_injective :
    Function.Injective fun bytes : List UInt8 => String.ofList (base64Encode bytes) := by
  intro bytes bytes' heq
  have hdecode := @base64Decode_encode 0 bytes
  rw [String.ofList_injective heq, base64Decode_encode] at hdecode
  exact (Except.ok.inj hdecode).symm

omit [DecidableEq ι] in
theorem lastKey_ne (hjson : json.Lawful) (limit : ℕ) (shown : List (SearchHit V)) :
    lastKey json limit shown ≠ some [] := by
  unfold lastKey
  split
  · cases (shown.filterMap SearchHit.sort).getLast? with
    | none => nofun
    | some key =>
        obtain ⟨bytes, hbytes, hread⟩ := hjson.fromSlice_toVec key
        rw [Option.bind_some, hbytes]
        rintro ⟨⟩
        exact hjson.fromSlice_nil _ hread
  · nofun

omit [DecidableEq ι] in
/-- **A page is told by its matches, its cards and its last key.** -/
theorem pageOfHits_eq_iff (hjson : json.Lawful) {limit : ℕ} {total total' : ℤ}
    {shown shown' : List (SearchHit V)} (hsource : ∀ hit ∈ shown, ∀ hit' ∈ shown',
      hit.source.id = hit'.source.id → hit.source = hit'.source) :
    pageOfHits json svc limit total shown = pageOfHits json svc limit total' shown' ↔
      total = total' ∧ List.Forall₂ (SameHit svc.asF32) shown shown' ∧
        lastKey json limit shown = lastKey json limit shown' := by
  have hcards : shown.map (toCardSearchHit svc) = shown'.map (toCardSearchHit svc) ↔
      List.Forall₂ (SameHit svc.asF32) shown shown' := by
    rw [← List.forall₂_eq_eq_eq, List.forall₂_map_left_iff, List.forall₂_map_right_iff,
      List.forall₂_iff_zip, List.forall₂_iff_zip]
    refine and_congr_right fun _ => forall_congr' fun hit => forall₂_congr fun hit' hzip => ?_
    obtain ⟨hhit, hhit'⟩ := List.of_mem_zip hzip
    constructor
    · intro heq
      exact ⟨congrArg CardSearchHit.cardId heq, congrArg CardSearchHit.score heq⟩
    · rintro ⟨hid, hscore⟩
      simp only [toCardSearchHit, hsource hit hhit hit' hhit' hid, hscore]
  have hcursor : (pageOfHits json svc limit total shown).nextCursor =
      (pageOfHits json svc limit total' shown').nextCursor ↔
        lastKey json limit shown = lastKey json limit shown' := by
    rw [nextCursor_eq limit total shown hjson, nextCursor_eq limit total' shown' hjson]
    refine ⟨fun heq => ?_, fun heq => by rw [heq]⟩
    -- without a key the cursor is that of no bytes
    have hgetD : ∀ key : Option (List UInt8),
        (key.map fun key => String.ofList (base64Encode key)).getD "" =
          String.ofList (base64Encode (key.getD [])) := by
      rintro (_ | key) <;> rfl
    rw [hgetD, hgetD] at heq
    have heq := base64Text_injective heq
    have hne := lastKey_ne hjson limit shown
    have hne' := lastKey_ne hjson limit shown'
    cases hkey : lastKey json limit shown <;> cases hkey' : lastKey json limit shown' <;>
      simp_all
  rw [← hcards, ← hcursor]
  constructor
  · intro heq
    exact ⟨congrArg SearchCardsResponse.total heq, congrArg SearchCardsResponse.hits heq,
      congrArg SearchCardsResponse.nextCursor heq⟩
  · rintro ⟨rfl, hhits, hnext⟩
    exact congrArg₂ (fun hits next => SearchCardsResponse.mk hits next total) hhits hnext

/-- A request that is refused before the search tells nothing of the contents. -/
theorem searchCards_refused (h : ∀ subject tenantId permission body,
      searcher svc auth = some (subject, tenantId, permission) → buildQuery json req tenantId = .ok body →
      body.searchAfter.all engine.order.accepts = false) :
    searchCards codec json (svc.over engine c) auth req =
      searchCards codec json (svc.over engine c') auth req := by
  unfold searchCards subjectFromRequest tenantIdFromRequest SearchServiceImpl.over
  cases hs : auth.bind AuthContext.subject with
  | none => rfl
  | some subject =>
      cases ht : auth.bind AuthContext.tenantId with
      | none => rfl
      | some tenantId =>
          simp only [bind, Except.bind]
          cases hp : svc.tenantClient tenantId with
          | none => rfl
          | some permission =>
              have hsearcher : searcher svc auth = some (subject, tenantId, permission) := by
                rw [searcher, hs, ht]
                simp [hp]
              dsimp only
              cases hbody : buildQuery json req tenantId with
              | error e => rfl
              | ok body =>
                  dsimp only
                  rw [h _ _ _ _ hsearcher hbody]
                  rfl

omit [DecidableEq ι] in
/-- Hits that the caller may view show the same document if they show one card. -/
theorem source_eq (hsame : ∀ doc : CardDocument, mayViewBoard codec svc auth doc.boardId = true →
      (doc ∈ c.docs ↔ doc ∈ c'.docs)) {must filter : List Clause}
    {hit hit' : SearchHit V} (hhit : hit ∈ (engine.index c).hits must filter)
    (hhit' : hit' ∈ (engine.index c').hits must filter) (hvis : mayView codec svc auth hit = true)
    (hid : hit.source.id = hit'.source.id) : hit.source = hit'.source :=
  List.inj_on_of_nodup_map c'.keyed ((hsame _ hvis).mp (engine.found c _ _ _ hhit))
    (engine.found c' _ _ _ hhit') hid

omit [DecidableEq ι] in
theorem mem_of_mem_answer {order : SortOrder V} {ix : Index V} {hit : SearchHit V}
    (h : hit ∈ (ix.answer order body).hits) : hit ∈ ix.hits body.must body.filter :=
  List.mem_of_mem_filter (List.mem_of_mem_take h)

/-- Two searches are answered alike exactly if the raw answers look the same. -/
theorem searchCards_alike (hjson : json.Lawful)
    (hsame : ∀ doc : CardDocument, mayViewBoard codec svc auth doc.boardId = true →
      (doc ∈ c.docs ↔ doc ∈ c'.docs))
    (h : searcher svc auth = some (subject, tenantId, permission))
    (hbody : buildQuery json req tenantId = .ok body)
    (haccepts : body.searchAfter.all engine.order.accepts = true) :
    searchCards codec json (svc.over engine c) auth req =
        searchCards codec json (svc.over engine c') auth req ↔
      Alike json svc.asF32 (searchLimit req.limit) (filterReads svc permission subject).isSome
        (mayView codec svc auth) ((engine.index c).answer engine.order body)
        ((engine.index c').answer engine.order body) := by
  have h' : ∀ c, searcher (svc.over engine c) auth = some (subject, tenantId, permission) := fun _ => h
  have hsearch : ∀ c, (svc.over engine c).search (svc.indexName.getD kanbanCardsIndex) body =
      some (some ((engine.index c).answer engine.order body)) := fun _ => if_pos haccepts
  cases hreads : (filterReads svc permission subject).isSome with
  | true =>
      rw [searchCards_filtered (h' c) hbody (hsearch c) (.inr hreads),
        searchCards_filtered (h' c') hbody (hsearch c') (.inr hreads), Except.ok.injEq]
      refine pageOfHits_eq_iff hjson fun hit hhit hit' hhit' => ?_
      obtain ⟨hhit, hvis⟩ := List.mem_filter.mp hhit
      exact source_eq hsame (mem_of_mem_answer hhit) (mem_of_mem_answer (List.mem_filter.mp hhit').1) hvis
  | false =>
      obtain ⟨e, he⟩ := searchCards_unread codec json h (by simpa using hreads)
      rw [he (svc.over engine c) req body _ rfl rfl hbody (hsearch c),
        he (svc.over engine c') req body _ rfl rfl hbody (hsearch c'), Alike]
      by_cases hnil : ((engine.index c).answer engine.order body).hits = [] <;>
        by_cases hnil' : ((engine.index c').answer engine.order body).hits = [] <;> simp [hnil, hnil']

/-- **What two contents tell apart**, if they hold the same documents of the boards that the caller may
view: all answers to the requests are equal exactly if, for each request that comes to the search, the
raw answers look the same. -/
theorem search_reveals_nothing_iff {reqs : List SearchCardsRequest} (hjson : json.Lawful)
    (hsame : ∀ doc : CardDocument, mayViewBoard codec svc auth doc.boardId = true →
      (doc ∈ c.docs ↔ doc ∈ c'.docs)) :
    reqs.map (searchCards codec json (svc.over engine c) auth) =
        reqs.map (searchCards codec json (svc.over engine c') auth) ↔
      ∀ req ∈ reqs, ∀ subject tenantId permission body,
        searcher svc auth = some (subject, tenantId, permission) → buildQuery json req tenantId = .ok body →
        body.searchAfter.all engine.order.accepts = true →
        Alike json svc.asF32 (searchLimit req.limit) (filterReads svc permission subject).isSome
          (mayView codec svc auth) ((engine.index c).answer engine.order body)
          ((engine.index c').answer engine.order body) := by
  rw [List.map_inj_left]
  refine forall₂_congr fun req _ => ?_
  by_cases hcomes : ∃ subject tenantId permission body,
      searcher svc auth = some (subject, tenantId, permission) ∧
        buildQuery json req tenantId = .ok body ∧ body.searchAfter.all engine.order.accepts = true
  · obtain ⟨subject, tenantId, permission, body, h, hbody, haccepts⟩ := hcomes
    rw [searchCards_alike hjson hsame h hbody haccepts]
    refine ⟨fun halike s t p b h' hb _ => ?_, fun hall => hall _ _ _ _ h hbody haccepts⟩
    obtain ⟨rfl, rfl, rfl⟩ : subject = s ∧ tenantId = t ∧ permission = p := by
      simpa using h.symm.trans h'
    obtain rfl := Except.ok.inj (hbody.symm.trans hb)
    exact halike
  · refine iff_of_true (searchCards_refused fun s t p body h hbody => ?_) fun s t p body h hbody haccepts =>
      absurd ⟨s, t, p, body, h, hbody, haccepts⟩ hcomes
    exact Bool.eq_false_iff.mpr fun haccepts => hcomes ⟨s, t, p, body, h, hbody, haccepts⟩

/-- An engine that finds every card of the tenant `t`, with one score for all. -/
def findAll : Engine (List UInt8) where
  order := keyOrder
  index c := indexOf (c.docs.map hitOf)
  found c must filter hit hhit := by
    dsimp only [indexOf] at hhit
    split at hhit
    · obtain ⟨doc, hdoc, rfl⟩ := List.mem_map.mp hhit
      exact hdoc
    · cases hhit

/-- One card on the private board. -/
def hiddenCard (title : String) : Contents := ⟨[cardDocument 'a' title "x"], by simp⟩

/-- Two hidden cards with different titles are not told apart. -/
theorem search_reveals_nothing_iff_titles :
    [searchAll 1].map (searchCards BoardStream.plainIds jsonText
        ((searchOver []).over findAll (hiddenCard "Secret")) member) =
      [searchAll 1].map (searchCards BoardStream.plainIds jsonText
        ((searchOver []).over findAll (hiddenCard "Hidden")) member) := by
  refine (search_reveals_nothing_iff jsonText_lawful fun doc hvis => ?_).mpr ?_
  · -- the caller may not view the card of either
    have hx : mayViewBoard BoardStream.plainIds (searchOver []) member "x" = false := by decide
    refine iff_of_false ?_ ?_ <;>
      · intro hdoc
        rw [List.mem_singleton.mp hdoc] at hvis
        exact Bool.false_ne_true (hx.symm.trans hvis)
  · intro req hreq subject tenantId permission body h hbody _
    obtain rfl := List.mem_singleton.mp hreq
    have h' : some ("user:ann", "t", nothingGranted) = some (subject, tenantId, permission) := h
    cases h'
    obtain rfl := Except.ok.inj hbody
    exact ⟨rfl, .nil, rfl⟩

/-- A hidden card is counted. -/
theorem search_counts_hidden :
    (∀ doc : CardDocument, mayViewBoard BoardStream.plainIds (searchOver []) member doc.boardId = true →
      (doc ∈ (⟨[], .nil⟩ : Contents).docs ↔ doc ∈ (hiddenCard "Secret").docs)) ∧
    searchCards BoardStream.plainIds jsonText ((searchOver []).over findAll ⟨[], .nil⟩) member
        (searchAll 1) ≠
      searchCards BoardStream.plainIds jsonText ((searchOver []).over findAll (hiddenCard "Secret")) member
        (searchAll 1) := by
  have hx : mayViewBoard BoardStream.plainIds (searchOver []) member "x" = false := by decide
  refine ⟨fun doc hvis => iff_of_false nofun fun hdoc => ?_, fun heq => ?_⟩
  · rw [List.mem_singleton.mp hdoc] at hvis
    exact Bool.false_ne_true (hx.symm.trans hvis)
  · have htotal := congrArg (fun r => r.map SearchCardsResponse.total) heq
    revert htotal
    decide

end Revealed

end Kanban.Services
