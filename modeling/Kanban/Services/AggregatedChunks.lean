import Kanban.Services.AggregatedBoards

/-!
# The chunks of an aggregated board

What `get_aggregated_board` streams, told from the tables: the sources that are shown, a column for
each of them, and their cards in batches.

## Main definitions

* `World.shownSources`, `World.shownCards` — the source boards and the cards that are shown.
* `Chunked` — how the stream is made up of them.
-/

namespace Kanban.Services

variable {ι : Type}

/-! ## Batches -/

section Batches

variable {α : Type*} {size : ℕ} {l batch : List α}

theorem flatten_batches : (batches size l).flatten = l := by
  induction l using batches.induct size with
  | case1 => simp [batches]
  | case2 x l ih => rw [batches, List.flatten_cons, ih, List.cons_append, List.take_append_drop]

theorem ne_nil_of_mem_batches (h : batch ∈ batches size l) : batch ≠ [] := by
  induction l using batches.induct size with
  | case1 => simp [batches] at h
  | case2 x l ih =>
      rw [batches] at h
      rcases List.mem_cons.mp h with rfl | h
      · exact List.cons_ne_nil _ _
      · exact ih h

theorem length_le_of_mem_batches (hsize : 0 < size) (h : batch ∈ batches size l) :
    batch.length ≤ size := by
  induction l using batches.induct size with
  | case1 => simp [batches] at h
  | case2 x l ih =>
      rw [batches] at h
      rcases List.mem_cons.mp h with rfl | h
      · rw [List.length_cons, List.length_take]
        omega
      · exact ih h

end Batches

/-! ## The stream -/

variable [DecidableEq ι]

/-- The sources, in their order, whose board is public or internal in the tenant or may be viewed. -/
def World.shownSources (codec : IdCodec ι) (w : World ι) (aggregatedBoardId : ι) (tenantId : String)
    (allowedPrivateIds : List String) : List SourceBoardRef :=
  (w.sourceRows aggregatedBoardId tenantId).filterMap fun s =>
    (w.boards.rows.find? (·.id = s.boardId)).bind fun b =>
      if b.tenantId = tenantId ∧ isPublicOrInternal b.visibility ∨
          codec.toString b.id ∈ allowedPrivateIds then
        some ⟨codec.toString b.id, codec.toString b.projectId, b.name, b.icon.getD "", s.position⟩
      else none

/-- The tenant's cards on the boards, by board, column and position. -/
def World.shownCards (codec : IdCodec ι) (w : World ι) (tenantId : String)
    (sources : List SourceBoardRef) : List BatchCard :=
  ((w.cards.filter fun c => c.tenantId = tenantId ∧
    codec.toString c.boardId ∈ sources.map SourceBoardRef.boardId).mergeSort
      (cardOrder codec)).map fun c => ⟨codec.toString c.boardId, c.proto⟩

/-- A stream of one metadata chunk, the sources, a column for each source, and the cards. -/
structure Chunked (metadata : Chunk) (sources : List SourceBoardRef) (cards : List BatchCard)
    (columns : List AggregatedColumn) (cardBatches : List (List BatchCard)) (chunks : List Chunk) :
    Prop where
  chunks_eq : chunks = metadata ::
    (sources.map .sourceBoard ++ columns.map .column ++ cardBatches.map .cardBatch)
  columns_boards : columns.map AggregatedColumn.sourceBoardId = sources.map SourceBoardRef.boardId
  columns_positions : columns.map AggregatedColumn.position =
    List.map (fun n : ℕ => (n : ℤ)) (List.range' 1 sources.length)
  batch_size : ∀ batch ∈ cardBatches, batch ≠ [] ∧ batch.length ≤ cardBatchSize
  batch_cards : cardBatches.flatten = cards

section Stream

variable {codec : IdCodec ι} {w : World ι} {tenantId : String} {allowedPrivateIds : List String}

/-- The sources that pass the test. -/
theorem filter_fetchSourceBoards {id : ι} : ((w.fetchSourceBoards codec id tenantId).filter fun sb =>
      (codec.parse sb.boardId).any (· ∈ w.allowedSourceIds codec id tenantId allowedPrivateIds)) =
    w.shownSources codec id tenantId allowedPrivateIds := by
  unfold World.fetchSourceBoards World.shownSources
  rw [List.filter_filterMap]
  refine List.filterMap_congr fun s hs => ?_
  cases hfind : w.boards.rows.find? (·.id = s.boardId) with
  | none => rfl
  | some b =>
      have hb := List.mem_of_find?_eq_some hfind
      have hid : b.id = s.boardId := by simpa using List.find?_some hfind
      have hallowed : b.id ∈ w.allowedSourceIds codec id tenantId allowedPrivateIds ↔
          b.tenantId = tenantId ∧ isPublicOrInternal b.visibility ∨
            codec.toString b.id ∈ allowedPrivateIds := by
        rw [mem_allowedSourceIds]
        constructor
        · rintro ⟨-, b', hb', hid', hshows⟩
          rwa [Boards.row_unique hb' hb hid'] at hshows
        · intro hshows
          exact ⟨hid ▸ List.mem_map_of_mem hs, b, hb, rfl, hshows⟩
      simp [Option.filter, codec.parse_toString, hallowed]

/-- A board is allowed if it is shown. -/
theorem mem_allowedSourceIds_iff_shown {id b : ι} :
    b ∈ w.allowedSourceIds codec id tenantId allowedPrivateIds ↔ codec.toString b ∈
      (w.shownSources codec id tenantId allowedPrivateIds).map SourceBoardRef.boardId := by
  rw [← filter_fetchSourceBoards, List.mem_map]
  constructor
  · intro hb
    obtain ⟨hattached, b', hb', hid, -⟩ := mem_allowedSourceIds.mp hb
    obtain ⟨sb, hsb, htext⟩ := exists_fetchSourceBoards codec hattached ⟨b', hb', hid⟩
    exact ⟨sb, List.mem_filter.mpr ⟨hsb, by simpa [htext, codec.parse_toString] using hb⟩, htext⟩
  · rintro ⟨sb, hsb, htext⟩
    simpa [htext, codec.parse_toString] using (List.mem_filter.mp hsb).2

/-- The cards that are read are those that are shown. -/
theorem fetchCardsForBoards_shown {id : ι} :
    w.fetchCardsForBoards codec (w.sourceBoardIds codec id tenantId)
        (w.allowedSourceIds codec id tenantId allowedPrivateIds) tenantId =
      w.shownCards codec tenantId (w.shownSources codec id tenantId allowedPrivateIds) := by
  have hsub : ∀ b ∈ w.allowedSourceIds codec id tenantId allowedPrivateIds,
      b ∈ w.sourceBoardIds codec id tenantId := fun b hb => (List.mem_filter.mp hb).1
  unfold World.fetchCardsForBoards World.shownCards
  split
  · rename_i hnone
    rw [List.filter_eq_nil_iff.mpr, List.mergeSort_nil, List.map_nil]
    intro c _
    rw [decide_eq_true_eq, ← mem_allowedSourceIds_iff_shown]
    rintro ⟨-, hallowed⟩
    have := hsub _ hallowed
    rw [hnone] at this
    cases this
  · refine congrArg (fun cs => List.map _ (List.mergeSort cs _))
      (List.filter_congr fun c _ => decide_eq_decide.mpr ?_)
    rw [← mem_allowedSourceIds_iff_shown]
    exact ⟨fun ⟨_, htenant, hallowed⟩ => ⟨htenant, hallowed⟩,
      fun ⟨htenant, hallowed⟩ => ⟨hsub _ hallowed, htenant, hallowed⟩⟩

theorem aggregateChunks_chunked (codec : IdCodec ι) (w : World ι) (row : AggregateRow ι) (tenantId : String)
    (allowedPrivateIds : List String) : ∃ columns cardBatches,
    Chunked (.metadata (codec.toString row.id) row.name (row.description.getD "") (row.icon.getD "")
        (dbToProto row.visibility))
      (w.shownSources codec row.id tenantId allowedPrivateIds)
      (w.shownCards codec tenantId (w.shownSources codec row.id tenantId allowedPrivateIds))
      columns cardBatches (aggregateChunks codec w row tenantId allowedPrivateIds) := by
  refine ⟨(w.shownSources codec row.id tenantId allowedPrivateIds).mapIdx fun i sb =>
      ⟨"agg-col-" ++ sb.boardId, sb.name, sb.icon, 0, i + 1, sb.boardId⟩,
    batches cardBatchSize (w.shownCards codec tenantId
      (w.shownSources codec row.id tenantId allowedPrivateIds)), ?_, ?_, ?_, ?_, flatten_batches⟩
  · have hcolumns : ∀ sources : List SourceBoardRef,
        sources.mapIdx (fun i sb => Chunk.column ⟨"agg-col-" ++ sb.boardId, sb.name, sb.icon, 0, i + 1,
          sb.boardId⟩) =
        (sources.mapIdx fun i sb => (⟨"agg-col-" ++ sb.boardId, sb.name, sb.icon, 0, i + 1,
          sb.boardId⟩ : AggregatedColumn)).map .column := fun sources =>
      List.ext_getElem (by simp) fun i _ _ => by simp
    simp only [aggregateChunks, filter_fetchSourceBoards, fetchCardsForBoards_shown, hcolumns]
  · refine List.ext_getElem (by simp) fun i _ _ => ?_
    simp
  · refine List.ext_getElem (by simp) fun i _ _ => ?_
    simp [add_comm]
  · exact fun batch hbatch =>
      ⟨ne_nil_of_mem_batches hbatch, length_le_of_mem_batches (by decide) hbatch⟩

/-- **The stream of an aggregated board**: one metadata chunk, the sources that are public or internal
in the caller's tenant or in the caller's view expansion, a column for each of them, and the tenant's
cards on them in batches. -/
theorem getAggregatedBoard_chunked {auth : Option AuthContext} {aggregatedBoardId : String}
    {chunks : List Chunk} (h : getAggregatedBoard codec w auth aggregatedBoardId = .ok chunks) :
    ∃ subject tenantId id row allowedPrivateIds columns cardBatches,
      auth.bind AuthContext.subject = some subject ∧ auth.bind AuthContext.tenantId = some tenantId ∧
      codec.parse aggregatedBoardId = some id ∧ w.fetchAggregate tenantId id = some row ∧
      w.permissions.expandObjects "KanbanBoard" "view" subject 10000 = some allowedPrivateIds ∧
      Chunked (.metadata (codec.toString row.id) row.name (row.description.getD "")
          (row.icon.getD "") (dbToProto row.visibility))
        (w.shownSources codec row.id tenantId allowedPrivateIds)
        (w.shownCards codec tenantId (w.shownSources codec row.id tenantId allowedPrivateIds))
        columns cardBatches chunks := by
  obtain ⟨subject, tenantId, id, row, allowedPrivateIds, hsubject, htenant, hparse, hrow, hexpand, rfl⟩ :=
    getAggregatedBoard_ok h
  obtain ⟨columns, cardBatches, hchunked⟩ := aggregateChunks_chunked codec w row tenantId
    allowedPrivateIds
  exact ⟨subject, tenantId, id, row, allowedPrivateIds, columns, cardBatches, hsubject, htenant, hparse,
    hrow, hexpand, hchunked⟩

end Stream

/-- A public aggregated board of the tenant `t`, two public boards, of which `b` is of the tenant and
`c` is not, and a card on each. -/
def twoTenants : World String where
  boards := ⟨[⟨"b", "t", "p", "roadmap", none, visPublic, 0⟩, ⟨"c", "u", "q", "plans", none, visPublic, 0⟩],
    by simp⟩
  aggregates := [⟨"a", "t", "all boards", none, none, visPublic⟩]
  sources := []
  cards := [⟨"b", "k", 0, "t", .object []⟩, ⟨"c", "l", 0, "u", .object []⟩]
  permissions := ⟨fun _ => some false, fun _ _ _ => some []⟩

/-- A member attaches one of the boards. -/
def boardAttached (boardId : String) : World String :=
  twoTenants.change BoardStream.plainIds
    (.addSourceBoard (some ⟨some "t", some "v"⟩) (some "a") boardId 0 0)

theorem boardAttached_eq {boardId : String} (h : boardId = "b" ∨ boardId = "c") :
    boardAttached boardId = { twoTenants with sources := [⟨"a", "t", boardId, 0, 0⟩] } := by
  rcases h with rfl | rfl <;>
    simp [boardAttached, World.change, addSourceBoard, sourceRequest, tenantIdFromRequest,
      checkedObjectId, parseId, BoardStream.plainIds, bind, Except.bind, twoTenants, World.transact,
      World.upsertSource, World.insertSource, World.normaliseSources, World.fetchSourceBoardIds,
      World.sourceRows, World.bumpAggregate]

/-- The board of the tenant is shown with its card. -/
theorem getAggregatedBoard_chunked_tenant : ∃ chunks columns cardBatches,
    getAggregatedBoard BoardStream.plainIds (boardAttached "b") (some ⟨some "t", some "v"⟩) "a" =
      .ok chunks ∧
    Chunked (.metadata "a" "all boards" "" "" (dbToProto visPublic)) [⟨"b", "p", "roadmap", "", 0⟩]
      [⟨"b", .object []⟩] columns cardBatches chunks := by
  rw [boardAttached_eq (.inl rfl)]
  have hget : getAggregatedBoard BoardStream.plainIds
      { twoTenants with sources := [⟨"a", "t", "b", 0, 0⟩] } (some ⟨some "t", some "v"⟩) "a" =
      .ok (aggregateChunks BoardStream.plainIds { twoTenants with sources := [⟨"a", "t", "b", 0, 0⟩] }
        ⟨"a", "t", "all boards", none, none, visPublic⟩ "t" []) := rfl
  obtain ⟨subject, tenantId, id, row, allowed, columns, cardBatches, hsubject, htenant, hparse, hrow,
    hexpand, hchunked⟩ := getAggregatedBoard_chunked hget
  obtain rfl : "t" = tenantId := Option.some.inj htenant
  obtain rfl : "a" = id := Option.some.inj hparse
  obtain rfl := Option.some.inj hrow
  obtain rfl : [] = allowed := Option.some.inj hexpand
  refine ⟨_, columns, cardBatches, hget, ?_⟩
  simpa [World.shownSources, World.shownCards, World.sourceRows, twoTenants, BoardStream.plainIds,
    isPublicOrInternal, visPublic] using hchunked

/-- A source board of another tenant is left out although it is public. -/
theorem foreign_source_left_out :
    getAggregatedBoard BoardStream.plainIds (boardAttached "c") (some ⟨some "t", some "v"⟩) "a" =
      .ok [.metadata "a" "all boards" "" "" (dbToProto visPublic)] ∧
    ∃ s ∈ (boardAttached "c").sourceRows "a" "t", ∃ b ∈ (boardAttached "c").boards.rows,
      b.id = s.boardId ∧ isPublicOrInternal b.visibility := by
  rw [boardAttached_eq (.inr rfl)]
  constructor
  · have hget : getAggregatedBoard BoardStream.plainIds
        { twoTenants with sources := [⟨"a", "t", "c", 0, 0⟩] } (some ⟨some "t", some "v"⟩) "a" =
        .ok (aggregateChunks BoardStream.plainIds { twoTenants with sources := [⟨"a", "t", "c", 0, 0⟩] }
          ⟨"a", "t", "all boards", none, none, visPublic⟩ "t" []) := rfl
    rw [hget]
    simp only [aggregateChunks, filter_fetchSourceBoards, fetchCardsForBoards_shown]
    simp [World.shownSources, World.shownCards, World.sourceRows, twoTenants, BoardStream.plainIds,
      batches]
  · refine ⟨⟨"a", "t", "c", 0, 0⟩, ?_, ⟨"c", "u", "q", "plans", none, visPublic, 0⟩, ?_, rfl, rfl⟩
    · simp [World.sourceRows]
    · simp [twoTenants]

end Kanban.Services
