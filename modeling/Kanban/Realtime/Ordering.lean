import Kanban.Realtime.Outbox

/-!
# Publication order and revision order

The envelope's `board_revision` is documented as monotone per board.  The revisions come
from the row lock of the board and the sequences from the stream; between them stand
the `ORDER BY id` of the drain (ids whose low bits are random) and the skipping of a row
whose publish or ack failed.

## Main definitions

* `NewRow.precedes` — two rows of one board, in revision order.
* `Outbox.RevisionOrdered` — the messages of a board are stored in revision order.
* `Outbox.Orderly` — a step that selects rows of a board in revision order, publishes none
  behind a skipped row, and retries inside the duplicate window.
* `Outbox.OrderInv` — what a run of orderly steps keeps.
-/

namespace Kanban.Realtime

open Machine

variable {ι : Type*} [LinearOrder ι]

/-- The rows are events of one board and the first carries the smaller revision. -/
def NewRow.precedes (r r' : NewRow ι) : Prop :=
  r.boardId.isSome ∧ r.boardId = r'.boardId ∧
    jsonU64 r.payload "board_revision" < jsonU64 r'.payload "board_revision"

instance (r r' : NewRow ι) : Decidable (r.precedes r') :=
  inferInstanceAs (Decidable (_ ∧ _ ∧ _))

/-- The rows skipped so far in the pass and the row that it publishes next. -/
def Dispatcher.head : Dispatcher ι → Option (List (EventRow ι) × EventRow ι)
  | .batch skipped (row :: _) => some (skipped, row)
  | _ => none

namespace Outbox

/-- Of two rows of one board that have both been published, the one with the smaller revision
has the smaller sequence. -/
def RevisionOrdered (s : Outbox ι) : Prop :=
  ∀ r ∈ s.log.rows, ∀ r' ∈ s.log.rows, r.precedes r'.toNewRow →
    ∀ m ∈ s.stream.messages, ∀ m' ∈ s.stream.messages,
      m.msgId = r.id → m'.msgId = r'.id → m.seq < m'.seq

instance (s : Outbox ι) : Decidable s.RevisionOrdered :=
  inferInstanceAs (Decidable (∀ r ∈ s.log.rows, ∀ r' ∈ s.log.rows, r.precedes r'.toNewRow →
    ∀ m ∈ s.stream.messages, ∀ m' ∈ s.stream.messages,
      m.msgId = r.id → m'.msgId = r'.id → m.seq < m'.seq))

/-- A `SELECT` finds the unpublished rows of a board in revision order. -/
def SelectsInOrder (batchSize : ℕ) (s : Outbox ι) : Prop :=
  ∀ r' ∈ s.selectBatch batchSize, ∀ r ∈ s.undispatched, r.precedes r'.toNewRow →
    ¬ s.stream.Stored r.id → r.id < r'.id

/-- The row at the head of the pass has no unpublished predecessor among the skipped rows. -/
def PublishesInOrder (s : Outbox ι) (d : ℕ) : Prop :=
  ∀ p ∈ (s.dispatchers d).head, ∀ r ∈ p.1, r.precedes p.2.toNewRow → s.stream.Stored r.id

/-- The condition on a step. -/
def Orderly (batchSize : ℕ) (s : Outbox ι) : Action ι → Prop
  | .mutate a => a.objectPayload
  | .select _ => s.SelectsInOrder batchSize
  | .publish d | .publishFails d true => s.PublishesInOrder d
  | a => s.InWindow a

instance (batchSize : ℕ) (s : Outbox ι) : Decidable (s.SelectsInOrder batchSize) :=
  inferInstanceAs (Decidable (∀ r' ∈ s.selectBatch batchSize, ∀ r ∈ s.undispatched,
    r.precedes r'.toNewRow → ¬ s.stream.Stored r.id → r.id < r'.id))

instance (s : Outbox ι) (d : ℕ) : Decidable (s.PublishesInOrder d) :=
  inferInstanceAs (Decidable (∀ p ∈ (s.dispatchers d).head, ∀ r ∈ p.1,
    r.precedes p.2.toNewRow → s.stream.Stored r.id))

instance (batchSize : ℕ) (s : Outbox ι) : ∀ a, Decidable (s.Orderly batchSize a)
  | .mutate a => inferInstanceAs (Decidable (a.objectPayload = true))
  | .select _ => inferInstanceAs (Decidable (s.SelectsInOrder batchSize))
  | .publish d | .publishFails d true => inferInstanceAs (Decidable (s.PublishesInOrder d))
  | .publishFails d false => inferInstanceAs (Decidable (s.InWindow (.publishFails d false)))
  | .skip d => inferInstanceAs (Decidable (s.InWindow (.skip d)))
  | .receive token inWindow => inferInstanceAs (Decidable (s.InWindow (.receive token inWindow)))
  | .ack d => inferInstanceAs (Decidable (s.InWindow (.ack d)))
  | .ackFails d => inferInstanceAs (Decidable (s.InWindow (.ackFails d)))
  | .update d => inferInstanceAs (Decidable (s.InWindow (.update d)))
  | .updateFails d late => inferInstanceAs (Decidable (s.InWindow (.updateFails d late)))
  | .lateUpdate rowId seq => inferInstanceAs (Decidable (s.InWindow (.lateUpdate rowId seq)))
  | .finish d => inferInstanceAs (Decidable (s.InWindow (.finish d)))
  | .crash d late => inferInstanceAs (Decidable (s.InWindow (.crash d late)))

theorem Orderly.inWindow {batchSize : ℕ} {s : Outbox ι} {a : Action ι}
    (h : s.Orderly batchSize a) : s.InWindow a := by
  cases a with
  | receive => exact h
  | _ => trivial

section Later

omit [LinearOrder ι]

/-- Every known row that precedes a row ahead in the pass is stored, skipped, or ahead of
it. -/
structure Ahead (s : Outbox ι) (skipped todo : List (EventRow ι)) : Prop where
  known : ∀ r ∈ skipped ++ todo, s.Known r
  ahead : ∀ pre r' post, todo = pre ++ r' :: post → ∀ r, s.Known r → r.precedes r'.toNewRow →
    s.stream.Stored r.id ∨ (∃ x ∈ skipped, x.id = r.id) ∨ ∃ x ∈ pre, x.id = r.id

/-- A dispatcher whose pass is in revision order. -/
def InOrder (s : Outbox ι) : Dispatcher ι → Prop
  | .idle => True
  | .batch skipped todo => s.Ahead skipped todo
  | .acking row _ skipped todo => s.Ahead (row :: skipped) todo
  | .updating _ _ skipped todo => s.Ahead skipped todo

/-- What a run of orderly steps keeps. -/
structure OrderInv (s : Outbox ι) : Prop where
  inv : s.Inv
  counters : ∀ b, s.log.Inv (.board b)
  dispatchers : ∀ d, s.InOrder (s.dispatchers d)
  flight : ∀ p ∈ s.inFlight, s.Known p.2 ∧
    ∀ r, s.Known r → r.precedes p.2.toNewRow → s.stream.Stored r.id
  /-- A stored row's predecessors are stored. -/
  closed : ∀ r r', s.Known r → s.Known r' → r.precedes r'.toNewRow →
    s.stream.Stored r'.id → s.stream.Stored r.id
  stored : ∀ m ∈ s.stream.messages, ∃ r, s.Known r ∧ r.id = m.msgId
  ordered : ∀ r r', s.Known r → s.Known r' → r.precedes r'.toNewRow →
    ∀ m ∈ s.stream.messages, ∀ m' ∈ s.stream.messages,
      m.msgId = r.id → m'.msgId = r'.id → m.seq < m'.seq

/-! ## Later states -/

/-- `t` comes after `s`: nothing stored or known is lost, and a row that is new precedes
none of the known rows and is not stored. -/
structure Extends (t s : Outbox ι) : Prop where
  stored : ∀ rowId, s.stream.Stored rowId → t.stream.Stored rowId
  known : ∀ r, s.Known r → t.Known r
  fresh : ∀ r, t.Known r → s.Known r ∨ ∀ r', s.Known r' → ¬ r.precedes r'.toNewRow

theorem Extends.refl (s : Outbox ι) : s.Extends s :=
  ⟨fun _ h => h, fun _ h => h, fun _ h => .inl h⟩

theorem Ahead.mono {s t : Outbox ι} (hst : t.Extends s) {skipped todo : List (EventRow ι)}
    (h : s.Ahead skipped todo) : t.Ahead skipped todo := by
  refine ⟨fun r hr => hst.known r (h.known r hr), fun pre r' post htodo r hr hp => ?_⟩
  have hr' : s.Known r' := h.known r' (by simp [htodo])
  rcases hst.fresh r hr with hr | hnew
  · exact (h.ahead pre r' post htodo r hr hp).imp_left (hst.stored _)
  · exact absurd hp (hnew r' hr')

theorem InOrder.mono {s t : Outbox ι} (hst : t.Extends s) {v : Dispatcher ι}
    (h : s.InOrder v) : t.InOrder v := by
  cases v with
  | idle => trivial
  | batch | acking | updating => exact Ahead.mono hst h

/-- A step that keeps the rows and only adds messages. -/
theorem extends_of_rows {s t : Outbox ι} (hrows : t.log.rows = s.log.rows)
    (hstored : ∀ rowId, s.stream.Stored rowId → t.stream.Stored rowId) : t.Extends s := by
  have hknown : ∀ r, t.Known r ↔ s.Known r := by
    intro r
    simp only [Known, hrows]
  exact ⟨hstored, fun r h => (hknown r).mpr h, fun r h => .inl ((hknown r).mp h)⟩

end Later

theorem extends_record {s t : Outbox ι} {rowId : ι} {seq : ℕ}
    (hlog : t.log = (s.record rowId seq).log) (hstream : t.stream = s.stream) : t.Extends s := by
  have hknown : ∀ r, t.Known r ↔ s.Known r := by
    intro r
    unfold Known
    rw [hlog]
    exact known_record rowId seq r
  exact ⟨fun _ h => hstream ▸ h, fun r h => (hknown r).mpr h, fun r h => .inl ((hknown r).mp h)⟩

/-! ## New rows come after the known ones -/

omit [LinearOrder ι] in
/-- The revisions in a numbered block lie in its range. -/
theorem revision_mem_numbered [DecidableEq ι] {c : Counter ι} {rows : List (NewRow ι)} {lo n : ℕ}
    (h : revisionsOf c rows = numbered lo n) {row : NewRow ι} (hrow : row ∈ rows)
    (ht : row.targets c = true) :
    lo ≤ jsonU64 row.payload "board_revision" ∧
      jsonU64 row.payload "board_revision" < lo + n := by
  have hmem : row.payload.get "board_revision" ∈ revisionsOf c rows :=
    List.mem_map.mpr ⟨row, List.mem_filter.mpr ⟨hrow, ht⟩, rfl⟩
  rw [h] at hmem
  obtain ⟨i, hi, heq⟩ := List.mem_map.mp hmem
  have hrange := List.mem_range'_1.mp hi
  rw [jsonU64, ← heq]
  simpa using hrange

/-- A row that a commit adds precedes no committed row. -/
theorem not_precedes_of_commit {s : EventLog ι} (hs : ∀ b, s.Inv (.board b)) {t : ℕ}
    {revisions : Counter ι → Option ℕ} {rows : List (EventRow ι)}
    (htx : s.txs t = some ⟨.idle, revisions, rows⟩) {r r' : EventRow ι} (hr : r ∈ rows)
    (hr' : r' ∈ s.rows) : ¬ r.precedes r'.toNewRow := by
  rintro ⟨hsome, hboard, hlt⟩
  obtain ⟨b, hb⟩ := Option.isSome_iff_exists.mp hsome
  obtain ⟨n, -, hpend⟩ := (hs b).pending t _ htx (by simp)
  simp only [Tx.pendingRows, List.append_nil] at hpend
  have hnew := revision_mem_numbered hpend (List.mem_map_of_mem hr)
    (by simp [NewRow.targets, hb])
  have hold := revision_mem_numbered (hs b).committed (List.mem_map_of_mem hr')
    (by simp [NewRow.targets, ← hboard, hb])
  omega

/-- A mutation keeps the order. -/
theorem extends_mutate {s : Outbox ι} (hs : ∀ b, s.log.Inv (.board b))
    {a : EventLog.Action ι} {log : EventLog ι} (hstep : s.log.step a = some log) :
    Extends { s with log := log } s := by
  rcases EventLog.step_rows hstep with hrows | ⟨t, revisions, rows, -, htx, hrows, -⟩
  · exact extends_of_rows hrows fun _ h => h
  · refine ⟨fun _ h => h, ?_, ?_⟩
    · rintro r ⟨r₀, hr₀, h⟩
      exact ⟨r₀, hrows ▸ List.mem_append_left _ hr₀, h⟩
    · rintro r ⟨r₀, hr₀, hid, hrow⟩
      have hr₀ : r₀ ∈ s.log.rows ++ rows := hrows ▸ hr₀
      rcases List.mem_append.mp hr₀ with hr₀ | hr₀
      · exact .inl ⟨r₀, hr₀, hid, hrow⟩
      · right
        rintro r' ⟨r₁, hr₁, -, hrow₁⟩
        rw [← hrow, ← hrow₁]
        exact not_precedes_of_commit hs htx hr₀ hr₁

/-! ## Passes in order -/

omit [LinearOrder ι] in
theorem Ahead.head {s : Outbox ι} {skipped todo : List (EventRow ι)} {row : EventRow ι}
    (h : s.Ahead skipped (row :: todo)) {r : EventRow ι} (hr : s.Known r)
    (hp : r.precedes row.toNewRow) : s.stream.Stored r.id ∨ ∃ x ∈ skipped, x.id = r.id := by
  rcases h.ahead [] row todo rfl r hr hp with h | h | ⟨x, hx, -⟩
  · exact .inl h
  · exact .inr h
  · cases hx

omit [LinearOrder ι] in
/-- The head of the pass is left behind. -/
theorem Ahead.skip {s : Outbox ι} {skipped todo : List (EventRow ι)} {row : EventRow ι}
    (h : s.Ahead skipped (row :: todo)) : s.Ahead (row :: skipped) todo := by
  refine ⟨fun r hr => h.known r (by simp at hr ⊢; tauto), fun pre r' post htodo r hr hp => ?_⟩
  rcases h.ahead (row :: pre) r' post (by simp [htodo]) r hr hp with h | ⟨x, hx, hid⟩ | ⟨x, hx, hid⟩
  · exact .inl h
  · exact .inr (.inl ⟨x, by simp [hx], hid⟩)
  · rcases List.mem_cons.mp hx with rfl | hx
    · exact .inr (.inl ⟨x, by simp, hid⟩)
    · exact .inr (.inr ⟨x, hx, hid⟩)

omit [LinearOrder ι] in
/-- A skipped row that is stored need not be remembered. -/
theorem Ahead.forget {s : Outbox ι} {skipped todo : List (EventRow ι)} {row : EventRow ι}
    (h : s.Ahead (row :: skipped) todo) (hst : s.stream.Stored row.id) :
    s.Ahead skipped todo := by
  refine ⟨fun r hr => h.known r (by simp at hr ⊢; tauto), fun pre r' post htodo r hr hp => ?_⟩
  rcases h.ahead pre r' post htodo r hr hp with h | ⟨x, hx, hid⟩ | h
  · exact .inl h
  · rcases List.mem_cons.mp hx with rfl | hx
    · exact .inl (hid ▸ hst)
    · exact .inr (.inl ⟨x, hx, hid⟩)
  · exact .inr (.inr h)

/-- A row with a smaller id that is undispatched is selected before. -/
theorem mem_of_lt_selectBatch {s : Outbox ι} {batchSize : ℕ} {pre post : List (EventRow ι)}
    {r r' : EventRow ι} (hb : s.selectBatch batchSize = pre ++ r' :: post)
    (hr : r ∈ s.undispatched) (hlt : r.id < r'.id) : r ∈ pre := by
  set sorted := s.undispatched.insertionSort fun r r' => r.id ≤ r'.id with hsorted
  have hsplit : sorted = pre ++ r' :: (post ++ sorted.drop batchSize) := by
    calc sorted = sorted.take batchSize ++ sorted.drop batchSize :=
          (List.take_append_drop _ _).symm
      _ = pre ++ r' :: (post ++ sorted.drop batchSize) := by
          rw [show sorted.take batchSize = pre ++ r' :: post from hb]; simp
  have hmem : r ∈ sorted := (List.mem_insertionSort _).mpr hr
  have hpair : sorted.Pairwise fun r r' => r.id ≤ r'.id := by
    have : Std.Total fun r r' : EventRow ι => r.id ≤ r'.id := ⟨fun r r' => le_total r.id r'.id⟩
    have : IsTrans (EventRow ι) fun r r' => r.id ≤ r'.id := ⟨fun _ _ _ => le_trans⟩
    exact List.pairwise_insertionSort _ _
  rw [hsplit] at hmem hpair
  rcases List.mem_append.mp hmem with h | h
  · exact h
  · have hge : r'.id ≤ r.id := by
      rcases List.mem_cons.mp h with rfl | h
      · exact le_rfl
      · exact (List.pairwise_cons.mp (List.pairwise_append.mp hpair).2.1).1 r h
    exact absurd hlt (not_lt.mpr hge)

/-- A selected batch is in order. -/
theorem ahead_select {s : Outbox ι} {batchSize : ℕ} (hs : s.Inv)
    (hsel : s.SelectsInOrder batchSize) : s.Ahead [] (s.selectBatch batchSize) := by
  refine ⟨fun r hr => known_of_mem (mem_selectBatch (by simpa using hr)).1, ?_⟩
  intro pre r' post hb r hr hp
  by_cases hst : s.stream.Stored r.id
  · exact .inl hst
  · obtain ⟨r₀, hr₀, hid, hrow⟩ := hr
    have hnone : r₀.natsSeq = none := by
      cases hq : r₀.natsSeq with
      | none => rfl
      | some q => exact absurd (hid ▸ (hs.recorded r₀ hr₀ q hq).stored) hst
    have hund : r₀ ∈ s.undispatched := by simp [undispatched, hr₀, hnone]
    have hlt : r₀.id < r'.id :=
      hsel r' (by simp [hb]) r₀ hund (hrow ▸ hp) (hid ▸ hst)
    exact .inr (.inr ⟨r₀, mem_of_lt_selectBatch hb hund hlt, hid⟩)

/-! ## The invariant along a run -/

/-- A step that stores nothing. -/
theorem OrderInv.of_extends {s t : Outbox ι} (hs : s.OrderInv) (ht : t.Inv)
    (hc : ∀ b, t.log.Inv (.board b)) (hext : t.Extends s) (hstream : t.stream = s.stream)
    (hflight : ∀ p ∈ t.inFlight, p ∈ s.inFlight ∨
      s.Known p.2 ∧ ∀ r, s.Known r → r.precedes p.2.toNewRow → s.stream.Stored r.id)
    (hdisp : ∀ d, t.dispatchers d = s.dispatchers d ∨ s.InOrder (t.dispatchers d)) :
    t.OrderInv := by
  -- a row of `t` whose message is stored was known in `s`
  have hold : ∀ r, t.Known r → s.stream.Stored r.id → s.Known r := by
    rintro r hr ⟨m, hm, hid⟩
    obtain ⟨r₀, ⟨r₁, hr₁, hid₁, hrow₁⟩, hid₀⟩ := hs.stored m hm
    have heq := (hext.known r₀ ⟨r₁, hr₁, hid₁, hrow₁⟩).unique ht.log.ids hr (hid₀.trans hid)
    exact ⟨r₁, hr₁, hid₁.trans (hid₀.trans hid), hrow₁.trans heq⟩
  refine ⟨ht, hc, fun d => ?_, fun p hp => ?_, fun r r' hr hr' hp hst => ?_, ?_, ?_⟩
  · rcases hdisp d with hd | hd
    · rw [hd]; exact (hs.dispatchers d).mono hext
    · exact hd.mono hext
  · have hp' : s.Known p.2 ∧ ∀ r, s.Known r → r.precedes p.2.toNewRow → s.stream.Stored r.id := by
      rcases hflight p hp with hp | hp
      · exact hs.flight p hp
      · exact hp
    refine ⟨hext.known _ hp'.1, fun r hr hprec => hext.stored _ ?_⟩
    rcases hext.fresh r hr with hr | hnew
    · exact hp'.2 r hr hprec
    · exact absurd hprec (hnew _ hp'.1)
  · rw [hstream] at hst ⊢
    have hr's := hold r' hr' hst
    rcases hext.fresh r hr with hr | hnew
    · exact hs.closed r r' hr hr's hp hst
    · exact absurd hp (hnew r' hr's)
  · intro m hm
    rw [hstream] at hm
    obtain ⟨r, hr, hid⟩ := hs.stored m hm
    exact ⟨r, hext.known r hr, hid⟩
  · intro r r' hr hr' hp m hm m' hm' hid hid'
    rw [hstream] at hm hm'
    exact hs.ordered r r' (hold r hr ⟨m, hm, hid⟩) (hold r' hr' ⟨m', hm', hid'⟩) hp m hm m' hm'
      hid hid'

/-- The server receives a publish. -/
theorem OrderInv.receive {s t : Outbox ι} (hs : s.OrderInv) {token : ℕ} {row : EventRow ι}
    {inWindow : Bool} (hmem : (token, row) ∈ s.inFlight)
    (hw : s.stream.Stored row.id → inWindow) (hstep : s.receive token row inWindow = some t) :
    t.OrderInv := by
  have ht : t.Inv := hs.inv.receive hw hstep
  obtain ⟨subject, boardId, -, hteq⟩ := receive_eq hstep
  have hlog : t.log = s.log := by rw [hteq]
  have hdisp : t.dispatchers = s.dispatchers := by rw [hteq]
  have hflight : ∀ p ∈ t.inFlight, p ∈ s.inFlight := by
    rw [hteq]; exact fun p hp => List.mem_of_mem_filter hp
  have hstore : t.stream
      = (s.stream.store inWindow subject row.id (buildEnvelope row boardId)).2 := by rw [hteq]
  rcases s.stream.store_cases inWindow subject row.id (buildEnvelope row boardId) with
    ⟨m, -, -, hst⟩ | ⟨hst, hnot⟩
  · rw [hst] at hstore
    exact hs.of_extends ht (hlog ▸ hs.counters)
      (extends_of_rows (by rw [hlog]) fun _ h => hstore ▸ h) hstore
      (fun p hp => .inl (hflight p hp)) fun d => .inl (by rw [hdisp])
  · -- a new message: its row was not stored, all its predecessors are
    have hfresh : ¬ s.stream.Stored row.id := fun h => hnot (hw h) h
    obtain ⟨hknown, hpreds⟩ := hs.flight _ hmem
    have hmono : ∀ rowId, s.stream.Stored rowId → t.stream.Stored rowId := by
      intro rowId h
      rw [hstore]
      exact h.store
    have hstream : t.stream = s.stream.append subject row.id (buildEnvelope row boardId) := by
      rw [hstore, hst]
    have hext : t.Extends s := extends_of_rows (by rw [hlog]) hmono
    have hknowns : ∀ r, t.Known r → s.Known r := by
      intro r hr
      simpa only [Known, hlog] using hr
    have hrow : ∀ r, s.Known r → r.id = row.id → r.toNewRow = row.toNewRow :=
      fun r hr hid => hr.unique hs.inv.log.ids hknown hid
    refine ⟨ht, hlog ▸ hs.counters, fun d => ?_, fun p hp => ?_,
      fun r r' hr hr' hp hst' => ?_, fun m hm => ?_, fun r r' hr hr' hp m hm m' hm' hid hid' => ?_⟩
    · rw [hdisp]
      exact (hs.dispatchers d).mono hext
    · obtain ⟨hk, hpre⟩ := hs.flight p (hflight p hp)
      exact ⟨hext.known _ hk, fun r hr hprec => hmono _ (hpre r (hknowns r hr) hprec)⟩
    · obtain ⟨m', hm', hid'⟩ := hst'
      rw [hstream, JetStream.mem_append] at hm'
      have hr := hknowns r hr
      have hr' := hknowns r' hr'
      rcases hm' with hm' | rfl
      · exact hmono _ (hs.closed r r' hr hr' hp ⟨m', hm', hid'⟩)
      · exact hmono _ (hpreds r hr (hrow r' hr' hid'.symm ▸ hp))
    · rw [hstream, JetStream.mem_append] at hm
      rcases hm with hm | rfl
      · obtain ⟨r, hr, hid⟩ := hs.stored m hm
        exact ⟨r, hext.known r hr, hid⟩
      · exact ⟨row, hext.known row hknown, rfl⟩
    · rw [hstream, JetStream.mem_append] at hm hm'
      have hr := hknowns r hr
      have hr' := hknowns r' hr'
      rcases hm' with hm' | rfl
      · rcases hm with hm | rfl
        · exact hs.ordered r r' hr hr' hp m hm m' hm' hid hid'
        · have hid : row.id = r.id := hid
          exact absurd (hid ▸ hs.closed r r' hr hr' hp ⟨m', hm', hid'⟩) hfresh
      · rcases hm with hm | rfl
        · exact Nat.lt_succ_of_le (s.stream.bound m hm)
        · have hrow₁ := hrow r hr hid.symm
          have hrow₂ := hrow r' hr' hid'.symm
          rw [hrow₁, hrow₂] at hp
          exact absurd hp.2.2 (lt_irrefl _)

/-- The pass of one dispatcher changes, and nothing else does. -/
theorem OrderInv.setDispatcher {s t : Outbox ι} (hs : s.OrderInv) (ht : t.Inv)
    {d : ℕ} {v : Dispatcher ι} (hlog : t.log = s.log) (hstream : t.stream = s.stream)
    (hflight : ∀ p ∈ t.inFlight, p ∈ s.inFlight ∨
      s.Known p.2 ∧ ∀ r, s.Known r → r.precedes p.2.toNewRow → s.stream.Stored r.id)
    (hdisp : t.dispatchers = Function.update s.dispatchers d v) (hv : s.InOrder v) :
    t.OrderInv := by
  refine hs.of_extends ht (fun b => hlog ▸ hs.counters b)
    (extends_of_rows (by rw [hlog]) fun _ h => hstream ▸ h) hstream hflight fun e => ?_
  rw [hdisp]
  by_cases he : e = d
  · subst he
    exact .inr (by rwa [Function.update_self])
  · exact .inl (Function.update_of_ne he _ _)

/-- Recording a sequence keeps the revisions. -/
theorem counters_record {s : Outbox ι} (hs : ∀ b, s.log.Inv (.board b)) (rowId : ι) (seq : ℕ)
    (b : ι) : (s.record rowId seq).log.Inv (.board b) := by
  have hrows : (s.record rowId seq).log.rows.map EventRow.toNewRow
      = s.log.rows.map EventRow.toNewRow := by
    simp only [record, List.map_map]
    refine List.map_congr_left fun r _ => ?_
    by_cases hr : r.id = rowId <;> simp [hr]
  refine ⟨?_, (hs b).locked, (hs b).pending⟩
  rw [hrows]
  exact (hs b).committed

/-- **One orderly step** keeps the messages of every board in revision order. -/
theorem OrderInv.step {batchSize : ℕ} {s t : Outbox ι} {a : Action ι} (hs : s.OrderInv)
    (ho : s.Orderly batchSize a) (hstep : s.step batchSize a = some t) : t.OrderInv := by
  have ht : t.Inv := hs.inv.step ho.inWindow hstep
  have hkeep : ∀ p ∈ s.inFlight, p ∈ s.inFlight ∨
      s.Known p.2 ∧ ∀ r, s.Known r → r.precedes p.2.toNewRow → s.stream.Stored r.id :=
    fun p hp => .inl hp
  -- a row that may be published has all its predecessors stored
  have hhead : ∀ {d skipped row todo}, s.dispatchers d = .batch skipped (row :: todo) →
      s.PublishesInOrder d → s.Known row ∧
        ∀ r, s.Known r → r.precedes row.toNewRow → s.stream.Stored r.id := by
    intro d skipped row todo hd hpub
    have hahead : s.Ahead skipped (row :: todo) := by simpa [hd, InOrder] using hs.dispatchers d
    refine ⟨hahead.known row (by simp), fun r hr hp => ?_⟩
    rcases hahead.head hr hp with h | ⟨x, hx, hid⟩
    · exact h
    · have hx' := hahead.known x (by simp [hx])
      have heq := hx'.unique hs.inv.log.ids hr hid
      have := hpub (skipped, row) (by simp [hd, Dispatcher.head]) x hx (heq ▸ hp)
      exact hid ▸ this
  cases step_cases hstep with
  | mutate h =>
      exact hs.of_extends ht (fun b => (hs.counters b).step ho h) (extends_mutate hs.counters h) rfl
        hkeep fun d => .inl rfl
  | @select d =>
      exact hs.setDispatcher ht rfl rfl hkeep rfl (ahead_select hs.inv ho)
  | @skip d skipped row todo hd =>
      have hd' : s.Ahead skipped (row :: todo) := by simpa [hd, InOrder] using hs.dispatchers d
      exact hs.setDispatcher ht rfl rfl hkeep rfl hd'.skip
  | @publish d skipped row todo route hd =>
      have hd' : s.Ahead skipped (row :: todo) := by simpa [hd, InOrder] using hs.dispatchers d
      refine hs.setDispatcher ht rfl rfl (fun p hp => ?_) rfl hd'.skip
      rcases List.mem_cons.mp hp with rfl | hp
      · exact .inr (hhead hd ho)
      · exact .inl hp
  | @publishFails d skipped row todo route sent hd =>
      have hd' : s.Ahead skipped (row :: todo) := by simpa [hd, InOrder] using hs.dispatchers d
      cases sent with
      | false => exact hs.setDispatcher ht rfl rfl hkeep rfl hd'.skip
      | true =>
          refine hs.setDispatcher ht rfl rfl (fun p hp => ?_) rfl hd'.skip
          rcases List.mem_cons.mp hp with rfl | hp
          · exact .inr (hhead hd ho)
          · exact .inl hp
  | receive hmem h => exact hs.receive hmem (ho.inWindow _ hmem rfl) h
  | @ack d row token skipped todo seq hd hmem =>
      have hd' : s.Ahead (row :: skipped) todo := by simpa [hd, InOrder] using hs.dispatchers d
      exact hs.setDispatcher ht rfl rfl hkeep rfl (hd'.forget (hs.inv.acked _ hmem).stored)
  | @ackFails d row token skipped todo hd =>
      have hd' : s.Ahead (row :: skipped) todo := by simpa [hd, InOrder] using hs.dispatchers d
      exact hs.setDispatcher ht rfl rfl hkeep rfl hd'
  | @update d row seq skipped todo hd =>
      have hd' : s.Ahead skipped todo := by simpa [hd, InOrder] using hs.dispatchers d
      refine hs.of_extends ht (counters_record hs.counters _ _) (extends_record rfl rfl) rfl hkeep
        fun e => ?_
      by_cases he : e = d
      · subst he
        exact .inr (by simpa [InOrder] using hd')
      · exact .inl (by simp [he])
  | @updateFails d row seq skipped todo late hd =>
      have hd' : s.Ahead skipped todo := by simpa [hd, InOrder] using hs.dispatchers d
      exact hs.setDispatcher (d := d) (v := .batch skipped todo) ht (by simp) (by simp)
        (by simpa using hkeep) (by simp) hd'
  | lateUpdate hmem =>
      exact hs.of_extends ht (counters_record hs.counters _ _) (extends_record rfl rfl) rfl hkeep
        fun d => .inl rfl
  | @finish d => exact hs.setDispatcher ht rfl rfl hkeep rfl trivial
  | @crashUpdating d row seq skipped todo late hd =>
      exact hs.setDispatcher (d := d) (v := .idle) ht (by simp) (by simp) (by simpa using hkeep)
        (by simp) trivial
  | @crash d => exact hs.setDispatcher ht rfl rfl hkeep rfl trivial

theorem orderInv_new {revision : Counter ι → Option ℕ}
    (h0 : ∀ b, (revision (.board b)).getD 0 = 0) : (new revision).OrderInv := by
  refine ⟨inv_new revision, fun b => EventLog.inv_start (h0 b) ?_ fun _ => rfl, fun _ => trivial,
    ?_, ?_, ?_, ?_⟩ <;> simp [new, Known, JetStream.empty, JetStream.Stored]

/-- **Publication order agrees with revision order along orderly runs.**  If every `SELECT`
finds the unpublished rows of a board with ids in revision order, no row is published behind a
skipped, unpublished predecessor of its board, and retries fall inside the duplicate
window, then in every state reached the messages of a board are stored in revision order. -/
theorem revisionOrdered_of_orderly {batchSize : ℕ} {revision : Counter ι → Option ℕ}
    (h0 : ∀ b, (revision (.board b)).getD 0 = 0) {s : Outbox ι} {tr : List (Action ι)}
    (h : ExecWhile (Outbox.step batchSize) (Orderly batchSize) (new revision) tr s) :
    s.RevisionOrdered := by
  have hs : s.OrderInv :=
    h.invariant OrderInv (orderInv_new h0) fun _ _ _ ht ho hst => ht.step ho hst
  exact fun r hr r' hr' => hs.ordered r r' (known_of_mem hr) (known_of_mem hr')

/-- A transaction that inserts two events of board `7`, under the given ids. -/
def twoEvents (id id' : ℕ) : List (Action ℕ) :=
  [.mutate (.begin 0), .mutate (.insertBoardEvent 0 "t" 7 "CardMoved" (.object [])),
    .mutate (.insertRow 0 id), .mutate (.notify 0),
    .mutate (.insertBoardEvent 0 "t" 7 "CardUpdated" (.object [])),
    .mutate (.insertRow 0 id'), .mutate (.notify 0), .mutate (.commit 0)]

/-- Publish, receive, acknowledge and record one row. -/
def dispatch (d token : ℕ) : List (Action ℕ) :=
  [.publish d, .receive token true, .ack d, .update d]

/-- Two events whose ids agree with their revisions, drained without a failure. -/
theorem revisionOrdered_of_orderly_twoEvents :
    ∃ s, run (Outbox.step 100) (new EventLog.emptyBoard.revision)
        (twoEvents 100 101 ++ [.select 0] ++ dispatch 0 0 ++ dispatch 0 1) = some s ∧
      s.stream.messages.map Message.seq = [1, 2] ∧ s.RevisionOrdered := by
  have hrun : run (guarded (Outbox.step 100) (Orderly 100)) (new EventLog.emptyBoard.revision)
      (twoEvents 100 101 ++ [.select 0] ++ dispatch 0 0 ++ dispatch 0 1) = some _ := rfl
  refine ⟨_, rfl, rfl, revisionOrdered_of_orderly (fun b => ?_) (execWhile_of_run hrun)⟩
  by_cases hb : b = 7 <;> simp [EventLog.emptyBoard, hb]

/-- The order fails in two ways: two events of one millisecond whose random id bits disagree
with their revisions, and a publish that fails while the next row of the board goes on. -/
theorem not_revisionOrdered :
    (∃ s, run (Outbox.step 100) (new EventLog.emptyBoard.revision)
        (twoEvents 101 100 ++ [.select 0] ++ dispatch 0 0 ++ dispatch 0 1) = some s ∧
      ¬ s.RevisionOrdered) ∧
    ∃ s, run (Outbox.step 100) (new EventLog.emptyBoard.revision)
        (twoEvents 100 101 ++ [.select 0, .publishFails 0 false] ++ dispatch 0 0 ++
          [.finish 0, .select 0] ++ dispatch 0 1) = some s ∧
      ¬ s.RevisionOrdered :=
  ⟨⟨_, rfl, by decide⟩, ⟨_, rfl, by decide⟩⟩

end Outbox

end Kanban.Realtime
