import Kanban.Rpc.Announcing
import Kanban.Rpc.RefCounter

/-!
# The calls that announce what they change

Every mutation of a card keeps the discipline of the announcements.  A transaction that touches a
label, an assignee or the row of a card logs the event of the card before it is committed.

## Main definitions

* `DocSettled`, `DocFits` — a handler, and a part of a transaction, that keeps the discipline.
* `follows_updateCardRow`, `follows_insertBoardEvent` — the row of a card is written, and announced.
* `DocSettled.cardHandler` — every mutation.
-/

namespace Kanban.Rpc

open Program Kanban.Store Kanban.Auth
open Kanban.Services (AuthContext ConnectError IdCodec)

variable {ι α β τ : Type} [DecidableEq ι] {codec : IdCodec ι}

/-- A handler that announces what it changes. -/
abbrev DocSettled (codec : IdCodec ι) (p : Handler ι α) : Prop := p.Settled (announcing codec)

/-- A part of a transaction that leaves the documents, or announces what is its own. -/
abbrev DocFits (codec : IdCodec ι) (p : Handler ι α) : Prop := p.Fits (announcing codec)

/-! ## Parts of a transaction -/

section Writes

variable {db : Db ι} {a : Write (Rec ι)} {x : ι} {g g' : Debt ι}

omit [DecidableEq ι] in
theorem NoDoc.keepsFace (h : NoDoc a.record) : KeepsFace db a := by
  rcases a with (r | r) <;> cases r <;> first | exact trivial | exact h.elim

/-- The answers of calls settle no debt. -/
theorem owes_of_heard (h : (announcing codec).Heard g g') :
    g'.owes = g.owes ∧ ∀ x ∈ g.drawn, x ∈ g'.drawn := by
  induction h with
  | refl => exact ⟨rfl, fun _ h => h⟩
  | hear c r _ ih => exact ⟨ih.1, fun x hx => List.mem_append_right _ (ih.2 x hx)⟩

/-- What is owed does not change what is heard. -/
theorem heard_owes {o : Option (ι × Owing)} (h : (announcing codec).Heard g g') :
    (announcing codec).Heard { g with owes := o } { g' with owes := o } := by
  induction h with
  | refl => exact .refl _
  | hear c r _ ih => exact .hear c r ih

omit [DecidableEq ι] in
theorem PartOf.mono {d d' : List ι} (h : PartOf d db x a) (hd : ∀ y ∈ d, y ∈ d') :
    PartOf d' db x a := by
  rcases a with (r | r)
  · cases r
    case card c => exact h.imp_right (.imp_left (hd x))
    all_goals exact h
  · cases r <;> exact h

theorem keepsFace_updateCardRow {tenantId : String} {f : CardRow ι → CardRow ι}
    {e : Effect (Rec ι) (List (CardRow ι))} (hf : ∀ c, face (f c) = face c)
    (he : updateCardRow tenantId x f db = some e) : ∀ a ∈ e.writes, KeepsFace db a :=
  Table.forall_writes_update he fun c hc _ => ⟨c, hc, (hf c).symm⟩

theorem keepsFace_shiftCards {tenantId : String} {columnId : ι} {p : ℤ → Bool} {delta : ℤ}
    {e : Effect (Rec ι) (List (CardRow ι))}
    (he : shiftCards tenantId columnId p delta db = some e) : ∀ a ∈ e.writes, KeepsFace db a := by
  refine Table.forall_writes_updateChecked he fun c hc _ c' hf => ?_
  obtain ⟨n, -, rfl⟩ := Option.map_eq_some_iff.mp hf
  exact ⟨c, hc, rfl⟩

/-- What goes with a deleted card stands beside its row. -/
theorem detailOf_child {r : Rec ι} (h : r ∈ cardChildren db x) : DetailOf x r := by
  simp only [cardChildren, List.mem_append, List.mem_map] at h
  rcases h with ((((⟨r, hr, rfl⟩ | ⟨r, hr, rfl⟩) | ⟨r, -, rfl⟩) | ⟨r, -, rfl⟩) | ⟨r, -, rfl⟩) |
    ⟨r, -, rfl⟩
  · have hid : r.cardId = x := of_decide_eq_true (List.mem_filter.mp hr).2
    exact hid
  · have hid : r.cardId = x := of_decide_eq_true (List.mem_filter.mp hr).2
    exact hid
  all_goals trivial

/-- The id of a row that is inserted is not in use. -/
theorem unlogged_of_insert {row : EventRow ι} {e : Effect (Rec ι) Unit}
    (he : Db.eventLogT.insert row db = some e) : Unlogged db row := by
  unfold Table.insert at he
  split at he
  · cases he
  · rename_i hany
    exact fun e' he' hid => hany (List.any_eq_true.mpr ⟨e', he', decide_eq_true hid.symm⟩)

end Writes

namespace DocFits

/-- A statement that leaves the documents. -/
theorem query {msg : String} {s : Stmt (Db ι) (Rec ι) β}
    (hs : ∀ db e, s db = some e → ∀ a ∈ e.writes, KeepsFace db a) : DocFits codec (query msg s) :=
  fits_query fun _ db e he => .keep (hs db e he)

theorem within {T : Table (Db ι) (Rec ι) τ} {msg : String} {s : Stmt (Db ι) (Rec ι) β}
    (hT : ∀ r, NoDoc (T.record r)) (hs : T.Within s) : DocFits codec (Rpc.query msg s) :=
  query fun _ _ he a ha => NoDoc.keepsFace (Lenient.free_of_within hT hs he a ha)

theorem of_tame {p : Handler ι α} (hp : Tame p) : DocFits codec p :=
  .of_only hp fun _ _ ws hws => .keep fun a ha => by
    obtain ⟨r, rfl⟩ := hws a ha
    trivial

theorem bumpRevision {msg tenantId : String} {cardId : ι} :
    DocFits codec (bumpRevision msg tenantId cardId) :=
  .bind (.bind (query fun _ _ => keepsFace_updateCardRow fun _ => by rfl) fun _ =>
    of_tame .orError) fun _ => .pure _

theorem shiftCards {msg tenantId : String} {columnId : ι} {p : ℤ → Bool} {delta : ℤ} :
    DocFits codec (Rpc.query msg (shiftCards tenantId columnId p delta)) :=
  query fun _ _ => keepsFace_shiftCards

theorem insertPosition {tenantId : String} {columnId : ι} {position : ℤ} :
    DocFits codec (insertPosition tenantId columnId position) :=
  .ite (of_tame (.bind (.attempt (Tame.quiet_of_silent silent_nextPosition)) fun _ => .pure _))
    (.bind shiftCards fun _ => .pure _)

theorem shiftForMove {tenantId : String} {card : CardRow ι} {toColId : ι} {toPos : ℤ} :
    DocFits codec (shiftForMove tenantId card toColId toPos) := by
  refine .ite (.ite (.pure _) (.ite ?_ ?_)) ?_
  · exact .bind shiftCards fun _ => .pure _
  · exact .bind shiftCards fun _ => .pure _
  · exact .bind shiftCards fun _ => .bind shiftCards fun _ => .pure _

theorem allocateCardRef {tenantId : String} {projectId : ι} :
    DocFits codec (allocateCardRef tenantId projectId) := by
  refine .bind (query fun db e he => by cases he; simp) fun _ =>
    .bind (.bind (query fun db e he a ha => ?_) fun _ => of_tame .orError) fun _ => .pure _
  rcases nextCardRef_cases he with ⟨-, hwrites⟩ | ⟨r, -, -, hwrites, -⟩
  · rw [hwrites] at ha
    cases ha
  · rw [hwrites] at ha
    rw [List.mem_singleton.mp ha]
    trivial

/-- The event of no deleted card. -/
theorem insertBoardEvent {tenantId eventType : String} {boardId : ι} {payload : Payload}
    (htype : eventType ≠ "CardDeleted") :
    DocFits codec (insertBoardEvent tenantId boardId eventType payload) := by
  refine .bind (.bind (within (T := Db.boardsT) (fun _ => trivial) Table.within_update) fun _ =>
    of_tame .orError) fun _ => .bind (of_tame .newId) fun id => .bind (fits_query
    fun g db e he => ?_) fun _ => of_tame (.query fun db e he => by cases he; rfl)
  rw [Table.writes_insert he]
  refine .log (unlogged_of_insert he) (Option.eq_none_iff_forall_ne_some.mpr fun x hx => ?_)
  obtain ⟨y, -, h⟩ := Option.bind_eq_some_iff.mp (deletedCard_eq_some.mp hx)
  rw [if_neg htype] at h
  split at h <;> cases h

end DocFits

/-- Rows of the other tables are in no document. -/
theorem lenient_announcing : Lenient (announcing codec) NoDoc where
  auto _ _ hws a ha := .inl (hws a ha)
  move _ _ _ hws := .keep fun a ha => NoDoc.keepsFace (hws a ha)
  key _ := trivial
  bumpRevision := DocFits.bumpRevision
  cardUpdated := DocFits.insertBoardEvent (by decide)
  start _ h := (owes_of_heard h).1

/-! ## Cards -/

section Cards

variable {tenantId msg : String} {x : ι} {s : Stage (Debt ι)} {g : Debt ι} {d : List ι} {o : Owing}
  {Q : α → Stage (Debt ι) → Prop}

/-- A statement that touches the card of the debt, or a card when nothing is owed. -/
theorem follows_touch_bind {st : Stmt (Db ι) (Rec ι) β} {f : β → Handler ι α}
    (hs : Stage.At (announcing codec) g s) (howes : ∀ y o', g.owes = some (y, o') → y = x)
    (ho : o ≠ .gone)
    (hst : ∀ db e, st db = some e → (∀ a ∈ e.writes, PartOf g.drawn db x a) ∧
      Leaves db e.writes x o)
    (hf : ∀ b s', Stage.At (announcing codec) ⟨some (x, o), g.drawn⟩ s' →
      (f b).Follows (announcing codec) s' Q) :
    ((query msg st).bind f).Follows (announcing codec) s Q := by
  refine follows_query_bind hs (fun g₁ db e hg he => ?_) hf
  obtain ⟨howes₁, hdrawn⟩ := owes_of_heard hg
  obtain ⟨hpart, hleaves⟩ := hst db e he
  refine ⟨{ g₁ with owes := some (x, o) }, heard_owes hg, .touch (fun y o' hy => ?_)
    (fun a ha => (hpart a ha).mono hdrawn) hleaves fun h => absurd h ho⟩
  exact howes y o' (howes₁.symm.trans hy)

/-- A statement about what stands beside the row of the card. -/
theorem follows_more {st : Stmt (Db ι) (Rec ι) β} (hs : Stage.At (announcing codec) g s)
    (howes : g.owes = some (x, o))
    (hst : ∀ db e, st db = some e → ∀ a ∈ e.writes, DetailOf x a.record) :
    (query msg st).Follows (announcing codec) s fun _ s' => Stage.At (announcing codec) g s' := by
  cases hs with
  | aborted => exact trivial
  | active hg =>
      exact ⟨fun db e he => ⟨_, .more ((owes_of_heard hg).1.trans howes) (hst db e he),
        .active hg⟩, trivial⟩

theorem leaves_of_last {db : Db ι} {ws : List (Write (Rec ι))} {t : String}
    (hws : ∀ a ∈ ws, ∃ c, a = .put (.card c) ∧ c.id = x ∧ c.tenantId = t) (hne : ws ≠ []) :
    Leaves db ws x (.tenant t) := by
  obtain ⟨ws', a, rfl⟩ := List.eq_nil_or_concat ws |>.resolve_left hne
  rw [List.concat_eq_append] at hws ⊢
  obtain ⟨c, rfl, hid, ht⟩ := hws a (List.mem_append_right _ List.mem_cons_self)
  refine ⟨⟨_, List.mem_append_right _ List.mem_cons_self, c, rfl, hid⟩, ?_⟩
  rw [cardRow_applyAll, List.foldl_append]
  change (rowAfter x _ (.put (.card c))).map CardRow.tenantId = some t
  rw [rowAfter, if_pos hid]
  exact congrArg some ht

/-- The row of the card is written. -/
theorem follows_updateCardRow {f : CardRow ι → CardRow ι} {k : CardRow ι → Handler ι α}
    (hs : Stage.At (announcing codec) g s) (howes : ∀ y o', g.owes = some (y, o') → y = x)
    (hf : ∀ c, (f c).id = c.id ∧ (f c).tenantId = c.tenantId)
    (hk : ∀ row s', Stage.At (announcing codec) ⟨some (x, .tenant tenantId), g.drawn⟩ s' →
      (k row).Follows (announcing codec) s' Q) :
    ((fetchOne msg (updateCardRow tenantId x f)).bind k).Follows (announcing codec) s Q := by
  refine follows_fetchOne_bind ?_
  cases hs with
  | aborted => exact trivial
  | @active g₁ hg =>
      obtain ⟨howes₁, -⟩ := owes_of_heard hg
      refine ⟨fun db e he => ?_, trivial⟩
      cases hrow : e.answer.head? with
      | none =>
          -- no such card: the statement writes nothing, and the call fails
          refine ⟨g₁, .keep fun a ha => ?_, ?_⟩
          · cases he
            rw [List.head?_eq_none_iff] at hrow
            rw [List.map_eq_nil_iff.mp hrow] at ha
            cases ha
          · change ((orError _ e.answer.head?).bind k).Follows _ _ _
            rw [hrow]
            trivial
      | some row =>
          have hws : ∀ a ∈ e.writes, ∃ c₀ ∈ db.cards, ∃ c, a = .put (.card c) ∧ c.id = x ∧
              c.tenantId = tenantId ∧ c₀.id = x ∧ c₀.tenantId = tenantId := by
            refine Table.forall_writes_update he fun c hc hp => ?_
            obtain ⟨hid, ht⟩ := of_decide_eq_true hp
            exact ⟨c, hc, f c, rfl, (hf c).1.trans hid, (hf c).2.trans ht, hid, ht⟩
          refine ⟨{ g₁ with owes := some (x, .tenant tenantId) }, .touch (fun y o' hy =>
            howes y o' (howes₁.symm.trans hy)) (fun a ha => ?_) ?_ (by simp), ?_⟩
          · obtain ⟨c₀, hc₀, c, rfl, hid, ht, hid₀, ht₀⟩ := hws a ha
            exact ⟨hid, .inr ⟨c₀, hc₀, hid₀, ht₀.trans ht.symm⟩⟩
          · refine leaves_of_last (fun a ha => ?_) fun hnil => ?_
            · obtain ⟨c₀, hc₀, c, rfl, hid, ht, -⟩ := hws a ha
              exact ⟨c, rfl, hid, ht⟩
            · cases he
              have hnone := List.map_eq_nil_iff.mp hnil
              rw [List.head?_eq_none_iff.mpr (List.map_eq_nil_iff.mpr hnone)] at hrow
              cases hrow
          · change ((orError _ e.answer.head?).bind k).Follows _ _ _
            rw [hrow]
            exact hk row _ (.active (heard_owes hg))

theorem follows_bumpRevision (hs : Stage.At (announcing codec) g s)
    (howes : ∀ y o', g.owes = some (y, o') → y = x) :
    (bumpRevision msg tenantId x).Follows (announcing codec) s fun _ s' =>
      Stage.At (announcing codec) ⟨some (x, .tenant tenantId), g.drawn⟩ s' :=
  follows_updateCardRow hs howes (fun _ => ⟨rfl, rfl⟩) fun _ _ hs => hs

/-- **The event of the card** settles the debt. -/
theorem follows_insertBoardEvent {eventType : String} {boardId : ι} {payload : Payload}
    (hs : Stage.At (announcing codec) ⟨some (x, o), d⟩ s)
    (hfor : ∀ id revision, EventFor codec ⟨id, tenantId, some boardId, none, none, eventType,
      withBoardRevision payload revision⟩ x o) :
    (insertBoardEvent tenantId boardId eventType payload).Follows (announcing codec) s
      fun _ s' => Stage.At (announcing codec) ⟨none, d⟩ s' := by
  have hboard : DocFits codec (fetchOne "failed to bump board revision" (Db.boardsT.update
      (fun b => b.id = boardId) fun b => { b with revision := b.revision + 1 })) :=
    .bind (DocFits.within (T := Db.boardsT) (fun _ => trivial) Table.within_update) fun _ =>
      DocFits.of_tame .orError
  refine hboard.bind_follows hs fun board s₁ hs₁ => (DocFits.of_tame .newId).bind_follows hs₁
    fun id s₂ hs₂ => follows_query_bind hs₂ (fun g₁ db e hg he => ?_)
    fun _ s₃ (hs₃ : Stage.At (announcing codec) ⟨none, d⟩ s₃) => ?_
  · rw [Table.writes_insert he]
    exact ⟨_, heard_owes hg, .announce (unlogged_of_insert he) (owes_of_heard hg).1 (hfor _ _)⟩
  · exact DocFits.of_tame (.query fun db e he => by cases he; rfl) _ _ hs₃

/-- A new id. -/
theorem follows_newId_bind {f : ι → Handler ι α} (hs : Stage.At (announcing codec) g s)
    (hf : ∀ id g' s', id ∈ g'.drawn → g'.owes = g.owes → Stage.At (announcing codec) g' s' →
      (f id).Follows (announcing codec) s' Q) : (newId.bind f).Follows (announcing codec) s Q := by
  cases hs with
  | aborted => exact fun id => hf id ⟨g.owes, [id]⟩ _ List.mem_cons_self rfl .aborted
  | @active g₁ hg =>
      exact fun id => hf id ((announcing codec).hear g₁ .newId id) _ List.mem_cons_self
        (owes_of_heard hg).1 .start

theorem closed_of_heard (h : (announcing codec).Heard ⟨none, d⟩ g) : (announcing codec).closed g :=
  (owes_of_heard h).1

omit [DecidableEq ι] in
/-- What an event of the card says to the index. -/
theorem indexTask_of_payload {e : EventRow ι} {payload : Payload} {revision : ℤ}
    (hcard : payload.lookup "card_id" = some (.str (codec.toString x)))
    (he : e.payload = withBoardRevision payload revision) :
    indexTask codec e =
      if e.eventType ∈ ["CardCreated", "CardUpdated", "CardMoved", "CardTransferred"] then
        some (.index x)
      else if e.eventType = "CardDeleted" then some (.delete x) else none := by
  have hread : readId codec e.payload "card_id" = some x :=
    he ▸ readId_withBoardRevision hcard
  rw [indexTask, hread]
  rfl

omit [DecidableEq ι] in
/-- An event that has the card indexed. -/
theorem eventFor_tenant {eventType : String} {boardId : ι} {payload : Payload}
    (hcard : payload.lookup "card_id" = some (.str (codec.toString x)))
    (htype : eventType ∈ ["CardCreated", "CardUpdated", "CardMoved", "CardTransferred"])
    (id : ι) (revision : ℤ) :
    EventFor codec ⟨id, tenantId, some boardId, none, none, eventType,
      withBoardRevision payload revision⟩ x (.tenant tenantId) :=
  ⟨(indexTask_of_payload hcard rfl).trans (if_pos htype), rfl⟩

end Cards

/-! ## Handlers -/

namespace DocSettled

variable {pages : ℕ} {ctx : RequestContext} {tenantId key : String}

theorem of_tame {p : Handler ι α} (hp : Tame p) : DocSettled codec p :=
  lenient_announcing.settled_tame hp

theorem fetchOr {msg : String} {err : ConnectError} {T : Table (Db ι) (Rec ι) τ}
    {p : τ → Bool} : DocSettled codec (fetchOr msg err (T.select p)) :=
  of_tame (.fetchOr silent_select)

theorem orError {o : Option α} {e : ConnectError} : DocSettled codec (orError e o : Handler ι α) :=
  of_tame .orError

theorem ensure {p : Prop} [Decidable p] {e : ConnectError} :
    DocSettled codec (ensure p e : Handler ι Unit) := of_tame .ensure

/-- The shared transaction around a change beside the row of the card. -/
theorem touchCard {cardId : ι} {more : Payload} {body : Handler ι (α × (String × Atom))}
    (hbody : body.Follows (announcing codec) (.active ⟨none, []⟩) fun _ s =>
      Stage.At (announcing codec) ⟨some (cardId, .unknown), []⟩ s) :
    DocSettled codec (touchCard codec tenantId cardId more body) := by
  refine .bind fetchOr fun cur => follows_beginTx (.bind (hbody.mono fun b s hs => .bind
    ((follows_bumpRevision hs fun y o' hy => ?_).mono fun n s hs => .bind
    ((follows_insertBoardEvent hs (eventFor_tenant rfl (by simp))).mono fun _ s hs =>
      follows_commitTx_bind hs (fun _ => closed_of_heard) rfl))))
  cases hy
  rfl

theorem assignCard {req : AssignCardRequest} : DocSettled codec (assignCard codec ctx req) := by
  refine .bind orError fun _ => .bind orError fun cardId => .bind orError fun _ =>
    .bind ensure fun _ => .bind (of_tame .resolveSubject) fun _ => .bind (touchCard ?_) fun _ =>
    of_tame .fetchFullCard
  refine follows_touch_bind .start (fun y o hy => by cases hy) (by simp) (fun db e he => ?_)
    fun _ _ hs => hs
  refine ⟨fun a ha => ?_, trivial⟩
  cases he
  split at ha
  · cases ha
  · rw [List.mem_singleton.mp ha]
    rfl

theorem unassignCard {req : AssignCardRequest} : DocSettled codec (unassignCard codec ctx req) := by
  refine .bind orError fun _ => .bind orError fun cardId => .bind orError fun _ =>
    .bind (of_tame .resolveSubject) fun _ => .bind (touchCard ?_) fun _ => of_tame .fetchFullCard
  refine follows_touch_bind .start (fun y o hy => by cases hy) (by simp) (fun db e he => ?_)
    fun _ _ hs => hs
  refine ⟨fun a ha => ?_, trivial⟩
  cases he
  obtain ⟨r, hr, rfl⟩ := List.mem_map.mp ha
  have hkey := of_decide_eq_true (List.mem_filter.mp hr).2
  exact hkey.1

/-- The labels of one card after the other are replaced, each with its event. -/
theorem follows_insertCardLabels {cardId : ι} {labelIds : List ι} {s : Stage (Debt ι)}
    {g : Debt ι} {o : Owing} (hs : Stage.At (announcing codec) g s)
    (howes : g.owes = some (cardId, o)) :
    (insertCardLabels cardId labelIds).Follows (announcing codec) s fun _ s' =>
      Stage.At (announcing codec) g s' := by
  induction labelIds generalizing s with
  | nil => exact hs
  | cons labelId rest ih =>
      refine .bind ((follows_more hs howes fun db e he a ha => ?_).mono fun _ _ hs => ih hs)
      unfold insertCardLabel at he
      split at he
      · cases he
        split at ha
        · cases ha
        · rw [List.mem_singleton.mp ha]
          rfl
      · cases he

theorem follows_relabelCard {boardId cardId : ι} {labelIds : List ι} {s : Stage (Debt ι)}
    {d : List ι} (hs : Stage.At (announcing codec) ⟨none, d⟩ s) :
    (relabelCard codec tenantId boardId labelIds key cardId).Follows (announcing codec) s
      fun _ s' => Stage.At (announcing codec) ⟨none, d⟩ s' := by
  refine (DocFits.of_tame (.query silent_select)).bind_follows hs fun _ _ hs =>
    (DocFits.of_tame .ensure).bind_follows hs fun _ _ hs => follows_touch_bind (x := cardId)
    (o := .unknown) hs (fun y o hy => by cases hy) (by simp)
    (fun db e he => ⟨fun a ha => ?_, trivial⟩) fun _ s hs =>
    .bind ((follows_insertCardLabels hs rfl).mono fun _ s hs => .bind
    ((follows_bumpRevision hs fun y o hy => ?_).mono fun n s hs =>
      follows_insertBoardEvent hs (eventFor_tenant rfl (by simp))))
  · cases he
    obtain ⟨r, hr, rfl⟩ := List.mem_map.mp ha
    have hkey : r.cardId = cardId := of_decide_eq_true (List.mem_filter.mp hr).2
    exact hkey
  · cases hy
    rfl

theorem follows_relabelCards {boardId : ι} {labelIds cardIds : List ι} {s : Stage (Debt ι)}
    {d : List ι} (hs : Stage.At (announcing codec) ⟨none, d⟩ s) :
    (relabelCards codec tenantId boardId labelIds key cardIds).Follows (announcing codec) s
      fun _ s' => Stage.At (announcing codec) ⟨none, d⟩ s' := by
  induction cardIds generalizing s with
  | nil => exact hs
  | cons cardId rest ih => exact .bind ((follows_relabelCard hs).mono fun _ _ hs => ih hs)

theorem bulkUpdateCardLabels {req : BulkUpdateCardLabelsRequest} :
    DocSettled codec (bulkUpdateCardLabels codec ctx req) := by
  refine .bind orError fun _ => .bind orError fun _ => .bind orError fun _ => .ite (.pure _)
    (.bind (of_tame .checkIdempotencyCard) fun found => ?_)
  cases found with
  | some _ => exact of_tame .refetchCards
  | none =>
      refine follows_beginTx (.bind ((follows_relabelCards .start).mono fun _ _ hs =>
        follows_commitTx_bind hs (fun _ => closed_of_heard) ?_))
      cases (req.cardIds.filterMap codec.parse).head? with
      | none => exact of_tame .fetchCards
      | some first => exact of_tame (.bind .storeIdempotencyId fun _ => .fetchCards)

/-- The row is updated outside of the transaction of its event. -/
theorem updateCard {req : UpdateCardRequest} : DocSettled codec (updateCard codec ctx req) := by
  refine .bind orError fun _ => .bind orError fun _ => .bind orError fun _ =>
    .bind (of_tame .checkIdempotencyCard) fun found => ?_
  cases found with
  | some _ => exact of_tame .fetchFullCard
  | none =>
      refine .bind fetchOr fun cur => .bind (of_tame .milestonePatch) fun milestone =>
        .bind (.bind (.bind (settled_query fun db e he => ?_) fun _ => .pure _) fun _ => orError)
        fun _ => follows_beginTx ((DocFits.insertBoardEvent (by decide)).bind_follows .start
          fun _ _ hs => follows_commitTx_bind hs (fun _ => closed_of_heard)
            (of_tame (.bind .storeIdempotencyId fun _ => .fetchFullCard)))
      exact Table.forall_writes_update he fun c hc _ => .inr ⟨_, rfl, c, hc, rfl, rfl⟩

theorem placeCard {card : CardRow ι} {target : ColumnRow ι} {fromIsDone : Bool}
    {req : MoveCardRequest} :
    DocSettled codec (placeCard codec ctx tenantId card target fromIsDone req) :=
  follows_beginTx (DocFits.shiftForMove.bind_follows .start fun _ _ hs =>
    follows_updateCardRow hs (fun y o hy => by cases hy) (fun _ => ⟨rfl, rfl⟩) fun _ _ hs =>
    .bind ((follows_insertBoardEvent hs (eventFor_tenant rfl (by simp))).mono fun _ _ hs =>
    follows_commitTx hs fun _ => closed_of_heard))

theorem moveCard {req : MoveCardRequest} : DocSettled codec (moveCard codec pages ctx req) := by
  refine .bind orError fun _ => .bind orError fun _ => .bind orError fun _ => .bind orError fun _ =>
    .bind (of_tame .checkIdempotencyCard) fun found => ?_
  cases found with
  | some _ => exact of_tame .fetchFullCard
  | none =>
      refine .bind fetchOr fun card => .bind fetchOr fun target =>
        .fork (.pure _) (of_tame .sourceIsDone) fun fromIsDone => .bind fetchOr fun _ =>
        .bind ensure fun _ => .bind placeCard fun _ => ?_
      exact of_tame (.ite (.bind .tenantClientFor fun _ => .bind .rehomeParent fun _ =>
        .bind .storeIdempotencyId fun _ => .fetchFullCard)
        (.bind .storeIdempotencyId fun _ => .fetchFullCard))

/-- A new card has an id that its transaction was issued. -/
theorem insertNewCard {subject : String} {board : BoardRow ι} {column : ColumnRow ι}
    {req : CreateCardRequest} :
    DocSettled codec (insertNewCard codec ctx subject tenantId board column req) := by
  refine follows_beginTx (DocFits.allocateCardRef.bind_follows .start fun cardRef _ hs =>
    follows_newId_bind hs fun cardId g s hdrawn howes hs =>
    DocFits.insertPosition.bind_follows hs fun position _ hs =>
    (DocFits.of_tame .checkMilestone).bind_follows hs fun milestoneId _ hs =>
    follows_touch_bind (x := cardId) (o := .tenant tenantId) hs (fun y o hy => ?_) (by simp)
      (fun db e he => ?_) fun _ _ hs =>
    .bind ((follows_insertBoardEvent hs (eventFor_tenant rfl (by simp))).mono fun _ _ hs =>
    follows_commitTx_bind hs (fun _ => closed_of_heard) rfl))
  · rw [howes] at hy
    cases hy
  · rw [writes_insertCard he]
    refine ⟨fun a ha => ?_, leaves_of_last (fun a ha => ?_) (List.cons_ne_nil _ _)⟩
    · rw [List.mem_singleton.mp ha]
      exact ⟨rfl, .inl hdrawn⟩
    · exact ⟨_, List.mem_singleton.mp ha, rfl, rfl⟩

theorem createCard {req : CreateCardRequest} : DocSettled codec (createCard codec ctx req) := by
  refine .bind orError fun _ => .bind orError fun _ => .bind orError fun _ => .bind orError fun _ =>
    .bind ensure fun _ => .bind (of_tame .checkIdempotencyCard) fun found => ?_
  cases found with
  | some _ => exact of_tame .fetchFullCard
  | none =>
      exact .bind fetchOr fun _ => .bind orError fun _ => .bind fetchOr fun _ =>
        .bind insertNewCard fun _ => of_tame (.bind .tenantClientFor fun _ =>
        .bind .grantWithRetry fun _ => .bind .storeIdempotencyId fun _ => .fetchFullCard)

/-- The first of the two events settles the debt. -/
theorem relocateCard {card : CardRow ι} {projectId : ι} {target : ColumnRow ι}
    {fromIsDone : Bool} :
    DocSettled codec (relocateCard codec ctx tenantId card projectId target fromIsDone key) := by
  refine follows_beginTx (DocFits.allocateCardRef.bind_follows .start fun newRef _ hs =>
    (DocFits.of_tame (.query silent_nextPosition)).bind_follows hs fun toPos _ hs =>
    follows_updateCardRow hs (fun y o hy => by cases hy) (fun _ => ⟨rfl, rfl⟩) fun row _ hs =>
    .bind ((follows_more hs rfl fun db e he a ha => ?_).mono fun _ _ hs =>
    .bind ((follows_insertBoardEvent hs (eventFor_tenant rfl (by simp))).mono fun _ _ hs =>
    (DocFits.insertBoardEvent (by decide)).bind_follows hs fun _ _ hs =>
    follows_commitTx hs fun _ => closed_of_heard)))
  cases he
  obtain ⟨r, hr, rfl⟩ := List.mem_map.mp ha
  have hkey := of_decide_eq_true (List.mem_filter.mp hr).2
  exact hkey.1

theorem transferCard {req : TransferCardRequest} :
    DocSettled codec (transferCard codec pages ctx req) := by
  refine .bind orError fun _ => .bind orError fun _ => .bind orError fun _ => .bind orError fun _ =>
    .bind orError fun _ => .bind (of_tame .checkIdempotencyCard) fun found => ?_
  cases found with
  | some _ => exact of_tame .replayTransfer
  | none =>
      exact .bind fetchOr fun _ => .bind fetchOr fun _ => .bind ensure fun _ =>
        .bind (of_tame .checkTargetBoard) fun _ => .bind fetchOr fun _ => .bind ensure fun _ =>
        .bind (of_tame .sourceIsDone) fun _ => .bind relocateCard fun _ =>
        of_tame (.bind .rehomeParent fun _ => .bind .storeIdempotencyId fun _ =>
        .bind .fetchFullCard fun _ => .pure _)

/-- The statement removes the row of the card and what stands beside it. -/
theorem parts_of_deleteCardRow {cardId : ι} {db : Db ι} {e : Effect (Rec ι) (List (CardRow ι))}
    (he : deleteCardRow tenantId cardId db = some e) : e.answer = [] ∧ e.writes = [] ∨
      (∀ a ∈ e.writes, PartOf [] db cardId a) ∧ Leaves db e.writes cardId .gone := by
  obtain rfl := deleteCardRow_some he
  generalize hrows : (db.cards.filter fun c => c.id = cardId ∧ c.tenantId = tenantId) = rows
  cases rows with
  | nil => exact .inl ⟨rfl, rfl⟩
  | cons c₀ rest =>
      have hmem : ∀ c ∈ c₀ :: rest, c ∈ db.cards ∧ c.id = cardId := fun c hc => by
        rw [← hrows] at hc
        exact ⟨(List.mem_filter.mp hc).1, (of_decide_eq_true (List.mem_filter.mp hc).2).1⟩
      have hdel : .del (.card c₀) ∈ (c₀ :: rest).map (fun c => Write.del (Rec.card c)) ++
          (cardChildren db cardId).map .del := List.mem_append_left _ List.mem_cons_self
      refine .inr ⟨fun a ha => ?_, ⟨_, hdel, c₀, rfl, (hmem c₀ List.mem_cons_self).2⟩, ?_⟩
      · rcases List.mem_append.mp ha with ha | ha
        · obtain ⟨c, hc, rfl⟩ := List.mem_map.mp ha
          exact ⟨(hmem c hc).2, (hmem c hc).1⟩
        · obtain ⟨r, hr, rfl⟩ := List.mem_map.mp ha
          have hr : r ∈ cardChildren db cardId := hr
          have hdetail := detailOf_child hr
          cases r
          case card c => exact hdetail.elim
          all_goals exact hdetail
      · refine cardRow_eq_none.mpr fun c hc hid => ?_
        rcases stored_cards.mem_applyAll hc with hput | ⟨-, hkeep⟩
        · rcases List.mem_append.mp hput with h | h
          · obtain ⟨c, -, heq⟩ := List.mem_map.mp h
            cases heq
          · obtain ⟨r, -, heq⟩ := List.mem_map.mp h
            cases heq
        · have hsame := hkeep _ hdel c₀ rfl
          exact Bool.eq_false_iff.mp hsame (decide_eq_true
            ((hmem c₀ List.mem_cons_self).2.trans hid.symm))

theorem deleteCard : DocSettled codec (deleteCard (ι := ι) codec pages ctx) := by
  refine .bind orError fun _ => .bind orError fun cardId => .bind orError fun tenantId =>
    .bind fetchOr fun cur => follows_beginTx ⟨fun db e he => ?_, trivial⟩
  rcases parts_of_deleteCardRow he with ⟨hanswer, hwrites⟩ | ⟨hparts, hleaves⟩
  · -- no card: the call fails
    refine ⟨_, .keep (by simp [hwrites]), ?_⟩
    rw [hanswer]
    trivial
  · refine ⟨_, .touch (x := cardId) (o := .gone) (fun y o hy => by cases hy) hparts hleaves
      (by simp [announcing]), ?_⟩
    refine (DocFits.of_tame .ensure).bind_follows .start fun _ _ hs =>
      .bind ((follows_insertBoardEvent hs fun id revision => ?_).mono fun _ _ hs =>
      follows_commitTx_bind hs (fun _ => closed_of_heard) (of_tame (.bind .tenantClientFor fun _ =>
        .bind .deleteRelationTuples fun _ => .pure _)))
    exact (indexTask_of_payload rfl rfl).trans (by simp)

/-- **Every mutation of a card.** -/
theorem cardHandler {call : CardCall} : DocSettled codec (cardHandler codec pages ctx call) := by
  have h : Lenient (announcing codec) NoDoc := lenient_announcing
  cases call with
  | createCard req => exact .bind createCard fun _ => .pure _
  | updateCard req => exact .bind updateCard fun _ => .pure _
  | moveCard req => exact .bind moveCard fun _ => .pure _
  | transferCard req => exact .bind transferCard fun _ => .pure _
  | deleteCard => exact .bind deleteCard fun _ => .pure _
  | addCardDependency req => exact .bind (h.addCardDependency fun _ => trivial) fun _ => .pure _
  | removeCardDependency req =>
      exact .bind (h.removeCardDependency fun _ => trivial) fun _ => .pure _
  | bulkUpdateCardLabels req => exact .bind bulkUpdateCardLabels fun _ => .pure _
  | assignCard req => exact .bind assignCard fun _ => .pure _
  | unassignCard req => exact .bind unassignCard fun _ => .pure _
  | addChecklistItem req => exact .bind (h.addChecklistItem fun _ => trivial) fun _ => .pure _
  | updateChecklistItem req =>
      exact .bind (h.updateChecklistItem fun _ => trivial) fun _ => .pure _
  | removeChecklistItem req =>
      exact .bind (h.removeChecklistItem fun _ => trivial) fun _ => .pure _
  | addComment req => exact .bind (h.addComment fun _ => trivial) fun _ => .pure _
  | editComment req => exact .bind (h.editComment fun _ => trivial) fun _ => .pure _
  | deleteComment req => exact .bind (h.deleteComment fun _ => trivial) fun _ => .pure _

end DocSettled

end Kanban.Rpc
