import Kanban.Rpc.Placement

/-!
# The transactions of CardService

Every handler of the service but two commits one transaction, and that transaction makes one
change of the placement.  The rules below follow the writes of a transaction while it is open:
`Builds` says which change they make so far and which event rows they hold.

## Main definitions

* `PlainWrite` — a write about neither a card nor a column nor an event.
* `Builds` — what the writes of an open transaction amount to.
* `Fills` — a program inside a transaction that leaves every card where it is.
-/

namespace Kanban.Rpc

open Program Kanban.Store Kanban.Auth
open Kanban.Services (AuthContext ConnectError IdCodec)

variable {ι α β : Type} [DecidableEq ι] {Good : Commitment (Rec ι) (Call ι) (Reply ι)}
  {codec : IdCodec ι} {tr₀ tr tr' : Trace (Rec ι) (Call ι) (Reply ι)}
  {ws ws' : List (Write (Rec ι))} {change : Change ι} {evs : List (EventRow ι)}
  {B : α → Tx (Rec ι) → Trace (Rec ι) (Call ι) (Reply ι) → Prop}

/-! ## The writes of an open transaction -/

/-- A row of a table that holds neither cards nor columns nor events. -/
def PlainRow : Rec ι → Prop
  | .card _ => False
  | .column _ => False
  | .event _ => False
  | _ => True

/-- A write of such a row. -/
def PlainWrite (a : Write (Rec ι)) : Prop := PlainRow a.record

omit [DecidableEq ι] in
/-- A plain write is about none of them. -/
theorem PlainWrite.inert {a : Write (Rec ι)} (h : PlainWrite a) :
    cardWrite a = none ∧ eventWrite a = none ∧ (∀ k, a.record ≠ .column k) ∧
      ∀ e, a ≠ .del (.event e) := by
  rcases a with (r | r)
  · cases r with
    | card c => exact h.elim
    | column k => exact h.elim
    | event e => exact h.elim
    | _ => exact ⟨rfl, rfl, fun k => nofun, fun e => nofun⟩
  · cases r with
    | card c => exact h.elim
    | column k => exact h.elim
    | event e => exact h.elim
    | _ => exact ⟨rfl, rfl, fun k => nofun, fun e => nofun⟩

omit [DecidableEq ι] in
theorem plain_of_within {τ : Type} {T : Table (Db ι) (Rec ι) τ} {s : Stmt (Db ι) (Rec ι) α}
    (hT : ∀ r, PlainRow (T.record r)) (hs : T.Within s) {db : Db ι} {e : Effect (Rec ι) α}
    (he : s db = some e) : ∀ a ∈ e.writes, PlainWrite a := by
  intro a ha
  rcases hs db e he a ha with ⟨r, rfl | rfl⟩
  · exact hT r
  · exact hT r

/-- A write of a card that leaves it where the call has read it. -/
def StayWrite (tr : Trace (Rec ι) (Call ι) (Reply ι)) (a : Write (Rec ι)) : Prop :=
  ∃ c c', a = .put (.card c') ∧ Saw tr (.card c) ∧ c'.id = c.id ∧ c'.boardId = c.boardId ∧
    c'.columnId = c.columnId

/-- The writes of a transaction so far make the change and hold the event rows. -/
structure Builds (tr₀ tr : Trace (Rec ι) (Call ι) (Reply ι)) (ws : List (Write (Rec ι)))
    (change : Change ι) (evs : List (EventRow ι)) : Prop where
  past : tr₀ <:+ tr
  cards : ∃ l l', cardWrites ws = l ++ l' ∧ (∀ a ∈ l, Reshuffles tr a) ∧ Lands change l'
  events : eventWrites ws = evs
  ids : (evs.map EventRow.id).reverse.Sublist (newIds tr)
  keeps : ∀ a ∈ ws, (∀ k, a.record ≠ .column k) ∧ ∀ e, a ≠ .del (.event e)

section Builds

omit [DecidableEq ι]

theorem newIds_sublist (h : tr <:+ tr') : (newIds tr).Sublist (newIds tr') := by
  obtain ⟨l, rfl⟩ := h
  unfold newIds
  rw [List.filterMap_append]
  exact List.sublist_append_right _ _

theorem cardWrites_of_plain (h : ∀ a ∈ ws, PlainWrite a) : cardWrites ws = [] :=
  List.filterMap_eq_nil_iff.mpr fun a ha => (h a ha).inert.1

theorem eventWrites_of_plain (h : ∀ a ∈ ws, PlainWrite a) : eventWrites ws = [] :=
  List.filterMap_eq_nil_iff.mpr fun a ha => (h a ha).inert.2.1

namespace Builds

theorem start (h : tr₀ <:+ tr) : Builds tr₀ tr ([] : List (Write (Rec ι))) .stay [] where
  past := h
  cards := ⟨[], [], rfl, by simp, rfl⟩
  events := rfl
  ids := List.nil_sublist _
  keeps := by simp

/-- The transaction does nothing. -/
theorem grow (h : Builds tr₀ tr ws change evs) (hs : tr <:+ tr') :
    Builds tr₀ tr' ws change evs where
  past := h.past.trans hs
  cards := by
    obtain ⟨l, l', hl, hstay, hland⟩ := h.cards
    refine ⟨l, l', hl, fun a ha => ?_, hland⟩
    obtain ⟨c, hc, heff⟩ := hstay a ha
    exact ⟨c, hc.of_suffix hs, heff⟩
  events := h.events
  ids := h.ids.trans (newIds_sublist hs)
  keeps := h.keeps

theorem plain (h : Builds tr₀ tr ws change evs) (hp : ∀ a ∈ ws', PlainWrite a) :
    Builds tr₀ tr (ws ++ ws') change evs where
  past := h.past
  cards := by
    obtain ⟨l, l', hl, hstay, hland⟩ := h.cards
    refine ⟨l, l', ?_, hstay, hland⟩
    rw [cardWrites_append, cardWrites_of_plain hp, List.append_nil, hl]
  events := by rw [eventWrites_append, eventWrites_of_plain hp, List.append_nil, h.events]
  ids := h.ids
  keeps := by
    intro a ha
    rcases List.mem_append.mp ha with ha | ha
    · exact h.keeps a ha
    · exact (hp a ha).inert.2.2

theorem stay (h : Builds tr₀ tr ws .stay evs) (hs : ∀ a ∈ ws', StayWrite tr a) :
    Builds tr₀ tr (ws ++ ws') .stay evs where
  past := h.past
  cards := by
    obtain ⟨l, l', hl, hstay, rfl⟩ := h.cards
    refine ⟨l ++ cardWrites ws', [], ?_, ?_, rfl⟩
    · rw [cardWrites_append, hl, List.append_nil, List.append_nil]
    · intro b hb
      rcases List.mem_append.mp hb with hb | hb
      · exact hstay b hb
      · obtain ⟨a, ha, hab⟩ := List.mem_filterMap.mp hb
        obtain ⟨c, c', rfl, hc, hid, hboard, hcolumn⟩ := hs a ha
        cases hab
        exact ⟨c, hc, by simp [effectOf, hid, hboard, hcolumn]⟩
  events := by
    have hnil : eventWrites ws' = [] := List.filterMap_eq_nil_iff.mpr fun a ha => by
      obtain ⟨c, c', rfl, -⟩ := hs a ha
      rfl
    rw [eventWrites_append, hnil, List.append_nil, h.events]
  ids := h.ids
  keeps := by
    intro a ha
    rcases List.mem_append.mp ha with ha | ha
    · exact h.keeps a ha
    · obtain ⟨c, c', rfl, -⟩ := hs a ha
      exact ⟨fun k => nofun, fun e => nofun⟩

/-- The writes that put the card in its new place. -/
theorem land (change : Change ι) {l : List (Write (CardRow ι))} (h : Builds tr₀ tr ws .stay evs)
    (hl : Lands change l)
    (hws : ws' = l.map fun
      | .put c => .put (.card c)
      | .del c => .del (.card c)) :
    Builds tr₀ tr (ws ++ ws') change evs := by
  have hcards : cardWrites ws' = l := by
    rw [hws, cardWrites, List.filterMap_map]
    conv_rhs => rw [← List.filterMap_some (l := l)]
    refine List.filterMap_congr fun a _ => ?_
    cases a <;> rfl
  refine ⟨h.past, ?_, ?_, h.ids, fun a ha => ?_⟩
  · obtain ⟨l₀, l', hl₀, hstay, rfl⟩ := h.cards
    refine ⟨l₀, l, ?_, hstay, hl⟩
    rw [cardWrites_append, hl₀, hcards, List.append_nil]
  · have hnil : eventWrites ws' = [] := List.filterMap_eq_nil_iff.mpr fun a ha => by
      rw [hws] at ha
      obtain ⟨b, -, rfl⟩ := List.mem_map.mp ha
      cases b <;> rfl
    rw [eventWrites_append, hnil, List.append_nil, h.events]
  · rcases List.mem_append.mp ha with ha | ha
    · exact h.keeps a ha
    · rw [hws] at ha
      obtain ⟨b, -, rfl⟩ := List.mem_map.mp ha
      constructor <;> intro k hk <;> cases b <;> cases hk

/-- An event row with an id that was just issued. -/
theorem event {e : EventRow ι} (h : Builds tr₀ tr ws change evs) :
    Builds tr₀ (.called .newId e.id :: tr) (ws ++ [.put (.event e)]) change (evs ++ [e]) := by
  have hgrow := h.grow (List.suffix_cons (.called .newId e.id) tr)
  refine ⟨hgrow.past, ?_, ?_, ?_, fun a ha => ?_⟩
  · obtain ⟨l, l', hl, hrest⟩ := hgrow.cards
    refine ⟨l, l', ?_, hrest⟩
    rw [cardWrites_append, hl]
    exact List.append_nil _
  · rw [eventWrites_append, h.events]
    rfl
  · rw [List.map_append, List.reverse_append]
    exact h.ids.cons_cons e.id
  · rcases List.mem_append.mp ha with ha | ha
    · exact h.keeps a ha
    · rw [List.mem_singleton.mp ha]
      exact ⟨fun k => nofun, fun e => nofun⟩

/-- What a transaction commits. -/
theorem makes (h : Builds tr₀ tr ws change evs) (hevents : readEvents codec evs = change.events)
    (horigin : Origin tr change) (hcolumn : SawColumn tr change) : Makes codec tr ws change where
  cards := h.cards
  events := h.events ▸ hevents
  ids := h.events ▸ h.ids
  keeps := h.keeps
  origin := horigin
  column := hcolumn

end Builds

end Builds

/-! ## Statements of a transaction -/

section Statements

/-- An update of cards that changes no place. -/
theorem stay_update {p : CardRow ι → Bool} {f : CardRow ι → CardRow ι}
    (hf : ∀ c, (f c).id = c.id ∧ (f c).boardId = c.boardId ∧ (f c).columnId = c.columnId)
    {db : Db ι} {e : Effect (Rec ι) (List (CardRow ι))} (h : Db.cardsT.update p f db = some e) :
    ∀ a ∈ e.writes, StayWrite (.ran e.read :: tr) a := by
  intro a ha
  obtain ⟨c, -, hread, rfl⟩ := Table.mem_writes_update h ha
  exact ⟨c, f c, rfl, saw_ran hread, hf c⟩

theorem stay_shiftCards {tenantId : String} {columnId : ι} {p : ℤ → Bool} {delta : ℤ} {db : Db ι}
    {e : Effect (Rec ι) (List (CardRow ι))}
    (h : shiftCards tenantId columnId p delta db = some e) :
    ∀ a ∈ e.writes, StayWrite (.ran e.read :: tr) a := by
  intro a ha
  obtain ⟨c, c', -, hread, hf, rfl⟩ := Table.mem_writes_updateChecked h ha
  obtain ⟨n, -, rfl⟩ := Option.map_eq_some_iff.mp hf
  exact ⟨c, _, rfl, saw_ran hread, rfl, rfl, rfl⟩

/-- An update of one card that gives it a place. -/
theorem lands_updateCardRow (change : Change ι) {tenantId : String} {card board column : ι}
    {f : CardRow ι → CardRow ι} {db : Db ι} {e : Effect (Rec ι) (List (CardRow ι))}
    {row : CardRow ι} (h : updateCardRow tenantId card f db = some e)
    (hrow : e.answer.head? = some row) (hw : Builds tr₀ tr ws .stay evs)
    (htarget : change.target = some (card, some (board, column)))
    (hf : ∀ c, (f c).id = c.id ∧ (f c).boardId = board ∧ (f c).columnId = column) :
    Builds tr₀ (.ran e.read :: tr) (ws ++ e.writes) change evs := by
  cases h
  refine (hw.grow (List.suffix_cons _ _)).land change (l := (db.cards.filter fun c =>
    c.id = card ∧ c.tenantId = tenantId).map fun c => .put (f c)) ?_ ?_
  · unfold Lands
    rw [htarget]
    refine ⟨?_, fun a ha => ?_⟩
    · intro hnil
      obtain ⟨c, hc, -⟩ := List.mem_map.mp (List.mem_of_mem_head? hrow)
      have hempty := List.map_eq_nil_iff.mp hnil
      exact absurd hc (hempty ▸ List.not_mem_nil)
    · obtain ⟨c, hc, rfl⟩ := List.mem_map.mp ha
      obtain ⟨hid, hboard, hcolumn⟩ := hf c
      have hcard : c.id = card ∧ c.tenantId = tenantId := by simpa using (List.mem_filter.mp hc).2
      simp [effectOf, hid, hboard, hcolumn, hcard.1]
  · simp

/-- A deletion takes the card off its board, and what is on the card with it. -/
theorem lands_deleteCardRow (source : ι) {tenantId : String} {card : ι} {db : Db ι}
    {e : Effect (Rec ι) (List (CardRow ι))} (h : deleteCardRow tenantId card db = some e)
    (hne : e.answer ≠ []) (hw : Builds tr₀ tr ws .stay evs) :
    Builds tr₀ (.ran e.read :: tr) (ws ++ e.writes) (.delete card source) evs := by
  obtain rfl := deleteCardRow_some h
  rw [if_neg hne, ← List.append_assoc]
  refine ((hw.grow (List.suffix_cons _ _)).land (.delete card source) (l := (db.cards.filter fun c => c.id = card ∧ c.tenantId = tenantId).map .del)
    ⟨?_, fun a ha => ?_⟩ ?_).plain fun a ha => ?_
  · intro hnil
    exact hne (List.map_eq_nil_iff.mp hnil)
  · obtain ⟨c, hc, rfl⟩ := List.mem_map.mp ha
    have hcard : c.id = card ∧ c.tenantId = tenantId := by simpa using (List.mem_filter.mp hc).2
    simp [effectOf, hcard.1]
  · simp
  · obtain ⟨r, hr, rfl⟩ := List.mem_map.mp ha
    simp only [cardChildren, List.mem_append, List.mem_map] at hr
    rcases hr with ((((⟨r, -, rfl⟩ | ⟨r, -, rfl⟩) | ⟨r, -, rfl⟩) | ⟨r, -, rfl⟩) | ⟨r, -, rfl⟩) |
      ⟨r, -, rfl⟩ <;> trivial

theorem writes_insertCard {row : CardRow ι} {db : Db ι} {e : Effect (Rec ι) Unit}
    (h : insertCard row db = some e) : e.writes = [.put (.card row)] := by
  unfold insertCard at h
  split at h
  · cases h
  · exact Table.writes_insert h

/-- The transaction changes the revision of a card. -/
theorem runs_bumpRevision {msg tenantId : String} {cardId : ι}
    {B : ℤ → Tx (Rec ι) → Trace (Rec ι) (Call ι) (Reply ι) → Prop}
    (hw : Builds tr₀ tr ws .stay evs)
    (h : ∀ n ws' tr', Builds tr₀ tr' ws' .stay evs → cardWrites ws' ≠ [] → tr <:+ tr' →
      B n (.active ws') tr') :
    Runs (kanban ι) Good (bumpRevision msg tenantId cardId) (.active ws) tr B := by
  refine runs_bind (runs_fetchOne_active fun db e row he hrow => runs_pure ?_)
  have hstay : ∀ a ∈ e.writes, StayWrite (.ran e.read :: tr) a := by
    refine stay_update ?_ he
    exact fun c => ⟨rfl, rfl, rfl⟩
  refine h _ _ _ ((hw.grow (List.suffix_cons _ _)).stay hstay) ?_ (List.suffix_cons _ _)
  cases he
  rw [cardWrites_append, cardWrites, cardWrites, List.filterMap_map]
  intro hnil
  have hnil := (List.append_eq_nil_iff.mp hnil).2
  rw [List.filterMap_eq_nil_iff] at hnil
  obtain ⟨c, hc, -⟩ := List.mem_map.mp (List.mem_of_mem_head? hrow)
  exact absurd (hnil c hc) (by simp [cardWrite])

/-- The transaction gets the row of one event. -/
theorem runs_insertBoardEvent {tenantId : String} {boardId : ι} {eventType : String}
    {payload : Payload} {B : Unit → Tx (Rec ι) → Trace (Rec ι) (Call ι) (Reply ι) → Prop}
    (hw : Builds tr₀ tr ws change evs)
    (h : ∀ e revision ws' tr', Builds tr₀ tr' ws' change (evs ++ [e]) →
      cardWrites ws' = cardWrites ws → tr <:+ tr' → e.boardId = some boardId →
      e.eventType = eventType → e.payload = withBoardRevision payload revision →
      B () (.active ws') tr') :
    Runs (kanban ι) Good (insertBoardEvent tenantId boardId eventType payload) (.active ws) tr B := by
  refine runs_bind (runs_fetchOne_active fun db e board he _ => ?_)
  have hplain : ∀ a ∈ e.writes, PlainWrite a :=
    plain_of_within (T := Db.boardsT) (fun _ => trivial) Table.within_update he
  refine runs_bind (runs_newId fun id => runs_bind (runs_query_active fun db' e' he' => ?_))
  rw [Table.writes_insert he']
  refine runs_read_active (fun db e he => by cases he; rfl) fun db'' e'' _ => ?_
  have hevent := ((hw.grow (List.suffix_cons (.ran e.read) tr)).plain hplain).event
    (e := ⟨id, tenantId, some boardId, none, none, eventType,
      withBoardRevision payload board.revision⟩)
  refine h _ board.revision _ _ (hevent.grow ⟨[.ran e''.read, .ran e'.read], rfl⟩) ?_
    ⟨[.ran e''.read, .ran e'.read, .called .newId id, .ran e.read], rfl⟩ rfl rfl rfl
  rw [cardWrites_append, cardWrites_append, cardWrites_of_plain hplain]
  simp [cardWrites, cardWrite]

end Statements

/-! ## What a transaction does besides -/

/-- The program goes on in a transaction that so far leaves every card where it is. -/
def Fills (Good : Commitment (Rec ι) (Call ι) (Reply ι)) (p : Handler ι α) : Prop :=
  ∀ ⦃tr₀ tr ws evs⦄, Builds tr₀ tr ws .stay evs → Runs (kanban ι) Good p (.active ws) tr
    fun _ tx tr' => ∃ ws', tx = .active ws' ∧ tr <:+ tr' ∧ Builds tr₀ tr' ws' .stay evs

namespace Fills

theorem pure (a : α) : Fills Good (.pure a : Handler ι α) := fun _ _ ws _ hw =>
  runs_pure ⟨ws, rfl, List.suffix_rfl, hw⟩

theorem bind {p : Handler ι α} {f : α → Handler ι β} (hp : Fills Good p)
    (hf : ∀ a, Fills Good (f a)) : Fills Good (p.bind f) := by
  intro tr₀ tr ws evs hw
  refine runs_bind ((hp hw).mono fun a tx tr' h => ?_)
  obtain ⟨ws', rfl, htr, hw'⟩ := h
  refine (hf a hw').mono fun b tx tr'' h => ?_
  obtain ⟨ws'', rfl, htr', hw''⟩ := h
  exact ⟨ws'', rfl, htr.trans htr', hw''⟩

/-- The rest of a transaction after something that fills it. -/
theorem bind_runs {p : Handler ι β} {f : β → Handler ι α} (hp : Fills Good p)
    (hw : Builds tr₀ tr ws .stay evs)
    (h : ∀ b ws' tr', Builds tr₀ tr' ws' .stay evs → tr <:+ tr' →
      Runs (kanban ι) Good (f b) (.active ws') tr' B) :
    Runs (kanban ι) Good (p.bind f) (.active ws) tr B :=
  runs_bind ((hp hw).mono fun b tx tr' hfill => by
    obtain ⟨ws', rfl, htr, hw'⟩ := hfill
    exact h b ws' tr' hw' htr)

theorem ensure {p : Prop} [Decidable p] {e : ConnectError} :
    Fills Good (ensure p e : Handler ι Unit) := fun _ _ ws _ hw =>
  runs_ensure fun _ => ⟨ws, rfl, List.suffix_rfl, hw⟩

theorem orError {o : Option α} {e : ConnectError} : Fills Good (orError e o : Handler ι α) :=
  fun _ _ ws _ hw => runs_orError fun _ _ => ⟨ws, rfl, List.suffix_rfl, hw⟩

theorem ite {c : Prop} [Decidable c] {p q : Handler ι α} (hp : Fills Good p)
    (hq : Fills Good q) : Fills Good (if c then p else q) := by
  split
  · exact hp
  · exact hq

theorem newId : Fills Good (newId : Handler ι ι) := fun _ _ ws _ hw =>
  runs_newId fun _ => ⟨ws, rfl, List.suffix_cons _ _, hw.grow (List.suffix_cons _ _)⟩

/-- A statement that writes nothing of the cards, the columns and the events. -/
theorem plain {msg : String} {s : Stmt (Db ι) (Rec ι) α}
    (hs : ∀ db e, s db = some e → ∀ a ∈ e.writes, PlainWrite a) : Fills Good (query msg s) :=
  fun _ _ _ _ hw => runs_query_active fun db e he =>
    ⟨_, rfl, List.suffix_cons _ _, (hw.grow (List.suffix_cons _ _)).plain (hs db e he)⟩

theorem within {τ : Type} {T : Table (Db ι) (Rec ι) τ} {msg : String} {s : Stmt (Db ι) (Rec ι) α}
    (hT : ∀ r, PlainRow (T.record r)) (hs : T.Within s) : Fills Good (query msg s) :=
  plain fun _ _ => plain_of_within hT hs

theorem read {msg : String} {s : Stmt (Db ι) (Rec ι) α} (hs : Silent s) :
    Fills Good (query msg s) := plain fun db e he a ha => by
  rw [hs db e he] at ha
  cases ha

theorem fetchOptional {msg : String} {s : Stmt (Db ι) (Rec ι) (List α)} (hs : Silent s) :
    Fills Good (fetchOptional msg s) := bind (read hs) fun _ => pure _

theorem fetchOr {msg : String} {err : ConnectError} {s : Stmt (Db ι) (Rec ι) (List α)}
    (hs : Silent s) : Fills Good (fetchOr msg err s) := bind (fetchOptional hs) fun _ => orError

theorem shiftCards {msg tenantId : String} {columnId : ι} {p : ℤ → Bool} {delta : ℤ} :
    Fills Good (query msg (shiftCards tenantId columnId p delta)) :=
  fun _ _ _ _ hw => runs_query_active fun _ _ he =>
    ⟨_, rfl, List.suffix_cons _ _, (hw.grow (List.suffix_cons _ _)).stay (stay_shiftCards he)⟩

theorem shiftForMove {tenantId : String} {card : CardRow ι} {toColId : ι} {toPos : ℤ} :
    Fills Good (shiftForMove tenantId card toColId toPos) := by
  refine ite (ite (pure _) (ite ?_ ?_)) ?_
  · exact bind shiftCards fun _ => pure _
  · exact bind shiftCards fun _ => pure _
  · exact bind shiftCards fun _ => bind shiftCards fun _ => pure _

theorem checkMilestone {tenantId milestoneId : String} {projectId : ι} :
    Fills Good (checkMilestone codec tenantId projectId milestoneId) :=
  ite (pure _) (bind orError fun _ => bind (fetchOptional silent_select) fun _ =>
    bind ensure fun _ => pure _)

/-- The reference of a card is allocated from the counter of the project. -/
theorem allocateCardRef {tenantId : String} {projectId : ι} :
    Fills Good (allocateCardRef tenantId projectId) := by
  refine bind (read fun db e he => by cases he; rfl) fun _ => bind (bind (plain ?_) fun _ =>
    orError) fun _ => pure _
  intro db e he a ha
  unfold nextCardRef at he
  split at he
  · cases he
    cases ha
  · obtain ⟨e', he', rfl⟩ := Option.map_eq_some_iff.mp he
    exact plain_of_within (T := Db.refCounterT) (fun _ => trivial) Table.within_upsert he' a ha

theorem bumpRevision {msg tenantId : String} {cardId : ι} :
    Fills Good (bumpRevision msg tenantId cardId) := fun _ _ _ _ hw =>
  runs_bumpRevision hw fun _ ws' _ hw' _ htr => ⟨ws', rfl, htr, hw'⟩

/-- Two ways to the same rest of a transaction. -/
theorem fork_runs {c : Prop} [Decidable c] {p q : Handler ι β} {f : β → Handler ι α}
    (hp : Fills Good p) (hq : Fills Good q) (hw : Builds tr₀ tr ws .stay evs)
    (h : ∀ b ws' tr', Builds tr₀ tr' ws' .stay evs → tr <:+ tr' →
      Runs (kanban ι) Good (f b) (.active ws') tr' B) :
    Runs (kanban ι) Good (if c then p.bind f else q.bind f) (.active ws) tr B :=
  runs_ite (fun _ => hp.bind_runs hw h) fun _ => hq.bind_runs hw h

end Fills

/-- The position of a new card; a read of it that failed leaves the transaction aborted. -/
theorem runs_insertPosition {tenantId : String} {columnId : ι} {position : ℤ}
    {B : ℤ → Tx (Rec ι) → Trace (Rec ι) (Call ι) (Reply ι) → Prop}
    (hw : Builds tr₀ tr ws .stay evs)
    (h : ∀ n ws' tr', Builds tr₀ tr' ws' .stay evs → tr <:+ tr' → B n (.active ws') tr')
    (habort : ∀ n tr', B n .aborted tr') :
    Runs (kanban ι) Good (insertPosition tenantId columnId position) (.active ws) tr B := by
  refine runs_ite (fun _ => ?_) fun _ => ?_
  · refine runs_bind (runs_attempt_active (fun db e he => runs_pure ?_) (runs_pure (habort _ _)))
    rw [silent_nextPosition db e he, List.append_nil]
    exact h _ _ _ (hw.grow (List.suffix_cons _ _)) (List.suffix_cons _ _)
  · exact Fills.shiftCards.bind_runs hw fun _ ws' tr' hw' htr => runs_pure (h _ _ _ hw' htr)

end Kanban.Rpc
