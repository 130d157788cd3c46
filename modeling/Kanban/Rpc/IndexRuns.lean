import Kanban.Rpc.AnnouncingCalls
import Kanban.Rpc.OrderedRuns
import Kanban.Rpc.Residue

/-!
# The search index over runs

One dispatcher follows the mutations of cards.  A change of a card is committed together with an
event, and the dispatcher reads the card after it has taken the row of the event up; so whatever it
has read too early, a later row makes it read again.  Only UpdateCard commits the row of a card
before the event.

## Main definitions

* `Site.logStep`, `Site.OneDispatcher` — a step of the calls and the dispatcher, and the runs.
* `Exact` — the documents of a card are the one that is built of its row.
* `Trails` — the row of a card was written, and its event is yet to come.
* `Synced` — what holds in between.
* `index_converges` — once every row is dispatched the index is exact.
-/

namespace Kanban.Rpc

open Program Kanban.Store Kanban.Auth
open Kanban.Services (AuthContext CardDocument ConnectError IdCodec)

variable {ι κ α : Type} [DecidableEq ι]

/-! ## Documents in line -/

/-- The documents of a card are the one that is built of its row, and none if there is no row. -/
def Exact (D : OutboxDispatcher ι) (db : Db ι) (docs : List CardDocument) (x : ι) : Prop :=
  docs.filter (·.id = D.codec.toString x) = (document D db x).toList

/-- What a dispatcher has read so far is what the tables hold. -/
inductive InLine (D : OutboxDispatcher ι) (db : Db ι) (docs : List CardDocument) (x : ι) :
    DrainPass ι → Prop
  | head {todo : List (EventRow ι)} : Exact D db docs x → InLine D db docs x (.batch todo)
  | other {row : EventRow ι} {load : CardLoad ι} {todo : List (EventRow ι)} :
      indexTask D.codec row ≠ some (.index x) → Exact D db docs x →
      InLine D db docs x (.indexing row load todo)
  | delete {row : EventRow ι} {load : CardLoad ι} {todo : List (EventRow ι)} :
      indexTask D.codec row = some (.delete x) → InLine D db docs x (.indexing row load todo)
  | start {row : EventRow ι} {todo : List (EventRow ι)} : indexTask D.codec row = some (.index x) →
      (Exact D db docs x ∨ (cardRow db x).map CardRow.tenantId = some row.tenantId) →
      InLine D db docs x (.indexing row .start todo)
  | card {row : EventRow ι} {c : CardRow ι} {todo : List (EventRow ι)} :
      indexTask D.codec row = some (.index x) → (cardRow db x).map face = some (face c) →
      c.tenantId = row.tenantId → InLine D db docs x (.indexing row (.card c) todo)
  | labels {row : EventRow ι} {c : CardRow ι} {labels : List String} {todo : List (EventRow ι)} :
      indexTask D.codec row = some (.index x) → (cardRow db x).map face = some (face c) →
      c.tenantId = row.tenantId → labels = labelNames db row.tenantId x →
      InLine D db docs x (.indexing row (.labels c labels) todo)
  | document {row : EventRow ι} {doc : CardDocument} {todo : List (EventRow ι)} :
      indexTask D.codec row = some (.index x) → document D db x = some doc →
      InLine D db docs x (.indexing row (.document doc) todo)

/-- The row of an event after which the index will agree with the card. -/
def Awaits (codec : IdCodec ι) (db : Db ι) (e : EventRow ι) (x : ι) : Prop :=
  indexTask codec e = some (.delete x) ∨
    indexTask codec e = some (.index x) ∧ (cardRow db x).map CardRow.tenantId = some e.tenantId

/-- Such a row is not dispatched yet. -/
def Undispatched (codec : IdCodec ι) (db : Db ι) (marked : List ι) (x : ι) : Prop :=
  ∃ e ∈ db.eventLog, e.id ∉ marked ∧ Awaits codec db e x

/-- The row of the card was committed without an event, and since then no event of the card. -/
def Trails (codec : IdCodec ι) (log : List (CommitOf κ (Rec ι) (Call ι) (Reply ι)))
    (row : CardRow ι) : Prop :=
  ∃ before c after, log = before ++ c :: after ∧ Unannounced c.2.2 row ∧
    ∀ d ∈ after, ∀ e ∈ eventWrites d.2.2, indexTask codec e ≠ some (.delete row.id) ∧
      (indexTask codec e = some (.index row.id) → e.tenantId ≠ row.tenantId)

section Lines

variable {D : OutboxDispatcher ι} {db db' : Db ι} {docs : List CardDocument} {x : ι}
  {pass : DrainPass ι} {log : List (CommitOf κ (Rec ι) (Call ι) (Reply ι))} {row : CardRow ι}
  {e : EventRow ι} {marked : List ι}

theorem Exact.congr (h : Exact D db docs x) (hview : docView db x = docView db' x) :
    Exact D db' docs x := h.trans (congrArg Option.toList (document_congr hview))

theorem InLine.congr (h : InLine D db docs x pass) (hview : docView db x = docView db' x) :
    InLine D db' docs x pass := by
  have hface : (cardRow db x).map face = (cardRow db' x).map face := congrArg Prod.fst hview
  cases h with
  | head hexact => exact .head (hexact.congr hview)
  | other htask hexact => exact .other htask (hexact.congr hview)
  | delete htask => exact .delete htask
  | start htask h =>
      refine .start htask (h.imp (fun hexact => hexact.congr hview) fun ht => ?_)
      rw [← map_tenantId_of_face hface]
      exact ht
  | card htask hc ht => exact .card htask (hface.symm.trans hc) ht
  | labels htask hc ht hl =>
      exact .labels htask (hface.symm.trans hc) ht (hl.trans (labelNames_congr hview))
  | document htask hdoc => exact .document htask ((document_congr hview).symm.trans hdoc)

theorem Awaits.congr (h : Awaits D.codec db e x) (hview : docView db x = docView db' x) :
    Awaits D.codec db' e x := by
  refine h.imp_right fun ⟨htask, ht⟩ => ⟨htask, ?_⟩
  rw [← map_tenantId_of_face (congrArg Prod.fst hview)]
  exact ht

omit [DecidableEq ι] in
/-- A commit after which the card still trails, or an event of the card in it. -/
theorem Trails.append (h : Trails D.codec log row) (c : CommitOf κ (Rec ι) (Call ι) (Reply ι)) :
    Trails D.codec (log ++ [c]) row ∨
      ∃ e ∈ eventWrites c.2.2, indexTask D.codec e = some (.delete row.id) ∨
        indexTask D.codec e = some (.index row.id) ∧ e.tenantId = row.tenantId := by
  by_cases hevent : ∃ e ∈ eventWrites c.2.2, indexTask D.codec e = some (.delete row.id) ∨
      indexTask D.codec e = some (.index row.id) ∧ e.tenantId = row.tenantId
  · exact .inr hevent
  · obtain ⟨before, c₀, after, rfl, hbare, hafter⟩ := h
    refine .inl ⟨before, c₀, after ++ [c], by simp, hbare, fun d hd e he => ?_⟩
    rcases List.mem_append.mp hd with hd | hd
    · exact hafter d hd e he
    · obtain rfl := List.mem_singleton.mp hd
      exact ⟨fun h => hevent ⟨e, he, .inl h⟩, fun h ht => hevent ⟨e, he, .inr ⟨h, ht⟩⟩⟩

/-- The document of a card is stored under its id. -/
theorem id_of_document {doc : CardDocument} (h : document D db x = some doc) :
    doc.id = D.codec.toString x := by
  obtain ⟨c, hc, rfl⟩ := Option.map_eq_some_iff.mp h
  rw [← (mem_of_cardRow hc).2]
  rfl

theorem Exact.deleteDoc {y : ι} (h : Exact D db docs x) (hxy : y ≠ x) :
    Exact D db (deleteDoc docs (D.codec.toString y)) x := by
  refine Eq.trans ?_ h
  rw [Rpc.deleteDoc, List.filter_filter]
  refine List.filter_congr fun d _ => ?_
  by_cases hd : d.id = D.codec.toString x
  · have hne : ¬ D.codec.toString x = D.codec.toString y := fun h =>
      hxy (D.codec.toString_injective h.symm)
    simp [hd, hne]
  · simp [hd]

theorem Exact.indexCard {y : ι} {doc : CardDocument} (h : Exact D db docs x)
    (hdoc : doc.id = D.codec.toString y) (hxy : y ≠ x) : Exact D db (indexCard docs doc) x := by
  have hne : ¬ doc.id = D.codec.toString x := fun h =>
    hxy (D.codec.toString_injective (hdoc.symm.trans h))
  rw [Exact, Rpc.indexCard, List.filter_cons, if_neg (by simpa using hne), hdoc]
  exact h.deleteDoc hxy

/-- The document of a card that is gone is deleted. -/
theorem exact_deleteDoc (h : cardRow db x = none) :
    Exact D db (deleteDoc docs (D.codec.toString x)) x := by
  rw [Exact, document, h, Rpc.deleteDoc, List.filter_filter]
  exact List.filter_eq_nil_iff.mpr (by simp)

/-- The document that is built of the row is put. -/
theorem exact_indexCard {doc : CardDocument} (h : document D db x = some doc) :
    Exact D db (indexCard docs doc) x := by
  rw [Exact, h, Rpc.indexCard, List.filter_cons, if_pos (by simpa using id_of_document h),
    List.filter_filter, id_of_document h]
  exact congrArg (doc :: ·) (List.filter_eq_nil_iff.mpr (by simp))

/-- What three statements have read of a card makes its document. -/
theorem document_of_reads {c : CardRow ι} (hc : (cardRow db x).map face = some (face c)) :
    document D db x = some (cardDocument D c (labelNames db c.tenantId x)
      (assigneeSubjects db c.tenantId x)) := by
  obtain ⟨c', hc', hface⟩ := Option.map_eq_some_iff.mp hc
  have ht : c'.tenantId = c.tenantId := congrArg (·.2.1) hface
  rw [document, hc', Option.map_some, ht, cardDocument_congr hface]

end Lines

/-! ## Runs -/

/-- The dispatcher stands at the head of its row loop. -/
def DrainPass.AtHead : DrainPass ι → Prop
  | .batch _ => True
  | .indexing _ _ _ => False

instance : DecidablePred (DrainPass.AtHead (ι := ι)) := fun pass =>
  match pass with
  | .batch _ => .isTrue trivial
  | .indexing _ _ _ => .isFalse id

/-- The rows that a pass has in its hands. -/
def DrainPass.rows : DrainPass ι → List (EventRow ι)
  | .batch todo => todo
  | .indexing row _ todo => row :: todo

/-- What a dispatcher has read is of the card. -/
def CardLoad.Of (D : OutboxDispatcher ι) (x : ι) : CardLoad ι → Prop
  | .start => True
  | .card c => c.id = x
  | .labels c _ => c.id = x
  | .document doc => doc.id = D.codec.toString x

namespace Site

/-- The commit of an action. -/
def commitOf (s : Site κ ι α) : SiteAction κ ι → Option (CommitOf κ (Rec ι) (Call ι) (Reply ι))
  | .turn a => s.pool.commitOf (kanban ι) a
  | _ => none

/-- A step, with the log of the commits so far. -/
def logStep [LE ι] [DecidableLE ι] (D : OutboxDispatcher ι) (handler : κ → Handler ι α)
    (S : Site κ ι α × List (CommitOf κ (Rec ι) (Call ι) (Reply ι))) (a : SiteAction κ ι) :
    Option (Site κ ι α × List (CommitOf κ (Rec ι) (Call ι) (Reply ι))) :=
  (S.1.step D handler a).map fun s => (s, S.2 ++ (S.1.commitOf a).toList)

/-- There is one dispatcher, nothing that it asks of the index fails, it does not crash while it
brings the index in line, and no row is recorded that it has left.  Two calls do not write one row
at a time. -/
def OneDispatcher (s : Site κ ι α) : SiteAction κ ι → Prop
  | .turn a => s.pool.Apart (kanban ι) (fun h h' => SameRow h.2 h'.2) a
  | .select d => d = 0
  | .leave d marked => d = 0 ∧ marked = false
  | .mark d => d = 0
  | .sync d => d = 0
  | .syncFails _ => False
  | .crash d => d = 0 ∧ (s.passes d).AtHead

instance (s : Site κ ι α) : DecidablePred (s.OneDispatcher) := fun a =>
  match a with
  | .turn a => inferInstanceAs (Decidable (s.pool.Apart (kanban ι)
      (fun h h' => SameRow h.2 h'.2) a))
  | .select d => inferInstanceAs (Decidable (d = 0))
  | .leave d marked => inferInstanceAs (Decidable (d = 0 ∧ marked = false))
  | .mark d => inferInstanceAs (Decidable (d = 0))
  | .sync d => inferInstanceAs (Decidable (d = 0))
  | .syncFails _ => .isFalse id
  | .crash d => inferInstanceAs (Decidable (d = 0 ∧ (s.passes d).AtHead))

end Site

/-- The index lags behind a card only where a row is still to be dispatched, or an event to be
committed. -/
structure Synced (D : OutboxDispatcher ι) (s : Site κ ι α)
    (log : List (CommitOf κ (Rec ι) (Call ι) (Reply ι))) : Prop where
  kept : (announcingLaw D.codec κ).Kept (s.pool, log)
  drawn : DrawnOnce s.pool
  marked : ∀ id ∈ s.marked, ∃ e ∈ s.db.eventLog, e.id = id
  rows : ∀ e ∈ (s.passes 0).rows, e ∈ s.db.eventLog
  load : ∀ row load todo, s.passes 0 = .indexing row load todo →
    ∀ x, indexTask D.codec row = some (.index x) → load.Of D x
  line : ∀ x, (∃ row, row.id = x ∧ Trails D.codec log row ∧
      (cardRow s.db x).map CardRow.tenantId = some row.tenantId) ∨
    Undispatched D.codec s.db s.marked x ∨ InLine D s.db s.index x (s.passes 0)

section Steps

variable {D : OutboxDispatcher ι} {s s' : Site κ ι α} {handler : κ → Handler ι α}
  {log : List (CommitOf κ (Rec ι) (Call ι) (Reply ι))} {x : ι}

/-- An id is issued to one call only, so two calls that collide write one row. -/
theorem apart_of_drawnOnce {P : Pool κ (Db ι) (Rec ι) (Call ι) (Reply ι) (Backend ι) ConnectError α}
    {a : Turn κ (Move ι)} (hdrawn : DrawnOnce P)
    (h : P.Apart (kanban ι) (fun h h' => SameRow h.2 h'.2) a) :
    P.Apart (kanban ι) Collides a := by
  cases a with
  | arrive q => trivial
  | crash i => trivial
  | act i b =>
      intro c hc d hd hcollide
      rcases hcollide with hsame | ⟨y, hy, hy'⟩
      · exact h c hc d hd hsame
      · obtain ⟨j, hji, hj⟩ := List.mem_eraseIdx_iff_getElem?.mp hd
        obtain ⟨⟨q, t⟩, hi, hc⟩ := Option.bind_eq_some_iff.mp (Option.mem_def.mp hc)
        obtain ⟨⟨t', w'⟩, hst, hc⟩ := Option.bind_eq_some_iff.mp hc
        split at hc
        · rename_i ws past htr
          obtain ⟨-, hc⟩ := Option.ite_none_right_eq_some.mp hc
          cases hc
          have hpast : newIds t'.trace = newIds past := by
            rw [show t'.trace = .committed ws :: past from htr]
            rfl
          have hy : y ∈ newIds t'.trace := hpast ▸ hy
          rcases newIds_of_step hst with ⟨-, hids⟩ | ⟨id, hid, -, hids⟩
          · rw [hids] at hy
            exact hdrawn.apart i j _ d (Ne.symm hji) hi hj y hy hy'
          · rw [hids] at hy
            rcases List.mem_cons.mp hy with rfl | hy
            · exact hid (hdrawn.issued d (List.mem_of_getElem? hj) _ hy')
            · exact hdrawn.apart i j _ d (Ne.symm hji) hi hj y hy hy'
        · cases hc

/-- **A turn of the calls.** -/
theorem Synced.turn {P : Pool κ (Db ι) (Rec ι) (Call ι) (Reply ι) (Backend ι) ConnectError α}
    {a : Turn κ (Move ι)} (h : Synced D s log) (hspec : ∀ q, DocSettled D.codec (handler q))
    (hapart : s.pool.Apart (kanban ι) (fun h h' => SameRow h.2 h'.2) a)
    (hs : s.pool.step (kanban ι) handler a = some P) :
    Synced D { s with pool := P } (log ++ (s.pool.commitOf (kanban ι) a).toList) := by
  have hkept := h.kept.step hspec (apart_of_drawnOnce h.drawn hapart) hs
  have hdrawn := h.drawn.step hs
  rcases h.kept.allowed hs with ⟨hstore, hnone⟩ | ⟨c, hc, hallowed, hstore⟩
  · have hdb : P.world.store = s.db := hstore
    refine ⟨hkept, hdrawn, fun id hid => ?_, fun e he => ?_, h.load, fun x => ?_⟩
    · rw [Site.db, hdb]
      exact h.marked id hid
    · rw [Site.db, hdb]
      exact h.rows e he
    · rw [hnone, Option.toList_none, List.append_nil, Site.db, hdb]
      exact h.line x
  · have hindexed : Indexed D.codec s.pool.world := h.kept.1
    have hdb : P.world.store = (kanban ι).applyAll s.db c.2.2 := hstore
    obtain ⟨g, hledger, hreported⟩ := ledgered_of_allowed hindexed hallowed
    have hlog : P.world.store.eventLog = s.db.eventLog ++ eventWrites c.2.2 :=
      hdb ▸ hledger.log_eq
    have hunmarked : ∀ e ∈ eventWrites c.2.2, e.id ∉ s.marked := by
      intro e he hmarked
      obtain ⟨e', he', hid⟩ := h.marked _ hmarked
      exact hledger.fresh e he e' he' hid
    refine ⟨hkept, hdrawn, fun id hid => ?_, fun e he => ?_, h.load, fun x => ?_⟩
    · obtain ⟨e, he, hid⟩ := h.marked id hid
      exact ⟨e, hlog ▸ List.mem_append_left _ he, hid⟩
    · exact hlog ▸ List.mem_append_left _ (h.rows e he)
    · rw [hc, Option.toList_some]
      have hpending : ∀ e ∈ eventWrites c.2.2, Awaits D.codec P.world.store e x →
          Undispatched D.codec P.world.store s.marked x := fun e he hawaits =>
        ⟨e, hlog ▸ List.mem_append_right _ he, hunmarked e he, hawaits⟩
      rcases hreported x with (⟨e, he, o, hfor, hleaves⟩ | hspares) | ⟨row, hid, hbare, htenant⟩
      · -- the commit announces what it does to the card
        refine .inr (.inl (hpending e he ?_))
        rw [hdb]
        cases o with
        | unknown => exact hfor.elim
        | tenant t => exact .inr ⟨hfor.1, hleaves.2.trans (congrArg some hfor.2.symm)⟩
        | gone => exact .inl hfor
      · -- the commit leaves the document of the card as it is
        have hview : docView s.db x = docView P.world.store x := by
          rw [hdb]
          exact (docView_applyAll hspares).symm
        have hrow : (cardRow s.db x).map CardRow.tenantId =
            (cardRow P.world.store x).map CardRow.tenantId :=
          map_tenantId_of_face (congrArg Prod.fst hview)
        rcases h.line x with ⟨row, rfl, htrails, htenant⟩ | ⟨e, he, hid, hawaits⟩ | hline
        · rcases htrails.append c with htrails | ⟨e, he, htask | ⟨htask, ht⟩⟩
          · exact .inl ⟨row, rfl, htrails, hrow.symm.trans htenant⟩
          · exact .inr (.inl (hpending e he (.inl htask)))
          · refine .inr (.inl (hpending e he (.inr ⟨htask, ?_⟩)))
            rw [ht]
            exact hrow.symm.trans htenant
        · exact .inr (.inl ⟨e, hlog ▸ List.mem_append_left _ he, hid, hawaits.congr hview⟩)
        · exact .inr (.inr (hline.congr hview))
      · -- the row of an UpdateCard, whose event is yet to come
        refine .inl ⟨row, hid, ⟨log, c, [], rfl, hbare, List.forall_mem_nil _⟩, ?_⟩
        rw [Site.db, hdb]
        exact htenant

/-- The pass after a step of the dispatcher. -/
theorem Synced.dispatch {pass : DrainPass ι} (h : Synced D s log) (hpool : s'.pool = s.pool)
    (hpass : s'.passes 0 = pass)
    (hmarked : ∀ id ∈ s'.marked, id ∈ s.marked ∨ ∃ e ∈ (s.passes 0).rows, e.id = id)
    (hrows : ∀ e ∈ pass.rows, e ∈ s.db.eventLog)
    (hload : ∀ row load todo, pass = .indexing row load todo →
      ∀ x, indexTask D.codec row = some (.index x) → load.Of D x)
    (hline : ∀ x, Undispatched D.codec s.db s.marked x ∨ InLine D s.db s.index x (s.passes 0) →
      Undispatched D.codec s.db s'.marked x ∨ InLine D s.db s'.index x pass) : Synced D s' log := by
  have hdb : s'.db = s.db := by rw [Site.db, hpool]
  refine ⟨hpool ▸ h.kept, hpool ▸ h.drawn, fun id hid => ?_, ?_, hpass ▸ hload, fun x => ?_⟩
  · rw [hdb]
    rcases hmarked id hid with hid | ⟨e, he, hid⟩
    · exact h.marked id hid
    · exact ⟨e, h.rows e he, hid⟩
  · rw [hdb, hpass]
    exact hrows
  · rw [hdb, hpass]
    exact (h.line x).imp_right (hline x)

omit [DecidableEq ι] in
/-- Where the dispatcher stands after a step. -/
@[simp] theorem Site.passes_setPass {pass : DrainPass ι} : (s.setPass 0 pass).passes 0 = pass := by
  simp [Site.setPass]

omit [DecidableEq ι] in
@[simp] theorem Site.passes_through {row : EventRow ι} {todo : List (EventRow ι)} :
    (s.through 0 row todo).passes 0 = .batch todo := by
  simp [Site.through]

/-- A row that is selected is in the log. -/
theorem mem_of_selectBatch [LE ι] [DecidableLE ι] {n : ℕ} {e : EventRow ι}
    (h : e ∈ s.selectBatch n) : e ∈ s.db.eventLog := by
  have h := List.mem_of_mem_take h
  rw [(List.perm_insertionSort _ _).mem_iff] at h
  exact (List.mem_filter.mp h).1

/-- The row is taken up: what it was to bring in line the pass brings in line. -/
theorem Synced.taken {row : EventRow ι} {todo : List (EventRow ι)} (h : Synced D s log)
    (hpass : s.passes 0 = .batch (row :: todo)) (hx : Undispatched D.codec s.db s.marked x) :
    Undispatched D.codec s.db (row.id :: s.marked) x ∨ Awaits D.codec s.db row x := by
  obtain ⟨e, he, hid, hawaits⟩ := hx
  by_cases heq : e.id = row.id
  · have hindexed : Indexed D.codec s.pool.world := h.kept.1
    have hrow : row ∈ s.db.eventLog := h.rows row (by rw [hpass]; exact List.mem_cons_self)
    rw [List.inj_on_of_nodup_map hindexed.events he hrow heq] at hawaits
    exact .inr hawaits
  · exact .inl ⟨e, he, by simp [heq, hid], hawaits⟩

/-- Of another card than that of the row the pass leaves the documents alone. -/
theorem InLine.exact_of_ne {db : Db ι} {docs : List CardDocument} {row : EventRow ι}
    {load : CardLoad ι} {todo : List (EventRow ι)} {y : ι}
    (h : InLine D db docs x (.indexing row load todo))
    (htask : indexTask D.codec row = some (.index y)) (hxy : y ≠ x) : Exact D db docs x := by
  have hne : indexTask D.codec row ≠ some (.index x) := fun h =>
    hxy (by simpa using htask.symm.trans h)
  cases h with
  | other _ hexact => exact hexact
  | delete hdel =>
      rw [htask] at hdel
      cases hdel
  | start h => exact absurd h hne
  | card h => exact absurd h hne
  | labels h => exact absurd h hne
  | document h => exact absurd h hne

/-- **A step of the dispatcher** brings a card in line, or leaves it as it is. -/
theorem Synced.pass [LE ι] [DecidableLE ι] {a : SiteAction κ ι} (h : Synced D s log)
    (hturn : ∀ b, a ≠ .turn b) (hlone : s.OneDispatcher a) (hs : s.step D handler a = some s') :
    Synced D s' log := by
  have hindexed : Indexed D.codec s.pool.world := h.kept.1
  cases Site.step_cases hs with
  | turn hP => exact absurd rfl (hturn _)
  | @select d hpass =>
      obtain rfl : d = 0 := hlone
      refine h.dispatch rfl Site.passes_setPass (fun _ => .inl) (fun e he => mem_of_selectBatch he)
        (by simp) fun x hx => hx.imp_right fun hline => ?_
      rw [hpass] at hline
      cases hline with
      | head hexact => exact .head hexact
  | @leave d row todo hpass =>
      obtain ⟨rfl, -⟩ : d = 0 ∧ false = false := hlone
      refine h.dispatch rfl Site.passes_setPass (fun _ => .inl) (fun e he => h.rows e ?_)
        (by simp) fun x hx => hx.imp_right fun hline => ?_
      · rw [hpass]
        exact List.mem_cons_of_mem _ he
      · rw [hpass] at hline
        cases hline with
        | head hexact => exact .head hexact
  | leaveMarked hpass => exact absurd hlone.2 (by simp)
  | @mark d row todo hpass htask =>
      obtain rfl : d = 0 := hlone
      refine h.dispatch rfl Site.passes_setPass (fun id hid => ?_) (fun e he => h.rows e ?_)
        (fun row' load todo' heq x _ => ?_) fun x hx => ?_
      · rcases List.mem_cons.mp hid with rfl | hid
        · exact .inr ⟨row, by rw [hpass]; exact List.mem_cons_self, rfl⟩
        · exact .inl hid
      · rw [hpass]
        exact he
      · cases heq
        trivial
      · rcases hx with hx | hline
        · refine (h.taken hpass hx).imp_right fun hawaits => ?_
          rcases hawaits with htask | ⟨htask, ht⟩
          · exact .delete htask
          · exact .start htask (.inr ht)
        · rw [hpass] at hline
          cases hline with
          | head hexact =>
              by_cases hx : indexTask D.codec row = some (.index x)
              · exact .inr (.start hx (.inl hexact))
              · exact .inr (.other hx hexact)
  | @markPlain d row todo hpass htask =>
      obtain rfl : d = 0 := hlone
      refine h.dispatch rfl Site.passes_through (fun id hid => ?_) (fun e he => h.rows e ?_)
        (by simp) fun x hx => ?_
      · rcases List.mem_cons.mp hid with rfl | hid
        · exact .inr ⟨row, by rw [hpass]; exact List.mem_cons_self, rfl⟩
        · exact .inl hid
      · rw [hpass]
        exact List.mem_cons_of_mem _ he
      · rcases hx with hx | hline
        · refine (h.taken hpass hx).imp_right fun hawaits => ?_
          rw [Awaits, htask] at hawaits
          rcases hawaits with heq | ⟨heq, -⟩ <;> cases heq
        · rw [hpass] at hline
          cases hline with
          | head hexact => exact .inr (.head hexact)
  | @delete d row load todo y hpass htask =>
      obtain rfl : d = 0 := hlone
      have hrow : row ∈ s.db.eventLog := h.rows row (by rw [hpass]; exact List.mem_cons_self)
      refine h.dispatch rfl Site.passes_through (fun _ => .inl) (fun e he => h.rows e ?_)
        (by simp) fun x hx => hx.imp_right fun hline => .head ?_
      · rw [hpass]
        exact List.mem_cons_of_mem _ he
      · by_cases hxy : y = x
        · subst hxy
          exact exact_deleteDoc (hindexed.dead row hrow y (deletedCard_eq_some.mpr htask))
        · rw [hpass] at hline
          have hne : indexTask D.codec row ≠ some (.delete x) := fun h =>
            hxy (by simpa using htask.symm.trans h)
          have hexact : Exact D s.db s.index x := by
            cases hline with
            | other _ hexact => exact hexact
            | delete h => exact absurd h hne
            | start h | card h | labels h | document h => rw [htask] at h; cases h
          exact hexact.deleteDoc hxy
  | @vanished d row todo y hpass htask hgone =>
      obtain rfl : d = 0 := hlone
      refine h.dispatch rfl Site.passes_through (fun _ => .inl) (fun e he => h.rows e ?_)
        (by simp) fun x hx => hx.imp_right fun hline => .head ?_
      · rw [hpass]
        exact List.mem_cons_of_mem _ he
      · rw [hpass] at hline
        by_cases hxy : y = x
        · subst hxy
          cases hline with
          | other h => exact absurd htask h
          | delete h =>
              rw [htask] at h
              cases h
          | start _ h =>
              refine h.resolve_right fun ht => ?_
              obtain ⟨c, hc, ht⟩ := Option.map_eq_some_iff.mp ht
              obtain ⟨hmem, hid⟩ := mem_of_cardRow hc
              exact hgone c hmem hid ht
        · exact hline.exact_of_ne htask hxy
  | @card d row todo y c hpass htask hfind =>
      obtain rfl : d = 0 := hlone
      have hkey : c.id = y ∧ c.tenantId = row.tenantId := by simpa using List.find?_some hfind
      have hc : cardRow s.db y = some c := by
        rw [← hkey.1]
        exact cardRow_of_mem hindexed.keyed (List.mem_of_find?_eq_some hfind)
      refine h.dispatch rfl Site.passes_setPass (fun _ => .inl) (fun e he => h.rows e ?_)
        (fun row' load todo' heq x hx => ?_) fun x hx => hx.imp_right fun hline => ?_
      · rw [hpass]
        exact he
      · cases heq
        rw [htask] at hx
        cases hx
        exact hkey.1
      · by_cases hxy : y = x
        · subst hxy
          exact .card htask (by rw [hc]; rfl) hkey.2
        · rw [hpass] at hline
          exact .other (fun h => hxy (by simpa using htask.symm.trans h))
            (hline.exact_of_ne htask hxy)
  | @labels d row c todo y hpass htask =>
      obtain rfl : d = 0 := hlone
      refine h.dispatch rfl Site.passes_setPass (fun _ => .inl) (fun e he => h.rows e ?_)
        (fun row' load todo' heq => ?_) fun x hx => hx.imp_right fun hline => ?_
      · rw [hpass]
        exact he
      · cases heq
        exact h.load row (.card c) todo hpass
      · rw [hpass] at hline
        by_cases hxy : y = x
        · subst hxy
          cases hline with
          | other h => exact absurd htask h
          | delete h =>
              rw [htask] at h
              cases h
          | card _ hc ht => exact .labels htask hc ht rfl
        · exact .other (fun h => hxy (by simpa using htask.symm.trans h))
            (hline.exact_of_ne htask hxy)
  | @document d row c labels todo y hpass htask =>
      obtain rfl : d = 0 := hlone
      refine h.dispatch rfl Site.passes_setPass (fun _ => .inl) (fun e he => h.rows e ?_)
        (fun row' load todo' heq x hx => ?_) fun x hx => hx.imp_right fun hline => ?_
      · rw [hpass]
        exact he
      · cases heq
        exact congrArg D.codec.toString (h.load _ _ _ hpass x hx)
      · rw [hpass] at hline
        by_cases hxy : y = x
        · subst hxy
          cases hline with
          | other h => exact absurd htask h
          | delete h =>
              rw [htask] at h
              cases h
          | labels _ hc ht hlabels =>
              refine .document htask ((document_of_reads hc).trans ?_)
              rw [hlabels, ht]
        · exact .other (fun h => hxy (by simpa using htask.symm.trans h))
            (hline.exact_of_ne htask hxy)
  | @put d row doc todo y hpass htask =>
      obtain rfl : d = 0 := hlone
      refine h.dispatch rfl Site.passes_through (fun _ => .inl) (fun e he => h.rows e ?_)
        (by simp) fun x hx => hx.imp_right fun hline => .head ?_
      · rw [hpass]
        exact List.mem_cons_of_mem _ he
      · rw [hpass] at hline
        by_cases hxy : y = x
        · subst hxy
          cases hline with
          | other h => exact absurd htask h
          | delete h =>
              rw [htask] at h
              cases h
          | document _ hdoc => exact exact_indexCard hdoc
        · exact (hline.exact_of_ne htask hxy).indexCard (h.load _ _ _ hpass y htask) hxy
  | syncFails hpass => exact hlone.elim
  | @crash d =>
      obtain ⟨rfl, hhead⟩ : d = 0 ∧ (s.passes d).AtHead := hlone
      refine h.dispatch rfl Site.passes_setPass (fun _ => .inl) (by simp [DrainPass.rows])
        (by simp) fun x hx => hx.imp_right fun hline => ?_
      generalize s.passes 0 = pass at hhead hline
      cases hline with
      | head hexact => exact .head hexact
      | other | delete | start | card | labels | document => exact hhead.elim

/-- **One step.** -/
theorem Synced.step [LE ι] [DecidableLE ι] {a : SiteAction κ ι} (h : Synced D s log)
    (hspec : ∀ q, DocSettled D.codec (handler q)) (hlone : s.OneDispatcher a)
    (hs : s.step D handler a = some s') : Synced D s' (log ++ (s.commitOf a).toList) := by
  by_cases hturn : ∃ b, a = .turn b
  · obtain ⟨b, rfl⟩ := hturn
    obtain ⟨P, hP, rfl⟩ := Option.map_eq_some_iff.mp hs
    exact h.turn hspec hlone hP
  · have hnone : s.commitOf a = none := by
      cases a <;> first | rfl | exact absurd ⟨_, rfl⟩ hturn
    rw [hnone, Option.toList_none, List.append_nil]
    exact h.pass (fun b hb => hturn ⟨b, hb⟩) hlone hs

/-- At the start the index is exact. -/
theorem Synced.start {w : World (Db ι) (Backend ι)} {docs : List CardDocument}
    (hw : Indexed D.codec w) (hdocs : ∀ x, Exact D w.store docs x) :
    Synced D (Site.start w docs : Site κ ι α) [] where
  kept := .start rfl hw
  drawn := .of_nil rfl
  marked := by simp [Site.start]
  rows := by simp [Site.start, DrainPass.rows]
  load := by simp [Site.start]
  line x := .inr (.inr (.head (hdocs x)))

end Steps

/-- **The index converges.**  Whatever mutations of cards come, at whatever step they are lost or
rolled back, and however their statements and those of one dispatcher mix: when every row of the log
is dispatched, the documents of a card are the one that is built of what the tables hold, and none
if the card is gone, unless an UpdateCard has yet to commit the event of the row that it has
written. -/
theorem index_converges [LE ι] [DecidableLE ι] {D : OutboxDispatcher ι} {pages : ℕ}
    {w : World (Db ι) (Backend ι)} {docs : List CardDocument}
    {s : Site (RequestContext × CardCall) ι CardReply}
    {log : List (CommitOf (RequestContext × CardCall) (Rec ι) (Call ι) (Reply ι))}
    {actions : List (SiteAction (RequestContext × CardCall) ι)}
    (hw : Indexed D.codec w) (hdocs : ∀ x, Exact D w.store docs x)
    (hrun : Machine.ExecWhile (Site.logStep D fun q => cardHandler D.codec pages q.1 q.2)
      (fun S a => S.1.OneDispatcher a) (Site.start w docs, []) actions (s, log))
    (hdone : ∀ e ∈ s.db.eventLog, e.id ∈ s.marked) (hhead : (s.passes 0).AtHead) {x : ι}
    (hx : ∀ row, row.id = x → ¬ Trails D.codec log row) : Exact D s.db s.index x := by
  have hsynced : Synced D s log := by
    refine hrun.invariant (fun S => Synced D S.1 S.2) (.start hw hdocs) ?_
    rintro ⟨s, log⟩ a S' h hlone hs
    obtain ⟨s', hs', rfl⟩ := Option.map_eq_some_iff.mp hs
    exact h.step (fun q => DocSettled.cardHandler) hlone hs'
  rcases hsynced.line x with ⟨row, hid, htrails, -⟩ | ⟨e, he, hid, -⟩ | hline
  · exact absurd htrails (hx row hid)
  · exact absurd (hdone e he) hid
  · generalize s.passes 0 = pass at hhead hline
    cases hline with
    | head hexact => exact hexact
    | other | delete | start | card | labels | document => exact hhead.elim

omit [DecidableEq ι] in
/-- A card whose event is the last commit trails no more. -/
theorem not_trails_of_last {codec : IdCodec ι}
    {log : List (CommitOf κ (Rec ι) (Call ι) (Reply ι))}
    {c : CommitOf κ (Rec ι) (Call ι) (Reply ι)} {e : EventRow ι} {row : CardRow ι}
    (hlast : log.getLast? = some c) (he : e ∈ eventWrites c.2.2)
    (htask : indexTask codec e = some (.index row.id))
    (htenant : ∀ d ∈ log, ∀ a ∈ cardWrites d.2.2, a.record.tenantId = e.tenantId) :
    ¬ Trails codec log row := by
  rintro ⟨before, d, after, rfl, ⟨hput, hnone⟩, hafter⟩
  have ht : row.tenantId = e.tenantId :=
    htenant d (List.mem_append_right _ List.mem_cons_self) (.put row)
      (List.mem_filterMap.mpr ⟨_, hput, rfl⟩)
  rw [List.getLast?_append_of_ne_nil _ (List.cons_ne_nil _ _), List.getLast?_cons] at hlast
  cases hc : after.getLast? with
  | none =>
      rw [hc] at hlast
      cases hlast
      exact List.not_mem_nil (hnone ▸ he)
  | some c' =>
      rw [hc] at hlast
      cases hlast
      exact (hafter c' (List.mem_of_getLast? hc) e he).2 htask ht.symm

/-- A card is created, and renamed while the dispatcher builds its document. -/
def renamedMeanwhile : List (SiteAction (RequestContext × CardCall) String) :=
  .turn (.arrive (annOn "b", .createCard ⟨"k", "Ship", "", 0, none, "", 0, "", 0⟩)) ::
    (createsCard "k" 0 "c" "e").2.map (fun b => .turn (.act 0 b)) ++
    [.select 0, .mark 0, .sync 0, .sync 0,
      .turn (.arrive (annOn "c", .updateCard ⟨⟨"Sail", "", 0, 0, none, false, "", ""⟩, [], ""⟩)),
      .turn (.act 1 .ok), .turn (.act 1 .ok), .sync 0, .sync 0] ++
    [.ok, .ok, .move (.fresh "f"), .ok, .ok, .ok].map (fun b => .turn (.act 1 b)) ++
    [.select 0, .mark 0, .sync 0, .sync 0, .sync 0, .sync 0]

theorem index_converges_renamed :
    ∃ S, Machine.ExecWhile (Site.logStep Site.batchOfTen fun q => cardHandler textIds 1 q.1 q.2)
        (fun S a => S.1.OneDispatcher a) (Site.start twoColumns [], []) renamedMeanwhile S ∧
      S.1.index.map CardDocument.title = ["Sail"] ∧
      Exact Site.batchOfTen S.1.db S.1.index "c" := by
  obtain ⟨S, hS, hindex, hdone, hhead, c, hlast, e, he, htask, htenant⟩ : ∃ S,
      Machine.run (Machine.guarded (Site.logStep Site.batchOfTen fun q =>
        cardHandler textIds 1 q.1 q.2) (fun S a => S.1.OneDispatcher a))
        (Site.start twoColumns [], []) renamedMeanwhile = some S ∧
      S.1.index.map CardDocument.title = ["Sail"] ∧
      (∀ e ∈ S.1.db.eventLog, e.id ∈ S.1.marked) ∧ (S.1.passes 0).AtHead ∧
      ∃ c ∈ S.2.getLast?, ∃ e ∈ eventWrites c.2.2,
        indexTask textIds e = some (.index "c") ∧
        ∀ d ∈ S.2, ∀ a ∈ cardWrites d.2.2, a.record.tenantId = e.tenantId :=
    ⟨_, rfl, rfl, by decide, by decide, by decide⟩
  have hrun := Machine.execWhile_of_run hS
  have hw : Indexed Site.batchOfTen.codec twoColumns := by
    refine ⟨List.nodup_nil, List.nodup_nil, fun x hx => ?_, by simp [twoColumns, Db.empty]⟩
    rcases hx with hx | ⟨e, he, -⟩
    · exact absurd rfl hx
    · cases he
  have hdocs : ∀ x, Exact Site.batchOfTen twoColumns.store [] x := fun x => rfl
  exact ⟨S, hrun, hindex, index_converges hw hdocs hrun hdone hhead fun row hid =>
    not_trails_of_last hlast he (hid ▸ htask) htenant⟩

end Kanban.Rpc
