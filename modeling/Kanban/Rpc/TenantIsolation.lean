import Kanban.Rpc.Aggregates
import Kanban.Rpc.FreshIds
import Kanban.Rpc.Protocols

/-!
# Tenant isolation of aggregated boards

The sources of an aggregated board are meant to be boards of its own tenant, and who may manage it
is meant to be asked in the caller's tenant.  No statement checks the tenant of a board that is
added, and one check goes through the service's own client.

## Main definitions

* `Isolated` — every source is a board of the tenant of its aggregated board.
* `InTenant` — the boards that a request names are of the tenant it adds them to.
* `isolation` — the protocol of a call that is in its tenant.
-/

namespace Kanban.Rpc

open Program Kanban.Store Kanban.Auth
open Kanban.Services (AuthContext ConnectError IdCodec)

variable {ι : Type}

/-! ## Owners -/

/-- The tenant of an aggregated board. -/
def Owner (db : Db ι) (aggregatedBoard : ι) (tenant : String) : Prop :=
  ∃ a ∈ db.aggregatedBoards, a.id = aggregatedBoard ∧ a.tenantId = tenant

/-- The tenant of a board. -/
def Home (db : Db ι) (board : ι) (tenant : String) : Prop :=
  ∃ b ∈ db.boards, b.id = board ∧ b.tenantId = tenant

/-- Every source is a board of the tenant of its aggregated board, where `H` tells the tenants of
the boards. -/
structure Isolated (H : ι → String → Prop) (db : Db ι) : Prop where
  settled : ∀ board t t', H board t → H board t' → t = t'
  home : ∀ board tenant, Home db board tenant → H board tenant
  unique : ∀ x t t', Owner db x t → Owner db x t' → t = t'
  owned : ∀ s ∈ db.aggregatedBoardSources, ∃ t, Owner db s.aggregatedBoardId t
  sources : ∀ s ∈ db.aggregatedBoardSources, ∀ t u, Owner db s.aggregatedBoardId t →
    H s.boardId u → u = t

/-! ## Requests -/

/-- The stores of the caller's tenant, as the middleware resolved it. -/
def AggregateRequest.CallerTenant (q : AggregateRequest) (tenant : String) : Prop :=
  tenant = q.tenantId ∨ q.auth.tenantId = some tenant

instance {q : AggregateRequest} {tenant : String} : Decidable (q.CallerTenant tenant) :=
  inferInstanceAs (Decidable (_ ∨ _))

/-- The call makes aggregated boards of the tenant. -/
def AggregateRequest.Creates (q : AggregateRequest) (tenant : String) : Prop :=
  (∃ req, q.call = .createAggregatedBoard req) ∧ q.auth.tenantId = some tenant

/-- Every permission decision of the call was taken in the caller's tenant. -/
def DecidedAtHome (q : AggregateRequest) (tr : Trace (Rec ι) (Call ι) (Reply ι)) : Prop :=
  ∀ tenant query r, .called (.checkPermission tenant query) r ∈ tr → q.CallerTenant tenant

theorem DecidedAtHome.cons {q : AggregateRequest} {tr : Trace (Rec ι) (Call ι) (Reply ι)}
    {e : Event (Rec ι) (Call ι) (Reply ι)} (h : DecidedAtHome q tr)
    (he : ∀ tenant query r, e = .called (.checkPermission tenant query) r → q.CallerTenant tenant) :
    DecidedAtHome q (e :: tr) := by
  intro tenant query r hmem
  rcases List.mem_cons.mp hmem with heq | hmem
  · exact he tenant query r heq.symm
  · exact h tenant query r hmem

/-- The boards that the request names are of the tenant it adds them to, and what it has decided
by the service's own client is decided in the caller's tenant. -/
def InTenant (codec : IdCodec ι) (serviceTenant : String) (db : Db ι) (q : AggregateRequest) :
    Prop :=
  match q.call with
  | .createAggregatedBoard req => ∀ text ∈ req.sourceBoardIds, ∀ b ∈ db.boards,
      codec.parse text = some b.id → q.auth.tenantId = some b.tenantId
  | .updateAggregatedBoard req => "visibility" ∈ req.updateMask → q.CallerTenant serviceTenant
  | .addSourceBoard req => ∀ b ∈ db.boards, ∀ a ∈ db.aggregatedBoards,
      codec.parse req.boardId = some b.id → q.objectId.bind codec.parse = some a.id →
      b.tenantId = a.tenantId
  | _ => True

instance [DecidableEq ι] {codec : IdCodec ι} {serviceTenant : String} {db : Db ι}
    {q : AggregateRequest} : Decidable (InTenant codec serviceTenant db q) := by
  unfold InTenant
  split <;> infer_instance

/-- With fewer boards, and no other owners, the request stays in its tenant. -/
theorem InTenant.anti {codec : IdCodec ι} {serviceTenant : String} {db db' : Db ι}
    {q : AggregateRequest} (h : InTenant codec serviceTenant db q)
    (hhome : ∀ x t, Home db' x t → Home db x t)
    (howner : ∀ x t, Owner db' x t → Owner db x t ∨ q.Creates t) :
    InTenant codec serviceTenant db' q := by
  unfold InTenant at h ⊢
  split
  · rename_i req hcall
    rw [hcall] at h
    intro text htext b hb hparse
    obtain ⟨b', hb', hid, htenant⟩ := hhome b.id b.tenantId ⟨b, hb, rfl, rfl⟩
    rw [← htenant]
    exact h text htext b' hb' (hid ▸ hparse)
  · rename_i req hcall
    rw [hcall] at h
    exact h
  · rename_i req hcall
    rw [hcall] at h
    intro b hb a ha hboard haggregate
    obtain ⟨b', hb', hid, htenant⟩ := hhome b.id b.tenantId ⟨b, hb, rfl, rfl⟩
    rcases howner a.id a.tenantId ⟨a, ha, rfl, rfl⟩ with ⟨a', ha', hid', hown⟩ | ⟨⟨req', hreq⟩, -⟩
    · rw [← htenant, ← hown]
      exact h b' hb' a' ha' (hid ▸ hboard) (hid' ▸ haggregate)
    · rw [hcall] at hreq
      cases hreq
  · trivial

/-! ## Writes -/

section Writes

variable [DecidableEq ι] {H : ι → String → Prop} {q : AggregateRequest} {db : Db ι} {ids : List ι}
  {ws ws' : List (Write (Rec ι))} {x : ι} {t : String}

/-- A source may be written for an aggregated board of the tenant, one that is there or one that is
written with it. -/
def OwnedIn (db : Db ι) (ws : List (Write (Rec ι))) (aggregatedBoard : ι) (tenant : String) : Prop :=
  Owner db aggregatedBoard tenant ∨
    ∃ a : AggregatedBoardRow ι, .put (.aggregatedBoard a) ∈ ws ∧ a.id = aggregatedBoard ∧
      a.tenantId = tenant

/-- A write that keeps tenants apart when it lands with `ws`. -/
def KeepsApart (H : ι → String → Prop) (q : AggregateRequest) (db : Db ι) (ids : List ι)
    (ws : List (Write (Rec ι))) : Write (Rec ι) → Prop
  | .put (.aggregatedBoard a) => Owner db a.id a.tenantId ∨
      a.id ∈ ids ∧ q.Creates a.tenantId ∧ ∀ t, ¬ Owner db a.id t
  | .put (.source s) => ∃ t, OwnedIn db ws s.aggregatedBoardId t ∧ ∀ u, H s.boardId u → u = t
  | .put (.board _) => False
  | .del (.aggregatedBoard _) => False
  | _ => True

omit [DecidableEq ι] in
theorem OwnedIn.mono (h : OwnedIn db ws x t) (hws : ws ⊆ ws') : OwnedIn db ws' x t := by
  rcases h with h | ⟨a, ha, heq⟩
  · exact .inl h
  · exact .inr ⟨a, hws ha, heq⟩

omit [DecidableEq ι] in
theorem KeepsApart.mono {a : Write (Rec ι)} {ids' : List ι} (h : KeepsApart H q db ids ws a)
    (hws : ws ⊆ ws') (hids : ids ⊆ ids') : KeepsApart H q db ids' ws' a := by
  unfold KeepsApart at h ⊢
  split
  · rcases h with h | ⟨hid, h⟩
    · exact .inl h
    · exact .inr ⟨hids hid, h⟩
  · obtain ⟨t, ht, hu⟩ := h
    exact ⟨t, ht.mono hws, hu⟩
  · exact h
  · exact h
  · trivial

omit [DecidableEq ι] in
/-- Others may write other aggregated boards. -/
theorem KeepsApart.stable {db' : Db ι} {a : Write (Rec ι)} (h : KeepsApart H q db ids ws a)
    (hmono : ∀ x t, Owner db x t → Owner db' x t)
    (hids : ∀ x ∈ ids, ∀ t, Owner db' x t → Owner db x t) : KeepsApart H q db' ids ws a := by
  unfold KeepsApart at h ⊢
  split
  · rcases h with h | ⟨hid, hcreates, hfresh⟩
    · exact .inl (hmono _ _ h)
    · exact .inr ⟨hid, hcreates, fun t ht => hfresh t (hids _ hid t ht)⟩
  · obtain ⟨t, ht, hu⟩ := h
    refine ⟨t, ?_, hu⟩
    rcases ht with ht | ht
    · exact .inl (hmono _ _ ht)
    · exact .inr ht
  · exact h
  · exact h
  · trivial

/-- The boards that a statement sees. -/
theorem home_of_view {b : BoardRow ι} (hws : ∀ a ∈ ws, KeepsApart H q db ids ws a)
    (h : b ∈ ((kanban ι).applyAll db ws).boards) : Home db b.id b.tenantId := by
  rcases stored_boards.mem_applyAll h with h | ⟨h, -⟩
  · exact (hws _ h).elim
  · exact ⟨b, h, rfl, rfl⟩

/-- The sources that a statement sees. -/
theorem source_of_view {s : SourceRow ι} (hdb : Isolated H db)
    (hws : ∀ a ∈ ws, KeepsApart H q db ids ws a)
    (h : s ∈ ((kanban ι).applyAll db ws).aggregatedBoardSources) :
    ∃ t, OwnedIn db ws s.aggregatedBoardId t ∧ ∀ u, H s.boardId u → u = t := by
  rcases stored_sources.mem_applyAll h with h | ⟨h, -⟩
  · exact hws _ h
  · obtain ⟨t, ht⟩ := hdb.owned s h
    exact ⟨t, .inl ht, fun u hu => hdb.sources s h t u ht hu⟩

section Land

variable (hdb : Isolated H db) (hws : ∀ a ∈ ws, KeepsApart H q db ids ws a)

include hdb hws

/-- An aggregated board keeps its tenant. -/
theorem Owner.land (h : Owner db x t) : Owner ((kanban ι).applyAll db ws) x t := by
  refine stored_aggregatedBoards.exists_mem_applyAll h (fun a ha a' hsame ⟨hx, ht⟩ => ?_)
    fun a ha => (hws _ ha).elim
  have hid : a.id = x := (of_decide_eq_true hsame).trans hx
  refine ⟨hid, ?_⟩
  rcases hws _ ha with hold | ⟨-, -, hfresh⟩
  · exact hdb.unique x _ _ (hid ▸ hold) h
  · exact absurd h (hid ▸ hfresh t)

/-- An aggregated board that was written is there under its tenant. -/
theorem owner_of_put {a : AggregatedBoardRow ι} (ha : .put (.aggregatedBoard a) ∈ ws) :
    Owner ((kanban ι).applyAll db ws) a.id a.tenantId := by
  rcases hws _ ha with hold | ⟨-, ⟨-, htenant⟩, hfresh⟩
  · exact hold.land hdb hws
  · refine stored_aggregatedBoards.exists_mem_of_put ha ⟨rfl, rfl⟩ (fun a' ha' r hsame ⟨hx, ht⟩ => ?_)
      fun a ha => (hws _ ha).elim
    have hid : a'.id = a.id := (of_decide_eq_true hsame).trans hx
    refine ⟨hid, ?_⟩
    rcases hws _ ha' with hold | ⟨-, ⟨-, htenant'⟩, -⟩
    · exact absurd (hid ▸ hold) (hfresh _)
    · exact Option.some.inj (htenant'.symm.trans htenant)

omit hdb in
/-- An aggregated board was there, or the call has made it. -/
theorem owner_of_land (h : Owner ((kanban ι).applyAll db ws) x t) :
    Owner db x t ∨ x ∈ ids ∧ q.Creates t ∧ ∀ t', ¬ Owner db x t' := by
  obtain ⟨a, ha, rfl, rfl⟩ := h
  rcases stored_aggregatedBoards.mem_applyAll ha with hput | ⟨hmem, -⟩
  · exact hws _ hput
  · exact .inl ⟨a, hmem, rfl, rfl⟩

omit hdb in
theorem home_of_land (h : Home ((kanban ι).applyAll db ws) x t) : Home db x t := by
  obtain ⟨b, hb, rfl, rfl⟩ := h
  exact home_of_view hws hb

theorem owner_unique_of_land {t' : String} (h : Owner ((kanban ι).applyAll db ws) x t)
    (h' : Owner ((kanban ι).applyAll db ws) x t') : t = t' := by
  rcases owner_of_land hws h with h | ⟨-, ⟨-, ht⟩, hfresh⟩
  · rcases owner_of_land hws h' with h' | ⟨-, -, hfresh⟩
    · exact hdb.unique x t t' h h'
    · exact absurd h (hfresh t)
  · rcases owner_of_land hws h' with h' | ⟨-, ⟨-, ht'⟩, -⟩
    · exact absurd h' (hfresh t')
    · exact Option.some.inj (ht.symm.trans ht')

theorem OwnedIn.land (h : OwnedIn db ws x t) : Owner ((kanban ι).applyAll db ws) x t := by
  rcases h with h | ⟨a, ha, rfl, rfl⟩
  · exact h.land hdb hws
  · exact owner_of_put hdb hws ha

/-- **Writes that keep tenants apart.** -/
theorem Isolated.land : Isolated H ((kanban ι).applyAll db ws) where
  settled := hdb.settled
  home board tenant h := hdb.home board tenant (home_of_land hws h)
  unique _ _ _ h h' := owner_unique_of_land hdb hws h h'
  owned s hs := by
    obtain ⟨t, ht, -⟩ := source_of_view hdb hws hs
    exact ⟨t, ht.land hdb hws⟩
  sources s hs t u ht hu := by
    obtain ⟨t', hown, hall⟩ := source_of_view hdb hws hs
    rw [owner_unique_of_land hdb hws ht (hown.land hdb hws)]
    exact hall u hu

end Land

end Writes

/-! ## The protocol -/

section Protocol

open Protocol (Anything NoTx)

variable [DecidableEq ι]

/-- The protocol of a call that is in its tenant. -/
def isolation (H : ι → String → Prop) (codec : IdCodec ι) (serviceTenant : String)
    (q : AggregateRequest) : Protocol (kanban ι) where
  Inv tx tr w := Isolated H w.store ∧ DecidedAtHome q tr ∧
    InTenant codec serviceTenant w.store q ∧
    ∀ a ∈ tx.pending, KeepsApart H q w.store (newIds tr) tx.pending a
  rely tr w w₁ := (Isolated H w.store → Isolated H w₁.store) ∧
    InTenant codec serviceTenant w₁.store q ∧
    (∀ x t, Owner w.store x t → Owner w₁.store x t) ∧
    ∀ x ∈ newIds tr, ∀ t, Owner w₁.store x t → Owner w.store x t
  guarantee tr w tr' w' := (Isolated H w.store → Isolated H w'.store) ∧
    (∀ x t, Owner w.store x t → Owner w'.store x t) ∧
    ∀ x t, Owner w'.store x t → Owner w.store x t ∨ x ∈ newIds tr
  stable tx tr w w₁ := by
    rintro ⟨hiso, hin, hmono, hfresh⟩ ⟨hdb, hdec, -, hws⟩
    exact ⟨hiso hdb, hdec, hin, fun a ha => (hws a ha).stable hmono hfresh⟩
  failed tx tr w := by
    rintro ⟨hdb, hdec, hin, -⟩
    exact ⟨hdb, hdec.cons (by nofun), hin, by simp⟩
  opened tr w := by
    rintro ⟨hdb, hdec, hin, -⟩
    exact ⟨hdb, hdec, hin, by simp⟩
  undone tr w := by
    rintro ⟨hdb, hdec, hin, -⟩
    exact ⟨hdb, hdec, hin, by simp⟩
  ended tx tr w := by
    rintro ⟨hdb, hdec, hin, -⟩
    exact ⟨hdb, hdec.cons (by nofun), hin, by simp⟩
  landed ws tr w := by
    rintro ⟨hdb, hdec, hin, hws⟩
    refine ⟨⟨fun _ => hdb.land hws, fun x t h => h.land hdb hws, fun x t h => ?_⟩,
      hdb.land hws, hdec.cons (by nofun), ?_, by simp⟩
    · exact (owner_of_land hws h).imp_right And.left
    · refine hin.anti (fun x t => home_of_land hws) fun x t h => ?_
      exact (owner_of_land hws h).imp_right fun h => h.2.1

variable {H : ι → String → Prop} {codec : IdCodec ι} {serviceTenant : String}
  {q : AggregateRequest} {α β τ : Type} {F : Protocol.Known (Rec ι) (Call ι) (Reply ι)}

/-- A statement whose writes keep tenants apart. -/
theorem isolation_step {s : Stmt (Db ι) (Rec ι) β}
    {F₁ : β → Protocol.Known (Rec ι) (Call ι) (Reply ι)}
    (hs : ∀ tx tr w e, F tx tr → (isolation H codec serviceTenant q).Inv tx tr w →
      s ((kanban ι).applyAll w.store tx.pending) = some e →
      (∀ a ∈ e.writes, KeepsApart H q w.store (newIds tr) (tx.pending ++ e.writes) a) ∧
        F₁ e.answer (tx.record e.writes) (tx.note e tr)) :
    (isolation H codec serviceTenant q).Step F s F₁ := by
  intro tx tr w e hF hI he
  obtain ⟨hws, hF₁⟩ := hs tx tr w e hF hI (Tx.query_eq he)
  obtain ⟨hdb, hdec, hin, hpending⟩ := hI
  -- the writes of the statement, with those that wait
  have hall : ∀ a ∈ tx.pending ++ e.writes,
      KeepsApart H q w.store (newIds tr) (tx.pending ++ e.writes) a := by
    intro a ha
    rcases List.mem_append.mp ha with ha | ha
    · exact (hpending a ha).mono (List.subset_append_left _ _) (List.Subset.refl _)
    · exact hws a ha
  have hran : (isolation H codec serviceTenant q).Inv (.active (tx.pending ++ e.writes))
      (.ran e.read :: tr) w := ⟨hdb, hdec.cons (by nofun), hin, hall⟩
  cases tx with
  | idle =>
      obtain ⟨hg, hI⟩ := (isolation H codec serviceTenant q).landed _ _ _ hran
      exact ⟨hg, hI, hF₁⟩
  | active ws => exact ⟨⟨id, fun _ _ h => h, fun _ _ h => .inl h⟩, hran, hF₁⟩
  | aborted => cases he

/-- The same, when nothing of the answer matters. -/
theorem isolation_step_writes {s : Stmt (Db ι) (Rec ι) β}
    (hs : ∀ tx tr w e, (isolation H codec serviceTenant q).Inv tx tr w →
      s ((kanban ι).applyAll w.store tx.pending) = some e →
      ∀ a ∈ e.writes, KeepsApart H q w.store (newIds tr) (tx.pending ++ e.writes) a) :
    (isolation H codec serviceTenant q).Step F s fun _ => Anything :=
  isolation_step fun tx tr w e _ hI he => ⟨hs tx tr w e hI he, trivial⟩

/-- A statement about other tables. -/
theorem isolation_step_within {s : Stmt (Db ι) (Rec ι) β} {T : Table (Db ι) (Rec ι) τ}
    (hs : T.Within s) (hT : ∀ db ids ws r, KeepsApart H q db ids ws (.put (T.record r)) ∧
      KeepsApart H q db ids ws (.del (T.record r))) :
    (isolation H codec serviceTenant q).Step F s fun _ => Anything := by
  refine isolation_step_writes fun tx tr w e _ he a ha => ?_
  obtain ⟨r, rfl | rfl⟩ := hs _ e he a ha
  · exact (hT _ _ _ r).1
  · exact (hT _ _ _ r).2

/-- A statement that writes nothing. -/
theorem isolation_step_read {s : Stmt (Db ι) (Rec ι) β} (hs : ∀ db e, s db = some e → e.writes = []) :
    (isolation H codec serviceTenant q).Step F s fun _ => Anything := by
  refine isolation_step_writes fun tx tr w e _ he a ha => ?_
  rw [hs _ e he] at ha
  cases ha

/-- A call, and what it decides. -/
theorem isolation_asks {c : Call ι}
    (hc : ∀ tx tr w, (isolation H codec serviceTenant q).Inv tx tr w → ∀ tenant query,
      c = .checkPermission tenant query → q.CallerTenant tenant)
    (hF : ∀ r tx tr, F tx tr → F tx (.called c r :: tr)) :
    (isolation H codec serviceTenant q).Asks F c := by
  intro tx tr w m r hFtr hI hr
  have hids : newIds tr ⊆ newIds (.called c r.1 :: tr) :=
    fun id hid => mem_newIds.mpr (List.mem_cons_of_mem _ (mem_newIds.mp hid))
  have hcall := hc tx tr w hI
  obtain ⟨hdb, hdec, hin, hws⟩ := hI
  refine ⟨⟨id, fun _ _ h => h, fun _ _ h => .inl h⟩, ⟨hdb, hdec.cons ?_, hin, fun a ha => ?_⟩,
    hF r.1 tx tr hFtr⟩
  · intro tenant query r' heq
    cases heq
    exact hcall tenant query rfl
  · exact (hws a ha).mono (List.Subset.refl _) hids

/-- An update of aggregated boards that leaves them their tenants. -/
theorem isolation_step_aggregates {p : AggregatedBoardRow ι → Bool}
    {f : AggregatedBoardRow ι → AggregatedBoardRow ι}
    (hf : ∀ a, (f a).id = a.id ∧ (f a).tenantId = a.tenantId) :
    (isolation H codec serviceTenant q).Step F (Db.aggregatedBoardsT.update p f)
      fun _ => Anything := by
  refine isolation_step_writes fun tx tr w e hI he => ?_
  refine Table.forall_writes_update he fun a ha _ => ?_
  have hput : Owner w.store a.id a.tenantId ∨
      a.id ∈ newIds tr ∧ q.Creates a.tenantId ∧ ∀ t, ¬ Owner w.store a.id t := by
    rcases stored_aggregatedBoards.mem_applyAll ha with hput | ⟨hmem, -⟩
    · exact hI.2.2.2 _ hput
    · exact .inl ⟨a, hmem, rfl, rfl⟩
  rw [← (hf a).1, ← (hf a).2] at hput
  exact hput

/-- A source that a statement sees may be written back. -/
theorem keepsApart_of_view {tx : Tx (Rec ι)} {tr : Trace (Rec ι) (Call ι) (Reply ι)}
    {w : World (Db ι) (Backend ι)} {ws : List (Write (Rec ι))} {s s' : SourceRow ι}
    (hI : (isolation H codec serviceTenant q).Inv tx tr w)
    (hs : s ∈ ((kanban ι).applyAll w.store tx.pending).aggregatedBoardSources)
    (ha : s'.aggregatedBoardId = s.aggregatedBoardId) (hb : s'.boardId = s.boardId) :
    KeepsApart H q w.store (newIds tr) (tx.pending ++ ws) (.put (.source s')) := by
  obtain ⟨t, ht, hall⟩ := source_of_view hI.1 hI.2.2.2 hs
  refine ⟨t, ?_, ?_⟩
  · rw [ha]
    exact ht.mono (List.subset_append_left _ _)
  · rwa [hb]

/-- An update of the positions of sources. -/
theorem isolation_step_positions {p : SourceRow ι → Bool} {f : SourceRow ι → ℤ} :
    (isolation H codec serviceTenant q).Step F
      (Db.sourcesT.update p fun s => { s with position := f s }) fun _ => Anything := by
  refine isolation_step_writes fun tx tr w e hI he => ?_
  exact Table.forall_writes_update he fun s hs _ => keepsApart_of_view hI hs rfl rfl

/-! ## The handlers -/

/-- A call that decides nothing about permissions. -/
theorem asks_anything {c : Call ι} (hc : ∀ tenant query, c ≠ .checkPermission tenant query) :
    (isolation H codec serviceTenant q).Asks Anything c :=
  isolation_asks (fun _ _ _ _ tenant query h => absurd h (hc tenant query)) fun _ _ _ _ => trivial

theorem keeps_insertRow {tenantId eventType : String} {boardId aggregatedBoardId projectId : Option ι}
    {payload : Payload} : (isolation H codec serviceTenant q).Keeps Anything
      (insertRow tenantId boardId aggregatedBoardId projectId eventType payload)
      fun _ => Anything := by
  refine .bind (.newId (asks_anything nofun)) fun id => .bind (.query (isolation_step_within
    Table.within_insert fun _ _ _ _ => ⟨trivial, trivial⟩)) fun _ => .query (isolation_step_read ?_)
  rintro db e ⟨⟩
  rfl

theorem keeps_insertAggregatedEvent {tenantId eventType : String} {aggregatedBoardId : ι}
    {payload : Payload} : (isolation H codec serviceTenant q).Keeps Anything
      (insertAggregatedEvent tenantId aggregatedBoardId eventType payload) fun _ => Anything :=
  .bind (.fetchOne (isolation_step_aggregates fun _ => ⟨rfl, rfl⟩)) fun _ =>
    keeps_insertRow.mono (fun _ _ _ => trivial) fun _ _ _ h => h

theorem keeps_commitTx {msg : String} :
    (isolation H codec serviceTenant q).Keeps Anything (commitTx msg) fun _ => Anything :=
  .commitTx (fun _ _ _ => trivial) fun _ _ => trivial

theorem keeps_storeIdempotencyId {tenantId key : String} {id : ι} :
    (isolation H codec serviceTenant q).Keeps Anything (storeIdempotencyId tenantId key id)
      fun _ => Anything := by
  refine .ite (fun _ => .pure fun _ _ h => h) fun _ => .bind (.attempt ?_ (fun _ _ _ h => h)
    fun _ _ _ => trivial) fun _ => .pure fun _ _ h => h
  exact isolation_step_within Table.within_insertIgnore fun _ _ _ _ => ⟨trivial, trivial⟩

theorem keeps_getAggregateMetadata {tenantId : String} {aggregatedBoardId : ι} :
    (isolation H codec serviceTenant q).Keeps Anything
      (getAggregateMetadata codec aggregatedBoardId tenantId) fun _ => Anything := by
  refine .bind (.fetchOr (isolation_step_read fun db e he => ?_)) fun _ => .pure fun _ _ _ => trivial
  cases he
  rfl

theorem keeps_fetchOrderedSourceIds {tenantId : String} {aggregatedBoardId : ι} :
    (isolation H codec serviceTenant q).Keeps Anything
      (fetchOrderedSourceIds aggregatedBoardId tenantId) fun _ => Anything := by
  refine .query (isolation_step_read fun db e he => ?_)
  cases he
  rfl

theorem keeps_applySourceOrder {tenantId : String} {aggregatedBoardId : ι} {order : List (ι × ℕ)} :
    (isolation H codec serviceTenant q).Keeps Anything
      (applySourceOrder aggregatedBoardId tenantId order) fun _ => Anything := by
  induction order with
  | nil => exact .pure fun _ _ h => h
  | cons entry rest ih => exact .bind (.query isolation_step_positions) fun _ => ih

variable {ctx : RequestContext}

/-- An existence check tells the tenant of the board. -/
theorem tenant_of_sourceKeys {tx : Tx (Rec ι)} {tr : Trace (Rec ι) (Call ι) (Reply ι)}
    {w : World (Db ι) (Backend ι)} {row : SourceRow ι} {t : String}
    (hI : (isolation H codec serviceTenant q).Inv tx tr w)
    (hkeys : sourceKeys row ((kanban ι).applyAll w.store tx.pending) = true)
    (ht : ∀ u, Home w.store row.boardId u → u = t) : ∀ u, H row.boardId u → u = t := by
  obtain ⟨hboard, -⟩ := Bool.and_eq_true_iff.mp hkeys
  obtain ⟨b, hb, hid⟩ := List.any_eq_true.mp hboard
  obtain rfl := ht b.tenantId ((of_decide_eq_true hid : b.id = row.boardId) ▸ home_of_view hI.2.2.2 hb)
  have hhome : Home w.store row.boardId b.tenantId :=
    (of_decide_eq_true hid : b.id = row.boardId) ▸ home_of_view hI.2.2.2 hb
  exact fun u hu => hI.1.settled _ _ _ hu (hI.1.home _ _ hhome)

section Create

variable {req : CreateAggregatedBoardRequest} {row : AggregatedBoardRow ι}

/-- A source of the aggregated board that the transaction makes. -/
theorem isolation_step_insertSource {text : String} {boardId : ι} {position : ℕ}
    (hcall : q.call = .createAggregatedBoard req) (htenant : q.auth.tenantId = some row.tenantId)
    (htext : text ∈ req.sourceBoardIds) (hparse : codec.parse text = some boardId) :
    (isolation H codec serviceTenant q).Step
      (fun tx _ => .put (.aggregatedBoard row) ∈ tx.pending)
      (insertSource ⟨row.id, row.tenantId, boardId, position⟩)
      fun _ tx _ => .put (.aggregatedBoard row) ∈ tx.pending := by
  refine isolation_step fun tx tr w e hF hI he => ?_
  unfold insertSource at he
  split at he
  · rename_i hkeys
    have hin := hI.2.2.1
    unfold InTenant at hin
    rw [hcall] at hin
    have hall := tenant_of_sourceKeys hI hkeys fun u hu => by
      obtain ⟨b, hb, rfl, rfl⟩ := hu
      exact Option.some.inj ((hin text htext b hb hparse).symm.trans htenant)
    refine ⟨fun a ha => ?_, ?_⟩
    · rw [Table.writes_insert he] at ha
      rw [List.mem_singleton.mp ha]
      exact ⟨row.tenantId, .inr ⟨row, List.mem_append_left _ hF, rfl, rfl⟩, hall⟩
    · cases tx with
      | idle => cases hF
      | active ws => exact List.mem_append_left _ hF
      | aborted => cases hF
  · cases he

theorem keeps_insertSources {entries : List (String × ℕ)}
    (hcall : q.call = .createAggregatedBoard req) (htenant : q.auth.tenantId = some row.tenantId)
    (hentries : ∀ entry ∈ entries, entry.1 ∈ req.sourceBoardIds) :
    (isolation H codec serviceTenant q).Keeps
      (fun tx _ => .put (.aggregatedBoard row) ∈ tx.pending)
      (insertSources codec row.id row.tenantId entries)
      fun _ tx _ => .put (.aggregatedBoard row) ∈ tx.pending := by
  induction entries with
  | nil => exact .pure fun _ _ h => h
  | cons entry rest ih =>
      refine .orError_bind fun boardId hparse => .bind (.query (isolation_step_insertSource hcall
        htenant (hentries entry List.mem_cons_self) hparse)) fun _ => ih fun e he => ?_
      exact hentries e (List.mem_cons_of_mem _ he)

/-- The row of a new aggregated board. -/
theorem isolation_step_insertAggregate (hcall : q.call = .createAggregatedBoard req)
    (htenant : q.auth.tenantId = some row.tenantId) :
    (isolation H codec serviceTenant q).Step (fun tx tr => tx = .active [] ∧ row.id ∈ newIds tr)
      (Db.aggregatedBoardsT.insert row)
      fun _ tx _ => .put (.aggregatedBoard row) ∈ tx.pending := by
  refine isolation_step fun tx tr w e hF hI he => ?_
  obtain ⟨rfl, hid⟩ := hF
  refine ⟨fun a ha => ?_, ?_⟩
  · rw [Table.writes_insert he] at ha
    rw [List.mem_singleton.mp ha]
    refine .inr ⟨hid, ⟨⟨req, hcall⟩, htenant⟩, ?_⟩
    rintro t ⟨a', ha', hid', -⟩
    unfold Table.insert at he
    split at he
    · cases he
    · rename_i hnone
      exact hnone (List.any_eq_true.mpr ⟨a', ha', decide_eq_true hid'.symm⟩)
  · rw [Tx.record_active, Table.writes_insert he]
    exact List.mem_cons_self

theorem keeps_insertNewAggregate {permission subject : String} (row : AggregatedBoardRow ι)
    (hcall : q.call = .createAggregatedBoard req) (htenant : q.auth.tenantId = some row.tenantId) :
    (isolation H codec serviceTenant q).Keeps (fun tx tr => tx = .idle ∧ row.id ∈ newIds tr)
      (insertNewAggregate codec permission subject row req.sourceBoardIds) fun _ => Anything := by
  refine .bind (.beginTx fun _ _ h => h.1) fun _ => .bind ((Protocol.Keeps.query
    (isolation_step_insertAggregate hcall htenant)).mono (fun _ _ h => ⟨h.1, h.2.2⟩)
    fun _ _ _ h => h) fun _ => .bind (keeps_insertSources hcall htenant ?_) fun _ => ?_
  · exact fun entry he => List.fst_mem_of_mem_zipIdx he
  refine Protocol.Keeps.mono (F := Anything) ?_ (fun _ _ _ => trivial) fun _ _ _ h => h
  refine .bind (.grantWithRetry (asks_anything nofun)) fun owner => .ensure_bind fun _ =>
    .bind (.grantWithRetry (asks_anything nofun)) fun viewer => .ensure_bind fun _ =>
    .bind (.attempt (isolation_step_within Table.within_insertIgnore
      fun _ _ _ _ => ⟨trivial, trivial⟩) (fun _ _ _ h => h) fun _ _ _ => trivial) fun _ =>
    .bind keeps_insertAggregatedEvent fun _ => keeps_commitTx

theorem keeps_createAggregatedBoard (hcall : q.call = .createAggregatedBoard req)
    (hauth : ctx.auth = some q.auth) :
    (isolation H codec serviceTenant q).Keeps NoTx (createAggregatedBoard codec ctx req)
      fun _ => Anything := by
  have hasks : ∀ c, (∀ tenant query, c ≠ .checkPermission tenant query) →
      (isolation H codec serviceTenant q).Asks NoTx c := fun c hc =>
    isolation_asks (fun _ _ _ _ tenant query h => absurd h (hc tenant query)) fun _ _ _ h => h
  refine .orError_bind fun subject _ => .orError_bind fun tenantId htenant =>
    .tenantClientFor_bind (fun _ => hasks _ nofun) fun permission _ => .ensure_bind fun _ =>
    .bind (.newId (hasks _ nofun)) fun id => ?_
  rw [hauth] at htenant
  let row : AggregatedBoardRow ι := ⟨id, tenantId, req.name, req.description, req.icon,
    Kanban.Services.protoToDb req.visibility, subject, 0⟩
  refine .bind ((keeps_insertNewAggregate row hcall htenant).mono ?_ fun _ _ _ h => h) fun _ =>
    .bind keeps_storeIdempotencyId fun _ => .pure fun _ _ h => h
  rintro tx tr ⟨htx, tr', rfl⟩
  exact ⟨htx, mem_newIds.mpr List.mem_cons_self⟩

end Create

/-- A call that decides nothing about permissions, before the transaction. -/
theorem asks_noTx {c : Call ι} (hc : ∀ tenant query, c ≠ .checkPermission tenant query) :
    (isolation H codec serviceTenant q).Asks NoTx c :=
  isolation_asks (fun _ _ _ _ tenant query h => absurd h (hc tenant query)) fun _ _ _ h => h

theorem keeps_beginTx {msg : String} :
    (isolation H codec serviceTenant q).Keeps NoTx (beginTx msg) fun _ => Anything :=
  (Protocol.Keeps.beginTx fun _ _ h => h).mono (fun _ _ h => h) fun _ _ _ _ => trivial

/-- The visibility check is in the caller's tenant if the service's own tenant is the caller's. -/
theorem keeps_checkVisibilityChange {req : UpdateAggregatedBoardRequest} {subject : String}
    {aggregatedBoardId : ι} (hcall : q.call = .updateAggregatedBoard req)
    (hvisibility : "visibility" ∈ req.updateMask) :
    (isolation H codec serviceTenant q).Keeps NoTx
      (checkVisibilityChange codec serviceTenant subject aggregatedBoardId) fun _ => NoTx := by
  refine .bind (.checkPermissionWithRetry (isolation_asks ?_ fun _ _ _ h => h)) fun allowed =>
    .orError_bind fun allowed _ => ?_
  · rintro tx tr w ⟨-, -, hin, -⟩ tenant query ⟨⟩
    unfold InTenant at hin
    rw [hcall] at hin
    exact hin hvisibility
  · exact .ite (fun _ => .pure fun _ _ h => h) fun _ => .fail

theorem isolation_step_updateAggregatedBoardRow {tenantId : String} {aggregatedBoardId : ι}
    {req : UpdateAggregatedBoardRequest} : (isolation H codec serviceTenant q).Step F
      (updateAggregatedBoardRow tenantId aggregatedBoardId req) fun _ => Anything :=
  isolation_step_aggregates fun _ => ⟨rfl, rfl⟩

theorem keeps_updateAggregatedBoard {req : UpdateAggregatedBoardRequest}
    (hcall : q.call = .updateAggregatedBoard req) :
    (isolation H codec serviceTenant q).Keeps NoTx
      (updateAggregatedBoard codec serviceTenant ctx req) fun _ => Anything := by
  refine .orError_bind fun subject _ => .orError_bind fun tenantId _ =>
    .orError_bind fun objectId _ => .orError_bind fun aggregatedBoardId _ => ?_
  have hrest : (isolation H codec serviceTenant q).Keeps NoTx (do
      beginTx "failed to begin transaction"
      let row ← fetchOr "failed to update aggregated board" (notFound "aggregated board not found")
        (updateAggregatedBoardRow tenantId aggregatedBoardId req)
      insertAggregatedEvent tenantId aggregatedBoardId "AggregatedBoardUpdated"
        [("aggregated_board_id", .str (codec.toString aggregatedBoardId))]
      commitTx "failed to commit transaction"
      .pure (aggregatedBoardFromRow codec row)) fun _ => Anything := by
    refine .bind keeps_beginTx fun _ => .bind (.forget (.fetchOr
      isolation_step_updateAggregatedBoardRow)) fun row => .bind keeps_insertAggregatedEvent fun _ =>
      .bind keeps_commitTx fun _ => .pure fun _ _ h => h
  exact .ite (fun h => .bind (keeps_checkVisibilityChange hcall h) fun _ => hrest)
    fun _ => .bind (.pure fun _ _ h => h) fun _ => hrest

/-- The rest has the ids of the request, and the aggregated board is the one that was checked. -/
theorem keeps_sourceRequest_bind {text : String} {f : String × ι × ι → Handler ι β}
    {B : β → Protocol.Known (Rec ι) (Call ι) (Reply ι)}
    (hf : ∀ tenantId objectId aggregatedBoardId boardId, ctx.checked = some objectId →
      codec.parse objectId = some aggregatedBoardId → codec.parse text = some boardId →
      (isolation H codec serviceTenant q).Keeps F (f (tenantId, aggregatedBoardId, boardId)) B) :
    (isolation H codec serviceTenant q).Keeps F ((sourceRequest codec ctx text).bind f) B := by
  unfold sourceRequest
  simp only [Prog.bind_eq, Prog.bind_assoc]
  exact .orError_bind fun tenantId _ => .orError_bind fun objectId hobject =>
    .orError_bind fun aggregatedBoardId haggregate => .orError_bind fun boardId hboard =>
    hf tenantId objectId aggregatedBoardId boardId hobject haggregate hboard

section Sources

variable {tenantId : String} {aggregatedBoardId boardId : ι} {position toPosition : ℤ}

theorem keeps_sourcePosition : (isolation H codec serviceTenant q).Keeps Anything
    (sourcePosition tenantId aggregatedBoardId position) fun _ => Anything := by
  refine .ite (fun _ => .pure fun _ _ h => h) fun _ => .bind (.query (isolation_step_read ?_))
    fun _ => .pure fun _ _ h => h
  rintro db e ⟨⟩
  rfl

theorem isolation_step_shiftSources {p : SourceRow ι → Bool} :
    (isolation H codec serviceTenant q).Step F (Db.sourcesT.updateChecked p
      fun s => (int4 (s.position + 1)).map fun n => { s with position := n })
      fun _ => Anything := by
  refine isolation_step_writes fun tx tr w e hI he => ?_
  refine Table.forall_writes_updateChecked he fun s hs _ s' hs' => ?_
  obtain ⟨n, -, rfl⟩ := Option.map_eq_some_iff.mp hs'
  exact keepsApart_of_view hI hs rfl rfl

/-- The upsert of a source of the same tenant as the aggregated board. -/
theorem isolation_step_upsertSource {req : AddSourceBoardRequest}
    (hcall : q.call = .addSourceBoard req) (hboard : codec.parse req.boardId = some boardId)
    (haggregate : q.objectId.bind codec.parse = some aggregatedBoardId) :
    (isolation H codec serviceTenant q).Step Anything
      (upsertSource ⟨aggregatedBoardId, tenantId, boardId, position⟩) fun _ => Anything := by
  refine isolation_step_writes fun tx tr w e hI he => ?_
  unfold upsertSource at he
  split at he
  · rename_i hkeys
    obtain ⟨a, ha, hid⟩ := List.any_eq_true.mp (Bool.and_eq_true_iff.mp hkeys).2
    obtain rfl : a.id = aggregatedBoardId := of_decide_eq_true hid
    -- an aggregated board that the call has not made is there
    have howner : Owner w.store a.id a.tenantId := by
      rcases stored_aggregatedBoards.mem_applyAll ha with hput | ⟨hmem, -⟩
      · rcases hI.2.2.2 _ hput with h | ⟨-, ⟨⟨req', hreq⟩, -⟩, -⟩
        · exact h
        · rw [hcall] at hreq
          cases hreq
      · exact ⟨a, hmem, rfl, rfl⟩
    have hin := hI.2.2.1
    unfold InTenant at hin
    rw [hcall] at hin
    have hall : ∀ u, H boardId u → u = a.tenantId := tenant_of_sourceKeys hI hkeys fun u hu => by
      obtain ⟨b, hb, rfl, rfl⟩ := hu
      obtain ⟨a', ha', hid', htenant⟩ := howner
      exact (hin b hb a' ha' hboard (hid' ▸ haggregate)).trans htenant
    intro write hwrite
    unfold Table.upsert at he
    split at he
    · rename_i s hs
      cases he
      rw [List.mem_singleton.mp hwrite]
      exact keepsApart_of_view hI (List.mem_of_find?_eq_some hs) rfl rfl
    · cases he
      rw [List.mem_singleton.mp hwrite]
      exact ⟨a.tenantId, .inl howner, hall⟩
  · cases he

theorem keeps_insertNewSource {req : AddSourceBoardRequest}
    (hcall : q.call = .addSourceBoard req) (hboard : codec.parse req.boardId = some boardId)
    (haggregate : q.objectId.bind codec.parse = some aggregatedBoardId) :
    (isolation H codec serviceTenant q).Keeps NoTx
      (insertNewSource codec tenantId aggregatedBoardId boardId position) fun _ => Anything := by
  refine .bind keeps_beginTx fun _ => .bind keeps_sourcePosition fun position =>
    .bind (.query isolation_step_shiftSources) fun _ =>
    .bind (.query (isolation_step_upsertSource hcall hboard haggregate)) fun _ =>
    .bind keeps_fetchOrderedSourceIds fun ordered => .bind keeps_applySourceOrder fun _ =>
    .bind keeps_insertAggregatedEvent fun _ => keeps_commitTx

theorem keeps_addSourceBoard {req : AddSourceBoardRequest} (hcall : q.call = .addSourceBoard req)
    (hchecked : ∀ objectId, ctx.checked = some objectId → q.objectId = some objectId) :
    (isolation H codec serviceTenant q).Keeps NoTx (addSourceBoard codec ctx req)
      fun _ => Anything := by
  refine keeps_sourceRequest_bind fun tenantId objectId aggregatedBoardId boardId hobject haggregate
    hboard => .bind (keeps_insertNewSource hcall hboard ?_) fun _ => keeps_getAggregateMetadata
  rw [hchecked objectId hobject]
  exact haggregate

theorem keeps_removeSourceBoard {req : RemoveSourceBoardRequest} :
    (isolation H codec serviceTenant q).Keeps NoTx (removeSourceBoard codec ctx req)
      fun _ => Anything := by
  refine keeps_sourceRequest_bind fun tenantId objectId aggregatedBoardId boardId _ _ _ =>
    .bind (.bind keeps_beginTx fun _ => .bind (.query (isolation_step_writes ?_)) fun _ =>
      .bind keeps_fetchOrderedSourceIds fun ordered => .bind keeps_applySourceOrder fun _ =>
      .bind keeps_insertAggregatedEvent fun _ => keeps_commitTx) fun _ => keeps_getAggregateMetadata
  rintro tx tr w e _ ⟨⟩ a ha
  obtain ⟨s, -, rfl⟩ := List.mem_map.mp ha
  trivial

theorem keeps_moveSourceBoard {req : MoveSourceBoardRequest} :
    (isolation H codec serviceTenant q).Keeps NoTx (moveSourceBoard codec ctx req)
      fun _ => Anything :=
  keeps_sourceRequest_bind fun _ _ _ _ _ _ _ => .bind (.bind keeps_beginTx fun _ =>
    .bind keeps_fetchOrderedSourceIds fun _ => .ensure_bind fun _ =>
    .bind keeps_applySourceOrder fun _ => keeps_commitTx) fun _ => keeps_getAggregateMetadata

end Sources

/-- DeleteBoard removes no aggregated board. -/
theorem keepsApart_deleteBoardRow {tenantId : String} {boardId : ι} {db db' : Db ι} {ids : List ι}
    {ws : List (Write (Rec ι))} {e : Effect (Rec ι) (List (BoardRow ι))}
    (he : deleteBoardRow tenantId boardId db' = some e) :
    ∀ a ∈ e.writes, KeepsApart H q db ids ws a := by
  have hcards : ∀ cards, ∀ r ∈ withChildren db' cards, KeepsApart H q db ids ws (.del r) := by
    intro cards
    simp only [withChildren, cardChildren, List.forall_mem_flatMap, List.forall_mem_cons,
      List.forall_mem_append, List.forall_mem_map]
    simp [KeepsApart]
  obtain rfl := deleteBoardRow_some he
  simp only [List.forall_mem_append, List.forall_mem_map]
  refine ⟨fun r hr => ?_, fun b _ => trivial⟩
  split at hr
  · cases hr
  · rcases List.mem_append.mp hr with hr | hr
    · rcases List.mem_append.mp hr with hr | hr
      · rcases List.mem_append.mp hr with hr | hr
        · exact hcards _ r hr
        · obtain ⟨k, -, rfl⟩ := List.mem_map.mp hr
          trivial
      · obtain ⟨event, -, rfl⟩ := List.mem_map.mp hr
        trivial
    · obtain ⟨s, -, rfl⟩ := List.mem_map.mp hr
      trivial

theorem keeps_deleteBoard : (isolation H codec serviceTenant q).Keeps NoTx (deleteBoard codec ctx)
    fun _ => Anything := by
  refine .orError_bind fun tenantId _ => .orError_bind fun objectId _ => .orError_bind
    fun boardId _ => .bind keeps_beginTx fun _ => .bind (.forget (.fetchOr
    (isolation_step_read ?_))) fun board => .bind keeps_insertRow fun _ =>
    .bind (.query (isolation_step_writes fun _ _ _ _ _ => keepsApart_deleteBoardRow)) fun _ =>
    .ensure_bind fun _ => keeps_commitTx
  rintro db e ⟨⟩
  rfl

/-- What the dispatcher hands on is the id of the header, and it decides in the caller's tenant. -/
theorem keeps_dispatchCheck {isAuthenticated : AuthContext → Bool} :
    (isolation H codec serviceTenant q).Keeps NoTx (dispatchCheck isAuthenticated q.dispatch)
      fun checked tx tr => (∀ objectId, checked = some objectId → q.objectId = some objectId) ∧
        NoTx tx tr := by
  unfold dispatchCheck
  split
  · split
    · exact .fail
    · split
      · exact .pure fun _ _ h => ⟨nofun, h⟩
      · unfold checkHeader
        split
        · exact .fail
        · rename_i objectId hobject
          refine .ask (asks_noTx nofun) fun ok => ?_
          split
          · refine .ask (isolation_asks ?_ fun _ _ _ h => h) fun r => ?_
            · rintro tx tr w hI tenant query ⟨⟩
              exact .inl rfl
            · split
              · exact .fail
              · split
                · refine .pure fun _ _ h => ⟨?_, h⟩
                  rintro _ ⟨⟩
                  exact (Option.filter_eq_some_iff.mp hobject).1
                · exact .fail
          · exact .fail
  · exact .fail

theorem keeps_aggregateHandler (hauth : ctx.auth = some q.auth)
    (hchecked : ∀ objectId, ctx.checked = some objectId → q.objectId = some objectId) :
    (isolation H codec serviceTenant q).Keeps NoTx (aggregateHandler codec serviceTenant ctx q.call)
      fun _ => Anything := by
  have hunit : ∀ {γ : Type} {p : Handler ι γ},
      (isolation H codec serviceTenant q).Keeps NoTx p (fun _ => Anything) →
      (isolation H codec serviceTenant q).Keeps NoTx (p.bind fun _ => .pure ()) fun _ => Anything :=
    fun h => h.bind fun _ => .pure fun _ _ h => h
  cases hcall : q.call with
  | createAggregatedBoard req => exact hunit (keeps_createAggregatedBoard hcall hauth)
  | updateAggregatedBoard req => exact hunit (keeps_updateAggregatedBoard hcall)
  | addSourceBoard req => exact hunit (keeps_addSourceBoard hcall hchecked)
  | moveSourceBoard req => exact hunit keeps_moveSourceBoard
  | removeSourceBoard req => exact hunit keeps_removeSourceBoard
  | deleteBoard => exact keeps_deleteBoard

theorem keeps_serveAggregate {isAuthenticated : AuthContext → Bool} :
    (isolation H codec serviceTenant q).Keeps NoTx
      (serveAggregate isAuthenticated codec serviceTenant q) fun _ => Anything :=
  .bind (.mapError keeps_dispatchCheck) fun _ => .mapError (.of_fact fun hchecked =>
    keeps_aggregateHandler rfl hchecked)

end Protocol

/-! ## Runs -/

section Runs

variable [DecidableEq ι]

/-- The calls under way, of any tenants. -/
abbrev AggregatePool (ι : Type) := Pool AggregateRequest (Db ι) (Rec ι) (Call ι) (Reply ι) (Backend ι)
  (StatusError ⊕ ConnectError) Unit

/-- The rows are of one tenant where they meet, and every permission decision so far was taken in
the tenant of its caller. -/
structure TenantsApart (P : AggregatePool ι) : Prop where
  sources : ∀ s ∈ P.world.store.aggregatedBoardSources, ∀ a ∈ P.world.store.aggregatedBoards,
    ∀ b ∈ P.world.store.boards, a.id = s.aggregatedBoardId → b.id = s.boardId →
    b.tenantId = a.tenantId
  decisions : ∀ c ∈ P.calls, DecidedAtHome c.1 c.2.trace

/-- The keys of the tables: two primary keys, and the foreign key of a source. -/
structure SourceKeys (db : Db ι) : Prop where
  boards : (db.boards.map BoardRow.id).Nodup
  aggregatedBoards : (db.aggregatedBoards.map AggregatedBoardRow.id).Nodup
  sources : ∀ s ∈ db.aggregatedBoardSources, ∃ a ∈ db.aggregatedBoards, a.id = s.aggregatedBoardId

variable (isAuthenticated : AuthContext → Bool) (codec : IdCodec ι) (serviceTenant : String)

/-- Every call under way is in its tenant. -/
def AllInTenant (P : AggregatePool ι) : Prop :=
  ∀ c ∈ P.calls, c.2.prog.result.isNone → InTenant codec serviceTenant P.world.store c.1

/-- The turn leaves every call in its tenant, the one that arrives included. -/
def StaysInTenant (P : AggregatePool ι) (a : Turn AggregateRequest (Move ι)) : Prop :=
  (match a with
    | .arrive q => InTenant codec serviceTenant P.world.store q
    | _ => True) ∧
  match P.step (kanban ι) (serveAggregate isAuthenticated codec serviceTenant) a with
  | some P' => AllInTenant codec serviceTenant P'
  | none => True

instance {P : AggregatePool ι} : Decidable (AllInTenant codec serviceTenant P) :=
  inferInstanceAs (Decidable (∀ c ∈ P.calls, _ → _))

instance (P : AggregatePool ι) (a : Turn AggregateRequest (Move ι)) :
    Decidable (StaysInTenant isAuthenticated codec serviceTenant P a) := by
  unfold StaysInTenant
  refine @instDecidableAnd _ _ ?_ ?_
  · split <;> infer_instance
  · split <;> infer_instance

variable {isAuthenticated codec serviceTenant} {P₀ P : AggregatePool ι}
  {turns : List (Turn AggregateRequest (Move ι))}

omit [DecidableEq ι] in
theorem isolated_of_keys {P : AggregatePool ι} (hkeys : SourceKeys P.world.store)
    (h : TenantsApart P) : Isolated (Home P.world.store) P.world.store where
  settled x t t' := by
    rintro ⟨b, hb, rfl, rfl⟩ ⟨b', hb', hid, rfl⟩
    rw [List.inj_on_of_nodup_map hkeys.boards hb hb' hid.symm]
  home _ _ h := h
  unique x t t' := by
    rintro ⟨a, ha, rfl, rfl⟩ ⟨a', ha', hid, rfl⟩
    rw [List.inj_on_of_nodup_map hkeys.aggregatedBoards ha ha' hid.symm]
  owned s hs := by
    obtain ⟨a, ha, hid⟩ := hkeys.sources s hs
    exact ⟨a.tenantId, a, ha, hid, rfl⟩
  sources s hs t u := by
    rintro ⟨a, ha, hid, rfl⟩ ⟨b, hb, hid', rfl⟩
    exact h.sources s hs a ha b hb hid hid'

/-- **Tenant isolation.**  In every run whose calls stay in their tenants, every source is a board
of the tenant of its aggregated board, and every permission decision is taken in the tenant of its
caller. -/
theorem tenantsApart (h₀ : P₀.calls = []) (hkeys : SourceKeys P₀.world.store)
    (hapart : TenantsApart P₀)
    (hrun : Machine.ExecWhile (Pool.step (kanban ι)
      (serveAggregate isAuthenticated codec serviceTenant))
      (StaysInTenant isAuthenticated codec serviceTenant) P₀ turns P) : TenantsApart P := by
  let X : AggregatePool ι → Prop := fun P => DrawnOnce P ∧ AllInTenant codec serviceTenant P
  let J : World (Db ι) (Backend ι) → Prop := fun w => Isolated (Home P₀.world.store) w.store
  let K := isolation (Home P₀.world.store) codec serviceTenant
  have hX : ∀ (P : AggregatePool ι) a P', X P →
      StaysInTenant isAuthenticated codec serviceTenant P a →
      P.step (kanban ι) (serveAggregate isAuthenticated codec serviceTenant) a = some P' → X P' := by
    rintro P a P' ⟨hdrawn, -⟩ ⟨-, hC⟩ hs
    rw [hs] at hC
    exact ⟨hdrawn.step hs, hC⟩
  have hrefl : ∀ (P : AggregatePool ι) c, X P → c ∈ P.calls → c.2.prog.result = none →
      (K c.1).rely c.2.trace P.world P.world := by
    rintro P c ⟨-, hin⟩ hc hnone
    exact ⟨id, hin c hc (Option.isNone_iff_eq_none.mpr hnone), fun _ _ h => h, fun _ _ _ h => h⟩
  have htrans : ∀ q tr w w' w'', (K q).rely tr w w' → (K q).rely tr w' w'' →
      (K q).rely tr w w'' := by
    rintro q tr w w' w'' ⟨hiso, -, hmono, hfresh⟩ ⟨hiso', hin, hmono', hfresh'⟩
    exact ⟨fun h => hiso' (hiso h), hin, fun x t h => hmono' x t (hmono x t h),
      fun x hx t h => hfresh x hx t (hfresh' x hx t h)⟩
  -- an aggregated board that one call makes has no id of another call
  have hR : ∀ (P P' : AggregatePool ι) (i j : ℕ) c c' d, X P → X P' → J P.world →
      P.calls[i]? = some c → P'.calls[i]? = some c' → i ≠ j → P.calls[j]? = some d →
      P'.calls[j]? = some d → c'.1 = c.1 → c.2.prog.result = none →
      (K c.1).grant c.2.trace P.world c'.2.trace P'.world → d.2.prog.result = none →
      (K d.1).rely d.2.trace P.world P'.world := by
    rintro P P' i j c c' d ⟨hdrawn, -⟩ ⟨-, hin⟩ - hi - hij hj hj' - - ⟨⟨hiso, hmono, hnew⟩, -⟩ hnone
    refine ⟨hiso, hin d (List.mem_of_getElem? hj') (Option.isNone_iff_eq_none.mpr hnone), hmono,
      fun x hx t ht => ?_⟩
    exact (hnew x t ht).resolve_right fun hc => hdrawn.apart i j c d hij hi hj x hc hx
  obtain ⟨-, hiso, hcalls⟩ := Protocol.pool (K := K) (X := X) (J := J) hX hrefl htrans hR
    (fun _ _ _ _ _ hg => hg.1.1)
    (fun P q hC hiso => ⟨hiso, fun _ _ _ h => absurd h List.not_mem_nil, hC.1, by simp⟩)
    (fun q => keeps_serveAggregate.mono (fun _ _ h => h.1) fun _ _ _ h => h)
    hrun h₀ ⟨.of_nil h₀, by simp [AllInTenant, h₀]⟩ (isolated_of_keys hkeys hapart)
  refine ⟨fun s hs a ha b hb hid hid' => ?_, fun c hc => ?_⟩
  · exact hiso.sources s hs a.tenantId b.tenantId ⟨a, ha, hid, rfl⟩
      (hiso.home _ _ ⟨b, hb, hid', rfl⟩)
  · obtain ⟨w, -, ⟨tx, -, hdec, -⟩, -⟩ := hcalls c hc
    exact hdec

end Runs

/-! ## Two tenants -/

/-- A board of each of two tenants, and an aggregated board of the first. -/
def twoTenants : World (Db String) (Backend String) :=
  ⟨{ Db.empty with
    boards := [⟨"a", "t", "p", "A", "a", "", none, "team", 0⟩,
      ⟨"b", "u", "p'", "B", "b", "", none, "team", 0⟩]
    aggregatedBoards := [⟨"x", "t", "All", "", "", "team", "user:ann", 0⟩] }, .empty⟩

/-- The service of the examples; its own client is of the tenant of the service. -/
def serveTenants (q : AggregateRequest) :
    Prog (Db String) (Rec String) (Call String) (Reply String) (StatusError ⊕ ConnectError) Unit :=
  serveAggregate (fun auth => auth.subject.isSome) textIds "root" q

/-- A caller of the first tenant makes an aggregated board of one board. -/
def createOf (board : String) : AggregateRequest :=
  ⟨⟨some "t", some "user:ann"⟩, "t", none, 0, .createAggregatedBoard ⟨"Mine", "", "", 0, [board], ""⟩⟩

/-- The whole call. -/
def createdOf (board : String) : List (Turn AggregateRequest (Move String)) :=
  .arrive (createOf board) :: [.move .done, .move (.fresh "y"), .ok, .ok, .ok, .move .done,
    .move .done, .ok, .ok, .move (.fresh "e"), .ok, .ok, .ok].map (.act 0)

/-- A manager of the aggregated board makes it private. -/
def makePrivate : AggregateRequest :=
  ⟨⟨some "t", some "user:ann"⟩, "t", some "x", 0, .updateAggregatedBoard ⟨"", "", "", 1, ["visibility"]⟩⟩

/-- The check of the dispatcher, and the one of the handler. -/
def checkedTwice : List (Turn AggregateRequest (Move String)) :=
  .arrive makePrivate :: [.move .done, .move (.answer true), .move (.answer true)].map (.act 0)

theorem twoTenants_apart : SourceKeys twoTenants.store ∧ TenantsApart (Pool.idle twoTenants) :=
  ⟨⟨by decide, by decide, by simp [twoTenants, Db.empty]⟩, by simp [Pool.idle, twoTenants, Db.empty],
    by simp [Pool.idle]⟩

theorem tenantsApart_createOf :
    ∃ P, Machine.ExecWhile (Pool.step (kanban String) serveTenants)
        (StaysInTenant (fun auth => auth.subject.isSome) textIds "root") (Pool.idle twoTenants)
        (createdOf "a") P ∧
      P.world.store.aggregatedBoardSources = [⟨"y", "t", "a", 0⟩] ∧ TenantsApart P := by
  obtain ⟨P, hP, hsources⟩ : ∃ P, Machine.run (Machine.guarded (Pool.step (kanban String) serveTenants)
      (StaysInTenant (fun auth => auth.subject.isSome) textIds "root")) (Pool.idle twoTenants)
      (createdOf "a") = some P ∧ P.world.store.aggregatedBoardSources = [⟨"y", "t", "a", 0⟩] :=
    ⟨_, rfl, rfl⟩
  have hrun := Machine.execWhile_of_run hP
  exact ⟨P, hrun, hsources, tenantsApart rfl twoTenants_apart.1 twoTenants_apart.2 hrun⟩

/-- A board of another tenant becomes a source, and the visibility of an aggregated board is decided
in the tenant of the service. -/
theorem not_tenantsApart :
    (∃ P, Machine.Exec (Pool.step (kanban String) serveTenants) (Pool.idle twoTenants)
        (createdOf "b") P ∧
      ¬ ∀ s ∈ P.world.store.aggregatedBoardSources, ∀ a ∈ P.world.store.aggregatedBoards,
        ∀ b ∈ P.world.store.boards, a.id = s.aggregatedBoardId → b.id = s.boardId →
        b.tenantId = a.tenantId) ∧
    ∃ P, Machine.Exec (Pool.step (kanban String) serveTenants) (Pool.idle twoTenants)
        checkedTwice P ∧ ¬ ∀ c ∈ P.calls, DecidedAtHome c.1 c.2.trace := by
  constructor
  · obtain ⟨P, hP, hno⟩ : ∃ P, Machine.run (Pool.step (kanban String) serveTenants)
        (Pool.idle twoTenants) (createdOf "b") = some P ∧
        decide (∀ s ∈ P.world.store.aggregatedBoardSources, ∀ a ∈ P.world.store.aggregatedBoards,
          ∀ b ∈ P.world.store.boards, a.id = s.aggregatedBoardId → b.id = s.boardId →
          b.tenantId = a.tenantId) = false := ⟨_, rfl, rfl⟩
    exact ⟨P, Machine.exec_of_run hP, of_decide_eq_false hno⟩
  · obtain ⟨P, hP, c, hc, hcall, r, hr⟩ : ∃ P, Machine.run (Pool.step (kanban String) serveTenants)
        (Pool.idle twoTenants) checkedTwice = some P ∧ ∃ c, P.calls = [c] ∧ c.1 = makePrivate ∧
        ∃ r, c.2.trace.head? = some (.called (.checkPermission "root"
          ⟨"KanbanAggregatedBoard", "x", "manage", "user:ann"⟩) r) :=
      ⟨_, rfl, _, rfl, rfl, _, rfl⟩
    refine ⟨P, Machine.exec_of_run hP, fun hall => ?_⟩
    have hhome := hall c (by rw [hc]; exact List.mem_cons_self) _ _ _ (List.mem_of_head? hr)
    rw [hcall] at hhome
    exact absurd hhome (by decide)

end Kanban.Rpc
