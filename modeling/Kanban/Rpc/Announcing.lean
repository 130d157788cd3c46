import Kanban.Rpc.CardDocuments
import Kanban.Rpc.FreshIds
import Kanban.Rpc.KeptCalls
import Kanban.Rpc.References

/-!
# Changes that are announced

What a transaction does to the document of a card it has to announce before it ends, with the row of
an event that makes a dispatcher look at the card again.  Only UpdateCard writes the row of a card
outside of the transaction of its event.

## Main definitions

* `Debt`, `Pays`, `announcing` — the card that a transaction has not announced yet, and what its
  statements may write.
* `Indexed` — a world in which the cards that the log deletes are gone for good.
* `Ledgered`, `Reported` — what the writes of an open transaction amount to.
* `announcingLaw` — the law of the transactions of cards.
-/

namespace Kanban.Rpc

open Program Kanban.Store Kanban.Auth
open Kanban.Services (AuthContext ConnectError IdCodec)

variable {ι : Type} [DecidableEq ι] {codec : IdCodec ι} {db : Db ι} {x y : ι}
  {ws ws' : List (Write (Rec ι))} {a : Write (Rec ι)} {e e' : EventRow ι}

/-! ## Debts -/

/-- What the writes of a transaction have made of the row of a card. -/
inductive Owing
  | unknown
  | tenant (t : String)
  | gone

/-- The card that a transaction has changed and not announced, and the ids that it was issued. -/
structure Debt (ι : Type) where
  owes : Option (ι × Owing)
  drawn : List ι

/-- A row that is no event, and that no document is built of. -/
def NoDoc : Rec ι → Prop
  | .card _ => False
  | .cardLabel _ => False
  | .assignee _ => False
  | .label _ => False
  | .event _ => False
  | _ => True

/-- A write that leaves every document as it is. -/
def KeepsFace (db : Db ι) : Write (Rec ι) → Prop
  | .put (.card c) => ∃ c₀ ∈ db.cards, face c₀ = face c
  | a => NoDoc a.record

/-- A row that stands beside the row of the card. -/
def DetailOf (x : ι) : Rec ι → Prop
  | .cardLabel r => r.cardId = x
  | .assignee r => r.cardId = x
  | r => NoDoc r

/-- A write about the card; its row was there in its tenant, or it is a new card. -/
def PartOf (drawn : List ι) (db : Db ι) (x : ι) : Write (Rec ι) → Prop
  | .put (.card c) =>
      c.id = x ∧ (x ∈ drawn ∨ ∃ c₀ ∈ db.cards, c₀.id = x ∧ c₀.tenantId = c.tenantId)
  | .del (.card c) => c.id = x ∧ c ∈ db.cards
  | a => DetailOf x a.record

/-- What the writes leave of the row of the card. -/
def Leaves (db : Db ι) (ws : List (Write (Rec ι))) (x : ι) : Owing → Prop
  | .unknown => True
  | .tenant t => WritesCard ws x ∧
      (cardRow ((kanban ι).applyAll db ws) x).map CardRow.tenantId = some t
  | .gone => WritesCard ws x ∧ cardRow ((kanban ι).applyAll db ws) x = none

/-- The row of an event after which the index agrees with the row of the card. -/
def EventFor (codec : IdCodec ι) (e : EventRow ι) (x : ι) : Owing → Prop
  | .unknown => False
  | .tenant t => indexTask codec e = some (.index x) ∧ e.tenantId = t
  | .gone => indexTask codec e = some (.delete x)

/-- The id of the row is not in use. -/
def Unlogged (db : Db ι) (e : EventRow ι) : Prop := ∀ e' ∈ db.eventLog, e'.id ≠ e.id

/-- A statement of a transaction. -/
inductive Pays (codec : IdCodec ι) (g : Debt ι) (db : Db ι) : List (Write (Rec ι)) → Debt ι → Prop
  | keep {ws : List (Write (Rec ι))} : (∀ a ∈ ws, KeepsFace db a) → Pays codec g db ws g
  | touch {ws : List (Write (Rec ι))} {x : ι} {o : Owing} :
      (∀ y o', g.owes = some (y, o') → y = x) →
      (∀ a ∈ ws, PartOf g.drawn db x a) → Leaves db ws x o → (o = .gone → x ∉ g.drawn) →
      Pays codec g db ws { g with owes := some (x, o) }
  | more {ws : List (Write (Rec ι))} {x : ι} {o : Owing} : g.owes = some (x, o) →
      (∀ a ∈ ws, DetailOf x a.record) → Pays codec g db ws g
  | log {e : EventRow ι} : Unlogged db e → deletedCard codec e = none →
      Pays codec g db [.put (.event e)] g
  | announce {e : EventRow ι} {x : ι} {o : Owing} : Unlogged db e → g.owes = some (x, o) →
      EventFor codec e x o → Pays codec g db [.put (.event e)] { g with owes := none }

/-- Outside of a transaction: the row of a card that is there, and rows of other tables. -/
def Apart (db : Db ι) (a : Write (Rec ι)) : Prop :=
  NoDoc a.record ∨
    ∃ c, a = .put (.card c) ∧ ∃ c₀ ∈ db.cards, c₀.id = c.id ∧ c₀.tenantId = c.tenantId

/-- A transaction announces what it changes, one card after the other. -/
def announcing (codec : IdCodec ι) : Discipline (Db ι) (Rec ι) (Call ι) (Reply ι) (Debt ι) where
  first := ⟨none, []⟩
  auto db ws := ∀ a ∈ ws, Apart db a
  move g db ws g' := Pays codec g db ws g'
  hear g c r := { g with drawn := newIds [.called c r] ++ g.drawn }
  closed g := g.owes = none

/-! ## Single writes -/

section Spares

theorem NoDoc.spares (h : NoDoc a.record) : Spares db x a := by
  rcases a with (r | r) <;> cases r <;> first | exact trivial | exact h.elim

theorem KeepsFace.spares (hkeyed : Keyed db) (h : KeepsFace db a) : Spares db x a := by
  rcases a with (r | r)
  · cases r
    case card c =>
      intro hid
      obtain ⟨c₀, hc₀, hface⟩ := h
      have hid₀ : c₀.id = x := (congrArg (·.1) hface).trans hid
      rw [← hface, ← hid₀, cardRow_of_mem hkeyed hc₀]
      rfl
    all_goals first | exact trivial | exact h.elim
  · cases r <;> first | exact trivial | exact h.elim

theorem DetailOf.spares (h : DetailOf x a.record) (hy : x ≠ y) : Spares db y a := by
  rcases a with (r | r) <;> cases r <;> first
    | exact trivial
    | exact h.elim
    | exact fun heq => hy (h.symm.trans heq)

theorem PartOf.spares {drawn : List ι} {db' : Db ι} (h : PartOf drawn db x a) (hy : x ≠ y) :
    Spares db' y a := by
  rcases a with (r | r)
  · cases r
    case card c => exact fun heq => absurd (h.1.symm.trans heq) hy
    all_goals first
      | exact trivial
      | exact h.elim
      | exact fun heq => hy (h.symm.trans heq)
  · cases r
    case card c => exact fun heq => hy (h.1.symm.trans heq)
    all_goals first
      | exact trivial
      | exact h.elim
      | exact fun heq => hy (h.symm.trans heq)

omit [DecidableEq ι] in
theorem DetailOf.not_card (h : DetailOf x a.record) (c : CardRow ι) : a.record ≠ .card c := by
  intro hc
  rw [hc] at h
  exact h

omit [DecidableEq ι] in
theorem DetailOf.not_event (h : DetailOf x a.record) (e : EventRow ι) : a.record ≠ .event e := by
  intro hc
  rw [hc] at h
  exact h

omit [DecidableEq ι] in
theorem PartOf.not_event {drawn : List ι} (h : PartOf drawn db x a) (e : EventRow ι) :
    a.record ≠ .event e := by
  rcases a with (r | r) <;> cases r <;> first | exact h.elim | simp [Write.record]

omit [DecidableEq ι] in
theorem KeepsFace.not_event (h : KeepsFace db a) (e : EventRow ι) : a.record ≠ .event e := by
  rcases a with (r | r) <;> cases r <;> first | exact h.elim | simp [Write.record]

omit [DecidableEq ι] in
theorem Apart.not_event (h : Apart db a) (e : EventRow ι) : a.record ≠ .event e := by
  rintro hc
  rcases h with h | ⟨c, rfl, -⟩
  · rw [hc] at h
    exact h
  · cases hc

omit [DecidableEq ι] in
theorem mem_eventWrites : e ∈ eventWrites ws ↔ .put (.event e) ∈ ws := by
  unfold eventWrites
  rw [List.mem_filterMap]
  constructor
  · rintro ⟨a, ha, heq⟩
    rcases a with (r | r)
    · cases r <;> cases heq
      exact ha
    · cases heq
  · exact fun h => ⟨_, h, rfl⟩

end Spares

/-! ## What writes amount to -/

/-- The id is in use: a card has it, or the log deletes it. -/
def Used (codec : IdCodec ι) (db : Db ι) (x : ι) : Prop :=
  cardRow db x ≠ none ∨ ∃ e ∈ db.eventLog, deletedCard codec e = some x

/-- The cards that the log deletes are gone, and no id in use is issued again. -/
structure Indexed (codec : IdCodec ι) (w : World (Db ι) (Backend ι)) : Prop where
  keyed : Keyed w.store
  events : (w.store.eventLog.map EventRow.id).Nodup
  issued : ∀ x, Used codec w.store x → x ∈ w.ext.issued
  dead : ∀ e ∈ w.store.eventLog, ∀ x, deletedCard codec e = some x → cardRow w.store x = none

/-- The writes announce what they do to the card, or leave its document as it is. -/
def Reported (codec : IdCodec ι) (db : Db ι) (ws : List (Write (Rec ι))) (x : ι) : Prop :=
  (∃ e ∈ eventWrites ws, ∃ o, EventFor codec e x o ∧ Leaves db ws x o) ∨ ∀ a ∈ ws, Spares db x a

/-- The cards that the writes put were there in their tenants or are new, and the events that they
log are new, and of no card that is there. -/
structure Ledgered (codec : IdCodec ι) (db : Db ι) (issued : List ι)
    (h : Held (Rec ι) (Call ι) (Reply ι)) (g : Debt ι) : Prop where
  drawn : ∀ x ∈ g.drawn, x ∈ newIds h.1 ∧ x ∈ issued ∧ ¬ Used codec db x
  cards : ∀ c, .put (.card c) ∈ h.2 →
    c.id ∈ g.drawn ∨ ∃ c₀ ∈ db.cards, c₀.id = c.id ∧ c₀.tenantId = c.tenantId
  kept : ∀ e, .del (.event e) ∉ h.2
  fresh : ∀ e ∈ eventWrites h.2, Unlogged db e
  nodup : ((eventWrites h.2).map EventRow.id).Nodup
  buried : ∀ e ∈ eventWrites h.2, ∀ x, deletedCard codec e = some x →
    Leaves db h.2 x .gone ∧ Used codec db x

/-- Every card is reported, but the one that the transaction still owes. -/
structure Accounted (codec : IdCodec ι) (db : Db ι) (issued : List ι)
    (h : Held (Rec ι) (Call ι) (Reply ι)) (g : Debt ι) : Prop extends
    Ledgered codec db issued h g where
  leaves : ∀ x o, g.owes = some (x, o) → Leaves db h.2 x o ∧ (o = .gone → Used codec db x)
  told : ∀ x, (∃ o, g.owes = some (x, o)) ∨ Reported codec db h.2 x

section Appending

omit [DecidableEq ι] in
theorem WritesCard.append_left (h : WritesCard ws x) : WritesCard (ws ++ ws') x := by
  obtain ⟨a, ha, hc⟩ := h
  exact ⟨a, List.mem_append_left _ ha, hc⟩

omit [DecidableEq ι] in
theorem WritesCard.append_right (h : WritesCard ws' x) : WritesCard (ws ++ ws') x := by
  obtain ⟨a, ha, hc⟩ := h
  exact ⟨a, List.mem_append_right _ ha, hc⟩

omit [DecidableEq ι] in
theorem map_tenantId_of_face {o o' : Option (CardRow ι)} (h : o.map face = o'.map face) :
    o.map CardRow.tenantId = o'.map CardRow.tenantId := by
  have hcomp : ∀ o : Option (CardRow ι), o.map CardRow.tenantId = (o.map face).map (·.2.1) := by
    intro o
    cases o <;> rfl
  rw [hcomp, hcomp, h]

/-- Writes that leave the face of the row. -/
theorem Leaves.append {o : Owing} (h : Leaves db ws x o)
    (hface : (cardRow ((kanban ι).applyAll ((kanban ι).applyAll db ws) ws') x).map face =
      (cardRow ((kanban ι).applyAll db ws) x).map face) : Leaves db (ws ++ ws') x o := by
  cases o with
  | unknown => trivial
  | tenant t =>
      refine ⟨h.1.append_left, ?_⟩
      rw [Semantics.applyAll_append, map_tenantId_of_face hface]
      exact h.2
  | gone =>
      refine ⟨h.1.append_left, ?_⟩
      rw [h.2] at hface
      rw [Semantics.applyAll_append]
      exact Option.map_eq_none_iff.mp hface

/-- What later writes leave of the row they leave of it in all. -/
theorem Leaves.after {o : Owing} (h : Leaves ((kanban ι).applyAll db ws) ws' x o) :
    Leaves db (ws ++ ws') x o := by
  cases o with
  | unknown => trivial
  | tenant t =>
      refine ⟨h.1.append_right, ?_⟩
      rw [Semantics.applyAll_append]
      exact h.2
  | gone =>
      refine ⟨h.1.append_right, ?_⟩
      rw [Semantics.applyAll_append]
      exact h.2

theorem face_of_spares (h : ∀ a ∈ ws, Spares db x a) :
    (cardRow ((kanban ι).applyAll db ws) x).map face = (cardRow db x).map face :=
  congrArg Prod.fst (docView_applyAll h)

theorem Spares.congr {db' : Db ι} (h : Spares db x a)
    (hface : (cardRow db x).map face = (cardRow db' x).map face) : Spares db' x a := by
  rcases a with (r | r)
  · cases r
    case card c => exact fun hid => hface.symm.trans (h hid)
    all_goals exact h
  · cases r <;> exact h

/-- Writes that spare the card leave it reported. -/
theorem Reported.append (h : Reported codec db ws x)
    (hspares : ∀ a ∈ ws', Spares ((kanban ι).applyAll db ws) x a) :
    Reported codec db (ws ++ ws') x := by
  rcases h with ⟨e, he, o, hfor, hleaves⟩ | hall
  · refine .inl ⟨e, ?_, o, hfor, hleaves.append (face_of_spares hspares)⟩
    rw [eventWrites_append]
    exact List.mem_append_left _ he
  · refine .inr fun a ha => ?_
    rcases List.mem_append.mp ha with ha | ha
    · exact hall a ha
    · exact (hspares a ha).congr (face_of_spares hall)

end Appending

namespace Ledgered

variable {issued : List ι} {h : Held (Rec ι) (Call ι) (Reply ι)} {g g' : Debt ι}

theorem log_eq (hl : Ledgered codec db issued h g) :
    ((kanban ι).applyAll db h.2).eventLog = db.eventLog ++ eventWrites h.2 :=
  eventLog_applyAll (fun _ ha e hae => hl.kept e (hae ▸ ha)) hl.nodup hl.fresh

/-- A card that the transaction sees is a new one, or was there in its tenant. -/
theorem of_view (hl : Ledgered codec db issued h g) {c : CardRow ι}
    (hc : c ∈ ((kanban ι).applyAll db h.2).cards) :
    c.id ∈ g.drawn ∨ ∃ c₀ ∈ db.cards, c₀.id = c.id ∧ c₀.tenantId = c.tenantId := by
  rcases stored_cards.mem_applyAll hc with hput | ⟨hold, -⟩
  · exact hl.cards c hput
  · exact .inr ⟨c, hold, rfl, rfl⟩

theorem used_of_mem {c : CardRow ι} (hc : c ∈ db.cards) : Used codec db c.id :=
  .inl fun hnone => cardRow_eq_none.mp hnone c hc rfl

/-- A row that the writes put in the place of one that is there keeps its tenant. -/
theorem tenant (hl : Ledgered codec db issued h g) (hkeyed : Keyed db) {c c' : CardRow ι}
    (hc : cardRow db x = some c) (hc' : cardRow ((kanban ι).applyAll db h.2) x = some c') :
    c'.tenantId = c.tenantId := by
  obtain ⟨hmem, rfl⟩ := mem_of_cardRow hc
  obtain ⟨hmem', hid⟩ := mem_of_cardRow hc'
  rcases hl.of_view hmem' with hdrawn | ⟨c₀, hc₀, hid₀, htenant⟩
  · rw [hid] at hdrawn
    exact absurd (used_of_mem hmem) (hl.drawn _ hdrawn).2.2
  · rw [← htenant, hkeyed.eq_of_mem hc₀ hmem (hid₀.trans hid)]

/-- **A commit of ledgered writes.** -/
theorem indexed {w : World (Db ι) (Backend ι)} (hw : Indexed codec w)
    (hl : Ledgered codec w.store w.ext.issued h g) :
    Indexed codec ⟨(kanban ι).applyAll w.store h.2, w.ext⟩ where
  keyed := hw.keyed.applyAll _
  events := by
    rw [hl.log_eq, List.map_append, List.nodup_append]
    refine ⟨hw.events, hl.nodup, fun id hid id' hid' heq => ?_⟩
    obtain ⟨e, he, rfl⟩ := List.mem_map.mp hid
    obtain ⟨e', he', rfl⟩ := List.mem_map.mp hid'
    exact hl.fresh e' he' e he heq
  issued x hx := by
    rcases hx with hx | ⟨e, he, hx⟩
    · obtain ⟨c, hc⟩ := Option.ne_none_iff_exists'.mp hx
      obtain ⟨hmem, rfl⟩ := mem_of_cardRow hc
      rcases hl.of_view hmem with hdrawn | ⟨c₀, hc₀, hid, -⟩
      · exact (hl.drawn _ hdrawn).2.1
      · exact hid ▸ hw.issued _ (used_of_mem hc₀)
    · rw [hl.log_eq] at he
      rcases List.mem_append.mp he with he | he
      · exact hw.issued x (.inr ⟨e, he, hx⟩)
      · exact hw.issued x (hl.buried e he x hx).2
  dead e he x hx := by
    rw [hl.log_eq] at he
    rcases List.mem_append.mp he with he | he
    · refine cardRow_eq_none.mpr fun c hc hid => ?_
      have hnone := hw.dead e he x hx
      rcases hl.of_view hc with hdrawn | ⟨c₀, hc₀, hid₀, -⟩
      · rw [hid] at hdrawn
        exact (hl.drawn _ hdrawn).2.2 (.inr ⟨e, he, hx⟩)
      · exact cardRow_eq_none.mp hnone c₀ hc₀ (hid₀.trans hid)
    · exact (hl.buried e he x hx).1.2

/-- An id that is in use after a commit was in use, or the call was issued it. -/
theorem used (hl : Ledgered codec db issued h g) (hx : Used codec ((kanban ι).applyAll db h.2) x) :
    Used codec db x ∨ x ∈ newIds h.1 := by
  rcases hx with hx | ⟨e, he, hx⟩
  · obtain ⟨c, hc⟩ := Option.ne_none_iff_exists'.mp hx
    obtain ⟨hmem, rfl⟩ := mem_of_cardRow hc
    rcases hl.of_view hmem with hdrawn | ⟨c₀, hc₀, hid, -⟩
    · exact .inr (hl.drawn _ hdrawn).1
    · exact .inl (hid ▸ used_of_mem hc₀)
  · rw [hl.log_eq] at he
    rcases List.mem_append.mp he with he | he
    · exact .inl (.inr ⟨e, he, hx⟩)
    · exact .inl (hl.buried e he x hx).2

/-- More cards. -/
theorem append {o : Option (ι × Owing)} {r : List (Rec ι)} (hl : Ledgered codec db issued h g)
    (hcards : ∀ c, .put (.card c) ∈ ws → c.id ∈ g.drawn ∨
      ∃ c₀ ∈ ((kanban ι).applyAll db h.2).cards, c₀.id = c.id ∧ c₀.tenantId = c.tenantId)
    (hevents : ∀ a ∈ ws, ∀ e, a.record ≠ .event e) :
    Ledgered codec db issued (.ran r :: h.1, h.2 ++ ws) { g with owes := o } where
  drawn := hl.drawn
  cards c hc := by
    rcases List.mem_append.mp hc with hc | hc
    · exact hl.cards c hc
    · rcases hcards c hc with hdrawn | ⟨c₀, hc₀, hid, htenant⟩
      · exact .inl hdrawn
      · rw [← hid, ← htenant]
        exact hl.of_view hc₀
  kept e he := by
    rcases List.mem_append.mp he with he | he
    · exact hl.kept e he
    · exact hevents _ he e rfl
  fresh := by
    rw [eventWrites_append, eventWrites_eq_nil hevents, List.append_nil]
    exact hl.fresh
  nodup := by
    rw [eventWrites_append, eventWrites_eq_nil hevents, List.append_nil]
    exact hl.nodup
  buried e he x hx := by
    rw [eventWrites_append, eventWrites_eq_nil hevents, List.append_nil] at he
    obtain ⟨⟨hwrites, hnone⟩, hused⟩ := hl.buried e he x hx
    -- a card that is gone is not new, so no row of it is put again
    refine ⟨⟨hwrites.append_left, cardRow_eq_none.mpr fun c hc hid => ?_⟩, hused⟩
    rw [Semantics.applyAll_append] at hc
    rcases stored_cards.mem_applyAll hc with hput | ⟨hold, -⟩
    · rcases hcards c hput with hdrawn | ⟨c₀, hc₀, hid₀, -⟩
      · exact (hl.drawn _ hdrawn).2.2 (hid ▸ hused)
      · exact cardRow_eq_none.mp hnone c₀ hc₀ (hid₀.trans hid)
    · exact cardRow_eq_none.mp hnone c hold hid

/-- One more event. -/
theorem append_event {o : Option (ι × Owing)} {r : List (Rec ι)}
    (hl : Ledgered codec db issued h g) (hnew : Unlogged ((kanban ι).applyAll db h.2) e)
    (hdel : ∀ x, deletedCard codec e = some x → Leaves db h.2 x .gone ∧ Used codec db x) :
    Ledgered codec db issued (.ran r :: h.1, h.2 ++ [.put (.event e)]) { g with owes := o } := by
  have hwrites : eventWrites (h.2 ++ [.put (.event e)]) = eventWrites h.2 ++ [e] :=
    eventWrites_append
  have hgone : ∀ {x}, Leaves db h.2 x .gone → Leaves db (h.2 ++ [.put (.event e)]) x .gone :=
    fun hx => hx.append (face_of_spares fun a ha => by
      rw [List.mem_singleton.mp ha]
      trivial)
  unfold Unlogged at hnew
  rw [hl.log_eq] at hnew
  refine ⟨hl.drawn, fun c hc => ?_, fun e' he' => ?_, fun e' he' => ?_, ?_, fun e' he' x hx => ?_⟩
  · rcases List.mem_append.mp hc with hc | hc
    · exact hl.cards c hc
    · cases List.mem_singleton.mp hc
  · rcases List.mem_append.mp he' with he' | he'
    · exact hl.kept e' he'
    · cases List.mem_singleton.mp he'
  · rw [hwrites] at he'
    rcases List.mem_append.mp he' with he' | he'
    · exact hl.fresh e' he'
    · rw [List.mem_singleton.mp he']
      exact fun e₀ he₀ => hnew e₀ (List.mem_append_left _ he₀)
  · rw [hwrites, List.map_append, List.nodup_append]
    refine ⟨hl.nodup, List.nodup_singleton _, fun id hid id' hid' heq => ?_⟩
    obtain ⟨e₀, he₀, rfl⟩ := List.mem_map.mp hid
    rw [List.mem_singleton.mp hid'] at heq
    exact hnew e₀ (List.mem_append_right _ he₀) heq
  · rw [hwrites] at he'
    rcases List.mem_append.mp he' with he' | he'
    · exact (hl.buried e' he' x hx).imp_left hgone
    · rw [List.mem_singleton.mp he'] at hx
      exact (hdel x hx).imp_left hgone

/-- Writes outside of a transaction. -/
theorem of_apart {tr : Trace (Rec ι) (Call ι) (Reply ι)} (h : ∀ a ∈ ws, Apart db a) :
    Ledgered codec db issued (tr, ws) ⟨none, []⟩ := by
  have hevents : eventWrites ws = [] := eventWrites_eq_nil fun a ha => (h a ha).not_event
  refine ⟨by simp, fun c hc => ?_, fun e he => (h _ he).not_event e rfl, ?_, ?_, ?_⟩
  · rcases h _ hc with hno | ⟨c', heq, hold⟩
    · exact hno.elim
    · cases heq
      exact .inr hold
  · simp [hevents]
  · simp [hevents]
  · simp [hevents]

end Ledgered

/-! ## The law -/

section Law

variable {issued : List ι} {tr : Trace (Rec ι) (Call ι) (Reply ι)} {g g' : Debt ι}

/-- The card of a part of a transaction was in use, or the transaction has made it. -/
theorem Ledgered.used_of_part (hl : Ledgered codec db issued (tr, ws) g) (hx : x ∉ g.drawn)
    (hpart : ∀ a ∈ ws', PartOf g.drawn ((kanban ι).applyAll db ws) x a) (hw : WritesCard ws' x) :
    Used codec db x := by
  have hview : ∀ c ∈ ((kanban ι).applyAll db ws).cards, c.id = x → Used codec db x := by
    rintro c hc rfl
    rcases hl.of_view hc with hdrawn | ⟨c₀, hc₀, hid, -⟩
    · exact absurd hdrawn hx
    · exact hid ▸ used_of_mem hc₀
  obtain ⟨a, ha, c, hc, hid⟩ := hw
  have h := hpart a ha
  rcases a with (r | r)
  · obtain rfl : r = .card c := hc
    rcases h.2 with hdrawn | ⟨c₀, hc₀, hid₀, -⟩
    · exact absurd hdrawn hx
    · exact hview c₀ hc₀ hid₀
  · obtain rfl : r = .card c := hc
    exact hview c h.2 hid

/-- **One statement of a transaction.** -/
theorem Accounted.move {r : List (Rec ι)} (hkeyed : Keyed db)
    (h : Accounted codec db issued (tr, ws) g)
    (hmove : Pays codec g ((kanban ι).applyAll db ws) ws' g') :
    Accounted codec db issued (.ran r :: tr, ws ++ ws') g' := by
  cases hmove with
  | keep hkeep =>
      have hspares : ∀ x, ∀ a ∈ ws', Spares ((kanban ι).applyAll db ws) x a := fun x a ha =>
        (hkeep a ha).spares (hkeyed.applyAll _)
      have hledger := h.toLedgered.append (o := g.owes) (r := r)
        (fun c hc => .inr ?_) fun a ha => (hkeep a ha).not_event
      · refine ⟨hledger, fun x o hx => ?_, fun x => ?_⟩
        · exact (h.leaves x o hx).imp_left fun hl => hl.append (face_of_spares (hspares x))
        · exact (h.told x).imp_right fun hr => hr.append (hspares x)
      · obtain ⟨c₀, hc₀, hface⟩ := hkeep _ hc
        exact ⟨c₀, hc₀, congrArg (·.1) hface, congrArg (·.2.1) hface⟩
  | @touch _ x o hone hpart hleaves hgone =>
      have hledger := h.toLedgered.append (o := some (x, o)) (r := r)
        (fun c hc => ?_) fun a ha => (hpart a ha).not_event
      · refine ⟨hledger, fun y o' hy => ?_, fun y => ?_⟩
        · cases hy
          refine ⟨hleaves.after, fun ho => ?_⟩
          subst ho
          exact h.toLedgered.used_of_part (hgone rfl) hpart hleaves.1
        · by_cases hxy : x = y
          · exact .inl ⟨o, by rw [hxy]⟩
          · rcases h.told y with ⟨o', hy⟩ | hr
            · exact absurd (hone y o' hy).symm hxy
            · exact .inr (hr.append fun a ha => (hpart a ha).spares hxy)
      · obtain ⟨hid, hold⟩ := hpart _ hc
        exact hold.imp (fun hd => hid ▸ hd) fun ⟨c₀, hc₀, hid₀, ht⟩ =>
          ⟨c₀, hc₀, hid₀.trans hid.symm, ht⟩
  | @more _ x o howes hdetail =>
      have hledger := h.toLedgered.append (o := g.owes) (r := r)
        (fun c hc => absurd rfl ((hdetail _ hc).not_card c)) fun a ha => (hdetail a ha).not_event
      refine ⟨hledger, fun y o' hy => ?_, fun y => ?_⟩
      · refine (h.leaves y o' hy).imp_left fun hl => hl.append ?_
        rw [cardRow_of_not_writesCard]
        rintro ⟨a, ha, c, hc, -⟩
        exact (hdetail a ha).not_card c hc
      · by_cases hxy : x = y
        · exact .inl ⟨o, by rw [← hxy, howes]⟩
        · exact (h.told y).imp_right fun hr => hr.append fun a ha => (hdetail a ha).spares hxy
  | @log e hnew hdel =>
      have hledger := h.toLedgered.append_event (o := g.owes) (r := r) hnew
        (fun x hx => by rw [hdel] at hx; cases hx)
      have hspares : ∀ x, ∀ a ∈ [Write.put (.event e)], Spares ((kanban ι).applyAll db ws) x a :=
        fun x a ha => by
          rw [List.mem_singleton.mp ha]
          trivial
      refine ⟨hledger, fun x o hx => ?_, fun x => ?_⟩
      · exact (h.leaves x o hx).imp_left fun hl => hl.append (face_of_spares (hspares x))
      · exact (h.told x).imp_right fun hr => hr.append (hspares x)
  | @announce e x o hnew howes hfor =>
      obtain ⟨hleaves, hgone⟩ := h.leaves x o howes
      have hspares : ∀ x, ∀ a ∈ [Write.put (.event e)], Spares ((kanban ι).applyAll db ws) x a :=
        fun x a ha => by
          rw [List.mem_singleton.mp ha]
          trivial
      have hledger := h.toLedgered.append_event (o := none) (r := r) hnew (fun y hy => ?_)
      · refine ⟨hledger, fun y o' hy => ?_, fun y => ?_⟩
        · cases hy
        · rcases h.told y with ⟨o', hy⟩ | hr
          · rw [howes] at hy
            cases hy
            refine .inr (.inl ⟨e, ?_, o, hfor, hleaves.append (face_of_spares (hspares x))⟩)
            rw [eventWrites_append]
            exact List.mem_append_right _ List.mem_cons_self
          · exact .inr (hr.append (hspares y))
      · have htask := deletedCard_eq_some.mp hy
        cases o with
        | unknown => exact hfor.elim
        | tenant t =>
            have hindex := hfor.1
            rw [htask] at hindex
            cases hindex
        | gone =>
            have hdelete : indexTask codec e = some (.delete x) := hfor
            rw [htask] at hdelete
            cases hdelete
            exact ⟨hleaves, hgone rfl⟩

/-- Both write one row; a lock on the row keeps two such transactions apart. -/
def SameRow (ws ws' : List (Write (Rec ι))) : Prop :=
  ∃ a ∈ ws, ∃ a' ∈ ws', a.record.same a'.record = true

instance : DecidableRel (SameRow (ι := ι)) := fun ws ws' =>
  inferInstanceAs (Decidable (∃ a ∈ ws, ∃ a' ∈ ws', a.record.same a'.record = true))

/-- Two calls that write one row, or were issued one id. -/
def Collides (h h' : Held (Rec ι) (Call ι) (Reply ι)) : Prop :=
  SameRow h.2 h'.2 ∨ ∃ x ∈ newIds h.1, x ∈ newIds h'.1

theorem sameRow_of_writesCard (h : WritesCard ws x) (h' : WritesCard ws' x) : SameRow ws ws' := by
  obtain ⟨a, ha, c, hc, hid⟩ := h
  obtain ⟨a', ha', c', hc', hid'⟩ := h'
  refine ⟨a, ha, a', ha', ?_⟩
  rw [hc, hc']
  exact decide_eq_true (hid.trans hid'.symm)

/-- **A commit of another call** leaves the accounts of a transaction as they are. -/
theorem Accounted.others {h c : Held (Rec ι) (Call ι) (Reply ι)} {g₁ : Debt ι}
    (ha : Accounted codec db issued h g) (hc : Ledgered codec db issued c g₁)
    (hclash : ¬ Collides c h) : Accounted codec ((kanban ι).applyAll db c.2) issued h g := by
  have hrow : ∀ {x}, WritesCard h.2 x →
      cardRow ((kanban ι).applyAll db c.2) x = cardRow db x := fun hx =>
    cardRow_of_not_writesCard fun hx' => hclash (.inl (sameRow_of_writesCard hx' hx))
  have hleaves : ∀ {x o}, Leaves db h.2 x o → Leaves ((kanban ι).applyAll db c.2) h.2 x o := by
    intro x o hx
    cases o with
    | unknown => trivial
    | tenant t =>
        refine ⟨hx.1, ?_⟩
        rw [cardRow_applyAll_congr (hrow hx.1)]
        exact hx.2
    | gone =>
        refine ⟨hx.1, ?_⟩
        rw [cardRow_applyAll_congr (hrow hx.1)]
        exact hx.2
  have hused : ∀ {x}, WritesCard h.2 x → Used codec db x →
      Used codec ((kanban ι).applyAll db c.2) x := by
    intro x hx hu
    rcases hu with hu | ⟨e, he, hdel⟩
    · exact .inl ((hrow hx).symm ▸ hu)
    · refine .inr ⟨e, ?_, hdel⟩
      rw [hc.log_eq]
      exact List.mem_append_left _ he
  refine ⟨⟨fun x hx => ?_, fun r hr => ?_, ha.kept, fun e he => ?_, ha.nodup, fun e he x hx => ?_⟩,
    fun x o hx => ?_, fun x => ?_⟩
  · obtain ⟨hnew, hissued, hunused⟩ := ha.drawn x hx
    refine ⟨hnew, hissued, fun hu => ?_⟩
    rcases hc.used hu with hu | hx'
    · exact hunused hu
    · exact hclash (.inr ⟨x, hx', hnew⟩)
  · refine (ha.cards r hr).imp_right fun ⟨c₀, hc₀, hid, htenant⟩ => ⟨c₀, ?_, hid, htenant⟩
    refine stored_cards.mem_applyAll_of_mem hc₀ fun a ha' r' hr' => ?_
    refine Bool.eq_false_iff.mpr fun hsame => hclash (.inl ⟨a, ha', _, hr, ?_⟩)
    rw [hr']
    exact decide_eq_true ((of_decide_eq_true hsame).trans hid)
  · unfold Unlogged
    rw [hc.log_eq]
    intro e' he'
    rcases List.mem_append.mp he' with he' | he'
    · exact ha.fresh e he e' he'
    · refine fun hid => hclash (.inl ⟨_, mem_eventWrites.mp he', _, mem_eventWrites.mp he, ?_⟩)
      exact decide_eq_true hid
  · obtain ⟨hgone, hu⟩ := ha.buried e he x hx
    exact ⟨hleaves hgone, hused hgone.1 hu⟩
  · obtain ⟨hl, hgone⟩ := ha.leaves x o hx
    refine ⟨hleaves hl, fun ho => ?_⟩
    subst ho
    exact hused hl.1 (hgone rfl)
  · refine (ha.told x).imp_right fun hr => ?_
    rcases hr with ⟨e, he, o, hfor, hl⟩ | hspares
    · exact .inl ⟨e, he, o, hfor, hleaves hl⟩
    · refine .inr fun a ha' => ?_
      have hs := hspares a ha'
      rcases a with (r | r)
      · cases r
        case card r =>
          intro hid
          rw [hrow ⟨_, ha', r, rfl, hid⟩]
          exact hs hid
        all_goals exact hs
      · cases r <;> exact hs

/-- More ids are issued, some of them to the call. -/
theorem Accounted.hear {issued' : List ι} {ev : Event (Rec ι) (Call ι) (Reply ι)}
    (h : Accounted codec db issued (tr, ws) g) (hgrows : ∀ x ∈ issued, x ∈ issued')
    (hnew : ∀ x ∈ newIds [ev], x ∈ issued' ∧ ¬ Used codec db x) :
    Accounted codec db issued' (ev :: tr, ws) { g with drawn := newIds [ev] ++ g.drawn } := by
  have hids : newIds (ev :: tr) = newIds [ev] ++ newIds tr := newIds_append (l := [ev])
  refine ⟨⟨fun x hx => ?_, fun c hc => (h.cards c hc).imp_left (List.mem_append_right _), h.kept,
    h.fresh, h.nodup, h.buried⟩, h.leaves, h.told⟩
  rw [hids]
  rcases List.mem_append.mp hx with hx | hx
  · exact ⟨List.mem_append_left _ hx, hnew x hx⟩
  · obtain ⟨htr, hissued, hunused⟩ := h.drawn x hx
    exact ⟨List.mem_append_right _ htr, hgrows x hissued, hunused⟩

theorem Accounted.grow {issued' : List ι} {k : Held (Rec ι) (Call ι) (Reply ι)}
    (h : Accounted codec db issued k g) (hgrows : ∀ x ∈ issued, x ∈ issued') :
    Accounted codec db issued' k g where
  toLedgered := { h.toLedgered with
    drawn := fun x hx =>
      have ⟨htr, hissued, hunused⟩ := h.drawn x hx
      ⟨htr, hgrows x hissued, hunused⟩ }
  leaves := h.leaves
  told := h.told

/-- **The law of the transactions of cards.** -/
def announcingLaw (codec : IdCodec ι) (κ : Type) :
    Discipline.Law (kanban ι) (announcing codec) Collides κ where
  Inv w _ := Indexed codec w
  Local w _ h g := Accounted codec w.store w.ext.issued h g
  first _ _ _ _ := ⟨.of_apart (List.forall_mem_nil _), by simp [announcing],
    fun _ => .inr (.inr (List.forall_mem_nil _))⟩
  move _ _ _ _ _ _ _ _ hw h hmove := h.move hw.keyed hmove
  hear w _ c m r hw hr := by
    have hgrows : ∀ x ∈ w.ext.issued, x ∈ r.2.issued := by
      intro x hx
      rcases issued_of_react hr with ⟨heq, -⟩ | ⟨id, -, heq, -⟩
      · exact heq ▸ hx
      · exact heq ▸ List.mem_cons_of_mem _ hx
    refine ⟨⟨hw.keyed, hw.events, fun x hx => hgrows x (hw.issued x hx), hw.dead⟩,
      fun tr ws g h => ⟨h.grow hgrows, h.hear hgrows fun x hx => ?_⟩⟩
    rcases issued_of_react hr with ⟨-, hids⟩ | ⟨id, hid, heq, hids⟩
    · rw [hids] at hx
      cases hx
    · rw [hids] at hx
      rw [List.mem_singleton.mp hx, heq]
      exact ⟨List.mem_cons_self, fun hu => hid (hw.issued id hu)⟩
  auto c w _ hw h := by
    have hl : Ledgered codec w.store w.ext.issued c.2 ⟨none, []⟩ := .of_apart h
    exact ⟨hl.indexed hw, fun k g hk hclash => hk.others hl hclash⟩
  commit c w _ g hw h _ := ⟨h.toLedgered.indexed hw, fun k g' hk hclash =>
    hk.others h.toLedgered hclash⟩

/-- The row of a card is written, and no event. -/
def Unannounced (ws : List (Write (Rec ι))) (c : CardRow ι) : Prop :=
  .put (.card c) ∈ ws ∧ eventWrites ws = []

/-- The row of a card that is put outside of a transaction stays in its tenant. -/
theorem tenant_of_apart (hkeyed : Keyed db) (h : ∀ a ∈ ws, Apart db a) {c : CardRow ι}
    (hc : .put (.card c) ∈ ws) :
    (cardRow ((kanban ι).applyAll db ws) c.id).map CardRow.tenantId = some c.tenantId := by
  have hold : ∃ c₀ ∈ db.cards, c₀.id = c.id ∧ c₀.tenantId = c.tenantId := by
    rcases h _ hc with hno | ⟨c', heq, hold⟩
    · exact hno.elim
    · cases heq
      exact hold
  obtain ⟨c₀, hc₀, hid₀, htenant₀⟩ := hold
  have hleft : ∃ c' ∈ ((kanban ι).applyAll db ws).cards, c'.id = c.id := by
    refine stored_cards.exists_mem_applyAll (p := fun c' => c'.id = c.id) ⟨c₀, hc₀, hid₀⟩
      (fun c₁ _ c₂ hsame hid => (of_decide_eq_true hsame).trans hid) fun c₁ hdel _ _ => ?_
    rcases h _ hdel with hno | ⟨c', heq, -⟩
    · exact hno.elim
    · cases heq
  obtain ⟨c', hc', hid'⟩ := hleft
  have htenant' : c'.tenantId = c.tenantId := by
    rw [← htenant₀]
    rcases stored_cards.mem_applyAll hc' with hput | ⟨hmem, -⟩
    · rcases h _ hput with hno | ⟨c₁, heq, c₂, hc₂, hid₂, htenant₂⟩
      · exact hno.elim
      · cases heq
        rw [← htenant₂, hkeyed.eq_of_mem hc₂ hc₀ (hid₂.trans (hid'.trans hid₀.symm))]
    · rw [hkeyed.eq_of_mem hmem hc₀ (hid'.trans hid₀.symm)]
  rw [← hid', cardRow_of_mem (hkeyed.applyAll ws) hc']
  exact congrArg some htenant'

/-- **What may be committed**: lawful writes that report every card, but for a row of a card that
is put outside of a transaction. -/
theorem ledgered_of_allowed {κ : Type} {w : World (Db ι) (Backend ι)} (hw : Indexed codec w)
    {log : List (CommitOf κ (Rec ι) (Call ι) (Reply ι))} {h : Held (Rec ι) (Call ι) (Reply ι)}
    (ha : (announcingLaw codec κ).Allowed w log h) :
    ∃ g, Ledgered codec w.store w.ext.issued h g ∧
      ∀ x, Reported codec w.store h.2 x ∨ ∃ c, c.id = x ∧ Unannounced h.2 c ∧
        (cardRow ((kanban ι).applyAll w.store h.2) x).map CardRow.tenantId = some c.tenantId := by
  rcases ha with hauto | ⟨g, hclosed, hg⟩
  · refine ⟨⟨none, []⟩, .of_apart hauto, fun x => ?_⟩
    by_cases hx : ∃ c, c.id = x ∧ .put (.card c) ∈ h.2
    · obtain ⟨c, rfl, hc⟩ := hx
      exact .inr ⟨c, rfl, ⟨hc, eventWrites_eq_nil fun a ha => (hauto a ha).not_event⟩,
        tenant_of_apart hw.keyed hauto hc⟩
    · refine .inl (.inr fun a ha => ?_)
      rcases hauto a ha with hno | ⟨c, rfl, -⟩
      · exact hno.spares
      · exact fun hid => absurd ⟨c, hid, ha⟩ hx
  · have hg : Accounted codec w.store w.ext.issued h g := hg
    refine ⟨g, hg.toLedgered, fun x => .inl ?_⟩
    rcases hg.told x with ⟨o, ho⟩ | hr
    · have hnone : g.owes = none := hclosed
      rw [hnone] at ho
      cases ho
    · exact hr

end Law

end Kanban.Rpc
