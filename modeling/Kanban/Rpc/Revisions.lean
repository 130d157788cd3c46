import Kanban.Lib.Notices
import Kanban.Rpc.EventPayloads
import Kanban.Rpc.EventRows

/-!
# Revisions and the events that tell them

The revision of a card is its version, and the rows of `event_log` are the notices of its changes.
`Tells` relates the rows that a call appends to what it does to the revisions.

## Main definitions

* `versions` — the revisions of the cards.
* `noticeOf` — what the envelope of a row tells those who follow a card.
* `Tells`, `Announced` — what a call has done is what its rows tell.
* `Calm` — a part of a transaction that changes no revision and writes no event.
-/

namespace Kanban.Rpc

open Program Notices Kanban.Store Kanban.Auth
open Kanban.Services (AuthContext ConnectError IdCodec)

variable {ι α β : Type} [DecidableEq ι]

/-! ## Versions -/

/-- The revision of a card, if it exists. -/
def versions (cards : List (CardRow ι)) (x : ι) : Option ℕ :=
  (cards.find? fun c => c.id = x).map fun c => c.revision.toNat

/-- The cards have different ids, and no revision is negative. -/
structure Sane (cards : List (CardRow ι)) : Prop where
  nodup : (cards.map CardRow.id).Nodup
  nonneg : ∀ c ∈ cards, 0 ≤ c.revision

section Versions

variable {cards cards' : List (CardRow ι)} {x : ι} {n : ℕ} {t : String}

theorem versions_of_mem (h : Sane cards) {c : CardRow ι} (hc : c ∈ cards) :
    versions cards c.id = some c.revision.toNat := by
  cases hfind : cards.find? fun c' => c'.id = c.id with
  | none => exact absurd (List.find?_eq_none.mp hfind c hc) (by simp)
  | some c' =>
      have hid : c'.id = c.id := by simpa using List.find?_some hfind
      obtain rfl := List.inj_on_of_nodup_map h.nodup (List.mem_of_find?_eq_some hfind) hc hid
      rw [versions, hfind]
      rfl

theorem versions_eq_none (h : ∀ c ∈ cards, c.id ≠ x) : versions cards x = none := by
  rw [versions, List.find?_eq_none.mpr fun c hc => by simpa using h c hc]
  rfl

/-- Rows that change in place. -/
theorem versions_map {g : CardRow ι → CardRow ι} (hid : ∀ c, (g c).id = c.id) :
    versions (cards.map g) x = (cards.find? fun c => c.id = x).map fun c => (g c).revision.toNat := by
  unfold versions
  rw [List.find?_map, Option.map_map]
  simp only [Function.comp_def, hid]

omit [DecidableEq ι] in
theorem Sane.map (h : Sane cards) {g : CardRow ι → CardRow ι} (hid : ∀ c, (g c).id = c.id)
    (hrev : ∀ c ∈ cards, 0 ≤ (g c).revision) : Sane (cards.map g) where
  nodup := by
    rw [List.map_map]
    simpa only [Function.comp_def, hid] using h.nodup
  nonneg := List.forall_mem_map.mpr hrev

/-- A revision that grows by one. -/
theorem versions_update (h : Sane cards) {c : CardRow ι} (hc : c ∈ cards) (ht : c.tenantId = t)
    {f : CardRow ι → CardRow ι} (hid : ∀ c, (f c).id = c.id)
    (hrev : ∀ c, (f c).revision = c.revision + 1) :
    Sane (cards.map fun c' => if c'.id = c.id ∧ c'.tenantId = t then f c' else c') ∧
      versions (cards.map fun c' => if c'.id = c.id ∧ c'.tenantId = t then f c' else c') =
        Function.update (versions cards) c.id (some (c.revision.toNat + 1)) := by
  have hids : ∀ c', (if c'.id = c.id ∧ c'.tenantId = t then f c' else c').id = c'.id := by
    intro c'
    split
    · exact hid c'
    · rfl
  have hsane : Sane (cards.map fun c' => if c'.id = c.id ∧ c'.tenantId = t then f c' else c') := by
    refine h.map hids fun c' hc' => ?_
    have := h.nonneg c' hc'
    split
    · rw [hrev]
      omega
    · exact this
  refine ⟨hsane, funext fun x => ?_⟩
  by_cases hx : x = c.id
  · subst hx
    have hmem := List.mem_map_of_mem (f := fun c' => if c'.id = c.id ∧ c'.tenantId = t then f c' else c') hc
    have hnew := versions_of_mem hsane hmem
    have hnonneg := h.nonneg c hc
    rw [if_pos ⟨rfl, ht⟩, hid, hrev] at hnew
    rw [hnew, Function.update_self, Int.toNat_add hnonneg (by omega)]
    rfl
  · rw [Function.update_of_ne hx, versions_map hids, versions]
    cases hfind : cards.find? fun c' => c'.id = x with
    | none => rfl
    | some c' =>
        have hid' : c'.id = x := by simpa using List.find?_some hfind
        rw [Option.map_some, Option.map_some, if_neg fun h => hx (hid'.symm.trans h.1)]

/-- A card that is new. -/
theorem versions_concat {row : CardRow ι} (h : Sane cards) (hne : ∀ c ∈ cards, c.id ≠ row.id)
    (hrow : row.revision = 0) : Sane (cards ++ [row]) ∧
      versions (cards ++ [row]) = Function.update (versions cards) row.id (some 0) := by
  have hsane : Sane (cards ++ [row]) := by
    refine ⟨?_, fun c hc => ?_⟩
    · rw [List.map_append, List.map_singleton, ← List.concat_eq_append, List.nodup_concat]
      refine ⟨fun hmem => ?_, h.nodup⟩
      obtain ⟨c, hc, hid⟩ := List.mem_map.mp hmem
      exact hne c hc hid
    · rcases List.mem_append.mp hc with hc | hc
      · exact h.nonneg c hc
      · cases List.mem_singleton.mp hc
        omega
  refine ⟨hsane, funext fun x => ?_⟩
  by_cases hx : x = row.id
  · subst hx
    rw [Function.update_self, versions_of_mem hsane (List.mem_append_right _ (List.mem_singleton_self _)),
      hrow]
    rfl
  · rw [Function.update_of_ne hx, versions, versions, List.find?_append]
    have hnone : [row].find? (fun c => c.id = x) = none :=
      List.find?_eq_none.mpr fun c hc => by
        cases List.mem_singleton.mp hc
        simpa using fun h => hx h.symm
    rw [hnone, Option.or_none]

/-- A card that is gone. -/
theorem versions_otherCards (h : Sane cards) : Sane (otherCards cards x) ∧
    versions (otherCards cards x) = Function.update (versions cards) x none := by
  have hsane : Sane (otherCards cards x) := by
    refine ⟨h.nodup.sublist (List.filter_sublist.map CardRow.id), fun c hc => ?_⟩
    exact h.nonneg c (List.mem_filter.mp hc).1
  refine ⟨hsane, funext fun y => ?_⟩
  by_cases hy : y = x
  · subst hy
    rw [Function.update_self]
    exact versions_eq_none fun c hc => by simpa using (List.mem_filter.mp hc).2
  · rw [Function.update_of_ne hy]
    by_cases hmem : ∃ c ∈ cards, c.id = y
    · obtain ⟨c, hc, rfl⟩ := hmem
      have hc' : c ∈ otherCards cards x := List.mem_filter.mpr ⟨hc, by simpa using hy⟩
      rw [versions_of_mem h hc, versions_of_mem hsane hc']
    · have hnone : ∀ c ∈ cards, c.id ≠ y := fun c hc hid => hmem ⟨c, hc, hid⟩
      rw [versions_eq_none hnone]
      exact versions_eq_none fun c hc => hnone c (List.mem_filter.mp hc).1

end Versions

/-! ## Notices -/

section Notices

omit [DecidableEq ι]

/-- What a row tells those who follow a card.  The row of a transfer holds the revisions, although its
envelope does not; it is written for both boards. -/
def noticeOf (codec : IdCodec ι) (e : EventRow ι) : Option (Notice ι) :=
  match buildPayload e.eventType e.payload with
  | some (.cardCreated _ _ _) => (codec.parse (jsonStr e.payload "card_id")).map .created
  | some (.cardUpdated cardId prevRevision newRevision _ _) =>
      (codec.parse cardId).map (.changed · prevRevision newRevision)
  | some (.cardMoved cardId _ _ _ prevRevision newRevision _) =>
      (codec.parse cardId).map (.changed · prevRevision newRevision)
  | some (.cardDeleted cardId _ _) => (codec.parse cardId).map .deleted
  | some (.cardTransferred _ _ _ _ _ _) =>
      let (prevRevision, newRevision) := revisionPair e.payload
      (codec.parse (jsonStr e.payload "card_id")).map (.shared · prevRevision newRevision)
  | _ => none

section Rows

variable {codec : IdCodec ι} {e : EventRow ι} {board x : ι} {payload : Payload} {p n : ℤ}

/-- The fields that a handler writes are those that are read. -/
theorem jsonStr_of_row {eventType key s : String} (he : Says board eventType payload e)
    (h : payload.lookup key = some (.str s)) : jsonStr e.payload key = s := by
  obtain ⟨revision, hpayload⟩ := he.payload
  rw [jsonStr, hpayload, withBoardRevision, List.lookup_append, h]
  rfl

theorem jsonU64_of_row {eventType key : String} (he : Says board eventType payload e)
    (h : payload.lookup key = some (.num n)) : jsonU64 e.payload key = n.toNat := by
  obtain ⟨revision, hpayload⟩ := he.payload
  rw [jsonU64, hpayload, withBoardRevision, List.lookup_append, h]
  rfl

/-- A number that is missing is read as zero. -/
theorem jsonU64_of_missing {eventType key : String} (he : Says board eventType payload e)
    (h : payload.lookup key = none) (hkey : key ≠ "board_revision") : jsonU64 e.payload key = 0 := by
  obtain ⟨revision, hpayload⟩ := he.payload
  have hother : [("board_revision", (Json.num revision : Json))].lookup key = none := by
    rw [List.lookup_cons, beq_false_of_ne hkey]
    rfl
  rw [jsonU64, hpayload, withBoardRevision, List.lookup_append, h, Option.none_or, hother]

/-- A row of a change tells the two revisions that can be read from it. -/
theorem noticeOf_change {eventType : String} (htype : eventType = "CardUpdated" ∨ eventType = "CardMoved")
    (he : Says board eventType payload e)
    (hid : payload.lookup "card_id" = some (.str (codec.toString x))) :
    noticeOf codec e = some (.changed x (jsonU64 e.payload "prev_revision")
      (jsonU64 e.payload "new_revision")) := by
  have hparse : codec.parse (jsonStr e.payload "card_id") = some x := by
    rw [jsonStr_of_row he hid, codec.parse_toString]
  have hnotice : noticeOf codec e = (codec.parse (jsonStr e.payload "card_id")).map (Notice.changed ·
      (jsonU64 e.payload "prev_revision") (jsonU64 e.payload "new_revision")) := by
    rw [noticeOf, he.type]
    rcases htype with rfl | rfl <;> rfl
  rw [hnotice, hparse]
  rfl

theorem noticeOf_updated (he : Says board "CardUpdated" payload e)
    (hid : payload.lookup "card_id" = some (.str (codec.toString x)))
    (hp : payload.lookup "prev_revision" = some (.num p))
    (hn : payload.lookup "new_revision" = some (.num n)) :
    noticeOf codec e = some (.changed x p.toNat n.toNat) := by
  rw [noticeOf_change (.inl rfl) he hid, jsonU64_of_row he hp, jsonU64_of_row he hn]

/-- Without the revision before, a change seems to be one of the version zero. -/
theorem noticeOf_updated_without (he : Says board "CardUpdated" payload e)
    (hid : payload.lookup "card_id" = some (.str (codec.toString x)))
    (hp : payload.lookup "prev_revision" = none)
    (hn : payload.lookup "new_revision" = some (.num n)) :
    noticeOf codec e = some (.changed x 0 n.toNat) := by
  rw [noticeOf_change (.inl rfl) he hid, jsonU64_of_missing he hp (by decide), jsonU64_of_row he hn]

theorem noticeOf_moved (he : Says board "CardMoved" payload e)
    (hid : payload.lookup "card_id" = some (.str (codec.toString x)))
    (hp : payload.lookup "prev_revision" = some (.num p))
    (hn : payload.lookup "new_revision" = some (.num n)) :
    noticeOf codec e = some (.changed x p.toNat n.toNat) := by
  rw [noticeOf_change (.inr rfl) he hid, jsonU64_of_row he hp, jsonU64_of_row he hn]

theorem noticeOf_created (he : Says board "CardCreated" payload e)
    (hid : payload.lookup "card_id" = some (.str (codec.toString x))) :
    noticeOf codec e = some (.created x) := by
  unfold noticeOf
  rw [he.type]
  change (codec.parse (jsonStr e.payload "card_id")).map Notice.created = _
  rw [jsonStr_of_row he hid, codec.parse_toString]
  rfl

theorem noticeOf_deleted (he : Says board "CardDeleted" payload e)
    (hid : payload.lookup "card_id" = some (.str (codec.toString x))) :
    noticeOf codec e = some (.deleted x) := by
  unfold noticeOf
  rw [he.type]
  change (codec.parse (jsonStr e.payload "card_id")).map Notice.deleted = _
  rw [jsonStr_of_row he hid, codec.parse_toString]
  rfl

theorem noticeOf_transferred (he : Says board "CardTransferred" payload e)
    (hid : payload.lookup "card_id" = some (.str (codec.toString x)))
    (hp : payload.lookup "prev_revision" = some (.num p))
    (hn : payload.lookup "new_revision" = some (.num n)) :
    noticeOf codec e = some (.shared x p.toNat n.toNat) := by
  unfold noticeOf
  rw [he.type]
  change (codec.parse (jsonStr e.payload "card_id")).map (Notice.shared ·
    (jsonU64 e.payload "prev_revision") (jsonU64 e.payload "new_revision")) = _
  rw [jsonStr_of_row he hid, codec.parse_toString, jsonU64_of_row he hp, jsonU64_of_row he hn]
  rfl

end Rows

end Notices

/-! ## What the rows tell -/

/-- The rows tell what a call does to the revisions. -/
structure Tells (codec : IdCodec ι) (cards : List (CardRow ι)) (rows : List (EventRow ι))
    (cards' : List (CardRow ι)) : Prop where
  readable : ∀ e ∈ rows, (noticeOf codec e).isSome
  announces : Announces (versions cards) (rows.filterMap (noticeOf codec)) (versions cards')

/-- What happened to the revisions since `db` is what the rows tell that were appended. -/
def Announced (codec : IdCodec ι) (db : Db ι) (v : Story ι) : Prop :=
  Sane v.cards ∧ ∃ rows, v.events = db.eventLog ++ rows ∧ Tells codec db.cards rows v.cards

section Announced

variable {codec : IdCodec ι} {db : Db ι} {v : Story ι} {x : ι} {r : ℤ} {e : EventRow ι}

theorem Announced.refl (h : Sane db.cards) : Announced codec db db.story :=
  ⟨h, [], (List.append_nil _).symm, List.forall_mem_nil _, Announces.refl⟩

/-- One row tells of one card. -/
theorem announced_of_notice {a : Notice ι} (hsane : Sane v.cards) (hevents : v.events = db.eventLog ++ [e])
    (he : noticeOf codec e = some a) (ha : Announces (versions db.cards) [a] (versions v.cards)) :
    Announced codec db v := by
  refine ⟨hsane, [e], hevents, ?_, ?_⟩
  · intro e' he'
    cases List.mem_singleton.mp he'
    rw [he]
    rfl
  · rw [List.filterMap_cons_some he]
    exact ha

theorem toNat_succ (h : 0 ≤ r) : (r + 1).toNat = r.toNat + 1 := Int.toNat_add h (by omega)

/-- One row tells of the change of one card. -/
theorem announced_of_change (hsane : Sane v.cards) (hevents : v.events = db.eventLog ++ [e])
    (hr : versions db.cards x = some r.toNat) (hnonneg : 0 ≤ r)
    (hversions : versions v.cards = Function.update (versions db.cards) x (some (r.toNat + 1)))
    (he : noticeOf codec e = some (.changed x r.toNat (r + 1).toNat)) : Announced codec db v := by
  refine announced_of_notice hsane hevents he ?_
  rw [hversions, toNat_succ hnonneg]
  exact .change hr

end Announced

/-! ## Parts of a transaction -/

/-- A part of a transaction that changes no revision and writes no event. -/
def Calm (p : Handler ι α) : Prop := ∀ v : Db ι, Sane v.cards → SoloTx (kanban ι) p v fun _ v' =>
  Sane v'.cards ∧ versions v'.cards = versions v.cards ∧ v'.eventLog = v.eventLog

namespace Calm

theorem pure (a : α) : Calm (.pure a : Handler ι α) := fun _ hv => soloTx_pure ⟨hv, rfl, rfl⟩

theorem fail (e : ConnectError) : Calm (.fail e : Handler ι α) := fun _ _ => soloTx_fail

theorem bind {p : Handler ι α} {f : α → Handler ι β} (hp : Calm p) (hf : ∀ a, Calm (f a)) :
    Calm (p.bind f) := fun v hv =>
  soloTx_bind ((hp v hv).mono fun a v' ⟨hv', hversions, hlog⟩ =>
    (hf a v' hv').mono fun _ _ ⟨hv'', hversions', hlog'⟩ =>
      ⟨hv'', hversions'.trans hversions, hlog'.trans hlog⟩)

theorem ite {c : Prop} [Decidable c] {p q : Handler ι α} (hp : Calm p) (hq : Calm q) :
    Calm (if c then p else q) := by
  split
  · exact hp
  · exact hq

theorem orError {o : Option α} {e : ConnectError} : Calm (orError e o : Handler ι α) := by
  cases o with
  | none => exact fail e
  | some a => exact pure a

theorem ensure {p : Prop} [Decidable p] {e : ConnectError} : Calm (ensure p e : Handler ι Unit) := by
  unfold Rpc.ensure
  exact ite (pure ()) (fail e)

theorem newId : Calm (newId : Handler ι ι) := fun _ hv => soloTx_call fun _ => soloTx_pure ⟨hv, rfl, rfl⟩

/-- Writes of other tables. -/
theorem of_elsewhere {v : Db ι} {ws : List (Write (Rec ι))} (hv : Sane v.cards)
    (hws : ∀ a ∈ ws, Elsewhere a) : Sane ((kanban ι).applyAll v ws).cards ∧
      versions ((kanban ι).applyAll v ws).cards = versions v.cards ∧
      ((kanban ι).applyAll v ws).eventLog = v.eventLog := by
  have hstory : ((kanban ι).applyAll v ws).story = v.story := story_applyAll hws
  have hcards : ((kanban ι).applyAll v ws).cards = v.cards := congrArg Story.cards hstory
  rw [hcards]
  exact ⟨hv, rfl, congrArg Story.events hstory⟩

/-- A statement on other tables. -/
theorem query {msg : String} {st : Stmt (Db ι) (Rec ι) α}
    (hs : ∀ db e, st db = some e → ∀ a ∈ e.writes, Elsewhere a) : Calm (query msg st) := fun v hv =>
  soloTx_query fun e he => of_elsewhere hv (hs v e he)

omit [DecidableEq ι] in
/-- The writes of a statement on one other table. -/
theorem elsewhere_of_within {τ : Type} {T : Table (Db ι) (Rec ι) τ} {st : Stmt (Db ι) (Rec ι) α}
    (hT : ∀ r, Elsewhere (.put (T.record r)) ∧ Elsewhere (.del (T.record r))) (hs : T.Within st)
    {db : Db ι} {e : Effect (Rec ι) α} (he : st db = some e) : ∀ a ∈ e.writes, Elsewhere a := by
  intro a ha
  obtain ⟨r, rfl | rfl⟩ := hs db e he a ha
  · exact (hT r).1
  · exact (hT r).2

theorem within {τ : Type} {msg : String} {T : Table (Db ι) (Rec ι) τ} {st : Stmt (Db ι) (Rec ι) α}
    (hT : ∀ r, Elsewhere (.put (T.record r)) ∧ Elsewhere (.del (T.record r))) (hs : T.Within st) :
    Calm (Rpc.query msg st) := query fun _ _ he => elsewhere_of_within hT hs he

theorem read {msg : String} {st : Stmt (Db ι) (Rec ι) α} (hs : Silent st) : Calm (Rpc.query msg st) :=
  query fun db e he => by simp [hs db e he]

theorem fetchOptional {msg : String} {st : Stmt (Db ι) (Rec ι) (List α)}
    (hs : Calm (Rpc.query msg st)) : Calm (fetchOptional msg st) := bind hs fun _ => pure _

theorem fetchOne {msg : String} {st : Stmt (Db ι) (Rec ι) (List α)} (hs : Calm (Rpc.query msg st)) :
    Calm (fetchOne msg st) := bind hs fun _ => orError

theorem fetchOr {msg : String} {err : ConnectError} {st : Stmt (Db ι) (Rec ι) (List α)}
    (hs : Calm (Rpc.query msg st)) : Calm (fetchOr msg err st) :=
  bind (fetchOptional hs) fun _ => orError

theorem shiftCards {msg t : String} {K : ι} {p : ℤ → Bool} {delta : ℤ} :
    Calm (Rpc.query msg (shiftCards t K p delta)) := fun v hv => soloTx_query fun e he => by
  rw [(cards_shiftCards hv.nodup he).1]
  refine ⟨?_, ?_, ?_⟩
  · refine hv.map (fun c => ?_) fun c hc => ?_
    · split <;> rfl
    · have := hv.nonneg c hc
      split <;> exact this
  · funext x
    refine (versions_map fun c => ?_).trans ?_
    · split <;> rfl
    · unfold versions
      refine congrArg (Option.map · _) (funext fun c => ?_)
      split <;> rfl
  · refine stored_eventLog.rows_applyAll fun a ha r heq => ?_
    obtain ⟨c, rfl | rfl⟩ := Table.within_updateChecked v e he a ha <;> cases heq

theorem shiftForMove {t : String} {card : CardRow ι} {toColId : ι} {toPos : ℤ} :
    Calm (shiftForMove t card toColId toPos) := by
  unfold Rpc.shiftForMove
  refine ite (ite (pure ()) (ite (bind shiftCards fun _ => pure ()) (bind shiftCards fun _ => pure ()))) ?_
  exact bind shiftCards fun _ => bind shiftCards fun _ => pure ()

theorem allocateCardRef {t : String} {projectId : ι} : Calm (allocateCardRef t projectId) := by
  refine bind (read fun db e he => by cases he; rfl) fun _ => bind (fetchOne (query
    fun db e he a ha => ?_)) fun _ => pure _
  unfold nextCardRef at he
  split at he
  · cases he
    cases ha
  · obtain ⟨e', he', rfl⟩ := Option.map_eq_some_iff.mp he
    obtain ⟨r, rfl | rfl⟩ := Table.within_upsert db e' he' a ha
    · trivial
    · trivial

theorem checkMilestone {codec : IdCodec ι} {t : String} {projectId : ι} {milestoneId : String} :
    Calm (checkMilestone codec t projectId milestoneId) :=
  ite (pure none) (bind orError fun _ => bind (fetchOptional (read silent_select)) fun _ =>
    bind ensure fun _ => pure _)

theorem scrubLabels {msg : String} {x projectId : ι} : Calm (Rpc.query msg (scrubLabels x projectId)) :=
  within (T := Db.cardLabelsT) (fun _ => ⟨trivial, trivial⟩)
    fun _ _ he => Table.within_delete _ _ he

end Calm

/-! ## Statements on cards -/

section Statements

variable {v : Db ι} {t : String} {x : ι}

/-- The row of a card is updated, with its revision. -/
theorem soloTx_updateCardRow_revision {msg : String} {f : CardRow ι → CardRow ι} (hv : Sane v.cards)
    (hid : ∀ c, (f c).id = c.id) (hrev : ∀ c, (f c).revision = c.revision + 1) :
    SoloTx (kanban ι) (fetchOne msg (updateCardRow t x f)) v fun row v' => Sane v'.cards ∧
      v'.eventLog = v.eventLog ∧ ∃ r, 0 ≤ r ∧ versions v.cards x = some r.toNat ∧ row.revision = r + 1 ∧
        versions v'.cards = Function.update (versions v.cards) x (some (r.toNat + 1)) :=
  soloTx_fetchOne fun e row he hrow => by
    obtain ⟨⟨c, hc, rfl, rfl, rfl⟩, hlog, hcards⟩ := story_updateCardRow hv.nodup he hid hrow
    obtain ⟨hsane, hversions⟩ := versions_update hv hc rfl hid hrev
    rw [hcards]
    exact ⟨hsane, hlog, c.revision, hv.nonneg c hc, versions_of_mem hv hc, hrev c, hversions⟩

theorem soloTx_bumpRevision {msg : String} (hv : Sane v.cards) :
    SoloTx (kanban ι) (bumpRevision msg t x) v fun n v' => Sane v'.cards ∧ v'.eventLog = v.eventLog ∧
      ∃ r, 0 ≤ r ∧ versions v.cards x = some r.toNat ∧ n = r + 1 ∧
        versions v'.cards = Function.update (versions v.cards) x (some (r.toNat + 1)) := by
  refine soloTx_bind ((soloTx_updateCardRow_revision hv ?_ ?_).mono fun _ _ h => soloTx_pure h)
  · exact fun _ => rfl
  · exact fun _ => rfl

/-- The revision that was read is the one that is told. -/
theorem eq_of_versions {c : CardRow ι} {r : ℤ} (hv : Sane v.cards) (hc : c ∈ v.cards) (hr : 0 ≤ r)
    (h : versions v.cards c.id = some r.toNat) : c.revision = r := by
  have hnonneg := hv.nonneg c hc
  rw [versions_of_mem hv hc, Option.some.injEq] at h
  omega

theorem soloTx_insertCard_revision {msg : String} {row : CardRow ι} (hv : Sane v.cards)
    (hrow : row.revision = 0) :
    SoloTx (kanban ι) (query msg (insertCard row)) v fun _ v' => Sane v'.cards ∧
      v'.eventLog = v.eventLog ∧ versions v'.cards = Function.update (versions v.cards) row.id (some 0) :=
  soloTx_query fun e he => by
    unfold insertCard at he
    split at he
    · cases he
    · obtain ⟨hrows, hnew⟩ := stored_cards.rows_insert he
      have hne : ∀ c ∈ v.cards, c.id ≠ row.id := fun c hc heq => by simpa [heq] using hnew c hc
      obtain ⟨hsane, hversions⟩ := versions_concat hv hne hrow
      rw [show ((kanban ι).applyAll v e.writes).cards = v.cards ++ [row] from hrows]
      refine ⟨hsane, stored_eventLog.rows_applyAll fun a ha r heq => ?_, hversions⟩
      obtain ⟨c, rfl | rfl⟩ := Table.within_insert v e he a ha <;> cases heq

theorem soloTx_deleteCardRow_revision {msg : String} (hv : Sane v.cards) :
    SoloTx (kanban ι) (query msg (deleteCardRow t x)) v fun deleted v' => deleted ≠ [] → Sane v'.cards ∧
      v'.eventLog = v.eventLog ∧ versions v'.cards = Function.update (versions v.cards) x none :=
  soloTx_query fun e he hdeleted => by
    obtain ⟨hsane, hversions⟩ := versions_otherCards hv (x := x)
    rw [cards_deleteCardRow hv.nodup he hdeleted]
    refine ⟨hsane, stored_eventLog.rows_applyAll fun a ha r heq => ?_, hversions⟩
    obtain rfl := deleteCardRow_some he
    rcases List.mem_append.mp ha with ha | ha
    · obtain ⟨c, -, rfl⟩ := List.mem_map.mp ha
      cases heq
    · obtain ⟨r', hr', rfl⟩ := List.mem_map.mp ha
      obtain rfl : r' = .event r := heq
      split at hr'
      · cases hr'
      · simp [cardChildren] at hr'

end Statements

end Kanban.Rpc
