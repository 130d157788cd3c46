import Kanban.Rpc.CardRuns
import Kanban.Rpc.Removal
import Kanban.Rpc.SearchIndex

/-!
# What removed cards leave behind

A card has a document in the search index and tuples in the permission backend, and no foreign key
leads there.  DeleteCard logs an event of which the dispatcher deletes the document, and deletes the
tuples itself.  Of the cards that go with a column, a board or a project nobody is told.

## Main definitions

* `removedBy`, `loggedBy` — the cards that a call has removed and the events that it has logged.
* `Site.Clear` — a card without a document and without a tuple.
* `Site.NoResidue` — the removed cards are clear once their calls have returned and the events are
  dispatched.
* `Site.Tidy` — the steps that leave nothing behind.
* `noResidue_of_run` — a run of such steps leaves nothing behind.
-/

namespace Kanban.Rpc

open Program Kanban.Store Kanban.Auth
open Kanban.Services (AuthContext CardDocument ConnectError IdCodec)

variable {ι : Type} [DecidableEq ι]

/-! ## What a call has removed -/

/-- The cards that writes delete. -/
def removedCards (ws : List (Write (Rec ι))) : List (CardRow ι) :=
  ws.filterMap fun
    | .del (.card c) => some c
    | _ => none

/-- The rows of `event_log` that writes leave in it. -/
def loggedRows (ws : List (Write (Rec ι))) : List (EventRow ι) :=
  (eventWrites ws).filter fun e => Write.del (.event e) ∉ ws

/-- What the commits of a trace have in common. -/
def ofCommits {τ : Type} (f : List (Write (Rec ι)) → List τ) (tr : Trace (Rec ι) (Call ι) (Reply ι)) :
    List τ :=
  tr.flatMap fun
    | .committed ws => f ws
    | _ => []

/-- The cards that a call has removed. -/
def removedBy (tr : Trace (Rec ι) (Call ι) (Reply ι)) : List (CardRow ι) := ofCommits removedCards tr

/-- The events that a call has logged. -/
def loggedBy (tr : Trace (Rec ι) (Call ι) (Reply ι)) : List (EventRow ι) := ofCommits loggedRows tr

section Traces

variable {ws : List (Write (Rec ι))} {tr : Trace (Rec ι) (Call ι) (Reply ι)} {card : CardRow ι}
  {τ : Type} {f : List (Write (Rec ι)) → List τ} {x : τ}

omit [DecidableEq ι] in
theorem mem_removedCards : card ∈ removedCards ws ↔ .del (.card card) ∈ ws := by
  constructor
  · intro h
    obtain ⟨a, ha, heq⟩ := List.mem_filterMap.mp h
    split at heq
    · cases heq
      exact ha
    · cases heq
  · exact fun h => List.mem_filterMap.mpr ⟨_, h, rfl⟩

omit [DecidableEq ι] in
theorem mem_ofCommits : x ∈ ofCommits f tr ↔ ∃ ws, .committed ws ∈ tr ∧ x ∈ f ws := by
  constructor
  · intro h
    obtain ⟨e, he, hx⟩ := List.mem_flatMap.mp h
    split at hx
    · exact ⟨_, he, hx⟩
    · cases hx
  · rintro ⟨ws, he, hx⟩
    exact List.mem_flatMap.mpr ⟨_, he, hx⟩

omit [DecidableEq ι] in
theorem mem_removedBy : card ∈ removedBy tr ↔ ∃ ws, .committed ws ∈ tr ∧ .del (.card card) ∈ ws := by
  rw [removedBy, mem_ofCommits]
  simp only [mem_removedCards]

omit [DecidableEq ι] in
/-- Writes without deletions of cards. -/
theorem removedBy_eq_nil_of_commits (h : ∀ ws, .committed ws ∈ tr → removedCards ws = []) :
    removedBy tr = [] := by
  refine List.eq_nil_iff_forall_not_mem.mpr fun card hcard => ?_
  obtain ⟨ws, hws, hmem⟩ := mem_ofCommits.mp hcard
  rw [h ws hws] at hmem
  cases hmem

end Traces

/-! ## Documents and tuples -/

/-- The tuples on a card. -/
def cardTuples (codec : IdCodec ι) (card : CardRow ι) : TupleFilter :=
  ⟨card.tenantId, permissionTypeCard, some (codec.toString card.id), none⟩

/-- No tuple is on the card. -/
def Bare (codec : IdCodec ι) (card : CardRow ι) (b : Backend ι) : Prop :=
  ∀ t ∈ b.tuples, (cardTuples codec card).admits t = false

instance {codec : IdCodec ι} {card : CardRow ι} {b : Backend ι} : Decidable (Bare codec card b) :=
  inferInstanceAs (Decidable (∀ t ∈ b.tuples, _))

/-- No tuple is put on a removed card. -/
def Spared (codec : IdCodec ι) : Rely (Db ι) (Rec ι) (Call ι) (Reply ι) (Backend ι) := fun tr w w' =>
  ∀ card ∈ removedBy tr, ∀ t ∈ w'.ext.tuples, (cardTuples codec card).admits t → t ∈ w.ext.tuples

/-- A call of the permission backend failed. -/
def CallFailed : Event (Rec ι) (Call ι) (Reply ι) → Prop
  | .called (.tenantClient _) ok => ok = false
  | .called (.listRelationTuples _ _) r => r = none
  | .called (.deleteRelationTuple _) ok => ok = false
  | _ => False

omit [DecidableEq ι] in
theorem DeletionFailed.callFailed {e : Event (Rec ι) (Call ι) (Reply ι)} (h : DeletionFailed e) :
    CallFailed e := by
  cases e with
  | called c r => cases c <;> first | exact h | exact h.elim
  | _ => exact h.elim

/-! ## DeleteCard -/

/-- The removed cards have no tuple, unless a call of the backend failed. -/
def Swept (codec : IdCodec ι) (tr : Trace (Rec ι) (Call ι) (Reply ι)) (w : World (Db ι) (Backend ι)) :
    Prop :=
  ∀ card ∈ removedBy tr, (∃ e ∈ tr, CallFailed e) ∨ Bare codec card w.ext

section DeleteCard

variable {codec : IdCodec ι} {pages : ℕ} {ctx : RequestContext} {tx : Tx (Rec ι)}
  {tr : Trace (Rec ι) (Call ι) (Reply ι)} {w : World (Db ι) (Backend ι)} {cardId : ι}

omit [DecidableEq ι] in
theorem swept_of_nil (h : removedBy tr = []) : Swept codec tr w := by
  intro card hcard
  rw [h] at hcard
  cases hcard

/-- The statement deletes no other card. -/
theorem removed_of_deleteCardRow {tenantId : String} {db : Db ι} {card : CardRow ι}
    {e : Effect (Rec ι) (List (CardRow ι))} (he : deleteCardRow tenantId cardId db = some e)
    (h : .del (.card card) ∈ e.writes) : card.id = cardId ∧ card.tenantId = tenantId := by
  obtain rfl := deleteCardRow_some he
  rcases List.mem_append.mp h with h | h
  · obtain ⟨c, hc, heq⟩ := List.mem_map.mp h
    cases heq
    exact of_decide_eq_true (List.mem_filter.mp hc).2
  · obtain ⟨r, hr, heq⟩ := List.mem_map.mp h
    cases heq
    split at hr
    · cases hr
    · simp [cardChildren] at hr

/-- After the commit: the tuples of the removed card are deleted. -/
theorem ensures_sweep (h : ∀ card ∈ removedBy tr, card.id = cardId ∧
      ctx.auth.bind AuthContext.tenantId = some card.tenantId) :
    Ensures (kanban ι) (Spared codec) (fun _ _ _ _ => True) (fun _ _ tr w => Swept codec tr w)
      ((tenantClientFor ctx).bind fun permission => (deleteRelationTuples pages
        ⟨permission, permissionTypeCard, some (codec.toString cardId), none⟩ none).bind fun _ => .pure ())
      tx tr w := by
  refine ensures_tenantClient_bind (fun tenant htenant w₁ _ => ⟨trivial, ?_⟩)
    (fun tenant _ w₁ _ => ⟨trivial, fun card _ => .inl ⟨_, List.mem_cons_self, rfl⟩⟩) fun hnone => ?_
  · rw [ensures_bind]
    have htargeted : ∀ card ∈ removedBy tr, ∀ t, targeted
        ⟨tenant, permissionTypeCard, some (codec.toString cardId), none⟩ none t =
          (cardTuples codec card).admits t := by
      intro card hcard t
      obtain ⟨rfl, ht⟩ := h card hcard
      obtain rfl := Option.some.inj (htenant.symm.trans ht)
      simp [targeted, cardTuples]
    by_cases hremoved : removedBy tr = []
    · refine (ensures_deleteRelationTuples (fun tr' _ => removedBy tr' = []) (fun _ => True) hremoved
        (fun _ _ _ h _ => h) (fun _ _ _ _ _ _ => trivial) (fun _ _ _ _ h => ⟨trivial, h⟩)
        (fun _ _ _ _ _ _ h _ => ⟨trivial, h⟩) fun _ _ _ h => ?_)
      exact swept_of_nil h
    · obtain ⟨card₀, hcard₀⟩ := List.exists_mem_of_ne_nil _ hremoved
      refine ensures_deleteRelationTuples_cleared (I := fun tr' => removedBy tr' = removedBy tr)
        (fun tr' w w' hI hw t ht htarget => ?_) (fun _ _ _ hI => hI) (fun _ _ _ hI => hI) rfl
        (fun tr' w' hI hnone card hcard => ?_) fun tr' e w' hI he card _ => ?_
      · rw [htargeted card₀ hcard₀] at htarget
        exact hw card₀ (hI ▸ hcard₀) t ht htarget
      · refine .inr fun t ht => ?_
        rw [← htargeted card (hI ▸ hcard)]
        exact Bool.eq_false_iff.mpr (hnone t ht)
      · exact .inl ⟨e, List.mem_cons_self, he.callFailed⟩
  · intro card hcard
    rw [(h card hcard).2] at hnone
    cases hnone

omit [DecidableEq ι] in
theorem only_query {S : List (Write (Rec ι)) → Prop} {β : Type} {msg : String}
    {st : Stmt (Db ι) (Rec ι) β} (h : ∀ db e, st db = some e → S e.writes) :
    Prog.Only S (query msg st) := by
  refine ⟨h, fun o => ?_⟩
  cases o with
  | none => trivial
  | some b => trivial

/-- The rows of an event delete nothing. -/
theorem only_insertBoardEvent {P : Write (Rec ι) → Prop} {tenantId eventType : String} {boardId : ι}
    {payload : Payload} (hP : ∀ r, P (.put r)) :
    Prog.Only (fun ws => ∀ a ∈ ws, P a) (insertBoardEvent tenantId boardId eventType payload) := by
  refine .bind (.bind (only_query fun db e he a ha => ?_) fun rows => ?_) fun board => ?_
  · obtain ⟨r, -, -, rfl⟩ := Table.mem_writes_update he ha
    exact hP _
  · cases rows.head? with
    | none => trivial
    | some b => trivial
  · refine .bind (fun id => trivial) fun id => .bind (only_query fun db e he a ha => ?_) fun _ =>
      only_query fun db e he a ha => ?_
    · rw [Table.writes_insert he] at ha
      obtain rfl := List.mem_singleton.mp ha
      exact hP _
    · cases he
      cases ha

/-- **DeleteCard sweeps.**  While nobody puts a tuple on the card that it has removed, none is left
when it has returned, unless a call of the backend failed. -/
theorem ensures_deleteCard :
    Ensures (kanban ι) (Spared codec) (fun _ _ _ _ => True) (fun _ _ tr w => Swept codec tr w)
      (deleteCard codec pages ctx) .idle [] w := by
  have hnil : removedBy ([] : Trace (Rec ι) (Call ι) (Reply ι)) = [] := rfl
  refine ensures_orError_bind (fun objectId _ => ?_) fun _ => swept_of_nil hnil
  refine ensures_orError_bind (fun cardId _ => ?_) fun _ => swept_of_nil hnil
  refine ensures_orError_bind (fun tenantId htenant => ?_) fun _ => swept_of_nil hnil
  refine ensures_bind.mpr (ensures_fetchOptional_bind (fun w₁ _ => ⟨trivial, ?_⟩)
    fun w₁ _ => swept_of_nil rfl)
  refine ensures_orError.mpr ⟨fun cur _ => ?_, fun _ => swept_of_nil rfl⟩
  refine ensures_bind.mpr fun w₂ _ => ⟨?_, swept_of_nil rfl⟩
  generalize hread : (.committed [] :: .ran _ :: [] : Trace (Rec ι) (Call ι) (Reply ι)) = tr₀
  have htr₀ : ∀ ws, .committed ws ∈ tr₀ → ws = [] := by
    rintro ws hws
    rw [← hread] at hws
    rcases List.mem_cons.mp hws with heq | hws
    · cases heq
      rfl
    · exact nomatch List.mem_singleton.mp hws
  -- what the transaction deletes of cards is the card of the request
  let P : Write (Rec ι) → Prop := fun a => ∀ c, a = .del (.card c) → c.id = cardId ∧ c.tenantId = tenantId
  have hunremoved : ∀ {tr : Trace (Rec ι) (Call ι) (Reply ι)},
      (∀ ws, .committed ws ∈ tr → .committed ws ∈ tr₀) → removedBy tr = [] := fun h =>
    removedBy_eq_nil_of_commits fun ws hws => by rw [htr₀ ws (h ws hws)]; rfl
  refine ensures_bind.mpr ((Ensures.of_only_inside (P := P) (only_query fun db e he => ?_) ?_ ?_).post_mono
    ?_)
  · exact fun a ha c hac => removed_of_deleteCardRow he (hac ▸ ha)
  · exact nofun
  · exact List.forall_mem_nil _
  rintro r tx₁ tr₁ w₃ ⟨htx₁, hpending₁, htr₁⟩
  cases r with
  | error e => exact swept_of_nil (hunremoved htr₁)
  | ok deleted =>
      refine ensures_ensure_bind (fun _ => ?_) fun _ => swept_of_nil (hunremoved htr₁)
      refine ensures_bind.mpr ((Ensures.of_only_inside (only_insertBoardEvent fun _ _ h => nomatch h)
        htx₁ hpending₁).post_mono ?_)
      rintro r tx₂ tr₂ w₄ ⟨htx₂, hpending₂, htr₂⟩
      have hnone : removedBy tr₂ = [] := hunremoved fun ws hws => htr₁ ws (htr₂ ws hws)
      cases r with
      | error e => exact swept_of_nil hnone
      | ok _ =>
          refine ensures_bind.mpr fun w₅ _ => ⟨?_, swept_of_nil hnone⟩
          cases tx₂ with
          | idle => exact absurd rfl htx₂
          | aborted => exact ensures_sweep (by rw [hnone]; exact List.forall_mem_nil _)
          | active ws =>
              refine ⟨trivial, ensures_sweep fun card hcard => ?_⟩
              have hcard : card ∈ removedCards ws ++ removedBy tr₂ := hcard
              rw [hnone, List.append_nil, mem_removedCards] at hcard
              obtain ⟨hid, ht⟩ := hpending₂ _ hcard card rfl
              exact ⟨hid, htenant.trans (congrArg some ht.symm)⟩

/-- Writes that log the deletion of every card that they delete. -/
def Announces (codec : IdCodec ι) (ws : List (Write (Rec ι))) : Prop :=
  ∀ card ∈ removedCards ws, ∃ e ∈ loggedRows ws, indexTask codec e = some (.delete card.id)

/-- The change of a DeleteCard is announced. -/
theorem announces_of_makes {ws : List (Write (Rec ι))} {source : ι}
    (h : Makes codec tr ws (.delete cardId source)) : Announces codec ws := by
  intro card hcard
  obtain ⟨l, l', hl, hsame, hland⟩ := h.cards
  obtain ⟨-, hland⟩ : l' ≠ [] ∧ ∀ a ∈ l', effectOf a = (cardId, none) := hland
  have hmem : Write.del card ∈ l ++ l' := hl ▸ List.mem_filterMap.mpr ⟨_, mem_removedCards.mp hcard, rfl⟩
  have hid : card.id = cardId := by
    rcases List.mem_append.mp hmem with hmem | hmem
    · obtain ⟨c, -, heff⟩ := hsame _ hmem
      cases congrArg Prod.snd heff
    · exact congrArg Prod.fst (hland _ hmem)
  have hevents : (source, CardEvent.deleted cardId) ∈ readEvents codec (eventWrites ws) := by
    rw [h.events]
    exact List.mem_singleton_self _
  obtain ⟨e, he, hread⟩ := List.mem_filterMap.mp hevents
  refine ⟨e, List.mem_filter.mpr ⟨he, decide_eq_true fun hdel => (h.keeps _ hdel).2 e rfl⟩, ?_⟩
  rw [hid]
  exact indexTask_of_readEvent hread

theorem announces_of_quiet {ws : List (Write (Rec ι))} (h : Quiet ws) : Announces codec ws := by
  intro card hcard
  obtain ⟨r, hr⟩ := h _ (mem_removedCards.mp hcard)
  cases hr

/-- **DeleteCard announces.**  Every commit of a DeleteCard logs the cards that it deletes. -/
theorem runs_deleteCard_announces : Runs (kanban ι) (fun _ ws => Announces codec ws)
    (deleteCard codec pages ctx) .idle [] fun _ _ _ => True :=
  runs_deleteCard (fun _ _ => announces_of_quiet) fun _ _ _ _ => announces_of_makes

end DeleteCard

/-! ## Nothing is left -/

variable {κ : Type}

/-- The calls that remove cards, and the others. -/
abbrev AnyCall (κ : Type) := (RequestContext × RemovalCall) ⊕ κ

/-- The call is a DeleteCard. -/
def DeletesCard : AnyCall κ → Prop
  | .inl (_, .deleteCard) => True
  | _ => False

instance : DecidablePred (DeletesCard (κ := κ)) := fun q => by
  unfold DeletesCard
  split <;> infer_instance

/-- The handlers of the calls that remove cards, and any others. -/
def anyHandler (codec : IdCodec ι) (pages : ℕ) (other : κ → Handler ι Unit) : AnyCall κ → Handler ι Unit :=
  Sum.elim (removalHandler codec pages) other

/-- The tenant, the type and the object that a program is about to put a tuple on. -/
def granting {α : Type} : Handler ι α → Option (String × String × String)
  | .call (.createRelationTuple tenant ns object _ _) _ => some (tenant, ns, object)
  | _ => none

/-- What a turn puts a tuple on. -/
def grantOf {κ α : Type}
    (P : Pool κ (Db ι) (Rec ι) (Call ι) (Reply ι) (Backend ι) ConnectError α) :
    Turn κ (Move ι) → Option (String × String × String)
  | .act i _ => P.calls[i]?.bind fun c => granting c.2.prog
  | _ => none

/-- The backend fails in a turn. -/
def BackendFails {κ : Type} : Turn κ (Move ι) → Prop
  | .act _ (.move (.refuse _)) => True
  | .act _ (.move (.lose _)) => True
  | _ => False

instance {κ : Type} : DecidablePred (BackendFails (ι := ι) (κ := κ)) := fun a => by
  unfold BackendFails
  split <;> infer_instance

namespace Site

/-- The card has no document and no tuple. -/
def Clear {κ α : Type} (codec : IdCodec ι) (s : Site κ ι α) (card : CardRow ι) : Prop :=
  (∀ doc ∈ s.index, doc.id ≠ codec.toString card.id) ∧ Bare codec card s.pool.world.ext

instance {κ α : Type} {codec : IdCodec ι} {s : Site κ ι α} {card : CardRow ι} :
    Decidable (s.Clear codec card) := inferInstanceAs (Decidable (_ ∧ _))

/-- **No residue**: once a call has returned and the events that it has logged are dispatched, the
cards that it has removed are clear. -/
def NoResidue {κ α : Type} (codec : IdCodec ι) (s : Site κ ι α) : Prop :=
  ∀ c ∈ s.pool.calls, c.2.prog.result.isSome → (∀ e ∈ loggedBy c.2.trace, e ∈ s.dispatched) →
    ∀ card ∈ removedBy c.2.trace, s.Clear codec card

instance {κ α : Type} {codec : IdCodec ι} {s : Site κ ι α} : Decidable (s.NoResidue codec) :=
  inferInstanceAs (Decidable (∀ c ∈ s.pool.calls, _))

/-- A step that leaves nothing behind: nothing fails; only a DeleteCard removes a card that has a
document or a tuple; no tuple is put on a card that is removed; and no document of such a card, unless
the deletion of the document is still to come. -/
def Tidy (D : OutboxDispatcher ι) (s : Site (AnyCall κ) ι Unit) : SiteAction (AnyCall κ) ι → Prop
  | .turn a => ¬ BackendFails a ∧
      (∀ c ∈ s.pool.commitOf (kanban ι) a, ¬ DeletesCard c.1 →
        ∀ card ∈ removedCards c.2.2, s.Clear D.codec card) ∧
      ∀ g ∈ grantOf s.pool a, ∀ c ∈ s.pool.calls, ∀ card ∈ removedBy c.2.trace,
        g ≠ (card.tenantId, permissionTypeCard, D.codec.toString card.id)
  | .sync d => ∀ doc ∈ s.puts D d,
      (∀ c ∈ s.pool.calls, ¬ DeletesCard c.1 → ∀ card ∈ removedBy c.2.trace,
        doc.id ≠ D.codec.toString card.id) ∧
      ∀ e ∈ s.dispatched, ∀ cardId ∈ deletedCard D.codec e, doc.id ≠ D.codec.toString cardId
  | .syncFails _ => False
  | _ => True

instance {D : OutboxDispatcher ι} {s : Site (AnyCall κ) ι Unit} :
    DecidablePred (Tidy D s) := fun a =>
  match a with
  | .turn _ => inferInstanceAs (Decidable (_ ∧ _ ∧ ∀ g ∈ grantOf s.pool _, _))
  | .sync d => inferInstanceAs (Decidable (∀ doc ∈ s.puts D d, _))
  | .syncFails _ => inferInstanceAs (Decidable False)
  | .select _ | .leave _ _ | .mark _ | .crash _ => inferInstanceAs (Decidable True)

end Site

/-! ### What one step of a call does -/

section Steps

variable {κ α : Type} {P : Pool κ (Db ι) (Rec ι) (Call ι) (Reply ι) (Backend ι) ConnectError α}
  {q : κ} {i : ℕ} {t t' : Thread (Db ι) (Rec ι) (Call ι) (Reply ι) ConnectError α}
  {w w' : World (Db ι) (Backend ι)} {b : Act (Move ι)}

omit [DecidableEq ι] in
/-- A grant stores one tuple. -/
theorem mem_tuples_create {backend : Backend ι} {tenant ns object relation subject : String}
    {tuple : RelationTuple}
    (h : tuple ∈ (backend.create tenant ns object relation subject).tuples) : tuple ∈ backend.tuples ∨
      (tenant, ns, object) = (tuple.tenant, tuple.namespaceName, tuple.object) := by
  unfold Backend.create at h
  split at h
  · exact .inl h
  · rcases List.mem_append.mp h with h | h
    · exact .inl h
    · rw [List.mem_singleton.mp h]
      exact .inr rfl

/-- A tuple after an answer was there, or it was put. -/
theorem granting_of_react {c : Call ι} {m : Move ι} {backend : Backend ι}
    {r : Reply ι c × Backend ι} {k : Reply ι c → Handler ι α} (hr : react c m backend = some r)
    {tuple : RelationTuple} (h : tuple ∈ r.2.tuples) : tuple ∈ backend.tuples ∨
      granting (.call c k) = some (tuple.tenant, tuple.namespaceName, tuple.object) := by
  cases c with
  | createRelationTuple tenant ns object relation subject =>
      cases m with
      | done | lose =>
          cases hr
          exact (mem_tuples_create h).imp_right (congrArg some)
      | refuse =>
          cases hr
          exact .inl h
      | answer | page | resolved | fresh => cases hr
  | deleteRelationTuple id =>
      cases m with
      | done | lose =>
          cases hr
          exact .inl (List.mem_filter.mp h).1
      | refuse =>
          cases hr
          exact .inl h
      | answer | page | resolved | fresh => cases hr
  | listRelationTuples f after =>
      cases m with
      | page size =>
          obtain ⟨-, hr⟩ := Option.ite_none_right_eq_some.mp hr
          cases hr
          exact .inl h
      | refuse =>
          cases hr
          exact .inl h
      | done | lose | answer | resolved | fresh => cases hr
  | newId =>
      cases m with
      | fresh id =>
          obtain ⟨-, hr⟩ := Option.ite_none_left_eq_some.mp hr
          cases hr
          exact .inl h
      | done | refuse | lose | answer | page | resolved => cases hr
  | tenantClient | checkPermission | resolveSubject | diverge =>
      cases m <;> first
        | (cases hr; done)
        | (cases hr; exact .inl h)

/-- A call that the backend does not fail is answered. -/
theorem not_callFailed_of_react {c : Call ι} {m : Move ι} {backend : Backend ι}
    {r : Reply ι c × Backend ι} (hr : react c m backend = some r)
    (hm : ¬ BackendFails (.act i (.move m) : Turn κ (Move ι))) : ¬ CallFailed (.called c r.1) := by
  intro hfailed
  cases m with
  | refuse => exact hm trivial
  | lose => exact hm trivial
  | done => cases c <;> cases hr <;> first | exact hfailed.elim | cases hfailed
  | page size =>
      cases c with
      | listRelationTuples f after =>
          obtain ⟨-, hr⟩ := Option.ite_none_right_eq_some.mp hr
          cases hr
          cases hfailed
      | _ => cases hr
  | answer =>
      cases c <;> cases hr
      exact hfailed.elim
  | resolved =>
      cases c <;> cases hr
      exact hfailed.elim
  | fresh id =>
      cases c with
      | newId => exact hfailed.elim
      | _ => cases hr

/-- A tuple after a step was there, or the step put it. -/
theorem granting_of_step (hs : Thread.step (kanban ι) (t, w) b = some (t', w')) {tuple : RelationTuple}
    (h : tuple ∈ w'.ext.tuples) : tuple ∈ w.ext.tuples ∨
      granting t.prog = some (tuple.tenant, tuple.namespaceName, tuple.object) := by
  rcases Thread.ext_cases hs with ⟨hext, -⟩ | ⟨c, k, m, r, hprog, -, hr, -, hext⟩
  · rw [hext] at h
    exact .inl h
  · rw [hext] at h
    rw [hprog]
    exact granting_of_react hr h

/-- A step that does not fail adds no failed call. -/
theorem callFailed_of_step (hs : Thread.step (kanban ι) (t, w) b = some (t', w'))
    (hb : ¬ BackendFails (.act i b : Turn κ (Move ι))) (h : ∀ e ∈ t.trace, ¬ CallFailed e) :
    ∀ e ∈ t'.trace, ¬ CallFailed e := by
  intro e he
  rcases Thread.ext_cases hs with ⟨-, hold⟩ | ⟨c, k, m, r, -, rfl, hr, htr, -⟩
  · rcases hold e he with he | hne
    · exact h e he
    · intro hfailed
      cases e with
      | called c r => exact hne c r rfl
      | _ => exact hfailed
  · rw [htr] at he
    rcases List.mem_cons.mp he with rfl | he
    · exact not_callFailed_of_react hr hb
    · exact h e he

/-- A card that a call has removed after a step was removed before, or by the commit of the step,
which leaves the backend alone. -/
theorem removedBy_of_step (hi : P.calls[i]? = some (q, t))
    (hs : Thread.step (kanban ι) (t, P.world) b = some (t', w')) {card : CardRow ι}
    (h : card ∈ removedBy t'.trace) : card ∈ removedBy t.trace ∨ w'.ext = P.world.ext ∧
      ∃ past ws, P.commitOf (kanban ι) (.act i b) = some (q, past, ws) ∧ card ∈ removedCards ws := by
  have hext : ∀ {ws past}, t'.trace = .committed ws :: past → w'.ext = P.world.ext := by
    intro ws past htr
    rcases Thread.ext_cases hs with ⟨hext, -⟩ | ⟨c, k, m, r, -, -, -, hcalled, -⟩
    · exact hext
    · cases (List.cons.inj (hcalled.symm.trans htr)).1
  rcases Thread.trace_cases hs with htr | ⟨e, htr⟩ | ⟨ws, read, htr⟩
  · rw [htr] at h
    exact .inl h
  · rw [htr] at h
    cases e with
    | committed ws =>
        have h : card ∈ removedCards ws ++ removedBy t.trace := h
        rcases List.mem_append.mp h with h | h
        · exact .inr ⟨hext htr, _, ws, Pool.commitOf_eq_some hi hs htr (.inl rfl), h⟩
        · exact .inl h
    | _ => exact .inl h
  · rw [htr] at h
    have h : card ∈ removedCards ws ++ removedBy t.trace := h
    rcases List.mem_append.mp h with h | h
    · exact .inr ⟨hext htr, _, ws, Pool.commitOf_eq_some hi hs htr (.inr ⟨read, rfl⟩), h⟩
    · exact .inl h

end Steps

/-! ### What a whole run keeps -/

/-- A DeleteCard has logged the cards that it has removed, and swept them. -/
def Cleaned (codec : IdCodec ι) : Post (Db ι) (Rec ι) (Call ι) (Reply ι) (Backend ι) ConnectError Unit :=
  fun _ _ tr w => (∀ ws, .committed ws ∈ tr → Announces codec ws) ∧ Swept codec tr w

theorem ensures_deleteCard_cleans {codec : IdCodec ι} {pages : ℕ} {ctx : RequestContext}
    {w : World (Db ι) (Backend ι)} : Ensures (kanban ι) (Spared codec) (fun _ _ _ _ => True)
      (Cleaned codec) (deleteCard codec pages ctx) .idle [] w := by
  have hruns : Ensures (kanban ι) (Spared codec) (Commits (kanban ι) fun _ ws => Announces codec ws)
      (fun _ _ _ _ => True) (deleteCard codec pages ctx) .idle [] w :=
    (runs_deleteCard_announces w).mono (fun _ _ _ _ => trivial) (fun _ _ _ _ h => h)
      fun _ _ _ _ _ => trivial
  refine ((hruns.and ensures_deleteCard).keeps
    (I := fun tr _ => ∀ ws, .committed ws ∈ tr → Announces codec ws) (fun _ h => nomatch h)
    (fun _ _ _ _ h => h) (fun tr _ h ws hws => ?_) ?_).mono (fun _ _ _ h => h)
    (fun _ _ _ _ _ => trivial) fun _ _ _ _ h => ⟨h.1, h.2.2⟩
  · exact h ws ((List.mem_cons.mp hws).resolve_left nofun)
  · rintro tr w tr' w' ⟨hcommits, -⟩ h ws hws
    rcases hcommits with ⟨e, rfl, hne, -⟩ | ⟨ws', past, rfl, hpast, hgood, -⟩
    · exact h ws ((List.mem_cons.mp hws).resolve_left fun heq => hne ws heq.symm)
    · rcases List.mem_cons.mp hws with heq | hws
      · cases heq
        exact hgood
      · rcases hpast with rfl | ⟨read, rfl⟩
        · exact h ws hws
        · exact h ws ((List.mem_cons.mp hws).resolve_left nofun)

namespace Site

section Runs

variable {D : OutboxDispatcher ι} {pages : ℕ} {other : κ → Handler ι Unit}
  {s s' : Site (AnyCall κ) ι Unit} {a : Turn (AnyCall κ) (Move ι)}
  {P : Pool (AnyCall κ) (Db ι) (Rec ι) (Call ι) (Reply ι) (Backend ι) ConnectError Unit}

/-- What holds of a call under way: a DeleteCard will have cleaned up when it returns, and the cards
that any other call has removed are clear. -/
structure Clean (D : OutboxDispatcher ι) (s : Site (AnyCall κ) ι Unit)
    (c : AnyCall κ × Thread (Db ι) (Rec ι) (Call ι) (Reply ι) ConnectError Unit) : Prop where
  deletion : DeletesCard c.1 → (∀ e ∈ c.2.trace, ¬ CallFailed e) ∧
    ∃ w, Spared D.codec c.2.trace w s.pool.world ∧
      c.2.Meets (kanban ι) (Spared D.codec) (fun _ _ _ _ => True) (Cleaned D.codec) w
  other : ¬ DeletesCard c.1 → ∀ card ∈ removedBy c.2.trace, s.Clear D.codec card

/-- What a run of tidy steps keeps. -/
structure Kept (D : OutboxDispatcher ι) (s : Site (AnyCall κ) ι Unit) : Prop where
  docs : ∀ e ∈ s.dispatched, ∀ cardId, indexTask D.codec e = some (.delete cardId) →
    ∀ doc ∈ s.index, doc.id ≠ D.codec.toString cardId
  calls : ∀ c ∈ s.pool.calls, s.Clean D c

omit [DecidableEq ι] in
theorem Spared.trans {codec : IdCodec ι} {tr : Trace (Rec ι) (Call ι) (Reply ι)}
    {w w' w'' : World (Db ι) (Backend ι)} (h : Spared codec tr w w') (h' : Spared codec tr w' w'') :
    Spared codec tr w w'' :=
  fun card hcard t ht hadmits => h card hcard t (h' card hcard t ht hadmits) hadmits

/-- No call under way has removed the card that a tidy turn puts a tuple on. -/
theorem spared_of_turn (hT : s.Tidy D (.turn a))
    (hs : s.pool.step (kanban ι) (anyHandler D.codec pages other) a = some P) :
    ∀ c ∈ s.pool.calls, Spared D.codec c.2.trace s.pool.world P.world := by
  intro c hc card hcard tuple htuple hadmits
  rcases Pool.step_cases hs with ⟨q, rfl, rfl⟩ | ⟨i, b, q, t, t', w', rfl, hi, hst, rfl⟩ |
    ⟨i, c', rfl, -, -, rfl⟩
  · exact htuple
  · rcases granting_of_step hst htuple with hold | hgrant
    · exact hold
    · have hgrant : grantOf s.pool (.act i b) =
          some (tuple.tenant, tuple.namespaceName, tuple.object) := by
        rw [grantOf, hi]
        exact hgrant
      obtain ⟨ht, hns, ho, -⟩ := of_decide_eq_true hadmits
      refine absurd ?_ (hT.2.2 _ hgrant c hc card hcard)
      rw [ht, hns, ho _ rfl]
      rfl
  · exact htuple

omit [DecidableEq ι] in
/-- A clear card stays clear where nothing is put on it. -/
theorem Clear.of_sub {card : CardRow ι} (h : s.Clear D.codec card)
    (hsub : ∀ t ∈ P.world.ext.tuples, (cardTuples D.codec card).admits t → t ∈ s.pool.world.ext.tuples) :
    ({ s with pool := P } : Site (AnyCall κ) ι Unit).Clear D.codec card := by
  refine ⟨h.1, fun t ht => Bool.eq_false_iff.mpr fun hadmits => ?_⟩
  rw [h.2 t (hsub t ht hadmits)] at hadmits
  cases hadmits

/-- A call that a tidy turn leaves as it is. -/
theorem Clean.of_spared {c : AnyCall κ × Thread (Db ι) (Rec ι) (Call ι) (Reply ι) ConnectError Unit}
    (h : s.Clean D c) (hspared : Spared D.codec c.2.trace s.pool.world P.world) :
    ({ s with pool := P } : Site (AnyCall κ) ι Unit).Clean D c where
  deletion hq := by
    obtain ⟨hfailed, w, hw, hm⟩ := h.deletion hq
    exact ⟨hfailed, w, Spared.trans hw hspared, hm⟩
  other hq card hcard := (h.other hq card hcard).of_sub (hspared card hcard)

/-- **A turn of the calls.** -/
theorem Kept.turn (h : s.Kept D) (hT : s.Tidy D (.turn a))
    (hs : s.pool.step (kanban ι) (anyHandler D.codec pages other) a = some P) :
    ({ s with pool := P } : Site (AnyCall κ) ι Unit).Kept D := by
  refine ⟨h.docs, fun c hc => ?_⟩
  have hspared := spared_of_turn hT hs
  by_cases hold : c ∈ s.pool.calls
  · exact (h.calls c hold).of_spared (hspared c hold)
  rcases Pool.step_cases hs with ⟨q, rfl, rfl⟩ | ⟨i, b, q, t, t', w', rfl, hi, hst, rfl⟩ |
    ⟨i, c', rfl, -, -, rfl⟩
  · obtain rfl := List.mem_singleton.mp ((List.mem_append.mp hc).resolve_left hold)
    refine ⟨fun hq => ⟨List.forall_mem_nil _, s.pool.world, List.forall_mem_nil _, ?_⟩,
      fun _ => List.forall_mem_nil _⟩
    match q, hq with
    | .inl (ctx, .deleteCard), _ => exact ensures_deleteCard_cleans
  · obtain rfl := (Pool.mem_set hc).resolve_right hold
    have hmem := List.mem_of_getElem? hi
    refine ⟨fun hq => ?_, fun hq card hcard => ?_⟩
    · obtain ⟨hfailed, w, hw, hm⟩ := (h.calls _ hmem).deletion hq
      refine ⟨callFailed_of_step hst hT.1 hfailed, w', fun _ _ _ ht _ => ht, ?_⟩
      exact (hm.step hw hst).1
    · rcases removedBy_of_step hi hst hcard with hcard | ⟨hext, past, ws, hcommit, hcard⟩
      · exact ((h.calls _ hmem).other hq card hcard).of_sub (hspared _ hmem card hcard)
      · refine (hT.2.1 _ hcommit hq card hcard).of_sub fun t ht _ => ?_
        rwa [← hext]
  · exact absurd (List.mem_of_mem_eraseIdx hc) hold

/-- A step of a dispatcher that puts no document that it should not. -/
theorem Kept.of_index (h : s.Kept D) (hpool : s'.pool = s.pool)
    (hdocs : ∀ e ∈ s'.dispatched, ∀ cardId, indexTask D.codec e = some (.delete cardId) →
      ∀ doc ∈ s'.index, doc.id ≠ D.codec.toString cardId)
    (hothers : ∀ c ∈ s.pool.calls, ¬ DeletesCard c.1 → ∀ card ∈ removedBy c.2.trace,
      ∀ doc ∈ s'.index, doc.id ≠ D.codec.toString card.id) : s'.Kept D := by
  refine ⟨hdocs, fun c hc => ?_⟩
  rw [hpool] at hc
  refine ⟨fun hq => ?_, fun hq card hcard => ⟨hothers c hc hq card hcard, ?_⟩⟩
  · rw [hpool]
    exact (h.calls c hc).deletion hq
  · rw [hpool]
    exact ((h.calls c hc).other hq card hcard).2

/-- A step that deletes documents at most; of the rows that it is through with, those of a deletion
have their document deleted. -/
theorem Kept.of_sub (h : s.Kept D) (hpool : s'.pool = s.pool) (hindex : ∀ doc ∈ s'.index, doc ∈ s.index)
    (hnew : ∀ e ∈ s'.dispatched, e ∈ s.dispatched ∨ ∀ cardId, indexTask D.codec e = some (.delete cardId) →
      ∀ doc ∈ s'.index, doc.id ≠ D.codec.toString cardId) : s'.Kept D := by
  refine h.of_index hpool (fun e he => ?_) fun c hc hq card hcard doc hdoc =>
    ((h.calls c hc).other hq card hcard).1 doc (hindex doc hdoc)
  rcases hnew e he with he | hnew
  · exact fun cardId htask doc hdoc => h.docs e he cardId htask doc (hindex doc hdoc)
  · exact hnew

variable [LE ι] [DecidableLE ι] {action : SiteAction (AnyCall κ) ι}

/-- **One step.** -/
theorem Kept.step (h : s.Kept D) (hT : s.Tidy D action)
    (hs : s.step D (anyHandler D.codec pages other) action = some s') : s'.Kept D := by
  -- a row that asks for no deletion
  have hplain : ∀ {row : EventRow ι} {docs : List CardDocument},
      (∀ cardId, indexTask D.codec row ≠ some (.delete cardId)) → ∀ e ∈ row :: s.dispatched,
        e ∈ s.dispatched ∨ ∀ cardId, indexTask D.codec e = some (.delete cardId) →
          ∀ doc ∈ docs, doc.id ≠ D.codec.toString cardId := by
    intro row docs hrow e he
    rcases List.mem_cons.mp he with rfl | he
    · exact .inr fun cardId htask => absurd htask (hrow cardId)
    · exact .inl he
  cases step_cases hs with
  | turn hturn => exact h.turn hT hturn
  | select | leave | leaveMarked | mark | card | labels | document | crash =>
      exact h.of_sub rfl (fun _ hdoc => hdoc) fun _ he => .inl he
  | markPlain hpass htask =>
      exact h.of_sub rfl (fun _ hdoc => hdoc) (hplain fun _ => by rw [htask]; nofun)
  | vanished hpass htask =>
      exact h.of_sub rfl (fun _ hdoc => hdoc) (hplain fun _ => by rw [htask]; nofun)
  | @delete d row load todo cardId hpass htask =>
      refine h.of_sub rfl (fun doc hdoc => (mem_deleteDoc.mp hdoc).1) fun e he => ?_
      rcases List.mem_cons.mp he with rfl | he
      · refine .inr fun cardId' htask' doc hdoc => ?_
        cases htask.symm.trans htask'
        exact (mem_deleteDoc.mp hdoc).2
      · exact .inl he
  | @put d row doc todo cardId hpass htask =>
      obtain ⟨hcalls, hrows⟩ := hT doc (puts_eq_some hpass htask)
      refine h.of_index rfl (fun e he cardId' htask' doc' hdoc => ?_) fun c hc hq card hcard doc' hdoc => ?_
      · rcases List.mem_cons.mp he with rfl | he
        · cases htask.symm.trans htask'
        · rcases mem_indexCard.mp hdoc with rfl | ⟨hdoc, -⟩
          · exact hrows e he cardId' (deletedCard_eq_some.mpr htask')
          · exact h.docs e he cardId' htask' doc' hdoc
      · rcases mem_indexCard.mp hdoc with rfl | ⟨hdoc, -⟩
        · exact hcalls c hc hq card hcard
        · exact ((h.calls c hc).other hq card hcard).1 doc' hdoc
  | syncFails => exact hT.elim

/-- **No residue of removed cards.**  In a run of tidy steps every card that a call has removed is
without a document and without a tuple once the call has returned and its events are dispatched. -/
theorem noResidue_of_run {w : World (Db ι) (Backend ι)} {docs : List CardDocument}
    {actions : List (SiteAction (AnyCall κ) ι)}
    (hrun : Machine.ExecWhile (Site.step D (anyHandler D.codec pages other)) (Tidy D) (start w docs) actions
      s) : s.NoResidue D.codec := by
  have hkept : s.Kept D := hrun.invariant (Kept D) ⟨List.forall_mem_nil _, List.forall_mem_nil _⟩
    fun _ _ _ h hT hs => h.step hT hs
  intro c hc hreturned hdispatched card hcard
  by_cases hq : DeletesCard c.1
  · obtain ⟨hfailed, w₁, hw, hm⟩ := (hkept.calls c hc).deletion hq
    obtain ⟨r, hr⟩ := Option.isSome_iff_exists.mp hreturned
    obtain ⟨hannounces, hswept⟩ := hm.post hr
    obtain ⟨ws, hws, hdel⟩ := mem_removedBy.mp hcard
    obtain ⟨e, he, htask⟩ := hannounces ws hws card (mem_removedCards.mpr hdel)
    refine ⟨hkept.docs e (hdispatched e (mem_ofCommits.mpr ⟨ws, hws, he⟩)) card.id htask, fun t ht => ?_⟩
    refine Bool.eq_false_iff.mpr fun hadmits => ?_
    rcases hswept card hcard with ⟨ev, hev, hbad⟩ | hbare
    · exact hfailed ev hev hbad
    · rw [hbare t (hw card hcard t ht hadmits)] at hadmits
      cases hadmits
  · exact (hkept.calls c hc).other hq card hcard

end Runs

/-! ### A card with its column -/

/-- A column without cards. -/
def emptyColumn : World (Db String) (Backend String) where
  store := { Db.empty with
    projects := [⟨"p", "t", "Roadmap", "ROAD", "ROAD", "", "user:ann"⟩]
    boards := [⟨"b", "t", "p", "Board", "BOARD", "", none, "", 0⟩]
    columns := [⟨"k", "t", "b", "Todo", none, none, 0, false⟩] }
  ext := Backend.empty

/-- CreateCard, besides the calls that remove cards. -/
abbrev CreateOrRemove := AnyCall (RequestContext × CreateCardRequest)

def createOrRemove : CreateOrRemove → Handler String Unit :=
  anyHandler textIds 2 fun q => (createCard textIds q.1 q.2).bind fun _ => .pure ()

def batchOfTen : OutboxDispatcher String := ⟨textIds, 10, fun _ => ""⟩

/-- The steps of a call, and the drain pass after it. -/
def callThenDrain (i : ℕ) (q : CreateOrRemove) (acts : List (Act (Move String))) (syncs : ℕ) :
    List (SiteAction CreateOrRemove String) :=
  .turn (.arrive q) :: acts.map (fun b => .turn (.act i b)) ++
    .select 0 :: .mark 0 :: List.replicate syncs (.sync 0)

/-- The call reads its board and its column, commits, and puts the tuple; its row is indexed. -/
def createsShip : List (SiteAction CreateOrRemove String) :=
  callThenDrain 0 (.inr (annFor "b", ⟨"k", "Ship", "", 0, none, "", 0, "", 0⟩))
    ([.ok, .ok, .ok, .ok, .ok, .move (.fresh "c"), .ok, .ok, .ok, .move (.fresh "e"), .ok, .ok, .ok,
      .move .done, .move .done] ++ List.replicate 8 .ok) 4

def deletesShip : List (SiteAction CreateOrRemove String) :=
  callThenDrain 1 (.inl (annFor "c", .deleteCard)) [.ok, .ok, .ok, .ok, .move (.fresh "f"), .ok, .ok, .ok,
    .move .done, .move (.page 1), .move .done] 1

def removesColumn : List (SiteAction CreateOrRemove String) :=
  callThenDrain 1 (.inl (annFor "b", .removeColumn ⟨"k"⟩)) [.ok, .ok, .ok, .ok, .ok, .move (.fresh "f"),
    .ok, .ok, .ok] 0

/-- Neither a call nor a dispatcher stops, and nothing that it asks for fails. -/
def Smooth {κ : Type} : SiteAction κ ι → Prop
  | .turn (.act _ .fail) => False
  | .turn (.crash _) => False
  | .turn a => ¬ BackendFails a
  | .leave _ _ => False
  | .syncFails _ => False
  | .crash _ => False
  | _ => True

instance {κ : Type} : DecidablePred (Smooth (ι := ι) (κ := κ)) := fun a => by
  unfold Smooth
  split <;> infer_instance

theorem noResidue_of_run_deletesShip :
    ∃ s, Machine.ExecWhile (Site.step batchOfTen createOrRemove) (Tidy batchOfTen)
        (start emptyColumn []) (createsShip ++ deletesShip) s ∧ s.NoResidue textIds ∧
      ∃ c ∈ s.pool.calls, c.2.prog.result.isSome ∧ (∀ e ∈ loggedBy c.2.trace, e ∈ s.dispatched) ∧
        (removedBy c.2.trace).map CardRow.id = ["c"] := by
  obtain ⟨s, hs, hremoved⟩ : ∃ s, Machine.run (Machine.guarded (Site.step batchOfTen createOrRemove)
      (Tidy batchOfTen)) (start emptyColumn []) (createsShip ++ deletesShip) = some s ∧
      ∃ c ∈ s.pool.calls, c.2.prog.result.isSome ∧ (∀ e ∈ loggedBy c.2.trace, e ∈ s.dispatched) ∧
        (removedBy c.2.trace).map CardRow.id = ["c"] := ⟨_, rfl, by decide⟩
  have hrun := Machine.execWhile_of_run hs
  exact ⟨s, hrun, noResidue_of_run hrun, hremoved⟩

/-- The document and the tuple of a card stay when its column is removed. -/
theorem residue_of_removesColumn :
    ∃ s, Machine.Exec (Site.step batchOfTen createOrRemove) (start emptyColumn [])
        (createsShip ++ removesColumn) s ∧ (∀ a ∈ createsShip ++ removesColumn, Smooth a) ∧
      ¬ s.NoResidue textIds := by
  obtain ⟨s, hs, hresidue⟩ : ∃ s, Machine.run (Site.step batchOfTen createOrRemove)
      (start emptyColumn []) (createsShip ++ removesColumn) = some s ∧ ¬ s.NoResidue textIds :=
    ⟨_, rfl, by decide⟩
  exact ⟨s, Machine.exec_of_run hs, by decide, hresidue⟩

end Site

end Kanban.Rpc
