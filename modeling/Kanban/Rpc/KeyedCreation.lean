import Kanban.Lib.Once
import Kanban.Rpc.Insertion
import Kanban.Rpc.Lasting

/-!
# The card of an idempotency key

A `CreateCard` with a key looks the key up, creates the card in a transaction, and stores the key when
that has committed.  Nothing holds the key in between: two requests may both find it free, and a request
that is lost after its commit leaves a card that no retry knows of.

## Main definitions

* `HasCard`, `NewCard`, `keyCard` — the cards that are there and new, and the card of a key.
* `creation` — how far a request is, by its trace.
* `once_createCard` — how a request goes on.
* `created_once` — the runs in which one card is created.
-/

namespace Kanban.Rpc

open Program Kanban.Store Kanban.Auth
open Kanban.Services (AuthContext ConnectError IdCodec)

variable {ι α β : Type} [DecidableEq ι]

/-! ## The key and the cards -/

section Cards

omit [DecidableEq ι]

/-- There is a card with the id. -/
def HasCard (db : Db ι) (x : ι) : Prop := ∃ c ∈ db.cards, c.id = x

/-- No card is gone. -/
def Persist (db db' : Db ι) : Prop := ∀ x, HasCard db x → HasCard db' x

/-- The card was not there at first. -/
def NewCard (db₀ db : Db ι) (x : ι) : Prop := HasCard db x ∧ ¬ HasCard db₀ x

theorem Persist.refl (db : Db ι) : Persist db db := fun _ h => h

theorem Persist.trans {db db' db'' : Db ι} (h : Persist db db') (h' : Persist db' db'') :
    Persist db db'' := fun x hx => h' x (h x hx)

end Cards

theorem stored_idempotencyKeys : Table.Stored (kanban ι) Db.idempotencyKeysT where
  inj _ _ h := by cases h; rfl
  put _ _ := rfl
  del _ _ := rfl
  other _ a h := by rcases a with (r | r) <;> cases r <;> first | rfl | exact absurd rfl (h _)

/-- A write of neither a card nor a key. -/
def IsAside (a : Write (Rec ι)) : Prop :=
  match a.record with
  | .card _ => False
  | .idempotencyKey _ => False
  | _ => True

/-- Writes that put cards and no key. -/
def PutsCards (ws : List (Write (Rec ι))) : Prop :=
  ∀ a ∈ ws, (∀ c, a.record = .card c → a = .put (.card c)) ∧ ∀ r, a.record ≠ .idempotencyKey r

section Puts

variable {ws ws' : List (Write (Rec ι))} {db : Db ι} {x : ι}

omit [DecidableEq ι] in
theorem PutsCards.append (h : PutsCards ws) (h' : PutsCards ws') : PutsCards (ws ++ ws') :=
  List.forall_mem_append.mpr ⟨h, h'⟩

omit [DecidableEq ι] in
theorem not_card_of_aside {a : Write (Rec ι)} (h : IsAside a) : ∀ c, a.record ≠ .card c := by
  intro c hc
  unfold IsAside at h
  rw [hc] at h
  exact h

omit [DecidableEq ι] in
theorem PutsCards.of_aside (h : ∀ a ∈ ws, IsAside a) : PutsCards ws := by
  refine fun a ha => ⟨fun c hc => absurd hc (not_card_of_aside (h a ha) c), fun r hr => ?_⟩
  have haside := h a ha
  unfold IsAside at haside
  rw [hr] at haside
  exact haside

/-- The cards after such writes: those that were there and those that are put. -/
theorem hasCard_applyAll (h : PutsCards ws) :
    HasCard ((kanban ι).applyAll db ws) x ↔ HasCard db x ∨ ∃ c, .put (.card c) ∈ ws ∧ c.id = x := by
  have hsame : ∀ r r' : CardRow ι, Db.cardsT.same r' r = true → r.id = x → r'.id = x :=
    fun r r' hs hr => (of_decide_eq_true hs).trans hr
  have hdel : ∀ r : CardRow ι, .del (.card r) ∉ ws := by
    intro r hr
    cases (h _ hr).1 r rfl
  constructor
  · rintro ⟨c, hc, hx⟩
    rcases stored_cards.mem_applyAll hc with hput | ⟨hmem, -⟩
    · exact .inr ⟨c, hput, hx⟩
    · exact .inl ⟨c, hmem, hx⟩
  · rintro (hold | ⟨c, hput, hx⟩)
    · exact stored_cards.exists_mem_applyAll hold (fun r' _ r => hsame r r')
        fun r' hr' => absurd hr' (hdel r')
    · exact stored_cards.exists_mem_of_put hput hx (fun r' _ r => hsame r r')
        fun r' hr' => absurd hr' (hdel r')

theorem PutsCards.persist (h : PutsCards ws) : Persist db ((kanban ι).applyAll db ws) :=
  fun _ hx => (hasCard_applyAll h).mpr (.inl hx)

theorem PutsCards.keyCard (h : PutsCards ws) (t key : String) :
    keyCard ((kanban ι).applyAll db ws) t key = keyCard db t key := by
  have hkeys : ((kanban ι).applyAll db ws).idempotencyKeys = db.idempotencyKeys :=
    stored_idempotencyKeys.rows_applyAll fun a ha r => (h a ha).2 r
  unfold Rpc.keyCard
  rw [hkeys]

end Puts

/-! ## How far a request is -/

section Phases

omit [DecidableEq ι]

/-- The card of a row of the keys. -/
def foundCard : Rec ι → Option ι
  | .idempotencyKey r => r.responseCardId
  | _ => none

/-- The card that a write stores for a key. -/
def savedCard : Write (Rec ι) → Option ι
  | .put r => foundCard r
  | .del _ => none

/-- How far a request is that has found the key free, by what it has committed: the card that is put
last is the one that it creates. -/
def writesPhase (ws : List (Write (Rec ι))) : Once.Phase ι :=
  (ws.findSome? savedCard).elim ((putsBy Rec.toCard ws).getLast?.elim .missed fun c => .made c.id) .stored

/-- How far a request is: its first statement looks the key up. -/
def creationPhase (tr : Trace (Rec ι) (Call ι) (Reply ι)) : Once.Phase ι :=
  match tr.getLast? with
  | none => .fresh
  | some (.ran rows) => (rows.head?.bind foundCard).elim (writesPhase (Trace.writes tr)) .found
  | some _ => .lost

variable {tr : Trace (Rec ι) (Call ι) (Reply ι)} {e : Event (Rec ι) (Call ι) (Reply ι)}
  {ws : List (Write (Rec ι))}

/-- An event that commits nothing, after the first statement. -/
theorem creationPhase_cons (hne : tr ≠ []) (hwrites : Trace.writes (e :: tr) = Trace.writes tr) :
    creationPhase (e :: tr) = creationPhase tr := by
  unfold creationPhase
  rw [hwrites, List.getLast?_cons_of_ne_nil hne]

/-- The first statement has found the key free. -/
def FoundFree (tr : Trace (Rec ι) (Call ι) (Reply ι)) : Prop :=
  ∃ rows, tr.getLast? = some (.ran rows) ∧ rows.head?.bind foundCard = none

theorem FoundFree.phase (h : FoundFree tr) : creationPhase tr = writesPhase (Trace.writes tr) := by
  obtain ⟨rows, hlast, hfree⟩ := h
  unfold creationPhase
  rw [hlast]
  dsimp only
  rw [hfree]
  rfl

theorem FoundFree.cons (h : FoundFree tr) : FoundFree (e :: tr) := by
  obtain ⟨rows, hlast, hfree⟩ := h
  refine ⟨rows, ?_, hfree⟩
  rw [List.getLast?_cons_of_ne_nil, hlast]
  rintro rfl
  cases hlast

theorem foundFree_of_waits (h : (creationPhase tr).waits = true) : FoundFree tr := by
  unfold creationPhase at h
  split at h
  · cases h
  · rename_i rows hlast
    refine ⟨rows, hlast, ?_⟩
    cases hfound : rows.head?.bind foundCard with
    | none => rfl
    | some x =>
        rw [hfound] at h
        cases h
  · cases h

/-- A request that has found the key free and committed no card yet. -/
theorem writes_of_missed (h : creationPhase tr = .missed) : FoundFree tr ∧
    (Trace.writes tr).findSome? savedCard = none ∧ putsBy Rec.toCard (Trace.writes tr) = [] := by
  have hfree : FoundFree tr := foundFree_of_waits (by rw [h]; rfl)
  rw [hfree.phase, writesPhase] at h
  cases hstored : (Trace.writes tr).findSome? savedCard with
  | some x =>
      rw [hstored] at h
      cases h
  | none =>
      refine ⟨hfree, rfl, ?_⟩
      rw [hstored] at h
      cases hputs : (putsBy Rec.toCard (Trace.writes tr)).getLast? with
      | none => exact List.getLast?_eq_none_iff.mp hputs
      | some c =>
          rw [hputs] at h
          cases h

/-- The commit of the card. -/
theorem creationPhase_commit (h : creationPhase tr = .missed) (hputs : PutsCards ws)
    {c : CardRow ι} (hlast : (putsBy Rec.toCard ws).getLast? = some c) :
    creationPhase (.committed ws :: tr) = .made c.id := by
  obtain ⟨hfree, hstored, hnone⟩ := writes_of_missed h
  have hkeys : ws.findSome? savedCard = none := by
    refine List.findSome?_eq_none_iff.mpr fun a ha => ?_
    cases a with
    | del r => rfl
    | put r =>
        cases r with
        | idempotencyKey r => exact absurd rfl ((hputs _ ha).2 r)
        | _ => rfl
  have hcards : putsBy Rec.toCard (Trace.writes tr ++ ws) = putsBy Rec.toCard ws := by
    rw [putsBy_append, hnone, List.nil_append]
  rw [hfree.cons.phase, Trace.writes, writesPhase, List.findSome?_append, hstored, hkeys, hcards, hlast]
  rfl

/-- The store of the key. -/
theorem creationPhase_store {x y : ι} (h : creationPhase tr = .made x) {r : IdempotencyRow ι}
    (hr : r.responseCardId = some y) :
    creationPhase (.committed [.put (.idempotencyKey r)] :: tr) = .stored y := by
  have hfree : FoundFree tr := foundFree_of_waits (by rw [h]; rfl)
  have hstored : (Trace.writes tr).findSome? savedCard = none := by
    rw [hfree.phase, writesPhase] at h
    cases hstored : (Trace.writes tr).findSome? savedCard with
    | none => rfl
    | some z =>
        rw [hstored] at h
        cases h
  have hput : [Write.put (Rec.idempotencyKey r)].findSome? savedCard = some y := by
    simp [savedCard, foundCard, hr]
  rw [hfree.cons.phase, Trace.writes, writesPhase, List.findSome?_append, hstored, hput]
  rfl

end Phases

/-- The new cards, the card of the key, and how far a request is. -/
def creation (db₀ : Db ι) (t key : String) : Once (Db ι) (Rec ι) (Call ι) (Reply ι) ι where
  key db := keyCard db t key
  Made db := NewCard db₀ db
  Grows := Persist
  phase := creationPhase
  grows_refl := Persist.refl
  grows_trans _ _ _ := Persist.trans
  phase_nil := rfl
  phase_failed := rfl
  phase_cons e tr hne he := creationPhase_cons hne <| by
    cases e with
    | committed ws =>
        obtain rfl := he ws rfl
        rw [Trace.writes, List.append_nil]
    | _ => rfl

/-! ## The transaction of a new card -/

section Pending

variable {db db' db₀ : Db ι} {ws ws' : List (Write (Rec ι))} {row : CardRow ι}

/-- Writes of no key that put only cards that are there. -/
def Rewrites (db : Db ι) (ws : List (Write (Rec ι))) : Prop :=
  PutsCards ws ∧ ∀ c, .put (.card c) ∈ ws → HasCard db c.id

omit [DecidableEq ι] in
theorem Rewrites.of_aside (h : ∀ a ∈ ws, IsAside a) : Rewrites db ws :=
  ⟨.of_aside h, fun c hc => absurd rfl (not_card_of_aside (h _ hc) c)⟩

omit [DecidableEq ι] in
theorem Rewrites.append (h : Rewrites db ws) (h' : Rewrites db ws') : Rewrites db (ws ++ ws') :=
  ⟨h.1.append h'.1, fun c hc => (List.mem_append.mp hc).elim (h.2 c) (h'.2 c)⟩

theorem hasCard_rewrites {x : ι} (h : Rewrites db ws) :
    HasCard ((kanban ι).applyAll db ws) x ↔ HasCard db x := by
  rw [hasCard_applyAll h.1]
  refine ⟨?_, .inl⟩
  rintro (hx | ⟨c, hc, rfl⟩)
  · exact hx
  · exact h.2 c hc

/-- The shift of the cards of a column. -/
theorem Rewrites.shift {t : String} {K : ι} {p : ℤ → Bool} {delta : ℤ}
    {e : Effect (Rec ι) (List (CardRow ι))} (h : Rewrites db ws)
    (he : shiftCards t K p delta ((kanban ι).applyAll db ws) = some e) : Rewrites db e.writes := by
  have hput : ∀ a ∈ e.writes, ∃ c', a = .put (.card c') ∧ HasCard db c'.id := by
    refine Table.forall_writes_updateChecked he fun c hc _ c' hc' => ⟨c', rfl, ?_⟩
    obtain ⟨n, -, rfl⟩ := Option.map_eq_some_iff.mp hc'
    exact (hasCard_rewrites h).mp ⟨c, hc, rfl⟩
  refine ⟨fun a ha => ?_, fun c hc => ?_⟩
  · obtain ⟨c', rfl, -⟩ := hput a ha
    exact ⟨fun c hc => by cases hc; rfl, nofun⟩
  · obtain ⟨c', heq, hc'⟩ := hput _ hc
    cases heq
    exact hc'

/-- The writes of the transaction of a new card: cards that are there, the new one, and others. -/
structure Inserts (db : Db ι) (row : CardRow ι) (ws : List (Write (Rec ι))) : Prop where
  puts : PutsCards ws
  last : (putsBy Rec.toCard ws).getLast? = some row
  cards : ∀ c, .put (.card c) ∈ ws → HasCard db c.id ∨ c.id = row.id

omit [DecidableEq ι] in
theorem Rewrites.insert (h : Rewrites db ws) : Inserts db row (ws ++ [.put (.card row)]) where
  puts := h.1.append <| by
    intro a ha
    obtain rfl := List.mem_singleton.mp ha
    exact ⟨fun c hc => by cases hc; rfl, nofun⟩
  last := by
    rw [putsBy_append]
    exact List.getLast?_concat
  cards c hc := by
    rcases List.mem_append.mp hc with hc | hc
    · exact .inl (h.2 c hc)
    · cases List.mem_singleton.mp hc
      exact .inr rfl

omit [DecidableEq ι] in
theorem Inserts.aside (h : Inserts db row ws) (h' : ∀ a ∈ ws', IsAside a) :
    Inserts db row (ws ++ ws') where
  puts := h.puts.append (.of_aside h')
  last := by
    have hnone : putsBy Rec.toCard ws' = [] := by
      refine List.filterMap_eq_nil_iff.mpr fun a ha => ?_
      cases a with
      | del r => rfl
      | put r =>
          cases r with
          | card c => exact (h' _ ha).elim
          | _ => rfl
    rw [putsBy_append, hnone, List.append_nil]
    exact h.last
  cards c hc := (List.mem_append.mp hc).elim (h.cards c) fun hc => (h' _ hc).elim

/-- The cards after the commit. -/
theorem Inserts.hasCard {x : ι} (h : Inserts db row ws) (hgrows : Persist db db') :
    HasCard ((kanban ι).applyAll db' ws) x ↔ HasCard db' x ∨ x = row.id := by
  rw [hasCard_applyAll h.puts]
  constructor
  · rintro (hx | ⟨c, hc, rfl⟩)
    · exact .inl hx
    · exact (h.cards c hc).imp (hgrows c.id) id
  · rintro (hx | rfl)
    · exact .inl hx
    · exact .inr ⟨row, (mem_putsBy Rec.toCard_iff).mp (List.mem_of_getLast? h.last), rfl⟩

end Pending

/-! ## The request -/

section Request

variable {codec : IdCodec ι} {ctx : RequestContext} {req : CreateCardRequest} {db₀ s : Db ι}
  {t key : String} {tr : Trace (Rec ι) (Call ι) (Reply ι)} {w : World (Db ι) (Backend ι)}
  {ws : List (Write (Rec ι))} {x : ι}

/-- The look at the key. -/
theorem once_checkIdempotencyCard_bind {f : Option ι → Handler ι α}
    {Q : α → Tx (Rec ι) → Trace (Rec ι) (Call ι) (Reply ι) → World (Db ι) (Backend ι) → Prop}
    (hkey : key ≠ "") (h : Persist s w.store)
    (hk : ∀ o tr' w', (creation db₀ t key).At s (o.elim .missed .found) tr' w' →
      (creation db₀ t key).Runs (kanban ι) (f o) .idle tr' w' Q) :
    (creation db₀ t key).Runs (kanban ι) ((checkIdempotencyCard t key).bind f) .idle [] w Q := by
  unfold checkIdempotencyCard
  rw [if_neg hkey]
  refine yields_bind (yields_bind (yields_bind (Once.runs_query h (fun w₁ e h₁ he => ?_) fun _ _ =>
    yields_fail)))
  cases he
  have hfound : ((w₁.store.idempotencyKeys.filter fun r => r.tenantId = t ∧ r.key = key).map
      Rec.idempotencyKey).head?.bind foundCard = keyCard w₁.store t key := by
    unfold keyCard
    rw [if_neg hkey, List.head?_map]
    cases (w₁.store.idempotencyKeys.filter fun r => r.tenantId = t ∧ r.key = key).head? <;> rfl
  have hphase : (creation db₀ t key).phase [.committed [], .ran ((w₁.store.idempotencyKeys.filter
      fun r => r.tenantId = t ∧ r.key = key).map Rec.idempotencyKey)] =
      (keyCard w₁.store t key).elim .missed .found := by
    rw [← hfound]
    rfl
  refine ⟨.refl _, ?_, yields_pure (yields_pure ?_)⟩
  · refine Once.Move.of_eq (p := .fresh) ?_ rfl hphase
    cases hcard : keyCard w₁.store t key with
    | none => exact .miss (.refl _) hcard
    | some x => exact .find (.refl _) hcard
  · have hanswer : ((w₁.store.idempotencyKeys.filter fun r => r.tenantId = t ∧ r.key = key).head?).bind
        IdempotencyRow.responseCardId = keyCard w₁.store t key := by
      unfold keyCard
      rw [if_neg hkey]
    have hat : (creation db₀ t key).At s ((keyCard w₁.store t key).elim .missed .found) _ w₁ :=
      ⟨List.cons_ne_nil _ _, h₁, hphase⟩
    exact hanswer ▸ yields_pure (hk _ _ _ hat)

/-- The insertion of the card, and its commit. -/
theorem once_insertRow {subject : String} {board : BoardRow ι} {column : ColumnRow ι} {cardId : ι}
    {cardRef : String} {position : ℤ} (hs : Persist db₀ s)
    (h : (creation db₀ t key).At s .missed tr w) (hws : Rewrites s ws) :
    (creation db₀ t key).Runs (kanban ι) ((checkMilestone codec t board.projectId
        req.milestoneId).bind fun milestoneId => (query "failed to insert card" (insertCard
          (newCardRow ctx subject t board column req cardId cardRef position milestoneId))).bind
        fun _ => (insertBoardEvent t board.id "CardCreated" (cardCreated codec (newCardRow ctx subject
          t board column req cardId cardRef position milestoneId) req.idempotencyKey)).bind
        fun _ => (commitTx "commit failed").bind fun _ => .pure cardId) (.active ws) tr w
      fun x tx tr' w' => tx = .idle ∧ (creation db₀ t key).At s (.made x) tr' w' := by
  refine yields_strict_bind (Once.lasts_at _) (P := IsAside) strict_checkMilestone h
    fun milestoneId ws₁ tr₁ w₁ hws₁ h₁ => yields_query_bind (Once.lasts_at _) h₁ fun w₂ e he h₂ => ?_
  have hall : Rewrites s (ws ++ ws₁) := hws.append (.of_aside hws₁)
  have hnew : ¬ HasCard db₀ cardId := by
    intro hold
    have hkept : Persist w₂.store ((kanban ι).applyAll w₂.store (ws ++ ws₁)) := hall.1.persist
    obtain ⟨c, hc, hid⟩ := hkept _ (h₂.grows _ (hs _ hold))
    exact (cards_insertCard he).2 c hc hid
  have hwrites : e.writes = [.put (.card (newCardRow ctx subject t board column req cardId cardRef
      position milestoneId))] := by
    unfold insertCard at he
    split at he
    · cases he
    · exact Table.writes_insert he
  refine yields_strict_bind (Once.lasts_at _) (P := IsAside) (strict_insertBoardEvent (fun _ => trivial)
    fun _ => trivial) h₂ fun _ ws₃ tr₃ w₃ hws₃ h₃ => ?_
  have hins : Inserts s (newCardRow ctx subject t board column req cardId cardRef position milestoneId)
      (ws ++ ws₁ ++ e.writes ++ ws₃) := by
    rw [hwrites]
    exact hall.insert.aside hws₃
  refine Once.runs_commit h₃ (fun w₄ h₄ => ?_) fun _ _ => yields_fail
  have hphase := creationPhase_commit h₄.phase hins.puts hins.last
  have hgrows : Persist w₄.store ((kanban ι).applyAll w₄.store (ws ++ ws₁ ++ e.writes ++ ws₃)) :=
    hins.puts.persist
  refine ⟨hgrows, ?_, yields_pure ⟨rfl, List.cons_ne_nil _ _, h₄.grows.trans hgrows, hphase⟩⟩
  refine (Once.Move.make cardId (hins.puts.keyCard t key) fun y => ?_).of_eq rfl hphase
  have hcards := hins.hasCard (x := y) h₄.grows
  constructor
  · rintro ⟨hy, hy₀⟩
    exact (hcards.mp hy).imp (fun hy => ⟨hy, hy₀⟩) id
  · rintro (⟨hy, hy₀⟩ | rfl)
    · exact ⟨hcards.mpr (.inl hy), hy₀⟩
    · exact ⟨hcards.mpr (.inr rfl), hnew⟩

/-- The transaction of a new card. -/
theorem once_insertNewCard {subject : String} {board : BoardRow ι} {column : ColumnRow ι}
    (h : (creation db₀ t key).At db₀ .missed tr w) :
    (creation db₀ t key).Runs (kanban ι) (insertNewCard codec ctx subject t board column req) .idle tr w
      fun x tx tr' w' => tx = .idle ∧ (creation db₀ t key).At db₀ (.made x) tr' w' := by
  unfold insertNewCard
  refine yields_beginTx_bind (Once.lasts_at _) h fun w₁ h₁ => ?_
  refine yields_strict_bind (Once.lasts_at _) (P := IsAside) (strict_allocateCardRef fun _ => trivial) h₁
    fun cardRef ws₂ tr₂ w₂ hws₂ h₂ => ?_
  refine yields_strict_bind (Once.lasts_at _) (P := IsAside) (p := newId) (fun _ => trivial) h₂
    fun cardId ws₃ tr₃ w₃ hws₃ h₃ => ?_
  rw [List.nil_append]
  have hws : ∀ {db : Db ι}, Rewrites db (ws₂ ++ ws₃) := .of_aside (List.forall_mem_append.mpr ⟨hws₂, hws₃⟩)
  unfold insertPosition
  by_cases hzero : req.position = 0
  · rw [if_pos hzero]
    refine yields_bind (yields_bind ((Once.lasts_at _).query_active h₃ (fun w₄ e he h₄ => ?_)
      fun w₄ h₄ => ?_))
    · rw [silent_nextPosition _ _ he, List.append_nil]
      exact yields_pure (yields_pure (once_insertRow (.refl _) h₄ hws))
    · -- the transaction is aborted, so that the insertion fails
      refine yields_pure (yields_pure (yields_bind (((Once.lasts_at _).of_only_aborted
        Tame.checkMilestone h₄).mono ?_)))
      rintro milestoneId tx tr' w' ⟨rfl, h'⟩
      exact yields_bind ((Once.lasts_at _).query_aborted h' fun _ _ => yields_fail)
  · rw [if_neg hzero]
    refine yields_bind (yields_query_bind (Once.lasts_at _) h₃ fun w₄ e he h₄ => yields_pure ?_)
    -- the cards that are shifted are there now, and none of them goes before the commit
    refine (once_insertRow h₄.grows h₄.here (hws.append (hws.shift he))).mono ?_
    rintro x tx tr' w' ⟨htx, h'⟩
    exact ⟨htx, h'.begun, h₄.grows.trans h'.grows, h'.phase⟩

/-- The key is stored, unless the statement fails or the key is taken. -/
theorem once_storeIdempotencyCard (hkey : key ≠ "")
    (h : (creation db₀ t key).At s (.made x) tr w) :
    (creation db₀ t key).Runs (kanban ι) (storeIdempotencyCard t key x) .idle tr w fun _ tx tr' w' =>
      tx = .idle ∧ ∃ p, (p = .made x ∨ p = .stored x) ∧ (creation db₀ t key).At s p tr' w' := by
  unfold storeIdempotencyCard storeIdempotencyId
  rw [if_neg hkey]
  have hat : ∀ {w₁ : World (Db ι) (Backend ι)}, Persist s w₁.store →
      (creation db₀ t key).At s (.made x) tr w₁ := fun h₁ => ⟨h.begun, h₁, h.phase⟩
  refine yields_bind (Once.runs_query h.grows (fun w₁ e h₁ he => ?_) fun w₁ h₁ =>
    yields_pure (yields_pure ⟨rfl, _, .inl rfl, (Once.lasts_at _).failed (hat h₁)⟩))
  have hrows := stored_idempotencyKeys.rows_insertIgnore he
  cases he
  dsimp only at hrows ⊢
  split at hrows
  · rename_i hany
    rw [if_pos hany]
    obtain ⟨hg, hstill⟩ := (Once.lasts_at (creation db₀ t key)).read [] (hat h₁)
    exact ⟨.refl _, hg.2, yields_pure (yields_pure ⟨rfl, _, .inl rfl, hstill⟩)⟩
  · rename_i hany
    rw [if_neg hany]
    have hran : creationPhase (.ran [] :: tr) = .made x :=
      (creationPhase_cons h.begun rfl).trans h.phase
    have hphase : creationPhase (.committed [.put (.idempotencyKey ⟨t, key, some x, none⟩)] ::
        .ran [] :: tr) = .stored x := creationPhase_store hran rfl
    have hnone : (w₁.store.idempotencyKeys.filter fun r => r.tenantId = t ∧ r.key = key) = [] := by
      refine List.filter_eq_nil_iff.mpr fun r hr hrkey => hany (List.any_eq_true.mpr ⟨r, hr, ?_⟩)
      obtain ⟨rfl, rfl⟩ : r.tenantId = t ∧ r.key = key := of_decide_eq_true hrkey
      exact decide_eq_true ⟨rfl, rfl⟩
    have hrows : ((kanban ι).applyAll w₁.store
        [.put (.idempotencyKey ⟨t, key, some x, none⟩)]).idempotencyKeys =
        w₁.store.idempotencyKeys ++ [⟨t, key, some x, none⟩] := hrows
    have hcard : keyCard ((kanban ι).applyAll w₁.store
        [.put (.idempotencyKey ⟨t, key, some x, none⟩)]) t key = some x := by
      unfold keyCard
      rw [if_neg hkey, hrows, List.filter_append, hnone]
      simp
    have hgrows : Persist w₁.store ((kanban ι).applyAll w₁.store
        [.put (.idempotencyKey ⟨t, key, some x, none⟩)]) := fun _ hx => hx
    refine ⟨hgrows, ?_, yields_pure (yields_pure
      ⟨rfl, _, .inr rfl, List.cons_ne_nil _ _, h₁.trans hgrows, hphase⟩)⟩
    have hmove : (creation db₀ t key).Move (.made x) w₁.store (.stored x) _ :=
      .store hcard fun _ => Iff.rfl
    exact hmove.of_eq h.phase hphase

/-- How a request goes on: the card that it returns is the one that it has found or made. -/
theorem once_createCard (hkey : key ≠ "") (ht : ctx.auth.bind AuthContext.tenantId = some t)
    (hreq : req.idempotencyKey = key) (h : Persist db₀ w.store) :
    (creation db₀ t key).Runs (kanban ι) (createCard codec ctx req) .idle [] w fun card _ tr' _ =>
      ∃ x, card.id = codec.toString x ∧ (creationPhase tr' = .found x ∨ creationPhase tr' = .made x ∨
        creationPhase tr' = .stored x) := by
  refine yields_orError_bind fun objectId _ => yields_orError_bind fun boardId _ =>
    yields_orError_bind fun subject _ => yields_orError_bind fun t' ht' => yields_ensure_bind fun _ => ?_
  obtain rfl : t' = t := Option.some.inj (ht'.symm.trans ht)
  rw [hreq]
  refine once_checkIdempotencyCard_bind hkey h fun found tr₁ w₁ h₁ => ?_
  cases found with
  | some x =>
      exact (yields_fetchFullCard (Once.lasts_at _) h₁).mono fun card _ tr' w' ⟨hid, _, h'⟩ =>
        ⟨x, hid, .inl h'.phase⟩
  | none =>
      refine yields_mute_bind (Once.lasts_at _) (.fetchOr silent_select) h₁ fun board tr₂ w₂ h₂ =>
        yields_orError_bind fun colId _ =>
        yields_mute_bind (Once.lasts_at _) (.fetchOr silent_select) h₂ fun column tr₃ w₃ h₃ =>
        yields_bind ((once_insertNewCard h₃).mono ?_)
      rintro x tx tr₄ w₄ ⟨rfl, h₄⟩
      refine yields_mute_bind (Once.lasts_at _) .tenantClientFor h₄ fun permission tr₅ w₅ h₅ =>
        yields_mute_bind (Once.lasts_at _) .grantWithRetry h₅ fun _ tr₆ w₆ h₆ => ?_
      rw [hreq]
      refine yields_bind ((once_storeIdempotencyCard hkey h₆).mono ?_)
      rintro - tx tr₇ w₇ ⟨rfl, p, hp, h₇⟩
      refine (yields_fetchFullCard (Once.lasts_at _) h₇).mono fun card _ tr' w' ⟨hid, _, h'⟩ => ?_
      have hphase : creationPhase tr' = p := h'.phase
      exact ⟨x, hid, .inr (hp.imp hphase.trans hphase.trans)⟩

end Request

/-! ## Runs -/

/-- **One card for one key.**  Any number of calls create cards with one key in a tenant, in any order
of their steps; some are lost on the way.  If no call commits its card or stores the key while another
one that has found the key free is under way, and none that has committed its card returns or is lost
before it has stored the key, then at most one card is created, and every call that succeeds returns
it. -/
theorem created_once {codec : IdCodec ι} {t key : String} {w : World (Db ι) (Backend ι)}
    {turns : List (Turn (RequestContext × CreateCardRequest) (Move ι))}
    {P : Pool (RequestContext × CreateCardRequest) (Db ι) (Rec ι) (Call ι) (Reply ι) (Backend ι)
      ConnectError Card}
    (hkey : key ≠ "") (hfree : keyCard w.store t key = none)
    (hcalls : ∀ q, .arrive q ∈ turns →
      q.1.auth.bind AuthContext.tenantId = some t ∧ q.2.idempotencyKey = key)
    (hrun : Machine.ExecWhile (Pool.step (kanban ι) fun q => createCard codec q.1 q.2)
      ((creation w.store t key).Single (kanban ι)) (Pool.idle w) turns P) :
    (∀ x y, NewCard w.store P.world.store x → NewCard w.store P.world.store y → x = y) ∧
    ∀ c ∈ P.calls, ∀ card, c.2.prog.result = some (.ok card) →
      ∃ x, card.id = codec.toString x ∧ NewCard w.store P.world.store x := by
  obtain ⟨hsettled, hreturned⟩ := Once.settled
    (fun P q hq w' hw => once_createCard hkey (hcalls q hq).1 (hcalls q hq).2 hw)
    (hrun.and_mem fun _ ha => ha) hfree fun x hx => hx.2 hx.1
  refine ⟨fun x y hx hy => hsettled.unique hx hy, fun c hc card hcard => ?_⟩
  obtain ⟨-, -, x, hid, hphase⟩ := hreturned c hc card hcard
  have hidle : ¬ ((creation w.store t key).phase c.2.trace).idle := by
    intro hidle
    change (creationPhase c.2.trace).idle = true at hidle
    rcases hphase with hp | hp | hp <;> rw [hp] at hidle <;> cases hidle
  obtain ⟨y, hy⟩ := hsettled.returned hc (by rw [hcard]; rfl) hidle
  have hxy : x = y := by
    change creationPhase c.2.trace = _ ∨ creationPhase c.2.trace = _ at hy
    rcases hphase with hp | hp | hp <;> rcases hy with hy | hy <;> rw [hp] at hy <;> cases hy <;> rfl
  exact ⟨x, hid, hxy ▸ hsettled.made hc hy⟩

/-- A request with a key. -/
def keyedRequest : RequestContext × CreateCardRequest :=
  (annOn "b", ⟨"k", "Ship", "", 0, none, "", 0, "key", 0⟩)

/-- The steps of a request that finds the key free, up to its commit, and those after it. -/
def makesCard (cardId event : String) : List (Act (Move String)) :=
  [.ok, .ok, .ok, .ok, .ok, .ok, .move (.fresh cardId), .ok, .ok, .ok, .move (.fresh event), .ok, .ok,
    .ok]

def storesCard : List (Act (Move String)) := [.move .done, .move .done, .ok] ++ fullCardReads

/-- A request, and another one when it has returned. -/
theorem created_once_retried :
    ∃ P, Machine.ExecWhile (Pool.step (kanban String) fun q => createCard textIds q.1 q.2)
        ((creation twoColumns.store "t" "key").Single (kanban String)) (Pool.idle twoColumns)
        (.arrive keyedRequest :: (makesCard "c" "e" ++ storesCard).map (.act 0) ++
          .arrive keyedRequest :: (.ok :: fullCardReads).map (.act 1)) P ∧
      (P.calls.map fun c => c.2.prog.result.map Except.isOk) = [some true, some true] ∧
      ∀ x y, NewCard twoColumns.store P.world.store x → NewCard twoColumns.store P.world.store y →
        x = y := by
  obtain ⟨P, hP, hok⟩ : ∃ P, Machine.run (Machine.guarded (Pool.step (kanban String) fun q =>
      createCard textIds q.1 q.2) ((creation twoColumns.store "t" "key").Single (kanban String)))
        (Pool.idle twoColumns) (.arrive keyedRequest :: (makesCard "c" "e" ++ storesCard).map (.act 0) ++
          .arrive keyedRequest :: (.ok :: fullCardReads).map (.act 1)) = some P ∧
      (P.calls.map fun c => c.2.prog.result.map Except.isOk) = [some true, some true] := ⟨_, rfl, rfl⟩
  have hrun := Machine.execWhile_of_run hP
  refine ⟨P, hrun, hok, (created_once (by decide) (by decide) (fun q hq => ?_) hrun).1⟩
  obtain rfl : q = keyedRequest := by simpa using hq
  exact ⟨rfl, rfl⟩

/-- Two requests that both find the key free create two cards. -/
theorem created_twice :
    ∃ P, Machine.Exec (Pool.step (kanban String) fun q => createCard textIds q.1 q.2)
        (Pool.idle twoColumns) ([.arrive keyedRequest, .arrive keyedRequest, .act 0 .ok, .act 1 .ok] ++
          ((makesCard "c" "e").tail ++ storesCard).map (.act 0) ++
          ((makesCard "d" "f").tail ++ storesCard).map (.act 1)) P ∧
      (P.calls.map fun c => c.2.prog.result.map Except.isOk) = [some true, some true] ∧
      P.world.store.cards.map CardRow.id = ["c", "d"] := by
  obtain ⟨P, hP, hok⟩ : ∃ P, Machine.run (Pool.step (kanban String) fun q =>
      createCard textIds q.1 q.2) (Pool.idle twoColumns) ([.arrive keyedRequest, .arrive keyedRequest,
        .act 0 .ok, .act 1 .ok] ++ ((makesCard "c" "e").tail ++ storesCard).map (.act 0) ++
          ((makesCard "d" "f").tail ++ storesCard).map (.act 1)) = some P ∧
      (P.calls.map fun c => c.2.prog.result.map Except.isOk) = [some true, some true] ∧
      P.world.store.cards.map CardRow.id = ["c", "d"] := ⟨_, rfl, rfl, by decide⟩
  exact ⟨P, Machine.exec_of_run hP, hok⟩

end Kanban.Rpc
