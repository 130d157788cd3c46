import Kanban.Lib.Paging
import Kanban.Lib.Serial
import Kanban.Rpc.CardQueries
import Kanban.Rpc.OrderedRuns
import Kanban.Rpc.Surely

/-!
# Listings in pages

`ListCardsByBoard` answers in pages, and the id of the last card of a page is the cursor of the next.
A page shows the cards whose keys come after those of the card that the cursor names, as they are when
the page is asked for; the keys are those that the cards are sorted by.  So while the board does not
change, the pages are a partition of it.

## Main definitions

* `IdOrder` — the database orders the ids.
* `Answers` — what a handler can answer to a cursor over a store.
* `boardListing`, `cardsAfter` — the cards in the order of the listing, and those after a cursor.
-/

namespace Kanban.Rpc

open Program Kanban.Store Kanban.Auth Paging
open Kanban.Services (AuthContext ConnectError IdCodec)

variable {ι α R : Type} [DecidableEq ι]

/-- The database orders the ids. -/
structure IdOrder (before : ι → ι → Bool) : Prop where
  irrefl : ∀ i, before i i = false
  trans : ∀ i j k, before i j = true → before j k = true → before i k = true
  total : ∀ i j, i ≠ j → before i j = true ∨ before j i = true

omit [DecidableEq ι] in
theorem IdOrder.asymm {before : ι → ι → Bool} (h : IdOrder before) {i j : ι} (hij : before i j = true) :
    before j i = false := by
  rw [Bool.eq_false_iff]
  intro hji
  have := h.trans i j i hij hji
  rw [h.irrefl] at this
  cases this

/-- What a handler can answer to a cursor when it runs over the store. -/
def Answers (handler : String → Handler ι R) (db : Db ι) (cursor : String) (r : R) : Prop :=
  ∃ w acts th w', w.store = db ∧
    Machine.Exec (Thread.step (kanban ι)) (Thread.start (handler cursor), w) acts (th, w') ∧
    th.prog.result = some (.ok r)

section Answers

variable {handler : String → Handler ι R} {db : Db ι} {cursor : String} {r : R}

theorem Answers.post {E : Db ι → Prop} {Q : R → Prop} (h : Answers handler db cursor r)
    (hp : Solo (kanban ι) E (handler cursor) .idle db fun r _ _ => Q r) : Q r := by
  obtain ⟨w, acts, th, w', rfl, hrun, hr⟩ := h
  exact (hp.exec hrun).2 r hr

theorem exists_answers {Q : R → Tx (Rec ι) → World (Db ι) (Backend ι) → Prop}
    (h : Sure (kanban ι) (handler cursor) .idle ⟨db, Backend.empty⟩ Q) :
    ∃ r, Answers handler db cursor r := by
  obtain ⟨acts, t, w', r, -, hrun, hr, -⟩ := h.completes []
  exact ⟨r, _, acts, t, w', rfl, hrun, by rw [hr]; rfl⟩

end Answers

/-! ## Reading alone -/

/-- The optional id of a request. -/
def OptionalId (codec : IdCodec ι) (s : String) (o : Option ι) : Prop :=
  s = "" ∧ o = none ∨ s ≠ "" ∧ o = codec.parse s ∧ o.isSome

section Reading

variable {codec : IdCodec ι} {t : String} {db v : Db ι} {E : Db ι → Prop}
  {Q : α → Tx (Rec ι) → Db ι → Prop} {w : World (Db ι) (Backend ι)}
  {Q' : α → Tx (Rec ι) → World (Db ι) (Backend ι) → Prop}

theorem solo_parseOptional_bind {msg s : String} {f : Option ι → Handler ι α}
    (h : ∀ o, OptionalId codec s o → Solo (kanban ι) E (f o) .idle v Q) :
    Solo (kanban ι) E ((parseOptional codec msg s).bind f) .idle v Q := by
  unfold parseOptional
  split
  · exact h none (.inl ⟨‹_›, rfl⟩)
  · refine solo_bind (solo_orError_bind fun i hi => solo_pure (h (some i) (.inr ⟨‹_›, hi.symm, rfl⟩)))

/-- A statement outside of every transaction that only reads. -/
theorem solo_query_read_bind {β : Type} {msg : String} {st : Stmt (Db ι) (Rec ι) β}
    {f : β → Handler ι α} (h : ∀ e, st v = some e → e.writes = [] ∧
      Solo (kanban ι) E (f e.answer) .idle v Q) :
    Solo (kanban ι) E ((query msg st).bind f) .idle v Q := by
  refine solo_bind (solo_stmt_idle (fun e he => ?_) solo_fail)
  obtain ⟨hwrites, hf⟩ := h e he
  rw [hwrites]
  exact ⟨.inl rfl, solo_pure hf⟩

theorem solo_hydrateCard {row : CardRow ι} :
    Solo (kanban ι) E (hydrateCard codec t row) .idle v fun card tx v' =>
      tx = .idle ∧ v' = v ∧ card.id = codec.toString row.id ∧
        card.boardId = codec.toString row.boardId := by
  refine solo_mute_bind ?_ fun _ => solo_mute_bind ?_ fun _ => solo_mute_bind ?_ fun _ =>
    solo_mute_bind ?_ fun _ => solo_mute_bind ?_ fun _ => solo_mute_bind ?_ fun _ =>
    solo_mute_bind ?_ fun _ => solo_pure ⟨rfl, rfl, rfl, rfl⟩
  all_goals exact .bind (.fetchAll fun db e he => by cases he; rfl) fun _ => .pure _

theorem solo_hydrateCards {rows : List (CardRow ι)} :
    Solo (kanban ι) E (hydrateCards codec t rows) .idle v fun cards tx v' =>
      tx = .idle ∧ v' = v ∧ (cards.map Card.id = rows.map fun c => codec.toString c.id) ∧
        cards.map Card.boardId = rows.map fun c => codec.toString c.boardId := by
  induction rows with
  | nil => exact solo_pure ⟨rfl, rfl, rfl, rfl⟩
  | cons row rows ih =>
      refine solo_bind (solo_hydrateCard.mono ?_)
      rintro card tx v' ⟨rfl, rfl, hcard, hboard⟩
      refine solo_bind (ih.mono ?_)
      rintro cards tx v' ⟨rfl, rfl, hcards, hboards⟩
      refine solo_pure ⟨rfl, rfl, ?_, ?_⟩
      · rw [List.map_cons, List.map_cons, hcard, hcards]
      · rw [List.map_cons, List.map_cons, hboard, hboards]

theorem sure_plain_bind {β : Type} {p : Handler ι β} {f : β → Handler ι α} (hp : p.Plain)
    (h : ∀ b, Sure (kanban ι) (f b) .idle w Q') : Sure (kanban ι) (p.bind f) .idle w Q' :=
  sure_bind ((Sure.of_plain hp).mono fun b tx w' ⟨htx, hw'⟩ => by
    subst htx hw'
    exact h b)

omit [DecidableEq ι] in
theorem sure_checkIdempotencyCard_bind {M : Semantics (Db ι) (Rec ι) (Call ι) (Reply ι) (Backend ι)
    (Move ι)} {key : String} {f : Option ι → Handler ι α}
    (h : Sure M (f (keyCard w.store t key)) .idle w Q') :
    Sure M ((checkIdempotencyCard t key).bind f) .idle w Q' := by
  unfold checkIdempotencyCard
  unfold keyCard at h
  split
  · rw [if_pos ‹_›] at h
    exact h
  · rw [if_neg ‹_›] at h
    exact sure_bind (sure_bind (sure_query_read_bind rfl rfl h))

omit [DecidableEq ι] in
theorem plain_fetchAll {τ : Type} {st : Stmt (Db ι) (Rec ι) (List τ)}
    (hst : ∀ v, ∃ e, st v = some e ∧ e.writes = []) : (fetchAll st).Plain := ⟨hst, fun _ => trivial⟩

/-- The relationships of a card can always be loaded. -/
theorem sure_hydrateCard_bind {row : CardRow ι} {f : Card → Handler ι α}
    (h : ∀ card, card.boardId = codec.toString row.boardId → Sure (kanban ι) (f card) .idle w Q') :
    Sure (kanban ι) ((hydrateCard codec t row).bind f) .idle w Q' := by
  refine sure_bind (sure_plain_bind ?_ fun _ => sure_plain_bind ?_ fun _ => sure_plain_bind ?_ fun _ =>
    sure_plain_bind ?_ fun _ => sure_plain_bind ?_ fun _ => sure_plain_bind ?_ fun _ =>
    sure_plain_bind ?_ fun _ => h _ rfl)
  all_goals exact .bind (plain_fetchAll fun v => ⟨_, rfl, rfl⟩) fun _ => trivial

theorem plain_hydrateCard {row : CardRow ι} : (hydrateCard codec t row).Plain := by
  refine .bind ?_ fun _ => .bind ?_ fun _ => .bind ?_ fun _ => .bind ?_ fun _ => .bind ?_ fun _ =>
    .bind ?_ fun _ => .bind ?_ fun _ => trivial
  all_goals exact .bind (plain_fetchAll fun v => ⟨_, rfl, rfl⟩) fun _ => trivial

theorem plain_hydrateCards {rows : List (CardRow ι)} : (hydrateCards codec t rows).Plain := by
  induction rows with
  | nil => trivial
  | cons row rows ih => exact .bind plain_hydrateCard fun _ => .bind ih fun _ => trivial

theorem sure_parseOptional_bind {msg s : String} {f : Option ι → Handler ι α} {o : Option ι}
    (ho : OptionalId codec s o)
    (h : Sure (kanban ι) (f o) .idle w Q') :
    Sure (kanban ι) ((parseOptional codec msg s).bind f) .idle w Q' := by
  unfold parseOptional
  rcases ho with ⟨hs, rfl⟩ | ⟨hs, rfl, hsome⟩
  · rw [if_pos hs]
    exact h
  · rw [if_neg hs]
    obtain ⟨i, hi⟩ := Option.isSome_iff_exists.mp hsome
    rw [hi] at h
    exact sure_bind (sure_orError_bind hi h)

end Reading

/-! ## A page -/

section Page

variable {τ : Type} {codec : IdCodec ι} {limit : ℕ} {rows : List τ} {f : τ → ι}

omit [DecidableEq ι] in
/-- One row more than fits tells whether there are more. -/
theorem pageOf_take : pageOf codec f limit (rows.take (limit + 1)) = (rows.take limit,
    if limit < rows.length then ((rows.take limit).getLast?.map fun r => codec.toString (f r)).getD ""
    else "") := by
  have htake : (rows.take (limit + 1)).take limit = rows.take limit := by
    rw [List.take_take, min_eq_left (Nat.le_succ limit)]
  have hcount : limit < (rows.take (limit + 1)).length ↔ limit < rows.length := by
    rw [List.length_take]
    omega
  unfold pageOf
  rw [htake]
  simp only [hcount]

end Page

/-! ## ListCardsByBoard -/

section Cards

variable {codec : IdCodec ι} {before : ι → ι → Bool} {ctx : RequestContext} {t s : String} {b : ι}
  {column after : Option ι} {requestLimit : ℤ} {db : Db ι}

/-- The cards of the board, in the column if there is a filter. -/
def boardCards (db : Db ι) (tenantId : String) (boardId : ι) (column : Option ι) : List (CardRow ι) :=
  db.cards.filter fun c => c.boardId = boardId ∧ c.tenantId = tenantId ∧ ∀ col ∈ column, c.columnId = col

/-- The cards of the board in the order of the listing. -/
def boardListing (before : ι → ι → Bool) (db : Db ι) (tenantId : String) (boardId : ι)
    (column : Option ι) : List (CardRow ι) :=
  (boardCards db tenantId boardId column).insertionSort (keysetOrder before)

/-- The cards that a request with this cursor asks for. -/
def cardsAfter (before : ι → ι → Bool) (db : Db ι) (tenantId : String) (boardId : ι)
    (column after : Option ι) : List (CardRow ι) :=
  match after with
  | none => boardListing before db tenantId boardId column
  | some id => (boardListing before db tenantId boardId column).filter fun c =>
      (db.cards.find? fun c' => c'.id = id ∧ c'.tenantId = tenantId).any (keysetBefore before · c)

theorem keyset_irrefl (h : IdOrder before) (c : CardRow ι) :
    keysetBefore before c c = false := by
  simp [keysetBefore, h.irrefl]

theorem keyset_trans (h : IdOrder before) (c c' c'' : CardRow ι)
    (h₁ : keysetBefore before c c' = true) (h₂ : keysetBefore before c' c'' = true) :
    keysetBefore before c c'' = true := by
  simp only [keysetBefore, Bool.or_eq_true, decide_eq_true_eq] at *
  rcases h₁ with h₁ | ⟨heq₁, h₁⟩ <;> rcases h₂ with h₂ | ⟨heq₂, h₂⟩
  · exact .inl (h.trans _ _ _ h₁ h₂)
  · exact .inl (heq₂ ▸ h₁)
  · exact .inl (heq₁ ▸ h₂)
  · refine .inr ⟨heq₁.trans heq₂, ?_⟩
    rcases h₁ with h₁ | ⟨hp₁, h₁⟩ <;> rcases h₂ with h₂ | ⟨hp₂, h₂⟩
    · exact .inl (h₁.trans h₂)
    · exact .inl (hp₂ ▸ h₁)
    · exact .inl (hp₁ ▸ h₂)
    · exact .inr ⟨hp₁.trans hp₂, h.trans _ _ _ h₁ h₂⟩

/-- Two cards that stand in neither order have one id. -/
theorem keyset_total (h : IdOrder before) {c c' : CardRow ι} (hne : c.id ≠ c'.id) :
    keysetBefore before c c' = true ∨ keysetBefore before c' c = true := by
  simp only [keysetBefore, Bool.or_eq_true, decide_eq_true_eq]
  by_cases hcol : c.columnId = c'.columnId
  · rcases lt_trichotomy c.position c'.position with hp | hp | hp
    · exact .inl (.inr ⟨hcol, .inl hp⟩)
    · rcases h.total _ _ hne with hid | hid
      · exact .inl (.inr ⟨hcol, .inr ⟨hp, hid⟩⟩)
      · exact .inr (.inr ⟨hcol.symm, .inr ⟨hp.symm, hid⟩⟩)
    · exact .inr (.inr ⟨hcol.symm, .inl hp⟩)
  · exact (h.total _ _ hcol).imp .inl .inl

theorem keyset_asymm (h : IdOrder before) (c c' : CardRow ι) (hc : keysetBefore before c c' = true) :
    keysetBefore before c' c = false := by
  rw [Bool.eq_false_iff]
  intro hc'
  have := keyset_trans h _ _ _ hc hc'
  rw [keyset_irrefl h] at this
  cases this

/-- The keys of two cards are one key. -/
theorem keyset_eq (h : IdOrder before) {c c' : CardRow ι} (h₁ : keysetBefore before c c' = false)
    (h₂ : keysetBefore before c' c = false) :
    c.columnId = c'.columnId ∧ c.position = c'.position ∧ c.id = c'.id := by
  have hid : c.id = c'.id := by
    by_contra hne
    rcases keyset_total h hne with hc | hc
    · rw [h₁] at hc
      cases hc
    · rw [h₂] at hc
      cases hc
  simp only [keysetBefore, Bool.or_eq_false_iff, decide_eq_false_iff_not] at h₁ h₂
  have hcol : c.columnId = c'.columnId := by
    by_contra hne
    rcases h.total _ _ hne with hc | hc
    · rw [h₁.1] at hc
      cases hc
    · rw [h₂.1] at hc
      cases hc
  refine ⟨hcol, ?_, hid⟩
  rcases lt_trichotomy c.position c'.position with hp | hp | hp
  · exact absurd ⟨hcol, .inl hp⟩ h₁.2
  · exact hp
  · exact absurd ⟨hcol.symm, .inl hp⟩ h₂.2

theorem keysetOrder_trans (h : IdOrder before) (c c' c'' : CardRow ι)
    (h₁ : keysetOrder before c c') (h₂ : keysetOrder before c' c'') : keysetOrder before c c'' := by
  unfold keysetOrder at *
  rw [Bool.eq_false_iff]
  intro hlt
  by_cases hc : keysetBefore before c c' = true
  · have := keyset_trans h _ _ _ hlt hc
    rw [h₂] at this
    cases this
  · obtain ⟨hcol, hpos, hid⟩ := keyset_eq h (by simpa using hc) h₁
    simp only [keysetBefore, hcol, hpos, hid] at hlt h₂
    rw [h₂] at hlt
    cases hlt

theorem keysetOrder_total (h : IdOrder before) (c c' : CardRow ι) :
    keysetOrder before c c' ∨ keysetOrder before c' c := by
  unfold keysetOrder
  by_cases hc : keysetBefore before c' c = true
  · exact .inr (keyset_asymm h _ _ hc)
  · exact .inl (by simpa using hc)

theorem mem_boardListing {c : CardRow ι} :
    c ∈ boardListing before db t b column ↔ c ∈ boardCards db t b column := List.mem_insertionSort _

/-- **The order of the listing is strict**: no two cards have one key. -/
theorem boardListing_sorted (h : IdOrder before) (hdb : Keyed db) :
    (boardListing before db t b column).Pairwise fun c c' => keysetBefore before c c' = true := by
  have : IsTrans (CardRow ι) (keysetOrder before) := ⟨keysetOrder_trans h⟩
  have : Std.Total (keysetOrder (ι := ι) before) := ⟨keysetOrder_total h⟩
  have hperm := List.perm_insertionSort (keysetOrder before) (boardCards db t b column)
  have hnodup : ((boardListing before db t b column).map CardRow.id).Nodup :=
    (hperm.map CardRow.id).nodup_iff.mpr (List.Nodup.sublist (List.filter_sublist.map _) hdb)
  refine ((List.pairwise_insertionSort (keysetOrder before) _).and (List.pairwise_map.mp hnodup)).imp
    fun {c c'} ⟨hle, hne⟩ => ?_
  rcases keyset_total h hne with hc | hc
  · exact hc
  · rw [show keysetBefore before c' c = false from hle] at hc
    cases hc

theorem Keyed.find? (hdb : Keyed db) {x : CardRow ι} (hx : x ∈ db.cards) (ht : x.tenantId = t) :
    (db.cards.find? fun c => c.id = x.id ∧ c.tenantId = t) = some x := by
  cases hf : db.cards.find? fun c => c.id = x.id ∧ c.tenantId = t with
  | none => simpa [ht] using List.find?_eq_none.mp hf x hx
  | some c =>
      obtain ⟨hid, -⟩ : c.id = x.id ∧ c.tenantId = t := by simpa using List.find?_some hf
      rw [hdb.eq_of_mem (List.mem_of_find?_eq_some hf) hx hid]

/-- After a card of the listing come the cards with later keys. -/
theorem cardsAfter_some (hdb : Keyed db) {x : CardRow ι}
    (hx : x ∈ boardListing before db t b column) : cardsAfter before db t b column (some x.id) =
      (boardListing before db t b column).filter (keysetBefore before x) := by
  obtain ⟨hmem, hp⟩ := List.mem_filter.mp (mem_boardListing.mp hx)
  obtain ⟨-, htenant, -⟩ : x.boardId = b ∧ x.tenantId = t ∧ ∀ col ∈ column, x.columnId = col := by
    simpa using hp
  unfold cardsAfter
  simp only [hdb.find? hmem htenant, Option.any_some]

/-- The statement reads the first of the cards that are asked for. -/
theorem selectCardPage_answer (h : IdOrder before) (t : String) (b : ι) (column after : Option ι) (n : ℕ)
    (db : Db ι) : ∃ seen,
    selectCardPage before t b column after n db =
      some ⟨(cardsAfter before db t b column after).take n, seen, []⟩ := by
  cases after with
  | none =>
      refine ⟨(boardCards db t b column).map .card, ?_⟩
      simp [selectCardPage, cardsAfter, boardListing, boardCards]
  | some id =>
      -- what is filtered before the sort might as well be filtered after it
      refine ⟨((boardCards db t b column).filter fun c => (db.cards.find? fun c' =>
        c'.id = id ∧ c'.tenantId = t).any (keysetBefore before · c)).map .card, ?_⟩
      simp only [selectCardPage, cardsAfter, boardListing, boardCards,
        filter_insertionSort (keysetOrder_trans h) (keysetOrder_total h), List.filter_filter,
        Bool.decide_and, Bool.decide_eq_true, Bool.and_comm, Bool.and_left_comm]

/-- A request for the cards of the board. -/
structure BoardRequest (codec : IdCodec ι) (ctx : RequestContext) (columnId : String) (t : String)
    (b : ι) (column : Option ι) : Prop where
  tenant : ctx.auth.bind AuthContext.tenantId = some t
  board : ctx.checked.bind codec.parse = some b
  column : OptionalId codec columnId column

omit [DecidableEq ι] in
theorem OptionalId.eq {o o' : Option ι} (h : OptionalId codec s o) (h' : OptionalId codec s o') :
    o = o' := by
  rcases h with ⟨hs, rfl⟩ | ⟨hs, rfl, -⟩ <;> rcases h' with ⟨hs', rfl⟩ | ⟨hs', rfl, -⟩
  · rfl
  · exact absurd hs hs'
  · exact absurd hs' hs
  · rfl

/-- What `ListCardsByBoard` answers. -/
theorem solo_listCardsByBoard {E : Db ι → Prop} {columnId cursor : String} (h : IdOrder before)
    (hreq : BoardRequest codec ctx columnId t b column) :
    Solo (kanban ι) E (listCardsByBoard codec before ctx ⟨columnId, cursor, requestLimit⟩) .idle db
      fun r _ _ => ∃ after, OptionalId codec cursor after ∧
        Serves (fun c : CardRow ι => codec.toString c.id) (pageLimit requestLimit)
          (fun r => r.cards.map Card.id) ListCardsByBoardResponse.nextCursor
          (cardsAfter before db t b column after) r := by
  refine solo_orError_bind fun s hs => solo_orError_bind fun b' hb => solo_orError_bind fun t' ht => ?_
  obtain rfl : b = b' := by simpa [hs, hb] using hreq.board.symm
  obtain rfl : t = t' := Option.some.inj (hreq.tenant.symm.trans ht)
  refine solo_parseOptional_bind fun column' hcolumn => solo_parseOptional_bind fun after hafter => ?_
  obtain rfl := hcolumn.eq hreq.column
  refine solo_query_read_bind fun e he => ?_
  obtain ⟨seen, hpage⟩ := selectCardPage_answer h t b _ after (pageLimit requestLimit + 1) db
  obtain rfl := Option.some.inj (hpage.symm.trans he)
  refine ⟨rfl, ?_⟩
  simp only [pageOf_take]
  refine solo_bind (solo_hydrateCards.mono ?_)
  rintro cards tx v ⟨rfl, rfl, hcards, -⟩
  exact solo_pure ⟨after, hafter, hcards, rfl⟩

omit [DecidableEq ι] in
theorem OptionalId.of_toString {i : ι} {o : Option ι} (hne : codec.toString i ≠ "")
    (h : OptionalId codec (codec.toString i) o) : o = some i := by
  rcases h with ⟨hs, -⟩ | ⟨-, rfl, -⟩
  · exact absurd hs hne
  · exact codec.parse_toString i

omit [DecidableEq ι] in
theorem optionalId_toString {i : ι} (hne : codec.toString i ≠ "") :
    OptionalId codec (codec.toString i) (some i) :=
  .inr ⟨hne, (codec.parse_toString i).symm, rfl⟩

/-- `ListCardsByBoard` over a store, with the cursor open. -/
def boardPage (codec : IdCodec ι) (before : ι → ι → Bool) (ctx : RequestContext) (columnId : String)
    (requestLimit : ℤ) (cursor : String) : Handler ι ListCardsByBoardResponse :=
  listCardsByBoard codec before ctx ⟨columnId, cursor, requestLimit⟩

section Chain

variable {columnId : String} (h : IdOrder before) (hdb : Keyed db)
  (htext : ∀ c ∈ db.cards, codec.toString c.id ≠ "") (hreq : BoardRequest codec ctx columnId t b column)

include h hdb htext hreq

/-- What is left to be shown is what the handler reads. -/
theorem serves_boardPage {cursor : String} {rest : List (CardRow ι)} {r : ListCardsByBoardResponse}
    (hrest : Remaining (fun c : CardRow ι => codec.toString c.id) (keysetBefore before)
      (boardListing before db t b column) cursor rest)
    (hr : Answers (boardPage codec before ctx columnId requestLimit) db cursor r) :
    Serves (fun c : CardRow ι => codec.toString c.id) (pageLimit requestLimit)
      (fun r => r.cards.map Card.id) ListCardsByBoardResponse.nextCursor rest r := by
  obtain ⟨after, hafter, hserves⟩ := hr.post (E := fun _ => True) (solo_listCardsByBoard h hreq)
  cases hrest with
  | first =>
      rcases hafter with ⟨-, rfl⟩ | ⟨hne, -, -⟩
      · exact hserves
      · exact absurd rfl hne
  | @after x hx =>
      have hmem := (List.mem_filter.mp (mem_boardListing.mp hx)).1
      obtain rfl := hafter.of_toString (htext x hmem)
      rwa [cardsAfter_some hdb hx] at hserves

omit hdb in
theorem exists_boardPage {cursor : String} {rest : List (CardRow ι)}
    (hrest : Remaining (fun c : CardRow ι => codec.toString c.id) (keysetBefore before)
      (boardListing before db t b column) cursor rest) :
    ∃ r, Answers (boardPage codec before ctx columnId requestLimit) db cursor r := by
  obtain ⟨after, hafter⟩ : ∃ after, OptionalId codec cursor after := by
    cases hrest with
    | first => exact ⟨none, .inl ⟨rfl, rfl⟩⟩
    | @after x hx =>
        exact ⟨_, optionalId_toString (htext x (List.mem_filter.mp (mem_boardListing.mp hx)).1)⟩
  obtain ⟨s, hs, hb⟩ := Option.bind_eq_some_iff.mp hreq.board
  obtain ⟨seen, hpage⟩ := selectCardPage_answer h t b column after (pageLimit requestLimit + 1) db
  refine exists_answers (Q := fun _ _ _ => True) ?_
  refine sure_orError_bind hs (sure_orError_bind hb (sure_orError_bind hreq.tenant ?_))
  refine sure_parseOptional_bind hreq.column (sure_parseOptional_bind hafter ?_)
  refine sure_query_read_bind hpage rfl (sure_bind ((Sure.of_plain plain_hydrateCards).mono ?_))
  exact fun _ _ _ _ => trivial

/-- **The pages of a board are a partition**: a first page is answered, every page that is not the
last leaves cards and is followed by another, and the pages of a complete listing show the cards of
the board, each once and in the order of the listing. -/
theorem board_pages_partition :
    (∀ c, c ∈ boardListing before db t b column ↔ c ∈ db.cards ∧ c.boardId = b ∧ c.tenantId = t ∧
      ∀ col ∈ column, c.columnId = col) ∧
    (boardListing before db t b column).Pairwise (fun c c' => keysetBefore before c c' = true) ∧
    (∃ r, Answers (boardPage codec before ctx columnId requestLimit) db "" r) ∧
    ∀ rs r, Listing (Answers (boardPage codec before ctx columnId requestLimit) db)
        ListCardsByBoardResponse.nextCursor (rs ++ [r]) →
      (r.nextCursor ≠ "" →
        (rs.length + 1) * pageLimit requestLimit < (boardListing before db t b column).length ∧
        ∃ r', Answers (boardPage codec before ctx columnId requestLimit) db r.nextCursor r') ∧
      (r.nextCursor = "" → (rs ++ [r]).flatMap (fun r => r.cards.map Card.id) =
        (boardListing before db t b column).map fun c => codec.toString c.id) := by
  have hsorted : (boardListing before db t b column).Pairwise _ := boardListing_sorted h hdb
  have hserve := fun cursor rest r =>
    @serves_boardPage ι _ codec before ctx t b column requestLimit db columnId h hdb htext hreq cursor rest r
  have hsplits : Splits (keysetBefore before) (pageLimit requestLimit) (boardListing before db t b column) :=
    splits_of_sorted (keyset_irrefl h) (keyset_asymm h) hsorted
  refine ⟨fun c => ?_, hsorted, exists_boardPage h htext hreq .first, fun rs r hrs => ?_⟩
  · rw [mem_boardListing, boardCards, List.mem_filter]
    simp only [decide_eq_true_eq]
  have hlimit := (pageLimit_bounds requestLimit).1
  refine ⟨fun hmore => ⟨hrs.length_lt hserve hlimit hsplits hmore, ?_⟩, fun hend => ?_⟩
  · obtain ⟨cursor, rest, hrest, hr⟩ := hrs.last fun _ _ _ hrest hr => (hserve _ _ _ hrest hr).exists_of_next_ne
    obtain ⟨x, hx, hcursor⟩ := (hserve _ _ _ hrest hr).exists_of_next_ne hmore
    exact hcursor ▸ exists_boardPage h htext hreq (.after (hrest.sub hx))
  · refine hrs.complete hserve hlimit (fun x hx => ?_) hsplits hend
    exact htext x (List.mem_filter.mp (mem_boardListing.mp hx)).1

end Chain

/-- Texts are ordered by their characters. -/
def textBefore (a b : String) : Bool := decide (a < b)

theorem idOrder_text : IdOrder textBefore where
  irrefl a := decide_eq_false (String.lt_irrefl a)
  trans a b c hab hbc := decide_eq_true (String.lt_trans (of_decide_eq_true hab) (of_decide_eq_true hbc))
  total a b hne := by
    by_contra h
    simp only [textBefore, decide_eq_true_eq, not_or, String.not_lt] at h
    exact hne (String.le_antisymm h.2 h.1)

/-- A card of the board `b`. -/
def boardCard (id columnId : String) (position : ℤ) : CardRow String :=
  ⟨id, "t", "p", "b", columnId, id, id, none, position, "medium", "normal", none, none, false, none,
    none, "user:ann", 0⟩

/-- A column with three cards, two of them at one position. -/
def threeCards : World (Db String) (Backend String) where
  store := { Db.empty with
    projects := [⟨"p", "t", "Roadmap", "ROAD", "ROAD", "", "user:ann"⟩]
    boards := [⟨"b", "t", "p", "Board", "BOARD", "", none, "", 0⟩]
    columns := [⟨"x", "t", "b", "Todo", none, none, 0, false⟩]
    cards := [boardCard "f" "x" 1, boardCard "e" "x" 0, boardCard "d" "x" 0] }
  ext := Backend.empty

/-- A member, on the board that was checked. -/
def boardMember : RequestContext := ⟨some ⟨some "t", some "user:ann"⟩, some "b", 0⟩

/-- Two pages of three cards. -/
theorem board_pages_partition_two :
    ∃ r r', Listing (Answers (boardPage textIds textBefore boardMember "" 2) threeCards.store)
        ListCardsByBoardResponse.nextCursor [r, r'] ∧ r.nextCursor = "e" ∧ r'.nextCursor = "" ∧
      [r, r'].flatMap (fun r => r.cards.map Card.id) = ["d", "e", "f"] := by
  obtain ⟨th, w, th', w', r, r', hrun, hr, hrun', hr', hnext, hnext'⟩ : ∃ th w th' w' r r',
      Machine.run (Thread.step (kanban String))
        (Thread.start (boardPage textIds textBefore boardMember "" 2 ""), threeCards)
        (List.replicate 15 .ok) = some (th, w) ∧ th.prog.result = some (.ok r) ∧
      Machine.run (Thread.step (kanban String))
        (Thread.start (boardPage textIds textBefore boardMember "" 2 "e"), threeCards)
        (List.replicate 8 .ok) = some (th', w') ∧ th'.prog.result = some (.ok r') ∧
      r.nextCursor = "e" ∧ r'.nextCursor = "" :=
    ⟨_, _, _, _, _, _, rfl, rfl, rfl, rfl, rfl, rfl⟩
  have hlist : Listing (Answers (boardPage textIds textBefore boardMember "" 2) threeCards.store)
      ListCardsByBoardResponse.nextCursor ([] ++ [r] ++ [r']) := by
    refine .more (.first ⟨_, _, _, _, rfl, Machine.exec_of_run hrun, hr⟩) (by simp [hnext]) ?_
    rw [hnext]
    exact ⟨_, _, _, _, rfl, Machine.exec_of_run hrun', hr'⟩
  refine ⟨r, r', hlist, hnext, hnext', ?_⟩
  have hreq : BoardRequest textIds boardMember "" "t" "b" none := ⟨rfl, rfl, .inl ⟨rfl, rfl⟩⟩
  have hall := ((board_pages_partition idOrder_text (by decide) (by decide) hreq).2.2.2 _ _ hlist).2 hnext'
  exact hall.trans (by decide)

end Cards

end Kanban.Rpc
