import Kanban.Rpc.Listings
import Mathlib.Data.List.Permutation

/-!
# The pages of the comments

`ListComments` sorts the comments of a card by their times and resumes after a cursor by their ids.
Where the two orders disagree at the end of a page, comments are shown twice or never.

## Main definitions

* `CommentOrder` — the orders of the comments of a card by their times.
* `CommentAnswers` — the answers to a cursor, with each statement scanning the table as it likes.
* `ShowsEach` — the pages show every comment once, in the order of the times.
-/

namespace Kanban.Rpc

open Program Kanban.Store Kanban.Auth Paging
open Kanban.Services (AuthContext ConnectError IdCodec)

variable {ι : Type} [DecidableEq ι]

/-- The comments of the card among the rows. -/
def cardComments (rows : List (CommentRow ι)) (tenantId : String) (cardId : ι) : List (CommentRow ι) :=
  rows.filter fun c => c.cardId = cardId ∧ c.tenantId = tenantId

/-- An order of the comments of the card by their times; comments of one time come in any order. -/
def CommentOrder (db : Db ι) (tenantId : String) (cardId : ι) (l : List (CommentRow ι)) : Prop :=
  Arranged createdOrder (cardComments db.comments tenantId cardId) l

/-- The id comes later. -/
def idLater (before : ι → ι → Bool) (c c' : CommentRow ι) : Bool := before c.id c'.id

/-- The comments among the rows that a request with this cursor asks for. -/
def commentsAfter (before : ι → ι → Bool) (rows : List (CommentRow ι)) (tenantId : String) (cardId : ι) :
    Option ι → List (CommentRow ι)
  | none => (cardComments rows tenantId cardId).insertionSort createdOrder
  | some id =>
      ((cardComments rows tenantId cardId).insertionSort createdOrder).filter fun c => before id c.id

/-- The texts are those of every comment of the card, once, in the order of their times. -/
def ShowsEach (codec : IdCodec ι) (db : Db ι) (tenantId : String) (cardId : ι) (ids : List String) :
    Prop :=
  ∃ l, CommentOrder db tenantId cardId l ∧ ids = l.map fun c => codec.toString c.id

/-- `ListComments` with the cursor and the order of the scan open. -/
def commentPage (codec : IdCodec ι) (before : ι → ι → Bool) (ctx : RequestContext) (requestLimit : ℤ)
    (scan : Db ι → List (CommentRow ι)) (cursor : String) : Handler ι ListCommentsResponse :=
  listComments codec before scan ctx ⟨cursor, requestLimit⟩

/-- What the comments of the state are answered with, in whatever order they are scanned. -/
def CommentAnswers (codec : IdCodec ι) (before : ι → ι → Bool) (ctx : RequestContext) (requestLimit : ℤ)
    (db : Db ι) (cursor : String) (r : ListCommentsResponse) : Prop :=
  ∃ scan : Db ι → List (CommentRow ι), (scan db).Perm db.comments ∧
    Answers (commentPage codec before ctx requestLimit scan) db cursor r

section Comments

variable {codec : IdCodec ι} {before : ι → ι → Bool} {ctx : RequestContext} {t : String} {card : ι}
  {after : Option ι} {requestLimit : ℤ} {db : Db ι} {scan : Db ι → List (CommentRow ι)}

omit [DecidableEq ι] in
theorem createdOrder_trans (c c' c'' : CommentRow ι) (h : createdOrder c c') (h' : createdOrder c' c'') :
    createdOrder c c'' := le_trans h h'

omit [DecidableEq ι] in
theorem createdOrder_total (c c' : CommentRow ι) : createdOrder c c' ∨ createdOrder c' c :=
  le_total c.createdAt c'.createdAt

/-- The rows in the order of a scan are sorted to one of the orders. -/
theorem commentOrder_sort (hscan : (scan db).Perm db.comments) :
    CommentOrder db t card ((cardComments (scan db) t card).insertionSort createdOrder) := by
  have : IsTrans (CommentRow ι) createdOrder := ⟨createdOrder_trans⟩
  have : Std.Total (createdOrder (ι := ι)) := ⟨createdOrder_total⟩
  exact ⟨(List.perm_insertionSort _ _).trans (hscan.filter _), List.pairwise_insertionSort _ _⟩

/-- Some scan leads to each of the orders. -/
theorem exists_scan {l : List (CommentRow ι)} (h : CommentOrder db t card l) :
    ∃ rows : List (CommentRow ι), rows.Perm db.comments ∧
      (cardComments rows t card).insertionSort createdOrder = l := by
  let isOn : CommentRow ι → Bool := fun c => c.cardId = card ∧ c.tenantId = t
  refine ⟨l ++ db.comments.filter fun c => !isOn c, ?_, ?_⟩
  · exact (h.1.append_right _).trans (List.filter_append_perm isOn db.comments)
  · have hall : ∀ c ∈ l, isOn c = true := fun c hc => (List.mem_filter.mp (h.1.mem_iff.mp hc)).2
    have hnone : (db.comments.filter fun c => !isOn c).filter isOn = [] := by
      rw [List.filter_filter]
      simp
    have hl : cardComments (l ++ db.comments.filter fun c => !isOn c) t card = l := by
      change List.filter isOn _ = l
      rw [List.filter_append, hnone, List.append_nil, List.filter_eq_self.mpr hall]
    rw [hl]
    exact h.2.insertionSort_eq

/-- The statement reads the first of the comments that are asked for. -/
theorem selectCommentPage_answer (before : ι → ι → Bool) (scan : Db ι → List (CommentRow ι)) (t : String)
    (card : ι) (after : Option ι) (n : ℕ) (db : Db ι) : ∃ seen,
    selectCommentPage before scan t card after n db =
      some ⟨(commentsAfter before (scan db) t card after).take n, seen, []⟩ := by
  cases after with
  | none =>
      refine ⟨(cardComments (scan db) t card).map .comment, ?_⟩
      simp [selectCommentPage, commentsAfter, cardComments]
  | some id =>
      refine ⟨((cardComments (scan db) t card).filter fun c => before id c.id).map .comment, ?_⟩
      simp only [selectCommentPage, commentsAfter, cardComments,
        filter_insertionSort createdOrder_trans createdOrder_total, List.filter_filter,
        Option.mem_def, Option.some.injEq, forall_eq', Bool.decide_and, Bool.decide_eq_true, Bool.and_comm,
        Bool.and_left_comm]

/-- A request for the comments of a card that is there. -/
structure CommentsRequest (codec : IdCodec ι) (ctx : RequestContext) (t : String) (card : ι)
    (db : Db ι) : Prop where
  tenant : ctx.auth.bind AuthContext.tenantId = some t
  checked : ctx.checked.bind codec.parse = some card
  exists_card : ∃ c ∈ db.cards, c.id = card ∧ c.tenantId = t

/-- What `ListComments` answers. -/
theorem solo_commentPage {E : Db ι → Prop} {cursor : String} (hreq : CommentsRequest codec ctx t card db) :
    Solo (kanban ι) E (commentPage codec before ctx requestLimit scan cursor) .idle db
      fun r _ _ => ∃ after, OptionalId codec cursor after ∧
        Serves (fun c : CommentRow ι => codec.toString c.id) (pageLimit requestLimit)
          (fun r => r.comments.map Comment.id) ListCommentsResponse.nextCursor
          (commentsAfter before (scan db) t card after) r := by
  refine solo_orError_bind fun s hs => solo_orError_bind fun card' hcard => solo_orError_bind fun t' ht => ?_
  obtain rfl : card = card' := by simpa [hs, hcard] using hreq.checked.symm
  obtain rfl : t = t' := Option.some.inj (hreq.tenant.symm.trans ht)
  refine solo_parseOptional_bind fun after hafter => ?_
  refine solo_query_read_bind fun e he => ⟨by cases he; rfl, solo_ensure_bind fun _ => ?_⟩
  refine solo_query_read_bind fun e he => ?_
  obtain ⟨seen, hpage⟩ :=
    selectCommentPage_answer before scan t card after (pageLimit requestLimit + 1) db
  obtain rfl := Option.some.inj (hpage.symm.trans he)
  refine ⟨rfl, ?_⟩
  simp only [pageOf_take]
  exact solo_pure ⟨after, hafter, List.map_map, rfl⟩

section Chain

variable (h : IdOrder before) (htext : ∀ c ∈ db.comments, codec.toString c.id ≠ "")
  (hreq : CommentsRequest codec ctx t card db)

include htext hreq

/-- What is left to be shown in the order of the scan is what the handler reads. -/
theorem serves_commentPage (hscan : (scan db).Perm db.comments) {cursor : String}
    {rest : List (CommentRow ι)} {r : ListCommentsResponse}
    (hrest : Remaining (fun c : CommentRow ι => codec.toString c.id) (idLater before)
      ((cardComments (scan db) t card).insertionSort createdOrder) cursor rest)
    (hr : Answers (commentPage codec before ctx requestLimit scan) db cursor r) :
    Serves (fun c : CommentRow ι => codec.toString c.id) (pageLimit requestLimit)
      (fun r => r.comments.map Comment.id) ListCommentsResponse.nextCursor rest r := by
  obtain ⟨after, hafter, hserves⟩ := hr.post (E := fun _ => True) (solo_commentPage hreq)
  cases hrest with
  | first =>
      rcases hafter with ⟨-, rfl⟩ | ⟨hne, -, -⟩
      · exact hserves
      · exact absurd rfl hne
  | @after x hx =>
      have hx := (commentOrder_sort hscan).1.mem_iff.mp hx
      obtain rfl := hafter.of_toString (htext x (List.mem_filter.mp hx).1)
      exact hserves

theorem exists_commentPage {cursor : String} {rest l : List (CommentRow ι)}
    (hl : CommentOrder db t card l)
    (hrest : Remaining (fun c : CommentRow ι => codec.toString c.id) (idLater before) l cursor rest) :
    ∃ r, Answers (commentPage codec before ctx requestLimit scan) db cursor r := by
  obtain ⟨after, hafter⟩ : ∃ after, OptionalId codec cursor after := by
    cases hrest with
    | first => exact ⟨none, .inl ⟨rfl, rfl⟩⟩
    | @after x hx =>
        exact ⟨_, optionalId_toString (htext x (List.mem_filter.mp (hl.1.mem_iff.mp hx)).1)⟩
  obtain ⟨s, hs, hcard⟩ := Option.bind_eq_some_iff.mp hreq.checked
  obtain ⟨seen, hpage⟩ :=
    selectCommentPage_answer before scan t card after (pageLimit requestLimit + 1) db
  obtain ⟨c, hc, hid, htenant⟩ := hreq.exists_card
  refine exists_answers (Q := fun _ _ _ => True) ?_
  refine sure_orError_bind hs (sure_orError_bind hcard (sure_orError_bind hreq.tenant ?_))
  refine sure_parseOptional_bind hafter (sure_query_read_bind rfl rfl (sure_ensure_bind ?_ ?_))
  · exact List.ne_nil_of_mem (List.mem_filter.mpr ⟨hc, by simp [hid, htenant]⟩)
  · exact sure_query_read_bind hpage rfl trivial

theorem exists_commentAnswers {cursor : String} {rest l : List (CommentRow ι)}
    (hl : CommentOrder db t card l)
    (hrest : Remaining (fun c : CommentRow ι => codec.toString c.id) (idLater before) l cursor rest) :
    ∃ r, CommentAnswers codec before ctx requestLimit db cursor r := by
  obtain ⟨r, hr⟩ := @exists_commentPage _ _ _ _ _ _ _ _ _ Db.comments htext hreq _ _ _ hl hrest
  exact ⟨r, Db.comments, .refl _, hr⟩

/-- An answer serves what remains in one of the orders. -/
theorem serves_commentAnswers {cursor : String} {r : ListCommentsResponse}
    (hr : CommentAnswers codec before ctx requestLimit db cursor r) :
    ∃ l, CommentOrder db t card l ∧ ∀ rest,
      Remaining (fun c : CommentRow ι => codec.toString c.id) (idLater before) l cursor rest →
      Serves (fun c : CommentRow ι => codec.toString c.id) (pageLimit requestLimit)
        (fun r => r.comments.map Comment.id) ListCommentsResponse.nextCursor rest r := by
  obtain ⟨scan, hscan, hr⟩ := hr
  exact ⟨_, commentOrder_sort hscan, fun rest hrest => serves_commentPage htext hreq hscan hrest hr⟩

include h

/-- A listing goes on to its end, whatever the scans. -/
theorem exists_complete_comments {rs : List ListCommentsResponse} {r : ListCommentsResponse}
    (hrs : Listing (CommentAnswers codec before ctx requestLimit db) ListCommentsResponse.nextCursor
      (rs ++ [r])) : ∃ rs' r', rs ++ [r] <+: rs' ++ [r'] ∧
      Listing (CommentAnswers codec before ctx requestLimit db) ListCommentsResponse.nextCursor
        (rs' ++ [r']) ∧ r'.nextCursor = "" := by
  have hsort : CommentOrder db t card ((cardComments db.comments t card).insertionSort createdOrder) :=
    @commentOrder_sort _ _ _ _ _ Db.comments (.refl _)
  have hnames : ∀ c rest r, Remaining (fun c : CommentRow ι => codec.toString c.id) (idLater before)
      ((cardComments db.comments t card).insertionSort createdOrder) c rest →
      CommentAnswers codec before ctx requestLimit db c r → r.nextCursor ≠ "" →
      ∃ x ∈ rest, r.nextCursor = codec.toString x.id := by
    intro c rest r hrest hr hmore
    obtain ⟨l, hl, hserves⟩ := serves_commentAnswers htext hreq hr
    obtain ⟨rest', hrest', hperm⟩ := hrest.perm (hl.1.trans hsort.1.symm)
    obtain ⟨x, hx, hnext⟩ := (hserves rest' hrest').exists_of_next_ne hmore
    exact ⟨x, hperm.mem_iff.mp hx, hnext⟩
  obtain ⟨rs', r', h', hpre, hend⟩ := hrs.exists_complete hnames (fun c => h.irrefl c.id)
    (fun c c' c'' => h.trans c.id c'.id c''.id) fun c rest hrest =>
      exists_commentAnswers htext hreq hsort hrest
  exact ⟨rs', r', hpre, h', hend⟩

/-- **The pages of the comments.**  A listing is answered page by page to its end, and it shows every
comment once, in the order of the times, whatever the order of equal times on each page, exactly if in
each such order the ids tell the same at the end of every page: those shown so far are not later than
the last one, and the others are. -/
theorem comment_pages_partition_iff (hkeys : (db.comments.map CommentRow.id).Nodup) :
    ((∃ r, CommentAnswers codec before ctx requestLimit db "" r) ∧
      ∀ rs r, Listing (CommentAnswers codec before ctx requestLimit db)
        ListCommentsResponse.nextCursor (rs ++ [r]) → ∃ rs' r', rs ++ [r] <+: rs' ++ [r'] ∧
        Listing (CommentAnswers codec before ctx requestLimit db)
          ListCommentsResponse.nextCursor (rs' ++ [r']) ∧ r'.nextCursor = "") ∧
    ((∀ rs r, Listing (CommentAnswers codec before ctx requestLimit db)
        ListCommentsResponse.nextCursor (rs ++ [r]) → r.nextCursor = "" →
        ShowsEach codec db t card ((rs ++ [r]).flatMap fun r => r.comments.map Comment.id)) ↔
      ∀ l, CommentOrder db t card l → Splits (idLater before) (pageLimit requestLimit) l) := by
  have hlimit := (pageLimit_bounds requestLimit).1
  have hne : ∀ {l}, CommentOrder db t card l → ∀ c ∈ l, codec.toString c.id ≠ "" := fun hl c hc =>
    htext c (List.mem_filter.mp (hl.1.mem_iff.mp hc)).1
  have hfirst : ∃ r, CommentAnswers codec before ctx requestLimit db "" r :=
    exists_commentAnswers htext hreq (@commentOrder_sort _ _ _ _ _ Db.comments (.refl _)) .first
  refine ⟨⟨hfirst, fun rs r hrs => exists_complete_comments h htext hreq hrs⟩, fun hall l hl => ?_,
    fun hsplits rs r hrs hend => ?_⟩
  · -- every page may be scanned in this order
    obtain ⟨rows, hrows, hsort⟩ := exists_scan hl
    have hserve : ∀ c rest r,
        Remaining (fun c : CommentRow ι => codec.toString c.id) (idLater before) l c rest →
        Answers (commentPage codec before ctx requestLimit fun _ => rows) db c r →
        Serves (fun c : CommentRow ι => codec.toString c.id) (pageLimit requestLimit)
          (fun r => r.comments.map Comment.id) ListCommentsResponse.nextCursor rest r := by
      intro c rest r hrest hr
      rw [← hsort] at hrest
      exact serves_commentPage htext hreq hrows hrest hr
    refine splits_of_perm hserve (fun c => h.irrefl c.id) (fun c c' c'' => h.trans c.id c'.id c''.id)
      hlimit (hne hl) ?_ (fun c rest => exists_commentPage htext hreq hl) fun rs r hrs hend => ?_
    · have hids : (l.map CommentRow.id).Nodup := (hl.1.map CommentRow.id).nodup_iff.mpr
        (List.Nodup.sublist (List.filter_sublist.map _) hkeys)
      rw [show (fun c : CommentRow ι => codec.toString c.id) = codec.toString ∘ CommentRow.id from rfl,
        ← List.map_map]
      exact hids.map codec.toString_injective
    · obtain ⟨l', hl', hshown⟩ := hall rs r (hrs.mono fun _ _ hr => ⟨fun _ => rows, hrows, hr⟩) hend
      rw [hshown]
      exact (hl'.1.trans hl.1.symm).map _
  · obtain ⟨l, hl, hshown⟩ := hrs.take_arranged hlimit
      (fun c r hr => serves_commentAnswers htext hreq hr) hsplits
    exact ⟨l, hl, hshown.complete (Nat.mul_pos (by simp) hlimit) (hne hl) hend⟩

end Chain

end Comments

/-- A card with comments of given ids and times. -/
def commented (comments : List (String × ℤ)) : World (Db String) (Backend String) where
  store := { Db.empty with
    cards := [boardCard "d" "x" 0]
    comments := comments.map fun c => ⟨c.1, "t", "d", "user:ann", c.1, c.2⟩ }
  ext := Backend.empty

/-- A member, on the card that was checked. -/
def cardMember : RequestContext := ⟨some ⟨some "t", some "user:ann"⟩, some "d", 0⟩

/-- Two comments of one time, and two later ones. -/
def twoAtOnce : Db String := (commented [("1", 5), ("2", 5), ("3", 6), ("4", 7)]).store

/-- Wherever the two comments of one time come on the first page, it ends with the third. -/
theorem twoAtOnce_splits {l : List (CommentRow String)} (h : CommentOrder twoAtOnce "t" "d" l) :
    Splits (idLater textBefore) 3 l := by
  have hall : ∀ l ∈ (cardComments twoAtOnce.comments "t" "d").permutations', l.Pairwise createdOrder →
      l.length = 4 ∧ (∀ c ∈ l.take 3, ∀ x ∈ l[2]?, idLater textBefore x c = false) ∧
        ∀ c ∈ l.drop 3, ∀ x ∈ l[2]?, idLater textBefore x c = true := by
    decide +kernel
  obtain ⟨hlen, hshown, hleft⟩ := hall l (List.mem_permutations'.mpr h.1) h.2
  rintro pre x post rfl hpost hdvd
  have hpre : pre.length = 2 := by
    have := List.length_pos_iff.mpr hpost
    rw [List.length_append, List.length_cons] at hlen
    omega
  have htake : (pre ++ x :: post).take 3 = pre ++ [x] := by
    rw [List.append_cons, List.take_left' (by simp [hpre])]
  have hdrop : (pre ++ x :: post).drop 3 = post := by
    rw [List.append_cons, List.drop_left' (by simp [hpre])]
  have hx : (pre ++ x :: post)[2]? = some x := by
    rw [List.getElem?_append_right (by omega), hpre]
    rfl
  rw [htake] at hshown
  rw [hdrop] at hleft
  exact ⟨fun c hc => hshown c hc x hx, fun c hc => hleft c hc x hx⟩

theorem comment_pages_partition_iff_ties :
    ∃ r r', Listing (CommentAnswers textIds textBefore cardMember 3 twoAtOnce)
        ListCommentsResponse.nextCursor [r, r'] ∧ r'.nextCursor = "" ∧
      [r, r'].flatMap (fun r => r.comments.map Comment.id) = ["2", "1", "3", "4"] ∧
      ShowsEach textIds twoAtOnce "t" "d" ([r, r'].flatMap fun r => r.comments.map Comment.id) := by
  -- the first page finds the rows in another order than the second
  obtain ⟨th, w, th', w', r, r', hrun, hr, hrun', hr', hnext, hend, hshown⟩ : ∃ th w th' w' r r',
      Machine.run (Thread.step (kanban String))
        (Thread.start (commentPage textIds textBefore cardMember 3 (fun db => db.comments.reverse) ""),
          ⟨twoAtOnce, Backend.empty⟩) [.ok, .ok] = some (th, w) ∧
      th.prog.result = some (.ok r) ∧
      Machine.run (Thread.step (kanban String))
        (Thread.start (commentPage textIds textBefore cardMember 3 Db.comments "3"),
          ⟨twoAtOnce, Backend.empty⟩) [.ok, .ok] = some (th', w') ∧
      th'.prog.result = some (.ok r') ∧ r.nextCursor = "3" ∧ r'.nextCursor = "" ∧
      [r, r'].flatMap (fun r => r.comments.map Comment.id) = ["2", "1", "3", "4"] :=
    ⟨_, _, _, _, _, _, rfl, rfl, rfl, rfl, rfl, rfl, rfl⟩
  have hlist : Listing (CommentAnswers textIds textBefore cardMember 3 twoAtOnce)
      ListCommentsResponse.nextCursor ([] ++ [r] ++ [r']) := by
    refine .more (.first ⟨_, List.reverse_perm _, _, _, _, _, rfl, Machine.exec_of_run hrun, hr⟩)
      (by simp [hnext]) ?_
    rw [hnext]
    exact ⟨_, .refl _, _, _, _, _, rfl, Machine.exec_of_run hrun', hr'⟩
  refine ⟨r, r', hlist, hend, hshown, ?_⟩
  have hpages := @comment_pages_partition_iff String _ textIds textBefore cardMember "t" "d" 3 twoAtOnce
    idOrder_text (by decide) ⟨rfl, rfl, boardCard "d" "x" 0, by decide, rfl, rfl⟩ (by decide)
  exact hpages.2.mpr (fun l hl => twoAtOnce_splits hl) _ _ hlist hend

/-- Of two comments whose ids are in the other order than their times, the second is never shown. -/
theorem comment_never_shown :
    ∃ r r', Listing (CommentAnswers textIds textBefore cardMember 1
        (commented [("2", 5), ("1", 7)]).store) ListCommentsResponse.nextCursor [r, r'] ∧
      r'.nextCursor = "" ∧ [r, r'].flatMap (fun r => r.comments.map Comment.id) = ["2"] ∧
      ¬ ShowsEach textIds (commented [("2", 5), ("1", 7)]).store "t" "d"
        ([r, r'].flatMap fun r => r.comments.map Comment.id) := by
  obtain ⟨th, w, th', w', r, r', hrun, hr, hrun', hr', hnext, hend, hshown⟩ : ∃ th w th' w' r r',
      Machine.run (Thread.step (kanban String))
        (Thread.start (commentPage textIds textBefore cardMember 1 Db.comments ""),
          commented [("2", 5), ("1", 7)]) [.ok, .ok] = some (th, w) ∧
      th.prog.result = some (.ok r) ∧
      Machine.run (Thread.step (kanban String))
        (Thread.start (commentPage textIds textBefore cardMember 1 Db.comments "2"),
          commented [("2", 5), ("1", 7)]) [.ok, .ok] = some (th', w') ∧
      th'.prog.result = some (.ok r') ∧ r.nextCursor = "2" ∧ r'.nextCursor = "" ∧
      [r, r'].flatMap (fun r => r.comments.map Comment.id) = ["2"] :=
    ⟨_, _, _, _, _, _, rfl, rfl, rfl, rfl, rfl, rfl, rfl⟩
  refine ⟨r, r', ?_, hend, hshown, ?_⟩
  · suffices h : Listing (CommentAnswers textIds textBefore cardMember 1
        (commented [("2", 5), ("1", 7)]).store) ListCommentsResponse.nextCursor ([] ++ [r] ++ [r']) from h
    refine .more (.first ⟨_, .refl _, _, _, _, _, rfl, Machine.exec_of_run hrun, hr⟩) (by simp [hnext]) ?_
    rw [hnext]
    exact ⟨_, .refl _, _, _, _, _, rfl, Machine.exec_of_run hrun', hr'⟩
  · rintro ⟨l, ⟨hperm, -⟩, hl⟩
    have hlength : l.length = 2 := hperm.length_eq
    have := congrArg List.length (hshown.symm.trans hl)
    rw [List.length_map, hlength] at this
    cases this

end Kanban.Rpc
