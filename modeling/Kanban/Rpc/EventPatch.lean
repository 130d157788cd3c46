import Kanban.Lib.Percent
import Kanban.Rpc.CheckedIds
import Kanban.Rpc.EventPayloads
import Kanban.Rpc.UpdateMasks

/-!
# The patch of an event

An `UpdateCard` writes into its event what it was asked.  The dispatcher makes a patch of it, without
the values that say that a field is not changed, and a client applies the patch to the card that it
shows.  The client then shows the card that is stored, but for a due date, for a text that looks like
an unspecified value, for an enumeration that is not known, for a milestone that the request does not
write as it is stored, and for a card that stays blocked.

## Main definitions

* `CardView`, `applyPatch` — the card that a client shows, and what the patch makes of it.
* `PatchTells` — the requests of which the patch tells all that they do.
* `card_patch_faithful_iff` — when the patch is faithful.
-/

namespace Kanban.Rpc

open Program Kanban.Store Kanban.Auth Kanban.Ids
open Kanban.Services (AuthContext ConnectError IdCodec)

variable {ι : Type}

/-! ## The patch -/

section Lookup

variable {fields : List (String × Atom)} {key field : String} {value : Atom}

theorem lookup_filter_fst (h : field ≠ key) :
    (fields.filter (·.1 ≠ key)).lookup field = fields.lookup field := by
  induction fields with
  | nil => rfl
  | cons f fields ih =>
      obtain ⟨k, a⟩ := f
      by_cases hk : k = key
      · subst hk
        rw [List.filter_cons_of_neg (by simp), List.lookup_cons, beq_eq_false_iff_ne.mpr h]
        exact ih
      · rw [List.filter_cons_of_pos (by simpa using hk), List.lookup_cons, List.lookup_cons, ih]

theorem lookup_insertField (h : field ≠ key) :
    (insertField key value fields).lookup field = fields.lookup field := by
  rw [insertField, List.lookup_cons, beq_eq_false_iff_ne.mpr h]
  exact lookup_filter_fst h

/-- Fields of distinct keys are found exactly if their values are kept. -/
theorem lookup_filter_snd {p : Atom → Bool} (h : (fields.map Prod.fst).Nodup) :
    (fields.filter fun f => p f.2).lookup field = (fields.lookup field).filter p := by
  induction fields with
  | nil => rfl
  | cons f fields ih =>
      obtain ⟨k, a⟩ := f
      rw [List.map_cons, List.nodup_cons] at h
      by_cases hk : field = k
      · subst hk
        have hnone : fields.lookup field = none := List.lookup_eq_none_iff.mpr fun f hf => by
          refine bne_iff_ne.mpr fun heq => h.1 (List.mem_map.mpr ⟨f, hf, heq.symm⟩)
        rw [List.lookup_cons_self]
        by_cases ha : p a = true
        · rw [List.filter_cons, if_pos ha, List.lookup_cons_self, Option.filter_some_pos ha]
        · rw [List.filter_cons, if_neg ha, ih h.2, hnone, Option.filter_some_neg (Bool.not_eq_true _ ▸ ha), Option.filter_none]
      · rw [List.lookup_cons, beq_eq_false_iff_ne.mpr hk]
        by_cases ha : p a = true
        · rw [List.filter_cons, if_pos ha, List.lookup_cons, beq_eq_false_iff_ne.mpr hk]
          exact ih h.2
        · rw [List.filter_cons, if_neg ha]
          exact ih h.2

end Lookup

/-! ## The client -/

/-- What a client shows of a card. -/
structure CardView where
  title : String
  description : String
  priority : ℤ
  urgency : ℤ
  due : Option ℤ
  blocked : Bool
  cover : String
  milestoneId : String

def cardView (codec : IdCodec ι) (c : CardRow ι) : CardView where
  title := c.title
  description := c.description.getD ""
  priority := priorityToI32 c.priority
  urgency := urgencyToI32 c.urgency
  due := c.dueDate
  blocked := c.blocked
  cover := c.cover.getD ""
  milestoneId := (c.milestoneId.map codec.toString).getD ""

def readText : Atom → Option String
  | .str s => some s
  | _ => none

def readNum : Atom → Option ℤ
  | .num n => some n
  | _ => none

def readBool : Atom → Option Bool
  | .bool b => some b
  | _ => none

/-- A value of an enumeration, by its name or by its number. -/
def readEnum (names : List String) : Atom → Option ℤ
  | .str s => if s ∈ names then some (names.idxOf s) else none
  | .num n => some n
  | _ => none

/-- Fields that are present replace, fields that are absent keep, and `milestone_cleared` clears. -/
def applyPatch (patch : List (String × Atom)) (c : CardView) : CardView where
  title := ((patch.lookup "title").bind readText).getD c.title
  description := ((patch.lookup "description").bind readText).getD c.description
  priority := ((patch.lookup "priority").bind (readEnum cardPriorityNames)).getD c.priority
  urgency := ((patch.lookup "urgency").bind (readEnum cardUrgencyNames)).getD c.urgency
  due := ((patch.lookup "due").bind readNum).or c.due
  blocked := ((patch.lookup "blocked").bind readBool).getD c.blocked
  cover := ((patch.lookup "cover").bind readText).getD c.cover
  milestoneId :=
    if (patch.lookup "milestone_cleared").bind readBool = some true then ""
    else ((patch.lookup "milestone_id").bind readText).getD c.milestoneId

/-! ## What the patch tells -/

/-- A text that is told, or that is there already. -/
def TellsText (text old : String) : Prop :=
  text = "" ∨ isUnchangedSentinel (.str text) = false ∨ text = old

/-- The patch tells all that the request does to the card. -/
structure PatchTells (codec : IdCodec ι) (req : UpdateCardRequest) (c : CardRow ι) : Prop where
  title : TellsText req.card.title c.title
  description : TellsText req.card.description (c.description.getD "")
  cover : TellsText req.card.cover (c.cover.getD "")
  priority : 0 ≤ req.card.priority ∧ req.card.priority ≤ 4
  urgency : 0 ≤ req.card.urgency ∧ req.card.urgency ≤ 4
  due : req.card.due.bind fromProtoTs = none ∨ req.card.due.bind fromProtoTs = c.dueDate
  blocked : req.card.blocked = true ∨ "blocked" ∈ req.updateMask ∨ c.blocked = false
  milestone : ∀ y, codec.parse req.card.milestoneId = some y → req.card.milestoneId = codec.toString y

section Tells

/-- What is told of a text. -/
theorem tellsText_iff {text old : String} :
    (((some (Atom.str text)).filter fun a => !isUnchangedSentinel a).bind readText).getD old =
      (if text ≠ "" then text else old) ↔ TellsText text old := by
  unfold TellsText
  cases hs : isUnchangedSentinel (.str text) with
  | false =>
      have hne : text ≠ "" := by
        rintro rfl
        cases hs
      rw [Option.filter_some_pos (by simp [hs]), if_pos hne]
      exact iff_of_true rfl (.inr (.inl rfl))
  | true =>
      rw [Option.filter_some_neg (by simp [hs])]
      by_cases hempty : text = ""
      · rw [if_neg (not_not.mpr hempty)]
        exact iff_of_true rfl (.inl hempty)
      · rw [if_pos hempty]
        constructor
        · exact fun h => .inr (.inr h.symm)
        · rintro (h | h | h)
          · exact absurd h hempty
          · cases h
          · exact h.symm

/-- The names of an enumeration, of which the first is the unspecified one. -/
def EnumNames (names : List String) : Prop :=
  names.Nodup ∧ names.length = 5 ∧
    ∀ i, (h : i < names.length) → (isUnchangedSentinel (.str names[i]) ↔ i = 0)

/-- What is told of an enumeration. -/
theorem readEnum_enumJson {names : List String} (h : EnumNames names) (v : ℤ) :
    ((some (enumJson names v)).filter fun a => !isUnchangedSentinel a).bind (readEnum names) =
      if v = 0 then none else some v := by
  obtain ⟨hnodup, hlength, hsentinel⟩ := h
  unfold enumJson
  split
  · rename_i hv
    split
    · rename_i name hname
      obtain ⟨hlt, rfl⟩ := List.getElem?_eq_some_iff.mp hname
      by_cases hzero : v = 0
      · have hs := (hsentinel _ hlt).mpr (by omega)
        rw [Option.filter_some_neg (by simp [hs]), if_pos hzero]
        rfl
      · have hs : isUnchangedSentinel (.str names[v.toNat]) = false :=
          Bool.eq_false_iff.mpr fun hs => hzero (by
            have := (hsentinel _ hlt).mp hs
            omega)
        rw [Option.filter_some_pos (by simp [hs]), if_neg hzero, Option.bind_some, readEnum,
          if_pos (List.getElem_mem hlt), hnodup.idxOf_getElem, Int.toNat_of_nonneg hv]
    · rename_i hnone
      have hle := List.getElem?_eq_none_iff.mp hnone
      rw [if_neg (by omega)]
      rfl
  · rw [if_neg (by omega)]
    rfl

theorem enumNames_cardPriority : EnumNames cardPriorityNames := by
  unfold EnumNames
  decide +kernel

theorem enumNames_cardUrgency : EnumNames cardUrgencyNames := by
  unfold EnumNames
  decide +kernel

/-- The client shows the enumeration that is stored exactly if it is known. -/
theorem tellsEnum_iff {names : List String} (h : EnumNames names) {v : ℤ} {old : ℤ} :
    (((some (enumJson names v)).filter fun a => !isUnchangedSentinel a).bind (readEnum names)).getD old =
      (if v ≠ 0 then (if 1 ≤ v ∧ v ≤ 4 then v else 2) else old) ↔ 0 ≤ v ∧ v ≤ 4 := by
  rw [readEnum_enumJson h]
  by_cases hzero : v = 0
  · subst hzero
    exact iff_of_true rfl (by omega)
  · rw [if_neg hzero, if_pos hzero, Option.getD_some]
    split
    · exact iff_of_true rfl (by omega)
    · exact iff_of_false (by omega) (by omega)

end Tells

/-! ## The row -/

section Row

variable [DecidableEq ι] {codec : IdCodec ι} {req : UpdateCardRequest} {milestone : Option (Option ι)}
  {x : ι} {c : CardRow ι}

/-- The fields that an `UpdateCard` writes into its event. -/
def writtenFields (req : UpdateCardRequest) (cleared : Bool) : List (String × Atom) :=
  [("title", .str req.card.title), ("description", .str req.card.description),
    ("priority", enumJson cardPriorityNames req.card.priority),
    ("urgency", enumJson cardUrgencyNames req.card.urgency), ("blocked", .bool req.card.blocked),
    ("cover", .str req.card.cover), ("milestone_id", .str req.card.milestoneId),
    ("milestone_cleared", .bool cleared)]

omit [DecidableEq ι] in
theorem lookup_buildPatchStruct (req : UpdateCardRequest) (cleared : Bool) (n : ℕ) {field : String}
    (h : field ≠ "revision") :
    (buildPatchStruct (some (.obj (writtenFields req cleared))) n).lookup field =
      ((writtenFields req cleared).lookup field).filter fun a => !isUnchangedSentinel a := by
  refine (lookup_insertField h).trans (lookup_filter_snd (p := fun a => !isUnchangedSentinel a) ?_)
  change ["title", "description", "priority", "urgency", "blocked", "cover", "milestone_id",
    "milestone_cleared"].Nodup
  decide

/-- The milestone is told if the request writes it as it is stored. -/
theorem tellsMilestone_iff
    (hcodec : ∀ s y, codec.parse s = some y → isUnchangedSentinel (.str s) = false)
    (hm : PatchesMilestone codec req milestone) {old : Option ι} :
    (if (some (Atom.bool (milestone = some none))).bind readBool = some true then ""
      else (((some (Atom.str req.card.milestoneId)).filter fun a => !isUnchangedSentinel a).bind
        readText).getD ((old.map codec.toString).getD "")) =
      ((milestone.getD old).map codec.toString).getD "" ↔
    ∀ y, codec.parse req.card.milestoneId = some y → req.card.milestoneId = codec.toString y := by
  unfold PatchesMilestone at hm
  by_cases hempty : req.card.milestoneId = ""
  · have hparse : ∀ y, codec.parse req.card.milestoneId ≠ some y := fun y hy => by
      have hs := hcodec _ y hy
      rw [hempty] at hs
      cases hs
    rw [if_pos hempty] at hm
    refine iff_of_true ?_ fun y hy => absurd hy (hparse y)
    have hs : isUnchangedSentinel (.str "") = true := rfl
    rw [hm, hempty, Option.filter_some_neg (by rw [hs]; decide)]
    by_cases hnamed : "milestone_id" ∈ req.updateMask
    · rw [if_pos hnamed]
      rfl
    · rw [if_neg hnamed]
      rfl
  · rw [if_neg hempty] at hm
    subst hm
    cases hparse : codec.parse req.card.milestoneId with
    | none => exact iff_of_true (by simp [readBool]) nofun
    | some y =>
        rw [Option.filter_some_pos (by simp [hcodec _ _ hparse])]
        simp [readBool, readText]

omit [DecidableEq ι] in
theorem tellsDue_iff {due old : Option ℤ} :
    ((none : Option Atom).bind readNum).or old = due.or old ↔ due = none ∨ due = old := by
  cases due with
  | none => exact iff_of_true rfl (.inl rfl)
  | some d => exact ⟨fun h => .inr h.symm, fun h => (h.resolve_left nofun).symm⟩

omit [DecidableEq ι] in
theorem tellsBlocked_iff {blocked old : Bool} {mask : List String} :
    ((some (Atom.bool blocked)).bind readBool).getD old =
      (if blocked = true ∨ "blocked" ∈ mask then blocked else old) ↔
      blocked = true ∨ "blocked" ∈ mask ∨ old = false := by
  by_cases hset : blocked = true ∨ "blocked" ∈ mask
  · rw [if_pos hset]
    exact iff_of_true rfl (hset.imp_right .inl)
  · rw [if_neg hset]
    obtain ⟨hblocked, hmask⟩ := not_or.mp hset
    obtain rfl := Bool.eq_false_iff.mpr hblocked
    exact ⟨fun h => .inr (.inr h.symm), fun h => ((h.resolve_left hblocked).resolve_left hmask).symm⟩

/-- **When the patch is faithful.** -/
theorem applyPatch_iff (hcodec : ∀ s y, codec.parse s = some y → isUnchangedSentinel (.str s) = false)
    (hm : PatchesMilestone codec req milestone) {prevRevision newRevision : ℤ} {n : ℕ} :
    applyPatch (buildPatchStruct
      ((cardUpdated codec x prevRevision newRevision milestone req).lookup "patch") n)
        (cardView codec c) = cardView codec (patchCard req milestone c) ↔ PatchTells codec req c := by
  have hpatch : (cardUpdated codec x prevRevision newRevision milestone req).lookup "patch" =
      some (.obj (writtenFields req (milestone = some none))) := rfl
  rw [hpatch]
  have hlookup := fun field (h : field ≠ "revision") =>
    lookup_buildPatchStruct req (milestone = some none) n h
  generalize buildPatchStruct (some (.obj (writtenFields req (milestone = some none)))) n = patch at hlookup
  have htitle := hlookup "title" (by decide)
  have hdescription := hlookup "description" (by decide)
  have hpriority := hlookup "priority" (by decide)
  have hurgency := hlookup "urgency" (by decide)
  have hdue := hlookup "due" (by decide)
  have hblocked := hlookup "blocked" (by decide)
  have hcover := hlookup "cover" (by decide)
  have hid := hlookup "milestone_id" (by decide)
  have hcleared := hlookup "milestone_cleared" (by decide)
  simp only [applyPatch, cardView, patchCard, CardView.mk.injEq, htitle, hdescription, hpriority,
    hurgency, hdue, hblocked, hcover, hid, hcleared]
  constructor
  · rintro ⟨htitle, hdescription, hpriority, hurgency, hdue, hblocked, hcover, hmilestone⟩
    exact {
      title := tellsText_iff.mp htitle
      description := tellsText_iff.mp (hdescription.trans (sparseOption_getD _ _))
      cover := tellsText_iff.mp (hcover.trans (sparseOption_getD _ _))
      priority := (tellsEnum_iff enumNames_cardPriority).mp (hpriority.trans (by
        rw [apply_ite priorityToI32, priorityToI32_priorityFromI32]))
      urgency := (tellsEnum_iff enumNames_cardUrgency).mp (hurgency.trans (by
        rw [apply_ite urgencyToI32, urgencyToI32_urgencyFromI32]))
      due := tellsDue_iff.mp hdue
      blocked := tellsBlocked_iff.mp hblocked
      milestone := (tellsMilestone_iff hcodec hm).mp hmilestone }
  · intro h
    refine ⟨tellsText_iff.mpr h.title, (tellsText_iff.mpr h.description).trans
      (sparseOption_getD _ _).symm, ?_, ?_, tellsDue_iff.mpr h.due, tellsBlocked_iff.mpr h.blocked,
      (tellsText_iff.mpr h.cover).trans (sparseOption_getD _ _).symm,
      (tellsMilestone_iff hcodec hm).mpr h.milestone⟩
    · rw [apply_ite priorityToI32, priorityToI32_priorityFromI32]
      exact (tellsEnum_iff enumNames_cardPriority).mpr h.priority
    · rw [apply_ite urgencyToI32, urgencyToI32_urgencyFromI32]
      exact (tellsEnum_iff enumNames_cardUrgency).mpr h.urgency

end Row

/-! ## Identifiers -/

section Ids

variable {U : UlidCrate} {s : String} {x : Id}

/-- Dashes apart, the characters of a UUID are its digits. -/
theorem mem_digits {l digits : List Char} (h : uuidDigits l = some digits) (hmem : '_' ∈ l) :
    '_' ∈ digits := by
  unfold uuidDigits at h
  split at h
  · split at h
    · rename_i p0 p1 p2 p3 p4 hsplit
      split at h
      · cases h
      · cases h
        rw [← @List.intercalate_splitOn _ l _ _ '-', hsplit] at hmem
        rcases Percent.mem_intercalate hmem with hdash | ⟨p, hp, hmem⟩
        · cases List.mem_singleton.mp hdash
        · have hflat := List.mem_flatten_of_mem hp hmem
          simpa [or_assoc] using hflat
    · cases h
  · split at h
    · cases h
      exact hmem
    · cases h

/-- An identifier has no underscore. -/
theorem underscore_not_mem (hU : U.Documented) (h : Id.fromStr U s = some x) :
    s ≠ "" ∧ '_' ∉ s.toList := by
  unfold Id.fromStr at h
  cases hulid : parseUlid U s with
  | some v =>
      rw [parseUlid] at hulid
      split at hulid
      · cases hulid
      · rename_i hlen
        rw [hU.fromText_eq] at hulid
        split at hulid
        · obtain ⟨n, hn, -⟩ := Option.map_eq_some_iff.mp hulid
          refine ⟨?_, fun hmem => ?_⟩
          · rintro rfl
            exact hlen (by decide)
          · obtain ⟨d, hd⟩ := Numeral.Alphabet.exists_digit_of_read hn _ hmem
            cases hd
        · cases hulid
  | none =>
      rw [hulid] at h
      obtain ⟨v, hv, -⟩ := Option.map_eq_some_iff.mp h
      obtain ⟨digits, hdigits, hv⟩ := Option.bind_eq_some_iff.mp hv
      refine ⟨?_, fun hmem => ?_⟩
      · rintro rfl
        cases hdigits
      · have hmem' := mem_digits hdigits hmem
        split at hv
        · cases hv
        · rename_i hall
          exact absurd (List.all_eq_true.mp (not_not.mp hall) _ hmem') (by decide)

theorem not_sentinel_of_parse (hU : U.Documented) (h : (idCodec hU).parse s = some x) :
    isUnchangedSentinel (.str s) = false := by
  obtain ⟨hempty, hmem⟩ := underscore_not_mem hU h
  refine decide_eq_false (not_or.mpr ⟨hempty, fun hsuffix => hmem (hsuffix.subset ?_)⟩)
  decide

end Ids

/-! ## The call -/

section Law

variable {U : UlidCrate} {ctx : RequestContext} {w : World (Db Id) (Backend Id)} {t : String}
  {cardId : Id}

/-- **When a `CardUpdated` is faithful.**  An `UpdateCard` that runs alone and returns has written one
event, or none if its key was stored before.  The patch that the dispatcher makes of the event takes
what a client shows of the card to what is stored of it now exactly if the patch tells all that the
request does. -/
theorem card_patch_faithful_iff (hU : U.Documented) (hcards : Keyed w.store)
    (ht : ctx.auth.bind AuthContext.tenantId = some t)
    (hobject : ctx.checked.bind (idCodec hU).parse = some cardId) {req : UpdateCardRequest}
    {acts : List (Act (Move Id))} {th : Thread (Db Id) (Rec Id) (Call Id) (Reply Id) ConnectError Card}
    {w' : World (Db Id) (Backend Id)} {card : Card}
    (hrun : Machine.Exec (Thread.step (kanban Id)) (Thread.start (updateCard (idCodec hU) ctx req), w)
      acts (th, w')) (hok : th.prog.result = some (.ok card)) :
    (keyCard w.store t req.idempotencyKey ≠ none → w'.store.eventLog = w.store.eventLog ∧
      w'.store.cards = w.store.cards) ∧
    (keyCard w.store t req.idempotencyKey = none → ∃ e,
      w'.store.eventLog = w.store.eventLog ++ [e] ∧ e.eventType = "CardUpdated" ∧
      ∃ c ∈ w.store.cards, ∃ c' ∈ w'.store.cards, c.id = cardId ∧ c'.id = cardId ∧
        (applyPatch (buildPatchStruct (e.payload.lookup "patch") (jsonU64 e.payload "new_revision"))
          (cardView (idCodec hU) c) = cardView (idCodec hU) c' ↔ PatchTells (idCodec hU) req c)) := by
  obtain ⟨hreplay, hfresh⟩ := ((solo_updateCard_story hcards ht hobject).exec hrun).2 card hok
  refine ⟨fun hkey => ⟨congrArg Story.events (hreplay hkey), congrArg Story.cards (hreplay hkey)⟩,
    fun hkey => ?_⟩
  obtain ⟨milestone, hm, hrows, c, hc, hid, hct, e, he, hlog⟩ := hfresh hkey
  refine ⟨e, hlog, he.type, c, hc, patchCard req milestone c, ?_, hid, hid, ?_⟩
  · rw [hrows]
    exact List.mem_map.mpr ⟨c, hc, if_pos ⟨hid, hct⟩⟩
  · obtain ⟨revision, hpayload⟩ := he.payload
    have hpatch : e.payload.lookup "patch" =
        (cardUpdated (idCodec hU) cardId c.revision (c.revision + 1) milestone req).lookup "patch" := by
      rw [hpayload, withBoardRevision, List.lookup_append]
      rfl
    rw [hpatch]
    exact applyPatch_iff (fun _ _ => not_sentinel_of_parse hU) hm

end Law

/-- A board with a card that is blocked. -/
def blockedShip : World (Db Id) (Backend Id) where
  store := { Db.empty with
    boards := [⟨shipId, "t", shipId, "Dev", "dev", "", none, "private", 0⟩]
    cards := [⟨shipId, "t", shipId, shipId, shipId, "ROAD-001", "Ship", none, 0, "medium", "medium",
      none, none, true, none, none, "user:ann", 0⟩] }
  ext := Backend.empty

/-- The title is to be another one, and the card is to be blocked or not. -/
def renamesShip (blocked : Bool) : UpdateCardRequest :=
  ⟨⟨"Launch", "", 0, 0, none, blocked, "", ""⟩, ["title"], ""⟩

def renameSteps : List (Act (Move Id)) :=
  [.ok, .ok, .ok, .ok, .move (.fresh shipId)] ++ List.replicate 11 .ok

/-- A card that stays blocked is blocked in the patch too. -/
theorem card_patch_faithful_iff_blocked :
    ∃ th w' card, Machine.Exec (Thread.step (kanban Id)) (Thread.start (updateCard crockfordIds
        (readerOf canonicalCard) (renamesShip true)), blockedShip) renameSteps (th, w') ∧
      th.prog.result = some (.ok card) ∧ ∃ e, w'.store.eventLog = [e] ∧ ∃ c ∈ blockedShip.store.cards,
        ∃ c' ∈ w'.store.cards, applyPatch (buildPatchStruct (e.payload.lookup "patch")
          (jsonU64 e.payload "new_revision")) (cardView crockfordIds c) = cardView crockfordIds c' := by
  obtain ⟨th, w', card, hrun, hok⟩ : ∃ th w' card, Machine.run (Thread.step (kanban Id))
      (Thread.start (updateCard crockfordIds (readerOf canonicalCard) (renamesShip true)), blockedShip)
        renameSteps = some (th, w') ∧ th.prog.result = some (.ok card) := ⟨_, _, _, rfl, rfl⟩
  have hcall := Machine.exec_of_run hrun
  obtain ⟨-, hfresh⟩ := @card_patch_faithful_iff _ (readerOf canonicalCard) blockedShip "t" shipId
    documented_crockfordCrate (by decide) rfl (by decide) _ _ _ _ _ hcall hok
  obtain ⟨e, hlog, -, c, hc, c', hc', -, -, hiff⟩ := hfresh rfl
  refine ⟨th, w', card, hcall, hok, e, hlog, c, hc, c', hc', hiff.mpr ?_⟩
  obtain rfl := List.mem_singleton.mp hc
  exact ⟨.inr (.inl (by decide +kernel)), .inl rfl, .inl rfl, by decide, by decide, .inl rfl, .inl rfl,
    fun y hy => by cases hy⟩

/-- A request that does not say that a card is blocked leaves it blocked, and its patch does not. -/
theorem blocked_card_shown_free :
    ∃ th w' card, Machine.Exec (Thread.step (kanban Id)) (Thread.start (updateCard crockfordIds
        (readerOf canonicalCard) (renamesShip false)), blockedShip) renameSteps (th, w') ∧
      th.prog.result = some (.ok card) ∧ ∀ e, w'.store.eventLog = [e] →
        ∀ c ∈ blockedShip.store.cards, ∀ c' ∈ w'.store.cards, applyPatch
          (buildPatchStruct (e.payload.lookup "patch") (jsonU64 e.payload "new_revision"))
          (cardView crockfordIds c) ≠ cardView crockfordIds c' := by
  obtain ⟨th, w', card, hrun, hok, e, hlog, hpatch, hblocked⟩ : ∃ th w' card, Machine.run
      (Thread.step (kanban Id)) (Thread.start (updateCard crockfordIds (readerOf canonicalCard)
        (renamesShip false)), blockedShip) renameSteps = some (th, w') ∧
      th.prog.result = some (.ok card) ∧ ∃ e, w'.store.eventLog = [e] ∧
      e.payload.lookup "patch" = some (.obj (writtenFields (renamesShip false) false)) ∧
      ∀ c' ∈ w'.store.cards, c'.blocked = true := ⟨_, _, _, rfl, rfl, _, rfl, rfl, by decide⟩
  refine ⟨th, w', card, Machine.exec_of_run hrun, hok, fun e' hlog' c _ c' hc' heq => ?_⟩
  obtain rfl : e = e' := List.singleton_inj.mp (hlog.symm.trans hlog')
  have hshown : (applyPatch (buildPatchStruct (e.payload.lookup "patch")
      (jsonU64 e.payload "new_revision")) (cardView crockfordIds c)).blocked = false := by
    rw [hpatch]
    unfold applyPatch
    dsimp only
    rw [lookup_buildPatchStruct _ _ _ (by decide)]
    rfl
  rw [heq] at hshown
  exact absurd ((hblocked c' hc').symm.trans hshown) (by decide)

end Kanban.Rpc
