import Kanban.Lib.DotSegments
import Kanban.Rpc.Attachments

/-!
# The keys of attachments

The key of an attachment is a path, of which the file name is the last component.  Whoever resolves the
path takes the dot segments out of it.  What `sanitize_filename` leaves of a file name may be empty or a
dot segment, and then the path does not lead into the directory of the attachment.

## Main definitions

* `PathClient`, `PathClient.resolve` — a client or a proxy, and how it resolves a path.
* `SafeComponent`, `Confined` — a safe file name, and a key that stays in its directory.
* `DotName` — the file names of which nothing but a dot segment is left.
* `attachment_key_confined_iff` — when the key of an upload is confined.
-/

namespace Kanban.Rpc

open Program DotSegments Text Kanban.Store Kanban.Auth Kanban.Ids Kanban.Integrations
open Kanban.Services (ConnectError IdCodec isWhitespace)

/-! ## Clients -/

/-- Somebody who resolves paths, by the texts that it takes for a dot.  The dot is one of them, and each
holds a dot or an escape. -/
structure PathClient where
  dots : List (List Char)
  dot_mem : ['.'] ∈ dots
  marked : ∀ t ∈ dots, ∃ c ∈ t, c = '.' ∨ c = '%'

namespace PathClient

/-- Only dots are dots, as in RFC 3986. -/
def literal : PathClient where
  dots := [['.']]
  dot_mem := List.mem_singleton_self _
  marked := by decide

/-- A client that also takes the escape of a dot for a dot. -/
def escaped : PathClient where
  dots := [['.'], ['%', '2', 'e'], ['%', '2', 'E']]
  dot_mem := List.mem_cons_self
  marked := by decide

/-- The segment of a directory itself. -/
def self (client : PathClient) (s : List Char) : Bool := s ∈ client.dots

/-- The segment of the parent of a directory. -/
def parent (client : PathClient) (s : List Char) : Bool :=
  client.dots.any fun a => client.dots.any fun b => s = a ++ b

variable {client : PathClient} {s : List Char}

theorem self_dot : client.self ['.'] = true := decide_eq_true client.dot_mem

theorem parent_dots : client.parent ['.', '.'] = true :=
  List.any_eq_true.mpr ⟨['.'], client.dot_mem, List.any_eq_true.mpr ⟨['.'], client.dot_mem, rfl⟩⟩

/-- A segment without dots and escapes is no dot segment. -/
theorem ordinary (hs : ∀ c ∈ s, c ≠ '.' ∧ c ≠ '%') : Ordinary client.self client.parent s := by
  have hplain : ∀ t ∈ client.dots, ∃ c ∈ t, c ∉ s := by
    intro t ht
    obtain ⟨c, hc, hmark⟩ := client.marked t ht
    exact ⟨c, hc, fun hmem => hmark.elim (hs c hmem).1 (hs c hmem).2⟩
  constructor
  · refine decide_eq_false fun hmem => ?_
    obtain ⟨c, hc, hnot⟩ := hplain s hmem
    exact hnot hc
  · rw [← Bool.not_eq_true, parent, List.any_eq_true]
    rintro ⟨a, ha, hb⟩
    obtain ⟨b, -, hab⟩ := List.any_eq_true.mp hb
    obtain rfl := of_decide_eq_true hab
    obtain ⟨c, hc, hnot⟩ := hplain a ha
    exact hnot (List.mem_append_left b hc)

/-- The path of a key, resolved. -/
def resolve (client : PathClient) (key : String) : String :=
  String.ofList (['/'].intercalate (removeDots client.self client.parent [] (key.toList.splitOn '/')))

end PathClient

/-! ## Names and keys -/

/-- A name that is safe as one component of a path. -/
structure SafeComponent (name : String) : Prop where
  ne_empty : name ≠ ""
  plain : ∀ c ∈ name.toList, c ≠ '/' ∧ c ≠ '\\' ∧ isControl c = false
  ne_dot : name ≠ "."
  ne_dots : name ≠ ".."

section Keys

variable {ι : Type}

/-- The directory of an attachment. -/
def attachmentDir (codec : IdCodec ι) (cardId attachmentId : ι) : String :=
  "kanban/cards/" ++ codec.toString cardId ++ "/" ++ codec.toString attachmentId ++ "/"

/-- Resolved, the key lies in the directory of its attachment, and no other attachment has it. -/
structure Confined (codec : IdCodec ι) (client : PathClient) (cardId attachmentId : ι) (key : String) :
    Prop where
  under : ∃ rest, rest ≠ "" ∧ client.resolve key = attachmentDir codec cardId attachmentId ++ rest
  apart : ∀ cardId' attachmentId' filename, attachmentId' ≠ attachmentId →
    client.resolve key ≠ client.resolve (s3Key codec cardId' attachmentId' (sanitizeFilename filename))

end Keys

/-- The characters of a file name that are no separators and no control characters. -/
def visible (name : String) : List Char :=
  name.toList.filter fun c => !isControl c && c ≠ '/' && c ≠ '\\'

/-- Between the blanks around its visible characters, a file name has none, or a dot segment. -/
def DotName (client : PathClient) (filename : String) : Prop :=
  ∃ l core r, visible filename = l ++ core ++ r ∧
    (∀ c ∈ l, isWhitespace c = true) ∧ (∀ c ∈ r, isWhitespace c = true) ∧
    (∀ c ∈ core.head?, isWhitespace c = false) ∧ (∀ c ∈ core.getLast?, isWhitespace c = false) ∧
    (core = [] ∨ client.self core = true ∨ client.parent core = true)

/-! ## File names -/

section Filenames

variable {client : PathClient} {filename : String}

theorem toList_sanitizeFilename :
    (sanitizeFilename filename).toList = trim isWhitespace (visible filename) := by
  rw [sanitizeFilename, String.toList_ofList, visible]
  congr 1
  refine List.filter_congr fun c _ => ?_
  -- the zero is a control character
  by_cases hc : c = Char.ofNat 0
  · rw [hc]
    decide
  · rw [decide_eq_true hc, Bool.and_true]

theorem dotName_iff : DotName client filename ↔
    (sanitizeFilename filename).toList = [] ∨ client.self (sanitizeFilename filename).toList = true ∨
      client.parent (sanitizeFilename filename).toList = true := by
  rw [toList_sanitizeFilename]
  constructor
  · rintro ⟨l, core, r, hs, hl, hr, hhead, hlast, hcore⟩
    rw [hs, trim_padded hl hr, trim_eq_self hhead hlast]
    exact hcore
  · intro h
    obtain ⟨l, r, hs, hl, hr⟩ := exists_padding isWhitespace (visible filename)
    exact ⟨l, _, r, hs, hl, hr, fun _ hc => not_head_trim hc, fun _ hc => not_getLast_trim hc, h⟩

theorem mem_visible_of_mem_sanitizeFilename {c : Char} (hc : c ∈ (sanitizeFilename filename).toList) :
    c ∈ visible filename := by
  rw [toList_sanitizeFilename] at hc
  obtain ⟨l, r, hs, -, -⟩ := exists_padding isWhitespace (visible filename)
  rw [hs]
  exact List.mem_append_left _ (List.mem_append_right _ hc)

/-- What is left of a file name is safe, unless it is empty or a dot segment. -/
theorem safeComponent_of_not_dotName (h : ¬ DotName client filename) :
    SafeComponent (sanitizeFilename filename) := by
  rw [dotName_iff, not_or, not_or] at h
  obtain ⟨hne, hself, hparent⟩ := h
  refine ⟨fun heq => hne (by rw [heq]; rfl), fun c hc => ?_, fun heq => hself ?_, fun heq => hparent ?_⟩
  · have hvisible := (List.mem_filter.mp (mem_visible_of_mem_sanitizeFilename hc)).2
    simp only [Bool.and_eq_true, Bool.not_eq_true', decide_eq_true_eq] at hvisible
    exact ⟨hvisible.1.2, hvisible.2, hvisible.1.1⟩
  · rw [heq]
    exact client.self_dot
  · rw [heq]
    exact client.parent_dots

end Filenames

/-! ## Keys -/

section Segments

variable {U : UlidCrate} {client : PathClient} {cardId attachmentId : Id} {filename name : String}

/-- The segments of the directory of an attachment. -/
def dirSegments {ι : Type} (codec : IdCodec ι) (cardId attachmentId : ι) : List (List Char) :=
  ["kanban".toList, "cards".toList, (codec.toString cardId).toList, (codec.toString attachmentId).toList]

theorem toList_path {a b c d e s : String} (hslash : s.toList = ['/']) :
    (a ++ s ++ b ++ s ++ c ++ s ++ d ++ s ++ e).toList =
      ['/'].intercalate [a.toList, b.toList, c.toList, d.toList, e.toList] := by
  simp [String.toList_append, List.intercalate, List.intersperse, hslash]

theorem toList_s3Key {ι : Type} {codec : IdCodec ι} {cardId attachmentId : ι} :
    (s3Key codec cardId attachmentId name).toList =
      ['/'].intercalate (dirSegments codec cardId attachmentId ++ [name.toList]) := by
  have hcards : "kanban/cards/" = "kanban" ++ "/" ++ "cards" ++ "/" := by decide +kernel
  refine Eq.trans ?_ (toList_path (s := "/") rfl)
  exact congrArg (fun cards => (cards ++ codec.toString cardId ++ "/" ++ codec.toString attachmentId ++
    "/" ++ name).toList) hcards

theorem s3Key_eq {ι : Type} {codec : IdCodec ι} {cardId attachmentId : ι} :
    s3Key codec cardId attachmentId name = attachmentDir codec cardId attachmentId ++ name := rfl

/-- The directory has no dots and no escapes in its segments. -/
theorem plain_dirSegments (hU : U.Documented) :
    ∀ s ∈ dirSegments (idCodec hU) cardId attachmentId, ∀ c ∈ s, c ≠ '/' ∧ c ≠ '.' ∧ c ≠ '%' := by
  have hid : ∀ x : Id, ∀ c ∈ ((idCodec hU).toString x).toList, c ≠ '/' ∧ c ≠ '.' ∧ c ≠ '%' := fun x =>
    forall_mem_display hU (by decide) (by decide) (by decide)
  simp only [dirSegments, List.forall_mem_cons]
  exact ⟨by decide, by decide, hid cardId, hid attachmentId, List.forall_mem_nil _⟩

/-- What the segments of a key become. -/
def resolved (client : PathClient) {ι : Type} (codec : IdCodec ι) (cardId attachmentId : ι)
    (name : String) : List (List Char) :=
  let dir := dirSegments codec cardId attachmentId
  if client.self name.toList then dir ++ [[]]
  else if client.parent name.toList then dir.dropLast ++ [[]]
  else dir ++ [name.toList]

theorem slash_not_mem_resolved (hU : U.Documented) (hname : '/' ∉ name.toList) :
    ∀ s ∈ resolved client (idCodec hU) cardId attachmentId name, '/' ∉ s := by
  have hdir : ∀ s ∈ dirSegments (idCodec hU) cardId attachmentId, '/' ∉ s := fun s hs hmem =>
    (plain_dirSegments hU s hs _ hmem).1 rfl
  have hlast : ∀ s ∈ [([] : List Char)], '/' ∉ s := by decide
  unfold resolved
  dsimp only
  split
  · exact List.forall_mem_append.mpr ⟨hdir, hlast⟩
  · split
    · exact List.forall_mem_append.mpr ⟨fun s hs => hdir s (List.mem_of_mem_dropLast hs), hlast⟩
    · exact List.forall_mem_append.mpr ⟨hdir, List.forall_mem_singleton.mpr hname⟩

theorem resolved_ne_nil {ι : Type} {codec : IdCodec ι} {cardId attachmentId : ι} :
    resolved client codec cardId attachmentId name ≠ [] := by
  unfold resolved
  dsimp only
  split
  · exact List.concat_ne_nil _ _
  · split
    · exact List.concat_ne_nil _ _
    · exact List.concat_ne_nil _ _

theorem resolve_s3Key (hU : U.Documented) (hname : '/' ∉ name.toList) :
    client.resolve (s3Key (idCodec hU) cardId attachmentId name) =
      String.ofList (['/'].intercalate (resolved client (idCodec hU) cardId attachmentId name)) := by
  have hplain : ∀ s ∈ dirSegments (idCodec hU) cardId attachmentId, ∀ c ∈ s, c ≠ '/' ∧ c ≠ '.' ∧ c ≠ '%' :=
    plain_dirSegments hU
  rw [PathClient.resolve, toList_s3Key, List.splitOn_intercalate _ _ (List.concat_ne_nil _ _),
    removeDots_concat fun s hs => PathClient.ordinary fun c hc => (hplain s hs c hc).2]
  · rfl
  · exact List.forall_mem_append.mpr ⟨fun s hs hmem => (hplain s hs _ hmem).1 rfl,
      List.forall_mem_singleton.mpr hname⟩

/-- Different attachments have different keys, if one of them has a safe name. -/
theorem resolve_ne (hU : U.Documented) {cardId' attachmentId' : Id} {name' : String}
    (hname : '/' ∉ name.toList) (hname' : '/' ∉ name'.toList)
    (hordinary : Ordinary client.self client.parent name.toList) (hne : attachmentId' ≠ attachmentId) :
    client.resolve (s3Key (idCodec hU) cardId attachmentId name) ≠
      client.resolve (s3Key (idCodec hU) cardId' attachmentId' name') := by
  rw [resolve_s3Key hU hname, resolve_s3Key hU hname']
  intro h
  have hsplit := congrArg (fun s : String => s.toList.splitOn '/') h
  simp only [String.toList_ofList] at hsplit
  rw [List.splitOn_intercalate _ (slash_not_mem_resolved hU hname) resolved_ne_nil,
    List.splitOn_intercalate _ (slash_not_mem_resolved hU hname') resolved_ne_nil] at hsplit
  -- the attachment is the last segment of the directory
  have hdir : ∀ last, dirSegments (idCodec hU) cardId attachmentId ++ [name.toList] ≠
      dirSegments (idCodec hU) cardId' attachmentId' ++ [last] := by
    intro last heq
    have hids := (List.append_inj_left' heq rfl)
    simp only [dirSegments, List.cons.injEq, true_and, and_true] at hids
    exact hne ((idCodec hU).toString_injective (String.toList_inj.mp hids.2)).symm
  unfold resolved at hsplit
  dsimp only at hsplit
  rw [hordinary.1, hordinary.2] at hsplit
  simp only [Bool.false_eq_true, if_false] at hsplit
  split at hsplit
  · exact hdir _ hsplit
  · split at hsplit
    · exact absurd (show 5 = 4 from congrArg List.length hsplit) (by decide)
    · exact hdir _ hsplit

/-- A dot segment leads out of the directory, or nowhere in it. -/
theorem not_under_of_dots (hU : U.Documented) (hname : '/' ∉ name.toList)
    (h : name.toList = [] ∨ client.self name.toList = true ∨ client.parent name.toList = true) :
    ¬ ∃ rest, rest ≠ "" ∧ client.resolve (s3Key (idCodec hU) cardId attachmentId name) =
      attachmentDir (idCodec hU) cardId attachmentId ++ rest := by
  rintro ⟨rest, hrest, heq⟩
  rw [resolve_s3Key hU hname] at heq
  have hlist := congrArg (fun s : String => s.toList.length) heq
  simp only [String.toList_ofList, String.toList_append, List.length_append] at hlist
  have hpos : 0 < rest.toList.length :=
    List.length_pos_iff.mpr fun h => hrest (String.toList_inj.mp h)
  have hdir : (attachmentDir (idCodec hU) cardId attachmentId).toList =
      ['/'].intercalate (dirSegments (idCodec hU) cardId attachmentId ++ [[]]) := by
    rw [← String.append_empty (s := attachmentDir (idCodec hU) cardId attachmentId), ← s3Key_eq]
    exact toList_s3Key
  have hshort : (['/'].intercalate (resolved client (idCodec hU) cardId attachmentId name)).length ≤
      (attachmentDir (idCodec hU) cardId attachmentId).toList.length := by
    rw [hdir]
    unfold resolved
    dsimp only
    split
    · exact le_rfl
    · split
      · simp [dirSegments, List.intercalate, List.intersperse]
      · rename_i hself hparent
        rw [h.resolve_right (not_or.mpr ⟨hself, hparent⟩)]
  omega

end Segments

section Runs

variable {U : UlidCrate} {S : AttachmentService} {now : ℕ} {ctx : RequestContext}
  {req : RequestPresignedUploadRequest} {w w' : World (Db Id) (Backend Id)} {acts : List (Act (Move Id))}
  {t : Thread (Db Id) (Rec Id) (Call Id) (Reply Id) ConnectError RequestPresignedUploadResponse}
  {resp : RequestPresignedUploadResponse}

/-- **The key of an upload is confined** for a client exactly if its file name is not, but for what is
taken out of it, empty or a dot segment of that client. -/
theorem attachment_key_confined_iff (hU : U.Documented)
    (hrun : Machine.Exec (Thread.step (kanban Id))
      (Thread.start (requestPresignedUpload (idCodec hU) S now ctx req), w) acts (t, w'))
    (hok : t.prog.result = some (.ok resp)) (client : PathClient) :
    ∃ cardId attachmentId, ctx.checked.bind (idCodec hU).parse = some cardId ∧
      (idCodec hU).parse resp.attachmentId = some attachmentId ∧
      resp.s3Key = s3Key (idCodec hU) cardId attachmentId (sanitizeFilename req.filename) ∧
      (SafeComponent (sanitizeFilename req.filename) ∧
        Confined (idCodec hU) client cardId attachmentId resp.s3Key ↔ ¬ DotName client req.filename) := by
  obtain ⟨cardId, attachmentId, hcard, hattachment, hkey, -⟩ :=
    (solo_requestPresignedUpload.exec hrun).2 resp hok
  refine ⟨cardId, attachmentId, hcard, by rw [hattachment, IdCodec.parse_toString], hkey, ?_⟩
  rw [hkey]
  constructor
  · rintro ⟨-, hconfined⟩ hdots
    exact not_under_of_dots hU slash_not_mem_sanitizeFilename (dotName_iff.mp hdots) hconfined.under
  · intro hdots
    have hsafe := safeComponent_of_not_dotName hdots
    rw [dotName_iff, not_or, not_or, Bool.not_eq_true, Bool.not_eq_true] at hdots
    obtain ⟨-, hordinary⟩ := hdots
    refine ⟨hsafe, ⟨sanitizeFilename req.filename, hsafe.ne_empty, ?_⟩, fun _ _ _ hne =>
      resolve_ne hU slash_not_mem_sanitizeFilename slash_not_mem_sanitizeFilename hordinary hne⟩
    rw [resolve_s3Key hU slash_not_mem_sanitizeFilename, ← s3Key_eq]
    refine String.toList_inj.mp ?_
    rw [String.toList_ofList, toList_s3Key, resolved, hordinary.1, hordinary.2]
    rfl

end Runs

theorem attachment_key_confined_iff_report :
    ∃ t w' resp cardId attachmentId, Machine.Exec (Thread.step (kanban Id))
        (Thread.start (uploadOf "report.pdf"), storedShip) uploadSteps (t, w') ∧
      t.prog.result = some (.ok resp) ∧ Confined crockfordIds .escaped cardId attachmentId resp.s3Key := by
  obtain ⟨t, w', resp, hrun, hok⟩ : ∃ t w' resp, Machine.run (Thread.step (kanban Id))
      (Thread.start (uploadOf "report.pdf"), storedShip) uploadSteps = some (t, w') ∧
      t.prog.result = some (.ok resp) := ⟨_, _, _, rfl, rfl⟩
  have hexec := Machine.exec_of_run hrun
  obtain ⟨cardId, attachmentId, -, -, -, hiff⟩ :=
    attachment_key_confined_iff documented_crockfordCrate hexec hok .escaped
  refine ⟨t, w', resp, cardId, attachmentId, hexec, hok, (hiff.mpr fun hdots => ?_).2⟩
  exact absurd (dotName_iff.mp hdots) (by decide +kernel)

/-- Two dots with a slash between them are admitted, and lead out of the directory: all attachments of
the card that are called so have one key. -/
theorem dots_lead_out_of_directory :
    ∃ t w' resp, Machine.Exec (Thread.step (kanban Id)) (Thread.start (uploadOf "./."), storedShip)
        uploadSteps (t, w') ∧ t.prog.result = some (.ok resp) ∧
      crockfordIds.parse resp.attachmentId = some ⟨1, .ulid⟩ ∧
      ¬ SafeComponent (sanitizeFilename "./.") ∧
      PathClient.literal.resolve resp.s3Key = "kanban/cards/" ++ canonicalCard ++ "/" ∧
      PathClient.literal.resolve resp.s3Key =
        PathClient.literal.resolve (s3Key crockfordIds shipId ⟨2, .ulid⟩ (sanitizeFilename "./.")) ∧
      ¬ Confined crockfordIds .literal shipId ⟨1, .ulid⟩ resp.s3Key := by
  obtain ⟨t, w', resp, hrun, hok, rfl⟩ : ∃ t w' resp, Machine.run (Thread.step (kanban Id))
      (Thread.start (uploadOf "./."), storedShip) uploadSteps = some (t, w') ∧
      t.prog.result = some (.ok resp) ∧
      (⟨presignPut uploads.crypto uploads.s3 0 (s3Key crockfordIds shipId ⟨1, .ulid⟩
        (sanitizeFilename "./.")) "application/pdf" 900, s3Key crockfordIds shipId ⟨1, .ulid⟩
        (sanitizeFilename "./."), crockfordIds.toString ⟨1, .ulid⟩⟩ :
        RequestPresignedUploadResponse) = resp := ⟨_, _, _, rfl, rfl, rfl⟩
  have hname : sanitizeFilename "./." = ".." := by decide +kernel
  have hsame : PathClient.literal.resolve (s3Key crockfordIds shipId ⟨1, .ulid⟩ (sanitizeFilename "./.")) =
      PathClient.literal.resolve (s3Key crockfordIds shipId ⟨2, .ulid⟩ (sanitizeFilename "./.")) := by
    decide +kernel
  refine ⟨t, w', _, Machine.exec_of_run hrun, hok, crockfordIds.parse_toString ⟨1, .ulid⟩,
    fun h => h.ne_dots hname, by decide +kernel, hsame, fun h => ?_⟩
  exact h.apart shipId ⟨2, .ulid⟩ "./." (by decide) hsame

end Kanban.Rpc
