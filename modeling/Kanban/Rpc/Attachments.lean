import Kanban.Ids.Codec
import Kanban.Integrations.Digest
import Kanban.Rpc.Alone
import Kanban.Rpc.CheckedIds

/-!
# Uploads

`RequestPresignedUpload` makes the key of an object from the ids of the card and of the attachment and
from the file name, stores the attachment and returns a signed URL for it.

## Main definitions

* `requestPresignedUpload` — the handler.
* `presigned_url_addresses_iff` — when a URL for the key addresses the object.
-/

namespace Kanban.Rpc

open Program Kanban.Store Kanban.Auth Kanban.Ids Kanban.Integrations
open Kanban.Services (AuthContext ConnectError IdCodec)

/-- What the service is made with. -/
structure AttachmentService where
  crypto : Crypto
  s3 : S3Config
  uploadExpiresSecs : ℕ

structure RequestPresignedUploadRequest where
  filename : String
  mimeType : String
  deriving DecidableEq, Repr

structure RequestPresignedUploadResponse where
  presignedUrl : String
  s3Key : String
  attachmentId : String
  deriving DecidableEq, Repr

section Handler

variable {ι : Type} [DecidableEq ι]

/-- The key of an object. -/
def s3Key (codec : IdCodec ι) (cardId attachmentId : ι) (safeFilename : String) : String :=
  "kanban/cards/" ++ codec.toString cardId ++ "/" ++ codec.toString attachmentId ++ "/" ++ safeFilename

/-- `RequestPresignedUpload` at the time `now`. -/
def requestPresignedUpload (codec : IdCodec ι) (S : AttachmentService) (now : ℕ)
    (ctx : RequestContext) (req : RequestPresignedUploadRequest) :
    Handler ι RequestPresignedUploadResponse := do
  let tenantId ← tenantIdFromRequest ctx
  let _ ← subjectFromRequest ctx
  let objectId ← checkedObjectId ctx
  let cardId ← parseId codec "invalid card_id in x-sunbeam-object-id" objectId
  ensure (req.filename ≠ "") (invalidArgument "filename is required")
  ensure (req.mimeType ≠ "") (invalidArgument "mime_type is required")
  let attachmentId ← newId
  let key := s3Key codec cardId attachmentId (sanitizeFilename req.filename)
  query "failed to insert attachment row" (Db.attachmentsT.insert ⟨attachmentId, tenantId, cardId⟩)
  .pure ⟨presignPut S.crypto S.s3 now key req.mimeType S.uploadExpiresSecs, key,
    codec.toString attachmentId⟩

/-- What the handler returns. -/
theorem solo_requestPresignedUpload {codec : IdCodec ι} {S : AttachmentService} {now : ℕ}
    {ctx : RequestContext} {req : RequestPresignedUploadRequest} {db : Db ι} :
    Solo (kanban ι) (fun _ => True) (requestPresignedUpload codec S now ctx req) .idle db
      fun resp _ _ => ∃ cardId attachmentId,
        ctx.checked.bind codec.parse = some cardId ∧ resp.attachmentId = codec.toString attachmentId ∧
        resp.s3Key = s3Key codec cardId attachmentId (sanitizeFilename req.filename) ∧
        resp.presignedUrl =
          presignPut S.crypto S.s3 now resp.s3Key req.mimeType S.uploadExpiresSecs := by
  refine solo_orError_bind fun tenantId _ => solo_orError_bind fun subject _ =>
    solo_orError_bind fun objectId hobject => solo_orError_bind fun cardId hcard =>
    solo_ensure_bind fun _ => solo_ensure_bind fun _ =>
    solo_bind (solo_call fun attachmentId => solo_pure ?_)
  refine solo_bind (solo_stmt_idle (fun e _ => ⟨.inr trivial, solo_pure ?_⟩) solo_fail)
  refine solo_pure ⟨cardId, attachmentId, ?_, rfl, rfl, rfl⟩
  rw [hobject]
  exact hcard

end Handler

section Keys

variable {U : UlidCrate} {x : Id}

/-- The texts of identifiers are digits and dashes. -/
theorem forall_mem_display {P : Char → Prop} (hU : U.Documented) (hcrockford : ∀ c ∈ crockfordSymbols, P c)
    (hhex : ∀ c ∈ hexSymbols, P c) (hdash : P '-') : ∀ c ∈ (x.display U).toList, P c := by
  obtain ⟨v, kind⟩ := x
  cases kind with
  | ulid => exact fun c hc => hcrockford c ((canonical_toText hU v).2.1 c hc)
  | uuid =>
      obtain ⟨groups, -, hmem, hs⟩ := canonical_formatUuid v
      intro c hc
      rw [Id.display, hs] at hc
      rcases Percent.mem_intercalate hc with h | ⟨g, hg, h⟩
      · exact List.mem_singleton.mp h ▸ hdash
      · exact hhex c (hmem c (List.mem_flatten_of_mem hg h))

/-- The texts of identifiers have nothing to be encoded. -/
theorem isUnreserved_of_mem_display (hU : U.Documented) :
    ∀ c ∈ (x.display U).toList, isUnreserved c :=
  forall_mem_display hU (by decide) (by decide) (by decide)

/-- In the path of an object only the bucket and the file name may have something to be encoded. -/
theorem keepsInPath_objectPath (hU : U.Documented) {cfg : S3Config} {cardId attachmentId : Id}
    {name : String} :
    (∀ c ∈ (objectPath cfg (s3Key (idCodec hU) cardId attachmentId (sanitizeFilename name))).toList,
        keepsInPath c) ↔
      (∀ c ∈ cfg.bucket.toList, keepsInPath c) ∧
        ∀ c ∈ (sanitizeFilename name).toList, isUnreserved c := by
  have hdisplay : ∀ x : Id, ∀ c ∈ ((idCodec hU).toString x).toList, keepsInPath c := fun x c hc =>
    Bool.or_eq_true_iff.mpr (.inl (isUnreserved_of_mem_display hU c hc))
  have hslash : ∀ c ∈ "/".toList, keepsInPath c := by decide
  have hcards : ∀ c ∈ "kanban/cards/".toList, keepsInPath c := by decide
  constructor
  · intro h
    obtain ⟨hbucket, hkey⟩ := keepsInPath_append.mp h
    obtain ⟨hbucket, -⟩ := keepsInPath_append.mp hbucket
    exact ⟨(keepsInPath_append.mp hbucket).2,
      keepsInPath_sanitizeFilename.mp (keepsInPath_append.mp hkey).2⟩
  · rintro ⟨hbucket, hname⟩
    have hids := keepsInPath_append.mpr ⟨keepsInPath_append.mpr ⟨keepsInPath_append.mpr
      ⟨keepsInPath_append.mpr ⟨hcards, hdisplay cardId⟩, hslash⟩, hdisplay attachmentId⟩, hslash⟩
    refine keepsInPath_append.mpr ⟨keepsInPath_append.mpr ⟨keepsInPath_append.mpr ⟨hslash, hbucket⟩,
      hslash⟩, keepsInPath_append.mpr ⟨hids, keepsInPath_sanitizeFilename.mpr hname⟩⟩

/-- **A signed URL addresses its object** exactly if the bucket and the file name, without what is
taken out of it, have nothing to be encoded. -/
theorem presigned_url_addresses_iff (hU : U.Documented) {S : AttachmentService}
    (ho : Percent.Origin (trimSlashes S.s3.presignEndpoint).toList) {now : ℕ} {ctx : RequestContext}
    {req : RequestPresignedUploadRequest} {w w' : World (Db Id) (Backend Id)}
    {acts : List (Act (Move Id))} {t resp}
    (hrun : Machine.Exec (Thread.step (kanban Id))
      (Thread.start (requestPresignedUpload (idCodec hU) S now ctx req), w) acts (t, w'))
    (hok : t.prog.result = some (.ok resp)) :
    resp.presignedUrl = presignPut S.crypto S.s3 now resp.s3Key req.mimeType S.uploadExpiresSecs ∧
      ∀ now method expiresIn extraHeader,
        PresignAddresses S.crypto S.s3 now method resp.s3Key expiresIn extraHeader ↔
          (∀ c ∈ S.s3.bucket.toList, keepsInPath c) ∧
            ∀ c ∈ (sanitizeFilename req.filename).toList, isUnreserved c := by
  obtain ⟨cardId, attachmentId, -, -, hkey, hurl⟩ := (solo_requestPresignedUpload.exec hrun).2 resp hok
  refine ⟨hurl, fun now method expiresIn extraHeader => ?_⟩
  rw [presignAddresses_iff ho, hkey, keepsInPath_objectPath hU]

end Keys

/-- A service with an object store on the same host. -/
def uploads : AttachmentService where
  crypto := documentedCrypto
  s3 := ⟨"http://localhost:9000/", none, "us-east-1", "key", "secret", "bucket"⟩
  uploadExpiresSecs := 900

theorem origin_uploads : Percent.Origin (trimSlashes uploads.s3.presignEndpoint).toList :=
  ⟨"http".toList, "localhost:9000".toList, by decide +kernel, by decide, by decide⟩

/-- An upload to the card, and the steps that it takes. -/
def uploadOf (filename : String) : Handler Id RequestPresignedUploadResponse :=
  requestPresignedUpload crockfordIds uploads 0 (readerOf canonicalCard) ⟨filename, "application/pdf"⟩

def uploadSteps : List (Act (Move Id)) := [.move (.fresh ⟨1, .ulid⟩), .ok]

theorem presigned_url_addresses_iff_report :
    ∃ t w' resp, Machine.Exec (Thread.step (kanban Id)) (Thread.start (uploadOf "report.pdf"),
        storedShip) uploadSteps (t, w') ∧ t.prog.result = some (.ok resp) ∧
      PresignAddresses uploads.crypto uploads.s3 0 "GET" resp.s3Key 900 none := by
  obtain ⟨t, w', resp, hrun, hok⟩ : ∃ t w' resp, Machine.run (Thread.step (kanban Id))
      (Thread.start (uploadOf "report.pdf"), storedShip) uploadSteps = some (t, w') ∧
      t.prog.result = some (.ok resp) := ⟨_, _, _, rfl, rfl⟩
  have hexec := Machine.exec_of_run hrun
  refine ⟨t, w', resp, hexec, hok, ?_⟩
  exact ((presigned_url_addresses_iff documented_crockfordCrate origin_uploads hexec hok).2 0 "GET" 900
    none).mpr ⟨by decide, by decide +kernel⟩

/-- The path of the URL ends at a question mark in the file name. -/
theorem question_mark_ends_path :
    ∃ t w' resp, Machine.Exec (Thread.step (kanban Id)) (Thread.start (uploadOf "report?.pdf"),
        storedShip) uploadSteps (t, w') ∧ t.prog.result = some (.ok resp) ∧
      Percent.urlPath resp.presignedUrl.toList =
        ("/bucket/" ++ s3Key crockfordIds shipId ⟨1, .ulid⟩ "report").toList ∧
      ¬ PresignAddresses uploads.crypto uploads.s3 0 "PUT" resp.s3Key 900
        (some ("content-type", "application/pdf")) := by
  obtain ⟨t, w', resp, hrun, hok, rfl⟩ : ∃ t w' resp, Machine.run (Thread.step (kanban Id))
      (Thread.start (uploadOf "report?.pdf"), storedShip) uploadSteps = some (t, w') ∧
      t.prog.result = some (.ok resp) ∧
      (⟨presignPut uploads.crypto uploads.s3 0 (s3Key crockfordIds shipId ⟨1, .ulid⟩
        (sanitizeFilename "report?.pdf")) "application/pdf" 900, s3Key crockfordIds shipId ⟨1, .ulid⟩
        (sanitizeFilename "report?.pdf"), crockfordIds.toString ⟨1, .ulid⟩⟩ :
        RequestPresignedUploadResponse) = resp := ⟨_, _, _, rfl, rfl, rfl⟩
  have hsplit : (objectPath uploads.s3 (s3Key crockfordIds shipId ⟨1, .ulid⟩
      (sanitizeFilename "report?.pdf"))).toList =
        ("/bucket/" ++ s3Key crockfordIds shipId ⟨1, .ulid⟩ "report").toList ++ '?' :: ".pdf".toList := by
    decide +kernel
  have hpath : Percent.urlPath (presignPut uploads.crypto uploads.s3 0 (s3Key crockfordIds shipId
      ⟨1, .ulid⟩ (sanitizeFilename "report?.pdf")) "application/pdf" 900).toList =
        ("/bucket/" ++ s3Key crockfordIds shipId ⟨1, .ulid⟩ "report").toList := by
    rw [presignPut, toList_presign, hsplit, ← List.append_assoc, List.append_assoc _ (_ :: _)]
    refine (Percent.parts_append origin_uploads (by decide +kernel) (by decide +kernel) ?_).1
    intro h
    rcases List.mem_append.mp h with h | h
    · exact absurd h (by decide)
    · rcases List.mem_cons.mp h with h | h
      · exact absurd h (by decide)
      · exact hash_not_mem_queryString h
  refine ⟨t, w', _, Machine.exec_of_run hrun, hok, hpath, fun h => ?_⟩
  have hkept := (presignAddresses_iff origin_uploads).mp h '?' (by decide +kernel)
  exact absurd hkept (by decide)

end Kanban.Rpc
