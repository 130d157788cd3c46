import Kanban.Lib.Percent
import Kanban.Lib.Text
import Kanban.Services.Search
import Kanban.Services.SearchCursor
import Mathlib.Data.List.Sort
import Mathlib.Data.String.Basic

/-!
# Presigned URLs

The client signs a request to the object store by query-string authentication.  The path of the object
is put into the canonical request and into the URL as it is, while the parameters are encoded.  So the
URL addresses the object exactly if there is nothing in its path to encode.

## Main definitions

* `S3Config`, `Crypto` — the settings, and the functions of other crates.
* `canonicalRequest`, `presign` — the signed URL.
* `sanitizeFilename` — the file name in the key of an object.
* `Addresses` — the URL addresses the object.
* `presignAddresses_iff` — when it does.
-/

namespace Kanban.Integrations

open Text Percent
open Kanban.Services (asBytes isWhitespace)

structure S3Config where
  endpoint : String
  publicEndpoint : Option String
  region : String
  accessKey : String
  secretKey : String
  bucket : String
  deriving DecidableEq, Repr

def S3Config.presignEndpoint (cfg : S3Config) : String := cfg.publicEndpoint.getD cfg.endpoint

/-- The functions of other crates: digests, their hexadecimal form, and the form of a time stamp. -/
structure Crypto where
  sha256 : List UInt8 → List UInt8
  hmacSha256 : List UInt8 → List UInt8 → List UInt8
  hexEncode : List UInt8 → String
  formatIso8601 : ℕ → String

/-! ## Texts -/

/-- `str::trim_start_matches`: the prefix is stripped as often as it stands there. -/
def trimStartMatches (pre s : List Char) : List Char :=
  go s.length s
where
  go : ℕ → List Char → List Char
    | 0, s => s
    | n + 1, s =>
        match stripPrefix pre s with
        | some rest => go n rest
        | none => s

/-- The host and the port of an endpoint. -/
def endpointHost (endpoint : String) : String :=
  String.ofList ((trimStartMatches "http://".toList (trimStartMatches "https://".toList
    endpoint.toList)).takeWhile (· ≠ '/'))

/-- The endpoint without the slashes at its end. -/
def trimSlashes (endpoint : String) : String := String.ofList (endpoint.toList.rdropWhile (· = '/'))

/-- The unreserved characters of RFC 3986. -/
def isUnreserved (c : Char) : Bool :=
  ('A' ≤ c && c ≤ 'Z') || ('a' ≤ c && c ≤ 'z') || ('0' ≤ c && c ≤ '9') || c ∈ ['-', '_', '.', '~']

def uriEncode (s : String) : String := String.ofList (encode isUnreserved s.toList)

/-- `char::is_control`. -/
def isControl (c : Char) : Bool := c.toNat ≤ 0x1f ∨ 0x7f ≤ c.toNat ∧ c.toNat ≤ 0x9f

def sanitizeFilename (name : String) : String :=
  String.ofList (trim isWhitespace (name.toList.filter fun c =>
    !isControl c && c ≠ '/' && c ≠ '\\' && c ≠ Char.ofNat 0))

/-! ## The signature -/

/-- The canonical request, by its lines. -/
structure CanonicalRequest where
  method : String
  path : String
  query : String
  headers : String
  signedHeaders : String
  deriving DecidableEq, Repr

def CanonicalRequest.text (r : CanonicalRequest) : String :=
  r.method ++ "\n" ++ r.path ++ "\n" ++ r.query ++ "\n" ++ r.headers ++ "\n" ++ r.signedHeaders ++
    "\nUNSIGNED-PAYLOAD"

/-- `sort_by` of the keys. -/
def sortByKey (l : List (String × String)) : List (String × String) :=
  l.insertionSort fun a b => a.1 ≤ b.1

def queryString (params : List (String × String)) : String :=
  "&".intercalate (params.map fun (k, v) => uriEncode k ++ "=" ++ uriEncode v)

variable (C : Crypto) (cfg : S3Config) (now : ℕ)

/-- The date and the time of the request. -/
def dateStamp : String := C.formatIso8601 now

def shortDate : String := String.ofList ((dateStamp C now).toList.take 8)

def scope : String := shortDate C now ++ "/" ++ cfg.region ++ "/s3/aws4_request"

def deriveSigningKey : List UInt8 :=
  let kDate := C.hmacSha256 (asBytes ("AWS4" ++ cfg.secretKey)) (asBytes (shortDate C now))
  let kRegion := C.hmacSha256 kDate (asBytes cfg.region)
  let kService := C.hmacSha256 kRegion (asBytes "s3")
  C.hmacSha256 kService (asBytes "aws4_request")

def objectPath (key : String) : String := "/" ++ cfg.bucket ++ "/" ++ key

/-- `str::to_lowercase` of the name of a header, which is ASCII. -/
def toLowercase (name : String) : String := String.ofList (name.toList.map Char.toLower)

/-- The headers that are signed. -/
def canonicalHeaders (extraHeader : Option (String × String)) : List (String × String) :=
  sortByKey (("host", endpointHost cfg.presignEndpoint) ::
    extraHeader.toList.map fun (name, value) => (toLowercase name, value))

def signedHeaders (extraHeader : Option (String × String)) : String :=
  ";".intercalate (("host" :: extraHeader.toList.map fun (name, _) => toLowercase name).insertionSort
    (· ≤ ·))

/-- The parameters that are signed. -/
def signedParams (expiresIn : ℕ) (extraHeader : Option (String × String)) : List (String × String) :=
  sortByKey [("X-Amz-Algorithm", "AWS4-HMAC-SHA256"),
    ("X-Amz-Credential", cfg.accessKey ++ "/" ++ scope C cfg now), ("X-Amz-Date", dateStamp C now),
    ("X-Amz-Expires", toString expiresIn), ("X-Amz-SignedHeaders", signedHeaders extraHeader)]

def canonicalRequest (method key : String) (expiresIn : ℕ) (extraHeader : Option (String × String)) :
    CanonicalRequest where
  method := method
  path := objectPath cfg key
  query := queryString (signedParams C cfg now expiresIn extraHeader)
  headers := "\n".intercalate ((canonicalHeaders cfg extraHeader).map fun (k, v) => k ++ ":" ++ v) ++ "\n"
  signedHeaders := signedHeaders extraHeader

def signature (r : CanonicalRequest) : String :=
  let crHash := C.hexEncode (C.sha256 (asBytes r.text))
  let stringToSign := "AWS4-HMAC-SHA256\n" ++ dateStamp C now ++ "\n" ++ scope C cfg now ++ "\n" ++ crHash
  C.hexEncode (C.hmacSha256 (deriveSigningKey C cfg now) (asBytes stringToSign))

/-- The parameters of the URL. -/
def finalParams (method key : String) (expiresIn : ℕ) (extraHeader : Option (String × String)) :
    List (String × String) :=
  sortByKey (signedParams C cfg now expiresIn extraHeader ++
    [("X-Amz-Signature", signature C cfg now (canonicalRequest C cfg now method key expiresIn
      extraHeader))])

def presign (method key : String) (expiresIn : ℕ) (extraHeader : Option (String × String)) : String :=
  trimSlashes cfg.presignEndpoint ++ objectPath cfg key ++ "?" ++
    queryString (finalParams C cfg now method key expiresIn extraHeader)

def presignPut (key mimeType : String) (expiresIn : ℕ) : String :=
  presign C cfg now "PUT" key expiresIn (some ("content-type", mimeType))

def presignGet (key : String) (expiresIn : ℕ) : String := presign C cfg now "GET" key expiresIn none

/-! ## What is addressed -/

/-- RFC 3986, with the slashes kept. -/
def keepsInPath (c : Char) : Bool := isUnreserved c || c = '/'

/-- The URL addresses the object: its path stands for the path of the object, its query has the
parameters that are signed, and the path that is signed is the encoded one. -/
structure Addresses (key url : String) (request : CanonicalRequest) (params : List (String × String)) :
    Prop where
  path : decode (urlPath url.toList) = bytes (objectPath cfg key).toList
  query : ∀ p ∈ params, (bytes p.1.toList, bytes p.2.toList) ∈ queryPairs (urlQuery url.toList)
  canonical : request.path.toList = encode keepsInPath (objectPath cfg key).toList

/-- The object is addressed by the URL that `presign` returns for its key. -/
def PresignAddresses (method key : String) (expiresIn : ℕ) (extraHeader : Option (String × String)) :
    Prop :=
  Addresses cfg key (presign C cfg now method key expiresIn extraHeader)
    (canonicalRequest C cfg now method key expiresIn extraHeader)
    (signedParams C cfg now expiresIn extraHeader)

section Proofs

variable {C cfg now} {c : Char} {s method key : String} {expiresIn : ℕ}
  {extraHeader : Option (String × String)} {params : List (String × String)}

theorem toNat_lt_of_isUnreserved (h : isUnreserved c) : c.toNat < 128 := by
  by_contra hlarge
  have hle : ∀ d : Char, d.toNat < 128 → ¬ c ≤ d := fun d hd h => hlarge
    (Nat.lt_of_le_of_lt (UInt32.le_iff_toNat_le.mp h) hd)
  have hmem : c ∉ ['-', '_', '.', '~'] := fun h => by
    have hall : ∀ d ∈ ['-', '_', '.', '~'], d.toNat < 128 := by decide
    exact hlarge (hall c h)
  rw [isUnreserved, decide_eq_false (hle 'Z' (by decide)), decide_eq_false (hle 'z' (by decide)),
    decide_eq_false (hle '9' (by decide)), decide_eq_false hmem] at h
  simp at h

theorem plain_isUnreserved : Plain isUnreserved := ⟨fun _ => toNat_lt_of_isUnreserved, by decide⟩

theorem plain_keepsInPath : Plain keepsInPath where
  ascii c h := by
    rcases Bool.or_eq_true_iff.mp h with h | h
    · exact toNat_lt_of_isUnreserved h
    · rw [of_decide_eq_true h]
      decide
  percent := by decide

theorem isUnreserved_hex : ∀ d ∈ "0123456789ABCDEF".toList, isUnreserved d := by decide

theorem toList_queryString : (queryString params).toList = ['&'].intercalate
    ((params.map fun p => (p.1.toList, p.2.toList)).map fun kv =>
      encode isUnreserved kv.1 ++ '=' :: encode isUnreserved kv.2) := by
  have hone : "=".toList = ['='] := by decide
  rw [queryString, String.toList_intercalate, List.map_map, List.map_map]
  refine congrArg _ (List.map_congr_left fun p _ => ?_)
  simp only [Function.comp_apply, uriEncode, String.toList_append, String.toList_ofList, hone,
    List.append_assoc, List.singleton_append]

theorem hash_not_mem_queryString : '#' ∉ (queryString params).toList := by
  have hnot : ∀ t, '#' ∉ encode isUnreserved t := fun t h => by
    rcases mem_encode isUnreserved_hex h with h | h
    · exact absurd h (by decide)
    · exact absurd h (by decide)
  rw [toList_queryString]
  intro hmem
  rcases mem_intercalate hmem with h | ⟨l, hl, h⟩
  · exact absurd h (by decide)
  · obtain ⟨kv, -, rfl⟩ := List.mem_map.mp hl
    rw [List.mem_append, List.mem_cons] at h
    rcases h with h | h | h
    · exact hnot _ h
    · exact absurd h (by decide)
    · exact hnot _ h

theorem mem_sortByKey {p : String × String} {l : List (String × String)} :
    p ∈ sortByKey l ↔ p ∈ l := List.mem_insertionSort _

/-- The parameters are read off the query again. -/
theorem queryPairs_queryString (hne : params ≠ []) :
    queryPairs (queryString params).toList = params.map fun p => (bytes p.1.toList, bytes p.2.toList) := by
  rw [toList_queryString, queryPairs_join plain_isUnreserved isUnreserved_hex ⟨by decide, by decide⟩
    (by simpa using hne), List.map_map]
  rfl

theorem toList_presign : (presign C cfg now method key expiresIn extraHeader).toList =
    (trimSlashes cfg.presignEndpoint).toList ++ (objectPath cfg key).toList ++
      '?' :: (queryString (finalParams C cfg now method key expiresIn extraHeader)).toList := by
  have hone : "?".toList = ['?'] := by decide
  rw [presign, String.toList_append, String.toList_append, String.toList_append, hone,
    List.append_assoc, List.append_assoc, List.append_assoc]
  rfl

/-- **When a URL addresses its object**: when nothing in the path of the object is to be encoded. -/
theorem presignAddresses_iff (ho : Origin (trimSlashes cfg.presignEndpoint).toList) :
    PresignAddresses C cfg now method key expiresIn extraHeader ↔
      ∀ c ∈ (objectPath cfg key).toList, keepsInPath c := by
  rw [← encode_eq_self_iff plain_keepsInPath]
  refine ⟨fun h => h.canonical.symm, fun h => ?_⟩
  have hkeep := (encode_eq_self_iff plain_keepsInPath).mp h
  have hnot : ∀ d, keepsInPath d = false → d ∉ (objectPath cfg key).toList := fun d hd hmem => by
    rw [hkeep d hmem] at hd
    cases hd
  have hpath : ∀ c ∈ (objectPath cfg key).toList, c ∉ ['?', '#'] := by
    intro c hc hmem
    rcases List.mem_cons.mp hmem with rfl | hmem
    · exact hnot '?' (by decide) hc
    · rw [List.mem_singleton.mp hmem] at hc
      exact hnot '#' (by decide) hc
  have hhead : (objectPath cfg key).toList.head? = some '/' := by
    have hslash : "/".toList = ['/'] := by decide
    rw [objectPath, String.toList_append, String.toList_append, String.toList_append, hslash]
    rfl
  have hhash : '#' ∉ (queryString (finalParams C cfg now method key expiresIn extraHeader)).toList :=
    hash_not_mem_queryString
  obtain ⟨hurl, hquery⟩ := parts_append ho hpath hhead hhash
  rw [← toList_presign] at hurl hquery
  have hmem : ∀ p ∈ signedParams C cfg now expiresIn extraHeader,
      p ∈ finalParams C cfg now method key expiresIn extraHeader := fun p hp =>
    mem_sortByKey.mpr (List.mem_append_left _ hp)
  refine ⟨?_, fun p hp => ?_, h.symm⟩
  · rw [hurl, decode_of_not_mem (hnot '%' (by decide))]
  · rw [hquery, queryPairs_queryString fun hnil => ?_]
    · exact List.mem_map.mpr ⟨p, hmem p hp, rfl⟩
    · rw [hnil] at hmem
      exact absurd (hmem p hp) List.not_mem_nil

theorem keepsInPath_append {s t : String} : (∀ c ∈ (s ++ t).toList, keepsInPath c) ↔
    (∀ c ∈ s.toList, keepsInPath c) ∧ ∀ c ∈ t.toList, keepsInPath c := by
  rw [String.toList_append]
  exact List.forall_mem_append

/-- No slash is left in a file name. -/
theorem slash_not_mem_sanitizeFilename {name : String} : '/' ∉ (sanitizeFilename name).toList := by
  rw [sanitizeFilename, String.toList_ofList]
  intro h
  obtain ⟨l, r, hs, -, -⟩ := exists_padding isWhitespace (name.toList.filter fun c =>
    !isControl c && c ≠ '/' && c ≠ '\\' && c ≠ Char.ofNat 0)
  have hmem : '/' ∈ name.toList.filter fun c =>
      !isControl c && c ≠ '/' && c ≠ '\\' && c ≠ Char.ofNat 0 := by
    rw [hs]
    exact List.mem_append_left _ (List.mem_append_right _ h)
  have := (List.mem_filter.mp hmem).2
  simp at this

theorem keepsInPath_sanitizeFilename {name : String} :
    (∀ c ∈ (sanitizeFilename name).toList, keepsInPath c) ↔
      ∀ c ∈ (sanitizeFilename name).toList, isUnreserved c := by
  refine forall₂_congr fun c hc => ?_
  have hne : c ≠ '/' := fun h => slash_not_mem_sanitizeFilename (h ▸ hc)
  rw [keepsInPath, decide_eq_false hne, Bool.or_false]

end Proofs

end Kanban.Integrations
