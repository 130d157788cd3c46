import Kanban.Ids.Codec
import Kanban.Lib.Text
import Kanban.Services.Search

/-!
# User references

A user of a tenant is named by the ULID of the identity, by the subject `user:<ulid>`, or by an email
address.  `resolve_subject` tries the three in this order; an address is looked for in the whole
directory, page by page.

## Main definitions

* `AuthClient`, `IdentityClient` — the client of the identity service, and what is built on it.
* `IdentityClient.resolveSubject` — the subject that a reference stands for.
* `Directory` — a client that serves the identities of a tenant, page by page.
* `Names`, `Refers` — the reference names the identity; it does so but for blanks around it.
* `Addressable` — the email address of an identity is no other reference.
-/

namespace Kanban.Auth

open Text Kanban.Ids
open Kanban.Services (ConnectError ErrorCode isWhitespace)

/-! ## The client -/

/-- An identity, with the `email` trait if it has one. -/
structure Identity where
  id : String
  email : Option String
  deriving DecidableEq, Repr

def identityEmail (i : Identity) : String := i.email.getD ""

structure ListIdentitiesResponse where
  identities : List Identity
  nextPageToken : String
  deriving DecidableEq, Repr

/-- The client of the identity service in one tenant, and how an error of it is printed. -/
structure AuthClient where
  getIdentity : String → Except ConnectError Identity
  listIdentities : String → Except ConnectError ListIdentitiesResponse
  toString : ConnectError → String

inductive ResolveError
  | invalid (msg : String)
  | notFound (msg : String)
  | backend (msg : String)
  deriving DecidableEq, Repr

/-- The canonical subject of an identity. -/
def canonicalSubject (identityId : String) : String := "user:" ++ identityId

def isUlid (U : UlidCrate) (s : String) : Bool := (parseUlid U s).isSome

/-- `str::eq_ignore_ascii_case`. -/
def eqIgnoreAsciiCase (s t : String) : Bool := s.toList.map Char.toLower = t.toList.map Char.toLower

/-- `str::trim`. -/
def trimmed (s : String) : String := String.ofList (trim isWhitespace s.toList)

namespace IdentityClient

variable (U : UlidCrate) (A : AuthClient)

def getIdentity (id : String) : Except ResolveError (Option Identity) :=
  match A.getIdentity id with
  | .ok i => .ok (some i)
  | .error e => if e.code = .notFound then .ok none else .error (.backend (A.toString e))

/-- The loop of `find_by_email` from a page token on; `none` when it has not ended. -/
def findByEmail (email : String) : ℕ → String → Option (Except ResolveError (Option Identity))
  | 0, _ => none
  | fuel + 1, pageToken =>
      match A.listIdentities pageToken with
      | .error e => some (.error (.backend (A.toString e)))
      | .ok resp =>
          match resp.identities.find? fun i => eqIgnoreAsciiCase (identityEmail i) email with
          | some found => some (.ok (some found))
          | none =>
              if resp.nextPageToken = "" then some (.ok none)
              else findByEmail email fuel resp.nextPageToken

def resolveById (original id : String) : Except ResolveError String :=
  if isUlid U id then
    match getIdentity A id with
    | .ok (some i) => .ok (canonicalSubject i.id)
    | .ok none => .error (.notFound original)
    | .error e => .error e
  else .error (.invalid (original ++ " does not carry a valid identity ULID"))

/-- `resolve_subject`, with the fuel of its loop. -/
def resolveSubject (fuel : ℕ) (input : String) : Option (Except ResolveError String) :=
  let input := trimmed input
  if input = "" then some (.error (.invalid "empty user reference"))
  else
    match stripPrefix "user:".toList input.toList with
    | some rest => some (resolveById U A input (String.ofList rest))
    | none =>
        if isUlid U input then some (resolveById U A input input)
        else if '@' ∈ input.toList then
          (findByEmail A input fuel "").map fun
            | .ok (some i) => .ok (canonicalSubject i.id)
            | .ok none => .error (.notFound input)
            | .error e => .error e
        else some (.error (.invalid (input ++ " is neither an identity ULID nor an email address")))

end IdentityClient

/-! ## What a directory is -/

/-- The pages that are listed from a token on. -/
inductive Chain (A : AuthClient) : String → List (List Identity) → Prop
  | last {token : String} {identities : List Identity}
      (hlist : A.listIdentities token = .ok ⟨identities, ""⟩) : Chain A token [identities]
  | next {token token' : String} {identities : List Identity} {pages : List (List Identity)}
      (hlist : A.listIdentities token = .ok ⟨identities, token'⟩) (hne : token' ≠ "")
      (hrest : Chain A token' pages) : Chain A token (identities :: pages)

/-- The client serves the identities on the pages: they have ULIDs of their own, and the one that is
asked for is returned. -/
structure Directory (U : UlidCrate) (A : AuthClient) (pages : List (List Identity)) : Prop where
  chain : Chain A "" pages
  nodup : (pages.flatten.map Identity.id).Nodup
  ulid : ∀ i ∈ pages.flatten, isUlid U i.id
  get : ∀ id i, A.getIdentity id = .ok i ↔ i ∈ pages.flatten ∧ i.id = id

/-- The reference names the identity. -/
inductive Names (i : Identity) : String → Prop
  | ulid : Names i i.id
  | subject : Names i (canonicalSubject i.id)
  | email {s : String} (h : eqIgnoreAsciiCase (identityEmail i) s) : Names i s

/-- The text names the identity, but for blanks around it. -/
def Refers (i : Identity) (input : String) : Prop :=
  ∃ l s r : String, input = l ++ s ++ r ∧ (∀ c ∈ l.toList, isWhitespace c) ∧
    (∀ c ∈ r.toList, isWhitespace c) ∧ Names i s

/-- The email address of `i` has an `@` and no blanks around it, does not start as a subject does, and
is no other identity's. -/
structure Addressable (identities : List Identity) (i : Identity) : Prop where
  at_mem : '@' ∈ (identityEmail i).toList
  trimmed : trimmed (identityEmail i) = identityEmail i
  not_subject : ¬ "user:".toList <+: (identityEmail i).toList.map Char.toLower
  alone : ∀ j ∈ identities, eqIgnoreAsciiCase (identityEmail j) (identityEmail i) → j = i

/-! ## Characters -/

/-- The digits of a ULID are no blanks, no `@` and no colon. -/
theorem plain_of_digit {c : Char} {d : ℕ} (h : crockford.digit c = some d) :
    isWhitespace c = false ∧ c ≠ '@' ∧ c ≠ ':' := by
  have hall : ∀ n < 128, (crockford.digit (Char.ofNat n)).isSome →
      isWhitespace (Char.ofNat n) = false ∧ Char.ofNat n ≠ '@' ∧ Char.ofNat n ≠ ':' := by
    decide +kernel
  have hsmall : c.toNat < 128 :=
    Nat.lt_succ_of_le (Char.utf8Size_eq_one_iff.mp (utf8Size_of_crockford h))
  have hc := hall c.toNat hsmall
  rw [Char.ofNat_toNat] at hc
  exact hc (Option.isSome_of_eq_some h)

theorem isWhitespace_toLower (c : Char) : isWhitespace c.toLower = isWhitespace c := by
  by_cases hsmall : c.toNat < 128
  · have hall : ∀ n < 128, isWhitespace (Char.ofNat n).toLower = isWhitespace (Char.ofNat n) := by
      decide +kernel
    have hc := hall c.toNat hsmall
    rwa [Char.ofNat_toNat] at hc
  · rw [Text.toLower_of_not_ascii hsmall]

theorem toLower_eq_at {c : Char} : c.toLower = '@' ↔ c = '@' := by
  by_cases hsmall : c.toNat < 128
  · have hall : ∀ n < 128, (Char.ofNat n).toLower = '@' ↔ Char.ofNat n = '@' := by decide +kernel
    have hc := hall c.toNat hsmall
    rwa [Char.ofNat_toNat] at hc
  · rw [Text.toLower_of_not_ascii hsmall]

/-! ## Texts -/

section Texts

variable {U : UlidCrate} {s t l r : String}

theorem plain_of_isUlid (hU : U.Documented) (h : isUlid U s) :
    ∀ c ∈ s.toList, isWhitespace c = false ∧ c ≠ '@' ∧ c ≠ ':' := by
  obtain ⟨v, hv⟩ := Option.isSome_iff_exists.mp h
  unfold parseUlid at hv
  rw [hU.fromText_eq] at hv
  obtain ⟨-, hv⟩ := Option.ite_none_left_eq_some.mp hv
  obtain ⟨-, hv⟩ := Option.ite_none_right_eq_some.mp hv
  obtain ⟨n, hn, -⟩ := Option.map_eq_some_iff.mp hv
  intro c hc
  obtain ⟨d, hd⟩ := Numeral.Alphabet.exists_digit_of_read hn c hc
  exact plain_of_digit hd

theorem ne_empty_of_isUlid (h : isUlid U s) : s ≠ "" := by
  rintro rfl
  cases h

@[simp] theorem toList_trimmed : (trimmed s).toList = trim isWhitespace s.toList :=
  String.toList_ofList

theorem trimmed_padded (hl : ∀ c ∈ l.toList, isWhitespace c) (hr : ∀ c ∈ r.toList, isWhitespace c) :
    trimmed (l ++ s ++ r) = trimmed s := by
  rw [trimmed, String.toList_append, String.toList_append, trim_padded hl hr, trimmed]

theorem refers_of_names {i : Identity} (h : Names i (trimmed s)) : Refers i s := by
  obtain ⟨l, r, hs, hl, hr⟩ := exists_padding isWhitespace s.toList
  refine ⟨String.ofList l, trimmed s, String.ofList r, ?_, ?_, ?_, h⟩
  · rw [← String.toList_inj, String.toList_append, String.toList_append, toList_trimmed,
      String.toList_ofList, String.toList_ofList]
    exact hs
  · rwa [String.toList_ofList]
  · rwa [String.toList_ofList]

theorem trimmed_eq_self_iff : trimmed s = s ↔
    (∀ c ∈ s.toList.head?, isWhitespace c = false) ∧
      ∀ c ∈ s.toList.getLast?, isWhitespace c = false := by
  constructor
  · intro h
    have hs : trim isWhitespace s.toList = s.toList := by rw [← toList_trimmed, h]
    constructor
    · intro c hc
      rw [← hs] at hc
      exact not_head_trim hc
    · intro c hc
      rw [← hs] at hc
      exact not_getLast_trim hc
  · rintro ⟨hhead, hlast⟩
    rw [trimmed, trim_eq_self hhead hlast, String.ofList_toList]

theorem trimmed_of_plain (h : ∀ c ∈ s.toList, isWhitespace c = false) : trimmed s = s :=
  trimmed_eq_self_iff.mpr ⟨fun c hc => h c (List.mem_of_mem_head? hc),
    fun c hc => h c (List.mem_of_mem_getLast? hc)⟩

theorem eqIgnoreAsciiCase_iff :
    eqIgnoreAsciiCase s t ↔ s.toList.map Char.toLower = t.toList.map Char.toLower :=
  decide_eq_true_iff

/-- Another letter case has no blanks around it either. -/
theorem trimmed_of_eqIgnoreAsciiCase (h : eqIgnoreAsciiCase s t) (hs : trimmed s = s) :
    trimmed t = t := by
  obtain ⟨hhead, hlast⟩ := trimmed_eq_self_iff.mp hs
  have hmap := eqIgnoreAsciiCase_iff.mp h
  refine trimmed_eq_self_iff.mpr ⟨fun c hc => ?_, fun c hc => ?_⟩
  · have hlower : c.toLower ∈ (s.toList.map Char.toLower).head? := by
      rw [hmap, List.head?_map]
      exact Option.mem_map_of_mem _ hc
    rw [List.head?_map] at hlower
    obtain ⟨c', hc', heq⟩ := Option.mem_map.mp hlower
    rw [← isWhitespace_toLower, ← heq, isWhitespace_toLower]
    exact hhead c' hc'
  · have hlower : c.toLower ∈ (s.toList.map Char.toLower).getLast? := by
      rw [hmap, List.getLast?_map]
      exact Option.mem_map_of_mem _ hc
    rw [List.getLast?_map] at hlower
    obtain ⟨c', hc', heq⟩ := Option.mem_map.mp hlower
    rw [← isWhitespace_toLower, ← heq, isWhitespace_toLower]
    exact hlast c' hc'

theorem at_mem_of_eqIgnoreAsciiCase (h : eqIgnoreAsciiCase s t) (hs : '@' ∈ s.toList) :
    '@' ∈ t.toList := by
  have hat : '@' ∈ t.toList.map Char.toLower := by
    rw [← eqIgnoreAsciiCase_iff.mp h]
    exact List.mem_map.mpr ⟨'@', hs, rfl⟩
  obtain ⟨c, hc, heq⟩ := List.mem_map.mp hat
  rwa [← toLower_eq_at.mp heq]

end Texts

/-! ## Resolution -/

section Resolution

variable {U : UlidCrate} {A : AuthClient} {pages : List (List Identity)} {fuel : ℕ} {i : Identity}
  {input id s t token : String}

/-- The loop finds the first identity with the address, wherever the pages end. -/
theorem Chain.findByEmail {p : List (List Identity)} (h : Chain A token p) (hfuel : p.length ≤ fuel) :
    IdentityClient.findByEmail A s fuel token =
      some (.ok (p.flatten.find? fun i => eqIgnoreAsciiCase (identityEmail i) s)) := by
  induction h generalizing fuel with
  | @last token identities hlist =>
      obtain ⟨fuel, rfl⟩ := Nat.exists_eq_succ_of_ne_zero (Nat.pos_iff_ne_zero.mp hfuel)
      rw [IdentityClient.findByEmail, hlist, List.flatten_singleton]
      dsimp only
      split
      · rename_i found hfound
        rw [hfound]
      · rename_i hnone
        rw [if_pos rfl, hnone]
  | @next token token' identities pages hlist hne _ ih =>
      obtain ⟨fuel, rfl⟩ := Nat.exists_eq_succ_of_ne_zero
        (Nat.pos_iff_ne_zero.mp (Nat.lt_of_lt_of_le (Nat.succ_pos _) hfuel))
      rw [IdentityClient.findByEmail, hlist, List.flatten_cons, List.find?_append]
      dsimp only
      split
      · rename_i found hfound
        rw [hfound, Option.some_or]
      · rename_i hnone
        rw [if_neg hne, ih (Nat.le_of_succ_le_succ hfuel), hnone, Option.none_or]

theorem getIdentity_eq_some :
    IdentityClient.getIdentity A id = .ok (some i) ↔ A.getIdentity id = .ok i := by
  unfold IdentityClient.getIdentity
  cases A.getIdentity id with
  | ok j => simp
  | error e =>
      dsimp only
      split <;> simp

theorem Directory.resolveById_eq_ok (hD : Directory U A pages) :
    IdentityClient.resolveById U A input id = .ok s ↔
      ∃ i ∈ pages.flatten, i.id = id ∧ s = canonicalSubject i.id := by
  unfold IdentityClient.resolveById
  constructor
  · intro h
    split at h
    · split at h
      · rename_i i hget
        obtain ⟨hi, rfl⟩ := (hD.get id i).mp (getIdentity_eq_some.mp hget)
        cases h
        exact ⟨i, hi, rfl, rfl⟩
      · cases h
      · cases h
    · cases h
  · rintro ⟨i, hi, rfl, rfl⟩
    rw [if_pos (hD.ulid i hi), getIdentity_eq_some.mpr ((hD.get i.id i).mpr ⟨hi, rfl⟩)]

/-- The subject of an identity is read as a subject, and its ULID as a ULID. -/
theorem resolveSubject_of_subject (h : trimmed input = canonicalSubject id) :
    IdentityClient.resolveSubject U A fuel input =
      some (IdentityClient.resolveById U A (canonicalSubject id) id) := by
  have hstrip : stripPrefix "user:".toList (canonicalSubject id).toList = some id.toList :=
    stripPrefix_eq_some.mpr String.toList_append
  have hne : canonicalSubject id ≠ "" := by
    intro h
    have := congrArg String.length h
    rw [canonicalSubject, String.length_append] at this
    exact absurd this (by simp +decide)
  unfold IdentityClient.resolveSubject
  dsimp only
  rw [h, if_neg hne, hstrip]
  dsimp only
  rw [String.ofList_toList]

theorem not_subject_of_isUlid (hU : U.Documented) (hid : isUlid U id) :
    stripPrefix "user:".toList id.toList = none := by
  cases hstrip : stripPrefix "user:".toList id.toList with
  | none => rfl
  | some rest =>
      have hcolon : ':' ∈ id.toList := by
        rw [stripPrefix_eq_some.mp hstrip]
        exact List.mem_append_left _ (by decide)
      exact absurd rfl (plain_of_isUlid hU hid _ hcolon).2.2

theorem resolveSubject_of_ulid (hU : U.Documented) (hid : isUlid U id) (h : trimmed input = id) :
    IdentityClient.resolveSubject U A fuel input = some (IdentityClient.resolveById U A id id) := by
  unfold IdentityClient.resolveSubject
  dsimp only
  rw [h, if_neg (ne_empty_of_isUlid hid), not_subject_of_isUlid hU hid]
  dsimp only
  rw [if_pos hid]

/-- Any other text is taken for an email address if it has an `@`. -/
theorem resolveSubject_of_email (hstrip : stripPrefix "user:".toList (trimmed input).toList = none)
    (hulid : ¬ isUlid U (trimmed input)) (hat : '@' ∈ (trimmed input).toList) :
    IdentityClient.resolveSubject U A fuel input =
      (IdentityClient.findByEmail A (trimmed input) fuel "").map fun
        | .ok (some i) => .ok (canonicalSubject i.id)
        | .ok none => .error (.notFound (trimmed input))
        | .error e => .error e := by
  have hne : trimmed input ≠ "" := by
    intro h
    rw [h] at hat
    cases hat
  unfold IdentityClient.resolveSubject
  dsimp only
  rw [if_neg hne, hstrip]
  dsimp only
  rw [if_neg hulid, if_pos hat]

/-- **What a reference resolves to.**  The call returns, and only a subject of an identity that the
reference names. -/
theorem Directory.refers_of_resolveSubject (hD : Directory U A pages) (hfuel : pages.length ≤ fuel)
    (input : String) :
    ∃ r, IdentityClient.resolveSubject U A fuel input = some r ∧ ∀ s, r = .ok s →
      ∃ i ∈ pages.flatten, s = canonicalSubject i.id ∧ Refers i input := by
  unfold IdentityClient.resolveSubject
  dsimp only
  split
  · exact ⟨_, rfl, fun s h => by cases h⟩
  · split
    · rename_i rest hstrip
      refine ⟨_, rfl, fun s h => ?_⟩
      obtain ⟨i, hi, hid, rfl⟩ := hD.resolveById_eq_ok.mp h
      refine ⟨i, hi, rfl, refers_of_names ?_⟩
      have hinput : trimmed input = canonicalSubject i.id := by
        rw [← String.toList_inj, stripPrefix_eq_some.mp hstrip, canonicalSubject,
          String.toList_append, hid, String.toList_ofList (l := rest)]
      rw [hinput]
      exact .subject
    · split
      · refine ⟨_, rfl, fun s h => ?_⟩
        obtain ⟨i, hi, hid, rfl⟩ := hD.resolveById_eq_ok.mp h
        refine ⟨i, hi, rfl, refers_of_names ?_⟩
        rw [← hid]
        exact .ulid
      · split
        · rw [hD.chain.findByEmail hfuel]
          refine ⟨_, rfl, fun s h => ?_⟩
          dsimp only at h
          split at h
          · rename_i i hfind
            cases h
            have hfind := Except.ok.inj hfind
            exact ⟨i, List.mem_of_find?_eq_some hfind, rfl,
              refers_of_names (.email (List.find?_eq_some_iff_append.mp hfind).1)⟩
          · cases h
          · cases h
        · exact ⟨_, rfl, fun s h => by cases h⟩

theorem Directory.resolveSubject_ulid (hU : U.Documented) (hD : Directory U A pages)
    (hi : i ∈ pages.flatten) (hinput : trimmed input = trimmed i.id) :
    IdentityClient.resolveSubject U A fuel input = some (.ok (canonicalSubject i.id)) := by
  have hulid := hD.ulid i hi
  rw [trimmed_of_plain fun c hc => (plain_of_isUlid hU hulid c hc).1] at hinput
  rw [resolveSubject_of_ulid hU hulid hinput, hD.resolveById_eq_ok.mpr ⟨i, hi, rfl, rfl⟩]

theorem Directory.resolveSubject_subject (hU : U.Documented) (hD : Directory U A pages)
    (hi : i ∈ pages.flatten) (hinput : trimmed input = trimmed (canonicalSubject i.id)) :
    IdentityClient.resolveSubject U A fuel input = some (.ok (canonicalSubject i.id)) := by
  have hplain : ∀ c ∈ (canonicalSubject i.id).toList, isWhitespace c = false := by
    intro c hc
    rw [canonicalSubject, String.toList_append] at hc
    rcases List.mem_append.mp hc with hc | hc
    · have hall : ∀ c ∈ "user:".toList, isWhitespace c = false := by decide +kernel
      exact hall c hc
    · exact (plain_of_isUlid hU (hD.ulid i hi) c hc).1
  rw [trimmed_of_plain hplain] at hinput
  rw [resolveSubject_of_subject hinput, hD.resolveById_eq_ok.mpr ⟨i, hi, rfl, rfl⟩]

theorem Directory.resolveSubject_email (hU : U.Documented) (hD : Directory U A pages)
    (hfuel : pages.length ≤ fuel) (hi : i ∈ pages.flatten) (haddr : Addressable pages.flatten i)
    (hs : eqIgnoreAsciiCase (identityEmail i) s) (hinput : trimmed input = trimmed s) :
    IdentityClient.resolveSubject U A fuel input = some (.ok (canonicalSubject i.id)) := by
  obtain ⟨hat, htrim, hnot, halone⟩ := haddr
  rw [trimmed_of_eqIgnoreAsciiCase hs htrim] at hinput
  subst hinput
  have hat := at_mem_of_eqIgnoreAsciiCase hs hat
  have hulid : ¬ isUlid U (trimmed input) := fun hulid => (plain_of_isUlid hU hulid _ hat).2.1 rfl
  have hstrip : stripPrefix "user:".toList (trimmed input).toList = none := by
    cases hstrip : stripPrefix "user:".toList (trimmed input).toList with
    | none => rfl
    | some rest =>
        refine absurd ?_ hnot
        rw [eqIgnoreAsciiCase_iff.mp hs, stripPrefix_eq_some.mp hstrip, List.map_append]
        exact List.prefix_append _ _
  -- no other identity has the address, so the first that is found is this one
  have hfind : (pages.flatten.find? fun j => eqIgnoreAsciiCase (identityEmail j) (trimmed input)) =
      some i := by
    cases hfind : pages.flatten.find? fun j => eqIgnoreAsciiCase (identityEmail j) (trimmed input) with
    | none => exact absurd hs (List.find?_eq_none.mp hfind i hi)
    | some j =>
        have hj : eqIgnoreAsciiCase (identityEmail j) (trimmed input) := (List.find?_eq_some_iff_append.mp hfind).1
        refine congrArg some (halone j (List.mem_of_find?_eq_some hfind) ?_)
        exact eqIgnoreAsciiCase_iff.mpr
          ((eqIgnoreAsciiCase_iff.mp hj).trans (eqIgnoreAsciiCase_iff.mp hs).symm)
  rw [resolveSubject_of_email hstrip hulid hat, hD.chain.findByEmail hfuel, hfind]
  rfl

/-- Every reference to an identity, with any blanks around it, resolves to its subject. -/
theorem Directory.resolveSubject_of_refers (hU : U.Documented) (hD : Directory U A pages)
    (hfuel : pages.length ≤ fuel) (hi : i ∈ pages.flatten) (haddr : Addressable pages.flatten i)
    (hrefers : Refers i input) :
    IdentityClient.resolveSubject U A fuel input = some (.ok (canonicalSubject i.id)) := by
  obtain ⟨l, s, r, rfl, hl, hr, hs⟩ := hrefers
  have hinput : trimmed (l ++ s ++ r) = trimmed s := trimmed_padded hl hr
  cases hs with
  | ulid => exact hD.resolveSubject_ulid hU hi hinput
  | subject => exact hD.resolveSubject_subject hU hi hinput
  | email hs => exact hD.resolveSubject_email hU hfuel hi haddr hs hinput

/-- A subject that was resolved resolves to itself. -/
theorem Directory.resolveSubject_idempotent (hU : U.Documented) (hD : Directory U A pages)
    (hfuel : pages.length ≤ fuel)
    (h : IdentityClient.resolveSubject U A fuel input = some (.ok s)) :
    IdentityClient.resolveSubject U A fuel s = some (.ok s) := by
  obtain ⟨r, hr, hrefers⟩ := hD.refers_of_resolveSubject hfuel input
  obtain ⟨i, hi, rfl, -⟩ := hrefers s (Option.some.inj (hr.symm.trans h))
  exact hD.resolveSubject_subject hU hi rfl

end Resolution

/-! ## A client of given pages -/

/-- A client that serves the pages, with the token of a page as long as there are pages before it. -/
def pagedClient (pages : List (List Identity)) : AuthClient where
  getIdentity id :=
    match pages.flatten.find? (·.id = id) with
    | some i => .ok i
    | none => .error ⟨.notFound, "identity not found"⟩
  listIdentities token :=
    match pages.drop token.length with
    | [] => .ok ⟨[], ""⟩
    | [p] => .ok ⟨p, ""⟩
    | p :: _ :: _ => .ok ⟨p, token.push '+'⟩
  toString e := e.message

section Pages

variable {U : UlidCrate} {pages : List (List Identity)}

theorem chain_pagedClient {rest : List (List Identity)} {token : String} (hne : rest ≠ [])
    (h : pages.drop token.length = rest) : Chain (pagedClient pages) token rest := by
  induction rest generalizing token with
  | nil => exact absurd rfl hne
  | cons p rest ih =>
      cases rest with
      | nil => exact .last (by simp only [pagedClient, h])
      | cons p' rest =>
          refine @Chain.next _ _ (token.push '+') _ _ (by simp only [pagedClient, h]) ?_ (ih (List.cons_ne_nil _ _) ?_)
          · intro hempty
            have := congrArg String.length hempty
            rw [String.length_push] at this
            exact Nat.succ_ne_zero _ this
          · rw [String.length_push, ← List.drop_drop, h]
            rfl

theorem directory_pagedClient (hne : pages ≠ []) (hnodup : (pages.flatten.map Identity.id).Nodup)
    (hulid : ∀ i ∈ pages.flatten, isUlid U i.id) : Directory U (pagedClient pages) pages where
  chain := chain_pagedClient hne rfl
  nodup := hnodup
  ulid := hulid
  get id i := by
    unfold pagedClient
    dsimp only
    constructor
    · intro h
      split at h
      · rename_i j hfind
        cases h
        exact ⟨List.mem_of_find?_eq_some hfind, by simpa using List.find?_some hfind⟩
      · cases h
    · rintro ⟨hi, rfl⟩
      split
      · rename_i j hfind
        rw [List.inj_on_of_nodup_map hnodup (List.mem_of_find?_eq_some hfind) hi
          (by simpa using List.find?_some hfind)]
      · rename_i hnone
        have := List.find?_eq_none.mp hnone i hi
        simp at this

end Pages

end Kanban.Auth
