import Kanban.Auth.Identity
import Kanban.Lib.Exec

/-!
# Assignee profiles

`auth/identity_client.rs`, `resolve_profile`: the display name and the email address of an
assignee, from the directory of the tenant or from a cache that all calls of the process share.
The cache is looked at under its lock, then the directory is asked without it, and what it has
said is inserted under the lock again; so other calls, changes of the directory and the clock come
in between, and a call that is late may overwrite what a later one has found.

## Main definitions

* `profileOf` — the profile of an identity.
* `Profiles`, `Profiles.step` — the cache, the directory and the calls.
* `Profiles.Held` — what the directory held at a moment.
* `Profiles.Prompt` — the condition that a fetch takes a bounded time.
-/

namespace Kanban.Auth

open Text Kanban.Ids Machine

/-! ## Profiles -/

/-- The traits of an identity that its profile is made of. -/
structure Traits where
  givenName : Option String
  familyName : Option String
  email : Option String
  deriving DecidableEq, Repr

structure AssigneeProfile where
  displayName : String
  email : String
  deriving DecidableEq, Repr

def identityDisplayName (t : Traits) : String :=
  match t.givenName.getD "", t.familyName.getD "" with
  | "", family => family
  | given, "" => given
  | given, family => given ++ " " ++ family

/-- The profile of an identity; `none` when it has neither a name nor an address. -/
def profileOf (t : Traits) : Option AssigneeProfile :=
  if identityDisplayName t = "" ∧ t.email.getD "" = "" then none
  else some ⟨identityDisplayName t, t.email.getD ""⟩

/-- The identity that a canonical subject names. -/
def subjectUlid (U : UlidCrate) (subject : String) : Option String :=
  (stripPrefix "user:".toList subject.toList).bind fun rest =>
    if isUlid U (String.ofList rest) then some (String.ofList rest) else none

/-- `PROFILE_CACHE_TTL`, in seconds. -/
def profileCacheTtl : ℕ := 300

/-- The identities of each tenant, by their ids. -/
abbrev Identities := String → String → Option Traits

namespace Profiles

/-- Where a call stands. -/
inductive Stage
  /-- Before the look at the cache. -/
  | lookup
  /-- `get_identity` is on its way to the directory. -/
  | fetch (id : String)
  /-- The directory has answered. -/
  | respond (found : Option Traits)
  /-- Before the insertion. -/
  | store (profile : AssigneeProfile)
  | done (answer : Option AssigneeProfile)

/-- A call of `resolve_profile`.  `readAt` is when the directory has answered it, `doneAt` when it
has returned. -/
structure ProfileCall where
  tenantId : String
  subject : String
  readAt : ℕ
  doneAt : ℕ
  stage : Stage

end Profiles

open Profiles in
/-- The cache and what is around it.  `past` is the directory at each moment so far. -/
structure Profiles where
  now : ℕ
  directory : Identities
  past : List (ℕ × Identities)
  cache : String × String → Option (AssigneeProfile × ℕ)
  calls : List ProfileCall

namespace Profiles

inductive Input
  | advance (now : ℕ)
  /-- Identities are created, changed or deleted. -/
  | change (directory : Identities)
  | arrive (tenantId subject : String)
  /-- A call looks at the cache, unless the lock is poisoned. -/
  | look (i : ℕ) (locked : Bool)
  /-- The directory answers a call. -/
  | read (i : ℕ)
  /-- A call fails to reach the directory, or its answer fails to come back. -/
  | fails (i : ℕ)
  /-- A call gets the answer of the directory. -/
  | receive (i : ℕ)
  /-- A call inserts its profile, unless the lock is poisoned. -/
  | insert (i : ℕ) (locked : Bool)

variable (U : UlidCrate)

def start (directory : Identities) : Profiles where
  now := 0
  directory := directory
  past := [(0, directory)]
  cache := fun _ => none
  calls := []

/-- The call goes on at `stage`. -/
def proceed (s : Profiles) (i : ℕ) (c : ProfileCall) (stage : Stage) : Profiles :=
  { s with calls := s.calls.set i { c with stage := stage } }

/-- The call returns. -/
def answer (s : Profiles) (i : ℕ) (c : ProfileCall) (profile : Option AssigneeProfile) : Profiles :=
  { s with calls := s.calls.set i { c with stage := .done profile, doneAt := s.now } }

/-- What the cache has for a call, if it is fresh. -/
def cached (s : Profiles) (c : ProfileCall) : Option AssigneeProfile :=
  (s.cache (c.tenantId, c.subject)).bind fun entry =>
    if s.now - entry.2 < profileCacheTtl then some entry.1 else none

def step (s : Profiles) : Input → Option Profiles
  | .advance now =>
      if s.now ≤ now then
        some { s with now := now, past := s.past ++ [(now, s.directory)] }
      else none
  | .change directory =>
      some { s with directory := directory, past := s.past ++ [(s.now, directory)] }
  | .arrive tenantId subject =>
      some { s with calls := s.calls ++ [⟨tenantId, subject, 0, 0, .lookup⟩] }
  | .look i locked => s.calls[i]?.bind fun c =>
      match c.stage with
      | .lookup =>
          match if locked then s.cached c else none with
          | some profile => some (s.answer i c (some profile))
          | none =>
              match subjectUlid U c.subject with
              | some id => some (s.proceed i c (.fetch id))
              | none => some (s.answer i c none)
      | _ => none
  | .read i => s.calls[i]?.bind fun c =>
      match c.stage with
      | .fetch id =>
          some (s.proceed i { c with readAt := s.now } (.respond (s.directory c.tenantId id)))
      | _ => none
  | .fails i => s.calls[i]?.bind fun c =>
      match c.stage with
      | .fetch _ | .respond _ => some (s.answer i c none)
      | _ => none
  | .receive i => s.calls[i]?.bind fun c =>
      match c.stage with
      | .respond found =>
          match found.bind profileOf with
          | some profile => some (s.proceed i c (.store profile))
          | none => some (s.answer i c none)
      | _ => none
  | .insert i locked => s.calls[i]?.bind fun c =>
      match c.stage with
      | .store profile =>
          if locked then
            some { s.answer i c (some profile) with
              cache := Function.update s.cache (c.tenantId, c.subject) (some (profile, s.now)) }
          else some (s.answer i c (some profile))
      | _ => none

/-- What one step does, case by case. -/
inductive Step (s : Profiles) : Input → Profiles → Prop
  | advance {now} : s.now ≤ now →
      Step s (.advance now) { s with now := now, past := s.past ++ [(now, s.directory)] }
  | change {directory} : Step s (.change directory)
      { s with directory := directory, past := s.past ++ [(s.now, directory)] }
  | arrive {tenantId subject} : Step s (.arrive tenantId subject)
      { s with calls := s.calls ++ [⟨tenantId, subject, 0, 0, .lookup⟩] }
  | hit {i locked c profile} : s.calls[i]? = some c → s.cached c = some profile →
      Step s (.look i locked) (s.answer i c (some profile))
  | miss {i locked c id} : s.calls[i]? = some c → subjectUlid U c.subject = some id →
      Step s (.look i locked) (s.proceed i c (.fetch id))
  | noUser {i locked c} : s.calls[i]? = some c → Step s (.look i locked) (s.answer i c none)
  | read {i c id} : s.calls[i]? = some c → c.stage = .fetch id →
      Step s (.read i)
        (s.proceed i { c with readAt := s.now } (.respond (s.directory c.tenantId id)))
  | fails {i c} : s.calls[i]? = some c → Step s (.fails i) (s.answer i c none)
  | found {i c traits profile} : s.calls[i]? = some c → c.stage = .respond (some traits) →
      profileOf traits = some profile → Step s (.receive i) (s.proceed i c (.store profile))
  | empty {i c} : s.calls[i]? = some c → Step s (.receive i) (s.answer i c none)
  | insert {i c profile} : s.calls[i]? = some c → c.stage = .store profile →
      Step s (.insert i true) { s.answer i c (some profile) with
        cache := Function.update s.cache (c.tenantId, c.subject) (some (profile, s.now)) }
  | noInsert {i c profile} : s.calls[i]? = some c → c.stage = .store profile →
      Step s (.insert i false) (s.answer i c (some profile))

section StepCases

variable {U} {s t : Profiles} {a : Input}

theorem step_cases (hstep : s.step U a = some t) : Step U s a t := by
  cases a with
  | advance now =>
      simp only [step] at hstep
      split at hstep
      · obtain rfl := Option.some.inj hstep; exact .advance ‹_›
      · cases hstep
  | change directory => obtain rfl := Option.some.inj hstep; exact .change
  | arrive tenantId subject => obtain rfl := Option.some.inj hstep; exact .arrive
  | look i locked =>
      obtain ⟨c, hc, hstep⟩ := Option.bind_eq_some_iff.mp hstep
      split at hstep
      · split at hstep
        · rename_i profile hcached
          obtain rfl := Option.some.inj hstep
          cases locked with
          | false => cases hcached
          | true => exact .hit hc hcached
        · split at hstep <;> obtain rfl := Option.some.inj hstep
          · exact .miss hc ‹_›
          · exact .noUser hc
      · cases hstep
  | read i =>
      obtain ⟨c, hc, hstep⟩ := Option.bind_eq_some_iff.mp hstep
      split at hstep
      · obtain rfl := Option.some.inj hstep; exact .read hc ‹_›
      · cases hstep
  | fails i =>
      obtain ⟨c, hc, hstep⟩ := Option.bind_eq_some_iff.mp hstep
      split at hstep
      · obtain rfl := Option.some.inj hstep; exact .fails hc
      · obtain rfl := Option.some.inj hstep; exact .fails hc
      · cases hstep
  | receive i =>
      obtain ⟨c, hc, hstep⟩ := Option.bind_eq_some_iff.mp hstep
      split at hstep
      · rename_i found hstage
        split at hstep
        · rename_i profile hprofile
          obtain ⟨traits, rfl, hprofile⟩ := Option.bind_eq_some_iff.mp hprofile
          obtain rfl := Option.some.inj hstep
          exact .found hc hstage hprofile
        · obtain rfl := Option.some.inj hstep; exact .empty hc
      · cases hstep
  | insert i locked =>
      obtain ⟨c, hc, hstep⟩ := Option.bind_eq_some_iff.mp hstep
      split at hstep
      · cases locked <;> obtain rfl := Option.some.inj hstep
        · exact .noInsert hc ‹_›
        · exact .insert hc ‹_›
      · cases hstep

end StepCases

/-! ## What an answer is worth -/

/-- At the moment `τ` the directory of the tenant held the identity of the subject with this
profile. -/
def Held (s : Profiles) (τ : ℕ) (tenantId subject : String) (profile : AssigneeProfile) : Prop :=
  ∃ directory id traits, (τ, directory) ∈ s.past ∧ subjectUlid U subject = some id ∧
    directory tenantId id = some traits ∧ profileOf traits = some profile

/-- What a call inserts, the directory has said at most `delay` ago. -/
def Prompt (delay : ℕ) (s : Profiles) : Input → Prop
  | .insert i _ => s.now ≤ ((s.calls[i]?.map fun c => c.readAt).getD s.now) + delay
  | _ => True

instance (delay : ℕ) (s : Profiles) (a : Input) : Decidable (s.Prompt delay a) := by
  cases a <;> unfold Prompt <;> infer_instance

/-- A profile that the directory held less than a time to live and a delay ago. -/
def Recent (delay : ℕ) (s : Profiles) (doneAt : ℕ) (tenantId subject : String)
    (profile : AssigneeProfile) : Prop :=
  ∃ τ, s.Held U τ tenantId subject profile ∧ τ ≤ doneAt ∧ doneAt < τ + profileCacheTtl + delay

/-- What a call relies on at each stage. -/
def Knows (delay : ℕ) (s : Profiles) (c : ProfileCall) : Prop :=
  match c.stage with
  | .lookup => True
  | .fetch id => subjectUlid U c.subject = some id
  | .respond found => ∀ traits profile, found = some traits → profileOf traits = some profile →
      s.Held U c.readAt c.tenantId c.subject profile
  | .store profile => s.Held U c.readAt c.tenantId c.subject profile
  | .done answer => ∀ profile, answer = some profile →
      s.Recent U delay c.doneAt c.tenantId c.subject profile

/-- What is in the cache was held a delay before it was inserted, and what the calls have is what
the directory held. -/
structure Inv (delay : ℕ) (s : Profiles) : Prop where
  current : (s.now, s.directory) ∈ s.past
  past : ∀ x ∈ s.past, x.1 ≤ s.now
  calls : ∀ c ∈ s.calls, s.Knows U delay c
  cache : ∀ key profile since, s.cache key = some (profile, since) → since ≤ s.now ∧
    ∃ τ, s.Held U τ key.1 key.2 profile ∧ τ ≤ since ∧ since ≤ τ + delay

section Inv

variable {U} {s t : Profiles} {delay : ℕ} {a : Input}

theorem inv_start (directory : Identities) : (start directory).Inv U delay where
  current := List.mem_singleton.mpr rfl
  past := fun x hx => by
    rw [List.mem_singleton.mp hx]
    exact le_rfl
  calls := fun _ hc => by cases hc
  cache := fun _ _ _ h => by cases h

theorem Held.grow {τ : ℕ} {tenantId subject : String} {profile : AssigneeProfile}
    (h : s.Held U τ tenantId subject profile) (hpast : s.past ⊆ t.past) :
    t.Held U τ tenantId subject profile := by
  obtain ⟨directory, id, traits, hmem, h⟩ := h
  exact ⟨directory, id, traits, hpast hmem, h⟩

/-- What was known before is known when time has gone on. -/
theorem Knows.grow {c : ProfileCall} (h : s.Knows U delay c) (hpast : s.past ⊆ t.past) :
    t.Knows U delay c := by
  unfold Knows at h ⊢
  cases hstage : c.stage with
  | lookup => trivial
  | fetch id =>
      simp only [hstage] at h
      exact h
  | respond found =>
      simp only [hstage] at h
      intro traits profile hfound hprofile
      exact (h traits profile hfound hprofile).grow hpast
  | store profile =>
      simp only [hstage] at h
      exact h.grow hpast
  | done answer =>
      simp only [hstage] at h
      intro profile hanswer
      obtain ⟨τ, hheld, hle, hlt⟩ := h profile hanswer
      exact ⟨τ, hheld.grow hpast, hle, hlt⟩

/-- The clock or the directory goes on. -/
theorem Inv.goes_on (hs : s.Inv U delay) {now : ℕ} {directory : Identities} (hnow : s.now ≤ now) :
    Inv U delay { s with
      now := now
      directory := directory
      past := s.past ++ [(now, directory)] } := by
  have hsub : s.past ⊆ s.past ++ [(now, directory)] := List.subset_append_left _ _
  refine ⟨List.mem_append_right _ (List.mem_singleton.mpr rfl), fun x hx => ?_, fun c hc => ?_,
    fun key profile since h => ?_⟩
  · rcases List.mem_append.mp hx with hx | hx
    · exact (hs.past x hx).trans hnow
    · rw [List.mem_singleton.mp hx]
  · exact (hs.calls c hc).grow hsub
  · obtain ⟨hle, τ, hheld, h⟩ := hs.cache key profile since h
    exact ⟨hle.trans hnow, τ, hheld.grow hsub, h⟩

/-- A call goes on. -/
theorem Inv.set (hs : s.Inv U delay) {i : ℕ} {c : ProfileCall} (hc : s.Knows U delay c) :
    Inv U delay { s with calls := s.calls.set i c } := by
  refine ⟨hs.current, hs.past, fun d hd => ?_, hs.cache⟩
  rcases List.mem_or_eq_of_mem_set hd with hd | rfl
  · exact hs.calls d hd
  · exact hc

/-- A call returns without a profile. -/
theorem Inv.answer_none (hs : s.Inv U delay) (i : ℕ) (c : ProfileCall) :
    (s.answer i c none).Inv U delay :=
  hs.set fun _ h => by cases h

/-- A call returns a profile that the directory held not long ago. -/
theorem Inv.answer (hs : s.Inv U delay) {i : ℕ} {c : ProfileCall} {profile : AssigneeProfile}
    (h : s.Recent U delay s.now c.tenantId c.subject profile) :
    (s.answer i c (some profile)).Inv U delay :=
  hs.set fun _ heq => by
    obtain rfl := Option.some.inj heq
    exact h

/-- What the cache has for a call was held not long ago. -/
theorem Inv.recent_of_cached (hs : s.Inv U delay) {c : ProfileCall} {profile : AssigneeProfile}
    (h : s.cached c = some profile) : s.Recent U delay s.now c.tenantId c.subject profile := by
  obtain ⟨⟨profile', since⟩, hentry, h⟩ := Option.bind_eq_some_iff.mp h
  split at h
  · rename_i hfresh
    obtain rfl := Option.some.inj h
    obtain ⟨hsince, τ, hheld, hle, hdelay⟩ := hs.cache _ _ _ hentry
    refine ⟨τ, hheld, hle.trans hsince, ?_⟩
    dsimp only at hfresh
    omega
  · cases h

/-- What a prompt call has fetched was held not long ago. -/
theorem Inv.recent_of_store (hs : s.Inv U delay) {c : ProfileCall} {profile : AssigneeProfile}
    (hc : c ∈ s.calls) (hstage : c.stage = .store profile) (hprompt : s.now ≤ c.readAt + delay) :
    s.Held U c.readAt c.tenantId c.subject profile ∧ c.readAt ≤ s.now ∧
      s.Recent U delay s.now c.tenantId c.subject profile := by
  have hheld : s.Held U c.readAt c.tenantId c.subject profile := by
    have h := hs.calls c hc
    simpa only [Knows, hstage] using h
  have hread : c.readAt ≤ s.now := by
    obtain ⟨directory, id, traits, hmem, -⟩ := hheld
    exact hs.past _ hmem
  have hpos : 0 < profileCacheTtl := by decide
  exact ⟨hheld, hread, c.readAt, hheld, hread, by omega⟩

theorem prompt_insert {i : ℕ} {locked : Bool} {c : ProfileCall} (hc : s.calls[i]? = some c)
    (h : s.Prompt delay (.insert i locked)) : s.now ≤ c.readAt + delay := by
  simpa [Prompt, hc] using h

/-- **One step** keeps what the cache and the calls have within the bound. -/
theorem Inv.step (hs : s.Inv U delay) (hprompt : s.Prompt delay a) (hstep : s.step U a = some t) :
    t.Inv U delay := by
  cases step_cases hstep with
  | advance hnow => exact hs.goes_on hnow
  | change => exact hs.goes_on le_rfl
  | arrive =>
      refine ⟨hs.current, hs.past, fun c hc => ?_, hs.cache⟩
      rcases List.mem_append.mp hc with hc | hc
      · exact hs.calls c hc
      · rw [List.mem_singleton.mp hc]
        trivial
  | hit _ hcached => exact hs.answer (hs.recent_of_cached hcached)
  | miss _ hid => exact hs.set hid
  | noUser | fails | empty => exact hs.answer_none _ _
  | @read i c id hc hstage =>
      have hid : subjectUlid U c.subject = some id := by
        have h := hs.calls c (List.mem_of_getElem? hc)
        simpa only [Knows, hstage] using h
      refine hs.set fun traits profile hfound hprofile => ?_
      exact ⟨s.directory, id, traits, hs.current, hid, hfound, hprofile⟩
  | @found i c traits profile hc hstage hprofile =>
      have h := hs.calls c (List.mem_of_getElem? hc)
      simp only [Knows, hstage] at h
      exact hs.set (h traits profile rfl hprofile)
  | @insert i c profile hc hstage =>
      have hdelay := prompt_insert hc hprompt
      obtain ⟨hheld, hread, hrecent⟩ :=
        hs.recent_of_store (List.mem_of_getElem? hc) hstage hdelay
      have hanswer : (s.answer i c (some profile)).Inv U delay := hs.answer hrecent
      refine ⟨hanswer.current, hanswer.past, hanswer.calls, fun key profile' since h => ?_⟩
      have h : Function.update s.cache (c.tenantId, c.subject) (some (profile, s.now)) key =
          some (profile', since) := h
      by_cases hkey : key = (c.tenantId, c.subject)
      · subst hkey
        rw [Function.update_self] at h
        obtain ⟨rfl, rfl⟩ := Prod.mk.inj (Option.some.inj h)
        exact ⟨le_rfl, c.readAt, hheld, hread, hdelay⟩
      · rw [Function.update_of_ne hkey] at h
        exact hs.cache key profile' since h
  | noInsert hc hstage =>
      exact hs.answer (hs.recent_of_store (List.mem_of_getElem? hc) hstage
        (prompt_insert hc hprompt)).2.2

/-- **A profile is never older than the time to live and a fetch.**  In every run of any number of
calls, with changes of the directories, failures and poisoned locks in between, in which every
fetch is inserted within the delay: a profile that a call has returned is one that the directory of
the call's own tenant held for the identity of the call's subject, less than the time to live and
the delay before; and once the directory has not changed that identity for so long, it is the
profile that the directory holds. -/
theorem profile_recent {directory : Identities} {tr : List Input}
    (h : ExecWhile (step U) (Prompt delay) (start directory) tr s) {c : ProfileCall}
    (hc : c ∈ s.calls) {profile : AssigneeProfile} (hdone : c.stage = .done (some profile)) :
    s.Recent U delay c.doneAt c.tenantId c.subject profile ∧
      ∀ since id, subjectUlid U c.subject = some id →
        (∀ x ∈ s.past, since ≤ x.1 → x.2 c.tenantId id = s.directory c.tenantId id) →
        since + profileCacheTtl + delay ≤ c.doneAt →
        (s.directory c.tenantId id).bind profileOf = some profile := by
  have hs : s.Inv U delay :=
    h.invariant _ (inv_start directory) fun _ _ _ hu hprompt hst => hu.step hprompt hst
  have hrecent : s.Recent U delay c.doneAt c.tenantId c.subject profile := by
    have hknows := hs.calls c hc
    simp only [Knows, hdone] at hknows
    exact hknows profile rfl
  refine ⟨hrecent, fun since id hid hsame hlong => ?_⟩
  obtain ⟨τ, ⟨held, id', traits, hmem, hid', htraits, hprofile⟩, -, hlt⟩ := hrecent
  obtain rfl := Option.some.inj (hid.symm.trans hid')
  have hheld : held c.tenantId id = s.directory c.tenantId id :=
    hsame _ hmem (by dsimp only; omega)
  rw [← hheld, htraits]
  exact hprofile

/-- A tenant with one identity. -/
def annIs (familyName : String) : Identities := fun tenantId id =>
  if tenantId = "t" ∧ id = "01KWF0KYZ0FRNR23ZXAWJZV43T" then
    some ⟨some "Ann", some familyName, none⟩
  else none

/-- A call for that identity. -/
def annCall (stage : Stage) : ProfileCall :=
  ⟨"t", "user:01KWF0KYZ0FRNR23ZXAWJZV43T", 0, 0, stage⟩

/-- The fetch of a first call, a change of the name, and a second call in time. -/
def renamedInTime : List Input :=
  [.read 0, .advance 5, .receive 0, .insert 0 true, .change (annIs "May"), .advance 100,
    .arrive "t" "user:01KWF0KYZ0FRNR23ZXAWJZV43T", .look 1 true]

theorem profile_recent_renamed : ∃ s c,
    ExecWhile (step crockfordCrate) (Prompt 10) (start (annIs "Lee"))
        (.arrive "t" "user:01KWF0KYZ0FRNR23ZXAWJZV43T" :: .look 0 true :: renamedInTime) s ∧
      c ∈ s.calls ∧ c.doneAt = 100 ∧ c.stage = .done (some ⟨"Ann Lee", ""⟩) ∧
      s.Recent crockfordCrate 10 c.doneAt c.tenantId c.subject ⟨"Ann Lee", ""⟩ := by
  have hid : subjectUlid crockfordCrate "user:01KWF0KYZ0FRNR23ZXAWJZV43T" =
      some "01KWF0KYZ0FRNR23ZXAWJZV43T" := by decide +kernel
  -- the first look finds the cache empty and asks for the identity
  have hlook : step crockfordCrate { start (annIs "Lee") with calls := [annCall .lookup] }
      (.look 0 true) = some { start (annIs "Lee") with
        calls := [annCall (.fetch "01KWF0KYZ0FRNR23ZXAWJZV43T")] } := by
    simp [step, cached, annCall, start, hid, proceed]
  obtain ⟨s, c, hrun, hc, hat, hdone⟩ : ∃ s c,
      Machine.run (Machine.guarded (step crockfordCrate) (Prompt 10)) { start (annIs "Lee") with
        calls := [annCall (.fetch "01KWF0KYZ0FRNR23ZXAWJZV43T")] } renamedInTime = some s ∧
      s.calls[1]? = some c ∧ c.doneAt = 100 ∧ c.stage = .done (some ⟨"Ann Lee", ""⟩) :=
    ⟨_, _, rfl, rfl, rfl, rfl⟩
  have h : ExecWhile (step crockfordCrate) (Prompt 10) (start (annIs "Lee"))
      (.arrive "t" "user:01KWF0KYZ0FRNR23ZXAWJZV43T" :: .look 0 true :: renamedInTime) s :=
    .cons trivial rfl (.cons trivial hlook (execWhile_of_run hrun))
  have hmem := List.mem_of_getElem? hc
  exact ⟨s, c, h, hmem, hat, hdone, (profile_recent h hmem hdone).1⟩

end Inv

end Profiles

end Kanban.Auth
