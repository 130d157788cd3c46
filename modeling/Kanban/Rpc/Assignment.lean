import Kanban.Auth.Identity
import Kanban.Rpc.Insertion

/-!
# Who is assigned to a card

`AssignCard` and `UnassignCard` take any reference to a user and store the subject that it resolves
to.  So whatever two references name the same user, the one call undoes the other.

## Main definitions

* `resolvedBy` — the calls of `resolve_subject` are answered from the directories of the tenants.
* `assigned`, `unassigned` — the rows that the two calls leave.
* `subject_resolution_canonical` — references to one identity are interchangeable.
-/

namespace Kanban.Rpc

open Program Kanban.Store Kanban.Auth Kanban.Ids
open Kanban.Services (AuthContext ConnectError IdCodec isWhitespace)

variable {ι α : Type}

/-- `resolve_err`. -/
def resolveErr : ResolveError → ConnectError
  | .invalid msg => invalidArgument msg
  | .notFound msg => notFound msg
  | .backend _ => internal "identity backend error"

/-- The calls of `resolve_subject` are answered as the clients of the tenants have it. -/
def resolvedBy (U : UlidCrate) (A : String → AuthClient) (fuel : ℕ) : Call ι → Move ι → Bool
  | .resolveSubject tenant input, .resolved answer =>
      (IdentityClient.resolveSubject U (A tenant) fuel input).map (Except.mapError resolveErr) =
        some answer
  | _, _ => true

variable [DecidableEq ι]

theorem stored_assignees : Table.Stored (kanban ι) Db.assigneesT where
  inj _ _ h := by cases h; rfl
  put _ _ := rfl
  del _ _ := rfl
  other _ a h := by rcases a with (r | r) <;> cases r <;> first | rfl | exact absurd rfl (h _)

theorem same_assignees (r r' : AssigneeRow ι) :
    Db.assigneesT.same r r' = true ↔ (r.cardId, r.subject) = (r'.cardId, r'.subject) := by
  rw [Prod.mk.injEq]
  exact decide_eq_true_iff

/-- A user is assigned to a card at most once. -/
def AssigneesKeyed (db : Db ι) : Prop :=
  (db.cardAssignees.map fun r => (r.cardId, r.subject)).Nodup

instance {db : Db ι} : Decidable (AssigneesKeyed db) := inferInstanceAs (Decidable (List.Nodup _))

theorem AssigneesKeyed.applyAll {db : Db ι} (h : AssigneesKeyed db) (ws : List (Write (Rec ι))) :
    AssigneesKeyed ((kanban ι).applyAll db ws) := stored_assignees.nodup_applyAll same_assignees h

/-- The assignees after one more was assigned; one that is assigned is not assigned twice. -/
def assigned (x : AssigneeRow ι) (rows : List (AssigneeRow ι)) : List (AssigneeRow ι) :=
  if rows.any (Db.assigneesT.same x) then rows else rows ++ [x]

/-- The assignees after one was unassigned. -/
def unassigned (x : AssigneeRow ι) (rows : List (AssigneeRow ι)) : List (AssigneeRow ι) :=
  rows.filter (· ≠ x)

theorem unassigned_assigned (x : AssigneeRow ι) (rows : List (AssigneeRow ι)) :
    unassigned x (assigned x rows) = unassigned x rows := by
  unfold assigned
  split
  · rfl
  · simp [unassigned]

theorem nodup_assigned {x : AssigneeRow ι} {rows : List (AssigneeRow ι)}
    (h : (rows.map fun r => (r.cardId, r.subject)).Nodup) :
    ((assigned x rows).map fun r => (r.cardId, r.subject)).Nodup := by
  unfold assigned
  split
  · exact h
  · rename_i hany
    rw [List.map_append, List.map_singleton, ← List.concat_eq_append, List.nodup_concat]
    refine ⟨fun hmem => hany ?_, h⟩
    obtain ⟨r, hr, heq⟩ := List.mem_map.mp hmem
    exact List.any_eq_true.mpr ⟨r, hr, (same_assignees x r).mpr heq.symm⟩

/-! ## The transaction -/

section Calls

variable {codec : IdCodec ι} {ctx : RequestContext} {t s input : String}
  {cardId : ι} {v db : Db ι} {U : UlidCrate} {A : String → AuthClient} {fuel : ℕ}

theorem soloTx_rows {p : Handler ι α}
    (hp : p.Strict fun ws => ∀ a ∈ ws, ∀ r, a.record ≠ Db.assigneesT.record r) :
    SoloTx (kanban ι) p v fun _ v' => v'.cardAssignees = v.cardAssignees :=
  SoloTx.of_strict (R := fun v v' : Db ι => v'.cardAssignees = v.cardAssignees) (fun _ => rfl)
    (fun _ _ _ h h' => h'.trans h) (fun _ _ hws => stored_assignees.rows_applyAll hws) hp

/-- The transaction in which somebody is assigned or unassigned. -/
theorem solo_touchAssignees {P : List (AssigneeRow ι) → Prop} {more : Payload}
    {body : Handler ι (α × String × Atom)}
    (hbody : SoloTx (kanban ι) body v fun _ v' => P v'.cardAssignees) :
    Solo (kanban ι) (fun _ => True) (touchCard codec t cardId more body) .idle v
      fun _ tx v' => tx = .idle ∧ P v'.cardAssignees := by
  refine solo_fetchOr_bind fun cur _ _ => solo_beginTx_bind (hbody.bind_soloIn fun a v₁ h₁ => ?_)
  obtain ⟨a, patch⟩ := a
  have hbump : SoloTx (kanban ι) (bumpRevision "failed to bump revision" t cardId) v₁ fun _ v' =>
      v'.cardAssignees = v₁.cardAssignees := by
    refine soloTx_bind (soloTx_fetchOne fun e row he _ => soloTx_pure ?_)
    refine stored_assignees.rows_applyAll fun a ha r heq => ?_
    obtain ⟨c, rfl | rfl⟩ := Table.within_update v₁ e he a ha <;> cases heq
  refine hbump.bind_soloIn fun newRevision v₂ h₂ => ?_
  refine (soloTx_rows (strict_insertBoardEvent (fun _ _ => nofun) fun _ _ => nofun)).bind_soloIn
    fun _ v₃ h₃ => ?_
  have hdone : P v₃.cardAssignees := by
    rw [h₃, h₂]
    exact h₁
  exact soloIn_commitTx_bind trivial (solo_pure ⟨rfl, hdone⟩)

/-- The rule of a call of `resolve_subject`, and what comes after it. -/
theorem solo_resolveSubject_bind {E : Db ι → Prop} {Q : α → Tx (Rec ι) → Db ι → Prop}
    {f : String → Handler ι α}
    (hs : IdentityClient.resolveSubject U (A t) fuel input = some (.ok s))
    (h : Solo (kanban ι) E (f s) .idle v Q) :
    Solo ((kanban ι).limit (resolvedBy U A fuel)) E ((resolveSubject t input).bind f) .idle v Q := by
  refine solo_call_limit fun m x r hallow hr => ?_
  cases m with
  | resolved answer =>
      cases hr
      have hanswer := of_decide_eq_true hallow
      rw [hs] at hanswer
      cases hanswer
      exact h
  | done => cases hr
  | refuse transient => cases hr
  | lose transient => cases hr
  | answer g => cases hr
  | page n => cases hr
  | fresh id => cases hr

/-- The shared part of the two calls: the subject, the transaction, and the card that is returned. -/
theorem solo_resolved {P : List (AssigneeRow ι) → Prop}
    {body : String → Handler ι (Unit × String × Atom)}
    (hs : IdentityClient.resolveSubject U (A t) fuel input = some (.ok s))
    (hbody : SoloTx (kanban ι) (body s) db fun _ v' => P v'.cardAssignees) :
    Solo ((kanban ι).limit (resolvedBy U A fuel)) (fun _ => True)
      ((resolveSubject t input).bind fun subject =>
        (touchCard codec t cardId [] (body subject)).bind fun _ => fetchFullCard codec t cardId) .idle db
      fun _ _ v => P v.cardAssignees := by
  refine solo_resolveSubject_bind hs (solo_bind ((solo_touchAssignees hbody).mono ?_))
  rintro _ tx v' ⟨rfl, hv'⟩
  exact solo_mute .fetchFullCard fun _ => hv'

theorem solo_assignCard (ht : ctx.auth.bind AuthContext.tenantId = some t)
    (hcard : ctx.checked.bind codec.parse = some cardId)
    (hs : IdentityClient.resolveSubject U (A t) fuel input = some (.ok s)) :
    Solo ((kanban ι).limit (resolvedBy U A fuel)) (fun _ => True) (assignCard codec ctx ⟨input⟩) .idle db
      fun _ _ v => v.cardAssignees = assigned ⟨t, cardId, s⟩ db.cardAssignees := by
  refine solo_orError_bind fun objectId hobject => solo_orError_bind fun cardId' hcard' =>
    solo_orError_bind fun t' ht' => solo_ensure_bind fun _ => ?_
  obtain rfl := Option.some.inj (ht'.symm.trans ht)
  rw [show ctx.checked = some objectId from hobject] at hcard
  obtain rfl := Option.some.inj (hcard'.symm.trans hcard)
  refine solo_resolved (P := fun rows => rows = assigned ⟨t', cardId', s⟩ db.cardAssignees) hs
    (soloTx_bind ((soloTx_query fun e he => ?_).mono fun _ _ hv => soloTx_pure hv))
  exact stored_assignees.rows_insertIgnore he

theorem solo_unassignCard (hdb : AssigneesKeyed db) (ht : ctx.auth.bind AuthContext.tenantId = some t)
    (hcard : ctx.checked.bind codec.parse = some cardId)
    (hs : IdentityClient.resolveSubject U (A t) fuel input = some (.ok s)) :
    Solo ((kanban ι).limit (resolvedBy U A fuel)) (fun _ => True) (unassignCard codec ctx ⟨input⟩) .idle
      db
      fun _ _ v => v.cardAssignees = unassigned ⟨t, cardId, s⟩ db.cardAssignees := by
  refine solo_orError_bind fun objectId hobject => solo_orError_bind fun cardId' hcard' =>
    solo_orError_bind fun t' ht' => ?_
  obtain rfl := Option.some.inj (ht'.symm.trans ht)
  rw [show ctx.checked = some objectId from hobject] at hcard
  obtain rfl := Option.some.inj (hcard'.symm.trans hcard)
  refine solo_resolved (P := fun rows => rows = unassigned ⟨t', cardId', s⟩ db.cardAssignees) hs
    (soloTx_bind ((soloTx_query fun e he => ?_).mono fun _ _ hv => soloTx_pure hv))
  refine (stored_assignees.rows_delete same_assignees he hdb).trans (List.filter_congr fun r _ => ?_)
  obtain ⟨tenant, card, subject⟩ := r
  simp [AssigneeRow.mk.injEq, and_comm, and_left_comm]

end Calls

/-! ## References to one identity -/

section Canonical

variable {U : UlidCrate} {A : String → AuthClient} {fuel : ℕ} {t : String}
  {pages : List (List Identity)}

/-- **Subject resolution is canonical.**  It returns, and what it returns resolves to itself.  The
references to an identity of which the address is no other reference all resolve to its subject, and
nothing resolves to an identity that it does not refer to.  So whoever is assigned by one reference
is unassigned by any other. -/
theorem subject_resolution_canonical (hU : U.Documented) (hD : Directory U (A t) pages)
    (hfuel : pages.length ≤ fuel) :
    (∀ input, ∃ r, IdentityClient.resolveSubject U (A t) fuel input = some r) ∧
    (∀ input s, IdentityClient.resolveSubject U (A t) fuel input = some (.ok s) →
      IdentityClient.resolveSubject U (A t) fuel s = some (.ok s)) ∧
    (∀ i ∈ pages.flatten, Addressable pages.flatten i → ∀ input, Refers i input →
      IdentityClient.resolveSubject U (A t) fuel input = some (.ok (canonicalSubject i.id))) ∧
    (∀ input s, IdentityClient.resolveSubject U (A t) fuel input = some (.ok s) →
      ∃ i ∈ pages.flatten, s = canonicalSubject i.id ∧ Refers i input) ∧
    ∀ i ∈ pages.flatten, Addressable pages.flatten i → ∀ input input', Refers i input →
      Refers i input' → ∀ (codec : IdCodec ι) ctx ctx' cardId acts acts' th th' w w' w'' card card',
      ctx.auth.bind AuthContext.tenantId = some t → ctx.checked.bind codec.parse = some cardId →
      ctx'.auth.bind AuthContext.tenantId = some t → ctx'.checked.bind codec.parse = some cardId →
      AssigneesKeyed w.store →
      Machine.Exec (Thread.step ((kanban ι).limit (resolvedBy U A fuel)))
        (Thread.start (assignCard codec ctx ⟨input⟩), w) acts (th, w') →
      th.prog.result = some (.ok card) →
      Machine.Exec (Thread.step ((kanban ι).limit (resolvedBy U A fuel)))
        (Thread.start (unassignCard codec ctx' ⟨input'⟩), w') acts' (th', w'') →
      th'.prog.result = some (.ok card') →
      w'.store.cardAssignees = assigned ⟨t, cardId, canonicalSubject i.id⟩ w.store.cardAssignees ∧
        w''.store.cardAssignees =
          unassigned ⟨t, cardId, canonicalSubject i.id⟩ w.store.cardAssignees := by
  refine ⟨fun input => ?_, fun input s h => hD.resolveSubject_idempotent hU hfuel h,
    fun i hi haddr input hrefers => hD.resolveSubject_of_refers hU hfuel hi haddr hrefers,
    fun input s h => ?_, ?_⟩
  · obtain ⟨r, hr, -⟩ := hD.refers_of_resolveSubject hfuel input
    exact ⟨r, hr⟩
  · obtain ⟨r, hr, hrefers⟩ := hD.refers_of_resolveSubject hfuel input
    exact hrefers s (Option.some.inj (hr.symm.trans h))
  · intro i hi haddr input input' hinput hinput' codec ctx ctx' cardId acts acts' th th' w w' w'' card
      card' ht hcard ht' hcard' hkeyed hrun hok hrun' hok'
    have hs := hD.resolveSubject_of_refers hU hfuel hi haddr hinput
    have hs' := hD.resolveSubject_of_refers hU hfuel hi haddr hinput'
    have hassign := ((solo_assignCard ht hcard hs).exec hrun).2 card hok
    have hkeyed' : AssigneesKeyed w'.store := by
      rw [AssigneesKeyed, hassign]
      exact nodup_assigned hkeyed
    have hunassign := ((solo_unassignCard hkeyed' ht' hcard' hs').exec hrun').2 card'
      hok'
    refine ⟨hassign, ?_⟩
    rw [hunassign, hassign, unassigned_assigned]

end Canonical

/-- A card to which nobody is assigned. -/
def freeCard : World (Db String) (Backend String) where
  store := { Db.empty with
    boards := [⟨"a", "t", "p", "A", "a", "", none, "private", 0⟩]
    cards := [⟨"c", "t", "p", "a", "a1", "ROAD-001", "Ship", none, 0, "medium", "medium", none,
      none, false, none, none, "user:ann", 0⟩] }
  ext := Backend.empty

/-- Two identities on two pages. -/
def staff : List (List Identity) :=
  [[⟨"01KWF0KYZ0FRNR23ZXAWJZV43S", some "bob@x.org"⟩],
    [⟨"01KWF0KYZ0FRNR23ZXAWJZV43T", some "Ada@x.org"⟩]]

theorem directory_staff : Directory crockfordCrate (pagedClient staff) staff :=
  directory_pagedClient (by decide) (by decide) (by decide +kernel)

/-- The answer of a call of `resolve_subject` that names the second of them. -/
def toAda : Act (Move String) := .move (.resolved (.ok "user:01KWF0KYZ0FRNR23ZXAWJZV43T"))

/-- The steps of a call after it. -/
def afterwards (event : String) : List (Act (Move String)) :=
  [.ok, .ok, .ok, .ok, .ok, .move (.fresh event), .ok, .ok, .ok] ++ fullCardReads

/-- The services of a tenant with these identities. -/
def staffed : Semantics (Db String) (Rec String) (Call String) (Reply String) (Backend String)
    (Move String) := (kanban String).limit (resolvedBy crockfordCrate (fun _ => pagedClient staff) 2)

/-- Assigned by the address, unassigned by the ULID. -/
theorem subject_resolution_canonical_ada :
    ∃ th th' w' w'', Machine.Exec (Thread.step staffed) (Thread.start (assignCard textIds (annOn "c")
        ⟨" ada@X.org"⟩), freeCard) (toAda :: afterwards "e") (th, w') ∧
      Machine.Exec (Thread.step staffed) (Thread.start (unassignCard textIds (annOn "c")
        ⟨"01KWF0KYZ0FRNR23ZXAWJZV43T"⟩), w') (toAda :: afterwards "f") (th', w'') ∧
      w'.store.cardAssignees = [⟨"t", "c", canonicalSubject "01KWF0KYZ0FRNR23ZXAWJZV43T"⟩] ∧
      w''.store.cardAssignees = [] := by
  -- the first step looks through the directory, the others do not
  obtain ⟨c, th, w', card, c', th', w'', card', hstep, hrun, hok, hstep', hrun', hok'⟩ :
      ∃ c th w' card c' th' w'' card',
        Thread.step staffed (Thread.start (assignCard textIds (annOn "c") ⟨" ada@X.org"⟩), freeCard)
          toAda = some c ∧
        Machine.run (Thread.step staffed) c (afterwards "e") = some (th, w') ∧
        th.prog.result = some (.ok card) ∧
        Thread.step staffed (Thread.start (unassignCard textIds (annOn "c")
          ⟨"01KWF0KYZ0FRNR23ZXAWJZV43T"⟩), w') toAda = some c' ∧
        Machine.run (Thread.step staffed) c' (afterwards "f") = some (th', w'') ∧
        th'.prog.result = some (.ok card') :=
    ⟨_, _, _, _, _, _, _, _, step_call_limit (by decide +kernel) rfl, rfl, rfl,
      step_call_limit (by decide +kernel) rfl, rfl, rfl⟩
  have hexec := Machine.ExecWhile.cons trivial hstep (Machine.exec_of_run hrun)
  have hexec' := Machine.ExecWhile.cons trivial hstep' (Machine.exec_of_run hrun')
  have hrefers : Refers ⟨"01KWF0KYZ0FRNR23ZXAWJZV43T", some "Ada@x.org"⟩ " ada@X.org" :=
    refers_of_names (.email (by decide +kernel))
  have haddr : Addressable staff.flatten ⟨"01KWF0KYZ0FRNR23ZXAWJZV43T", some "Ada@x.org"⟩ :=
    ⟨by decide, by decide +kernel, by decide +kernel, by decide +kernel⟩
  have hrefers' : Refers ⟨"01KWF0KYZ0FRNR23ZXAWJZV43T", some "Ada@x.org"⟩
      "01KWF0KYZ0FRNR23ZXAWJZV43T" := ⟨"", _, "", rfl, List.forall_mem_nil _, List.forall_mem_nil _, .ulid⟩
  have hall := @subject_resolution_canonical String _ crockfordCrate (fun _ => pagedClient staff) 2 "t"
    staff documented_crockfordCrate directory_staff (Nat.le_refl 2)
  obtain ⟨hassigned, hunassigned⟩ := hall.2.2.2.2 _ (by decide) haddr _ _ hrefers hrefers' textIds _ _
    "c" _ _ _ _ _ _ _ _ _ rfl rfl rfl rfl (by decide) hexec hok hexec' hok'
  exact ⟨th, th', w', w'', hexec, hexec', hassigned, hunassigned⟩

/-- An address that starts with `User:` is taken for a subject when it is written in lower case. -/
theorem address_taken_for_subject :
    ∃ (i : Identity) (s : String), Directory crockfordCrate (pagedClient [[i]]) [[i]] ∧
      '@' ∈ (identityEmail i).toList ∧ trimmed (identityEmail i) = identityEmail i ∧
      ¬ "user:".toList <+: (identityEmail i).toList ∧ Refers i s ∧
      ∀ fuel, IdentityClient.resolveSubject crockfordCrate (pagedClient [[i]]) fuel s =
        some (.error (.invalid "user:x@y.z does not carry a valid identity ULID")) :=
  ⟨⟨"01KWF0KYZ0FRNR23ZXAWJZV43T", some "User:x@y.z"⟩, "user:x@y.z",
    directory_pagedClient (by decide) (by decide) (by decide +kernel), by decide, by decide +kernel,
    by decide +kernel, ⟨"", "user:x@y.z", "", rfl, List.forall_mem_nil _, List.forall_mem_nil _,
      .email (by decide +kernel)⟩, fun _ => rfl⟩

end Kanban.Rpc
