import Kanban.Auth.Dispatch

/-!
# The dispatcher mediates every request

`dispatch_check` with all that it reads: the headers as they are sent, the extension that an earlier
layer may have left, and a backend that may grant, deny or fail.  The check of `Auth.Dispatch` is the
same one, with the backend as the environment of a program.

## Main definitions

* `HttpRequest` — a request, as far as the dispatcher reads and changes it.
* `PermissionBackend` — the permission service.
* `HttpRequest.dispatchCheck` — `dispatch_check`.
* `HttpRequest.Admitted` — what it lets through.
* `returns_dispatchCheck` — the program that the runs of the handlers start with returns the same.
-/

namespace Kanban.Auth

open Program Kanban.Store Kanban.Services

/-- A request before the dispatcher. -/
structure HttpRequest where
  path : String
  /-- The headers by their names in lower case, each with the bytes of its value. -/
  headers : List (String × List UInt8)
  /-- The extension `CheckedObjectId`. -/
  checkedObjectId : Option String
  deriving DecidableEq, Repr

/-- `HeaderValue::to_str`: the bytes must be visible ASCII, blanks or tabs. -/
def headerToStr (value : List UInt8) : Option String :=
  if value.all fun b => (32 ≤ b && b < 127) || b = 9
  then some (String.ofList (value.map fun b => Char.ofNat b.toNat)) else none

/-- The header `x-sunbeam-object-id`, if it is there and can be read. -/
def HttpRequest.objectId (req : HttpRequest) : Option String :=
  (req.headers.lookup "x-sunbeam-object-id").bind headerToStr

inductive PermissionError
  | denied
  | backend (message : String)
  deriving DecidableEq, Repr

/-- The permission service; `Client` is a client in the scope of a tenant. -/
structure PermissionBackend (Client : Type) where
  tenantClient : String → Except PermissionError Client
  checkPermission : Client → String → String → String → String → Except PermissionError Bool

variable {Client : Type}

/-- `dispatch_check`: the answer, and the request as it is then. -/
def HttpRequest.dispatchCheck (isAuthenticated : AuthContext → Bool) (backend : PermissionBackend Client)
    (auth : AuthContext) (tenantId : String) (req : HttpRequest) :
    Except StatusError Unit × HttpRequest :=
  if ¬ isAuthenticated auth then (.error ⟨401, "authentication required"⟩, req)
  else
    let subject := auth.subject.getD ""
    match matrix.find? fun e => e.method = req.path with
    | none => (.error ⟨500, "unknown RPC method"⟩, req)
    | some entry =>
        match entry.objectIdSource with
        | .none => (.ok (), req)
        | .header =>
            match req.objectId.filter (· ≠ "") with
            | none => (.error ⟨400, "x-sunbeam-object-id header is required for this RPC"⟩, req)
            | some objectId =>
                match backend.tenantClient tenantId with
                | .error _ => (.error ⟨500, "authorization client error"⟩, req)
                | .ok client =>
                    match backend.checkPermission client entry.namespaceName objectId entry.relation
                      subject with
                    | .error .denied => (.error ⟨403, "permission denied"⟩, req)
                    | .error (.backend _) => (.error ⟨500, "authorization check failed"⟩, req)
                    | .ok false => (.error ⟨403, "permission denied"⟩, req)
                    | .ok true => (.ok (), { req with checkedObjectId := some objectId })

/-- The middleware: the handler runs only on what was let through. -/
def HttpRequest.dispatch {α : Type} (isAuthenticated : AuthContext → Bool)
    (backend : PermissionBackend Client) (auth : AuthContext) (tenantId : String)
    (next : HttpRequest → α) (req : HttpRequest) : Except StatusError α :=
  match req.dispatchCheck isAuthenticated backend auth tenantId with
  | (.error e, _) => .error e
  | (.ok (), req') => .ok (next req')

/-! ## What is let through -/

/-- The backend granted the entry's relation on the object to the subject. -/
def PermissionBackend.Grants (backend : PermissionBackend Client) (tenantId : String)
    (entry : DispatchEntry) (objectId subject : String) : Prop :=
  ∃ client, backend.tenantClient tenantId = .ok client ∧
    backend.checkPermission client entry.namespaceName objectId entry.relation subject = .ok true

/-- The caller is authenticated and the method is in the matrix; if its object is checked, the header
names one that was granted. -/
def HttpRequest.Admitted (isAuthenticated : AuthContext → Bool) (backend : PermissionBackend Client)
    (auth : AuthContext) (tenantId : String) (req : HttpRequest) : Prop :=
  isAuthenticated auth = true ∧ ∃ entry ∈ matrix, entry.method = req.path ∧
    (entry.objectIdSource = .none ∨ ∃ objectId, req.objectId = some objectId ∧ objectId ≠ "" ∧
      backend.Grants tenantId entry objectId (auth.subject.getD ""))

/-- Every method has one entry. -/
theorem matrix_nodup : (matrix.map DispatchEntry.method).Nodup := by decide +kernel

theorem find?_matrix {entry : DispatchEntry} {path : String} (h : entry ∈ matrix)
    (hpath : entry.method = path) : matrix.find? (fun e => e.method = path) = some entry := by
  cases hfind : matrix.find? fun e => e.method = path with
  | none =>
      have hno := List.find?_eq_none.mp hfind entry h
      simp only [hpath, decide_true, not_true_eq_false] at hno
  | some found =>
      have hfound : found.method = path := by simpa using List.find?_some hfind
      exact congrArg some (List.inj_on_of_nodup_map matrix_nodup (List.mem_of_find?_eq_some hfind) h
        (hfound.trans hpath.symm))

section Spec

variable {isAuthenticated : AuthContext → Bool} {backend : PermissionBackend Client}
  {auth : AuthContext} {tenantId : String} {req : HttpRequest}

/-- What the dispatcher can do. -/
inductive HttpRequest.Outcome (isAuthenticated : AuthContext → Bool)
    (backend : PermissionBackend Client) (auth : AuthContext) (tenantId : String)
    (req : HttpRequest) : Except StatusError Unit × HttpRequest → Prop
  | refused (e : StatusError) (h : ¬ req.Admitted isAuthenticated backend auth tenantId) :
      Outcome isAuthenticated backend auth tenantId req (.error e, req)
  | unchecked (entry : DispatchEntry) (h : req.Admitted isAuthenticated backend auth tenantId)
      (hmem : entry ∈ matrix) (hpath : entry.method = req.path)
      (hsource : entry.objectIdSource = .none) :
      Outcome isAuthenticated backend auth tenantId req (.ok (), req)
  | checked (entry : DispatchEntry) (objectId : String)
      (h : req.Admitted isAuthenticated backend auth tenantId) (hmem : entry ∈ matrix)
      (hpath : entry.method = req.path) (hsource : entry.objectIdSource = .header)
      (hobject : req.objectId = some objectId) :
      Outcome isAuthenticated backend auth tenantId req
        (.ok (), { req with checkedObjectId := some objectId })

/-- Nothing is let through under an entry whose object was not granted. -/
theorem HttpRequest.not_admitted {entry : DispatchEntry} (hmem : entry ∈ matrix)
    (hpath : entry.method = req.path) (hsource : entry.objectIdSource = .header)
    (h : ∀ objectId, req.objectId = some objectId → objectId ≠ "" →
      ¬ backend.Grants tenantId entry objectId (auth.subject.getD "")) :
    ¬ req.Admitted isAuthenticated backend auth tenantId := by
  rintro ⟨-, entry', hmem', hpath', hadmits⟩
  obtain rfl : entry' = entry :=
    List.inj_on_of_nodup_map matrix_nodup hmem' hmem (hpath'.trans hpath.symm)
  rcases hadmits with hnone | ⟨objectId, hobject, hne, hgrants⟩
  · rw [hsource] at hnone
    cases hnone
  · exact h objectId hobject hne hgrants

theorem HttpRequest.outcome : req.Outcome isAuthenticated backend auth tenantId
    (req.dispatchCheck isAuthenticated backend auth tenantId) := by
  unfold HttpRequest.dispatchCheck
  split
  · rename_i hauth
    exact .refused _ fun h => hauth h.1
  rename_i hauth
  have hauth : isAuthenticated auth = true := by simpa using hauth
  dsimp only
  split
  · rename_i hfind
    refine .refused _ fun h => ?_
    obtain ⟨-, entry, hmem, hpath, -⟩ := h
    rw [find?_matrix hmem hpath] at hfind
    cases hfind
  rename_i entry hfind
  have hmem := List.mem_of_find?_eq_some hfind
  have hpath : entry.method = req.path := by simpa using List.find?_some hfind
  split
  · rename_i hsource
    exact .unchecked entry ⟨hauth, entry, hmem, hpath, .inl hsource⟩ hmem hpath hsource
  rename_i hsource
  split
  · rename_i hfilter
    refine .refused _ (HttpRequest.not_admitted hmem hpath hsource fun objectId hobject hne => ?_)
    rw [hobject, Option.filter_some, if_pos (by simpa using hne)] at hfilter
    cases hfilter
  rename_i objectId hfilter
  obtain ⟨hobject, hne⟩ := Option.filter_eq_some_iff.mp hfilter
  have hne : objectId ≠ "" := by simpa using hne
  -- from here on the object is the one of the header
  have hrefused : ¬ backend.Grants tenantId entry objectId (auth.subject.getD "") →
      ¬ req.Admitted isAuthenticated backend auth tenantId := fun h =>
    HttpRequest.not_admitted hmem hpath hsource fun objectId' hobject' _ => by
      obtain rfl := Option.some.inj (hobject'.symm.trans hobject)
      exact h
  split
  · rename_i e hclient
    refine .refused _ (hrefused ?_)
    rintro ⟨client, hok, -⟩
    rw [hclient] at hok
    cases hok
  rename_i client hclient
  have hanswer : ∀ r, backend.checkPermission client entry.namespaceName objectId entry.relation
      (auth.subject.getD "") = r → r ≠ .ok true →
      ¬ req.Admitted isAuthenticated backend auth tenantId := by
    intro r hr hne'
    refine hrefused ?_
    rintro ⟨client', hclient', hgranted⟩
    obtain rfl := Except.ok.inj (hclient'.symm.trans hclient)
    exact hne' (hr.symm.trans hgranted)
  split
  · rename_i hdenied
    exact .refused _ (hanswer _ hdenied nofun)
  · rename_i hfailed
    exact .refused _ (hanswer _ hfailed nofun)
  · rename_i hno
    exact .refused _ (hanswer _ hno nofun)
  · rename_i hgranted
    exact .checked entry objectId ⟨hauth, entry, hmem, hpath, .inr ⟨objectId, hobject, hne, client,
      hclient, hgranted⟩⟩ hmem hpath hsource hobject

/-- **Complete mediation.**  A request is let through exactly if it is admitted.  Then the checked
object is the one of the header if the method has one, whatever was there before, and in every other
case the request is as it was. -/
theorem dispatch_check_mediates :
    ((req.dispatchCheck isAuthenticated backend auth tenantId).1 = .ok () ↔
      req.Admitted isAuthenticated backend auth tenantId) ∧
    (∀ entry ∈ matrix, entry.method = req.path → entry.objectIdSource = .header →
      (req.dispatchCheck isAuthenticated backend auth tenantId).1 = .ok () →
      ∃ objectId, req.objectId = some objectId ∧
        (req.dispatchCheck isAuthenticated backend auth tenantId).2 =
          { req with checkedObjectId := some objectId }) ∧
    (∀ entry ∈ matrix, entry.method = req.path → entry.objectIdSource = .none →
      (req.dispatchCheck isAuthenticated backend auth tenantId).2 = req) ∧
    ∀ e, (req.dispatchCheck isAuthenticated backend auth tenantId).1 = .error e →
      (req.dispatchCheck isAuthenticated backend auth tenantId).2 = req := by
  have hout := @HttpRequest.outcome Client isAuthenticated backend auth tenantId req
  generalize req.dispatchCheck isAuthenticated backend auth tenantId = out at hout
  have hunique : ∀ {entry entry' : DispatchEntry}, entry ∈ matrix → entry' ∈ matrix →
      entry.method = req.path → entry'.method = req.path → entry = entry' :=
    fun hmem hmem' hpath hpath' =>
      List.inj_on_of_nodup_map matrix_nodup hmem hmem' (hpath.trans hpath'.symm)
  cases hout with
  | refused e h =>
      refine ⟨⟨nofun, fun h' => absurd h' h⟩, fun _ _ _ _ hok => ?_, fun _ _ _ _ => rfl, fun _ _ => rfl⟩
      cases hok
  | unchecked entry h hmem hpath hsource =>
      refine ⟨⟨fun _ => h, fun _ => rfl⟩, fun entry' hmem' hpath' hsource' _ => ?_,
        fun _ _ _ _ => rfl, nofun⟩
      rw [hunique hmem' hmem hpath' hpath, hsource] at hsource'
      cases hsource'
  | checked entry objectId h hmem hpath hsource hobject =>
      refine ⟨⟨fun _ => h, fun _ => rfl⟩, fun _ _ _ _ _ => ⟨objectId, hobject, rfl⟩,
        fun entry' hmem' hpath' hsource' => ?_, nofun⟩
      rw [hunique hmem' hmem hpath' hpath, hsource] at hsource'
      cases hsource'

end Spec

/-- The reader that the service knows asks for a card. -/
def readsCard : HttpRequest :=
  ⟨methodPath "CardService" "GetCard", [("x-sunbeam-object-id", [99])], some "other"⟩

/-- A backend that lets everyone view the card. -/
def viewersOnly : PermissionBackend Unit where
  tenantClient _ := .ok ()
  checkPermission _ _ object relation _ := .ok (object = "c" ∧ relation = "view")

theorem dispatch_check_mediates_readsCard :
    readsCard.dispatchCheck (fun _ => true) viewersOnly ⟨some "t", some "user:ann"⟩ "t" =
      (.ok (), { readsCard with checkedObjectId := some "c" }) := by
  have hall := @dispatch_check_mediates Unit (fun _ => true) viewersOnly ⟨some "t", some "user:ann"⟩
    "t" readsCard
  have hentry : DispatchEntry.checked "CardService" "GetCard" "KanbanCard" "view" ∈ matrix := by decide
  have hok := hall.1.mpr ⟨rfl, _, hentry, rfl, .inr ⟨"c", by decide, by decide, (), rfl, by decide⟩⟩
  obtain ⟨objectId, hobject, hreq⟩ := hall.2.1 _ hentry rfl rfl hok
  obtain rfl : objectId = "c" := Option.some.inj (hobject.symm.trans (by decide))
  exact Prod.ext hok hreq

/-! ## The program of the dispatcher -/

section Program

variable {ι α : Type}

/-- How the backend answers the calls of the dispatcher. -/
def PermissionBackend.Replies (backend : PermissionBackend Client) : (c : Call ι) → Reply ι c → Prop
  | .tenantClient tenant, ok => ok = (backend.tenantClient tenant).isOk
  | .checkPermission tenant query, r => ∃ client, backend.tenantClient tenant = .ok client ∧
      match backend.checkPermission client query.namespaceName query.objectId query.relation
        query.subject with
      | .ok granted => r = .ok granted
      | .error _ => ∃ e, r = .error e
  | _, _ => False

/-- The program returns `r` when the backend answers. -/
def PermissionBackend.Returns (backend : PermissionBackend Client) :
    Dispatch ι α → Except StatusError α → Prop
  | .pure a, r => r = .ok a
  | .fail e, r => r = .error e
  | .call c k, r => ∃ y, backend.Replies c y ∧ backend.Returns (k y) r
  | _, _ => False

/-- The request after the dispatcher has returned. -/
def HttpRequest.after (req : HttpRequest) : Except StatusError (Option String) → HttpRequest
  | .ok (some objectId) => { req with checkedObjectId := some objectId }
  | _ => req

/-- **The program is the function.**  The client of the service turns every failure of a check into
`PermissionError::Backend`; with a backend that never says otherwise, the program of the dispatcher
returns what `dispatch_check` returns. -/
theorem returns_dispatchCheck {isAuthenticated : AuthContext → Bool} {backend : PermissionBackend Client}
    {auth : AuthContext} {tenantId : String} {req : HttpRequest}
    (h : ∀ client ns object relation subject,
      backend.checkPermission client ns object relation subject ≠ .error .denied) :
    ∃ r, backend.Returns (Auth.dispatchCheck isAuthenticated ⟨auth, tenantId, req.path, req.objectId⟩ :
        Dispatch ι (Option String)) r ∧
      req.dispatchCheck isAuthenticated backend auth tenantId = (r.map fun _ => (), req.after r) := by
  unfold HttpRequest.dispatchCheck Auth.dispatchCheck
  by_cases hauth : isAuthenticated auth = true
  · rw [if_neg (not_not.mpr hauth), if_pos hauth]
    dsimp only
    cases matrix.find? fun e => e.method = req.path with
    | none => exact ⟨_, rfl, rfl⟩
    | some entry =>
        obtain ⟨method, namespaceName, relation, source⟩ := entry
        cases source with
        | none => exact ⟨.ok none, rfl, rfl⟩
        | header =>
            dsimp only [checkHeader]
            cases req.objectId.filter (· ≠ "") with
            | none => exact ⟨_, rfl, rfl⟩
            | some objectId =>
                dsimp only
                cases hclient : backend.tenantClient tenantId with
                | error e =>
                    refine ⟨.error _, ⟨false, ?_, rfl⟩, rfl⟩
                    rw [PermissionBackend.Replies, hclient]
                    rfl
                | ok client =>
                    have hok : (true : Bool) = (backend.tenantClient tenantId).isOk := by
                      rw [hclient]
                      rfl
                    dsimp only
                    cases hanswer : backend.checkPermission client namespaceName objectId relation
                        (auth.subject.getD "") with
                    | error e =>
                        cases e with
                        | denied => exact absurd hanswer (h _ _ _ _ _)
                        | backend message =>
                            refine ⟨.error _, ⟨true, hok, .error ⟨false⟩, ⟨client, hclient, ?_⟩, rfl⟩, rfl⟩
                            dsimp only
                            rw [hanswer]
                            exact ⟨_, rfl⟩
                    | ok granted =>
                        cases granted with
                        | false =>
                            refine ⟨.error _, ⟨true, hok, .ok false, ⟨client, hclient, ?_⟩, rfl⟩, rfl⟩
                            dsimp only
                            rw [hanswer]
                        | true =>
                            refine ⟨.ok (some objectId), ⟨true, hok, .ok true, ⟨client, hclient, ?_⟩, rfl⟩,
                              rfl⟩
                            dsimp only
                            rw [hanswer]
  · rw [if_pos hauth, if_neg hauth]
    exact ⟨_, rfl, rfl⟩

end Program

end Kanban.Auth
