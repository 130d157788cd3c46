import Kanban.Auth.Mediation
import Kanban.Ids.Codec
import Kanban.Rpc.CardQueries

/-!
# The object that is checked and the object that is used

The permission backend compares the text of the header.  A handler parses the text, and rows and
tuples are stored under the text that the identifier is written as.

## Main definitions

* `handlerObject` — the object of a handler.
-/

namespace Kanban.Rpc

open Program Kanban.Store Kanban.Auth Kanban.Ids
open Kanban.Services (AuthContext IdCodec)

variable {ι : Type}

/-- How a handler of a checked method gets its object. -/
def handlerObject (codec : IdCodec ι) (msg : String) (ctx : RequestContext) : Handler ι ι :=
  (checkedObjectId ctx).bind (parseId codec msg)

theorem handlerObject_eq_pure {codec : IdCodec ι} {msg : String} {ctx : RequestContext} {x : ι}
    (h : handlerObject codec msg ctx = .pure x) :
    ∃ objectId, ctx.checked = some objectId ∧ codec.parse objectId = some x := by
  unfold handlerObject checkedObjectId at h
  cases hchecked : ctx.checked with
  | none =>
      rw [hchecked] at h
      cases h
  | some objectId =>
      rw [hchecked] at h
      refine ⟨objectId, rfl, ?_⟩
      change orError _ (codec.parse objectId) = _ at h
      cases hparse : codec.parse objectId with
      | none =>
          rw [hparse] at h
          cases h
      | some y =>
          rw [hparse] at h
          cases h
          rfl

section Header

variable {Client : Type} {isAuthenticated : AuthContext → Bool} {backend : PermissionBackend Client}
  {auth : AuthContext} {tenantId msg : String} {req : HttpRequest} {entry : DispatchEntry}
  {ctx : RequestContext} {U : UlidCrate} {x : Id}

/-- **The object that was checked is the one that is used** exactly if the header is canonical.  The
decision of the backend is about the text of the header; the object of the handler is stored under
the text that it is written as. -/
theorem checked_object_is_used_iff (hU : U.Documented) (hmem : entry ∈ matrix)
    (hpath : entry.method = req.path) (hsource : entry.objectIdSource = .header)
    (hok : (req.dispatchCheck isAuthenticated backend auth tenantId).1 = .ok ())
    (hctx : ctx.checked = (req.dispatchCheck isAuthenticated backend auth tenantId).2.checkedObjectId)
    (hx : handlerObject (idCodec hU) msg ctx = .pure x) :
    ∃ h, req.objectId = some h ∧ backend.Grants tenantId entry h (auth.subject.getD "") ∧
      (x.display U = h ↔ CanonicalUlid h ∨ CanonicalUuid h) := by
  obtain ⟨hadmitted, hchecked, -, -⟩ := @dispatch_check_mediates Client isAuthenticated backend auth
    tenantId req
  obtain ⟨h, hobject, hreq⟩ := hchecked entry hmem hpath hsource hok
  obtain ⟨h', hctx', hparse⟩ := handlerObject_eq_pure hx
  rw [hctx, hreq] at hctx'
  obtain rfl := Option.some.inj hctx'
  refine ⟨h, hobject, ?_, display_eq_iff hU hparse⟩
  obtain ⟨-, entry', hmem', hpath', hadmits⟩ := hadmitted.mp hok
  obtain rfl : entry' = entry :=
    List.inj_on_of_nodup_map matrix_nodup hmem' hmem (hpath'.trans hpath.symm)
  rcases hadmits with hnone | ⟨objectId, hobject', -, hgrants⟩
  · rw [hsource] at hnone
    cases hnone
  · obtain rfl := Option.some.inj (hobject'.symm.trans hobject)
    exact hgrants

end Header

/-- A backend that lets everyone view the card of which the text is `object`. -/
def viewersOf (object : String) : PermissionBackend Unit where
  tenantClient _ := .ok ()
  checkPermission _ _ object' relation _ := .ok (object' = object ∧ relation = "view")

/-- A request for the card of which the header is `object`. -/
def readsObject (object : String) : HttpRequest :=
  ⟨methodPath "CardService" "GetCard", [("x-sunbeam-object-id", object.toList.map fun c => c.toNat.toUInt8)],
    none⟩

def reader : AuthContext := ⟨some "t", some "user:ann"⟩

def canonicalCard : String := "01ARZ3NDEKTSV4RRFFQ69G5FAV"

def lowerCard : String := "01arz3ndektsv4rrffq69g5fav"

/-- The card, under its canonical text. -/
def shipId : Id := ⟨BitVec.ofNat 128 ((crockford.read canonicalCard.toList).getD 0), .ulid⟩

def readerOf (object : String) : RequestContext := ⟨some reader, some object, 0⟩

theorem checked_object_is_used_iff_canonical :
    ∃ h, (readsObject canonicalCard).objectId = some h ∧ shipId.display crockfordCrate = h := by
  have hentry : DispatchEntry.checked "CardService" "GetCard" "KanbanCard" "view" ∈ matrix := by decide
  have hparse : handlerObject crockfordIds "invalid card_id" (readerOf canonicalCard) = .pure shipId := by
    have hx : crockfordIds.parse canonicalCard = some shipId := by decide
    change orError (invalidArgument "invalid card_id") (crockfordIds.parse canonicalCard) = _
    rw [hx]
    rfl
  obtain ⟨h, hobject, -, hiff⟩ := @checked_object_is_used_iff Unit (fun _ => true)
    (viewersOf canonicalCard) reader "t" _ (readsObject canonicalCard) _ _ _ _
    documented_crockfordCrate hentry rfl rfl (by decide) (by decide) hparse
  obtain rfl : canonicalCard = h := Option.some.inj ((by decide : _ = some canonicalCard).symm.trans
    hobject)
  exact ⟨canonicalCard, hobject, hiff.mpr (.inl (by decide))⟩

/-- The card is stored. -/
def storedShip : World (Db Id) (Backend Id) where
  store := { Db.empty with
    cards := [⟨shipId, "t", shipId, shipId, shipId, "ROAD-001", "Ship", none, 0, "medium", "medium",
      none, none, false, none, none, "user:ann", 0⟩] }
  ext := Backend.empty

/-- A header in lower case: the backend granted that text and not the one under which the card that is
returned is stored. -/
theorem other_object_is_used :
    (readsObject lowerCard).dispatchCheck (fun _ => true) (viewersOf lowerCard) reader "t" =
      (.ok (), { readsObject lowerCard with checkedObjectId := some lowerCard }) ∧
    ∃ th w' card, Machine.Exec (Thread.step (kanban Id)) (Thread.start (getCard crockfordIds
        (readerOf lowerCard)), storedShip) (List.replicate 8 .ok) (th, w') ∧
      th.prog.result = some (.ok card) ∧ card.id = canonicalCard ∧ canonicalCard ≠ lowerCard := by
  obtain ⟨th, w', card, hrun, hok, hid⟩ : ∃ th w' card, Machine.run (Thread.step (kanban Id))
      (Thread.start (getCard crockfordIds (readerOf lowerCard)), storedShip) (List.replicate 8 .ok)
        = some (th, w') ∧ th.prog.result = some (.ok card) ∧ card.id = canonicalCard :=
    ⟨_, _, _, rfl, rfl, by decide⟩
  exact ⟨by decide, th, w', card, Machine.exec_of_run hrun, hok, hid, by decide⟩

end Kanban.Rpc
