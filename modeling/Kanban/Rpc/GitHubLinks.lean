import Kanban.Rpc.CardMutations

/-!
# GithubLinkService: links of cards

A card is linked to issues and pull requests of a repository.  What the service learns about an
issue when it is linked is a parameter; a link is stored whether or not there was an answer.

## Main definitions

* `linkIssue`, `unlinkIssue`, `listLinksByCard` — the handlers.
-/

namespace Kanban.Rpc

open Program Kanban.Store Kanban.Auth
open Kanban.Services (AuthContext ConnectError IdCodec)

variable {ι : Type} [DecidableEq ι]

def kindIssue : String := "issue"

/-- `IssueInfo`: the display fields of an issue. -/
structure IssueInfo where
  kind : String
  title : Option String
  state : String
  url : Option String
  deriving DecidableEq, Repr

/-- A `GitHubLinkDetail`. -/
structure GitHubLinkDetail where
  id : String
  cardId : String
  repoOwner : String
  repoName : String
  issueOrPrNumber : ℤ
  kind : String
  title : String
  state : String
  url : String
  deriving DecidableEq, Repr

/-- `split_repo`: the texts before and after the first slash. -/
def splitRepo (repo : String) : String × String :=
  (String.ofList (repo.toList.takeWhile (· ≠ '/')),
    String.ofList ((repo.toList.dropWhile (· ≠ '/')).drop 1))

/-- `fallback_url`. -/
def fallbackUrl (repoOwner repoName : String) (number : ℤ) : String :=
  "https://github.com/" ++ repoOwner ++ "/" ++ repoName ++ "/issues/" ++ toString number

/-- `LinkRow::to_detail`. -/
def toDetail (codec : IdCodec ι) (row : GitHubLinkRow ι) : GitHubLinkDetail where
  id := codec.toString row.id
  cardId := codec.toString row.cardId
  repoOwner := (splitRepo row.repo).1
  repoName := (splitRepo row.repo).2
  issueOrPrNumber := row.issueId
  kind := row.kind
  title := row.title.getD ""
  state := row.state
  url := row.url

/-- `checked_card_id`. -/
def checkedCardId (codec : IdCodec ι) (ctx : RequestContext) : Handler ι ι :=
  (checkedObjectId ctx).bind (parseId codec "invalid card_id")

/-- `INSERT INTO github_links`; the card must exist. -/
def insertLink (row : GitHubLinkRow ι) : Stmt (Db ι) (Rec ι) Unit := fun db =>
  if db.cards.any (·.id = row.cardId) then Db.githubLinksT.insert row db else none

structure LinkIssueRequest where
  repoOwner : String
  repoName : String
  number : ℤ
  deriving DecidableEq, Repr

/-- The row of a new link, with defaults where nothing was learned of the issue. -/
def linkRow (tenantId : String) (linkId cardId : ι) (req : LinkIssueRequest)
    (info : Option IssueInfo) : GitHubLinkRow ι where
  id := linkId
  tenantId := tenantId
  cardId := cardId
  repo := req.repoOwner ++ "/" ++ req.repoName
  issueId := req.number
  state := (info.map IssueInfo.state).getD "open"
  title := info.bind IssueInfo.title
  url := (info.bind IssueInfo.url).getD (fallbackUrl req.repoOwner req.repoName req.number)
  kind := (info.map IssueInfo.kind).getD kindIssue

def linkIssue (codec : IdCodec ι) (fetchIssue : String → String → ℤ → Option IssueInfo)
    (ctx : RequestContext) (req : LinkIssueRequest) : Handler ι GitHubLinkDetail := do
  let cardId ← checkedCardId codec ctx
  let tenantId ← tenantIdFromRequest ctx
  ensure (req.repoOwner ≠ "" ∧ req.repoName ≠ "")
    (invalidArgument "repo_owner and repo_name are required")
  ensure ('/' ∉ req.repoOwner.toList ∧ '/' ∉ req.repoName.toList)
    (invalidArgument "repo_owner and repo_name must not contain '/'")
  ensure (0 < req.number) (invalidArgument "number must be a positive issue/PR number")
  let card ← fetchOr "failed to fetch card" (notFound "card not found") (selectCard tenantId cardId)
  let info := fetchIssue req.repoOwner req.repoName req.number
  let linkId ← newId
  beginTx "begin tx failed"
  let row := linkRow tenantId linkId cardId req info
  query "failed to insert github link" (insertLink row)
  insertBoardEvent tenantId card.boardId "GitHubLinkAdded"
    [("card_id", .str (codec.toString cardId)), ("link_id", .str (codec.toString linkId)),
      ("board_id", .str (codec.toString card.boardId))]
  commitTx "commit failed"
  .pure (toDetail codec row)

structure UnlinkIssueRequest where
  linkId : String
  deriving DecidableEq, Repr

def unlinkIssue (codec : IdCodec ι) (ctx : RequestContext) (req : UnlinkIssueRequest) :
    Handler ι Unit := do
  let cardId ← checkedCardId codec ctx
  let tenantId ← tenantIdFromRequest ctx
  let linkId ← parseId codec "invalid link_id" req.linkId
  let deleted ← query "failed to delete github link"
    (Db.githubLinksT.delete fun l => l.id = linkId ∧ l.cardId = cardId ∧ l.tenantId = tenantId)
  ensure (deleted ≠ []) (notFound "github link not found")

def listLinksByCard (codec : IdCodec ι) (ctx : RequestContext) :
    Handler ι (List GitHubLinkDetail) := do
  let cardId ← checkedCardId codec ctx
  let tenantId ← tenantIdFromRequest ctx
  let rows ← query "failed to list github links"
    (Db.githubLinksT.select fun l => l.cardId = cardId ∧ l.tenantId = tenantId)
  .pure (rows.map (toDetail codec))

end Kanban.Rpc
