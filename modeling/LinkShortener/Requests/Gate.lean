import Mathlib.Data.List.Infix
import LinkShortener.Requests.CsrfTokens
import LinkShortener.Domain.Errors

/-!
# What a request goes through

The hooks that run before a view, in the order the application registers them: the name the request is for, who it is from,
how often that one has asked, whether a write that rests on cookies was meant, and whether the query is one the endpoint
has. Each of them may answer in place of the view, and what one has refused the next does not see.

* `loadCurrentUser`: a credential in a header that does not stand up is refused, a cookie that does not is ignored.
* `limitFor`: what the limiter is asked, if it is.
* `enforceCsrf`: the three checks of a write that rests on cookies.
* `handle`: the hooks one after the other. `issueCsrfCookie` is the hook behind the view.

Each hook reads the clock for itself. The view, the error pages and the headers of the answers are left out.
-/

namespace LinkShortener.Requests

open Text
open Urls (Str urlparse)

/-- A request. A header or a cookie that is there may be empty. -/
structure Request where
  host : Str
  path : Str
  method : String
  endpoint : Option String
  urlRule : Option String
  args : List String
  clientIp : String
  accessCookie : Option Str
  refreshCookie : Option Str
  csrfCookie : Option Str
  authorization : Option Str
  origin : Option Str
  referer : Option Str
  csrfHeader : Option Str

/-- Something there that is not empty. -/
def given (text : Option Str) : Option Str := text.filter fun s => decide (s ≠ [])

/-- What a JSON web token says. -/
structure Claims where
  sub : Str
  type : String
  sid : Option Str

/-- An account, as far as a request needs it. -/
structure Account where
  id : Str
  isActive : Bool

/-- What the database answers. -/
structure Accounts where
  chainIsLive : Str → Bool
  findById : Str → Option Account
  id_of_findById : ∀ {id account}, findById id = some account → account.id = id

/-- The application. `decode` checks the signature and the expiry of a token, and that it has the claims that are required;
`declared` has the parameters of the operations that are documented. -/
structure Settings where
  libs : Urls.Libraries
  key : Keyed
  decode : Str → Instant → Option Claims
  allowedHosts : List Str
  allowedOrigins : List Str
  authDisabled : Bool
  rateLimits : String → Option (Int × Int)
  defaultLimit : Int × Int
  declared : String → String → Option (List String)

/-- How a request is answered by a hook. -/
inductive Refusal
  | badRequest
  | domain (e : DomainError)
  | tooManyRequests
  | csrfTokenInvalid
  | serverError
  deriving DecidableEq, Repr

inductive TokenSource
  | header
  | cookie
  deriving DecidableEq, Repr

/-- What is kept about a request while it is handled. -/
structure G where
  currentUser : Option Str
  authSessionId : Option Str
  authTokenSource : Option TokenSource
  deriving DecidableEq, Repr

def G.anonymous : G := ⟨none, none, none⟩

section Hooks

variable (cfg : Settings) (req : Request)

/-! ## The name -/

/-- A host without its port, in lower case and without the dot at the end. -/
def normaliseHost (value : Str) : Str :=
  let candidate := Decimal.strip value
  if candidate = [] then []
  else
    let candidate := if ['/', '/'] <:+: candidate then candidate else '/' :: '/' :: candidate
    match urlparse cfg.libs candidate with
    | none => []
    | some parsed => cfg.libs.lower (((parsed.hostname cfg.libs).getD []).rdropWhile (· = '.'))

def checkHost : Option Refusal :=
  if cfg.allowedHosts = [] ∨ normaliseHost cfg req.host ∈ cfg.allowedHosts then none else some .badRequest

/-! ## Who it is -/

def isStatic : Bool := "/static/".toList.isPrefixOf req.path

def validateToken (token : Str) (expectedType : String) (now : Instant) : Option Claims :=
  (cfg.decode token now).filter fun claims => decide (claims.type = expectedType)

/-- The token of a request, and where it was. An empty one in the header gives way to the cookie. -/
def tokenOf : Option (Str × TokenSource) :=
  let bearer := req.authorization.bind fun header =>
    if "Bearer ".toList.isPrefixOf header then some (header.drop 7) else none
  match given bearer with
  | some token => some (token, .header)
  | none => (given req.accessCookie).map fun token => (token, .cookie)

/-- A credential the caller chose to present, on a route that runs on it. -/
def isPresented (source : TokenSource) : Bool :=
  let endpoint := req.endpoint.getD ""
  decide (source = .header) && decide (endpoint ≠ "health") &&
    decide ((endpoint.toList.splitOn '.').head? ≠ some "auth".toList) && req.urlRule.isSome

def reject (source : TokenSource) : Except Refusal G :=
  if isPresented req source then .error (.domain (.plain "Authentication required" "UNAUTHENTICATED"))
  else .ok .anonymous

/-- Without a database a request is anonymous. -/
def loadCurrentUser (db : Option Accounts) (now : Instant) : Except Refusal G :=
  if isStatic req then .ok .anonymous
  else
    match tokenOf req with
    | none => .ok .anonymous
    | some (token, source) =>
      match validateToken cfg token "access" now with
      | none => reject req source
      | some claims =>
        match given claims.sid with
        | none => reject req source
        | some sid =>
          if claims.sub = [] then reject req source
          else
            match db with
            | none => .ok .anonymous
            | some db =>
              if db.chainIsLive sid then
                match db.findById claims.sub with
                | some account =>
                  if account.isActive then .ok ⟨some account.id, some sid, some source⟩ else reject req source
                | none => reject req source
              else reject req source

/-! ## How often -/

/-- What the limiter is asked: a key, a limit and a period. -/
structure LimitCall where
  key : String
  limit : Int
  period : Int
  deriving DecidableEq, Repr

def limitFor (g : G) : Option LimitCall :=
  if isStatic req || decide (req.endpoint = some "health") then none
  else if cfg.authDisabled && (req.endpoint.any fun e => "auth.".toList.isPrefixOf e.toList) then none
  else
    let clientId := match g.currentUser with
      | some id => "user:" ++ String.ofList id
      | none => req.clientIp
    let pair := (req.endpoint.bind cfg.rateLimits).getD cfg.defaultLimit
    some ⟨clientId ++ ":" ++ req.endpoint.getD "None", pair.1, pair.2⟩

/-! ## Writes that rest on cookies -/

def safeMethods : List String := ["GET", "HEAD", "OPTIONS", "TRACE"]

/-- Endpoints that read an authentication cookie themselves. -/
def cookieAuthorityEndpoints : List String := ["auth.refresh_token", "auth.logout"]

def hasAuthCookie : Bool := (given req.accessCookie).isSome || (given req.refreshCookie).isSome

def isCookieAuthenticated (g : G) : Bool :=
  if req.endpoint.any (cookieAuthorityEndpoints.contains ·) then hasAuthCookie req
  else if g.authTokenSource = some .header then false
  else hasAuthCookie req

/-- The owner of the cookies, by the first of them that stands up. -/
def resolveUserId (now : Instant) : Option Str :=
  let access := (given req.accessCookie).bind (validateToken cfg · "access" now)
  let refresh := (given req.refreshCookie).bind (validateToken cfg · "refresh" now)
  (access.or refresh).map (·.sub)

/-- Whether the origin a browser states is one that is served. A `Referer` that cannot be parsed raises. -/
def originIsAllowed : Option Bool :=
  match given req.origin with
  | some origin => some (cfg.allowedOrigins.contains (origin.rdropWhile (· = '/')))
  | none =>
    match given req.referer with
    | none => some true
    | some referer =>
      (urlparse cfg.libs referer).map fun parsed =>
        if parsed.scheme = [] ∨ parsed.netloc = [] then false
        else cfg.allowedOrigins.contains ((parsed.scheme ++ "://".toList ++ parsed.netloc).rdropWhile (· = '/'))

/-- `none` lets the request through. -/
def enforceCsrf (g : G) (now : Instant) : Option Refusal :=
  if safeMethods.contains req.method then none
  else if !isCookieAuthenticated req g then none
  else
    match originIsAllowed cfg req with
    | none => some .serverError
    | some false => some .csrfTokenInvalid
    | some true =>
      match given req.csrfCookie, given req.csrfHeader with
      | some cookieToken, some headerToken =>
        if cookieToken ≠ headerToken then some .csrfTokenInvalid
        else
          match resolveUserId cfg req now with
          | none | some [] => some .csrfTokenInvalid
          | some userId => if verifyCsrfToken cfg.key userId cookieToken now then none else some .csrfTokenInvalid
      | _, _ => some .csrfTokenInvalid

/-! ## The query -/

/-- An undeclared parameter of a documented operation is refused. The first by the alphabet is named. -/
def refuseUndeclared : Option Refusal := do
  let rule ← req.urlRule
  if "/api/v1".toList.isPrefixOf rule.toList then
    let allowed ← cfg.declared rule req.method
    let name ← ((req.args.filter fun name => !allowed.contains name).mergeSort (fun a b => decide (a ≤ b))).head?
    some (.domain (.validation ("'" ++ name ++ "' is not a parameter of this endpoint") name))
  else none

end Hooks

/-! ## One request -/

/-- When the hooks read the clock: authentication, the CSRF check, and the answer. -/
structure Readings where
  authentication : Instant
  csrf : Instant
  response : Instant

/-- A request that was handled: what answered in place of the view if anything did, what the limiter was asked, and what was
known about the caller. -/
structure Handled where
  refusal : Option Refusal
  counted : Option LimitCall
  g : G

/-- The hooks before the view. `allows` is what the limiter says. -/
def handle (cfg : Settings) (req : Request) (db : Option Accounts) (allows : LimitCall → Bool) (clock : Readings) : Handled :=
  match checkHost cfg req with
  | some refusal => ⟨some refusal, none, .anonymous⟩
  | none =>
    match loadCurrentUser cfg req db clock.authentication with
    | .error refusal => ⟨some refusal, none, .anonymous⟩
    | .ok g =>
      let counted := limitFor cfg req g
      if counted.all allows then
        ⟨(enforceCsrf cfg req g clock.csrf).or (refuseUndeclared cfg req), counted, g⟩
      else ⟨some .tooManyRequests, counted, g⟩

/-- The account the hook behind the view makes a token for, if it makes one. `decided` says that the answer sets or clears
the cookie itself. A token that no longer checks out is replaced, not only one that is missing. -/
def reissuedTo (cfg : Settings) (req : Request) (decided : Bool) (now : Instant) : Option Str :=
  if isStatic req || decided || !hasAuthCookie req then none
  else
    match resolveUserId cfg req now with
    | none | some [] => none
    | some userId =>
      if (given req.csrfCookie).any fun existing => verifyCsrfToken cfg.key userId existing now then none
      else some userId

/-- The token it sets. -/
def issueCsrfCookie (cfg : Settings) (req : Request) (decided : Bool) (nonce : Str) (now : Instant) : Option Str :=
  (reissuedTo cfg req decided now).map fun userId => buildCsrfToken cfg.key userId nonce now

end LinkShortener.Requests
