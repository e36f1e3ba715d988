import Mathlib.Logic.Equiv.List
import LinkShortener.Lib.Run
import LinkShortener.Requests.Gate
import LinkShortener.Urls.PublicTargets

/-!
# Writes nobody meant

Browsers send their cookies with every request, whoever made the page that sends it. A run is sign-ins and requests in any
order, and the requests may be anybody's: of the tokens in them it is only known that nobody but the service can sign.

* `Minted`: what the service has signed. `Honest`: a signature in a request is one of these, or no signature at all.
* `loadCurrentUser_eq_ok`, `enforceCsrf_eq_none`: when a request is somebody's, and when a write is let through.
* `writes_are_meant`: a write that reaches its view carries no authentication cookie, or was accepted on its header, or has
  shown a token that was made for the owner of its cookies.
* `sessions_recover`: after any answer the browser has a token that is good for the owner of its cookies.
-/

namespace LinkShortener.Requests

open Seals Runs
open Urls (Str)

variable {cfg : Settings} {req : Request} {db : Option Accounts} {g : G} {now : Instant}

/-! ## What lets a request through -/

theorem reject_eq_ok {source : TokenSource} (h : reject req source = .ok g) : g = .anonymous := by
  unfold reject at h
  split at h
  · cases h
  · cases h
    rfl

/-- A request is anonymous, or a token of it stands up and names a login and an account that are both alive. -/
theorem loadCurrentUser_eq_ok (h : loadCurrentUser cfg req db now = .ok g) :
    g = .anonymous ∨ ∃ token source claims sid accounts account, tokenOf req = some (token, source) ∧
      validateToken cfg token "access" now = some claims ∧ db = some accounts ∧ accounts.chainIsLive sid = true ∧
      accounts.findById claims.sub = some account ∧ account.isActive = true ∧
      g = ⟨some claims.sub, some sid, some source⟩ := by
  unfold loadCurrentUser at h
  split at h
  · cases h
    exact .inl rfl
  · split at h
    · cases h
      exact .inl rfl
    · rename_i token source htoken
      split at h
      · exact .inl (reject_eq_ok h)
      · rename_i claims hclaims
        split at h
        · exact .inl (reject_eq_ok h)
        · rename_i sid hsid
          split at h
          · exact .inl (reject_eq_ok h)
          · split at h
            · cases h
              exact .inl rfl
            · rename_i accounts
              split at h
              · rename_i hlive
                split at h
                · rename_i account hfound
                  split at h
                  · rename_i hactive
                    cases h
                    rw [accounts.id_of_findById hfound]
                    exact .inr ⟨token, source, claims, sid, accounts, account, htoken, hclaims, rfl, hlive, hfound,
                      hactive, rfl⟩
                  · exact .inl (reject_eq_ok h)
                · exact .inl (reject_eq_ok h)
              · exact .inl (reject_eq_ok h)

/-- A write that rests on cookies shows the same token twice, and it is good for the owner of the cookies. -/
theorem enforceCsrf_eq_none (h : enforceCsrf cfg req g now = none) (hmethod : req.method ∉ safeMethods)
    (hcookie : isCookieAuthenticated req g = true) :
    ∃ token userId, given req.csrfCookie = some token ∧ given req.csrfHeader = some token ∧
      resolveUserId cfg req now = some userId ∧ verifyCsrfToken cfg.key userId token now = true := by
  unfold enforceCsrf at h
  rw [if_neg (by simpa using hmethod), if_neg (by simp [hcookie])] at h
  split at h
  · cases h
  · cases h
  · split at h
    · rename_i cookieToken headerToken hcookieToken hheaderToken
      split at h
      · cases h
      · rename_i hsame
        split at h
        · cases h
        · cases h
        · rename_i userId _ hresolved
          split at h
          · rename_i hverified
            have hboth : cookieToken = headerToken := not_not.mp hsame
            exact ⟨cookieToken, userId, hcookieToken, hboth ▸ hheaderToken, hresolved, hverified⟩
          · cases h
    · cases h

/-! ## Runs -/

/-- A token that was made: for whom, with which nonce, and in which second. -/
structure Minted where
  userId : Str
  nonce : Str
  issuedAt : Int
  deriving DecidableEq, Repr

def Minted.message (m : Minted) : Str := Requests.message m.userId m.nonce m.issuedAt

/-- Somebody signs in, and a token is made; or a request is answered, and one may be made on the way out. -/
inductive Event
  | signIn (userId nonce : Str) (now : Instant)
  | request (req : Request) (decided : Bool) (nonce : Str) (now : Instant)

def step (cfg : Settings) (minted : List Minted) : Event → Option (List Minted)
  | .signIn userId nonce now => some (⟨userId, nonce, seconds now⟩ :: minted)
  | .request req decided nonce now =>
    some ((reissuedTo cfg req decided now).toList.map (⟨·, nonce, seconds now⟩) ++ minted)

/-- The signature in a token was made by the service, or is none. -/
def Unforged (cfg : Settings) (minted : List Minted) (req : Request) : Prop :=
  ∀ token ∈ req.csrfCookie, ∀ nonce rawIssuedAt signed, token.splitOn '.' = [nonce, rawIssuedAt, signed] →
    Genuine (fun signed text => signed = cfg.key.hexdigest text) (minted.map Minted.message) signed

/-- Identifiers of accounts have no colons in them. -/
def Honest (_ : List Minted) : Event → Prop
  | .signIn userId _ _ => ':' ∉ userId
  | .request _ _ _ _ => True

/-- What is relied on of the tokens of the service: they are for accounts, and what they say does not change. -/
structure Settings.Sound (cfg : Settings) : Prop where
  plain : ∀ token now claims, cfg.decode token now = some claims → ':' ∉ claims.sub
  fixed : ∀ token now now' claims claims', cfg.decode token now = some claims → cfg.decode token now' = some claims' →
    claims' = claims

section Owners

variable {token : Str} {type : String} {claims : Claims}

theorem validateToken_eq_some (h : validateToken cfg token type now = some claims) : cfg.decode token now = some claims :=
  (Option.filter_eq_some_iff.mp h).1

/-- The owner of the cookies is named by a token of the service. -/
theorem resolveUserId_eq_some {userId : Str} (h : resolveUserId cfg req now = some userId) :
    ∃ token claims, cfg.decode token now = some claims ∧ claims.sub = userId := by
  obtain ⟨claims, hclaims, rfl⟩ := Option.map_eq_some_iff.mp h
  rcases Option.or_eq_some_iff.mp hclaims with haccess | ⟨-, hrefresh⟩
  · obtain ⟨token, -, hvalid⟩ := Option.bind_eq_some_iff.mp haccess
    exact ⟨token, claims, validateToken_eq_some hvalid, rfl⟩
  · obtain ⟨token, -, hvalid⟩ := Option.bind_eq_some_iff.mp hrefresh
    exact ⟨token, claims, validateToken_eq_some hvalid, rfl⟩

theorem reissuedTo_eq_some {decided : Bool} {userId : Str} (h : reissuedTo cfg req decided now = some userId) :
    resolveUserId cfg req now = some userId := by
  unfold reissuedTo at h
  split at h
  · cases h
  · split at h
    · cases h
    · cases h
    · rename_i hresolved
      split at h
      · cases h
      · cases h
        exact hresolved

/-- Whoever a request acts for through its cookie is the owner of its cookies, unless the cookie has run out meanwhile. -/
theorem acting_is_owner (hsound : cfg.Sound) {later : Instant} (hload : loadCurrentUser cfg req db now = .ok g)
    (hsource : g.authTokenSource = some .cookie) {userId : Str} (howner : resolveUserId cfg req later = some userId) :
    g.currentUser = some userId ∨ (given req.accessCookie).bind (validateToken cfg · "access" later) = none := by
  rcases loadCurrentUser_eq_ok hload with rfl | ⟨token, source, claims, sid, accounts, account, htoken, hclaims, -, -, -, -, rfl⟩
  · cases hsource
  · cases hsource
    have hcookie : given req.accessCookie = some token := by
      unfold tokenOf at htoken
      dsimp only at htoken
      split at htoken
      · cases htoken
      · obtain ⟨token', htoken', heq⟩ := Option.map_eq_some_iff.mp htoken
        cases heq
        exact htoken'
    rw [hcookie, Option.bind_some]
    cases hvalid : validateToken cfg token "access" later with
    | none => exact .inr rfl
    | some claims' =>
      left
      unfold resolveUserId at howner
      rw [hcookie, Option.bind_some, hvalid] at howner
      have hsame := hsound.fixed token now later _ _ (validateToken_eq_some hclaims) (validateToken_eq_some hvalid)
      cases howner
      rw [hsame]

end Owners

/-! ## Writes are meant -/

/-- Tokens are made for accounts. -/
theorem step_plain (hsound : cfg.Sound) {minted minted' : List Minted} {e : Event} (hhonest : Honest minted e)
    (hstep : step cfg minted e = some minted') (h : ∀ m ∈ minted, ':' ∉ m.userId) : ∀ m ∈ minted', ':' ∉ m.userId := by
  cases e with
  | signIn userId nonce now =>
    cases hstep
    exact List.forall_mem_cons.mpr ⟨hhonest, h⟩
  | request req decided nonce now =>
    cases hstep
    intro m hm
    rcases List.mem_append.mp hm with hm | hm
    · obtain ⟨userId, huser, rfl⟩ := List.mem_map.mp hm
      obtain ⟨token, claims, hclaims, rfl⟩ := resolveUserId_eq_some (reissuedTo_eq_some (Option.mem_toList.mp huser))
      exact hsound.plain token now claims hclaims
    · exact h m hm

theorem handle_refusal_none {allows : LimitCall → Bool} {clock : Readings}
    (h : (handle cfg req db allows clock).refusal = none) :
    loadCurrentUser cfg req db clock.authentication = .ok (handle cfg req db allows clock).g ∧
      enforceCsrf cfg req (handle cfg req db allows clock).g clock.csrf = none := by
  unfold handle at h ⊢
  split at h
  · cases h
  · split at h
    · cases h
    · rename_i g hg
      dsimp only at h ⊢
      split at h
      · rename_i hallowed
        rw [if_pos hallowed]
        exact ⟨hg, (Option.or_eq_none_iff.mp h).1⟩
      · cases h

/-- **A write is meant by whoever it is made for.** After any sign-ins and any requests, take a request whose token nobody
but the service has signed. If its method writes and it reaches its view, then it carries no authentication cookie; or it
was accepted on the credential in its header, of a live login and an active account, and its endpoint does not read the
cookies itself; or it has shown, in the cookie and in the header, a token that the service has made for the owner of its
cookies, at most twelve hours before, and if it acts through the cookie then it acts for that owner, unless the cookie
has run out since it was read. -/
theorem writes_are_meant (hsound : cfg.Sound) {es : List Event} {minted : List Minted}
    (hhonest : Meets (step cfg) Honest [] es) (hrun : run (step cfg) [] es = some minted)
    (hunforged : Unforged cfg minted req) (db : Option Accounts) (allows : LimitCall → Bool) (clock : Readings)
    (hview : (handle cfg req db allows clock).refusal = none) (hmethod : req.method ∉ safeMethods) :
    hasAuthCookie req = false ∨
    ((∀ endpoint ∈ req.endpoint, endpoint ∉ cookieAuthorityEndpoints) ∧
      ∃ token claims sid accounts account, tokenOf req = some (token, .header) ∧
        validateToken cfg token "access" clock.authentication = some claims ∧ db = some accounts ∧
        accounts.chainIsLive sid = true ∧ accounts.findById claims.sub = some account ∧ account.isActive = true ∧
        (handle cfg req db allows clock).g.currentUser = some claims.sub) ∨
    ∃ token userId nonce issuedAt, given req.csrfCookie = some token ∧ given req.csrfHeader = some token ∧
      resolveUserId cfg req clock.csrf = some userId ∧ ⟨userId, nonce, issuedAt⟩ ∈ minted ∧
      seconds clock.csrf ≤ issuedAt + csrfTokenTtlSeconds ∧
      ((handle cfg req db allows clock).g.authTokenSource = some .cookie →
        (handle cfg req db allows clock).g.currentUser = some userId ∨
          (given req.accessCookie).bind (validateToken cfg · "access" clock.csrf) = none) := by
  obtain ⟨hload, hcsrf⟩ := handle_refusal_none hview
  cases hcookie : isCookieAuthenticated req (handle cfg req db allows clock).g with
  | true =>
    -- The token opens to a message that was signed, and a message names one account.
    obtain ⟨token, userId, htoken, hheader, howner, hverified⟩ := enforceCsrf_eq_none hcsrf hmethod hcookie
    obtain ⟨nonce, rawIssuedAt, signed, issuedAt, hsplit, -, hage, hsigned⟩ := verifyCsrfToken_eq_true hverified
    have hpresent : token ∈ req.csrfCookie := (Option.filter_eq_some_iff.mp htoken).1
    obtain ⟨m, hm, hmessage⟩ :=
      List.mem_map.mp (hunforged token hpresent nonce rawIssuedAt signed hsplit _ hsigned)
    have hplain : ∀ m ∈ minted, ':' ∉ m.userId :=
      run_inv_of_meets (step_plain hsound) hhonest hrun (List.forall_mem_nil _)
    obtain ⟨jwt, claims, hclaims, hsub⟩ := resolveUserId_eq_some howner
    obtain ⟨rfl, rfl, rfl⟩ := message_inj (hplain m hm) (hsub ▸ hsound.plain jwt clock.csrf claims hclaims) hmessage
    refine .inr (.inr ⟨token, m.userId, m.nonce, m.issuedAt, htoken, hheader, howner, hm, by omega, ?_⟩)
    exact fun hsource => acting_is_owner hsound hload hsource howner
  | false =>
    unfold isCookieAuthenticated at hcookie
    split at hcookie
    · exact .inl hcookie
    · rename_i hendpoint
      split at hcookie
      · rename_i hsource
        refine .inr (.inl ⟨?_, ?_⟩)
        · intro endpoint hmem hauthority
          rw [Option.mem_def.mp hmem, Option.any_some] at hendpoint
          exact hendpoint (List.contains_iff_mem.mpr hauthority)
        · rcases loadCurrentUser_eq_ok hload with hg | ⟨token, source, claims, sid, accounts, account, htoken, hclaims,
            hdb, hlive, hfound, hactive, hg⟩
          · rw [hg] at hsource
            cases hsource
          · rw [hg] at hsource ⊢
            cases hsource
            exact ⟨token, claims, sid, accounts, account, htoken, hclaims, hdb, hlive, hfound, hactive, rfl⟩
      · exact .inl hcookie

/-! ## Sessions recover -/

/-- A browser sends the token it has. -/
structure Repeats (cfg : Settings) (req : Request) (token userId : Str) (now : Instant) : Prop where
  cookie : given req.csrfCookie = some token
  header : given req.csrfHeader = some token
  origin : originIsAllowed cfg req = some true
  owner : resolveUserId cfg req now = some userId

theorem enforceCsrf_of_verified {token userId : Str} (hsome : userId ≠ []) (h : Repeats cfg req token userId now)
    (hverified : verifyCsrfToken cfg.key userId token now = true) (g : G) : enforceCsrf cfg req g now = none := by
  unfold enforceCsrf
  split
  · rfl
  · split
    · rfl
    · rw [h.origin, h.cookie, h.header, h.owner]
      dsimp only
      rw [if_neg (not_not.mpr rfl)]
      split
      · rename_i hnone
        cases hnone
      · rename_i hempty
        exact absurd (Option.some.inj hempty) hsome
      · rename_i hresolved
        cases hresolved
        rw [if_pos hverified]

/-- A token is checked against the second the clock shows. -/
theorem verifyCsrfToken_congr {key : Keyed} {userId token : Str} {now now' : Instant} (h : seconds now = seconds now') :
    verifyCsrfToken key userId token now = verifyCsrfToken key userId token now' := by
  unfold verifyCsrfToken
  rw [h]

/-- **No session is stranded.** Whatever token a browser came with, missing, aged out, of another account or made up: when a
request with authentication cookies is answered and the answer does not decide about the token itself, the browser has a
token afterwards with which a write passes at once; and if the one it came with was not good, the new one is for the next
twelve hours. -/
theorem sessions_recover (hkey : cfg.key.Hexadecimal) (hpath : isStatic req = false) (hcookie : hasAuthCookie req = true)
    {userId : Str} (howner : resolveUserId cfg req now = some userId) (hsome : userId ≠ []) {nonce : Str}
    (hnonce : nonce ≠ [] ∧ '.' ∉ nonce)
    (hclock : (Decimal.digitsOf (seconds now).natAbs).length ≤ Decimal.maxDigits) :
    ∃ token, (issueCsrfCookie cfg req false nonce now).or (given req.csrfCookie) = some token ∧
      ∀ req' g later, Repeats cfg req' token userId later →
        (seconds later = seconds now ∨
          ((given req.csrfCookie).any (verifyCsrfToken cfg.key userId · now) = false ∧
            seconds later - seconds now ≤ csrfTokenTtlSeconds)) →
        enforceCsrf cfg req' g later = none := by
  have hreissued : reissuedTo cfg req false now =
      if (given req.csrfCookie).any (verifyCsrfToken cfg.key userId · now) then none else some userId := by
    unfold reissuedTo
    rw [hpath, hcookie, howner]
    simp only [Bool.or_self, Bool.not_true, Bool.false_eq_true, if_false]
  unfold issueCsrfCookie
  rw [hreissued]
  cases hexisting : (given req.csrfCookie).any (verifyCsrfToken cfg.key userId · now) with
  | true =>
    obtain ⟨token, htoken, hverified⟩ := (Option.any_eq_true _ _).mp hexisting
    refine ⟨token, htoken, ?_⟩
    intro req' g later hrepeats hwhen
    refine enforceCsrf_of_verified hsome hrepeats ?_ g
    rcases hwhen with hsame | ⟨hnone, -⟩
    · rw [verifyCsrfToken_congr hsame]
      exact hverified
    · cases hnone
  | false =>
    refine ⟨buildCsrfToken cfg.key userId nonce now, rfl, ?_⟩
    intro req' g later hrepeats hwhen
    refine enforceCsrf_of_verified hsome hrepeats (verify_build hkey hnonce.2 hnonce.1 hclock ?_) g
    rcases hwhen with hsame | ⟨-, hage⟩
    · rw [hsame, Int.sub_self]
      decide
    · exact hage

/-! ### A signed-in browser -/

section Sample

/-- A digest that holds all it is made of. -/
def plainKey : Keyed := ⟨fun text => Decimal.ofNat (Encodable.encode (text.map Char.toNat))⟩

theorem plainKey_hexadecimal : plainKey.Hexadecimal :=
  ⟨fun _ => Decimal.ofNat_ne_nil _, fun _ => Decimal.not_mem_ofNat (by decide) _⟩

theorem plainKey_injective : Function.Injective plainKey.hexdigest := by
  have hchar : Function.Injective Char.toNat := fun a b h => Char.ext (UInt32.toNat_inj.mp h)
  exact Decimal.ofNat_injective.comp (Encodable.encode_injective.comp hchar.list_map)

def sampleUser : Str := ['u', '1']

def sampleSettings : Settings where
  libs := Urls.asciiLibraries
  key := plainKey
  decode token _ := if token = ['a'] then some ⟨sampleUser, "access", some ['c']⟩ else none
  allowedHosts := []
  allowedOrigins := []
  authDisabled := false
  rateLimits _ := none
  defaultLimit := (100, 60)
  declared _ _ := none

def sampleToken : Str := buildCsrfToken plainKey sampleUser ['n'] 0

def sampleWrite (token : Str) : Request where
  host := "localhost".toList
  path := "/api/v1/shorten".toList
  method := "POST"
  endpoint := some "api.shorten"
  urlRule := some "/api/v1/shorten"
  args := []
  clientIp := "192.0.2.1"
  accessCookie := some ['a']
  refreshCookie := none
  csrfCookie := some token
  authorization := none
  origin := none
  referer := none
  csrfHeader := some token

def sampleAccounts : Accounts where
  chainIsLive _ := true
  findById id := some ⟨id, true⟩
  id_of_findById := by
    intro id account h
    cases h
    rfl

theorem decode_sample {token : Str} {now : Instant} {claims : Claims} (h : sampleSettings.decode token now = some claims) :
    claims = ⟨sampleUser, "access", some ['c']⟩ := by
  simp only [sampleSettings] at h
  split at h
  · exact (Option.some.inj h).symm
  · cases h

theorem sampleSettings_sound : sampleSettings.Sound := by
  constructor
  · intro token now claims h
    rw [decode_sample h]
    decide
  · intro token now now' claims claims' h h'
    rw [decode_sample h, decode_sample h']

theorem sampleWrite_repeats {token : Str} (hsome : token ≠ []) (now : Instant) :
    Repeats sampleSettings (sampleWrite token) token sampleUser now := by
  have hgiven : given (some token) = some token := by simp [given, hsome]
  exact ⟨hgiven, hgiven, rfl, rfl⟩

theorem refuseUndeclared_of_none (h : ∀ rule method, cfg.declared rule method = none) : refuseUndeclared cfg req = none := by
  unfold refuseUndeclared
  cases req.urlRule with
  | none => rfl
  | some rule => simp only [h, Option.bind_eq_bind, Option.bind_some, Option.bind_none, ite_self]

/-- The token of a write is looked at by one hook only. -/
theorem handle_sampleWrite (token : Str) :
    (handle sampleSettings (sampleWrite token) (some sampleAccounts) (fun _ => true) ⟨0, 0, 0⟩).refusal =
      enforceCsrf sampleSettings (sampleWrite token) ⟨some sampleUser, some ['c'], some .cookie⟩ 0 := by
  have hhost : checkHost sampleSettings (sampleWrite token) = none := if_pos (.inl rfl)
  have hstatic : isStatic (sampleWrite token) = false := rfl
  have htoken : tokenOf (sampleWrite token) = some (['a'], .cookie) := rfl
  have hload : loadCurrentUser sampleSettings (sampleWrite token) (some sampleAccounts) 0 =
      .ok ⟨some sampleUser, some ['c'], some .cookie⟩ := by
    rw [loadCurrentUser, hstatic, htoken]
    rfl
  have hquery : refuseUndeclared sampleSettings (sampleWrite token) = none :=
    refuseUndeclared_of_none fun _ _ => rfl
  simp only [handle, hhost, hload, hquery, Option.all_eq_true, implies_true, if_true, Option.or_none]

theorem sampleToken_ne_nil : sampleToken ≠ [] := List.cons_ne_nil _ _

/-- Whoever signs in is given a token, and a write with it reaches its view; the token was made for them. -/
theorem sampleWrite_is_meant :
    (handle sampleSettings (sampleWrite sampleToken) (some sampleAccounts) (fun _ => true) ⟨0, 0, 0⟩).refusal = none ∧
    ∃ nonce issuedAt, (⟨sampleUser, nonce, issuedAt⟩ : Minted) ∈ [(⟨sampleUser, ['n'], 0⟩ : Minted)] := by
  have hcsrf : ∀ g, enforceCsrf sampleSettings (sampleWrite sampleToken) g 0 = none :=
    enforceCsrf_of_verified (by decide) (sampleWrite_repeats sampleToken_ne_nil 0)
      (verify_build plainKey_hexadecimal (by decide) (by decide) (by decide) (by decide))
  have hview : (handle sampleSettings (sampleWrite sampleToken) (some sampleAccounts) (fun _ => true)
      ⟨0, 0, 0⟩).refusal = none := by
    rw [handle_sampleWrite]
    exact hcsrf _
  have hunforged : Unforged sampleSettings [⟨sampleUser, ['n'], 0⟩] (sampleWrite sampleToken) := by
    intro token htoken nonce rawIssuedAt signed hsplit text hsigned
    cases htoken
    rw [sampleToken, splitOn_buildCsrfToken plainKey_hexadecimal (by decide)] at hsplit
    obtain ⟨-, -, rfl⟩ : _ ∧ _ ∧ signature plainKey sampleUser ['n'] (seconds 0) = signed := by simpa using hsplit
    rw [← plainKey_injective hsigned]
    exact List.mem_cons_self
  have hhonest : Meets (step sampleSettings) Honest [] [.signIn sampleUser ['n'] 0] := by
    refine ⟨?_, trivial⟩
    show ':' ∉ sampleUser
    decide
  refine ⟨hview, ?_⟩
  rcases writes_are_meant sampleSettings_sound hhonest rfl hunforged _ _ _ hview (by decide) with
    hnone | ⟨-, token, claims, sid, accounts, account, htoken, -⟩ | ⟨token, userId, nonce, issuedAt, -, -, howner, hm, -⟩
  · exact absurd hnone (by decide)
  · cases htoken
  · cases howner
    exact ⟨nonce, issuedAt, hm⟩

/-- A browser with a token that means nothing gets one that is good an hour later. -/
theorem stale_session_recovers :
    ∃ token, (issueCsrfCookie sampleSettings (sampleWrite ['x']) false ['n'] 0).or (some ['x']) = some token ∧
      enforceCsrf sampleSettings (sampleWrite token) .anonymous 3600000000 = none := by
  have howner : resolveUserId sampleSettings (sampleWrite ['x']) 0 = some sampleUser := rfl
  have hbad : (given (sampleWrite ['x']).csrfCookie).any (verifyCsrfToken plainKey sampleUser · 0) = false := by decide
  obtain ⟨token, hjar, hpass⟩ := sessions_recover plainKey_hexadecimal (by decide) (by decide) howner (by decide)
    (show ['n'] ≠ [] ∧ '.' ∉ ['n'] by decide) (by decide)
  have hsome : token ≠ [] := by
    rcases Option.or_eq_some_iff.mp hjar with hnew | ⟨-, hold⟩
    · obtain ⟨userId, -, rfl⟩ := Option.map_eq_some_iff.mp hnew
      exact List.cons_ne_nil _ _
    · cases hold
      exact List.cons_ne_nil _ _
  refine ⟨token, hjar, ?_⟩
  exact hpass _ _ _ (sampleWrite_repeats hsome 3600000000) (.inr ⟨hbad, by decide⟩)

end Sample

end LinkShortener.Requests
