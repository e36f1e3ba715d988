import LinkShortener.Urls.Host

/-!
# Splitting and joining URLs

`urllib.parse` of CPython 3.12, as far as `OriginalUrl` uses it: `urlparse` and `geturl`, with the checks of a bracketed
authority, and the host and the port a parsed URL reports. A `ValueError` is `none`.
-/

namespace LinkShortener.Urls

open Text

structure SplitResult where
  scheme : Str
  netloc : Str
  path : Str
  query : Str
  fragment : Str
  deriving DecidableEq

structure ParseResult where
  scheme : Str
  netloc : Str
  path : Str
  params : Str
  query : Str
  fragment : Str
  deriving DecidableEq

/-! ## Taking a URL apart -/

/-- `scheme_chars`. -/
def isSchemeChar (c : Char) : Bool := c.isAlphanum || c = '+' || c = '-' || c = '.'

/-- C0 controls and the space. -/
def isControlOrSpace (c : Char) : Bool := c.toNat ≤ 32

/-- What is left of a URL when leading controls and spaces, and tabs and line ends anywhere, are taken out. -/
def cleaned (url : Str) : Str :=
  (url.dropWhile isControlOrSpace).filter fun c => !(c = '\t' || c = '\r' || c = '\n')

/-- The scheme in lower case, and what follows its colon; a URL without one is all rest. -/
def splitScheme (url : Str) : Str × Str :=
  let scheme := (cut ':' url).1
  if ':' ∈ url ∧ (scheme.head?.any Char.isAlpha) = true ∧ scheme.all isSchemeChar then (asciiLower scheme, (cut ':' url).2)
  else ([], url)

/-- What ends an authority. -/
def endsNetloc (c : Char) : Bool := c = '/' || c = '?' || c = '#'

/-- The authority after `//`, and the rest. -/
def splitNetloc (url : Str) : Str × Str :=
  if url.take 2 = ['/', '/'] then
    ((url.drop 2).takeWhile fun c => !endsNetloc c, (url.drop 2).dropWhile fun c => !endsNetloc c)
  else ([], url)

/-- A `v`, hexadecimal digits, a dot, and something. -/
def isIpvFuture (hostname : Str) : Bool :=
  let digits := (hostname.drop 1).takeWhile (Radix.isDigit .hexadecimal)
  match (hostname.drop 1).dropWhile (Radix.isDigit .hexadecimal) with
  | '.' :: rest => !digits.isEmpty && !rest.isEmpty
  | _ => false

/-- What may stand in brackets. -/
def checkBracketedHost (hostname : Str) : Bool :=
  if hostname.head? = some 'v' then isIpvFuture hostname
  else
    match ipAddress hostname with
    | some (.v6 _) => true
    | _ => false

/-- The part of an authority after its credentials. -/
def hostAndPort (netloc : Str) : Str := (cutLast '@' netloc).2

def checkBracketedNetloc (netloc : Str) : Bool :=
  let hostinfo := hostAndPort netloc
  if '[' ∈ hostinfo then
    let bracketed := (cut '[' hostinfo).2
    let port := (cut ']' bracketed).2
    -- Nothing stands before the bracket, and nothing but a port after it.
    decide ((cut '[' hostinfo).1 = []) && (port.isEmpty || decide (port.head? = some ':')) &&
      checkBracketedHost (cut ']' bracketed).1
  else checkBracketedHost (cut ':' hostinfo).1

/-- Brackets come in pairs, and hold what they are for. -/
def checkBrackets (netloc : Str) : Bool :=
  if '[' ∈ netloc ∧ ']' ∈ netloc then checkBracketedNetloc netloc else decide ('[' ∉ netloc ∧ ']' ∉ netloc)

/-- No delimiter comes out of the NFKC form of an authority. -/
def checkNetloc (libs : Libraries) (netloc : Str) : Bool :=
  if isAscii netloc then true
  else
    let n := netloc.filter fun c => !(c = '@' || c = ':' || c = '#' || c = '?')
    if n = libs.nfkc n then true
    else (libs.nfkc n).all fun c => !(c = '/' || c = '?' || c = '#' || c = '@' || c = ':')

def urlsplit (libs : Libraries) (url : Str) : Option SplitResult :=
  let (scheme, url) := splitScheme (cleaned url)
  let (netloc, url) := splitNetloc url
  let (url, fragment) := cut '#' url
  let (path, query) := cut '?' url
  if checkBrackets netloc && checkNetloc libs netloc then some ⟨scheme, netloc, path, query, fragment⟩ else none

/-- `uses_params`. -/
def usesParams : List Str :=
  ["", "ftp", "hdl", "prospero", "http", "imap", "https", "shttp", "rtsp", "rtsps", "rtspu", "sip", "sips", "mms",
    "sftp", "tel"].map String.toList

/-- The parameters of the last segment: what follows its first semicolon. -/
def splitParams (url : Str) : Str × Str :=
  let (upTo, segment) := cutLast '/' url
  (upTo ++ (cut ';' segment).1, (cut ';' segment).2)

def urlparse (libs : Libraries) (url : Str) : Option ParseResult :=
  (urlsplit libs url).map fun r =>
    if r.scheme ∈ usesParams ∧ ';' ∈ r.path then
      ⟨r.scheme, r.netloc, (splitParams r.path).1, (splitParams r.path).2, r.query, r.fragment⟩
    else ⟨r.scheme, r.netloc, r.path, [], r.query, r.fragment⟩

/-! ## Host and port -/

/-- The host and the port as they are written; an empty port is none. -/
def hostinfo (netloc : Str) : Str × Option Str :=
  let hostinfo := hostAndPort netloc
  let (hostname, port) :=
    if '[' ∈ hostinfo then
      let (hostname, port) := cut ']' (cut '[' hostinfo).2
      (hostname, (cut ':' port).2)
    else cut ':' hostinfo
  (hostname, if port = [] then none else some port)

/-- The most digits `int` takes. -/
def maxDigits : Nat := 4300

namespace ParseResult

/-- The host in lower case; the zone of an address stays as it is. -/
def hostname (libs : Libraries) (r : ParseResult) : Option Str :=
  let host := (hostinfo r.netloc).1
  if host = [] then none
  else if '%' ∈ host then some (libs.lower (cut '%' host).1 ++ '%' :: (cut '%' host).2)
  else some (libs.lower host)

/-- The port, if there is one; nothing when it cannot be read. -/
def port (r : ParseResult) : Option (Option Nat) :=
  match (hostinfo r.netloc).2 with
  | none => some none
  | some digits =>
    if digits.all Char.isDigit && decide (digits.length ≤ maxDigits) && decide (int .decimal digits ≤ 65535) then
      some (some (int .decimal digits))
    else none

end ParseResult

/-! ## Putting a URL together -/

/-- `uses_netloc`. -/
def usesNetloc : List Str :=
  ["", "ftp", "http", "gopher", "nntp", "telnet", "imap", "wais", "file", "mms", "https", "shttp", "snews", "prospero",
    "rtsp", "rtsps", "rtspu", "rsync", "svn", "svn+ssh", "sftp", "nfs", "git", "git+ssh", "ws", "wss",
    "itms-services"].map String.toList

def urlunsplit (r : SplitResult) : Str :=
  let url :=
    if r.netloc ≠ [] ∨ (r.scheme ≠ [] ∧ r.scheme ∈ usesNetloc ∧ r.path.take 2 ≠ ['/', '/']) then
      let path := if r.path ≠ [] ∧ r.path.head? ≠ some '/' then '/' :: r.path else r.path
      '/' :: '/' :: (r.netloc ++ path)
    else r.path
  let url := if r.scheme ≠ [] then r.scheme ++ ':' :: url else url
  let url := if r.query ≠ [] then url ++ '?' :: r.query else url
  if r.fragment ≠ [] then url ++ '#' :: r.fragment else url

/-- `urlunparse`. -/
def ParseResult.geturl (r : ParseResult) : Str :=
  urlunsplit ⟨r.scheme, r.netloc, if r.params ≠ [] then r.path ++ ';' :: r.params else r.path, r.query, r.fragment⟩

end LinkShortener.Urls
