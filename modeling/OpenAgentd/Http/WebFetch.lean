import OpenAgentd.Lib.Run

/-!
# Fetching pages

`_fetch_url` (`agent/tools/builtin/web.py`) with the checks in front of each request and at each connection: the scheme,
the host and the credentials of a URL, the addresses of its host, the redirects, and the size of the body. All fetches
share one client and the connections that it keeps.

Names may resolve to another address each time they are looked up, servers may redirect anywhere, and the client may
take any connection that it has for the origin. Still no socket is opened to an address that is not public, unless the
setting allows it, and no request goes over such a socket (`fetches_guarded`). That rests on what is looked up at the
connection, whose addresses are the ones connected to (`Stage.Good`); the lookup in front of the request only gives the
error earlier.
-/

namespace OpenAgentd.Http.WebFetch
open OpenAgentd.Lib

/-- `httpx.URL`. -/
structure Url where
  scheme : String
  userinfo : String
  host : String
  port : Option Nat
  path : String
  deriving DecidableEq

/-- What the connection pool goes by. -/
structure Origin where
  scheme : String
  host : String
  port : Option Nat
  deriving DecidableEq

def Url.origin (url : Url) : Origin := ⟨url.scheme, url.host, url.port⟩

inductive FetchErrorKind where
  | notFound
  | accessDenied
  | rateLimited
  | serverError
  | timeout
  | networkError
  | tooManyRedirects
  | tooLarge
  | unsafeUrl
  | conversionError
  deriving DecidableEq

structure FetchError where
  kind : FetchErrorKind
  message : String
  retryable : Bool
  statusCode : Option Nat := none
  hint : Option String := none
  deriving DecidableEq

structure FetchResult where
  requestedUrl : Url
  finalUrl : Url
  statusCode : Nat
  contentType : Option String
  content : List UInt8
  redirectCount : Nat
  deriving DecidableEq

/-- What is read of a response before its body. The length is the number in the header, if it is one. -/
structure Head where
  statusCode : Nat
  reasonPhrase : String
  cfMitigated : String
  location : Option String
  contentLength : Option Int
  contentType : Option String

/-- The exceptions of the client that `_fetch_url` tells apart. -/
inductive ClientError where
  | timeout
  | tooManyRedirects
  | invalidUrl (message : String)
  | privateDestination (message : String)
  | connect
  | request

/-- What is not in the module: the setting, `ipaddress`, `httpx.URL.join` with the message for an invalid one. -/
structure Config (Address : Type*) where
  allowPrivateNetwork : Bool
  isGlobal : Address → Bool
  show_ : Address → String
  join : Url → String → Except String Url

/-- `str.lower`, as far as it makes letters of ASCII. -/
def lower (s : String) : List Char := s.toList.map Char.toLower

def maxRedirects : Nat := 10

def maxResponseMb : Nat := 50

def maxResponseBytes : Nat := maxResponseMb * 1024 * 1024

def unsafeURL (message : String) : FetchError where
  kind := .unsafeUrl
  message := "Unsafe URL."
  retryable := false
  hint := some message

def responseTooLarge (size : Int) (limit : Nat) : FetchError where
  kind := .tooLarge
  message := "Response too large."
  retryable := false
  hint := some ("The response exceeded the " ++ toString maxResponseMb ++ " MB limit (" ++ toString size ++
    " bytes received; limit " ++ toString limit ++ " bytes).")

def networkError : FetchError where
  kind := .networkError
  message := "Network error."
  retryable := true
  hint := some "The request could not reach the server. Retrying may succeed."

def dnsError (message : String) : FetchError where
  kind := .networkError
  message := "Network error."
  retryable := true
  hint := some ("DNS resolution failed: " ++ message)

def tooManyRedirects (hint : Option String) : FetchError where
  kind := .tooManyRedirects
  message := "Too many redirects."
  retryable := false
  hint

/-- `_http_error` -/
def httpError (head : Head) : FetchError :=
  let status := head.statusCode
  let reason := if head.reasonPhrase = "" then "HTTP error" else head.reasonPhrase
  let message := toString status ++ " " ++ reason ++ "."
  if status = 404 ∨ status = 410 then
    ⟨.notFound, message, false, some status,
      some "The page may have moved or been removed. Use web_search to find the current URL."⟩
  else if status = 401 ∨ status = 403 then
    ⟨.accessDenied, message, false, some status,
      some "The server denied the request or requires authentication/browser access."⟩
  else if status = 429 then
    ⟨.rateLimited, "429 Too Many Requests.", true, some status,
      some "The server is rate limiting requests. Retry later or use another source."⟩
  else
    let retryable := status = 408 ∨ status = 425 ∨ 500 ≤ status
    ⟨if 500 ≤ status then .serverError else .networkError, message, retryable, some status,
      some (if retryable then "Retrying may succeed." else "Check the URL and request parameters.")⟩

/-- The `except` clauses of `_fetch_url`. -/
def clientFailure : ClientError → FetchError
  | .timeout => ⟨.timeout, "Request timed out.", true, none, some "The request timed out. Retrying may succeed."⟩
  | .tooManyRedirects => tooManyRedirects none
  | .invalidUrl message => unsafeURL message
  | .privateDestination message => unsafeURL message
  | .connect => networkError
  | .request => networkError

/-- `_browser_challenge` -/
def browserChallenge (head : Head) : Bool := head.statusCode = 403 && lower head.cfMitigated == "challenge".toList

def browserVerification (status : Nat) : FetchError where
  kind := .accessDenied
  message := "Browser verification required."
  retryable := false
  statusCode := some status
  hint := some ("Direct HTTP fetching was blocked by anti-bot protection. " ++
    "Try another source or use a browser-capable tool.")

/-- Where a fetch is: in the lookup of `_validate_fetch_destination`, in the client before it has a connection, in the
lookup of `connect_tcp`, at the addresses that it has not tried, with the request sent, or in the body. -/
inductive Stage (Address : Type*) where
  | validating (url : Url) (redirects : Nat)
  | acquiring (url : Url) (redirects : Nat)
  | resolving (url : Url) (redirects : Nat)
  | connecting (url : Url) (redirects : Nat) (addresses : List Address)
  | unchecked (url : Url) (redirects : Nat)
  | awaiting (url : Url) (redirects : Nat)
  | reading (url : Url) (redirects : Nat) (head : Head) (content : List UInt8)
  | failed (error : FetchError)
  | fetched (result : FetchResult)

/-- What happens to a fetch. -/
inductive FetchEvent (Address : Type*) where
  | lookedUp (answer : Except String (List Address))
  | reuses (k : Nat)
  | opens
  | connects
  | kernelConnects (address : Address)
  | refused (timedOut : Bool)
  | responds (head : Head)
  | chunk (bytes : List UInt8)
  | bodyEnds
  | raises (error : ClientError)

/-- A connection that the client keeps. -/
structure Connection (Address : Type*) where
  origin : Origin
  address : Address

/-- A fetch, with the sockets that it opened and the requests that it sent, over which address. -/
structure Fetch (Address : Type*) where
  requestedUrl : Url
  stage : Stage Address
  opened : List Address
  requests : List (Url × Address)

section
variable {Address : Type*} (config : Config Address)

/-- The head of the loop: `_validate_fetch_destination` up to its lookup. -/
def enter (url : Url) (redirects : Nat) : Stage Address :=
  if ¬ (lower url.scheme = "http".toList ∨ lower url.scheme = "https".toList) then
    .failed (unsafeURL "Only http:// and https:// URLs are supported.")
  else if url.host = "" then .failed (unsafeURL "The URL has no host.")
  else if url.userinfo ≠ "" then .failed (unsafeURL "URLs containing embedded credentials are not allowed.")
  else if config.allowPrivateNetwork then .acquiring url redirects
  else .validating url redirects

/-- The first address that is not public. -/
def nonPublic (addresses : List Address) : Option Address := addresses.find? fun a => !config.isGlobal a

/-- What `_fetch_url` does with a response before its body. -/
def respond (url : Url) (redirects : Nat) (head : Head) : Stage Address :=
  if browserChallenge head then .failed (browserVerification head.statusCode)
  else if 300 ≤ head.statusCode ∧ head.statusCode < 400 then
    match head.location with
    | none => .failed (httpError head)
    | some location =>
      if location = "" then .failed (httpError head)
      else if maxRedirects ≤ redirects then
        .failed (tooManyRedirects (some "The URL redirected more than the allowed limit."))
      else
        match config.join url location with
        | .error message => .failed (clientFailure (.invalidUrl message))
        | .ok next => enter config next (redirects + 1)
  else if 400 ≤ head.statusCode then .failed (httpError head)
  else
    match head.contentLength with
    | some declared =>
      if (maxResponseBytes : Int) < declared then .failed (responseTooLarge declared maxResponseBytes)
      else .reading url redirects head []
    | none => .reading url redirects head []

/-- The request goes over a connection to the address. -/
def Fetch.request (f : Fetch Address) (url : Url) (redirects : Nat) (address : Address) : Fetch Address :=
  { f with stage := .awaiting url redirects, requests := f.requests ++ [(url, address)] }

def Fetch.moved (f : Fetch Address) (stage : Stage Address) : Fetch Address := { f with stage }

/-- One step of a fetch, with the connection that it makes. The client may reuse what is in the pool. -/
def Fetch.step (pool : List (Connection Address)) (f : Fetch Address) (event : FetchEvent Address) :
    Option (Fetch Address × Option (Connection Address)) :=
  match f.stage, event with
  | .validating _ _, .lookedUp (.error message) => some (f.moved (.failed (dnsError message)), none)
  | .validating url redirects, .lookedUp (.ok addresses) =>
    match nonPublic config addresses with
    | some address =>
      let hint := "The destination resolves to a non-public address (" ++ config.show_ address ++ ")."
      some (f.moved (.failed (unsafeURL hint)), none)
    | none => some (f.moved (.acquiring url redirects), none)
  | .acquiring url redirects, .reuses k =>
    match pool[k]? with
    | some connection =>
      if connection.origin = url.origin then some (f.request url redirects connection.address, none) else none
    | none => none
  -- `connect_tcp`
  | .acquiring url redirects, .opens =>
    some (f.moved (if config.allowPrivateNetwork then .unchecked url redirects else .resolving url redirects), none)
  | .resolving _ _, .lookedUp (.error _) => some (f.moved (.failed (clientFailure .connect)), none)
  | .resolving url redirects, .lookedUp (.ok addresses) =>
    if addresses.isEmpty then some (f.moved (.failed (clientFailure .connect)), none)
    else
      match nonPublic config addresses with
      | some address =>
        let message := url.host ++ " resolved to a non-public address (" ++ config.show_ address ++ ")."
        some (f.moved (.failed (clientFailure (.privateDestination message))), none)
      | none => some (f.moved (.connecting url redirects addresses), none)
  | .connecting url redirects (address :: _), .connects =>
    some ({ f.request url redirects address with opened := f.opened ++ [address] }, some ⟨url.origin, address⟩)
  | .connecting _ _ [_], .refused timedOut =>
    some (f.moved (.failed (clientFailure (if timedOut then .timeout else .connect))), none)
  | .connecting url redirects (_ :: rest), .refused _ => some (f.moved (.connecting url redirects rest), none)
  | .unchecked url redirects, .kernelConnects address =>
    some ({ f.request url redirects address with opened := f.opened ++ [address] }, some ⟨url.origin, address⟩)
  | .awaiting url redirects, .responds head => some (f.moved (respond config url redirects head), none)
  -- `_read_limited_response`
  | .reading url redirects head content, .chunk bytes =>
    if maxResponseBytes < (content ++ bytes).length then
      some (f.moved (.failed (responseTooLarge (content ++ bytes).length maxResponseBytes)), none)
    else some (f.moved (.reading url redirects head (content ++ bytes)), none)
  | .reading url redirects head content, .bodyEnds =>
    some (f.moved (.fetched ⟨f.requestedUrl, url, head.statusCode, head.contentType, content, redirects⟩), none)
  | .acquiring _ _, .raises error => some (f.moved (.failed (clientFailure error)), none)
  | .resolving _ _, .raises error => some (f.moved (.failed (clientFailure error)), none)
  | .connecting _ _ _, .raises error => some (f.moved (.failed (clientFailure error)), none)
  | .unchecked _ _, .raises error => some (f.moved (.failed (clientFailure error)), none)
  | .awaiting _ _, .raises error => some (f.moved (.failed (clientFailure error)), none)
  | .reading _ _ _ _, .raises error => some (f.moved (.failed (clientFailure error)), none)
  | _, _ => none

/-- The fetches that were started, and the connections of the client. -/
structure State (Address : Type*) where
  fetches : List (Fetch Address)
  pool : List (Connection Address)

/-- A fetch starts, one of them goes on, or the client closes a connection. -/
inductive Step : State Address → Option (Nat × FetchEvent Address) → State Address → Prop where
  | start (s : State Address) (url : Url) :
    Step s none { s with fetches := s.fetches ++ [⟨url, enter config url 0, [], []⟩] }
  | fetch (s : State Address) (i : Nat) (event : FetchEvent Address) (f f' : Fetch Address)
      (made : Option (Connection Address)) (here : s.fetches[i]? = some f)
      (st : f.step config s.pool event = some (f', made)) :
    Step s (some (i, event)) ⟨s.fetches.set i f', s.pool ++ made.toList⟩
  | close (s : State Address) (k : Nat) : Step s none { s with pool := s.pool.eraseIdx k }

/-! ### What is promised -/

/-- A URL that a request may go to. -/
structure Allowed (url : Url) : Prop where
  scheme : lower url.scheme = "http".toList ∨ lower url.scheme = "https".toList
  host : url.host ≠ ""
  userinfo : url.userinfo = ""

/-- An address that a socket may go to. -/
def Reachable (address : Address) : Prop := config.allowPrivateNetwork = true ∨ config.isGlobal address = true

/-- What is promised of a fetch at any time. -/
structure Guarded (f : Fetch Address) : Prop where
  sockets : ∀ address ∈ f.opened, Reachable config address
  requests : ∀ r ∈ f.requests, Allowed r.1 ∧ Reachable config r.2
  first : ∀ r, f.requests.head? = some r → r.1 = f.requestedUrl
  bounded : f.requests.length ≤ maxRedirects + 1
  result : ∀ result, f.stage = .fetched result → result.content.length ≤ maxResponseBytes ∧ result.statusCode < 300 ∧
    f.requests.length = result.redirectCount + 1 ∧ f.requests.getLast?.map Prod.fst = some result.finalUrl

/-! ### The invariant -/

/-- The next request is for the URL. -/
structure Ready (requested : Url) (requests : List (Url × Address)) (url : Url) (redirects : Nat) : Prop where
  allowed : Allowed url
  count : requests.length = redirects
  few : redirects ≤ maxRedirects
  start : redirects = 0 → url = requested

/-- The last request was for the URL. -/
structure Sent (requests : List (Url × Address)) (url : Url) (redirects : Nat) : Prop where
  allowed : Allowed url
  count : requests.length = redirects + 1
  few : redirects ≤ maxRedirects
  last : requests.getLast?.map Prod.fst = some url

/-- What the stage of a fetch says. -/
def Stage.Good (requested : Url) (requests : List (Url × Address)) : Stage Address → Prop
  | .validating url redirects => Ready requested requests url redirects
  | .acquiring url redirects => Ready requested requests url redirects
  | .resolving url redirects => Ready requested requests url redirects
  | .connecting url redirects addresses =>
    Ready requested requests url redirects ∧ ∀ a ∈ addresses, config.isGlobal a = true
  | .unchecked url redirects => Ready requested requests url redirects ∧ config.allowPrivateNetwork = true
  | .awaiting url redirects => Sent requests url redirects
  | .reading url redirects head content =>
    Sent requests url redirects ∧ head.statusCode < 300 ∧ content.length ≤ maxResponseBytes
  | .failed _ => requests.length ≤ maxRedirects + 1
  | .fetched result => Sent requests result.finalUrl result.redirectCount ∧ result.statusCode < 300 ∧
    result.content.length ≤ maxResponseBytes

structure Fetch.Inv (f : Fetch Address) : Prop where
  sockets : ∀ address ∈ f.opened, Reachable config address
  requests : ∀ r ∈ f.requests, Allowed r.1 ∧ Reachable config r.2
  first : ∀ r, f.requests.head? = some r → r.1 = f.requestedUrl
  stage : f.stage.Good config f.requestedUrl f.requests

variable {config} {f f' : Fetch Address} {pool : List (Connection Address)} {event : FetchEvent Address}
  {made : Option (Connection Address)} {url requested : Url} {redirects : Nat} {stage : Stage Address}
  {address : Address} {requests : List (Url × Address)}

/-- Requests are bounded. -/
lemma Ready.bounded (h : Ready requested requests url redirects) : requests.length ≤ maxRedirects + 1 :=
  Nat.le_trans (Nat.le_of_eq h.count) (Nat.le_succ_of_le h.few)

/-- Requests are bounded. -/
lemma Sent.bounded (h : Sent requests url redirects) : requests.length ≤ maxRedirects + 1 :=
  Nat.le_trans (Nat.le_of_eq h.count) (Nat.succ_le_succ h.few)

/-- Requests are bounded. -/
lemma Stage.Good.bounded (h : stage.Good config requested requests) : requests.length ≤ maxRedirects + 1 := by
  cases stage with
  | validating url redirects => exact Ready.bounded h
  | acquiring url redirects => exact Ready.bounded h
  | resolving url redirects => exact Ready.bounded h
  | connecting url redirects addresses => exact h.1.bounded
  | unchecked url redirects => exact h.1.bounded
  | awaiting url redirects => exact Sent.bounded h
  | reading url redirects head content => exact h.1.bounded
  | failed error => exact h
  | fetched result => exact h.1.bounded

/-- A fetch that only moves on keeps what it did. -/
lemma Fetch.Inv.moved (h : f.Inv config) (good : stage.Good config f.requestedUrl f.requests) :
    (f.moved stage).Inv config := ⟨h.sockets, h.requests, h.first, good⟩

/-- A fetch may fail at any time. -/
lemma Fetch.Inv.fails (h : f.Inv config) (error : FetchError) : (f.moved (.failed error)).Inv config :=
  h.moved h.stage.bounded

/-- A request over a connection to an address that sockets may go to. -/
lemma Fetch.Inv.request (h : f.Inv config) (ready : Ready f.requestedUrl f.requests url redirects)
    (reachable : Reachable config address) : (f.request url redirects address).Inv config where
  sockets := h.sockets
  requests r mem := by
    cases List.mem_append.mp mem with
    | inl old => exact h.requests r old
    | inr new =>
      cases List.mem_singleton.mp new
      exact ⟨ready.allowed, reachable⟩
  first r head := by
    cases e : f.requests with
    | nil =>
      have none_ : redirects = 0 := by rw [← ready.count, e, List.length_nil]
      simp only [Fetch.request, e, List.nil_append, List.head?_cons, Option.some.injEq] at head
      subst head
      exact ready.start none_
    | cons r' rs =>
      simp only [Fetch.request, e, List.cons_append, List.head?_cons, Option.some.injEq] at head
      subst head
      apply h.first r'
      rw [e, List.head?_cons]
  stage :=
    { allowed := ready.allowed
      count := by rw [Fetch.request, List.length_append, ready.count, List.length_singleton]
      few := ready.few
      last := by rw [Fetch.request, List.getLast?_append, List.getLast?_singleton]; rfl }

/-- A request over a connection that is made for it. -/
lemma Fetch.Inv.connect (h : f.Inv config) (ready : Ready f.requestedUrl f.requests url redirects)
    (reachable : Reachable config address) :
    ({ f.request url redirects address with opened := f.opened ++ [address] } : Fetch Address).Inv config := by
  have sent := h.request ready reachable
  refine ⟨?_, sent.requests, sent.first, sent.stage⟩
  intro a mem
  cases List.mem_append.mp mem with
  | inl old => exact h.sockets a old
  | inr new =>
    cases List.mem_singleton.mp new
    exact reachable

/-- Entering a URL. -/
lemma good_enter (count : requests.length = redirects) (few : redirects ≤ maxRedirects)
    (start : redirects = 0 → url = requested) : (enter config url redirects).Good config requested requests := by
  have bounded : requests.length ≤ maxRedirects + 1 := Nat.le_trans (Nat.le_of_eq count) (Nat.le_succ_of_le few)
  unfold enter
  split
  next => exact bounded
  next scheme =>
    split
    next => exact bounded
    next host =>
      split
      next => exact bounded
      next userinfo =>
        have ready : Ready requested requests url redirects :=
          ⟨⟨Decidable.not_not.mp scheme, host, Decidable.not_not.mp userinfo⟩, count, few, start⟩
        split
        next => exact ready
        next => exact ready

/-- Reading a response. -/
lemma good_respond (sent : Sent requests url redirects) (head : Head) :
    (respond config url redirects head).Good config requested requests := by
  unfold respond
  split
  next => exact sent.bounded
  next =>
    split
    next =>
      split
      next => exact sent.bounded
      next location =>
        split
        next => exact sent.bounded
        next =>
          split
          next => exact sent.bounded
          next more =>
            split
            next => exact sent.bounded
            next url' _ => exact good_enter sent.count (Nat.lt_of_not_le more) nofun
    next noRedirect =>
      split
      next => exact sent.bounded
      next noError =>
        have success : head.statusCode < 300 := by omega
        split
        next =>
          split
          next => exact sent.bounded
          next => exact ⟨sent, success, Nat.zero_le _⟩
        next => exact ⟨sent, success, Nat.zero_le _⟩

/-- All addresses are public. -/
lemma global_of_nonPublic {addresses : List Address} (none_ : nonPublic config addresses = none) :
    ∀ a ∈ addresses, config.isGlobal a = true := by
  intro a mem
  have no := List.find?_eq_none.mp none_ a mem
  simpa using no

/-- A step of a fetch, and the connection that it makes. -/
lemma inv_step (h : f.Inv config) (reachable : ∀ c ∈ pool, Reachable config c.address)
    (st : f.step config pool event = some (f', made)) :
    f'.Inv config ∧ ∀ c ∈ made, Reachable config c.address := by
  have good := h.stage
  unfold Fetch.step at st
  split at st
  next here =>
    cases st
    exact ⟨h.fails _, nofun⟩
  next url redirects addresses here =>
    rw [here] at good
    split at st
    next =>
      cases st
      exact ⟨h.fails _, nofun⟩
    next =>
      cases st
      exact ⟨h.moved good, nofun⟩
  next url redirects k here =>
    rw [here] at good
    split at st
    next connection there =>
      split at st
      next =>
        cases st
        exact ⟨h.request good (reachable _ (List.mem_of_getElem? there)), nofun⟩
      next => cases st
    next => cases st
  next url redirects here =>
    rw [here] at good
    cases st
    refine ⟨h.moved ?_, nofun⟩
    split
    next allowed => exact ⟨good, allowed⟩
    next => exact good
  next here =>
    cases st
    exact ⟨h.fails _, nofun⟩
  next url redirects addresses here =>
    rw [here] at good
    split at st
    next =>
      cases st
      exact ⟨h.fails _, nofun⟩
    next =>
      split at st
      next =>
        cases st
        exact ⟨h.fails _, nofun⟩
      next all =>
        cases st
        exact ⟨h.moved ⟨good, global_of_nonPublic all⟩, nofun⟩
  next url redirects address rest here =>
    rw [here] at good
    cases st
    have global : Reachable config address := .inr (good.2 address List.mem_cons_self)
    exact ⟨h.connect good.1 global, fun c made => by cases made; exact global⟩
  next here =>
    cases st
    exact ⟨h.fails _, nofun⟩
  next url redirects address rest timedOut _ here =>
    rw [here] at good
    cases st
    exact ⟨h.moved ⟨good.1, fun a mem => good.2 a (List.mem_cons_of_mem _ mem)⟩, nofun⟩
  next url redirects address here =>
    rw [here] at good
    cases st
    exact ⟨h.connect good.1 (.inl good.2), fun c made => by cases made; exact .inl good.2⟩
  next url redirects head here =>
    rw [here] at good
    cases st
    exact ⟨h.moved (good_respond good head), nofun⟩
  next url redirects head content bytes here =>
    rw [here] at good
    split at st
    next =>
      cases st
      exact ⟨h.fails _, nofun⟩
    next small =>
      cases st
      exact ⟨h.moved ⟨good.1, good.2.1, Nat.le_of_not_lt small⟩, nofun⟩
  next url redirects head content here =>
    rw [here] at good
    cases st
    exact ⟨h.moved good, nofun⟩
  next =>
    cases st
    exact ⟨h.fails _, nofun⟩
  next =>
    cases st
    exact ⟨h.fails _, nofun⟩
  next =>
    cases st
    exact ⟨h.fails _, nofun⟩
  next =>
    cases st
    exact ⟨h.fails _, nofun⟩
  next =>
    cases st
    exact ⟨h.fails _, nofun⟩
  next =>
    cases st
    exact ⟨h.fails _, nofun⟩
  next => cases st

/-- What holds of all fetches and of the connections. -/
structure State.Inv (config : Config Address) (s : State Address) : Prop where
  fetches : ∀ f ∈ s.fetches, f.Inv config
  pool : ∀ c ∈ s.pool, Reachable config c.address

variable {s s' : State Address} {action : Option (Nat × FetchEvent Address)}
  {actions : List (Option (Nat × FetchEvent Address))}

/-- A step keeps the invariant. -/
lemma inv_of_step (h : s.Inv config) (st : Step config s action s') : s'.Inv config := by
  cases st with
  | start url =>
    refine ⟨?_, h.pool⟩
    intro f mem
    cases List.mem_append.mp mem with
    | inl old => exact h.fetches f old
    | inr new =>
      cases List.mem_singleton.mp new
      exact ⟨nofun, nofun, nofun, good_enter rfl (Nat.zero_le _) fun _ => rfl⟩
  | fetch i event f f' made here st =>
    obtain ⟨inv, reachable⟩ := inv_step (h.fetches f (List.mem_of_getElem? here)) h.pool st
    refine ⟨?_, ?_⟩
    · intro g mem
      cases List.mem_or_eq_of_mem_set mem with
      | inl old => exact h.fetches g old
      | inr new =>
        subst new
        exact inv
    · intro c mem
      cases List.mem_append.mp mem with
      | inl old => exact h.pool c old
      | inr new => exact reachable c (Option.mem_toList.mp new)
  | close k => exact ⟨h.fetches, fun c mem => h.pool c ((List.eraseIdx_sublist _ _).subset mem)⟩

/-- Whatever names resolve to, wherever servers redirect and however fetches take turns, each fetch keeps its promise in
every state. -/
theorem fetches_guarded (rn : Run (Step config) ⟨[], []⟩ actions s) : ∀ f ∈ s.fetches, Guarded config f := by
  have inv : s.Inv config := rn.invariant ⟨nofun, nofun⟩ inv_of_step
  intro f mem
  obtain ⟨sockets, requests, first, stage⟩ := inv.fetches f mem
  refine ⟨sockets, requests, first, stage.bounded, ?_⟩
  intro result here
  rw [here] at stage
  exact ⟨stage.2.2, stage.2.1, stage.1.count, stage.1.last⟩

end

/-- Addresses are public but for one. -/
def rebinding : Config Nat where
  allowPrivateNetwork := false
  isGlobal address := address != 127
  show_ := toString
  join url _ := .ok url

def page : Url := ⟨"https", "", "example.org", none, "/"⟩

/-- A redirect. -/
def moved : Head := ⟨302, "Found", "", some "/next", none, none⟩

/-- A page is validated first. -/
lemma entered (redirects : Nat) : enter rebinding page redirects = .validating page redirects := by
  have scheme : lower "https" = "https".toList := by decide
  simp [enter, page, rebinding, scheme]

/-- A request goes to the public address of the name; the server redirects, and at the next connection the name resolves
to another one. -/
theorem fetches_guarded_rebinding :
    ∃ actions fetch pool, Run (Step rebinding) ⟨[], []⟩ actions ⟨[fetch], pool⟩ ∧ fetch.opened = [8] ∧
      fetch.requests = [(page, 8)] ∧ fetch.stage = .failed (unsafeURL
        "example.org resolved to a non-public address (127).") ∧ Guarded rebinding fetch := by
  have start : Run (Step rebinding) ⟨[], []⟩ [none] ⟨[⟨page, .validating page 0, [], []⟩], []⟩ := by
    rw [← entered]
    exact .single (.start _ page)
  have validated := start.snoc (.fetch _ 0 (.lookedUp (.ok [8])) _ _ none rfl rfl)
  have opened := validated.snoc (.fetch _ 0 .opens _ _ none rfl rfl)
  have found := opened.snoc (.fetch _ 0 (.lookedUp (.ok [8])) _ _ none rfl rfl)
  have sent := found.snoc (.fetch _ 0 .connects _ _ (some ⟨page.origin, 8⟩) rfl rfl)
  have next : respond rebinding page 0 moved = .validating page 1 := entered 1
  have redirected := sent.snoc (.fetch _ 0 (.responds moved) _ ⟨page, .validating page 1, [8], [(page, 8)]⟩ none rfl
    (by rw [← next]; rfl))
  have validated' := redirected.snoc (.fetch _ 0 (.lookedUp (.ok [8])) _ _ none rfl rfl)
  have opened' := validated'.snoc (.fetch _ 0 .opens _ _ none rfl rfl)
  have refused := opened'.snoc (.fetch _ 0 (.lookedUp (.ok [8, 127])) _ _ none rfl rfl)
  exact ⟨_, _, _, refused, rfl, rfl, rfl, fetches_guarded refused _ List.mem_cons_self⟩

end OpenAgentd.Http.WebFetch
