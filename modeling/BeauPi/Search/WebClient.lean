import BeauPi.Js.Text
import BeauPi.Search.Diagnostics
import Mathlib.Data.List.Basic
import Mathlib.Algebra.GroupWithZero.Nat

/-!
# The safe web client

`SafeWebClient.fetch` sends a request, and one more for every redirect, to addresses that it has
resolved and checked itself.

* `Url`, `UrlLibrary` — the URL records of the host and what it does with addresses.
* `isBlockedWebAddress` — addresses of networks that are not public.
* `proxyUrlFor` — the proxy of a request, by the environment.
* `validateAndResolve` — the addresses of a URL.
* `SafeWebClient.fetch` — the requests of a fetch, and how it ends.
-/

namespace BeauPi.Search

/-! ## The library of the host -/

/-- An IP address. -/
inductive Address
  | ipv4 (bits : BitVec 32)
  | ipv6 (bits : BitVec 128)
  deriving DecidableEq, Repr

/-- `toLowerCase`, of a host name. -/
def lowerCase (text : String) : String := String.ofList (text.toList.map Char.toLower)

/-- A URL record; the host name of an HTTP URL is in lower case and without zone. -/
structure Url where
  protocol : String
  username : String
  password : String
  hostname : String
  port : String
  pathname : String
  search : String
  hash : String
  special : protocol = "http:" ∨ protocol = "https:" →
    lowerCase hostname = hostname ∧ '%' ∉ hostname.toList
  deriving DecidableEq

/-- What the host provides: URLs, `isIP` with the address that a text denotes, and the parts of
`canonicalizeWebUrl` that need its tables.  A host name is set to itself or to an IPv4 address as one
expects, and **a value with a colon outside of brackets leaves the URL unchanged**. -/
structure UrlLibrary where
  parse : String → Option Url
  resolve : String → Url → Option Url
  setHostname : Url → String → Url
  parseAddress : String → Option Address
  canonicalPathname : String → String
  canonicalSearch : String → String
  setHostname_self : ∀ url, setHostname url url.hostname = url
  setHostname_ipv4 : ∀ url text bits, parseAddress text = some (.ipv4 bits) →
    (setHostname url text).hostname = text
  setHostname_colon : ∀ url text, ':' ∈ text.toList → text.toList.head? ≠ some '[' →
    setHostname url text = url
  chars_of_ipv4 : ∀ text bits, parseAddress text = some (.ipv4 bits) →
    ∀ c ∈ text.toList, Js.isDigit c = true ∨ c = '.'
  colon_of_ipv6 : ∀ text bits, parseAddress text = some (.ipv6 bits) →
    ':' ∈ text.toList ∧ text.toList.head? ≠ some '['
  last_of_address : ∀ text address, parseAddress text = some address → '%' ∉ text.toList →
    text.toList.getLast? ≠ some '.'

/-! ## Blocked addresses -/

/-- An IPv4 address by its four numbers. -/
def ipv4 (a b c d : Nat) : BitVec 32 := BitVec.ofNat 32 (((a * 256 + b) * 256 + c) * 256 + d)

/-- An IPv6 address by its first groups, if the others are zero. -/
def ipv6 (a b c d : Nat) : BitVec 128 :=
  BitVec.ofNat 128 ((((a * 65536 + b) * 65536 + c) * 65536 + d) * 2 ^ 64)

/-- Are the first bits of an address those of a network? -/
def inSubnet {w : Nat} (network : BitVec w) (bits : Nat) (address : BitVec w) : Bool :=
  network >>> (w - bits) == address >>> (w - bits)

/-- `BLOCKED_IPV4_ADDRESSES` -/
def blockedIpv4Addresses : List (BitVec 32 × Nat) :=
  [(ipv4 0 0 0 0, 8), (ipv4 10 0 0 0, 8), (ipv4 100 64 0 0, 10), (ipv4 127 0 0 0, 8),
    (ipv4 169 254 0 0, 16), (ipv4 172 16 0 0, 12), (ipv4 192 0 0 0, 24), (ipv4 192 0 2 0, 24),
    (ipv4 192 168 0 0, 16), (ipv4 198 18 0 0, 15), (ipv4 198 51 100 0, 24), (ipv4 203 0 113 0, 24),
    (ipv4 224 0 0 0, 4), (ipv4 240 0 0 0, 4)]

/-- `BLOCKED_IPV6_ADDRESSES` -/
def blockedIpv6Addresses : List (BitVec 128 × Nat) :=
  [(0, 128), (1, 128), (BitVec.ofNat 128 (0xffff * 2 ^ 32), 96), (ipv6 0x64 0xff9b 0 0, 96),
    (ipv6 0x100 0 0 0, 64), (ipv6 0x2001 0xdb8 0 0, 32), (ipv6 0x2001 0x10 0 0, 28),
    (ipv6 0xfc00 0 0 0, 7), (ipv6 0xfe80 0 0 0, 10), (ipv6 0xff00 0 0 0, 8)]

/-- `isBlockedWebAddress` -/
def isBlockedWebAddress (library : UrlLibrary) (address : String) : Bool :=
  match library.parseAddress address with
  | some (.ipv4 bits) => blockedIpv4Addresses.any fun (network, n) => inSubnet network n bits
  | some (.ipv6 bits) => blockedIpv6Addresses.any fun (network, n) => inSubnet network n bits
  | none => true

/-- `LookupAddress` -/
structure LookupAddress where
  address : String
  family : Nat
  deriving DecidableEq, Repr

/-! ## Canonical URLs -/

/-- `canonicalizeWebUrl`, on the record of its argument. -/
def canonicalizeWebUrl (library : UrlLibrary) (url : Url) : Option Url :=
  if url.protocol ≠ "http:" ∧ url.protocol ≠ "https:" then none
  else if url.username ≠ "" ∨ url.password ≠ "" then none
  else
    let url := library.setHostname url (lowerCase url.hostname)
    let port :=
      if (url.protocol = "http:" ∧ url.port = "80") ∨ (url.protocol = "https:" ∧ url.port = "443")
      then "" else url.port
    some { url with
      hash := ""
      port := port
      pathname := library.canonicalPathname url.pathname
      search := library.canonicalSearch url.search }

/-! ## Proxies -/

/-- `process.env` -/
abbrev Environment := String → Option String

/-- `firstEnvironmentValue` -/
def firstEnvironmentValue (environment : Environment) (names : List String) : Option String :=
  names.findSome? fun name =>
    match environment name with
    | some value => if Js.trim value = "" then none else some (Js.trim value)
    | none => none

/-- Does a text match a pattern whose `*` stand for anything? -/
def matchesWildcards : List Char → List Char → Bool
  | [], text => text.isEmpty
  | '*' :: pattern, [] => matchesWildcards pattern []
  | '*' :: pattern, c :: text =>
    matchesWildcards pattern (c :: text) || matchesWildcards ('*' :: pattern) text
  | _ :: _, [] => false
  | p :: pattern, c :: text => p.toLower == c.toLower && matchesWildcards pattern text
termination_by pattern text => pattern.length + text.length

/-- `noProxyPatternMatches` -/
def noProxyPatternMatches (hostname pattern : List Char) : Bool :=
  if pattern = ['*'] then true
  else if Js.startsWith ['*', '.'] pattern then (pattern.drop 1).isSuffixOf hostname
  else if Js.startsWith ['.'] pattern then
    hostname = pattern.drop 1 || pattern.isSuffixOf hostname
  else if pattern.contains '*' then matchesWildcards pattern hostname
  else hostname = pattern || ('.' :: pattern).isSuffixOf hostname

/-- An entry of `NO_PROXY`: its host name and its port. -/
def noProxyEntry (entry : List Char) : List Char × Option (List Char) :=
  if Js.startsWith ['['] entry then
    match entry.findIdx? (· = ']') with
    | some closing =>
      ((entry.take closing).drop 1,
        if entry[closing + 1]? = some ':' then some (entry.drop (closing + 2)) else none)
    | none => (entry, none)
  else
    match entry.findIdx? (· = ':') with
    | some colon =>
      let digits := entry.drop (colon + 1)
      if entry.count ':' = 1 ∧ digits ≠ [] ∧ digits.all Js.isDigit then
        (entry.take colon, some digits)
      else (entry, none)
    | none => (entry, none)

/-- `hostname.replace(/^\[|\]$/g, "")` -/
def stripBrackets (hostname : List Char) : List Char :=
  let hostname := if hostname.head? = some '[' then hostname.drop 1 else hostname
  if hostname.getLast? = some ']' then hostname.dropLast else hostname

/-- `url.port || (url.protocol === "https:" ? "443" : "80")` -/
def Url.effectivePort (url : Url) : String :=
  if url.port ≠ "" then url.port else if url.protocol = "https:" then "443" else "80"

/-- `noProxyMatches` -/
def noProxyMatches (url : Url) (value : Option String) : Bool :=
  let hostname := stripBrackets (lowerCase url.hostname).toList
  ((value.getD "").toList.splitOn ',').any fun rawEntry =>
    let entry := (Js.trimChars rawEntry).map Char.toLower
    if entry = [] then false
    else if entry = "<local>".toList ∧ !hostname.contains '.' then true
    else
      let (pattern, entryPort) := noProxyEntry entry
      if entryPort.getD [] ≠ [] ∧ entryPort ≠ some url.effectivePort.toList then false
      else noProxyPatternMatches hostname pattern

/-- `proxyUrlFor` -/
def proxyUrlFor (library : UrlLibrary) (environment : Environment) (url : Url) : Option Url :=
  if noProxyMatches url (firstEnvironmentValue environment ["NO_PROXY", "no_proxy"]) then none
  else
    let configured := firstEnvironmentValue environment
      (if url.protocol = "https:" then
        ["HTTPS_PROXY", "https_proxy", "HTTP_PROXY", "http_proxy", "ALL_PROXY", "all_proxy"]
      else ["HTTP_PROXY", "http_proxy", "ALL_PROXY", "all_proxy"])
    match configured.bind library.parse with
    | some proxy =>
      if ["http:", "https:", "socks:", "socks5:"].contains proxy.protocol then some proxy else none
    | none => none

/-! ## Addresses of a URL -/

/-- How a lookup ends; an error comes with the diagnostic that its codes lead to. -/
inductive Lookup
  | addresses (addresses : List LookupAddress)
  | failed (error : Thrown)
  | aborted (error : Thrown)

/-- `METADATA_HOSTNAMES` -/
def metadataHostnames : List String :=
  ["metadata", "metadata.google.internal", "instance-data", "instance-data.ec2.internal"]

/-- `blockedTarget` -/
def blockedTarget (message : String) : Thrown :=
  .searchRuntimeError { code := .blockedTarget, severity := .error, message := message }

/-- The host name that is checked. -/
def checkedHostname (url : Url) : String :=
  let hostname := stripBrackets (lowerCase url.hostname).toList
  String.ofList (if hostname.getLast? = some '.' then hostname.dropLast else hostname)

/-- `isIP` -/
def isIP (library : UrlLibrary) (text : String) : Nat :=
  match library.parseAddress text with
  | some (.ipv4 _) => 4
  | some (.ipv6 _) => 6
  | none => 0

/-- `SafeWebClient` -/
structure SafeWebClient where
  library : UrlLibrary
  allowHostnames : List String
  environment : Environment

/-- What `validateAndResolve` returns. -/
structure Resolved where
  url : Url
  addresses : List LookupAddress
  allowPrivate : Bool
  deriving DecidableEq

namespace SafeWebClient

/-- The addresses of a host name: the address that it is, or the answer of the lookup. -/
def resolveHostname (client : SafeWebClient) (lookup : String → Lookup) (hostname : String) :
    Except Thrown (List LookupAddress) :=
  if isIP client.library hostname ≠ 0 then
    .ok [⟨hostname, isIP client.library hostname⟩]
  else
    match lookup hostname with
    | .addresses addresses => .ok addresses
    | .aborted error => .error error
    | .failed error => .error (.searchRuntimeError (classifyNetworkError error false false))

/-- `validateAndResolve` -/
def validateAndResolve (client : SafeWebClient) (lookup : String → Lookup) (url : Url) :
    Except Thrown Resolved := do
  let hostname := checkedHostname url
  if hostname = "localhost" ∨ ".localhost".toList.isSuffixOf hostname.toList ∨
      metadataHostnames.contains hostname then
    throw (blockedTarget "The web target is a blocked local or metadata hostname.")
  let allowPrivate := client.allowHostnames.contains hostname
  let addresses ← client.resolveHostname lookup hostname
  if addresses = [] then
    throw (.searchRuntimeError
      { code := .dns, severity := .error, message := "DNS returned no addresses." })
  if !allowPrivate ∧ addresses.any (fun address =>
      isBlockedWebAddress client.library address.address) then
    throw (blockedTarget ("The web target resolves to a loopback, private, link-local, metadata, " ++
      "or reserved address."))
  match canonicalizeWebUrl client.library url with
  | some canonical => return ⟨canonical, addresses, allowPrivate⟩
  | none =>
    throw (.other { code := .http, severity := .error, message :=
      "The web request failed before a usable response was received." })

/-! ## Requests -/

/-- A request: its URL, the proxy that it is sent to, and the addresses that the lookup of the
connection gives if there is none. -/
structure Request where
  url : Url
  proxy : Option Url
  pinned : List LookupAddress

/-- `resolved.addresses.find((address) => address.family === 4) ?? resolved.addresses[0]!` -/
def pinnedAddress (addresses : List LookupAddress) : String :=
  ((addresses.find? (·.family = 4)).or addresses.head?).elim "" (·.address)

/-- The request of a hop. -/
def requestFor (client : SafeWebClient) (resolved : Resolved) : Request :=
  let proxy := if resolved.allowPrivate then none
    else proxyUrlFor client.library client.environment resolved.url
  { url := if proxy.isSome then
      client.library.setHostname resolved.url (pinnedAddress resolved.addresses) else resolved.url
    proxy := proxy
    pinned := resolved.addresses }

/-- `httpFailure` -/
def httpFailure (statusCode : Nat) (retryAfterMs : Option Nat) : Thrown :=
  if statusCode = 429 then
    .searchRuntimeError
      { code := .rateLimited
        severity := .error
        message := "The web target rate limit was reached."
        statusCode := some statusCode
        retryAfterMs := retryAfterMs }
  else
    .searchRuntimeError
      { code := .http
        severity := .error
        message := "The web target returned HTTP " ++ toString statusCode ++ "."
        statusCode := some statusCode }

/-- A response, as far as it is looked at; the body is read to its end or to an error. -/
structure Response where
  statusCode : Nat
  location : Option String
  retryAfterMs : Option Nat
  contentLength : Option Nat
  contentType : String
  body : Except Thrown (List UInt8)

/-- What happens in one turn of the loop: the lookups, and how the request ends. -/
structure Hop where
  lookup : String → Lookup
  response : Except Thrown Response

/-- `SafeWebResponse` -/
structure SafeWebResponse where
  requestedUrl : Url
  finalUrl : Url
  statusCode : Nat
  contentType : String
  body : List UInt8
  redirects : Nat

/-- The error of a body that is too large. -/
def bodyTooLarge : Thrown :=
  .searchRuntimeError
    { code := .bodyTooLarge
      severity := .error
      message := "The response exceeded the configured byte limit."
      suggestion := some "Increase search.budget.maxFetchBytes only for a trusted target." }

/-- What a response without a redirect leads to. -/
def finish (maxBytes : Nat) (requestedUrl current : Url) (redirects : Nat) (response : Response) :
    Except Thrown SafeWebResponse := do
  if response.statusCode < 200 ∨ 300 ≤ response.statusCode then
    throw (httpFailure response.statusCode response.retryAfterMs)
  if response.contentLength.getD 0 > maxBytes then throw bodyTooLarge
  let body ← response.body
  if body.length > maxBytes then throw bodyTooLarge
  return ⟨requestedUrl, current, response.statusCode, response.contentType, body, redirects⟩

/-- The URL of a redirect. -/
def redirectUrl (client : SafeWebClient) (resolved : Resolved) (location : String) : Option Url :=
  (client.library.resolve location resolved.url).bind (canonicalizeWebUrl client.library)

/-- What one turn of the loop of `fetch` leads to. -/
inductive Turn
  | unresolved (error : Thrown)
  | done (resolved : Resolved) (outcome : Except Thrown SafeWebResponse)
  | redirect (resolved : Resolved) (location : String)

/-- A turn of the loop. -/
def turn (client : SafeWebClient) (maxBytes : Nat) (requestedUrl : Url) (redirects : Nat)
    (current : Url) (hop : Hop) : Turn :=
  match client.validateAndResolve hop.lookup current with
  | .error error => .unresolved error
  | .ok resolved =>
    match hop.response with
    | .error error => .done resolved (.error error)
    | .ok response =>
      if 300 ≤ response.statusCode ∧ response.statusCode < 400 then
        match response.location.filter (· ≠ "") with
        | none => .done resolved (.error (httpFailure response.statusCode none))
        | some location => .redirect resolved location
      else .done resolved (finish maxBytes requestedUrl current redirects response)

/-- The turns of a fetch, by the redirects before and the URL. -/
def turns (client : SafeWebClient) (maxBytes : Nat) (requestedUrl : Url) (hops : Nat → Hop)
    (redirects : Nat) (current : Url) : Turn :=
  client.turn maxBytes requestedUrl redirects current (hops redirects)

/-- The error of a redirect too many. -/
def redirectLimit : Thrown :=
  .searchRuntimeError
    { code := .redirectLimit
      severity := .error
      message := "The web target exceeded the configured redirect limit."
      suggestion := some "Increase search.budget.maxRedirects only for a trusted target." }

/-- The error of a redirect to no URL. -/
def invalidRedirect : Thrown :=
  .searchRuntimeError
    { code := .invalidUrl
      severity := .error
      message := "The web target returned an invalid redirect URL." }

/-- The loop of `fetch` over its turns, after some redirects and with `left` more allowed: the hops
that resolved their address, and how it ends. -/
def loop (redirectTo : Resolved → String → Option Url) (turns : Nat → Url → Turn)
    (left redirects : Nat) (current : Url) : List Resolved × Except Thrown SafeWebResponse :=
  match turns redirects current with
  | .unresolved error => ([], .error error)
  | .done resolved outcome => ([resolved], outcome)
  | .redirect resolved location =>
    match left with
    | 0 => ([resolved], .error redirectLimit)
    | left + 1 =>
      match redirectTo resolved location with
      | none => ([resolved], .error invalidRedirect)
      | some next =>
        let rest := loop redirectTo turns left (redirects + 1) next
        (resolved :: rest.1, rest.2)

/-- `fetch`: the resolved hops, for each of which a request is sent, and how it ends. -/
def fetch (client : SafeWebClient) (input : String) (maxBytes maxRedirects : Nat)
    (hops : Nat → Hop) (cancelled timedOut : Bool) :
    List Resolved × Except SearchDiagnostic SafeWebResponse :=
  match (client.library.parse input).bind (canonicalizeWebUrl client.library) with
  | none =>
    ([], .error
      { code := .invalidUrl
        severity := .error
        message := "web_fetch requires an HTTP or HTTPS URL without credentials." })
  | some requestedUrl =>
    let run := loop client.redirectUrl (client.turns maxBytes requestedUrl hops) maxRedirects 0
      requestedUrl
    (run.1, run.2.mapError fun error => classifyNetworkError error cancelled timedOut)

end SafeWebClient
end BeauPi.Search
