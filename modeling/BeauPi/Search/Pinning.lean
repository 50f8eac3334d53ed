import BeauPi.Search.WebClient
import Mathlib.Tactic.Common

/-!
# Which address a fetch reaches

A request is sent to an address of its hop unless it goes over a proxy: then the host name of its URL
is replaced by an address, and **an IPv6 address does not replace it**.

* `Contacts` — what a request makes a connection to, or a proxy.
* `Resolved.Pinned` — a request reaches checked addresses only.
* `validateAndResolve_ok` — what a resolved hop has passed.
* `pinned_iff` — which requests are pinned.
* `fetch_pinned_iff` — the requests of a fetch.
-/

namespace BeauPi.Search

open List

open SafeWebClient (Request pinnedAddress)

/-! ## What a request contacts -/

/-- What is contacted: an address, or a host name that is resolved again. -/
inductive Contact
  | address (address : String)
  | hostname (hostname : String)
  deriving DecidableEq, Repr

/-- `pinnedLookup`, for a family of addresses or for any. -/
def pinnedLookup (addresses : List LookupAddress) (requestedFamily : Nat) : List LookupAddress :=
  addresses.filter fun address => requestedFamily = 0 || address.family = requestedFamily

/-- The host name of a URL without its brackets. -/
def Url.bareHostname (url : Url) : String :=
  String.ofList (stripBrackets url.hostname.toList)

/-- The IP address that the host of a URL is. -/
def Url.literal (library : UrlLibrary) (url : Url) : Option String :=
  if isIP library url.bareHostname ≠ 0 then some url.bareHostname else none

/-- What a request is connected to, or asks its proxy to connect to: the address that is written in
its URL, and else an address of the lookup, and of a proxy the host name. -/
inductive Contacts (library : UrlLibrary) (request : Request) : Contact → Prop
  | literal (address : String) (literal : request.url.literal library = some address) :
    Contacts library request (.address address)
  | lookup (requestedFamily : Nat) (address : LookupAddress) (direct : request.proxy = none)
    (name : request.url.literal library = none)
    (mem : address ∈ pinnedLookup request.pinned requestedFamily) :
    Contacts library request (.address address.address)
  | proxied (proxy : Url) (viaProxy : request.proxy = some proxy)
    (name : request.url.literal library = none) :
    Contacts library request (.hostname request.url.hostname)

/-- Is the contact an address of the hop that is not blocked? -/
def Resolved.Allows (library : UrlLibrary) (resolved : Resolved) (contact : Contact) : Prop :=
  ∃ address ∈ resolved.addresses,
    contact = .address address.address ∧ isBlockedWebAddress library address.address = false

/-- The request of the hop contacts nothing else than its addresses. -/
def Resolved.Pinned (client : SafeWebClient) (resolved : Resolved) : Prop :=
  ∀ contact, Contacts client.library (client.requestFor resolved) contact →
    resolved.Allows client.library contact

/-- The proxy of a hop without a private host. -/
def SafeWebClient.proxyOf (client : SafeWebClient) (url : Url) : Option Url :=
  proxyUrlFor client.library client.environment url

/-- Does the request name an address: without a proxy, for a URL with an address, or if the address
that is chosen is an IPv4 address? -/
def Resolved.NamesAddress (client : SafeWebClient) (resolved : Resolved) : Prop :=
  client.proxyOf resolved.url = none ∨ resolved.url.literal client.library ≠ none ∨
    isIP client.library (pinnedAddress resolved.addresses) = 4

/-! ## Host names -/

section Hostnames

variable {library : UrlLibrary} {text : String}

theorem isIP_eq_four : isIP library text = 4 ↔ ∃ bits, library.parseAddress text = some (.ipv4 bits) := by
  unfold isIP
  split <;> simp_all

theorem isIP_eq_six : isIP library text = 6 ↔ ∃ bits, library.parseAddress text = some (.ipv6 bits) := by
  unfold isIP
  split <;> simp_all

theorem isIP_cases (h : isIP library text ≠ 0) : isIP library text = 4 ∨ isIP library text = 6 := by
  unfold isIP at h ⊢
  split <;> simp_all

/-- What is not an address is blocked. -/
theorem isIP_of_not_blocked (h : isBlockedWebAddress library text = false) :
    isIP library text ≠ 0 := by
  unfold isBlockedWebAddress at h
  unfold isIP
  split at h <;> simp_all

theorem stripBrackets_of_ipv4 {bits : BitVec 32}
    (h : library.parseAddress text = some (.ipv4 bits)) :
    stripBrackets text.toList = text.toList := by
  have hchars := library.chars_of_ipv4 text bits h
  have hhead : text.toList.head? ≠ some '[' := by
    intro hbracket
    have hmem : '[' ∈ text.toList := mem_of_head? hbracket
    rcases hchars '[' hmem with hdigit | hdot
    · exact absurd hdigit (by decide)
    · exact absurd hdot (by decide)
  have hlast : text.toList.getLast? ≠ some ']' := by
    intro hbracket
    have hmem : ']' ∈ text.toList := mem_of_getLast? hbracket
    rcases hchars ']' hmem with hdigit | hdot
    · exact absurd hdigit (by decide)
    · exact absurd hdot (by decide)
  simp [stripBrackets, hhead, hlast]

theorem mem_of_mem_stripBrackets {c : Char} {hostname : List Char}
    (h : c ∈ stripBrackets hostname) : c ∈ hostname := by
  have hlast : ∀ rest : List Char,
      c ∈ (if rest.getLast? = some ']' then rest.dropLast else rest) → c ∈ rest := by
    intro rest hmem
    split at hmem
    · exact dropLast_subset rest hmem
    · exact hmem
  simp only [stripBrackets] at h
  split at h
  · exact mem_of_mem_drop (hlast _ h)
  · exact hlast _ h

end Hostnames

/-! ## Resolved hops -/

section Hops

variable {client : SafeWebClient} {lookup : String → Lookup} {url : Url} {resolved : Resolved}

variable {library : UrlLibrary}

/-- `canonicalizeWebUrl` keeps the host name, and leaves HTTP URLs only. -/
theorem canonicalizeWebUrl_hostname {canonical : Url}
    (h : canonicalizeWebUrl library url = some canonical) :
    canonical.hostname = url.hostname ∧
      (canonical.protocol = "http:" ∨ canonical.protocol = "https:") := by
  unfold canonicalizeWebUrl at h
  split at h
  · cases h
  next hprotocol =>
    have hspecial : url.protocol = "http:" ∨ url.protocol = "https:" := by
      by_contra hother
      exact hprotocol ⟨fun heq => hother (.inl heq), fun heq => hother (.inr heq)⟩
    split at h
    · cases h
    · have hlower : lowerCase url.hostname = url.hostname := (url.special hspecial).1
      have hsame : library.setHostname url (lowerCase url.hostname) = url := by
        rw [hlower]
        exact library.setHostname_self url
      cases h
      simp only [hsame]
      exact ⟨trivial, hspecial⟩

variable (hallow : client.allowHostnames = [])
  (h : client.validateAndResolve lookup url = .ok resolved)

include hallow h in
/-- What a resolved hop has passed, if no host is private. -/
theorem validateAndResolve_ok :
    client.resolveHostname lookup (checkedHostname url) = .ok resolved.addresses ∧
      resolved.addresses ≠ [] ∧
      (∀ address ∈ resolved.addresses,
        isBlockedWebAddress client.library address.address = false) ∧
      resolved.allowPrivate = false ∧
      canonicalizeWebUrl client.library url = some resolved.url := by
  unfold SafeWebClient.validateAndResolve at h
  simp only [bind, Except.bind, hallow, contains_nil, throw, throwThe, MonadExceptOf.throw,
    pure, Except.pure] at h
  split at h
  · cases h
  · split at h
    · cases h
    next addresses hresolve =>
      split at h
      · cases h
      next hsome =>
        split at h
        · cases h
        next hblocked =>
          split at h
          next canonical hcanonical =>
            cases h
            refine ⟨hresolve, hsome, ?_, rfl, hcanonical⟩
            intro address hmem
            by_contra hbad
            refine hblocked ⟨rfl, any_eq_true.mpr ⟨address, hmem, ?_⟩⟩
            simpa using hbad
          · cases h

theorem checkedHostname_congr {url' : Url} (h : url'.hostname = url.hostname) :
    checkedHostname url' = checkedHostname url := by
  simp only [checkedHostname, h]

variable {address : String}

/-- An address that a URL is written with is the host name that is checked. -/
theorem literal_eq_checkedHostname (hprotocol : url.protocol = "http:" ∨ url.protocol = "https:")
    (h : url.literal library = some address) :
    address = checkedHostname url ∧ isIP library address ≠ 0 := by
  unfold Url.literal at h
  split at h
  next hip =>
    cases h
    have ⟨hlower, hzone⟩ := url.special hprotocol
    have hlast : (stripBrackets url.hostname.toList).getLast? ≠ some '.' := by
      rcases isIP_cases hip with hfour | hsix
      · obtain ⟨bits, hparse⟩ := isIP_eq_four.mp hfour
        have := library.last_of_address url.bareHostname _ hparse
        simp only [Url.bareHostname, String.toList_ofList] at this
        exact this fun hmem => hzone (mem_of_mem_stripBrackets hmem)
      · obtain ⟨bits, hparse⟩ := isIP_eq_six.mp hsix
        have := library.last_of_address url.bareHostname _ hparse
        simp only [Url.bareHostname, String.toList_ofList] at this
        exact this fun hmem => hzone (mem_of_mem_stripBrackets hmem)
    refine ⟨?_, hip⟩
    simp [checkedHostname, hlower, hlast, Url.bareHostname]
  · cases h

include hallow h in
/-- Of a URL with an address, that is the address of the hop. -/
theorem addresses_of_literal
    (hliteral : resolved.url.literal client.library = some address) :
    ∃ entry ∈ resolved.addresses, entry.address = address := by
  obtain ⟨hresolve, -, -, -, hcanonical⟩ := validateAndResolve_ok hallow h
  obtain ⟨hhostname, hprotocol⟩ := canonicalizeWebUrl_hostname hcanonical
  obtain ⟨haddress, hip⟩ := literal_eq_checkedHostname hprotocol hliteral
  rw [checkedHostname_congr hhostname] at haddress
  rw [← haddress, SafeWebClient.resolveHostname, if_pos hip] at hresolve
  rw [← Except.ok.inj hresolve]
  exact ⟨_, mem_singleton_self _, rfl⟩

/-- The chosen address is one of the hop. -/
theorem pinnedAddress_mem {addresses : List LookupAddress} (h : addresses ≠ []) :
    ∃ address ∈ addresses, address.address = pinnedAddress addresses := by
  unfold pinnedAddress
  cases hfind : addresses.find? (·.family = 4) with
  | some address =>
    exact ⟨address, mem_of_find?_eq_some hfind, rfl⟩
  | none =>
    cases addresses with
    | nil => exact absurd rfl h
    | cons address rest => exact ⟨address, mem_cons_self, rfl⟩

include hallow h in
/-- An address of the hop is allowed. -/
theorem allows_of_mem {address : LookupAddress}
    (hmem : address ∈ resolved.addresses) :
    resolved.Allows client.library (.address address.address) :=
  ⟨address, hmem, rfl, (validateAndResolve_ok hallow h).2.2.1 address hmem⟩

/-! ## Requests -/

/-- Without a proxy, the request is for the URL of the hop. -/
theorem requestFor_direct (hprivate : resolved.allowPrivate = false)
    (hproxy : client.proxyOf resolved.url = none) :
    client.requestFor resolved = ⟨resolved.url, none, resolved.addresses⟩ := by
  unfold SafeWebClient.proxyOf at hproxy
  simp [SafeWebClient.requestFor, hprivate, hproxy]

/-- With a proxy, its host name is set to the chosen address. -/
theorem requestFor_proxied (hprivate : resolved.allowPrivate = false) {proxy : Url}
    (hproxy : client.proxyOf resolved.url = some proxy) :
    client.requestFor resolved =
      ⟨client.library.setHostname resolved.url (pinnedAddress resolved.addresses), some proxy,
        resolved.addresses⟩ := by
  unfold SafeWebClient.proxyOf at hproxy
  simp [SafeWebClient.requestFor, hprivate, hproxy]

/-- A URL whose host name is set to an IPv4 address is written with it. -/
theorem literal_setHostname_ipv4 (h : isIP library address = 4) :
    (library.setHostname url address).literal library = some address := by
  obtain ⟨bits, hparse⟩ := isIP_eq_four.mp h
  have hbare : (library.setHostname url address).bareHostname = address := by
    rw [Url.bareHostname, library.setHostname_ipv4 url address bits hparse,
      stripBrackets_of_ipv4 hparse, String.ofList_toList]
  simp [Url.literal, hbare, h]

/-- An IPv6 address is not set. -/
theorem setHostname_ipv6 (h : isIP library address = 6) :
    library.setHostname url address = url := by
  obtain ⟨bits, hparse⟩ := isIP_eq_six.mp h
  obtain ⟨hcolon, hbracket⟩ := library.colon_of_ipv6 address bits hparse
  exact library.setHostname_colon url address hcolon hbracket

include hallow h in
/-- A request for a URL with an address is pinned. -/
theorem allows_of_literal {request : Request}
    {contact : Contact} (hcontact : Contacts client.library request contact)
    (hliteral : request.url.literal client.library = some address)
    (hmem : ∃ entry ∈ resolved.addresses, entry.address = address) :
    resolved.Allows client.library contact := by
  cases hcontact with
  | literal written hwritten =>
    rw [hliteral] at hwritten
    cases hwritten
    obtain ⟨entry, hentry, rfl⟩ := hmem
    exact allows_of_mem hallow h hentry
  | lookup requestedFamily entry hdirect hname | proxied proxy hproxy hname =>
    rw [hliteral] at hname
    cases hname

include hallow h in
/-- The request of a hop is pinned exactly if it names an address. -/
theorem pinned_iff :
    resolved.Pinned client ↔ resolved.NamesAddress client := by
  obtain ⟨-, hsome, hchecked, hprivate, -⟩ := validateAndResolve_ok hallow h
  obtain ⟨entry, hentry, hpinned⟩ := pinnedAddress_mem hsome
  have hip : isIP client.library (pinnedAddress resolved.addresses) ≠ 0 := by
    rw [← hpinned]
    exact isIP_of_not_blocked (hchecked entry hentry)
  cases hproxy : client.proxyOf resolved.url with
  | none =>
    refine iff_of_true ?_ (.inl hproxy)
    intro contact hcontact
    rw [requestFor_direct hprivate hproxy] at hcontact
    cases hliteral : resolved.url.literal client.library with
    | some address =>
      exact allows_of_literal hallow h hcontact hliteral
        (addresses_of_literal hallow h hliteral)
    | none =>
      cases hcontact with
      | literal written hwritten =>
        rw [hliteral] at hwritten
        cases hwritten
      | lookup requestedFamily address hdirect hname hmem =>
        exact allows_of_mem hallow h (mem_of_mem_filter hmem)
      | proxied proxy hvia hname => cases hvia
  | some proxy =>
    rcases isIP_cases hip with hfour | hsix
    · refine iff_of_true ?_ (.inr (.inr hfour))
      intro contact hcontact
      rw [requestFor_proxied hprivate hproxy] at hcontact
      exact allows_of_literal hallow h hcontact (literal_setHostname_ipv4 hfour)
        ⟨entry, hentry, hpinned⟩
    · -- the host name stays, so the proxy is asked for what the URL is written with
      have hrequest : client.requestFor resolved =
          ⟨resolved.url, some proxy, resolved.addresses⟩ := by
        rw [requestFor_proxied hprivate hproxy, setHostname_ipv6 hsix]
      cases hliteral : resolved.url.literal client.library with
      | some address =>
        refine iff_of_true ?_ (.inr (.inl (by simp [hliteral])))
        intro contact hcontact
        rw [hrequest] at hcontact
        exact allows_of_literal hallow h hcontact hliteral
          (addresses_of_literal hallow h hliteral)
      | none =>
        refine iff_of_false ?_ ?_
        · intro hall
          obtain ⟨address, -, hcontact, -⟩ := hall (.hostname resolved.url.hostname) (by
            rw [hrequest]
            exact .proxied proxy rfl hliteral)
          cases hcontact
        · rintro (hnone | hnamed | hipv4)
          · rw [hproxy] at hnone
            cases hnone
          · exact hnamed hliteral
          · omega

end Hops

/-! ## The requests of a fetch -/

namespace SafeWebClient

/-- The hop for which a turn sends its request. -/
def Turn.resolved? : Turn → Option Resolved
  | .unresolved _ => none
  | .done resolved _ => some resolved
  | .redirect resolved _ => some resolved

/-- A turn sends its request to the addresses that it has checked. -/
theorem turn_resolved {client : SafeWebClient} {maxBytes redirects : Nat}
    {requestedUrl current : Url} {hop : Hop} {resolved : Resolved}
    (h : (client.turn maxBytes requestedUrl redirects current hop).resolved? = some resolved) :
    client.validateAndResolve hop.lookup current = .ok resolved := by
  unfold turn at h
  cases hresolve : client.validateAndResolve hop.lookup current with
  | error error => simp [hresolve, Turn.resolved?] at h
  | ok checked =>
    suffices some checked = some resolved by rw [Option.some.inj this]
    simp only [hresolve] at h
    cases hresponse : hop.response with
    | error error =>
      rw [hresponse] at h
      exact h
    | ok response =>
      simp only [hresponse] at h
      by_cases hredirect : 300 ≤ response.statusCode ∧ response.statusCode < 400
      · rw [if_pos hredirect] at h
        cases hlocation : response.location.filter (· ≠ "") with
        | none | some =>
          rw [hlocation] at h
          exact h
      · rw [if_neg hredirect] at h
        exact h

theorem getElem?_single {resolved : Resolved} {redirects : Nat}
    {turns : Nat → Url → Turn} (h : ∃ url, (turns redirects url).resolved? = some resolved) :
    ∀ i other, [resolved][i]? = some other →
      ∃ url, (turns (redirects + i) url).resolved? = some other := by
  intro i other hget
  cases i with
  | zero =>
    cases hget
    exact h
  | succ i => simp at hget

/-- Each request of the loop is one of its turns. -/
theorem loop_requests (redirectTo : Resolved → String → Option Url) (turns : Nat → Url → Turn)
    (left redirects : Nat) (current : Url) :
    (loop redirectTo turns left redirects current).1.length ≤ left + 1 ∧
      ∀ i resolved, (loop redirectTo turns left redirects current).1[i]? = some resolved →
        ∃ url, (turns (redirects + i) url).resolved? = some resolved := by
  fun_induction loop redirectTo turns left redirects current with
  | case1 left redirects current error hturn => simp
  | case2 left redirects current resolved outcome hturn
  | case3 redirects current resolved location hturn
  | case4 redirects current resolved location hturn =>
    refine ⟨by simp, getElem?_single ⟨current, ?_⟩⟩
    rw [hturn]
    rfl
  | case5 redirects current resolved location hturn left next hurl rest ih =>
    refine ⟨by simpa using ih.1, ?_⟩
    intro i other hget
    cases i with
    | zero =>
      cases hget
      refine ⟨current, ?_⟩
      rw [Nat.add_zero, hturn]
      rfl
    | succ i =>
      have hrest := ih.2 i other (by simpa using hget)
      rwa [Nat.add_right_comm] at hrest

/-- The requests of a fetch are those of its loop. -/
theorem fetch_requests (client : SafeWebClient) (input : String) (maxBytes maxRedirects : Nat)
    (hops : Nat → Hop) (cancelled timedOut : Bool) :
    (client.fetch input maxBytes maxRedirects hops cancelled timedOut).1 = [] ∨
      ∃ requestedUrl, (client.fetch input maxBytes maxRedirects hops cancelled timedOut).1 =
        (loop client.redirectUrl (client.turns maxBytes requestedUrl hops) maxRedirects 0
          requestedUrl).1 := by
  rw [fetch]
  cases (client.library.parse input).bind (canonicalizeWebUrl client.library) with
  | none => exact .inl rfl
  | some requestedUrl => exact .inr ⟨requestedUrl, by simp only⟩

/-- A fetch sends at most `maxRedirects + 1` requests, each for addresses that its hop has checked,
and **contacts nothing else exactly if each of them names an address**. -/
theorem fetch_pinned_iff (client : SafeWebClient) (hallow : client.allowHostnames = [])
    (input : String) (maxBytes maxRedirects : Nat) (hops : Nat → Hop) (cancelled timedOut : Bool) :
    (client.fetch input maxBytes maxRedirects hops cancelled timedOut).1.length ≤
        maxRedirects + 1 ∧
      ∀ i resolved,
        (client.fetch input maxBytes maxRedirects hops cancelled timedOut).1[i]? = some resolved →
        (∃ url, client.validateAndResolve (hops i).lookup url = .ok resolved) ∧
          (resolved.Pinned client ↔ resolved.NamesAddress client) := by
  rcases client.fetch_requests input maxBytes maxRedirects hops cancelled timedOut with
    hnone | ⟨requestedUrl, hloop⟩
  · rw [hnone]
    simp
  · rw [hloop]
    obtain ⟨hlength, hturns⟩ := loop_requests client.redirectUrl
      (client.turns maxBytes requestedUrl hops) maxRedirects 0 requestedUrl
    refine ⟨hlength, fun i resolved hget => ?_⟩
    obtain ⟨url, hurl⟩ := hturns i resolved hget
    rw [Nat.zero_add, turns] at hurl
    have hresolved := turn_resolved hurl
    exact ⟨⟨url, hresolved⟩, pinned_iff hallow hresolved⟩

end SafeWebClient

/-! ## A proxy and two hosts -/

/-- The URL `http://<hostname>/`. -/
def plainUrl (hostname port : String)
    (special : lowerCase hostname = hostname ∧ '%' ∉ hostname.toList) : Url :=
  ⟨"http:", "", "", hostname, port, "/", "", "", fun _ => special⟩

/-- URLs of two hosts and a proxy, and an address of each family. -/
def twoHosts : UrlLibrary where
  parse text :=
    if text = "http://four.example/" then some (plainUrl "four.example" "" (by decide))
    else if text = "http://six.example/" then some (plainUrl "six.example" "" (by decide))
    else if text = "http://proxy.example:8080/" then
      some (plainUrl "proxy.example" "8080" (by decide))
    else none
  resolve _ _ := none
  setHostname url text :=
    if text = "1.1.1.1" then
      { url with hostname := "1.1.1.1", special := fun _ => by decide }
    else url
  parseAddress text :=
    if text = "1.1.1.1" then some (.ipv4 (ipv4 1 1 1 1))
    else if text = "2606:4700::1111" then
      some (.ipv6 (ipv6 0x2606 0x4700 0 0 + 0x1111))
    else none
  canonicalPathname pathname := pathname
  canonicalSearch search := search
  setHostname_self := by
    intro url
    split
    next hfour =>
      cases url
      simp only at hfour
      subst hfour
      rfl
    · rfl
  setHostname_ipv4 := by
    intro url text bits h
    split at h
    next hfour =>
      rw [if_pos hfour]
      exact hfour.symm
    · split at h
      · cases h
      · cases h
  setHostname_colon := by
    intro url text hcolon hbracket
    split
    next hfour =>
      subst hfour
      exact absurd hcolon (by decide)
    · rfl
  chars_of_ipv4 := by
    intro text bits h
    split at h
    next hfour =>
      subst hfour
      intro c hc
      have hcases : c = '1' ∨ c = '.' := by
        simp only [String.reduceToList, mem_cons, not_mem_nil, or_false] at hc
        tauto
      rcases hcases with rfl | rfl
      · exact .inl (by decide)
      · exact .inr rfl
    · split at h
      · cases h
      · cases h
  colon_of_ipv6 := by
    intro text bits h
    split at h
    · cases h
    · split at h
      next hsix =>
        subst hsix
        decide
      · cases h
  last_of_address := by
    intro text address h hzone
    split at h
    next hfour =>
      subst hfour
      decide
    · split at h
      next hsix =>
        subst hsix
        decide
      · cases h

/-- A client with a proxy for HTTP. -/
def proxiedClient : SafeWebClient where
  library := twoHosts
  allowHostnames := []
  environment name := if name = "HTTP_PROXY" then some "http://proxy.example:8080/" else none

/-- A page that is read at once, from the host that the lookup knows by an address of its family. -/
def pageHop : SafeWebClient.Hop where
  lookup hostname := .addresses
    [if hostname = "four.example" then ⟨"1.1.1.1", 4⟩ else ⟨"2606:4700::1111", 6⟩]
  response := .ok
    { statusCode := 200
      location := none
      retryAfterMs := none
      contentLength := none
      contentType := "text/plain"
      body := .ok [] }

/-- The hop of the host with an IPv4 address. -/
def fourResolved : Resolved :=
  ⟨plainUrl "four.example" "" (by decide), [⟨"1.1.1.1", 4⟩], false⟩

/-- The hop of the host with an IPv6 address. -/
def sixResolved : Resolved :=
  ⟨plainUrl "six.example" "" (by decide), [⟨"2606:4700::1111", 6⟩], false⟩

theorem fetch_pinned_iff_ipv4 :
    (proxiedClient.fetch "http://four.example/" 1000 5 (fun _ => pageHop) false false).1[0]? =
        some fourResolved ∧ fourResolved.Pinned proxiedClient := by
  have hget : (proxiedClient.fetch "http://four.example/" 1000 5 (fun _ => pageHop) false
      false).1[0]? = some fourResolved := by decide
  have hnames : fourResolved.NamesAddress proxiedClient := .inr (.inr (by decide))
  exact ⟨hget, ((SafeWebClient.fetch_pinned_iff proxiedClient rfl "http://four.example/" 1000 5
    (fun _ => pageHop) false false).2 0 fourResolved hget).2.mpr hnames⟩

/-- A proxy is asked for the name of a host that has IPv6 addresses only. -/
theorem ipv6Host_not_pinned :
    ¬∀ (client : SafeWebClient), client.allowHostnames = [] →
      ∀ (input : String) (maxBytes maxRedirects : Nat) (hops : Nat → SafeWebClient.Hop)
        (cancelled timedOut : Bool),
        (client.fetch input maxBytes maxRedirects hops cancelled timedOut).1.length ≤
            maxRedirects + 1 ∧
          ∀ resolved ∈ (client.fetch input maxBytes maxRedirects hops cancelled timedOut).1,
            resolved.Pinned client := by
  intro h
  have hmem : sixResolved ∈ (proxiedClient.fetch "http://six.example/" 1000 5 (fun _ => pageHop)
      false false).1 := by decide
  have hpinned := (h proxiedClient rfl "http://six.example/" 1000 5 (fun _ => pageHop) false
    false).2 sixResolved hmem
  have hcontact : Contacts proxiedClient.library (proxiedClient.requestFor sixResolved)
      (.hostname (proxiedClient.requestFor sixResolved).url.hostname) :=
    .proxied (plainUrl "proxy.example" "8080" (by decide)) (by decide) (by decide)
  obtain ⟨address, hmem', heq, hblocked⟩ := hpinned _ hcontact
  cases heq

end BeauPi.Search
