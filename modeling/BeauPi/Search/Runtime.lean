import BeauPi.Search.Budget
import BeauPi.Search.Diagnostics
import BeauPi.Search.Truncation
import Mathlib.Algebra.Order.Floor.Defs
import Mathlib.Data.Rat.Floor

/-!
# The search runtime

`SearchRuntime`: searches and fetches that share a budget, a cache and the requests in flight.
Every call goes from one `await` to the next.

* `Call`, `Phase`, `Calls` — a call, what it waits for, and the calls with the table of requests.
* `fitSearchResults` — the results that fit the characters that remain.
* `SearchRuntime.search`, `SearchRuntime.fetch` — the first part of a call.
* `SearchRuntime.step` — one part of a call, or something that happens to it.
-/

namespace BeauPi.Search

open Machine

/-! ## Diagnostics -/

/-- `labels` -/
def BudgetKind.label : BudgetKind → String
  | .results => "per-search result"
  | .queries => "per-task query"
  | .fetches => "per-task fetch"
  | .providerAttempts => "provider attempt"
  | .inputCharacters => "total input character"

/-- The setting of a limit. -/
def BudgetKind.setting : BudgetKind → String
  | .results => "maxResultsPerSearch"
  | .queries => "maxQueriesPerTask"
  | .fetches => "maxFetchesPerTask"
  | .providerAttempts => "maxProviderAttemptsPerTask"
  | .inputCharacters => "maxInputCharactersPerTask"

/-- `budgetDiagnostic` -/
def budgetDiagnostic (kind : BudgetKind) (severity : SearchDiagnosticSeverity) :
    SearchDiagnostic where
  code := .budgetExhausted
  severity := severity
  message := "The M8 " ++ kind.label ++
    " budget was exhausted; no equivalent network fallback was attempted."
  suggestion := some ("Adjust search.budget." ++ kind.setting ++
    " only if the task requires a larger trusted budget.")

/-- `corruptCacheDiagnostic` -/
def corruptCacheDiagnostic : SearchDiagnostic where
  code := .cacheCorrupt
  severity := .warning
  message := "A damaged search cache entry was discarded and will be rebuilt."

/-- The diagnostic of a cache file that cannot be read. -/
def cacheReadFailedDiagnostic : SearchDiagnostic where
  code := .cacheReadFailed
  severity := .warning
  message := "Search cache could not be read; the network result will be rebuilt safely."

/-! ## Values -/

/-- `ResolvedSearchConfig`; the time to live of a cached entry is zero without a cache. -/
structure ResolvedSearchConfig where
  enabled : Bool
  endpoint : Option String
  maxResults : Nat
  apiKey : Option String
  apiKeyRequired : Bool
  queryTtlMs : Nat
  fetchTtlMs : Nat
  budget : SearchBudgetLimits
  deriving DecidableEq, Repr

/-- `SearchResult` -/
structure SearchResult where
  title : Text
  canonicalUrl : Text
  snippet : Text
  deriving DecidableEq, Repr

/-- `CachedSearchValue` -/
structure CachedSearchValue where
  query : String
  results : List SearchResult
  deriving DecidableEq, Repr

/-- `CachedFetchValue` -/
structure CachedFetchValue where
  finalUrl : String
  title : String
  contentType : String
  content : Text
  summary : String
  redirects : Nat
  deriving DecidableEq, Repr

/-- `SearchCacheEntry` -/
structure SearchCacheEntry (α : Type) where
  contentHash : String
  value : α
  deriving DecidableEq, Repr

/-- What `SearchCache.read` finds; `malformed` is an entry whose value has another shape. -/
inductive CacheRead (α : Type)
  | missing
  | expired
  | readFailed
  | corrupt
  | malformed
  | entry (entry : SearchCacheEntry α)

/-- The diagnostics of a read. -/
def CacheRead.diagnostics {α : Type} : CacheRead α → List SearchDiagnostic
  | .readFailed => [cacheReadFailedDiagnostic]
  | .corrupt => [corruptCacheDiagnostic]
  | _ => []

/-- `SearchCacheStatus` -/
inductive SearchCacheStatus
  | hit
  | miss
  | deduplicated
  | disabled
  deriving DecidableEq, Repr

/-- The status of a call that has not found an entry. -/
def cacheStatusFor (ttlMs : Nat) : SearchCacheStatus := if ttlMs = 0 then .disabled else .miss

/-- `SearchRuntimeSearchInput` -/
structure SearchInput where
  query : String
  maxResults : Option ℚ
  includeDomains : List String
  excludeDomains : List String
  deriving DecidableEq, Repr

/-- `SearchExecutionResult` -/
structure SearchExecutionResult where
  ok : Bool
  query : String
  normalizedQuery : String
  results : List SearchResult
  provider : Option String
  cacheStatus : SearchCacheStatus
  diagnostics : List SearchDiagnostic
  budget : SearchBudgetSnapshot
  deriving DecidableEq, Repr

/-- `FetchExecutionResult` -/
structure FetchExecutionResult where
  ok : Bool
  requestedUrl : String
  value : Option CachedFetchValue
  content : Option Text
  contentHash : Option String
  fullOutput : Option (String × Tools.TruncationResult UInt16)
  cacheStatus : SearchCacheStatus
  diagnostics : List SearchDiagnostic
  budget : SearchBudgetSnapshot
  duplicateContent : Bool
  redirects : Nat
  deriving DecidableEq, Repr

/-- What the runtime is given: the functions that need the URL and Unicode tables of the host, and
the id of `injectedProvider`. -/
structure Host where
  normalizeSearchQuery : String → String
  canonicalSearchQuery : String → String
  normalizeDomains : List String → List String
  normalizeAndRankResults :
    List SearchResult → String → List String → List String → List SearchResult
  canonicalizeWebUrl : String → Option String
  injectedProvider : Option String

/-! ## Calls -/

/-- How the promise of a request was settled. -/
inductive Settled (α : Type)
  | ok (entry : SearchCacheEntry α) (diagnostics : List SearchDiagnostic)
  | error (error : Thrown)
  deriving DecidableEq, Repr

/-- What a call waits for, and how it ended. -/
inductive Phase (α ω ρ : Type)
  | readingCache (key : String)
  | removing (key : String) (diagnostics : List SearchDiagnostic)
  | joined (key : String) (owner : Nat) (diagnostics : List SearchDiagnostic)
  | owning (key : String) (diagnostics : List SearchDiagnostic)
  | writing (output : ω)
  | returned (result : ρ)
  | rejected (error : Thrown)
  deriving DecidableEq, Repr

/-- `SearchRuntimeCallContext`; `aborted` is the state of the signal. -/
structure CallContext where
  budgetScopeId : String
  withSessionEntries : Bool
  aborted : Bool
  config : ResolvedSearchConfig
  deriving DecidableEq, Repr

/-- A call, with the outcome of the request that it owns. -/
structure Call (ι α ω ρ : Type) where
  input : ι
  context : CallContext
  phase : Phase α ω ρ
  settled : Option (Settled α)

/-- The calls of one kind and the table of their requests, which names the owner of each. -/
structure Calls (ι α ω ρ : Type) where
  calls : List (Call ι α ω ρ)
  pending : OrderedMap String Nat

namespace Calls

variable {ι α ω ρ : Type}

/-- A new call. -/
def add (c : Calls ι α ω ρ) (input : ι) (context : CallContext) (phase : Phase α ω ρ) :
    Calls ι α ω ρ :=
  { c with calls := c.calls ++ [⟨input, context, phase, none⟩] }

/-- A call goes on. -/
def setPhase (c : Calls ι α ω ρ) (i : Nat) (phase : Phase α ω ρ) : Calls ι α ω ρ :=
  { c with calls := c.calls.modify i fun call => { call with phase := phase } }

/-- A call starts a request. -/
def begin (c : Calls ι α ω ρ) (i : Nat) (key : String) (diagnostics : List SearchDiagnostic) :
    Calls ι α ω ρ :=
  { c.setPhase i (.owning key diagnostics) with pending := c.pending.set key i }

/-- A call ends its request. -/
def delete (c : Calls ι α ω ρ) (key : String) : Calls ι α ω ρ :=
  { c with pending := c.pending.delete key }

/-- The signal of a call is aborted. -/
def abort (c : Calls ι α ω ρ) (i : Nat) : Calls ι α ω ρ :=
  { c with calls := c.calls.modify i fun call =>
      { call with context := { call.context with aborted := true } } }

/-- The promise of a request is settled. -/
def settle (c : Calls ι α ω ρ) (i : Nat) (outcome : Settled α) : Calls ι α ω ρ :=
  { c with calls := c.calls.modify i fun call => { call with settled := some outcome } }

/-- How the request that a call waits for was settled. -/
def outcome (c : Calls ι α ω ρ) (owner : Nat) : Option (Settled α) :=
  (c.calls[owner]?).bind (·.settled)

end Calls

/-- A fetch that writes its full content to a file. -/
structure FullOutput where
  requestedUrl : String
  entry : SearchCacheEntry CachedFetchValue
  cacheStatus : SearchCacheStatus
  diagnostics : List SearchDiagnostic
  duplicateContent : Bool
  remaining : Nat
  truncation : Tools.TruncationResult UInt16
  deriving DecidableEq, Repr

/-- What was let through and what was handed back, by scope. -/
inductive LedgerEntry
  | query (scopeId : String)
  | fetch (scopeId : String)
  | providerAttempt (scopeId : String)
  | results (scopeId : String) (results : List SearchResult)
  | content (scopeId contentHash : String) (content : Text)
  deriving DecidableEq, Repr

/-- `SearchRuntime`, with the session branch of each scope and a ledger of what was given. -/
structure SearchRuntime where
  budget : SearchBudgetManager
  searches : Calls SearchInput CachedSearchValue Empty SearchExecutionResult
  fetches : Calls String CachedFetchValue FullOutput FetchExecutionResult
  branches : String → List SessionEntry
  ledger : List LedgerEntry

/-! ## Results that fit -/

/-- `resultCharacterCost` -/
def resultCharacterCost (result : SearchResult) : Nat :=
  result.title.length + result.canonicalUrl.length + result.snippet.length + 32

/-- The code unit of `…`. -/
def ellipsis : UInt16 := 0x2026

/-- The loop of `fitSearchResults`: the results that fit, the characters they take, and whether some
were left out. -/
def fitFrom (remaining characters : Nat) : List SearchResult → List SearchResult × Nat × Bool
  | [] => ([], characters, false)
  | result :: results =>
    let fullCost := resultCharacterCost result
    if characters + fullCost ≤ remaining then
      let (output, total, truncated) := fitFrom remaining (characters + fullCost) results
      (result :: output, total, truncated)
    else
      let fixedCost := result.title.length + result.canonicalUrl.length + 32
      let snippetBudget := remaining - characters - fixedCost
      if snippetBudget > 0 then
        let snippet :=
          if result.snippet.length > snippetBudget then
            result.snippet.take (snippetBudget - 1) ++ [ellipsis]
          else result.snippet
        let fitted := { result with snippet := snippet }
        ([fitted], characters + resultCharacterCost fitted, true)
      else ([], characters, true)

/-- `fitSearchResults` -/
def fitSearchResults (results : List SearchResult) (remaining : Nat) :
    List SearchResult × Nat × Bool :=
  let (output, characters, truncated) := fitFrom remaining 0 results
  (output, min characters remaining, truncated)

namespace SearchRuntime

/-- `budget.synchronize` with the branch of the scope. -/
def synchronizeBudget (s : SearchRuntime) (scopeId : String) : SearchRuntime :=
  { s with budget := s.budget.synchronize scopeId (s.branches scopeId) }

/-- `if (context.sessionEntries) this.budget.synchronize(...)` -/
def synchronizeContext (s : SearchRuntime) (context : CallContext) : SearchRuntime :=
  if context.withSessionEntries then s.synchronizeBudget context.budgetScopeId else s

/-! ## Searches -/

/-- `this.injectedProvider ?? new SearXNGProvider(config.searxng)`, by its id. -/
def providerId (host : Host) : String := host.injectedProvider.getD "searxng"

/-- `requestedResults` -/
def requestedResults (input : SearchInput) (config : ResolvedSearchConfig) : Nat :=
  let wanted := input.maxResults.getD (min config.maxResults config.budget.maxResultsPerSearch : ℕ)
  (max 1 ⌊wanted⌋).toNat

/-- `providerCandidateLimit` -/
def providerCandidateLimit (host : Host) (input : SearchInput) (config : ResolvedSearchConfig) :
    Nat :=
  if host.normalizeDomains input.includeDomains ≠ [] ∨
      host.normalizeDomains input.excludeDomains ≠ [] then 50
  else min config.maxResults config.budget.maxResultsPerSearch

/-- `queryCacheKey` -/
def queryCacheKey (host : Host) (input : SearchInput) (config : ResolvedSearchConfig) : String :=
  Llm.join "\x00" [providerId host,
    host.canonicalSearchQuery (host.normalizeSearchQuery input.query),
    toString (providerCandidateLimit host input config),
    Llm.join "," (host.normalizeDomains input.includeDomains)]

/-- `failure` -/
def searchFailure (s : SearchRuntime) (host : Host) (input : SearchInput) (context : CallContext)
    (diagnostics : List SearchDiagnostic) (exhausted : Option BudgetKind)
    (provider : Option String) : SearchExecutionResult where
  ok := false
  query := input.query
  normalizedQuery := host.normalizeSearchQuery input.query
  results := []
  provider := provider
  cacheStatus := cacheStatusFor context.config.queryTtlMs
  diagnostics := diagnostics
  budget := s.budget.snapshot context.budgetScopeId context.config.budget exhausted

/-- The end of `search`, from the broad results on. -/
def finishSearch (s : SearchRuntime) (host : Host) (i : Nat) (input : SearchInput)
    (context : CallContext) (entry : SearchCacheEntry CachedSearchValue)
    (cacheStatus : SearchCacheStatus) (cacheDiagnostics : List SearchDiagnostic) : SearchRuntime :=
  let broadResults := entry.value.results
  let filtered := (host.normalizeAndRankResults broadResults
    (host.normalizeSearchQuery input.query) (host.normalizeDomains input.includeDomains)
    (host.normalizeDomains input.excludeDomains)).take (requestedResults input context.config)
  let scopeId := context.budgetScopeId
  let limits := context.config.budget
  let (results, characters, truncated) :=
    fitSearchResults filtered (s.budget.remainingCharacters scopeId limits)
  let budget := s.budget.consumeCharacters scopeId limits characters
  let diagnostics := cacheDiagnostics ++
    if truncated then
      [budgetDiagnostic .inputCharacters (if results ≠ [] then .warning else .error)]
    else []
  let result : SearchExecutionResult :=
    { ok := results ≠ [] || broadResults = []
      query := input.query
      normalizedQuery := host.normalizeSearchQuery input.query
      results := results
      provider := some (providerId host)
      cacheStatus := cacheStatus
      diagnostics := diagnostics
      budget := budget.snapshot scopeId limits (if truncated then some .inputCharacters else none) }
  { s with
    budget := budget
    searches := s.searches.setPhase i (.returned result)
    ledger := s.ledger ++ [.results scopeId results] }

/-- `search` without a cached entry: it joins a pending request or starts one. -/
def requestSearch (s : SearchRuntime) (host : Host) (i : Nat) (input : SearchInput)
    (context : CallContext) (cacheDiagnostics : List SearchDiagnostic) : SearchRuntime :=
  let key := queryCacheKey host input context.config
  match s.searches.pending.get? key with
  | some owner => { s with searches := s.searches.setPhase i (.joined key owner cacheDiagnostics) }
  | none =>
    match s.budget.reserveProviderAttempt context.budgetScopeId context.config.budget with
    | none =>
      let result := s.searchFailure host input context
        (cacheDiagnostics ++ [budgetDiagnostic .providerAttempts .error]) (some .providerAttempts)
        (some (providerId host))
      { s with searches := s.searches.setPhase i (.returned result) }
    | some budget =>
      { s with
        budget := budget
        searches := s.searches.begin i key cacheDiagnostics
        ledger := s.ledger ++ [.providerAttempt context.budgetScopeId] }

/-- The diagnostic of a search that is refused before the budget is touched. -/
def searchRefused (host : Host) (input : SearchInput) (context : CallContext) :
    Option (SearchDiagnostic × Option BudgetKind) :=
  if !context.config.enabled then
    some ({ code := .notConfigured
            severity := .error
            message := "Web search is disabled in settings."
            suggestion := some "Set search.enabled to true before using web_search." }, none)
  else if host.normalizeSearchQuery input.query = "" then
    some ({ code := .invalidResponse, severity := .error, message := "Search query is empty." },
      none)
  else if requestedResults input context.config > context.config.budget.maxResultsPerSearch then
    some (budgetDiagnostic .results .error, some .results)
  else none

/-- The diagnostic of a search without a configured provider. -/
def providerMissing (host : Host) (config : ResolvedSearchConfig) : Option SearchDiagnostic :=
  if host.injectedProvider.isNone && config.endpoint.getD "" = "" then
    some { code := .notConfigured
           severity := .error
           message := "SearXNG is not configured."
           suggestion := some "Set search.searxng.endpoint or BEAUPI_SEARXNG_ENDPOINT." }
  else if host.injectedProvider.isNone && config.apiKeyRequired && config.apiKey.getD "" = "" then
    some { code := .notConfigured
           severity := .error
           message := "The configured SearXNG API key environment variable is missing."
           suggestion := some
             "Set the configured environment variable before retrying web_search." }
  else none

/-- `search`, until the first `await`. -/
def search (s : SearchRuntime) (host : Host) (input : SearchInput) (context : CallContext) :
    SearchRuntime :=
  let s := s.synchronizeContext context
  let i := s.searches.calls.length
  let scopeId := context.budgetScopeId
  let limits := context.config.budget
  match searchRefused host input context with
  | some (diagnostic, exhausted) =>
    let result := s.searchFailure host input context [diagnostic] exhausted none
    { s with searches := s.searches.add input context (.returned result) }
  | none =>
    match s.budget.reserveQuery scopeId limits with
    | none =>
      let result := s.searchFailure host input context [budgetDiagnostic .queries .error]
        (some .queries) none
      { s with searches := s.searches.add input context (.returned result) }
    | some budget =>
      let s := { s with budget := budget, ledger := s.ledger ++ [LedgerEntry.query scopeId] }
      if s.budget.remainingCharacters scopeId limits = 0 then
        let result := s.searchFailure host input context
          [budgetDiagnostic .inputCharacters .error] (some .inputCharacters) none
        { s with searches := s.searches.add input context (.returned result) }
      else
        match providerMissing host context.config with
        | some diagnostic =>
          let result := s.searchFailure host input context [diagnostic] none (some "searxng")
          { s with searches := s.searches.add input context (.returned result) }
        | none =>
          let key := queryCacheKey host input context.config
          -- without a cache the call goes on to the table of requests at once
          let s := { s with searches := s.searches.add input context (.readingCache key) }
          if context.config.queryTtlMs > 0 then s else s.requestSearch host i input context []

/-- `search` after `cache.read`. -/
def searchRead (s : SearchRuntime) (host : Host) (i : Nat) (input : SearchInput)
    (context : CallContext) (key : String) : CacheRead CachedSearchValue → SearchRuntime
  | .entry entry => s.finishSearch host i input context entry .hit []
  | .malformed =>
    { s with searches := s.searches.setPhase i (.removing key [corruptCacheDiagnostic]) }
  | read => s.requestSearch host i input context read.diagnostics

/-- `search` after `await promise` of its own request. -/
def searchOwned (s : SearchRuntime) (host : Host) (i : Nat) (input : SearchInput)
    (context : CallContext) (key : String) (diagnostics : List SearchDiagnostic)
    (outcome : Settled CachedSearchValue) : SearchRuntime :=
  let s := { s with searches := s.searches.delete key }
  match outcome with
  | .ok entry shared =>
    s.finishSearch host i input context entry (cacheStatusFor context.config.queryTtlMs)
      (diagnostics ++ shared)
  | .error error =>
    let diagnostic := classifyNetworkError error context.aborted false
    let result := s.searchFailure host input context (diagnostics ++ [diagnostic]) none
      (some (providerId host))
    { s with searches := s.searches.setPhase i (.returned result) }

/-- `search` after `await pending`. -/
def searchJoined (s : SearchRuntime) (host : Host) (i : Nat) (input : SearchInput)
    (context : CallContext) (diagnostics : List SearchDiagnostic)
    (outcome : Settled CachedSearchValue) : SearchRuntime :=
  match outcome with
  | .ok entry shared =>
    s.finishSearch host i input context entry .deduplicated (diagnostics ++ shared)
  | .error error => { s with searches := s.searches.setPhase i (.rejected error) }

/-! ## Fetches -/

/-- `failure` -/
def fetchFailure (s : SearchRuntime) (context : CallContext) (requestedUrl : String)
    (diagnostics : List SearchDiagnostic) (exhausted : Option BudgetKind) :
    FetchExecutionResult where
  ok := false
  requestedUrl := requestedUrl
  value := none
  content := none
  contentHash := none
  fullOutput := none
  cacheStatus := cacheStatusFor context.config.fetchTtlMs
  diagnostics := diagnostics
  budget := s.budget.snapshot context.budgetScopeId context.config.budget exhausted
  duplicateContent := false
  redirects := 0

/-- The end of `fetch`, after the full content was written if it had to be. -/
def deliverFetch (s : SearchRuntime) (i : Nat) (context : CallContext) (output : FullOutput)
    (fullOutputPath : Option String) : SearchRuntime :=
  let scopeId := context.budgetScopeId
  let limits := context.config.budget
  let content := output.truncation.content
  let contentHash := output.entry.contentHash
  let budget := if output.duplicateContent then s.budget
    else (s.budget.consumeCharacters scopeId limits content.length).markContentHash scopeId
      contentHash
  let characterTruncated :=
    output.truncation.truncated && decide (content.length ≥ output.remaining)
  let result : FetchExecutionResult :=
    { ok := true
      requestedUrl := output.requestedUrl
      value := some output.entry.value
      content := if output.duplicateContent then none else some content
      contentHash := some contentHash
      fullOutput := fullOutputPath.map fun path => (path, output.truncation)
      cacheStatus := output.cacheStatus
      diagnostics := output.diagnostics ++
        if characterTruncated then [budgetDiagnostic .inputCharacters .warning] else []
      budget := budget.snapshot scopeId limits
        (if characterTruncated then some .inputCharacters else none)
      duplicateContent := output.duplicateContent
      redirects := output.entry.value.redirects }
  { s with
    budget := budget
    fetches := s.fetches.setPhase i (.returned result)
    ledger := s.ledger ++
      if output.duplicateContent then [] else [.content scopeId contentHash content] }

/-- The end of `fetch`, from the citation on: what is truncated is written to a file first. -/
def finishFetch (s : SearchRuntime) (i : Nat) (requestedUrl : String) (context : CallContext)
    (entry : SearchCacheEntry CachedFetchValue) (cacheStatus : SearchCacheStatus)
    (cacheDiagnostics : List SearchDiagnostic) : SearchRuntime :=
  let scopeId := context.budgetScopeId
  let remaining := s.budget.remainingCharacters scopeId context.config.budget
  let output : FullOutput :=
    { requestedUrl := requestedUrl
      entry := entry
      cacheStatus := cacheStatus
      diagnostics := cacheDiagnostics
      duplicateContent := s.budget.hasContentHash scopeId entry.contentHash
      remaining := remaining
      truncation := truncateByCharacters entry.value.content remaining }
  if output.truncation.truncated then
    { s with fetches := s.fetches.setPhase i (.writing output) }
  else s.deliverFetch i context output none

/-- `fetch` without a cached entry: it joins a pending request or starts one. -/
def requestFetch (s : SearchRuntime) (i : Nat) (requestedUrl : String)
    (cacheDiagnostics : List SearchDiagnostic) : SearchRuntime :=
  match s.fetches.pending.get? requestedUrl with
  | some owner =>
    { s with fetches := s.fetches.setPhase i (.joined requestedUrl owner cacheDiagnostics) }
  | none => { s with fetches := s.fetches.begin i requestedUrl cacheDiagnostics }

/-- `fetch`, until the first `await`. -/
def fetch (s : SearchRuntime) (host : Host) (input : String) (context : CallContext) :
    SearchRuntime :=
  let s := s.synchronizeContext context
  let i := s.fetches.calls.length
  let scopeId := context.budgetScopeId
  let limits := context.config.budget
  if !context.config.enabled then
    let result := s.fetchFailure context input
      [{ code := .notConfigured
         severity := .error
         message := "Web access is disabled in settings." }] none
    { s with fetches := s.fetches.add input context (.returned result) }
  else
    match s.budget.reserveFetch scopeId limits with
    | none =>
      let result := s.fetchFailure context input [budgetDiagnostic .fetches .error] (some .fetches)
      { s with fetches := s.fetches.add input context (.returned result) }
    | some budget =>
      let s := { s with budget := budget, ledger := s.ledger ++ [LedgerEntry.fetch scopeId] }
      if s.budget.remainingCharacters scopeId limits = 0 then
        let result := s.fetchFailure context input [budgetDiagnostic .inputCharacters .error]
          (some .inputCharacters)
        { s with fetches := s.fetches.add input context (.returned result) }
      else
        match host.canonicalizeWebUrl input with
        | none =>
          let result := s.fetchFailure context input
            [{ code := .invalidUrl
               severity := .error
               message := "web_fetch requires an HTTP or HTTPS URL without credentials." }] none
          { s with fetches := s.fetches.add input context (.returned result) }
        | some requestedUrl =>
          let s := { s with fetches := s.fetches.add input context (.readingCache requestedUrl) }
          if context.config.fetchTtlMs > 0 then s else s.requestFetch i requestedUrl []

/-- `fetch` after `cache.read`. -/
def fetchRead (s : SearchRuntime) (i : Nat) (context : CallContext) (requestedUrl : String) :
    CacheRead CachedFetchValue → SearchRuntime
  | .entry entry => s.finishFetch i requestedUrl context entry .hit []
  | .malformed =>
    { s with fetches := s.fetches.setPhase i (.removing requestedUrl [corruptCacheDiagnostic]) }
  | read => s.requestFetch i requestedUrl read.diagnostics

/-- `fetch` after `await promise` of its own request. -/
def fetchOwned (s : SearchRuntime) (i : Nat) (context : CallContext) (requestedUrl : String)
    (diagnostics : List SearchDiagnostic) (outcome : Settled CachedFetchValue) : SearchRuntime :=
  let s := { s with fetches := s.fetches.delete requestedUrl }
  match outcome with
  | .ok entry shared =>
    s.finishFetch i requestedUrl context entry (cacheStatusFor context.config.fetchTtlMs)
      (diagnostics ++ shared)
  | .error error =>
    let diagnostic := classifyNetworkError error context.aborted false
    let result := s.fetchFailure context requestedUrl (diagnostics ++ [diagnostic]) none
    { s with fetches := s.fetches.setPhase i (.returned result) }

/-- `fetch` after `await pending`. -/
def fetchJoined (s : SearchRuntime) (i : Nat) (context : CallContext) (requestedUrl : String)
    (diagnostics : List SearchDiagnostic) (outcome : Settled CachedFetchValue) : SearchRuntime :=
  match outcome with
  | .ok entry shared =>
    s.finishFetch i requestedUrl context entry .deduplicated (diagnostics ++ shared)
  | .error error => { s with fetches := s.fetches.setPhase i (.rejected error) }

/-! ## Steps -/

/-- How the network answers a request: with a value, or with an error, after the time-out or not. -/
inductive NetworkOutcome (α : Type)
  | ok (entry : SearchCacheEntry α) (diagnostics : List SearchDiagnostic)
  | threw (error : Thrown) (timedOut : Bool)
  deriving DecidableEq, Repr

/-- Only an aborted request is reported as cancelled. -/
def NetworkOutcome.honest {α : Type} (aborted : Bool) : NetworkOutcome α → Bool
  | .ok _ diagnostics => diagnostics.all fun d => d.code ≠ .cancelled
  | .threw (.searchRuntimeError d) _ => d.code ≠ .cancelled || aborted
  | .threw (.other d) _ => d.code ≠ .cancelled

/-- `fetchSearchFromProvider` turns every error into a `SearchRuntimeError`. -/
def settledSearch (aborted : Bool) : NetworkOutcome CachedSearchValue → Settled CachedSearchValue
  | .ok entry diagnostics => .ok entry diagnostics
  | .threw error timedOut =>
    .error (.searchRuntimeError (classifyNetworkError error aborted timedOut))

/-- `fetchWebContent` lets every error through. -/
def settledFetch : NetworkOutcome CachedFetchValue → Settled CachedFetchValue
  | .ok entry diagnostics => .ok entry diagnostics
  | .threw error _ => .error error

/-- A part of a call runs, or something happens to it. -/
inductive Event
  | append (scopeId : String) (entry : SessionEntry)
  | synchronizeBudget (scopeId : String)
  | search (input : SearchInput) (context : CallContext)
  | searchRead (i : Nat) (read : CacheRead CachedSearchValue)
  | searchRemoved (i : Nat)
  | searchSettled (i : Nat) (outcome : NetworkOutcome CachedSearchValue)
  | searchResumed (i : Nat)
  | searchAborted (i : Nat)
  | fetch (input : String) (context : CallContext)
  | fetchRead (i : Nat) (read : CacheRead CachedFetchValue)
  | fetchRemoved (i : Nat)
  | fetchSettled (i : Nat) (outcome : NetworkOutcome CachedFetchValue)
  | fetchResumed (i : Nat)
  | fetchAborted (i : Nat)
  | fetchWritten (i : Nat) (path : String)

/-- An event of a search that has started. -/
def stepSearch (host : Host) (s : SearchRuntime) (i : Nat)
    (call : Call SearchInput CachedSearchValue Empty SearchExecutionResult) :
    Event → Option SearchRuntime
  | .searchRead _ read =>
    match call.phase with
    | .readingCache key => some (s.searchRead host i call.input call.context key read)
    | _ => none
  | .searchRemoved _ =>
    match call.phase with
    | .removing _ diagnostics => some (s.requestSearch host i call.input call.context diagnostics)
    | _ => none
  | .searchSettled _ outcome =>
    match call.phase, call.settled with
    | .owning _ _, none =>
      if outcome.honest call.context.aborted then
        some { s with
          searches := s.searches.settle i (settledSearch call.context.aborted outcome) }
      else none
    | _, _ => none
  | .searchResumed _ =>
    match call.phase with
    | .owning key diagnostics => call.settled.map fun outcome =>
      s.searchOwned host i call.input call.context key diagnostics outcome
    | .joined _ owner diagnostics => (s.searches.outcome owner).map fun outcome =>
      s.searchJoined host i call.input call.context diagnostics outcome
    | _ => none
  | _ => some { s with searches := s.searches.abort i }

/-- An event of a fetch that has started. -/
def stepFetch (s : SearchRuntime) (i : Nat)
    (call : Call String CachedFetchValue FullOutput FetchExecutionResult) :
    Event → Option SearchRuntime
  | .fetchRead _ read =>
    match call.phase with
    | .readingCache requestedUrl => some (s.fetchRead i call.context requestedUrl read)
    | _ => none
  | .fetchRemoved _ =>
    match call.phase with
    | .removing requestedUrl diagnostics => some (s.requestFetch i requestedUrl diagnostics)
    | _ => none
  | .fetchSettled _ outcome =>
    match call.phase, call.settled with
    | .owning _ _, none =>
      if outcome.honest call.context.aborted then
        some { s with fetches := s.fetches.settle i (settledFetch outcome) }
      else none
    | _, _ => none
  | .fetchResumed _ =>
    match call.phase with
    | .owning requestedUrl diagnostics => call.settled.map fun outcome =>
      s.fetchOwned i call.context requestedUrl diagnostics outcome
    | .joined requestedUrl owner diagnostics => (s.fetches.outcome owner).map fun outcome =>
      s.fetchJoined i call.context requestedUrl diagnostics outcome
    | _ => none
  | .fetchWritten _ path =>
    match call.phase with
    | .writing output => some (s.deliverFetch i call.context output (some path))
    | _ => none
  | _ => some { s with fetches := s.fetches.abort i }

/-- One part of a call, or something that happens to it. -/
def step (host : Host) (s : SearchRuntime) (e : Event) : Option SearchRuntime :=
  match e with
  | .append scopeId entry =>
    some { s with branches := fun other =>
      if other = scopeId then s.branches scopeId ++ [entry] else s.branches other }
  | .synchronizeBudget scopeId => some (s.synchronizeBudget scopeId)
  | .search input context => some (s.search host input context)
  | .fetch input context => some (s.fetch host input context)
  | .searchRead i _ | .searchRemoved i | .searchSettled i _ | .searchResumed i
  | .searchAborted i => (s.searches.calls[i]?).bind fun call => s.stepSearch host i call e
  | .fetchRead i _ | .fetchRemoved i | .fetchSettled i _ | .fetchResumed i | .fetchAborted i
  | .fetchWritten i _ => (s.fetches.calls[i]?).bind fun call => s.stepFetch i call e

/-- A new runtime in a session with these branches. -/
def initial (branches : String → List SessionEntry) : SearchRuntime :=
  ⟨.empty, ⟨[], .empty⟩, ⟨[], .empty⟩, branches, []⟩

end SearchRuntime

/-! ## A task with one character -/

/-- One character for a task. -/
def oneCharacter : SearchBudgetLimits := ⟨10, 6, 6, 6, 1⟩

/-- A host that changes nothing. -/
def plainHost : Host where
  normalizeSearchQuery := id
  canonicalSearchQuery := id
  normalizeDomains := id
  normalizeAndRankResults results _ _ _ := results
  canonicalizeWebUrl := some
  injectedProvider := some "provider"

/-- A call of a task with one character. -/
def taskContext : CallContext where
  budgetScopeId := "task"
  withSessionEntries := false
  aborted := false
  config := ⟨true, none, 10, none, false, 0, 60000, oneCharacter⟩

/-- A cached page. -/
def page (content : Text) : SearchCacheEntry CachedFetchValue :=
  ⟨"hash", ⟨"https://host/", "Title", "text/plain", content, "summary", 0⟩⟩

end BeauPi.Search
