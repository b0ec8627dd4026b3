/-
Outbound fetches: `resolveSafeFetchTarget`, `requestDispatcher`,
`nextRedirectHopInit` and `withSafeFetch` of
`src/common/security/ssrf-guard.ts`, with the dispatchers of
`src/common/security/proxy-dispatcher.ts`.

# What the code is given

The URL parser, the resolver and the servers are not the code's: they
are the `Web` and the stream of answers, and every theorem is about all
of them. The resolver answers per hop, so a name may point somewhere
else each time it is asked. It is held to what Node documents of
`dns.lookup` — an answer is a non-empty list of IP addresses.

# What a run leaves behind

`withSafeFetch` returns a `Run`: the events in the order they happened,
and how it ended. `vetted` and `refused` are the two answers of
`resolveSafeFetchTarget`, `sent` is a request that went out, with the
init it carried, the dispatcher it rode and the answer it got. Where a
connection of a dispatcher goes is `Dispatcher.dial`.

Left out: the caller's abort signal other than as a lookup that ends
aborted, the bodies of responses and their settling, and the tearing
down of dispatchers.
-/
import OpenWA.Ssrf.Address

namespace OpenWA.Ssrf

open Inet Text

-- ======== the world

/-- What `new URL(raw)` gives, as far as it is read. -/
structure Url where
  protocol : Text
  hostname : Text
  origin : Text
  deriving DecidableEq

/-- How a DNS lookup ends: answered, rejected with an error code or
without, past the deadline, or aborted by the caller's signal. -/
inductive Lookup where
  | answered (addresses : List Text)
  | rejected (code : Option Text)
  | expired
  | aborted

/-- The URL parser and the resolver. -/
structure Web where
  parse : Text → Option Url
  join : Text → Text → Option Text
  lookup : Nat → Text → Lookup
  lookup_ne_nil : ∀ {hop host addresses}, lookup hop host = .answered addresses → addresses ≠ []
  lookup_isIP : ∀ {hop host addresses},
    lookup hop host = .answered addresses → ∀ a ∈ addresses, isIPv4 a = true ∨ isIPv6 a = true

/-- The environment variables the guard reads. -/
structure Env where
  ssrfAllowedHosts : Option Text := none
  pluginDownloadAllowInsecureRedirects : Option Text := none
  webhookSsrfRedirects : Option Text := none

/-- What a fetch throws. -/
inductive FetchError where
  | ssrfBlocked (message : Text)
  | plain (message : Text)
  | typeError
  | aborted
  | network
  deriving DecidableEq

/-- `host.replace(/^\[|\]$/g, '')`. -/
def stripBrackets (s : Text) : Text :=
  let s := if s.head? = some '[' then s.tail else s
  if s.getLast? = some ']' then s.dropLast else s

/-- `getAllowedHosts`: the entries of `SSRF_ALLOWED_HOSTS`. -/
def getAllowedHosts (env : Env) : List Text :=
  ((env.ssrfAllowedHosts.getD []).splitOn ',').map (fun h => toLowerCase (stripBrackets (trim h)))
    |>.filter (· ≠ [])

/-- `isInsecureRedirectHopAllowed`. -/
def isInsecureRedirectHopAllowed (env : Env) : Bool :=
  env.pluginDownloadAllowInsecureRedirects == some "true".toList

-- ======== resolveSafeFetchTarget

/-- `lookupWithDeadline`. -/
def lookupWithDeadline (web : Web) (hop : Nat) (host : Text) : Except FetchError (List Text) :=
  match web.lookup hop host with
  | .answered addresses => .ok addresses
  | .expired =>
    .error (.ssrfBlocked ("Timed out resolving host: ".toList ++ host))
  | .rejected code =>
    .error (.ssrfBlocked ("Could not resolve host: ".toList ++ host
      ++ match code with
        | some c => " (".toList ++ c ++ [')']
        | none => []))
  | .aborted => .error .aborted

/-- `resolveSafeFetchTarget`: the vetted addresses of a URL's host, or
`none` for a literal that is its own address. -/
def resolveSafeFetchTarget (env : Env) (web : Web) (hop : Nat)
    (rawUrl : Text) : Except FetchError (Option (List Text)) :=
  match web.parse rawUrl with
  | none => .error (.ssrfBlocked ("Invalid URL: ".toList ++ rawUrl))
  | some url =>
    if url.protocol ≠ "http:".toList ∧ url.protocol ≠ "https:".toList then
      .error (.ssrfBlocked ("Blocked URL scheme: ".toList ++ url.protocol))
    else
      let host := stripBrackets url.hostname
      if toLowerCase host ∈ getAllowedHosts env then
        (lookupWithDeadline web hop host).map some
      else if isIPv4 host || isIPv6 host then
        if isBlockedAddress host then
          .error (.ssrfBlocked ("Blocked internal address: ".toList ++ host))
        else .ok none
      else
        match lookupWithDeadline web hop host with
        | .error e => .error e
        | .ok resolved =>
          if resolved = [] then
            .error (.ssrfBlocked ("Could not resolve host: ".toList ++ host))
          else
            match resolved.find? (fun a => isBlockedAddress a) with
            | some address => .error (.ssrfBlocked
                ("Host ".toList ++ host
                  ++ " resolves to a blocked internal address: ".toList
                  ++ address))
            | none => .ok (some resolved)

-- ======== dispatchers

/-- What a request rides: nothing of its own, an agent whose lookup is
pinned, or a session proxy. -/
inductive Dispatcher where
  | direct
  | pinned (addresses : List Text)
  | httpProxy
  | socks4 (pinnedAddresses : Option (List Text))
  | socks5 (pinnedAddresses : Option (List Text))
  deriving DecidableEq

/-- `createProxyDispatcher`. -/
def createProxyDispatcher (web : Web) (proxyUrl : Text)
    (pinnedAddresses : Option (List Text)) : Except FetchError Dispatcher :=
  match web.parse proxyUrl with
  | none => .error .typeError
  | some url =>
    if url.protocol = "http:".toList ∨ url.protocol = "https:".toList then
      .ok .httpProxy
    else if url.protocol = "socks4:".toList then
      .ok (.socks4 pinnedAddresses)
    else if url.protocol = "socks5:".toList then
      .ok (.socks5 pinnedAddresses)
    else
      .error (.plain ("Unsupported proxy protocol: ".toList ++ url.protocol))

/-- `requestDispatcher`; an empty proxy URL is no proxy. -/
def requestDispatcher (web : Web) (proxyUrl : Option Text)
    (target : Option (List Text)) : Except FetchError Dispatcher :=
  match proxyUrl with
  | some (c :: rest) => createProxyDispatcher web (c :: rest) target
  | _ =>
    match target with
    | some addresses => .ok (.pinned addresses)
    | none => .ok .direct

/-- Where a connection goes: one of these addresses, or wherever someone
resolves the host's name to when the connection is made. -/
inductive Dial where
  | addresses (as : List Text)
  | byName
  deriving DecidableEq

/-- A host that is an address is dialled as it is. -/
def dialHost (host : Text) : Dial :=
  if isIPv4 host || isIPv6 host then .addresses [host] else .byName

/-- The hosts a SOCKS request names: the vetted addresses, or the host
itself when there are none. -/
def socksHosts (host : Text) : Option (List Text) → List Text
  | some (a :: rest) => a :: rest
  | _ => [host]

/-- `socksDestinations`: SOCKS5 carries the hosts as they are, SOCKS4 the
IPv4 ones among them; it refuses IPv6 and resolves a name anew. -/
def Dispatcher.dial (host : Text) : Dispatcher → Dial
  | .direct => dialHost host
  | .pinned as => .addresses as
  | .httpProxy => dialHost host
  | .socks5 pinnedAddresses =>
    let hosts := socksHosts host pinnedAddresses
    if hosts.all fun h => isIPv4 h || isIPv6 h then .addresses hosts
    else .byName
  | .socks4 pinnedAddresses =>
    let hosts := socksHosts host pinnedAddresses
    let ipv4 := hosts.filter fun h => isIPv4 h
    if ipv4 ≠ [] then .addresses ipv4
    else if hosts.head?.any fun h => isIPv6 h then .addresses []
    else .byName

-- ======== requests

/-- The parts of a `RequestInit` a redirect may change. -/
structure Init where
  method : Option Text := none
  headers : Option (List (Text × Text)) := none
  body : Option Text := none
  deriving DecidableEq

/-- `new Headers(init)`: names compare, and come out, in lower case. -/
def newHeaders (headers : List (Text × Text)) : List (Text × Text) :=
  headers.map fun h => (toLowerCase h.1, h.2)

/-- `headers.delete(name)`. -/
def deleteHeader (name : Text) (headers : List (Text × Text)) : List (Text × Text) :=
  headers.filter fun h => toLowerCase h.1 ≠ name

/-- `nextRedirectHopInit`; `none` where `new URL(nextUrl)` throws. -/
def nextRedirectHopInit (web : Web) (init : Init) (status : Nat)
    (nextUrl initialOrigin : Text) : Option Init :=
  let next :=
    if status ≠ 307 ∧ status ≠ 308 ∧ init.method ≠ none
        ∧ init.method ≠ some "GET".toList
        ∧ init.method ≠ some "HEAD".toList then
      { init with method := some "GET".toList, body := none }
    else init
  (web.parse nextUrl).map fun url =>
    match next.headers with
    | some headers =>
      if url.origin ≠ initialOrigin then
        { next with headers := some (deleteHeader "cookie".toList
            (deleteHeader "authorization".toList (newHeaders headers))) }
      else next
    | none => next

/-- A response, as far as it is read. -/
structure Response where
  status : Nat
  location : Option Text := none
  isOpaqueRedirect : Bool := false
  deriving DecidableEq

/-- How `undiciFetch` ends. -/
inductive Answer where
  | failed
  | answered (response : Response)
  deriving DecidableEq

/-- A request that went out. -/
structure Request where
  url : Text
  init : Init
  dispatcher : Dispatcher
  answer : Answer
  deriving DecidableEq

/-- What happens in the course of a fetch. -/
inductive Event where
  | vetted (url : Text) (target : Option (List Text))
  | refused (url : Text) (error : FetchError)
  | sent (request : Request)
  deriving DecidableEq

/-- How a fetch ends: a response handed to the caller, or an error. -/
inductive Outcome where
  | used (response : Response)
  | thrown (error : FetchError)
  deriving DecidableEq

/-- A whole fetch. -/
structure Run where
  events : List Event
  outcome : Outcome
  deriving DecidableEq

/-- The options of `withSafeFetch`. -/
structure FetchOpts where
  guard : Option Bool := none
  followRedirects : Bool := false
  proxyUrl : Option Text := none

-- ======== the redirects

/-- `MAX_REDIRECT_HOPS`. -/
def maxRedirectHops : Nat := 5

/-- `REDIRECT_STATUSES`. -/
def redirectStatuses : List Nat := [301, 302, 303, 307, 308]

/-- The variables of the redirect loop. -/
structure Hop where
  currentUrl : Text
  initialOrigin : Option Text := none
  hopInit : Init
  sawSecureHop : Bool := false

/-- What one round of the loop does: it ends the fetch, or sends a
request and goes on. -/
inductive Round where
  | stop (run : Run)
  | again (vetted sent : Event) (next : Hop)

/-- The end of a round whose request was answered by a redirect. -/
def followLocation (web : Web) (rawUrl : Text) (hop : Nat) (st : Hop)
    (initialOrigin : Text) (sawSecureHop : Bool) (vetted sent : Event)
    (response : Response) : Round :=
  match response.location with
  | none | some [] =>
    .stop ⟨[vetted, sent], .thrown (.ssrfBlocked
      ("Redirect from ".toList ++ st.currentUrl ++ " carried no Location header".toList))⟩
  | some location =>
    if maxRedirectHops ≤ hop then
      .stop ⟨[vetted, sent], .thrown (.plain
        ("Too many redirects while fetching ".toList ++ rawUrl))⟩
    else
      match web.join location st.currentUrl with
      | none => .stop ⟨[vetted, sent], .thrown .typeError⟩
      | some nextUrl =>
        match nextRedirectHopInit web st.hopInit response.status nextUrl initialOrigin with
        | none => .stop ⟨[vetted, sent], .thrown .typeError⟩
        | some hopInit => .again vetted sent
            { currentUrl := nextUrl, initialOrigin := some initialOrigin, hopInit, sawSecureHop }

/-- One round of the loop: vet the URL, refuse a downgrade, send, and
look at the answer. -/
def round (env : Env) (web : Web) (server : Nat → Answer)
    (proxyUrl : Option Text) (rawUrl : Text) (hop : Nat) (st : Hop) :
    Round :=
  match resolveSafeFetchTarget env web hop st.currentUrl with
  | .error e => .stop ⟨[.refused st.currentUrl e], .thrown e⟩
  | .ok target =>
    let vetted := Event.vetted st.currentUrl target
    match web.parse st.currentUrl with
    | none => .stop ⟨[vetted], .thrown .typeError⟩
    | some current =>
      if current.protocol = "http:".toList ∧ st.sawSecureHop = true
          ∧ isInsecureRedirectHopAllowed env = false then
        .stop ⟨[vetted], .thrown (.plain
          ("Refusing redirect that downgrades from https to http: ".toList ++ st.currentUrl))⟩
      else
        match requestDispatcher web proxyUrl target with
        | .error e => .stop ⟨[vetted], .thrown e⟩
        | .ok dispatcher =>
          let sent := Event.sent
            { url := st.currentUrl, init := st.hopInit, dispatcher,
              answer := server hop }
          match server hop with
          | .failed => .stop ⟨[vetted, sent], .thrown .network⟩
          | .answered response =>
            if response.status ∉ redirectStatuses then
              .stop ⟨[vetted, sent], .used response⟩
            else
              followLocation web rawUrl hop st
                (st.initialOrigin.getD current.origin)
                (st.sawSecureHop
                  || current.protocol == "https:".toList)
                vetted sent response

variable {web : Web} {rawUrl : Text} {hop : Nat} {st : Hop} {v s : Event}

/-- A round goes on only below the redirect limit. -/
theorem lt_of_followLocation {origin : Text} {saw : Bool} {vetted sent : Event}
    {response : Response} {next : Hop}
    (h : followLocation web rawUrl hop st origin saw vetted sent response = .again v s next) :
    hop < maxRedirectHops := by
  unfold followLocation at h
  split at h
  · cases h
  · cases h
  · split at h
    · cases h
    next hlt => exact Nat.lt_of_not_le hlt

theorem lt_of_round {env : Env} {server : Nat → Answer} {proxyUrl : Option Text} {next : Hop}
    (h : round env web server proxyUrl rawUrl hop st = .again v s next) :
    hop < maxRedirectHops := by
  simp only [round] at h
  repeat' split at h
  all_goals first
    | exact lt_of_followLocation h
    | cases h

/-- `for (let hop = 0; ; hop++)`. -/
def redirectLoop (env : Env) (web : Web) (server : Nat → Answer)
    (proxyUrl : Option Text) (rawUrl : Text) (hop : Nat) (st : Hop) : Run :=
  match h : round env web server proxyUrl rawUrl hop st with
  | .stop run => run
  | .again vetted sent next =>
    have : maxRedirectHops - (hop + 1) < maxRedirectHops - hop :=
      Nat.sub_add_lt_sub (lt_of_round h) Nat.one_pos
    let rest := redirectLoop env web server proxyUrl rawUrl (hop + 1) next
    ⟨vetted :: sent :: rest.events, rest.outcome⟩
termination_by maxRedirectHops - hop

-- ======== withSafeFetch

/-- The path without the guard: one plain fetch, redirects left to
undici or refused by it. -/
def unguardedFetch (env : Env) (web : Web) (server : Nat → Answer)
    (rawUrl : Text) (init : Init) (proxyUrl : Option Text) : Run :=
  match requestDispatcher web proxyUrl none with
  | .error e => ⟨[], .thrown e⟩
  | .ok dispatcher =>
    let sent := Event.sent
      { url := rawUrl, init, dispatcher, answer := server 0 }
    match server 0 with
    | .failed => ⟨[sent], .thrown .network⟩
    | .answered response =>
      if env.webhookSsrfRedirects ≠ some "true".toList ∧ response.status ∈ redirectStatuses then
        ⟨[sent], .thrown .network⟩
      else ⟨[sent], .used response⟩

/-- The guarded path that refuses every redirect. -/
def singleFetch (env : Env) (web : Web) (server : Nat → Answer)
    (rawUrl : Text) (init : Init) (proxyUrl : Option Text) : Run :=
  match resolveSafeFetchTarget env web 0 rawUrl with
  | .error e => ⟨[.refused rawUrl e], .thrown e⟩
  | .ok target =>
    let vetted := Event.vetted rawUrl target
    match requestDispatcher web proxyUrl target with
    | .error e => ⟨[vetted], .thrown e⟩
    | .ok dispatcher =>
      let sent := Event.sent
        { url := rawUrl, init, dispatcher, answer := server 0 }
      match server 0 with
      | .failed => ⟨[vetted, sent], .thrown .network⟩
      | .answered response =>
        if response.isOpaqueRedirect = true ∨ (300 ≤ response.status ∧ response.status < 400) then
          ⟨[vetted, sent], .thrown (.ssrfBlocked
            ("Refusing to follow redirect from ".toList ++ rawUrl))⟩
        else ⟨[vetted, sent], .used response⟩

/-- `withSafeFetch`. -/
def withSafeFetch (env : Env) (web : Web) (server : Nat → Answer)
    (rawUrl : Text) (init : Init) (opts : FetchOpts) : Run :=
  if opts.guard.getD true = false then
    unguardedFetch env web server rawUrl init opts.proxyUrl
  else if opts.followRedirects then
    redirectLoop env web server opts.proxyUrl rawUrl 0
      { currentUrl := rawUrl, hopInit := init }
  else
    singleFetch env web server rawUrl init opts.proxyUrl

end OpenWA.Ssrf
