/-
Redirect safety of `withSafeFetch`: whatever the servers answer and the
resolver says, a guarded fetch sends vetted requests only, few of them,
and never lets a redirect carry the caller's credentials or body away.

# One round, then all of them

Everything a round can do is in two lemmas: a request it sends is a
`Sending`, and a round it is followed by starts from a `Goes`. A
guarantee about all later requests is a property of the loop variables
that a round keeps and that its request inherits; `all_requests` is that
induction, done once.

# What the guard does not cover

Without the guard nothing is vetted. Behind an HTTP proxy the name is
handed over and the proxy resolves it, so the vetted addresses are not
the ones dialled (`withSafeFetch_unpinned`).
-/
import OpenWA.Ssrf.Proofs.Dispatch

namespace OpenWA.Ssrf

open Inet Text List

-- ======== the guarantees

/-- The requests among the events, in order. -/
def requests (events : List Event) : List Request :=
  events.filterMap fun e =>
    match e with
    | .sent r => some r
    | _ => none

/-- The origin of a URL. -/
def originOf (web : Web) (url : Text) : Option Text := (web.parse url).map (·.origin)

/-- The scheme of a URL. -/
def schemeOf (web : Web) (url : Text) : Option Text := (web.parse url).map (·.protocol)

/-- Whether a request carries an `authorization` or `cookie` header. -/
def carriesCredentials (init : Init) : Bool :=
  (init.headers.getD []).any fun h =>
    toLowerCase h.1 == "authorization".toList
      || toLowerCase h.1 == "cookie".toList

/-- Whether a request is neither a GET nor a HEAD and was answered by a
301, 302 or 303. -/
def isRewritten (r : Request) : Bool :=
  match r.answer with
  | .failed => false
  | .answered response =>
    [301, 302, 303].contains response.status
      && r.init.method.any fun m =>
          m != "GET".toList && m != "HEAD".toList

/-- What `resolveSafeFetchTarget` and the dispatcher make sure of for one
request: its URL was accepted before, at addresses that are not blocked
unless the operator listed the host, and it dials those addresses. -/
def Vetted (env : Env) (web : Web) (proxyUrl : Option Text)
    (before : List Event) (r : Request) : Prop :=
  ∃ hop target, resolveSafeFetchTarget env web hop r.url = .ok target
    ∧ Event.vetted r.url target ∈ before
    ∧ (toLowerCase (hostOf web r.url) ∈ getAllowedHosts env
      ∨ ∀ a ∈ vettedAddresses (hostOf web r.url) target, isBlockedAddress a = false)
    ∧ (isHttpProxied web proxyUrl = false →
        ∃ as, r.dispatcher.dial (hostOf web r.url) = .addresses as
          ∧ ∀ a ∈ as, a ∈ vettedAddresses (hostOf web r.url) target)

/-- What an earlier request of a chain means for a later one. -/
structure Follows (env : Env) (web : Web) (rawUrl : Text)
    (r s : Request) : Prop where
  credentials : originOf web r.url ≠ originOf web rawUrl → carriesCredentials s.init = false
  rewritten : isRewritten r = true → s.init.method = some "GET".toList ∧ s.init.body = none
  secure : schemeOf web r.url = some "https:".toList →
    schemeOf web s.url = some "http:".toList →
    isInsecureRedirectHopAllowed env = true

/-- Redirect safety of a whole run. -/
structure RedirectSafe (env : Env) (web : Web) (proxyUrl : Option Text)
    (rawUrl : Text) (events : List Event) : Prop where
  vetted : ∀ before r after, events = before ++ Event.sent r :: after →
    Vetted env web proxyUrl before r
  bounded : (requests events).length ≤ maxRedirectHops + 1
  credentials : ∀ r ∈ requests events,
    originOf web r.url ≠ originOf web rawUrl → carriesCredentials r.init = false
  follows : (requests events).Pairwise (Follows env web rawUrl)

-- ======== one round

section Rounds

variable {env : Env} {web : Web} {server : Nat → Answer}
  {proxyUrl : Option Text} {rawUrl : Text} {hop : Nat} {st : Hop}
  {current : Url} {target : Option (List Text)} {r : Request}

/-- A request goes out in a round: its URL was accepted, it is no
downgrade, and it carries what the loop carries. -/
structure Sending (env : Env) (web : Web) (server : Nat → Answer)
    (proxyUrl : Option Text) (hop : Nat) (st : Hop) (current : Url)
    (target : Option (List Text)) (r : Request) : Prop where
  accepted : resolveSafeFetchTarget env web hop st.currentUrl = .ok target
  parsed : web.parse st.currentUrl = some current
  secure : current.protocol = "http:".toList → st.sawSecureHop = true →
    isInsecureRedirectHopAllowed env = true
  dispatcher : requestDispatcher web proxyUrl target = .ok r.dispatcher
  url : r.url = st.currentUrl
  init : r.init = st.hopInit
  answer : r.answer = server hop

/-- The loop goes on after a redirect. -/
structure Goes (web : Web) (st : Hop) (current : Url) (r : Request)
    (next : Hop) : Prop where
  redirected : ∃ response, r.answer = .answered response
    ∧ nextRedirectHopInit web st.hopInit response.status next.currentUrl
        (st.initialOrigin.getD current.origin) = some next.hopInit
  origin : next.initialOrigin = some (st.initialOrigin.getD current.origin)
  secure : next.sawSecureHop = (st.sawSecureHop || current.protocol == "https:".toList)

variable {origin : Text} {saw : Bool} {sent v s : Event} {response : Response}

theorem followLocation_again {next : Hop} {vetted : Event}
    (h : followLocation web rawUrl hop st origin saw vetted sent response = .again v s next) :
    v = vetted ∧ s = sent ∧ next.initialOrigin = some origin
      ∧ next.sawSecureHop = saw
      ∧ nextRedirectHopInit web st.hopInit response.status next.currentUrl
          origin = some next.hopInit := by
  unfold followLocation at h
  repeat' split at h
  all_goals cases h
  next hnext => exact ⟨rfl, rfl, rfl, rfl, hnext⟩

variable {run : Run}

theorem followLocation_stop {vetted : Event}
    (h : followLocation web rawUrl hop st origin saw vetted sent response
      = .stop run) : run.events = [vetted, sent] := by
  unfold followLocation at h
  repeat' split at h
  all_goals cases h
  all_goals rfl

/-- What a round can do: refuse, stop behind the vetting, stop behind the
request, or go on. -/
theorem round_cases (hop : Nat) (st : Hop) :
    (∃ run, round env web server proxyUrl rawUrl hop st = .stop run ∧ requests run.events = [])
    ∨ (∃ run current target r,
        round env web server proxyUrl rawUrl hop st = .stop run
        ∧ Sending env web server proxyUrl hop st current target r
        ∧ run.events = [.vetted st.currentUrl target, .sent r])
    ∨ (∃ current target r next,
        round env web server proxyUrl rawUrl hop st
          = .again (.vetted st.currentUrl target) (.sent r) next
        ∧ Sending env web server proxyUrl hop st current target r
        ∧ Goes web st current r next) := by
  simp only [round]
  cases hv : resolveSafeFetchTarget env web hop st.currentUrl with
  | error e => exact .inl ⟨_, rfl, rfl⟩
  | ok target =>
    cases hp : web.parse st.currentUrl with
    | none => exact .inl ⟨_, rfl, rfl⟩
    | some current =>
      by_cases hdown : current.protocol = "http:".toList
          ∧ st.sawSecureHop = true
          ∧ isInsecureRedirectHopAllowed env = false
      · simp only [if_pos hdown]
        exact .inl ⟨_, rfl, rfl⟩
      · simp only [if_neg hdown]
        cases hd : requestDispatcher web proxyUrl target with
        | error e => exact .inl ⟨_, rfl, rfl⟩
        | ok d =>
          have hsecure : current.protocol = "http:".toList →
              st.sawSecureHop = true → isInsecureRedirectHopAllowed env = true := by
            intro h₁ h₂
            exact Bool.eq_true_of_not_eq_false fun hall => hdown ⟨h₁, h₂, hall⟩
          cases hs : server hop with
          | failed =>
            exact .inr (.inl ⟨_, current, target, _, rfl,
              ⟨hv, hp, hsecure, hd, rfl, rfl, hs.symm⟩, rfl⟩)
          | answered response =>
            by_cases hstatus : response.status ∉ redirectStatuses
            · simp only [if_pos hstatus]
              exact .inr (.inl ⟨_, current, target, _, rfl,
                ⟨hv, hp, hsecure, hd, rfl, rfl, hs.symm⟩, rfl⟩)
            · simp only [if_neg hstatus]
              cases hf : followLocation web rawUrl hop st (st.initialOrigin.getD current.origin)
                  (st.sawSecureHop || current.protocol == "https:".toList)
                  (.vetted st.currentUrl target)
                  (.sent { url := st.currentUrl, init := st.hopInit,
                           dispatcher := d, answer := .answered response }) response with
              | stop run =>
                exact .inr (.inl ⟨run, current, target, _, rfl,
                  ⟨hv, hp, hsecure, hd, rfl, rfl, hs.symm⟩, followLocation_stop hf⟩)
              | again v s next =>
                obtain ⟨rfl, rfl, horigin, hsaw, hnext⟩ := followLocation_again hf
                exact .inr (.inr ⟨current, target, _, next, rfl,
                  ⟨hv, hp, hsecure, hd, rfl, rfl, hs.symm⟩,
                  ⟨⟨response, rfl, hnext⟩, horigin, hsaw⟩⟩)

-- ======== all rounds

theorem redirectLoop_stop
    (h : round env web server proxyUrl rawUrl hop st = .stop run) :
    redirectLoop env web server proxyUrl rawUrl hop st = run := by
  rw [redirectLoop]
  split
  next h' => rw [h'] at h; cases h; rfl
  next h' => rw [h'] at h; cases h

theorem redirectLoop_again {next : Hop}
    (h : round env web server proxyUrl rawUrl hop st = .again v s next) :
    (redirectLoop env web server proxyUrl rawUrl hop st).events
      = v :: s :: (redirectLoop env web server proxyUrl rawUrl (hop + 1) next).events := by
  rw [redirectLoop]
  split
  next h' => rw [h'] at h; cases h
  next h' => rw [h'] at h; cases h; rfl

/-- Induction over the rounds of a fetch: what holds of the events of a
round that ends it, and is handed back by a round that goes on, holds of
all events. -/
theorem redirectLoop_induction {P : Nat → Hop → List Event → Prop}
    (quiet : ∀ hop st events, requests events = [] → P hop st events)
    (last : ∀ hop st current target r,
      Sending env web server proxyUrl hop st current target r →
      P hop st [.vetted st.currentUrl target, .sent r])
    (again : ∀ hop st current target r next,
      hop < maxRedirectHops →
      Sending env web server proxyUrl hop st current target r →
      Goes web st current r next →
      P (hop + 1) next (redirectLoop env web server proxyUrl rawUrl (hop + 1) next).events →
      P hop st (.vetted st.currentUrl target :: .sent r ::
        (redirectLoop env web server proxyUrl rawUrl (hop + 1) next).events))
    (hop : Nat) (st : Hop) :
    P hop st (redirectLoop env web server proxyUrl rawUrl hop st).events := by
  rcases @round_cases env web server proxyUrl rawUrl hop st with
    ⟨run, hrun, hquiet⟩ | ⟨run, current, target, r, hrun, hsend, hev⟩
      | ⟨current, target, r, next, hrun, hsend, hgoes⟩
  · rw [redirectLoop_stop hrun]
    exact quiet hop st _ hquiet
  · rw [redirectLoop_stop hrun, hev]
    exact last hop st current target r hsend
  · rw [redirectLoop_again hrun]
    have hlt := lt_of_round hrun
    exact again hop st current target r next hlt hsend hgoes
      (redirectLoop_induction quiet last again (hop + 1) next)
termination_by maxRedirectHops - hop

/-- What the loop variables keep, every request inherits. -/
theorem all_requests {p : Hop → Prop} {q : Request → Prop}
    (inherits : ∀ hop st current target r, p st →
      Sending env web server proxyUrl hop st current target r → q r)
    (keeps : ∀ hop st current target r next, p st →
      Sending env web server proxyUrl hop st current target r →
      Goes web st current r next → p next)
    (hop : Nat) (st : Hop) (hst : p st) :
    ∀ r ∈ requests (redirectLoop env web server proxyUrl rawUrl hop st).events, q r := by
  revert hst
  refine redirectLoop_induction (P := fun _ st events => p st → ∀ r ∈ requests events, q r)
    ?_ ?_ ?_ hop st
  · intro hop st events hquiet _ r hr
    rw [hquiet] at hr
    cases hr
  · intro hop st current target r hsend hst r' hr'
    rw [mem_singleton.mp hr']
    exact inherits hop st current target r hst hsend
  · intro hop st current target r next _ hsend hgoes ih hst r' hr'
    rcases mem_cons.1 hr' with rfl | hr'
    · exact inherits hop st current target r' hst hsend
    · exact ih (keeps hop st current target r next hst hsend hgoes) r' hr'

-- ======== what a hop changes

/-- Once stripped, no `authorization` or `cookie` header is left. -/
theorem carriesCredentials_stripped (init : Init)
    (headers : List (Text × Text)) :
    carriesCredentials { init with headers := some (deleteHeader
      "cookie".toList (deleteHeader "authorization".toList (newHeaders headers))) } = false := by
  unfold carriesCredentials
  rw [Option.getD_some, any_eq_false]
  intro h hh
  obtain ⟨hh, hcookie⟩ := mem_filter.mp hh
  obtain ⟨-, hauth⟩ := mem_filter.mp hh
  rw [decide_eq_true_eq] at hcookie hauth
  rw [Bool.or_eq_true, beq_iff_eq, beq_iff_eq]
  exact not_or.mpr ⟨hauth, hcookie⟩

/-- What a redirect does to the init: another origin costs the
credentials, what has none gets none, a bodiless GET stays one, and a
301, 302 or 303 makes one of anything but a GET or HEAD. -/
theorem nextInit_spec {init next : Init} {status : Nat} {nextUrl origin : Text}
    (h : nextRedirectHopInit web init status nextUrl origin = some next) :
    (originOf web nextUrl ≠ some origin → carriesCredentials next = false)
    ∧ (carriesCredentials init = false → carriesCredentials next = false)
    ∧ (init.method = some "GET".toList ∧ init.body = none →
        next.method = some "GET".toList ∧ next.body = none)
    ∧ (status ∈ [301, 302, 303] →
        (init.method.any fun m => m != "GET".toList && m != "HEAD".toList)
          = true → next.method = some "GET".toList ∧ next.body = none) := by
  simp only [nextRedirectHopInit] at h
  generalize hbase : (if status ≠ 307 ∧ status ≠ 308 ∧ init.method ≠ none
      ∧ init.method ≠ some "GET".toList ∧ init.method ≠ some "HEAD".toList
    then { init with method := some "GET".toList, body := none } else init) = base at h
  obtain ⟨url, hurl, hnext⟩ := Option.map_eq_some_iff.mp h
  have horigin : originOf web nextUrl = some url.origin := by
    simp only [originOf, hurl, Option.map_some]
  have hheaders : base.headers = init.headers := by
    rw [← hbase]
    split <;> rfl
  have hcarry : carriesCredentials base = carriesCredentials init := by
    unfold carriesCredentials
    rw [hheaders]
  have hget : init.method = some "GET".toList ∧ init.body = none →
      base.method = some "GET".toList ∧ base.body = none := by
    intro hinit
    rw [← hbase]
    split
    · exact ⟨rfl, rfl⟩
    · exact hinit
  have hrewrite : status ∈ [301, 302, 303] →
      (init.method.any fun m => m != "GET".toList && m != "HEAD".toList)
        = true → base.method = some "GET".toList ∧ base.body = none := by
    intro hstatus hmethod
    cases hm : init.method with
    | none => rw [hm] at hmethod; cases hmethod
    | some m =>
      rw [hm, Option.any_some, Bool.and_eq_true, bne_iff_ne, bne_iff_ne] at hmethod
      have hcond : status ≠ 307 ∧ status ≠ 308 ∧ init.method ≠ none
          ∧ init.method ≠ some "GET".toList
          ∧ init.method ≠ some "HEAD".toList := by
        simp only [mem_cons, not_mem_nil, or_false] at hstatus
        rw [hm]
        refine ⟨by omega, by omega, Option.some_ne_none m, ?_, ?_⟩
        · intro heq
          exact hmethod.1 (Option.some.inj heq)
        · intro heq
          exact hmethod.2 (Option.some.inj heq)
      rw [← hbase, if_pos hcond]
      exact ⟨rfl, rfl⟩
  -- the headers step changes neither method nor body
  have hkeep : next.method = base.method ∧ next.body = base.body := by
    rw [← hnext]
    repeat' split
    all_goals exact ⟨rfl, rfl⟩
  rw [hkeep.1, hkeep.2]
  refine ⟨?_, ?_, hget, hrewrite⟩
  · intro hne
    have hurlne : url.origin ≠ origin := by
      intro heq
      exact hne (by rw [horigin, heq])
    rw [← hnext]
    split
    next headers hh =>
      rw [if_pos hurlne]
      exact carriesCredentials_stripped base headers
    next hh =>
      unfold carriesCredentials
      rw [hh]
      rfl
  · intro hinit
    rw [← hnext]
    repeat' split
    · exact carriesCredentials_stripped base _
    all_goals exact hcarry.trans hinit

-- ======== what every request has

theorem Vetted.mono {before before' : List Event} (h : Vetted env web proxyUrl before r)
    (hsub : ∀ e ∈ before, e ∈ before') :
    Vetted env web proxyUrl before' r := by
  obtain ⟨hop, target, hok, hmem, hrest⟩ := h
  exact ⟨hop, target, hok, hsub _ hmem, hrest⟩

/-- A URL that was accepted and a dispatcher made for it. -/
theorem vetted_of_accepted (hok : resolveSafeFetchTarget env web hop r.url = .ok target)
    (hd : requestDispatcher web proxyUrl target = .ok r.dispatcher) :
    Vetted env web proxyUrl [.vetted r.url target] r := by
  obtain ⟨hopen, hip, hne⟩ := resolve_ok hok
  exact ⟨hop, target, hok, mem_singleton.mpr rfl, hopen,
    fun hproxy => dial_vetted hd hproxy hip hne⟩

theorem Sending.vetted
    (h : Sending env web server proxyUrl hop st current target r) :
    Vetted env web proxyUrl [.vetted st.currentUrl target] r := by
  have hok := h.accepted
  rw [← h.url] at hok ⊢
  exact vetted_of_accepted hok h.dispatcher

variable {events : List Event}

/-- Without requests there is nothing to guard. -/
theorem redirectSafe_of_quiet (hquiet : requests events = []) :
    RedirectSafe env web proxyUrl rawUrl events := by
  refine ⟨?_, ?_, ?_, ?_⟩
  · intro before r after hev
    have hmem : r ∈ requests events := by
      rw [hev]
      simp [requests]
    rw [hquiet] at hmem
    cases hmem
  all_goals rw [hquiet]
  · exact Nat.zero_le _
  · intro r hr
    cases hr
  · exact List.Pairwise.nil

/-- One more vetted request in front. -/
theorem RedirectSafe.cons {url : Text} (h : RedirectSafe env web proxyUrl rawUrl events)
    (hlength : (requests events).length ≤ maxRedirectHops)
    (hvetted : Vetted env web proxyUrl [.vetted url target] r)
    (hcredentials : originOf web r.url ≠ originOf web rawUrl → carriesCredentials r.init = false)
    (hfollows : ∀ s ∈ requests events, Follows env web rawUrl r s) :
    RedirectSafe env web proxyUrl rawUrl (.vetted url target :: .sent r :: events) where
  vetted := by
    intro before r' after hev
    -- the request is the first one, or among those behind it
    rcases before with - | ⟨b, - | ⟨b', before⟩⟩ <;> cases hev
    · exact hvetted
    · apply (h.vetted before r' after rfl).mono
      intro e he
      exact mem_cons_of_mem _ (mem_cons_of_mem _ he)
  bounded := Nat.succ_le_succ hlength
  credentials := by
    intro r' hr'
    rcases mem_cons.1 hr' with rfl | hr'
    · exact hcredentials
    · exact h.credentials r' hr'
  follows := List.Pairwise.cons hfollows h.follows

-- ======== credentials and body

/-- What the loop variables say about the initial request: its origin,
and that the credentials are gone when the current URL has another. -/
structure HopOk (web : Web) (rawUrl : Text) (st : Hop) : Prop where
  origin : ∀ current, web.parse st.currentUrl = some current →
    some (st.initialOrigin.getD current.origin) = originOf web rawUrl
  stripped : originOf web st.currentUrl ≠ originOf web rawUrl →
    carriesCredentials st.hopInit = false

/-- A hop that is followed leaves the next one sound. -/
theorem HopOk.next {next : Hop} (h : HopOk web rawUrl st)
    (hsend : Sending env web server proxyUrl hop st current target r)
    (hgoes : Goes web st current r next) : HopOk web rawUrl next := by
  have horigin := h.origin current hsend.parsed
  obtain ⟨response, -, hinit⟩ := hgoes.redirected
  refine ⟨?_, ?_⟩
  · intro current' _
    rw [hgoes.origin, Option.getD_some]
    exact horigin
  · intro hne
    rw [← horigin] at hne
    exact (nextInit_spec hinit).1 hne

/-- No request to another origin carries the caller's credentials. -/
theorem Sending.credentials (h : Sending env web server proxyUrl hop st current target r)
    (hst : HopOk web rawUrl st) (hne : originOf web r.url ≠ originOf web rawUrl) :
    carriesCredentials r.init = false := by
  rw [h.url] at hne
  rw [h.init]
  exact hst.stripped hne

/-- What a redirect keeps of the init, every later request has. -/
theorem init_from {p : Init → Prop}
    (keeps : ∀ {init next : Init} {status : Nat} {nextUrl origin : Text},
      nextRedirectHopInit web init status nextUrl origin = some next → p init → p next)
    (hop : Nat) (st : Hop) (hst : p st.hopInit) :
    ∀ r ∈ requests (redirectLoop env web server proxyUrl rawUrl hop st).events, p r.init := by
  refine all_requests (p := fun st => p st.hopInit) ?_ ?_ hop st hst
  · intro hop st current target r hst hsend
    rw [hsend.init]
    exact hst
  · intro hop st current target r next hst _ hgoes
    obtain ⟨response, -, hinit⟩ := hgoes.redirected
    exact keeps hinit hst

/-- Once secure, no plain http from now on unless the operator allows
it. -/
theorem secure_from (hop : Nat) (st : Hop) (hst : st.sawSecureHop = true) :
    ∀ r ∈ requests (redirectLoop env web server proxyUrl rawUrl hop st).events,
      schemeOf web r.url = some "http:".toList → isInsecureRedirectHopAllowed env = true := by
  refine all_requests (p := fun st => st.sawSecureHop = true) ?_ ?_ hop st hst
  · intro hop st current target r hst hsend hplain
    apply hsend.secure _ hst
    rw [hsend.url] at hplain
    simpa only [schemeOf, hsend.parsed, Option.map_some, Option.some.injEq] using hplain
  · intro hop st current target r next hst _ hgoes
    rw [hgoes.secure, hst]
    rfl

/-- What the request of a round means for the requests of all later
rounds. -/
theorem follows_of_goes {next : Hop} (hst : HopOk web rawUrl st)
    (hsend : Sending env web server proxyUrl hop st current target r)
    (hgoes : Goes web st current r next) :
    ∀ s ∈ requests (redirectLoop env web server proxyUrl rawUrl (hop + 1)
      next).events, Follows env web rawUrl r s := by
  obtain ⟨response, hanswer, hinit⟩ := hgoes.redirected
  have hspec := nextInit_spec hinit
  intro s hs
  refine ⟨?_, ?_, ?_⟩
  · intro hne
    rw [hsend.url] at hne
    exact init_from (fun h => (nextInit_spec h).2.1) _ _ (hspec.2.1 (hst.stripped hne)) s hs
  · intro hrew
    simp only [isRewritten, hanswer, Bool.and_eq_true, contains_iff_mem, hsend.init] at hrew
    exact init_from (fun h => (nextInit_spec h).2.2.1) _ _ (hspec.2.2.2 hrew.1 hrew.2) s hs
  · intro hsecure
    have hsaw : next.sawSecureHop = true := by
      rw [hsend.url] at hsecure
      simp only [schemeOf, hsend.parsed, Option.map_some, Option.some.injEq] at hsecure
      rw [hgoes.secure, hsecure, beq_self_eq_true, Bool.or_true]
    exact secure_from _ _ hsaw s hs

/-- Every round leaves one request less for the rounds behind it. -/
theorem redirectLoop_safe_from (hop : Nat) (st : Hop) (hle : hop ≤ maxRedirectHops)
    (hst : HopOk web rawUrl st) :
    RedirectSafe env web proxyUrl rawUrl (redirectLoop env web server proxyUrl rawUrl hop st).events
      ∧ (requests (redirectLoop env web server proxyUrl rawUrl hop st).events).length
        ≤ maxRedirectHops + 1 - hop := by
  revert hle hst
  refine redirectLoop_induction (P := fun hop st events => hop ≤ maxRedirectHops →
    HopOk web rawUrl st → RedirectSafe env web proxyUrl rawUrl events
      ∧ (requests events).length ≤ maxRedirectHops + 1 - hop) ?_ ?_ ?_ hop st
  · intro hop st events hquiet _ _
    refine ⟨redirectSafe_of_quiet hquiet, ?_⟩
    rw [hquiet]
    exact Nat.zero_le _
  · intro hop st current target r hsend hle hst
    refine ⟨(redirectSafe_of_quiet rfl).cons (Nat.zero_le _) hsend.vetted
      (hsend.credentials hst) (fun _ hs => nomatch hs), ?_⟩
    show 1 ≤ _
    omega
  · intro hop st current target r next hlt hsend hgoes ih _ hst
    obtain ⟨hsafe, hlength⟩ := ih hlt (hst.next hsend hgoes)
    refine ⟨hsafe.cons (by omega) hsend.vetted (hsend.credentials hst)
      (follows_of_goes hst hsend hgoes), ?_⟩
    show (requests _).length + 1 ≤ _
    omega

/-- Every request of a redirect chain is safe. -/
theorem redirectLoop_safe (init : Init) :
    RedirectSafe env web proxyUrl rawUrl
      (redirectLoop env web server proxyUrl rawUrl 0
        { currentUrl := rawUrl, hopInit := init }).events := by
  have hst : HopOk web rawUrl { currentUrl := rawUrl, hopInit := init } := by
    refine ⟨?_, ?_⟩
    · intro current hparse
      simp only [Option.getD_none, originOf, hparse, Option.map_some]
    · intro hne
      exact absurd rfl hne
  exact (redirectLoop_safe_from 0 _ (Nat.zero_le _) hst).1

/-- What the path that follows no redirect can do. -/
theorem singleFetch_cases (init : Init) :
    requests (singleFetch env web server rawUrl init proxyUrl).events = []
    ∨ ∃ target r,
        resolveSafeFetchTarget env web 0 r.url = .ok target
        ∧ requestDispatcher web proxyUrl target = .ok r.dispatcher
        ∧ r.url = rawUrl
        ∧ (singleFetch env web server rawUrl init proxyUrl).events
            = [.vetted r.url target, .sent r] := by
  unfold singleFetch
  cases hv : resolveSafeFetchTarget env web 0 rawUrl with
  | error e => exact .inl rfl
  | ok target =>
    cases hd : requestDispatcher web proxyUrl target with
    | error e => simp only [hd]; exact .inl rfl
    | ok d =>
      simp only [hd]
      refine .inr ⟨target, ⟨rawUrl, init, d, server 0⟩, hv, hd, rfl, ?_⟩
      cases server 0 with
      | failed => rfl
      | answered response =>
        simp only
        split <;> rfl

/-- The path that follows no redirect sends one request at most. -/
theorem singleFetch_safe (init : Init) :
    RedirectSafe env web proxyUrl rawUrl
      (singleFetch env web server rawUrl init proxyUrl).events := by
  rcases @singleFetch_cases env web server proxyUrl rawUrl init with
    hquiet | ⟨target, r, hok, hd, hurl, hev⟩
  · exact redirectSafe_of_quiet hquiet
  · rw [hev]
    exact (redirectSafe_of_quiet rfl).cons (Nat.zero_le _) (vetted_of_accepted hok hd)
      (fun hne => absurd (by rw [hurl]) hne) (fun _ hs => nomatch hs)

end Rounds

-- ======== the theorem

/-- Redirect safety: a guarded fetch, with or without redirects and
proxies, of any request, against any servers and any resolver. -/
theorem withSafeFetch_redirect_safe (env : Env) (web : Web)
    (server : Nat → Answer) (rawUrl : Text) (init : Init)
    (opts : FetchOpts) (hguard : opts.guard ≠ some false) :
    RedirectSafe env web opts.proxyUrl rawUrl
      (withSafeFetch env web server rawUrl init opts).events := by
  have hon : opts.guard.getD true ≠ false := by
    cases hg : opts.guard with
    | none => exact Bool.noConfusion
    | some b => exact fun hb => hguard (hg.trans (congrArg some hb))
  unfold withSafeFetch
  rw [if_neg hon]
  split
  · exact redirectLoop_safe init
  · exact singleFetch_safe init

/-- A web of three hosts; the names answer with one public address. -/
def smallWeb : Web where
  parse url :=
    if url = "https://a.example/".toList then
      some ⟨"https:".toList, "a.example".toList, "https://a.example".toList⟩
    else if url = "https://b.example/".toList then
      some ⟨"https:".toList, "b.example".toList, "https://b.example".toList⟩
    else if url = "http://127.0.0.1/".toList then
      some ⟨"http:".toList, "127.0.0.1".toList, "http://127.0.0.1".toList⟩
    else if url = "http://proxy.example/".toList then
      some ⟨"http:".toList, "proxy.example".toList, "http://proxy.example".toList⟩
    else none
  join location _ := some location
  lookup _ _ := .answered ["93.184.216.34".toList]
  lookup_ne_nil := by
    intro hop host addresses h
    cases h
    exact cons_ne_nil _ _
  lookup_isIP := by
    intro hop host addresses h a ha
    cases h
    rw [mem_singleton.mp ha]
    exact .inl (by decide +kernel)

/-- A POST with credentials and a body. -/
def posted : Init where
  method := some "POST".toList
  headers := some [("Authorization".toList, "secret".toList)]
  body := some "payload".toList

/-- A server that redirects the first request to another origin and
answers the second. -/
def redirectOnce : Nat → Answer
  | 0 => .answered { status := 302, location := some "https://b.example/".toList }
  | _ => .answered { status := 200 }

/-- A post that is redirected once. -/
theorem withSafeFetch_redirect_safe_post :
    RedirectSafe {} smallWeb none "https://a.example/".toList
        (withSafeFetch {} smallWeb redirectOnce "https://a.example/".toList
          posted { followRedirects := true }).events
      ∧ (requests (withSafeFetch {} smallWeb redirectOnce "https://a.example/".toList posted
          { followRedirects := true }).events).map
            (fun r => (r.url, r.init.method, r.init.body, carriesCredentials r.init))
        = [("https://a.example/".toList, some "POST".toList, some "payload".toList, true),
            ("https://b.example/".toList, some "GET".toList, none, false)] :=
  ⟨withSafeFetch_redirect_safe {} smallWeb redirectOnce
      "https://a.example/".toList posted { followRedirects := true }
      (by decide),
    by decide +kernel⟩

/-- Two ways past the vetted address. Without the guard a URL that
`resolveSafeFetchTarget` refuses is fetched all the same; behind an HTTP
proxy a vetted URL is fetched by name, at an address nobody vetted. -/
theorem withSafeFetch_unpinned :
    (resolveSafeFetchTarget {} smallWeb 0 "http://127.0.0.1/".toList
        = .error (.ssrfBlocked "Blocked internal address: 127.0.0.1".toList)
      ∧ (withSafeFetch {} smallWeb (fun _ => .answered { status := 200 })
          "http://127.0.0.1/".toList {} { guard := some false }).events
        = [.sent { url := "http://127.0.0.1/".toList, init := {},
                   dispatcher := .direct,
                   answer := .answered { status := 200 } }])
    ∧ (withSafeFetch {} smallWeb (fun _ => .answered { status := 200 })
          "https://a.example/".toList {}
          { followRedirects := true,
            proxyUrl := some "http://proxy.example/".toList }).events
        = [.vetted "https://a.example/".toList (some ["93.184.216.34".toList]),
            .sent { url := "https://a.example/".toList, init := {},
                    dispatcher := .httpProxy,
                    answer := .answered { status := 200 } }]
    ∧ Dispatcher.httpProxy.dial "a.example".toList = .byName := by
  refine ⟨⟨?_, ?_⟩, ?_, ?_⟩
  all_goals decide +kernel

end OpenWA.Ssrf
