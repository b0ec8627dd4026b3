/-
Where an accepted URL is fetched: `resolveSafeFetchTarget` accepts
addresses that are not blocked, and every dispatcher but that of an HTTP
proxy dials those addresses and no others.

# Addresses in, addresses out

A target is a list of addresses or, for a host that is itself an address,
nothing; `vettedAddresses` reads both as a list. `resolve_ok` is all the
fetch paths need to know of the resolver, `dial_vetted` all they need to
know of dispatchers.
-/
import OpenWA.Ssrf.Fetch

namespace OpenWA.Ssrf

open Inet Text

-- ======== targets

/-- The host a URL names, without brackets. -/
def hostOf (web : Web) (url : Text) : Text :=
  ((web.parse url).map fun u => stripBrackets u.hostname).getD []

/-- The addresses a vetted URL may be fetched at. -/
def vettedAddresses (host : Text) : Option (List Text) → List Text
  | some addresses => addresses
  | none => [host]

/-- Whether the fetch leaves through an HTTP or HTTPS proxy. -/
def isHttpProxied (web : Web) : Option Text → Bool
  | some (c :: rest) =>
    match web.parse (c :: rest) with
    | some url => url.protocol == "http:".toList
        || url.protocol == "https:".toList
    | none => false
  | _ => false

/-- An address that was answered by the resolver or accepted as a
literal. -/
def isIP (a : Text) : Prop := isIPv4 a = true ∨ isIPv6 a = true

variable {target : Option (List Text)} {host : Text}

/-- What an accepted target is: one that is not blocked, unless the
operator listed the host, and that consists of addresses. -/
theorem resolve_ok {env : Env} {web : Web} {hop : Nat} {url : Text}
    (h : resolveSafeFetchTarget env web hop url = .ok target) :
    (toLowerCase (hostOf web url) ∈ getAllowedHosts env
      ∨ ∀ a ∈ vettedAddresses (hostOf web url) target, isBlockedAddress a = false)
    ∧ (∀ a ∈ vettedAddresses (hostOf web url) target, isIP a)
    ∧ vettedAddresses (hostOf web url) target ≠ [] := by
  have hlookup : ∀ {host as}, lookupWithDeadline web hop host = .ok as →
      (∀ a ∈ as, isIP a) ∧ as ≠ [] := by
    intro host as hl
    unfold lookupWithDeadline at hl
    split at hl
    next ha =>
      cases hl
      exact ⟨web.lookup_isIP ha, web.lookup_ne_nil ha⟩
    all_goals cases hl
  cases hp : web.parse url with
  | none => simp only [resolveSafeFetchTarget, hp] at h; cases h
  | some u =>
    have hhost : hostOf web url = stripBrackets u.hostname := by
      simp only [hostOf, hp, Option.map_some, Option.getD_some]
    rw [hhost]
    simp only [resolveSafeFetchTarget, hp] at h
    split at h
    · cases h
    split at h
    next hallow =>
      -- listed by the operator: resolved, not judged
      cases hl : lookupWithDeadline web hop (stripBrackets u.hostname) with
      | error e => rw [hl] at h; cases h
      | ok as =>
        rw [hl] at h
        cases h
        exact ⟨.inl hallow, hlookup hl⟩
    next =>
      split at h
      next hip =>
        -- a literal: judged, and its own address
        split at h
        · cases h
        next hopen =>
          cases h
          have hopen' := Bool.eq_false_iff.mpr hopen
          refine ⟨.inr ?_, ?_, List.cons_ne_nil _ _⟩
          · intro a ha
            rw [List.mem_singleton.mp ha]
            exact hopen'
          · intro a ha
            rw [List.mem_singleton.mp ha]
            exact (Bool.or_eq_true _ _).mp hip
      next =>
        cases hl : lookupWithDeadline web hop (stripBrackets u.hostname) with
        | error e => rw [hl] at h; cases h
        | ok as =>
          rw [hl] at h
          simp only at h
          split at h
          · cases h
          split at h
          · cases h
          next hfind =>
            cases h
            refine ⟨.inr ?_, hlookup hl⟩
            intro a ha
            have := List.find?_eq_none.mp hfind a ha
            exact Bool.eq_false_iff.mpr this

theorem socksHosts_eq (hne : vettedAddresses host target ≠ []) :
    socksHosts host target = vettedAddresses host target := by
  cases target with
  | none => rfl
  | some as =>
    cases as with
    | nil => exact absurd rfl hne
    | cons a rest => rfl

theorem isIP_iff {a : Text} : (isIPv4 a || isIPv6 a) = true ↔ isIP a :=
  Bool.or_eq_true _ _ ▸ Iff.rfl

section

variable (hip : ∀ a ∈ vettedAddresses host target, isIP a) (hne : vettedAddresses host target ≠ [])
include hip hne

/-- A SOCKS5 request names the vetted addresses. -/
theorem dial_socks5 :
    (Dispatcher.socks5 target).dial host = .addresses (vettedAddresses host target) := by
  simp only [Dispatcher.dial, socksHosts_eq hne]
  rw [if_pos]
  rw [List.all_eq_true]
  intro a ha
  exact isIP_iff.mpr (hip a ha)

/-- A SOCKS4 request names the IPv4 addresses among the vetted ones, and
fails when there are none. -/
theorem dial_socks4 :
    ∃ as, (Dispatcher.socks4 target).dial host = .addresses as
      ∧ ∀ a ∈ as, a ∈ vettedAddresses host target := by
  simp only [Dispatcher.dial, socksHosts_eq hne]
  by_cases hv4 : (vettedAddresses host target).filter (fun h => isIPv4 h) ≠ []
  · rw [if_pos hv4]
    exact ⟨_, rfl, fun a ha => List.mem_of_mem_filter ha⟩
  · -- no IPv4 among addresses: the first one is IPv6
    have hfirst : ((vettedAddresses host target).head?.any fun h => isIPv6 h) = true := by
      obtain ⟨a, rest, hcons⟩ := List.exists_cons_of_ne_nil hne
      have ha : a ∈ vettedAddresses host target := by
        rw [hcons]
        exact List.mem_cons_self ..
      have hnot : ¬ isIPv4 a = true := by
        intro h4
        refine hv4 (List.ne_nil_of_mem (a := a) ?_)
        exact List.mem_filter.mpr ⟨ha, h4⟩
      rw [hcons]
      exact (hip a ha).resolve_left hnot
    rw [if_neg hv4, if_pos hfirst]
    exact ⟨[], rfl, fun a ha => absurd ha List.not_mem_nil⟩

end

/-- Without an HTTP proxy in the way a dispatcher dials vetted addresses
only. -/
theorem dial_vetted {web : Web} {proxyUrl : Option Text} {d : Dispatcher}
    (hd : requestDispatcher web proxyUrl target = .ok d)
    (hproxy : isHttpProxied web proxyUrl = false) (hip : ∀ a ∈ vettedAddresses host target, isIP a)
    (hne : vettedAddresses host target ≠ []) :
    ∃ as, d.dial host = .addresses as ∧ ∀ a ∈ as, a ∈ vettedAddresses host target := by
  unfold requestDispatcher at hd
  split at hd
  next c rest =>
    unfold createProxyDispatcher at hd
    cases hp : web.parse (c :: rest) with
    | none => rw [hp] at hd; cases hd
    | some url =>
      simp only [hp] at hd
      split at hd
      next hhttp =>
        simp only [isHttpProxied, hp, Bool.or_eq_false_iff, beq_eq_false_iff_ne, ne_eq] at hproxy
        rcases hhttp with hhttp | hhttp
        · exact absurd hhttp hproxy.1
        · exact absurd hhttp hproxy.2
      next =>
        split at hd
        · cases hd
          exact dial_socks4 hip hne
        · split at hd
          · cases hd
            exact ⟨_, dial_socks5 hip hne, fun a ha => ha⟩
          · cases hd
  next =>
    split at hd
    next as =>
      cases hd
      exact ⟨as, rfl, fun a ha => ha⟩
    next =>
      cases hd
      have hhost : isIP host := hip host (List.mem_singleton.mpr rfl)
      refine ⟨[host], ?_, fun a ha => ha⟩
      show dialHost host = _
      unfold dialHost
      rw [if_pos (isIP_iff.mpr hhost)]

end OpenWA.Ssrf
