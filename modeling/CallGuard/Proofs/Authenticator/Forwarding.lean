import CallGuard.Proofs.Authenticator.Outcome
import CallGuard.Proofs.Propagation.Delivery

/-! # What travels on

A request that gets past a check travels on with other headers and is the same otherwise. Each
name is told by itself: the propagation headers hold what was found out about the caller and
nothing that came in, listed headers are gone, and every other header is as it was. -/

namespace CallGuard

/-! ## Propagation headers -/

namespace Propagation

/-- The headers in which a caller travels when there are no others. Nobody travels in none. -/
def written (o : Options) : Option Identity → Headers
  | none => .empty
  | some i => write o i .empty

/-- What is written under a propagation header does not depend on the headers before. -/
theorem values_write_eq_written (o : Options) (i : Identity) (h : Headers) {name : HeaderName}
    (hname : name ∈ headerNames) :
    (write o i h).values name = (written o (some i)).values name := by
  rw [written, values_write, values_write, if_pos hname, if_pos hname]

/-- An identity is read off the values of the propagation headers. -/
theorem read?_congr {h k : Headers} (heq : ∀ name ∈ headerNames, h.values name = k.values name) :
    read? h = read? k := by
  have htext : ∀ name ∈ headerNames, h.text? name = k.text? name := by
    intro name hname
    rw [Headers.text?, Headers.text?, heq name hname]
  have hbounded : ∀ name ∈ headerNames, bounded? h name = bounded? k name := by
    intro name hname
    rw [bounded?, bounded?, htext name hname]
  have hnonempty : ∀ name ∈ headerNames, nonempty? h name = nonempty? k name := by
    intro name hname
    rw [nonempty?, nonempty?, htext name hname]
  rw [read?, read?, hnonempty .authSubject (by decide), hnonempty .authType (by decide),
    htext .authName (by decide), hbounded .authRoles (by decide),
    hbounded .authScopes (by decide), hbounded .authClaims (by decide)]

end Propagation

namespace Authenticator

variable {ε β : Type}

/-! ## Headers -/

/-- The authenticator answers for a header by writing it itself. -/
def Propagates (a : Authenticator) (name : HeaderName) : Prop :=
  a.propagation.isSome = true ∧ name ∈ Propagation.headerNames

/-- The headers with which a request travels on once its caller is found out. -/
def headersFor (a : Authenticator) (caller : Option Identity) (h : Headers) : Headers :=
  match caller with
  | none => a.stripHeaders h
  | some i => a.forwardHeaders i h

variable {a : Authenticator} {caller : Option Identity} {h : Headers} {name : HeaderName}

theorem values_headersFor_of_propagates {o : Propagation.Options} (ho : a.propagation = some o)
    (hname : name ∈ Propagation.headerNames) :
    (a.headersFor caller h).values name = (Propagation.written o caller).values name := by
  cases caller with
  | none =>
      have hstrips : a.strips name = true :=
        (a.strips_iff name).mpr (.inr ⟨by rw [ho]; rfl, hname⟩)
      rw [headersFor, values_stripHeaders, if_pos hstrips]
      rfl
  | some i =>
      have hwrites : a.headersFor (some i) h = Propagation.write o i (a.stripHeaders h) := by
        simp only [headersFor, forwardHeaders, ho]
      rw [hwrites, Propagation.values_write_eq_written o i _ hname]

/-- A header that the authenticator does not write is only looked up in its list. -/
theorem values_headersFor_of_not_propagates (hnot : ¬ a.Propagates name) :
    (a.headersFor caller h).values name = if name ∈ a.strip then [] else h.values name := by
  have hstripped :
      (a.stripHeaders h).values name = if name ∈ a.strip then [] else h.values name := by
    have hiff : a.strips name = true ↔ name ∈ a.strip := by
      rw [a.strips_iff name]
      exact or_iff_left hnot
    rw [values_stripHeaders]
    simp only [hiff]
  cases caller with
  | none => exact hstripped
  | some i =>
      cases ho : a.propagation with
      | none => simpa only [headersFor, forwardHeaders, ho] using hstripped
      | some o =>
          have hother : name ∉ Propagation.headerNames :=
            fun hname => hnot ⟨by rw [ho]; rfl, hname⟩
          simp only [headersFor, forwardHeaders, ho]
          rw [Propagation.values_write, if_neg hother, hstripped]

/-! ## Requests -/

/-- On every way in which a caller is found out, the request changes in its headers only. -/
theorem request_of_ok {now : Moment} {cache : CredentialCache Identity} {r : Request ε β}
    (hok : (a.authenticate now cache r).result = .ok caller) :
    (a.authenticate now cache r).request = r.withHeaders (a.headersFor caller r.headers) := by
  have hcourse := a.authenticate_course now cache r
  generalize a.authenticate now cache r = o at hcourse hok
  cases hcourse with
  | letThrough hs =>
      cases hok
      rfl
  | unpresented hs hc => cases hok
  | kept hs hc hk =>
      cases hok
      rfl
  | refused hs hc hk hv => cases hok
  | unstorable hs hc hk hv he => cases hok
  | verified hs hc hk hv he =>
      cases hok
      rfl

/-- A request and how it travels on, once its caller is found out. -/
structure Forwards (a : Authenticator) (caller : Option Identity) (r s : Request ε β) : Prop where
  method_eq : s.method = r.method
  peer_eq : s.peer = r.peer
  extensions_eq : s.extensions = r.extensions
  body_eq : s.body = r.body
  written : ∀ o, a.propagation = some o → ∀ name ∈ Propagation.headerNames,
    s.headers.values name = (Propagation.written o caller).values name
  stripped : ∀ name, ¬ a.Propagates name → name ∈ a.strip → s.headers.values name = []
  kept : ∀ name, ¬ a.Propagates name → name ∉ a.strip →
    s.headers.values name = r.headers.values name
  /-- Whom the next hop reads is told by the caller and the options alone. -/
  read : ∀ o, a.propagation = some o →
    Propagation.read? s.headers = Propagation.read? (Propagation.written o caller)

/-- Headers are disciplined. Whenever a check succeeds, with a kept identity or a new one or for a
method that is let through, the propagation headers hold what is written for the caller into no
headers at all, the other listed headers have no value, and nothing else of the request changes. -/
theorem authenticate_forwards {now : Moment} {cache : CredentialCache Identity} {r : Request ε β}
    (hok : (a.authenticate now cache r).result = .ok caller) :
    a.Forwards caller r (a.authenticate now cache r).request := by
  rw [request_of_ok hok]
  have hwritten : ∀ o, a.propagation = some o → ∀ name ∈ Propagation.headerNames,
      (a.headersFor caller r.headers).values name =
        (Propagation.written o caller).values name :=
    fun o ho name hname => values_headersFor_of_propagates ho hname
  refine ⟨rfl, rfl, rfl, rfl, hwritten, ?_, ?_, ?_⟩
  · intro name hnot hlisted
    exact (values_headersFor_of_not_propagates hnot).trans (if_pos hlisted)
  · intro name hnot hlisted
    exact (values_headersFor_of_not_propagates hnot).trans (if_neg hlisted)
  · intro o ho
    exact Propagation.read?_congr (hwritten o ho)

/-! ## A header that is listed and written -/

def forwardedSample : Identity :=
  ((Identity.ofSubject "alice").addRoles ["reader"]).withKind "token"

/-- Tokens do not travel. Roles are written, although their header is listed as well. The
credential is the name of the method. -/
def forwarderSample : Authenticator where
  verifier _ credential _ :=
    if credential = "Get" then .ok forwardedSample else .error (.foreign "unknown credential")
  extractor call := some call.method.name
  skip := []
  strip := [.authorization, .authRoles]
  propagation := some .all
  exposeErrors := false

def traceSample : HeaderName := ⟨"x-trace", by decide⟩

/-- A caller that shows a token and makes up a name and two lists of roles. -/
def madeUpSample : Request Unit Unit :=
  { Request.ofMethod ⟨"Users", "Get"⟩ () () with
    headers := ⟨[(.authRoles, ⟨"[\"admin\"]".toUTF8, by decide +kernel⟩),
      (traceSample, ⟨"1".toUTF8, by decide +kernel⟩),
      (.authorization, ⟨"Bearer t".toUTF8, by decide +kernel⟩),
      (.authRoles, ⟨⟨#[0x80]⟩, by decide +kernel⟩),
      (.authName, ⟨"mallory".toUTF8, by decide +kernel⟩),
      (traceSample, ⟨"2".toUTF8, by decide +kernel⟩)]⟩ }

theorem authenticate_forwards_sample :
    (forwarderSample.authenticate ⟨0, 0⟩ .off madeUpSample).result = .ok (some forwardedSample) ∧
      forwarderSample.Forwards (some forwardedSample) madeUpSample
        (forwarderSample.authenticate ⟨0, 0⟩ .off madeUpSample).request := by
  have hok : (forwarderSample.authenticate ⟨0, 0⟩ .off madeUpSample).result =
      .ok (some forwardedSample) := rfl
  exact ⟨hok, authenticate_forwards hok⟩

end Authenticator

end CallGuard
