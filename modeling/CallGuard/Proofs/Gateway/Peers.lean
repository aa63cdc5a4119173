import CallGuard.Proofs.Gateway.Spoofing
import CallGuard.Proofs.Trust.Addresses

/-! # Gateways known by their addresses

A gateway may be believed for the address that it calls from. Which addresses are believed follows
from their numbers and texts alone, and a version 4 address counts the same in its mapped form. -/

namespace CallGuard

/-- What the headers of a call answer once the call is believed: the identity that they hold, or
an error when they hold none. -/
def GatewayHeaders.answer (g : GatewayHeaders) (h : Headers) : Except Failure (Option Identity) :=
  match g.identity h with
  | .ok i => .ok (some i)
  | .error e => .error (.error e)

namespace GatewayConfig

variable {ε β : Type}

/-- The answer to a call from an address that is not believed. -/
def untrusted : Except Failure (Option Identity) :=
  .error (.error (.unauthenticated "untrusted gateway"))

/-- A call passes the trust check of a gateway when its headers answer it. -/
def Passes (c : GatewayConfig) (a : Authenticator) (now : Moment) (r : Request ε β) : Prop :=
  ∃ g, c.headers = .ok g ∧ (a.authenticate now .off r).result = g.answer r.headers

/-- Headers never answer that the gateway is not believed. -/
theorem answer_ne_untrusted (g : GatewayHeaders) (h : Headers) : g.answer h ≠ untrusted := by
  unfold GatewayHeaders.answer GatewayHeaders.identity
  cases h.trimmed? g.subject with
  | none => simp [untrusted]
  | some subject => simp [untrusted]

/-- Only the address of a call is its signal when a gateway is known by its address. -/
theorem signals_iff_of_peerAddress {c : GatewayConfig} (h : c.trustSignal = .peerAddress)
    (call : Call) (signal : String) :
    c.Signals call signal ↔ ∃ peer, call.peer = some peer ∧ signal = peer.canonical.text := by
  constructor
  · intro hs
    cases hs with
    | header ht _ _ => simp [h] at ht
    | peer _ hp => exact ⟨_, hp, rfl⟩
  · rintro ⟨peer, hp, rfl⟩
    exact .peer h hp

theorem trusts_withPeer_iff {c : GatewayConfig} (h : c.trustSignal = .peerAddress)
    (r : Request ε β) (peer : Address) :
    c.Trusts (r.withPeer peer).call ↔
      Trust.isTrusted c.trustedValues peer.canonical.text = true := by
  simp only [Trusts, signals_iff_of_peerAddress h]
  constructor
  · rintro ⟨_, ⟨other, hother, rfl⟩, htrusted⟩
    obtain rfl : peer = other := Option.some.inj hother
    exact htrusted
  · intro htrusted
    exact ⟨_, ⟨peer, rfl, rfl⟩, htrusted⟩

/-! ## What a gateway makes of an address -/

namespace Built

variable {c : GatewayConfig} {a : Authenticator} {g : GatewayHeaders} {source : TrustSource}
  {r : Request ε β}

theorem extractor_withPeer (h : c.Built a g source) (hsignal : c.trustSignal = .peerAddress)
    (r : Request ε β) (peer : Address) :
    a.extractor (r.withPeer peer).call = some peer.canonical.text := by
  rw [h.extractor_eq_some_iff, signals_iff_of_peerAddress hsignal]
  exact ⟨peer, rfl, rfl⟩

/-- A call without an address shows no credential. -/
theorem authenticate_of_no_peer (h : c.Built a g source) (hsignal : c.trustSignal = .peerAddress)
    (hskip : ¬ c.Skips r.method) (hpeer : r.peer = none) (now : Moment) :
    (a.authenticate now .off r).result =
      .error (.error (.unauthenticated "missing credential")) := by
  have hextract : a.extractor r.call = none := by
    apply Option.eq_none_iff_forall_ne_some.mpr
    intro signal hs
    rw [h.extractor_eq_some_iff, signals_iff_of_peerAddress hsignal] at hs
    obtain ⟨peer, hp, -⟩ := hs
    rw [Request.call, hpeer] at hp
    cases hp
  rw [Authenticator.authenticate_of_none (h.not_selected hskip) hextract]

theorem authenticate_of_untrusted (h : c.Built a g source)
    (hsignal : c.trustSignal = .peerAddress) (hskip : ¬ c.Skips r.method) {peer : Address}
    (htrust : Trust.isTrusted c.trustedValues peer.canonical.text ≠ true) (now : Moment) :
    (a.authenticate now .off (r.withPeer peer)).result = untrusted := by
  have hnot : ¬ c.Trusts (r.withPeer peer).call := fun hcall =>
    htrust ((trusts_withPeer_iff hsignal r peer).mp hcall)
  rw [h.authenticate_of_not_trusts now (r.withPeer peer) hskip hnot,
    h.extractor_withPeer hsignal r peer]
  rfl

theorem passes_iff (h : c.Built a g source) (hsignal : c.trustSignal = .peerAddress)
    (hskip : ¬ c.Skips r.method) (peer : Address) (now : Moment) :
    c.Passes a now (r.withPeer peer) ↔
      Trust.isTrusted c.trustedValues peer.canonical.text = true := by
  constructor
  · rintro ⟨g', -, hresult⟩
    by_contra htrust
    rw [h.authenticate_of_untrusted hsignal hskip htrust now] at hresult
    exact answer_ne_untrusted g' _ hresult.symm
  · intro htrust
    have hcall := (trusts_withPeer_iff hsignal r peer).mpr htrust
    exact ⟨g, h.headers, h.authenticate_of_trusts now (r.withPeer peer) hskip hcall⟩

/-- Two addresses that stand for the same one are treated alike. -/
theorem authenticate_withPeer (h : c.Built a g source) (hsignal : c.trustSignal = .peerAddress)
    (hskip : ¬ c.Skips r.method) {p q : Address} (hpq : p.canonical = q.canonical)
    (now : Moment) :
    (a.authenticate now .off (r.withPeer p)).result =
        (a.authenticate now .off (r.withPeer q)).result ∧
      (a.authenticate now .off (r.withPeer p)).request =
        (a.authenticate now .off (r.withPeer q)).request.withPeer p := by
  have hselect := h.not_selected hskip
  have hp := h.extractor_withPeer hsignal r p
  have hq := h.extractor_withPeer hsignal r q
  rw [hpq] at hp
  -- The verifier of a gateway looks at the signal and the headers, and at no address.
  have hverdict : a.verifier now q.canonical.text (r.withPeer p).call =
      a.verifier now q.canonical.text (r.withPeer q).call := by
    rw [h.verifier]
    rfl
  rw [Authenticator.authenticate_off_of_some (r := r.withPeer p) hselect hp,
    Authenticator.authenticate_off_of_some (r := r.withPeer q) hselect hq, hverdict]
  cases a.verifier now q.canonical.text (r.withPeer q).call with
  | error f => exact ⟨rfl, rfl⟩
  | ok i => exact ⟨rfl, rfl⟩

end Built

/-- A gateway that is known by its address is believed for what its address is. A version 4
address and its mapped form get the same answer and leave the same request behind, and they pass
when a trusted value is the text of the address or a range that holds it. Any other version 6
address passes when its text is a trusted value. A call from an address that does not pass is
refused, and so is one without an address. -/
theorem build_checks_peers {c : GatewayConfig} {a : Authenticator} (hbuild : c.build = .ok a)
    (hsignal : c.trustSignal = .peerAddress) {r : Request ε β} (hskip : ¬ c.Skips r.method)
    (now : Moment) :
    (∀ x : BitVec 32,
      (a.authenticate now .off (r.withPeer (.v6 (Address.mapped x)))).result =
        (a.authenticate now .off (r.withPeer (.v4 x))).result ∧
      (a.authenticate now .off (r.withPeer (.v6 (Address.mapped x)))).request =
        (a.authenticate now .off (r.withPeer (.v4 x))).request.withPeer
          (.v6 (Address.mapped x)) ∧
      ∀ peer : Address, peer = .v4 x ∨ peer = .v6 (Address.mapped x) →
        (c.Passes a now (r.withPeer peer) ↔
          ∃ value ∈ c.trustedValues, value = (Address.v4 x).text ∨ Trust.Holds value x)) ∧
    (∀ y : BitVec 128, (∀ x, y ≠ Address.mapped x) →
      (c.Passes a now (r.withPeer (.v6 y)) ↔ (Address.v6 y).text ∈ c.trustedValues)) ∧
    (∀ peer, ¬ c.Passes a now (r.withPeer peer) →
      (a.authenticate now .off (r.withPeer peer)).result = untrusted) ∧
    (r.peer = none →
      (a.authenticate now .off r).result =
        .error (.error (.unauthenticated "missing credential"))) := by
  obtain ⟨g, source, h⟩ := exists_built hbuild
  refine ⟨fun x => ?_, fun y hy => ?_, fun peer hpeer => ?_, fun hpeer => ?_⟩
  · obtain ⟨hresult, hrequest⟩ :=
      h.authenticate_withPeer (q := .v4 x) hsignal hskip (Address.canonical_mapped x) now
    refine ⟨hresult, hrequest, fun peer hpeer => ?_⟩
    have hcanonical : peer.canonical = .v4 x := by
      rcases hpeer with rfl | rfl
      · rfl
      · exact Address.canonical_mapped x
    rw [h.passes_iff hsignal hskip, hcanonical]
    exact Trust.isTrusted_dotted_iff
  · rw [h.passes_iff hsignal hskip, Address.canonical_of_not_mapped hy]
    exact Trust.isTrusted_colons_iff
  · rw [h.passes_iff hsignal hskip] at hpeer
    exact h.authenticate_of_untrusted hsignal hskip hpeer now
  · exact h.authenticate_of_no_peer hsignal hskip hpeer now

/-! ## A gateway in a network -/

/-- A gateway that calls from its own network or from the same host. -/
def networkConfig : GatewayConfig :=
  minimal "X-User" .peerAddress ["10.0.0.0/8", "::1"]

def networkCall : Request Unit Unit :=
  Request.ofMethod ⟨"Users", "Get"⟩ () ()

/-- The mapped form of an address in the network is believed and so is the host itself, an address
outside of the network is not. -/
theorem build_checks_peers_sample :
    ∃ a, networkConfig.build = .ok a ∧ networkConfig.trustSignal = .peerAddress ∧
      ¬ networkConfig.Skips networkCall.method ∧
      networkConfig.Passes a ⟨0, 0⟩
        (networkCall.withPeer (.v6 (Address.mapped 0x0A010203#32))) ∧
      ¬ networkConfig.Passes a ⟨0, 0⟩ (networkCall.withPeer (.v4 0x0B010203#32)) ∧
      networkConfig.Passes a ⟨0, 0⟩ (networkCall.withPeer (.v6 1#128)) ∧
      (a.authenticate ⟨0, 0⟩ .off networkCall).result =
        .error (.error (.unauthenticated "missing credential")) := by
  obtain ⟨a, h⟩ : ∃ a, networkConfig.build = .ok a := Checks.exists_eq_ok_of_toBool rfl
  have hskip : ¬ networkConfig.Skips networkCall.method := not_skips_of_nil rfl _
  have hhost : ∀ x, 1#128 ≠ Address.mapped x := by
    intro x hx
    have hvalue := congrArg BitVec.toNat hx
    have hone : (1#128).toNat = 1 := rfl
    rw [Address.toNat_mapped, hone] at hvalue
    omega
  obtain ⟨hfour, hsix, -, hnone⟩ := build_checks_peers h rfl hskip ⟨0, 0⟩
  refine ⟨a, h, rfl, hskip, ?_, ?_, ?_, hnone rfl⟩
  · apply ((hfour 0x0A010203#32).2.2 _ (.inr rfl)).mpr
    exact Trust.isTrusted_dotted_iff.mp (by decide +kernel)
  · rw [(hfour 0x0B010203#32).2.2 _ (.inl rfl)]
    exact fun hheld => absurd (Trust.isTrusted_dotted_iff.mpr hheld) (by decide +kernel)
  · exact (hsix 1#128 hhost).mpr (by decide +kernel)

end GatewayConfig

end CallGuard
