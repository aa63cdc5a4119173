import CallGuard.Proofs.Authenticator.Outcome
import CallGuard.Proofs.Gateway.Construction

/-! # Made-up gateway headers

A caller that is not the gateway can send any headers. Two requests that differ only in headers
that a caller could make up are told apart by a gateway when it trusts them, and in no other
case. -/

namespace CallGuard.GatewayConfig

variable {ε β : Type}

/-- A header that a caller could make up: it is mapped, or listed, or one in which the gateway
itself passes identities on. The header of the trust signal is none of them. -/
def Spoofable (c : GatewayConfig) (n : HeaderName) : Prop :=
  ¬ c.IsTrustHeader n ∧
    (c.Maps n ∨ c.Lists n ∨ c.propagate = true ∧ n ∈ Propagation.headerNames)

/-- Two requests that agree up to the values of headers that a caller could make up. -/
structure AlikeButForSpoofs (c : GatewayConfig) (r₁ r₂ : Request ε β) : Prop where
  method_eq : r₁.method = r₂.method
  peer_eq : r₁.peer = r₂.peer
  values_eq : ∀ n, ¬ c.Spoofable n → r₁.headers.values n = r₂.headers.values n

/-! ## What such requests have in common -/

theorem AlikeButForSpoofs.symm {c : GatewayConfig} {r₁ r₂ : Request ε β}
    (h : c.AlikeButForSpoofs r₁ r₂) : c.AlikeButForSpoofs r₂ r₁ :=
  ⟨h.method_eq.symm, h.peer_eq.symm, fun n hn => (h.values_eq n hn).symm⟩

/-- The trust signal is not among the things that a caller could make up. -/
theorem AlikeButForSpoofs.signals {c : GatewayConfig} {r₁ r₂ : Request ε β}
    (h : c.AlikeButForSpoofs r₁ r₂) {signal : String} (hs : c.Signals r₁.call signal) :
    c.Signals r₂.call signal := by
  cases hs with
  | header ht hn hx =>
      have hsafe : ¬ c.Spoofable _ := fun hspoof => hspoof.1 ⟨_, ht, hn⟩
      have hx' := Headers.trimmed?_congr (h.values_eq _ hsafe)
      exact .header ht hn (hx'.symm.trans hx)
  | peer ht ha => exact .peer ht (h.peer_eq.symm.trans ha)

theorem AlikeButForSpoofs.signals_iff {c : GatewayConfig} {r₁ r₂ : Request ε β}
    (h : c.AlikeButForSpoofs r₁ r₂) (signal : String) :
    c.Signals r₁.call signal ↔ c.Signals r₂.call signal :=
  ⟨h.signals, h.symm.signals⟩

/-! ## What a gateway makes of them -/

namespace Built

variable {c : GatewayConfig} {a : Authenticator} {g : GatewayHeaders} {source : TrustSource}

/-- Nothing that a caller could make up travels on, nor does the trust signal. -/
theorem strips_iff (h : c.Built a g source) (n : HeaderName) :
    a.strips n = true ↔ c.Spoofable n ∨ c.IsTrustHeader n := by
  have hp : a.propagation.isSome = true ↔ c.propagate = true := by
    rw [h.propagation]
    split <;> simp [*]
  rw [Authenticator.strips_iff, h.mem_strip_iff, hp, Spoofable]
  by_cases ht : c.IsTrustHeader n
  · simp [ht]
  · simp [ht, or_assoc]

theorem extractor_congr (h : c.Built a g source) {r₁ r₂ : Request ε β}
    (hr : c.AlikeButForSpoofs r₁ r₂) : a.extractor r₁.call = a.extractor r₂.call := by
  apply Option.ext
  intro signal
  rw [h.extractor_eq_some_iff, h.extractor_eq_some_iff, hr.signals_iff]

/-- The complaint about a call whose signal is not trusted. -/
def untrustedMessage : Option String → String
  | none => "missing credential"
  | some _ => "untrusted gateway"

theorem authenticate_of_not_trusts (h : c.Built a g source) (now : Moment) (r : Request ε β)
    (hs : ¬ c.Skips r.method) (ht : ¬ c.Trusts r.call) :
    (a.authenticate now .off r).result =
      .error (.error (.unauthenticated (untrustedMessage (a.extractor r.call)))) := by
  have hselect := h.not_selected hs
  cases hx : a.extractor r.call with
  | none => rw [Authenticator.authenticate_of_none hselect hx, untrustedMessage]
  | some signal =>
      have hsignal := (h.extractor_eq_some_iff r.call signal).mp hx
      have hrefused : Trust.isTrusted c.trustedValues signal ≠ true :=
        fun htrusted => ht ⟨signal, hsignal, htrusted⟩
      rw [Authenticator.authenticate_off_of_some hselect hx, h.verifier, untrustedMessage]
      simp [Gateway.verifier, hrefused, Failure.ofVerify]

/-- A call that is trusted is answered by its headers. -/
theorem authenticate_of_trusts (h : c.Built a g source) (now : Moment) (r : Request ε β)
    (hs : ¬ c.Skips r.method) (ht : c.Trusts r.call) :
    (a.authenticate now .off r).result =
      match g.identity r.headers with
      | .ok i => .ok (some i)
      | .error e => .error (.error e) := by
  have hselect := h.not_selected hs
  obtain ⟨signal, hsignal, htrusted⟩ := ht
  have hx : a.extractor r.call = some signal := (h.extractor_eq_some_iff r.call signal).mpr hsignal
  have hverdict : a.verifier now signal r.call =
      match g.identity r.headers with
      | .ok i => .ok i
      | .error e => .error (.refused e) := by
    rw [h.verifier]
    exact if_pos htrusted
  rw [Authenticator.authenticate_off_of_some hselect hx, hverdict]
  cases g.identity r.headers with
  | error e => rfl
  | ok i => rfl

theorem authenticate_of_skips (h : c.Built a g source) (now : Moment) (r : Request ε β)
    (hs : c.Skips r.method) :
    a.authenticate now .off r =
      ⟨.ok none, r.withHeaders (a.stripHeaders r.headers), .off, false⟩ :=
  Authenticator.authenticate_of_selected ((h.anySelects_skip_iff r.method).mpr hs)

end Built

/-! ## No influence -/

/-- Headers that a caller could make up have no influence on a gateway unless it trusts the call.
A method that is let through sees none of them, any other call is refused with the same error
whatever they hold, and an identity is found only behind a trusted signal. -/
theorem build_ignores_spoofs {c : GatewayConfig} {a : Authenticator} (hbuild : c.build = .ok a)
    {r₁ r₂ : Request ε β} (halike : c.AlikeButForSpoofs r₁ r₂) (now₁ now₂ : Moment) :
    (c.Skips r₁.method →
      (a.authenticate now₁ .off r₁).result = .ok none ∧
      (a.authenticate now₂ .off r₂).result = .ok none ∧
      (∀ n, (a.authenticate now₁ .off r₁).request.headers.values n =
        (a.authenticate now₂ .off r₂).request.headers.values n) ∧
      ∀ n, c.Spoofable n ∨ c.IsTrustHeader n →
        (a.authenticate now₁ .off r₁).request.headers.values n = []) ∧
    (¬ c.Skips r₁.method → ¬ c.Trusts r₁.call →
      ∃ message,
        (a.authenticate now₁ .off r₁).result = .error (.error (.unauthenticated message)) ∧
        (a.authenticate now₂ .off r₂).result = .error (.error (.unauthenticated message))) ∧
    ∀ i, (a.authenticate now₁ .off r₁).result = .ok (some i) → c.Trusts r₁.call := by
  obtain ⟨g, source, h⟩ := exists_built hbuild
  refine ⟨?_, ?_, ?_⟩
  · intro hs
    have hs₂ : c.Skips r₂.method := halike.method_eq ▸ hs
    rw [h.authenticate_of_skips now₁ r₁ hs, h.authenticate_of_skips now₂ r₂ hs₂]
    refine ⟨rfl, rfl, ?_, ?_⟩
    · intro n
      simp only [Request.withHeaders, Authenticator.values_stripHeaders]
      split
      next => rfl
      next hn =>
        refine halike.values_eq n fun hspoof => ?_
        exact hn ((h.strips_iff n).mpr (.inl hspoof))
    · intro n hn
      have hstrip : a.strips n = true := (h.strips_iff n).mpr hn
      simp [Request.withHeaders, Authenticator.values_stripHeaders, hstrip]
  · intro hs ht
    have hs₂ : ¬ c.Skips r₂.method := halike.method_eq ▸ hs
    have ht₂ : ¬ c.Trusts r₂.call := by
      rintro ⟨signal, hsignal, htrusted⟩
      exact ht ⟨signal, halike.symm.signals hsignal, htrusted⟩
    refine ⟨_, h.authenticate_of_not_trusts now₁ r₁ hs ht, ?_⟩
    rw [h.extractor_congr halike]
    exact h.authenticate_of_not_trusts now₂ r₂ hs₂ ht₂
  · intro i hi
    by_cases hs : c.Skips r₁.method
    · rw [h.authenticate_of_skips now₁ r₁ hs] at hi
      simp at hi
    · by_cases ht : c.Trusts r₁.call
      · exact ht
      · rw [h.authenticate_of_not_trusts now₁ r₁ hs ht] at hi
        simp at hi

/-! ## A gateway that is lied to -/

/-- A gateway that shows a secret, passes subjects on in one header and leaves health checks
alone. -/
def sampleConfig : GatewayConfig :=
  { minimal "X-User" (.header "X-Secret") ["open sesame"] with
    skipMethods := ["Health/*"], propagate := true }

def sampleSubject : HeaderName := ⟨"x-user", by decide⟩

def sampleSecret : HeaderName := ⟨"x-secret", by decide⟩

/-- A call that names a subject twice, first in bytes that are no text, and shows no secret. -/
def sampleLie (service : String) : Request Unit Unit :=
  { Request.ofMethod ⟨service, "Get"⟩ () () with
    headers := ⟨[(sampleSubject, ⟨⟨#[0xFF]⟩, by decide +kernel⟩),
      (sampleSubject, ⟨"root".toUTF8, by decide +kernel⟩)]⟩ }

theorem sampleConfig_alike (service : String) :
    sampleConfig.AlikeButForSpoofs (sampleLie service)
      (Request.ofMethod ⟨service, "Get"⟩ () ()) where
  method_eq := rfl
  peer_eq := rfl
  values_eq n hn := by
    have hne : sampleSubject ≠ n := by
      rintro rfl
      refine hn ⟨fun htrust => ?_, .inl ⟨"X-User", by decide, rfl⟩⟩
      have heq : sampleSecret = sampleSubject := htrust.eq rfl rfl
      exact absurd heq (by decide)
    simp [sampleLie, Request.ofMethod, Headers.values, Headers.empty, hne]

theorem sampleConfig_skips_iff (m : Method) : sampleConfig.Skips m ↔ m.service = "Health" := by
  have hparse : Pattern.parse "Health/*" = .ok (.ofService "Health") := rfl
  constructor
  · rintro ⟨s, hs, p, hp, hm⟩
    obtain rfl : s = "Health/*" := by simpa [sampleConfig, minimal] using hs
    obtain rfl : Pattern.ofService "Health" = p := by simpa [hparse] using hp
    exact (beq_iff_eq.mp hm).symm
  · intro hm
    exact ⟨"Health/*", by decide, .ofService "Health", hparse, beq_iff_eq.mpr hm.symm⟩

theorem sampleConfig_not_trusts (service : String) :
    ¬ sampleConfig.Trusts (sampleLie service).call := by
  rintro ⟨signal, hsignal, -⟩
  cases hsignal with
  | peer ht _ => cases ht
  | header ht hn hx =>
      obtain rfl : sampleSecret = _ := IsTrustHeader.eq ⟨_, ht, hn⟩ rfl rfl
      have hne : sampleSubject ≠ sampleSecret := by decide
      simp [Request.call, sampleLie, Headers.trimmed?, Headers.text?, Headers.values, hne] at hx

/-- The lie changes neither what a health check looks like nor why another call is refused. -/
theorem build_ignores_spoofs_sample :
    ∃ a, sampleConfig.build = .ok a ∧
      (∀ n, (a.authenticate ⟨0, 0⟩ .off (sampleLie "Health")).request.headers.values n =
        (a.authenticate ⟨9, 9⟩ .off
          (Request.ofMethod ⟨"Health", "Get"⟩ () ())).request.headers.values n) ∧
      ∃ message,
        (a.authenticate ⟨0, 0⟩ .off (sampleLie "Users")).result =
          .error (.error (.unauthenticated message)) ∧
        (a.authenticate ⟨9, 9⟩ .off (Request.ofMethod ⟨"Users", "Get"⟩ () ())).result =
          .error (.error (.unauthenticated message)) := by
  obtain ⟨a, h⟩ : ∃ a, sampleConfig.build = .ok a := Checks.exists_eq_ok_of_toBool rfl
  have hhealth := build_ignores_spoofs h (sampleConfig_alike "Health") ⟨0, 0⟩ ⟨9, 9⟩
  have husers := build_ignores_spoofs h (sampleConfig_alike "Users") ⟨0, 0⟩ ⟨9, 9⟩
  refine ⟨a, h, ?_, ?_⟩
  · exact (hhealth.1 ((sampleConfig_skips_iff _).mpr rfl)).2.2.1
  · refine husers.2.1 (fun hs => ?_) (sampleConfig_not_trusts "Users")
    exact absurd ((sampleConfig_skips_iff _).mp hs) (by decide)

end CallGuard.GatewayConfig
