import CallGuard.Gateway
import CallGuard.Proofs.Authenticator.Outcome
import CallGuard.Proofs.Checks
import CallGuard.Proofs.Headers

/-! # How a gateway is built

The texts of a configuration stand for header names and patterns. A gateway that is built holds
exactly those that its configuration stands for. -/

namespace CallGuard.GatewayConfig

/-! ## What a configuration stands for -/

/-- The texts that name the headers in which an identity is passed on. -/
def mappedTexts (c : GatewayConfig) : List String :=
  c.subjectHeader ::
    [c.nameHeader, c.rolesHeader, c.scopesHeader, c.typeHeader, c.claimsHeader].filterMap id

/-- A header in which an identity is passed on. -/
def Maps (c : GatewayConfig) (n : HeaderName) : Prop :=
  ∃ s ∈ c.mappedTexts, HeaderName.ofConfig s = .ok n

/-- The header that holds the trust signal. -/
def IsTrustHeader (c : GatewayConfig) (n : HeaderName) : Prop :=
  ∃ s, c.trustSignal = .header s ∧ HeaderName.ofConfig s = .ok n

/-- A header that is listed as one that must not travel. -/
def Lists (c : GatewayConfig) (n : HeaderName) : Prop :=
  ∃ s ∈ c.stripHeaders, HeaderName.ofConfig s = .ok n

/-- A method that is let through without a check. -/
def Skips (c : GatewayConfig) (m : Method) : Prop :=
  ∃ s ∈ c.skipMethods, ∃ p, Pattern.parse s = .ok p ∧ p.selects m = true

/-- The signal that a call shows: the trimmed text of the trust header, or the text of the
address that it comes from. -/
inductive Signals (c : GatewayConfig) (call : Call) : String → Prop where
  | header {s n signal} : c.trustSignal = .header s → HeaderName.ofConfig s = .ok n →
      call.headers.trimmed? n = some signal → Signals c call signal
  | peer {address} : c.trustSignal = .peerAddress → call.peer = some address →
      Signals c call address.canonical.text

/-- A call whose signal is one of the trusted values or lies in one of the trusted ranges. -/
def Trusts (c : GatewayConfig) (call : Call) : Prop :=
  ∃ signal, c.Signals call signal ∧ Trust.isTrusted c.trustedValues signal = true

theorem not_skips_of_nil {c : GatewayConfig} (h : c.skipMethods = []) (m : Method) :
    ¬ c.Skips m := by
  rintro ⟨s, hs, -⟩
  rw [h] at hs
  exact absurd hs List.not_mem_nil

theorem IsTrustHeader.eq {c : GatewayConfig} {s : String} {n m : HeaderName}
    (h : c.IsTrustHeader m) (hs : c.trustSignal = .header s)
    (hn : HeaderName.ofConfig s = .ok n) : n = m := by
  obtain ⟨t, ht, hm⟩ := h
  obtain rfl : s = t := by simpa [hs] using ht
  exact Except.ok.inj (hn.symm.trans hm)

/-! ## Construction -/

/-- The checks that a configuration has passed, and what became of its parts. -/
structure Built (c : GatewayConfig) (a : Authenticator) (g : GatewayHeaders)
    (source : TrustSource) : Prop where
  headers : c.headers = .ok g
  trust : trustSource c.trustSignal = .ok source
  verifier : a.verifier = Gateway.verifier c.trustedValues g
  extractor : a.extractor = source.extractor
  skip : c.skipMethods.mapM Pattern.parse = .ok a.skip
  strip : (c.strip g source).mapM HeaderName.ofConfig = .ok a.strip
  propagation : a.propagation = if c.propagate then some ⟨c.propagateClaims⟩ else none

theorem exists_built {c : GatewayConfig} {a : Authenticator} (h : c.build = .ok a) :
    ∃ g source, c.Built a g source := by
  unfold build at h
  obtain ⟨-, h⟩ := Checks.refusal_eq_ok_iff.mp h
  obtain ⟨-, h⟩ := Checks.refusal_eq_ok_iff.mp h
  obtain ⟨g, hg, h⟩ := Checks.bind_eq_ok_iff.mp h
  obtain ⟨source, hsource, h⟩ := Checks.bind_eq_ok_iff.mp h
  have hbuilt := AuthenticatorConfig.build_eq_ok_iff.mp h
  exact ⟨g, source, hg, hsource, hbuilt.verifier, hbuilt.extractor, hbuilt.skip, hbuilt.strip,
    hbuilt.propagation⟩

/-! ## Parts of a built gateway -/

theorem optionalName_eq_ok {text : Option String} {name : Option HeaderName}
    (h : optionalName text = .ok name) (n : HeaderName) :
    name = some n ↔ ∃ s, text = some s ∧ HeaderName.ofConfig s = .ok n := by
  cases text with
  | none =>
      cases h
      simp
  | some s =>
      obtain ⟨m, hm, h⟩ := Checks.bind_eq_ok_iff.mp h
      cases h
      simp [hm]

theorem maps_iff (c : GatewayConfig) (n : HeaderName) :
    c.Maps n ↔ HeaderName.ofConfig c.subjectHeader = .ok n ∨
      (∃ s, c.nameHeader = some s ∧ HeaderName.ofConfig s = .ok n) ∨
      (∃ s, c.rolesHeader = some s ∧ HeaderName.ofConfig s = .ok n) ∨
      (∃ s, c.scopesHeader = some s ∧ HeaderName.ofConfig s = .ok n) ∨
      (∃ s, c.typeHeader = some s ∧ HeaderName.ofConfig s = .ok n) ∨
      ∃ s, c.claimsHeader = some s ∧ HeaderName.ofConfig s = .ok n := by
  simp only [Maps, mappedTexts, List.mem_cons, List.mem_filterMap, List.not_mem_nil, id_eq,
    or_false, or_and_right, exists_or, exists_eq_left]

theorem mem_mapped_iff {c : GatewayConfig} {g : GatewayHeaders} (h : c.headers = .ok g)
    (n : HeaderName) : n ∈ g.mapped ↔ c.Maps n := by
  unfold headers at h
  obtain ⟨subject, hsubject, h⟩ := Checks.bind_eq_ok_iff.mp h
  obtain ⟨name, hname, h⟩ := Checks.bind_eq_ok_iff.mp h
  obtain ⟨roles, hroles, h⟩ := Checks.bind_eq_ok_iff.mp h
  obtain ⟨scopes, hscopes, h⟩ := Checks.bind_eq_ok_iff.mp h
  obtain ⟨type, htype, h⟩ := Checks.bind_eq_ok_iff.mp h
  obtain ⟨claims, hclaims, h⟩ := Checks.bind_eq_ok_iff.mp h
  cases h
  rw [maps_iff, hsubject, ← optionalName_eq_ok hname, ← optionalName_eq_ok hroles,
    ← optionalName_eq_ok hscopes, ← optionalName_eq_ok htype, ← optionalName_eq_ok hclaims]
  simp [GatewayHeaders.mapped, eq_comm]

theorem trustSource_eq_header_iff {t : TrustSignal} {n : HeaderName} :
    trustSource t = .ok (.header n) ↔ ∃ s, t = .header s ∧ HeaderName.ofConfig s = .ok n := by
  cases t with
  | peerAddress => simp [trustSource]
  | header s =>
      simp only [trustSource, Checks.bind_eq_ok_iff, pure, Except.pure]
      simp

theorem trustSource_eq_peerAddress_iff {t : TrustSignal} :
    trustSource t = .ok .peerAddress ↔ t = .peerAddress := by
  cases t with
  | peerAddress => simp [trustSource]
  | header s =>
      simp only [trustSource, Checks.bind_eq_ok_iff, pure, Except.pure]
      simp

namespace Built

variable {c : GatewayConfig} {a : Authenticator} {g : GatewayHeaders} {source : TrustSource}

/-- The headers that a gateway takes out are the mapped ones, that of the trust signal, and those
listed. -/
theorem mem_strip_iff (h : c.Built a g source) (n : HeaderName) :
    n ∈ a.strip ↔ c.Maps n ∨ c.IsTrustHeader n ∨ c.Lists n := by
  rw [Checks.mem_iff_of_mapM h.strip, ← mem_mapped_iff h.headers]
  simp only [GatewayConfig.strip, List.mem_append, or_and_right, exists_or, or_assoc]
  refine or_congr ?_ (or_congr ?_ Iff.rfl)
  · exact HeaderName.exists_text_iff
  · cases source with
    | header m =>
        obtain ⟨s, hs, hm⟩ := trustSource_eq_header_iff.mp h.trust
        simp [IsTrustHeader, hs, hm, HeaderName.ofConfig_text]
    | peerAddress =>
        simp [IsTrustHeader, trustSource_eq_peerAddress_iff.mp h.trust]

theorem anySelects_skip_iff (h : c.Built a g source) (m : Method) :
    Pattern.anySelects a.skip m = true ↔ c.Skips m := by
  simp only [Pattern.anySelects, List.any_eq_true, Checks.mem_iff_of_mapM h.skip, Skips]
  constructor
  · rintro ⟨p, ⟨s, hs, hp⟩, hm⟩
    exact ⟨s, hs, p, hp, hm⟩
  · rintro ⟨s, hs, p, hp, hm⟩
    exact ⟨p, ⟨s, hs, hp⟩, hm⟩

theorem not_selected (h : c.Built a g source) {m : Method} (hs : ¬ c.Skips m) :
    Pattern.anySelects a.skip m = false :=
  Bool.eq_false_iff.mpr fun e => hs ((h.anySelects_skip_iff m).mp e)

theorem extractor_eq_some_iff (h : c.Built a g source) (call : Call) (signal : String) :
    a.extractor call = some signal ↔ c.Signals call signal := by
  rw [h.extractor]
  cases source with
  | header n =>
      obtain ⟨s, hs, hn⟩ := trustSource_eq_header_iff.mp h.trust
      constructor
      · exact fun hx => .header hs hn hx
      · intro hx
        cases hx with
        | header ht hm hx =>
            obtain rfl : s = _ := by simpa [hs] using ht
            obtain rfl : n = _ := by simpa [hn] using hm
            exact hx
        | peer ht _ => simp [hs] at ht
  | peerAddress =>
      have ht := trustSource_eq_peerAddress_iff.mp h.trust
      constructor
      · intro hx
        obtain ⟨address, ha, rfl⟩ := Option.map_eq_some_iff.mp hx
        exact .peer ht ha
      · intro hx
        cases hx with
        | header hs _ _ => simp [ht] at hs
        | peer _ ha => simp [TrustSource.extractor, ha]

end Built

end CallGuard.GatewayConfig
