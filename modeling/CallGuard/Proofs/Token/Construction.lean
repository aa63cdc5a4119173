import CallGuard.Proofs.Checks
import CallGuard.Token

/-! # How a token verifier is built

A configuration has one source of keys. What the source is good for is checked when the verifier
is built, and the other demands of the configuration become those of the verifier. -/

namespace CallGuard.Token.Config

/-! ## Secrets -/

/-- A secret is checked against every algorithm, each of which needs a secret of some length. -/
theorem checkSecret_eq_ok_iff {secret : List UInt8} {algorithms : List Algorithm} :
    checkSecret secret algorithms = .ok () ↔
      ∀ a ∈ algorithms, ∃ n, a.minSecret? = some n ∧ n ≤ secret.length := by
  induction algorithms with
  | nil => simp [checkSecret]
  | cons a rest ih =>
      cases hmin : a.minSecret? with
      | none => simp [checkSecret, hmin]
      | some n =>
          by_cases hshort : secret.length < n
          · simp [checkSecret, hmin, hshort, Nat.not_le.mpr hshort]
          · simp [checkSecret, hmin, hshort, Nat.le_of_not_lt hshort, ih]

/-! ## Keys -/

/-- The keys that a source supplies: its secret, its public key, or its set as it is. A secret has
been measured against every algorithm, and the keys of a set have not. A public key is of the
family that all algorithms share. -/
inductive Supplied (algorithms : List Algorithm) : KeySource → Keys → Prop where
  | secret {bytes}
      (hlong : ∀ a ∈ algorithms, ∃ n, a.minSecret? = some n ∧ n ≤ bytes.length) :
      Supplied algorithms (.secret bytes) (.fixed (.secret bytes))
  | pem {bytes f} (hpublic : f ≠ .hmac) (hshared : ∀ a ∈ algorithms, a.family = f) :
      Supplied algorithms (.pem bytes) (.fixed (.publicKey f (.pem bytes)))
  | keySet {keys} : Supplied algorithms (.keySet keys) (.set keys)

theorem exists_publicKey {bytes : List UInt8} {algorithms : List Algorithm} {k : Key}
    (h : publicKey bytes algorithms = .ok k) :
    ∃ f, f ≠ .hmac ∧ (∀ a ∈ algorithms, a.family = f) ∧ k = .publicKey f (.pem bytes) := by
  unfold publicKey at h
  split at h
  next => cases h
  next f rest hfamilies =>
    split at h
    next => cases h
    next hsame =>
      split at h
      next => cases h
      next hpublic =>
        split at h
        next =>
          cases h
          refine ⟨f, hpublic, ?_, rfl⟩
          intro a ha
          have hmem : a.family ∈ f :: rest := hfamilies ▸ List.mem_map_of_mem ha
          rcases List.mem_cons.mp hmem with hfirst | hrest
          · exact hfirst
          · have hall : ∀ g ∈ rest, g = f := by simpa using hsame
            exact hall a.family hrest
        next => cases h

theorem supplied_of_keys {algorithms : List Algorithm} {source : KeySource} {ks : Keys}
    (h : keys algorithms source = .ok ks) : Supplied algorithms source ks := by
  cases source with
  | secret bytes =>
      obtain ⟨⟨⟩, hchecked, h⟩ := Checks.bind_eq_ok_iff.mp h
      cases h
      exact .secret (checkSecret_eq_ok_iff.mp hchecked)
  | pem bytes =>
      obtain ⟨k, hk, h⟩ := Checks.bind_eq_ok_iff.mp h
      obtain ⟨f, hpublic, hshared, rfl⟩ := exists_publicKey hk
      cases h
      exact .pem hpublic hshared
  | keySet keys =>
      cases h
      exact .keySet

/-! ## Construction -/

/-- The checks that a configuration has passed, and what became of its parts. -/
structure Built (c : Config) (v : TokenVerifier) (source : KeySource) : Prop where
  sources : c.sources = [source]
  algorithms : v.algorithms = c.acceptedAlgorithms source
  keys : Supplied v.algorithms source v.keys
  limits : v.limits = ⟨c.issuers, c.audiences, c.leeway⟩
  maxAge : v.maxAge = c.maxAge
  paths : v.paths = c.paths
  scheme : v.scheme = c.scheme

theorem source_eq_ok_iff {c : Config} {s : KeySource} : c.source = .ok s ↔ c.sources = [s] := by
  unfold source
  split <;> simp_all

theorem exists_built {c : Config} {v : TokenVerifier} (h : c.build = .ok v) :
    ∃ source, c.Built v source := by
  unfold build at h
  obtain ⟨source, hsource, h⟩ := Checks.bind_eq_ok_iff.mp h
  obtain ⟨keys, hkeys, h⟩ := Checks.bind_eq_ok_iff.mp h
  cases h
  exact ⟨source, source_eq_ok_iff.mp hsource, rfl, supplied_of_keys hkeys, rfl, rfl, rfl, rfl⟩

end CallGuard.Token.Config
