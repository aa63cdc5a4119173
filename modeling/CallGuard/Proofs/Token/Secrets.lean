import CallGuard.Proofs.Token.Issuing

/-! # Lengths of shared secrets

A configured secret is as long as every accepted algorithm needs. The shared secrets in a set of
keys come from the document of the set, and their lengths are not looked at. -/

namespace CallGuard.Token

theorem Algorithm.exists_hash_of_minSecret {a : Algorithm} {n : Nat} (h : a.minSecret? = some n) :
    ∃ hash, a.hash? = some hash := by
  cases a <;> cases h <;> exact ⟨_, rfl⟩

/-- A built verifier has a shared secret from its configuration, where it is long enough for every
algorithm, or from a member of its set of keys. -/
theorem Config.Built.secret_cases {config : Config} {v : TokenVerifier} {source : KeySource}
    (hbuilt : config.Built v source) {id : Option String} {secret : List UInt8}
    (h : v.keyFor id = .ok (.secret secret)) :
    (config.sources = [.secret secret] ∧
        ∀ a ∈ v.algorithms, ∃ n, a.minSecret? = some n ∧ n ≤ secret.length) ∨
      ∃ keys k, config.sources = [.keySet keys] ∧ KeySet.select? keys id = some k ∧
        k.key? = some (.secret secret) := by
  have hsources := hbuilt.sources
  have hsupplied := hbuilt.keys
  rcases TokenVerifier.keyFor_eq_ok_iff.mp h with hfixed | ⟨keys, k, hset, hselect, hkey⟩
  · rw [hfixed] at hsupplied
    cases hsupplied with
    | secret hlong => exact .inl ⟨hsources, hlong⟩
  · rw [hset] at hsupplied
    cases hsupplied with
    | keySet => exact .inr ⟨keys, k, hsources, hselect, hkey⟩

/-- The signature of an accepted token under a keyed hash was checked with the configured secret,
which is long enough for the hash, or with a member of the configured set of keys, which may have
any length. -/
theorem build_measures_secrets {config : Config} {v : TokenVerifier} (hbuild : config.build = .ok v)
    {now : Nat} {token : String} {i : Identity} (h : v.verify now token = .ok i)
    {parts : Parts} {header : Header} (hopen : TokenVerifier.open? token = .ok (parts, header))
    {n : Nat} (hmin : header.algorithm.minSecret? = some n) :
    ∃ secret hash, v.keyFor header.keyId = .ok (.secret secret) ∧
      header.algorithm.hash? = some hash ∧ parts.SignedWith hash secret ∧
      (config.sources = [.secret secret] ∧ n ≤ secret.length ∨
        ∃ keys k, config.sources = [.keySet keys] ∧ KeySet.select? keys header.keyId = some k ∧
          k.key? = some (.secret secret)) := by
  obtain ⟨source, hbuilt⟩ := Config.exists_built hbuild
  obtain ⟨parts', header', key, c, haccepts, -⟩ := TokenVerifier.exists_accepts h
  -- a token opens in one way only, so these are its parts
  cases hopen.symm.trans haccepts.opened
  obtain ⟨hash, hhash⟩ := Algorithm.exists_hash_of_minSecret hmin
  obtain ⟨secret, rfl, hsigned⟩ :=
    (TokenVerifier.checkSignature_iff_signedWith hhash).mp haccepts.signed
  refine ⟨secret, hash, haccepts.chosen, hhash, hsigned, ?_⟩
  rcases hbuilt.secret_cases haccepts.chosen with ⟨hsource, hlong⟩ | hset
  · obtain ⟨m, hm, hle⟩ := hlong header.algorithm haccepts.allowed
    cases hmin.symm.trans hm
    exact .inl ⟨hsource, hle⟩
  · exact .inr hset

theorem build_measures_secrets_sample :
    ∃ v i parts header secret, (sampleConfig [] []).build = .ok v ∧
      v.verify 1700000000 (sampleToken plainPayload) = .ok i ∧
      TokenVerifier.open? (sampleToken plainPayload) = .ok (parts, header) ∧
      header.algorithm.minSecret? = some 32 ∧
      (sampleConfig [] []).sources = [.secret secret] ∧ 32 ≤ secret.length := by
  have hbuild := sampleConfig_build [] []
  have haccepts := sampleVerifier_accepts plainPayload_read (plainClaims_admitted [] [])
  obtain ⟨i, hi, -⟩ := exists_plain_verify [] []
  have hmin : Algorithm.minSecret? .hs256 = some 32 := rfl
  obtain ⟨secret, -, -, -, -, hlong | ⟨keys, k, hset, -⟩⟩ :=
    build_measures_secrets hbuild hi haccepts.opened hmin
  · exact ⟨_, i, _, _, secret, hbuild, hi, haccepts.opened, hmin, hlong⟩
  · cases hset

/-- A set with one shared secret, which is a single byte. -/
def shortKeys : List SetKey :=
  [⟨none, .octets "YQ"⟩]

def shortConfig : Config :=
  { Config.default with sources := [.keySet shortKeys], algorithms := [.hs256] }

def shortVerifier : TokenVerifier where
  keys := .set shortKeys
  algorithms := [.hs256]
  limits := ⟨[], [], 60⟩
  maxAge := none
  paths := Config.default.paths
  scheme := .closed

theorem shortVerifier_accepts :
    shortVerifier.Accepts 1700000000 (issue .sha256 [0x61] sampleHeader plainPayload)
      (issuedParts .sha256 [0x61] sampleHeader plainPayload) ⟨.hs256, none⟩ (.secret [0x61])
      plainClaims := by
  have hkey : SetKey.key? ⟨none, .octets "YQ"⟩ = some (.secret [0x61]) := by decide +kernel
  have hchosen : shortVerifier.keyFor none = .ok (.secret [0x61]) :=
    TokenVerifier.keyFor_eq_ok_iff.mpr (.inr ⟨shortKeys, _, rfl, rfl, hkey⟩)
  exact TokenVerifier.accepts_issue sampleHeader_read plainPayload_read rfl List.mem_cons_self
    hchosen (plainClaims_admitted [] []) rfl

/-- A secret of one byte in a set of keys is enough for a token to be accepted. -/
theorem build_accepts_short_key :
    ¬ ∀ (config : Config) (v : TokenVerifier) (now : Nat) (token : String) (i : Identity)
      (parts : Parts) (header : Header) (secret : List UInt8) (n : Nat),
      config.build = .ok v → v.verify now token = .ok i →
        TokenVerifier.open? token = .ok (parts, header) → header.algorithm.minSecret? = some n →
        v.keyFor header.keyId = .ok (.secret secret) → n ≤ secret.length := by
  intro hlong
  have hbuild : shortConfig.build = .ok shortVerifier := rfl
  obtain ⟨i, hi, -⟩ := exists_plain_identity
  have hverify := shortVerifier_accepts.verify_eq.trans hi
  have hle := hlong _ _ _ _ i _ _ _ 32 hbuild hverify shortVerifier_accepts.opened rfl
    shortVerifier_accepts.chosen
  exact absurd hle (by decide)

end CallGuard.Token
