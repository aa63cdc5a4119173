import CallGuard.Proofs.Token.Issuing

/-! # Keys behind accepted tokens

Whoever sends a token writes its header, and with it the name of the algorithm and of the key. Both
only choose among what the configuration offers: the algorithm has to be listed, the key has to be
the configured one or a member of the configured set, and the two have to belong together. -/

namespace CallGuard.Token

/-! ## Algorithms -/

/-- The algorithms that a configuration permits with a source: those that it lists, or the usual
one for the source if it lists none. -/
inductive Config.Permits (c : Config) : KeySource → Algorithm → Prop where
  | listed {source a} (h : a ∈ c.algorithms) : Permits c source a
  | usualForSecret {bytes} (h : c.algorithms = []) : Permits c (.secret bytes) .hs256
  | usualForPem {bytes} (h : c.algorithms = []) : Permits c (.pem bytes) .rs256
  | usualForSet {keys} (h : c.algorithms = []) : Permits c (.keySet keys) .rs256

theorem Config.mem_acceptedAlgorithms_iff {c : Config} {source : KeySource} {a : Algorithm} :
    a ∈ c.acceptedAlgorithms source ↔ c.Permits source a := by
  unfold acceptedAlgorithms
  constructor
  · intro h
    split at h
    next hnone =>
      split at h
      next =>
        obtain rfl := List.mem_singleton.mp h
        exact .usualForSecret hnone
      next hother =>
        obtain rfl := List.mem_singleton.mp h
        cases source with
        | secret bytes => exact absurd rfl (hother bytes)
        | pem bytes => exact .usualForPem hnone
        | keySet keys => exact .usualForSet hnone
    next => exact .listed h
  · intro h
    cases h with
    | listed h =>
        split
        next hnone => simp [hnone] at h
        next => exact h
    | usualForSecret hnone => simp [hnone]
    | usualForPem hnone => simp [hnone]
    | usualForSet hnone => simp [hnone]

theorem Algorithm.family_eq_hmac_of_minSecret {a : Algorithm} {n : Nat}
    (h : a.minSecret? = some n) : a.family = .hmac := by
  cases a <;> cases h <;> rfl

theorem Algorithm.hash?_eq_none_iff {a : Algorithm} : a.hash? = none ↔ a.family ≠ .hmac := by
  cases a <;> decide

/-- The algorithms that go with a source. A secret has the length that each of them asks for; those
for a public key are of one family and never keyed hashes. A set is for any algorithm. -/
inductive KeySource.Suits (algorithms : List Algorithm) : KeySource → Prop where
  | secret {bytes} (hkeyed : ∀ a ∈ algorithms, a.family = .hmac)
      (hlong : ∀ a ∈ algorithms, ∃ n, a.minSecret? = some n ∧ n ≤ bytes.length) :
      Suits algorithms (.secret bytes)
  | pem {bytes} (family : Family) (hpublic : family ≠ .hmac)
      (hshared : ∀ a ∈ algorithms, a.family = family) : Suits algorithms (.pem bytes)
  | keySet {keys} : Suits algorithms (.keySet keys)

theorem Config.Supplied.suits {algorithms : List Algorithm} {source : KeySource} {ks : Keys}
    (h : Supplied algorithms source ks) : source.Suits algorithms := by
  cases h with
  | secret hlong =>
      refine .secret ?_ hlong
      intro a ha
      obtain ⟨n, hn, -⟩ := hlong a ha
      exact Algorithm.family_eq_hmac_of_minSecret hn
  | pem hpublic hshared => exact .pem _ hpublic hshared
  | keySet => exact .keySet

/-! ## Keys -/

/-- The keys that a source offers for an identifier. A set offers the first member with the
identifier; where none is given it offers its only member, and nothing if it has more or none. -/
inductive KeySource.Offers : KeySource → Option String → Key → Prop where
  | secret {bytes id} : Offers (.secret bytes) id (.secret bytes)
  | pem {bytes id family} : Offers (.pem bytes) id (.publicKey family (.pem bytes))
  | named {before k after id key} (hid : k.id = some id) (hfirst : ∀ l ∈ before, l.id ≠ some id)
      (hkey : k.key? = some key) : Offers (.keySet (before ++ k :: after)) (some id) key
  | only {k key} (hkey : k.key? = some key) : Offers (.keySet [k]) none key

theorem KeySet.offers_of_select {keys : List SetKey} {id : Option String} {k : SetKey} {key : Key}
    (hselect : select? keys id = some k) (hkey : k.key? = some key) :
    KeySource.Offers (.keySet keys) id key := by
  cases id with
  | some id =>
      obtain ⟨hid, before, after, rfl, hfirst⟩ := List.find?_eq_some_iff_append.mp hselect
      exact .named (by simpa using hid) (by simpa using hfirst) hkey
  | none =>
      match keys, hselect with
      | [l], hselect =>
          obtain rfl := Option.some.inj hselect
          exact .only hkey

/-- The key that a built verifier takes for an identifier is one that its source offers. -/
theorem Config.Built.offers {config : Config} {v : TokenVerifier} {source : KeySource}
    (hbuilt : config.Built v source) {id : Option String} {key : Key}
    (h : v.keyFor id = .ok key) : source.Offers id key := by
  have hsupplied := hbuilt.keys
  rcases TokenVerifier.keyFor_eq_ok_iff.mp h with hfixed | ⟨keys, k, hset, hselect, hkey⟩
  · rw [hfixed] at hsupplied
    cases hsupplied with
    | secret => exact .secret
    | pem => exact .pem
  · rw [hset] at hsupplied
    cases hsupplied with
    | keySet => exact KeySet.offers_of_select hselect hkey

theorem KeySource.Offers.length_eq_one {keys : List SetKey} {key : Key}
    (h : Offers (.keySet keys) none key) : keys.length = 1 := by
  cases h with
  | only => rfl

/-! ## Signatures -/

/-- A token is made of its signed text, which is the header and the payload, and of its signature.
The last two dots part the three. -/
structure Parts.Make (parts : Parts) (token : String) : Prop where
  signed : parts.signed = parts.header ++ String.singleton '.' ++ parts.payload
  token : token = parts.signed ++ String.singleton '.' ++ parts.signature
  payload_dotless : '.' ∉ parts.payload.toList
  signature_dotless : '.' ∉ parts.signature.toList

theorem Parts.make_of_ofText? {token : String} {parts : Parts} (h : ofText? token = some parts) :
    parts.Make token := by
  obtain ⟨⟨signed, signature⟩, hsignature, h⟩ := Option.bind_eq_some_iff.mp h
  obtain ⟨⟨header, payload⟩, hpayload, h⟩ := Option.bind_eq_some_iff.mp h
  obtain rfl := Option.some.inj h
  obtain ⟨htoken, hnot⟩ := Text.cutLast?_eq_some_iff.mp hsignature
  obtain ⟨hsigned, hnot'⟩ := Text.cutLast?_eq_some_iff.mp hpayload
  exact ⟨hsigned, htoken, hnot', hnot⟩

/-- The signature of a token is valid under an algorithm with a key of the algorithm's family: it is
the keyed hash of the signed text, or the cryptography of public keys takes it. -/
inductive Key.Signs (scheme : PublicScheme) (a : Algorithm) (parts : Parts) : Key → Prop where
  | keyed {secret h} (hhash : a.hash? = some h) (hsigned : parts.SignedWith h secret) :
      Signs scheme a parts (.secret secret)
  | asymmetric {material isValid signature} (hpublic : a.family ≠ .hmac)
      (hscheme : scheme a material = .ok isValid)
      (hsignature : Base64.decodeUrl? parts.signature = some signature)
      (hvalid : isValid parts.signed.toUTF8.toList signature = true) :
      Signs scheme a parts (.publicKey a.family material)

/-- The check of a public key is that of the scheme, and the key has to be of the right family. -/
theorem TokenVerifier.checker_publicKey_eq_ok {v : TokenVerifier} {a : Algorithm} {f : Family}
    {material : PublicMaterial} {isValid : SignatureCheck}
    (h : v.checker a (.publicKey f material) = .ok isValid) :
    f = a.family ∧ a.family ≠ .hmac ∧ v.scheme a material = .ok isValid := by
  unfold checker at h
  split at h
  next hkey _ => cases hkey
  next hkey hhash =>
    cases hkey
    split at h
    next hfamily =>
      refine ⟨hfamily, Algorithm.hash?_eq_none_iff.mp hhash, ?_⟩
      cases hscheme : v.scheme a material with
      | error reason => simp [hscheme, Except.mapError] at h
      | ok check => simpa [hscheme, Except.mapError] using h
    next => cases h
  next => cases h

theorem TokenVerifier.signs_of_checkSignature {v : TokenVerifier} {a : Algorithm} {key : Key}
    {parts : Parts} (h : v.checkSignature a key parts = .ok ()) : key.Signs v.scheme a parts := by
  cases hhash : a.hash? with
  | some hash =>
      obtain ⟨secret, rfl, hsigned⟩ := (checkSignature_iff_signedWith hhash).mp h
      exact .keyed hhash hsigned
  | none =>
      obtain ⟨isValid, signature, hchecker, hsignature, hvalid⟩ := checkSignature_eq_ok_iff.mp h
      cases key with
      | secret bytes => simp [checker, hhash] at hchecker
      | publicKey f material =>
          obtain ⟨rfl, hpublic, hscheme⟩ := checker_publicKey_eq_ok hchecker
          exact .asymmetric hpublic hscheme hsignature hvalid

/-! ## Accepted tokens -/

/-- A token whose signature holds with a key that the source of a configuration offers, under an
algorithm that the configuration permits. -/
structure Config.Vouches (config : Config) (source : KeySource) (token : String) (parts : Parts)
    (header : Header) (key : Key) : Prop where
  parted : parts.Make token
  headed : (document? parts.header).bind Header.ofDocument? = some header
  permitted : config.Permits source header.algorithm
  offered : source.Offers header.keyId key
  signed : key.Signs config.scheme header.algorithm parts

theorem Config.Built.vouches {config : Config} {v : TokenVerifier} {source : KeySource}
    (hbuilt : config.Built v source) {now : Nat} {token : String} {parts : Parts} {header : Header}
    {key : Key} {c : Claims} (h : v.Accepts now token parts header key c) :
    config.Vouches source token parts header key where
  parted := Parts.make_of_ofText? (TokenVerifier.open?_eq_ok_iff.mp h.opened).1
  headed := (TokenVerifier.open?_eq_ok_iff.mp h.opened).2
  permitted := mem_acceptedAlgorithms_iff.mp (hbuilt.algorithms ▸ h.allowed)
  offered := hbuilt.offers h.chosen
  signed := hbuilt.scheme ▸ TokenVerifier.signs_of_checkSignature h.signed

/-- A built verifier has algorithms that go with its source, and it reads identities only from the
payloads of tokens whose signature holds with an offered key under a permitted algorithm. A token
that names no key is accepted from a set of exactly one key, and a keyed hash never with the
configured public key. -/
theorem build_accepts_signed {config : Config} {v : TokenVerifier} (hbuild : config.build = .ok v) :
    ∃ source, config.sources = [source] ∧ source.Suits v.algorithms ∧
      (∀ a, a ∈ v.algorithms ↔ config.Permits source a) ∧
      ∀ now token i, v.verify now token = .ok i →
        ∃ parts header key, config.Vouches source token parts header key ∧
          (document? parts.payload).bind claims? = some i.claims ∧
          (∀ keys, source = .keySet keys → header.keyId = none → keys.length = 1) ∧
          ∀ bytes, source = .pem bytes → header.algorithm.family ≠ .hmac := by
  obtain ⟨source, hbuilt⟩ := Config.exists_built hbuild
  have hsuits := hbuilt.keys.suits
  refine ⟨source, hbuilt.sources, hsuits, ?_, ?_⟩
  · intro a
    rw [hbuilt.algorithms]
    exact Config.mem_acceptedAlgorithms_iff
  · intro now token i h
    obtain ⟨parts, header, key, c, haccepts, hidentified⟩ := TokenVerifier.exists_accepts h
    have hvouches := hbuilt.vouches haccepts
    refine ⟨parts, header, key, hvouches, ?_, ?_, ?_⟩
    · rw [hidentified.claims_eq]
      exact haccepts.stated
    · rintro keys rfl hunnamed
      exact (hunnamed ▸ hvouches.offered).length_eq_one
    · rintro bytes rfl
      cases hsuits with
      | pem family hpublic hshared =>
          rw [hshared header.algorithm haccepts.allowed]
          exact hpublic

/-! ## A set with an old and a new key -/

def pairedKeys : List SetKey :=
  [⟨some "old", .octets "YQ"⟩, ⟨some "new", .octets "Yg"⟩]

def pairedConfig : Config :=
  { Config.default with sources := [.keySet pairedKeys], algorithms := [.hs384, .hs256] }

def pairedVerifier : TokenVerifier where
  keys := .set pairedKeys
  algorithms := [.hs384, .hs256]
  limits := ⟨[], [], 60⟩
  maxAge := none
  paths := Config.default.paths
  scheme := .closed

/-- A header that names the second key. -/
def newKeyHeader : String := "\x7b\"alg\":\"HS256\",\"kid\":\"new\"\x7d"

theorem newKeyHeader_read :
    (wholeDocument? newKeyHeader).bind Header.ofDocument? = some ⟨.hs256, some "new"⟩ := by
  decide +kernel

theorem pairedVerifier_accepts :
    pairedVerifier.Accepts 1700000000 (issue .sha256 [0x62] newKeyHeader plainPayload)
      (issuedParts .sha256 [0x62] newKeyHeader plainPayload) ⟨.hs256, some "new"⟩
      (.secret [0x62]) plainClaims := by
  have hkey : SetKey.key? ⟨some "new", .octets "Yg"⟩ = some (.secret [0x62]) := by decide +kernel
  have hchosen : pairedVerifier.keyFor (some "new") = .ok (.secret [0x62]) :=
    TokenVerifier.keyFor_eq_ok_iff.mpr (.inr ⟨pairedKeys, _, rfl, rfl, hkey⟩)
  have hallowed : Algorithm.hs256 ∈ pairedVerifier.algorithms := by decide
  exact TokenVerifier.accepts_issue newKeyHeader_read plainPayload_read rfl hallowed hchosen
    (plainClaims_admitted [] []) rfl

theorem build_accepts_signed_sample :
    ∃ v i parts header key, pairedConfig.build = .ok v ∧
      v.verify 1700000000 (issue .sha256 [0x62] newKeyHeader plainPayload) = .ok i ∧
      pairedConfig.Vouches (.keySet pairedKeys) (issue .sha256 [0x62] newKeyHeader plainPayload)
        parts header key := by
  have hbuild : pairedConfig.build = .ok pairedVerifier := rfl
  obtain ⟨i, hi, -⟩ := exists_plain_identity
  have hverify := pairedVerifier_accepts.verify_eq.trans hi
  obtain ⟨source, hsources, -, -, haccepted⟩ := build_accepts_signed hbuild
  obtain ⟨parts, header, key, hvouches, -⟩ := haccepted _ _ i hverify
  obtain rfl : .keySet pairedKeys = source := (List.cons.inj hsources).1
  exact ⟨pairedVerifier, i, parts, header, key, hbuild, hverify, hvouches⟩

end CallGuard.Token
