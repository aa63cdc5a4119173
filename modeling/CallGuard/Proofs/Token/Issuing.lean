import CallGuard.Proofs.Token.Acceptance
import CallGuard.Proofs.Token.Construction
import CallGuard.Proofs.Text

/-! # Issued tokens

The other end of a verifier: an issuer writes a header and claims, and signs them with a shared
secret. What it issues says what was written, so a verifier with the secret accepts it whenever
the claims are in order. -/

namespace CallGuard

namespace Base64

/-! ## Writing base64 -/

/-- The digit for a value below 64 in the alphabet that is safe in URLs. -/
def urlDigit (n : Nat) : Char :=
  if n < 26 then Char.ofNat (n + 65)
  else if n < 52 then Char.ofNat (n + 71)
  else if n < 62 then Char.ofNat (n - 4)
  else if n = 62 then '-'
  else '_'

/-- The values of the digits for bytes, three of which make four digits. -/
def sextets : List UInt8 → List Nat
  | [] => []
  | [x] => [x.toNat / 4, x.toNat % 4 * 16]
  | [x, y] => [x.toNat / 4, x.toNat % 4 * 16 + y.toNat / 16, y.toNat % 16 * 4]
  | x :: y :: z :: rest =>
    x.toNat / 4 :: (x.toNat % 4 * 16 + y.toNat / 16) :: (y.toNat % 16 * 4 + z.toNat / 64)
      :: z.toNat % 64 :: sextets rest

def encodeUrl (bytes : List UInt8) : String :=
  String.ofList ((sextets bytes).map urlDigit)

theorem digit?_urlDigit {n : Nat} (h : n < 64) : digit? '-' '_' (urlDigit n) = some n := by
  have hall : ∀ n : Fin 64, digit? '-' '_' (urlDigit n) = some n.val := by decide
  exact hall ⟨n, h⟩

theorem urlDigit_ne_dot {n : Nat} (h : n < 64) : urlDigit n ≠ '.' := by
  -- the alphabet is small enough to look at every digit
  have hall : ∀ n : Fin 64, urlDigit n ≠ '.' := by decide
  exact hall ⟨n, h⟩

theorem sextets_lt (bytes : List UInt8) : ∀ n ∈ sextets bytes, n < 64 := by
  fun_induction sextets bytes with
  | case1 => simp
  | case2 x =>
      have hx := x.toNat_lt
      simp only [List.mem_cons, List.not_mem_nil, or_false]
      omega
  | case3 x y =>
      have hx := x.toNat_lt
      have hy := y.toNat_lt
      simp only [List.mem_cons, List.not_mem_nil, or_false]
      omega
  | case4 x y z rest ih =>
      have hx := x.toNat_lt
      have hy := y.toNat_lt
      have hz := z.toNat_lt
      simp only [List.mem_cons]
      rintro n (rfl | rfl | rfl | rfl | hn)
      · omega
      · omega
      · omega
      · omega
      · exact ih n hn

theorem ofNat_eq_of_toNat_eq {x : UInt8} {n : Nat} (h : n = x.toNat) : UInt8.ofNat n = x := by
  rw [h, UInt8.ofNat_toNat]

theorem bytes?_sextets (bytes : List UInt8) : bytes? (sextets bytes) = some bytes := by
  fun_induction sextets bytes with
  | case1 => rfl
  | case2 x =>
      have hx : x.toNat / 4 * 4 + x.toNat % 4 * 16 / 16 = x.toNat := by omega
      have hzero : x.toNat % 4 * 16 % 16 = 0 := by omega
      rw [bytes?, if_pos hzero, ofNat_eq_of_toNat_eq hx]
  | case3 x y =>
      have hx : x.toNat / 4 * 4 + (x.toNat % 4 * 16 + y.toNat / 16) / 16 = x.toNat := by
        have := y.toNat_lt
        omega
      have hy : (x.toNat % 4 * 16 + y.toNat / 16) % 16 * 16 + y.toNat % 16 * 4 / 4 = y.toNat := by
        have := y.toNat_lt
        omega
      have hzero : y.toNat % 16 * 4 % 4 = 0 := by omega
      rw [bytes?, if_pos hzero, ofNat_eq_of_toNat_eq hx, ofNat_eq_of_toNat_eq hy]
  | case4 x y z rest ih =>
      -- the second and the third digit hold bits of two bytes each
      have hx : x.toNat / 4 * 4 + (x.toNat % 4 * 16 + y.toNat / 16) / 16 = x.toNat := by
        have := y.toNat_lt
        omega
      have hy : (x.toNat % 4 * 16 + y.toNat / 16) % 16 * 16
          + (y.toNat % 16 * 4 + z.toNat / 64) / 4 = y.toNat := by
        have := y.toNat_lt
        have := z.toNat_lt
        omega
      have hz : (y.toNat % 16 * 4 + z.toNat / 64) % 4 * 64 + z.toNat % 64 = z.toNat := by
        have := z.toNat_lt
        omega
      rw [bytes?, ih, Option.map_some, ofNat_eq_of_toNat_eq hx, ofNat_eq_of_toNat_eq hy,
        ofNat_eq_of_toNat_eq hz]

theorem decodeUrl?_encodeUrl (bytes : List UInt8) : decodeUrl? (encodeUrl bytes) = some bytes := by
  have hdigits : ∀ ns : List Nat, (∀ n ∈ ns, n < 64) →
      (ns.map urlDigit).mapM (digit? '-' '_') = some ns := by
    intro ns hns
    induction ns with
    | nil => rfl
    | cons n ns ih =>
        obtain ⟨hn, hrest⟩ := List.forall_mem_cons.mp hns
        simp [digit?_urlDigit hn, ih hrest]
  rw [decodeUrl?, encodeUrl, String.toList_ofList, hdigits _ (sextets_lt bytes)]
  exact bytes?_sextets bytes

theorem dot_not_mem_encodeUrl (bytes : List UInt8) : '.' ∉ (encodeUrl bytes).toList := by
  rw [encodeUrl, String.toList_ofList]
  intro h
  obtain ⟨n, hn, hdot⟩ := List.mem_map.mp h
  exact urlDigit_ne_dot (sextets_lt bytes n hn) hdot

end Base64

namespace Token

/-! ## Writing tokens -/

def encodeText (text : String) : String :=
  Base64.encodeUrl text.toUTF8.data.toList

def signedText (header payload : String) : String :=
  encodeText header ++ String.singleton '.' ++ encodeText payload

def signatureText (h : Sha2) (secret : List UInt8) (header payload : String) : String :=
  Base64.encodeUrl (h.hmac secret (signedText header payload).toUTF8.toList)

/-- The token that holds two texts and is signed with a secret. -/
def issue (h : Sha2) (secret : List UInt8) (header payload : String) : String :=
  signedText header payload ++ String.singleton '.' ++ signatureText h secret header payload

def issuedParts (h : Sha2) (secret : List UInt8) (header payload : String) : Parts :=
  ⟨encodeText header, encodeText payload, signatureText h secret header payload,
    signedText header payload⟩

theorem ofText?_issue (h : Sha2) (secret : List UInt8) (header payload : String) :
    Parts.ofText? (issue h secret header payload) =
      some (issuedParts h secret header payload) := by
  have hsignature : Text.cutLast? '.' (issue h secret header payload) =
      some (signedText header payload, signatureText h secret header payload) :=
    Text.cutLast?_eq_some_iff.mpr ⟨rfl, Base64.dot_not_mem_encodeUrl _⟩
  have hsigned : Text.cutLast? '.' (signedText header payload) =
      some (encodeText header, encodeText payload) :=
    Text.cutLast?_eq_some_iff.mpr ⟨rfl, Base64.dot_not_mem_encodeUrl _⟩
  simp [Parts.ofText?, hsignature, hsigned, issuedParts]

/-- The document that makes up a whole text. -/
def wholeDocument? (text : String) : Option Document :=
  match Document.read text with
  | (d, true) => some d
  | (_, false) => none

theorem document?_encodeText (text : String) :
    document? (encodeText text) = wholeDocument? text := by
  have hbytes : (⟨text.toUTF8.data.toList.toArray⟩ : ByteArray) = text.toUTF8 := by
    rw [Array.toArray_toList]
  unfold document? wholeDocument?
  rw [encodeText, Base64.decodeUrl?_encodeUrl, Option.bind_eq_bind, Option.bind_some, hbytes,
    Text.fromUTF8?_toUTF8]
  rfl

/-! ## Verifying what was issued -/

/-- A token that was issued with a secret is accepted by every verifier that has the secret and
whose demands the header and the claims meet. -/
theorem TokenVerifier.accepts_issue {v : TokenVerifier} {now : Nat} {h : Sha2}
    {secret : List UInt8} {headerText payload : String} {header : Header} {c : Claims}
    (hheader : (wholeDocument? headerText).bind Header.ofDocument? = some header)
    (hpayload : (wholeDocument? payload).bind claims? = some c)
    (hhash : header.algorithm.hash? = some h) (hallowed : header.algorithm ∈ v.algorithms)
    (hchosen : v.keyFor header.keyId = .ok (.secret secret))
    (hadmitted : v.limits.Admits now c)
    (hrecent : checkAge v.maxAge v.limits.leeway now c = .ok ()) :
    v.Accepts now (issue h secret headerText payload) (issuedParts h secret headerText payload)
      header (.secret secret) c where
  opened := by
    have hdocument : (document? (issuedParts h secret headerText payload).header).bind
        Header.ofDocument? = some header := by
      rw [issuedParts, document?_encodeText, hheader]
    rw [open?, ofText?_issue]
    simp only [hdocument]
  allowed := hallowed
  chosen := hchosen
  signed := (TokenVerifier.checkSignature_iff_signedWith hhash).mpr
    ⟨secret, rfl, Base64.decodeUrl?_encodeUrl _⟩
  stated := by rw [issuedParts, document?_encodeText, hpayload]
  admitted := hadmitted
  recent := hrecent

/-! ## An issuer and a verifier that share a secret -/

/-- A secret of 32 bytes. -/
def sampleSecret : List UInt8 := List.replicate 32 0x61

def sampleHeader : String := "\x7b\"alg\":\"HS256\"\x7d"

theorem sampleHeader_read :
    (wholeDocument? sampleHeader).bind Header.ofDocument? = some ⟨.hs256, none⟩ := by
  decide +kernel

def sampleToken (payload : String) : String :=
  issue .sha256 sampleSecret sampleHeader payload

def sampleConfig (issuers audiences : List String) : Config :=
  { Config.default with sources := [.secret sampleSecret], issuers, audiences }

def sampleVerifier (issuers audiences : List String) : TokenVerifier where
  keys := .fixed (.secret sampleSecret)
  algorithms := [.hs256]
  limits := ⟨issuers, audiences, 60⟩
  maxAge := none
  paths := Config.default.paths
  scheme := .closed

theorem sampleConfig_build (issuers audiences : List String) :
    (sampleConfig issuers audiences).build = .ok (sampleVerifier issuers audiences) :=
  rfl

theorem sampleVerifier_accepts {issuers audiences : List String} {payload : String} {c : Claims}
    {now : Nat} (hpayload : (wholeDocument? payload).bind claims? = some c)
    (hadmitted : Limits.Admits ⟨issuers, audiences, 60⟩ now c) :
    (sampleVerifier issuers audiences).Accepts now (sampleToken payload)
      (issuedParts .sha256 sampleSecret sampleHeader payload) ⟨.hs256, none⟩
      (.secret sampleSecret) c :=
  TokenVerifier.accepts_issue sampleHeader_read hpayload rfl List.mem_cons_self rfl hadmitted rfl

/-- An authenticator that finds one token in every call. -/
def fixedAuthenticator (v : TokenVerifier) (token : String) : Authenticator where
  verifier := v.verifier
  extractor _ := some token
  skip := []
  strip := []
  propagation := none
  exposeErrors := false

def sampleCall : Request Unit Unit :=
  .ofMethod ⟨"Users", "List"⟩ () ()

/-! ## Claims with an expiry and a subject -/

/-- Claims with a subject and an expiry, and nothing else. -/
def timedClaims (exp : Json) : Claims :=
  .ofMembers [("exp", exp), ("sub", .string "u")]

section

variable {exp : Json}

theorem timedClaims_members :
    (timedClaims exp).members = [("exp", exp), ("sub", .string "u")] := by
  have hlt : ¬ "sub" < "exp" := by decide
  have hne : ¬ "sub" = "exp" := by decide
  simp only [timedClaims, Claims.ofMembers, Members.ofList, List.foldl_cons, List.foldl_nil,
    Members.insert, if_neg hlt, if_neg hne]

theorem timedClaims_exp : (timedClaims exp).get? "exp" = some exp := by
  simp [Claims.get?, timedClaims_members, Members.get?]

theorem timedClaims_absent {key : String} (hexp : "exp" ≠ key) (hsub : "sub" ≠ key) :
    (timedClaims exp).get? key = none := by
  simp [Claims.get?, timedClaims_members, Members.get?, hexp, hsub]

theorem timedClaims_subject : subject? Config.default.paths (timedClaims exp) = some "u" := by
  have hpath : Text.split '.' Config.default.paths.subject = ["sub"] := by decide +kernel
  have hclaim : claimAt (timedClaims exp) Config.default.paths.subject = some (.string "u") := by
    simp [claimAt, hpath, follow, Claims.json, Json.member?, timedClaims_members, Members.get?]
  simp [subject?, hclaim, Json.text?]

theorem timedClaims_wholeExpiry : wholeExpiry? (timedClaims exp) = exp.nat? := by
  rw [wholeExpiry?, timedClaims_exp, Option.bind_some]

/-- Claims that name no issuer and no audience are not kept to any. -/
theorem timedClaims_admitted {t : Nat} (ht : instant? exp = some t) (hunexpired : 1700000000 ≤ t)
    (issuers audiences : List String) :
    Limits.Admits ⟨issuers, audiences, 60⟩ 1700000000 (timedClaims exp) where
  unexpired := by
    refine ⟨t, ?_, Nat.le_add_right_of_le hunexpired⟩
    rw [timedClaims_exp, Option.bind_some, ht]
  mature d hd := by
    cases (timedClaims_absent (by decide) (by decide)).symm.trans hd
  issued _ := by rw [timedClaims_absent (by decide) (by decide), isAccepted]
  addressed _ := by rw [timedClaims_absent (by decide) (by decide), isAccepted]

end

theorem exists_timed_identity (exp : Json) (hheld : ∀ u, exp.nat? = some u → u ≤ lastSecond) :
    ∃ i, identity Config.default.paths (timedClaims exp) = .ok i ∧ i.claims = timedClaims exp := by
  apply exists_identity timedClaims_subject
  rw [timedClaims_wholeExpiry]
  exact hheld

def timedDocument (exp : Numeral) : Document :=
  .object [(some "sub", .string (some "u")), (some "exp", .number exp)]

theorem claims?_timedDocument {n : Numeral} {x : Number} (hx : n.number? = some x) :
    claims? (timedDocument n) = some (timedClaims (.number x)) := by
  have hmembers : Header.members? (timedDocument n) =
      some [("sub", .string (some "u")), ("exp", .number n)] := by
    simp [Header.members?, timedDocument]
  have hform : hasRegisteredForm [("sub", .string (some "u")), ("exp", .number n)] = true := by
    simp [hasRegisteredForm, registered, Keyed.get?]
  have hordered : Members.ofList [("sub", .string "u"), ("exp", .number x)] =
      (timedClaims (.number x)).members := by
    have hlt : "exp" < "sub" := by decide
    simp only [timedClaims_members, Members.ofList, List.foldl_cons, List.foldl_nil,
      Members.insert, if_pos hlt]
  have hvalue : (timedDocument n).value? Json.maxDepth = some (timedClaims (.number x)).json := by
    simp [timedDocument, Document.value?, Json.maxDepth, Document.memberValues?, hx, hordered,
      Claims.json]
  rw [claims?, hmembers]
  simp only [Option.bind_eq_bind, Option.bind_some, hform, hvalue, if_true]
  rw [Claims.json, timedClaims_members]
  rfl

def plainPayload : String := "\x7b\"sub\":\"u\",\"exp\":4102444800\x7d"

def plainClaims : Claims :=
  timedClaims (.number (.integer 4102444800))

theorem plainPayload_read : (wholeDocument? plainPayload).bind claims? = some plainClaims := by
  have hdocument : wholeDocument? plainPayload =
      some (timedDocument ⟨false, [4, 1, 0, 2, 4, 4, 4, 8, 0, 0], none, none⟩) := by
    cbv
  rw [hdocument]
  exact claims?_timedDocument rfl

theorem plainClaims_admitted (issuers audiences : List String) :
    Limits.Admits ⟨issuers, audiences, 60⟩ 1700000000 plainClaims :=
  timedClaims_admitted rfl (by decide) issuers audiences

theorem exists_plain_identity :
    ∃ i, identity Config.default.paths plainClaims = .ok i ∧ i.claims = plainClaims := by
  apply exists_timed_identity
  rintro u ⟨⟩
  decide

theorem exists_plain_verify (issuers audiences : List String) :
    ∃ i, (sampleVerifier issuers audiences).verify 1700000000 (sampleToken plainPayload) = .ok i ∧
      i.claims = plainClaims := by
  have haccepts := sampleVerifier_accepts plainPayload_read (plainClaims_admitted issuers audiences)
  rw [haccepts.verify_eq]
  exact exists_plain_identity

end Token

end CallGuard
