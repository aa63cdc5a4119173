import Mathlib
import CallGuard.Proofs.Checks
import CallGuard.Token

/-! # Accepted tokens

A verifier accepts a token that passes one check after the other. Every check is told by a
condition on what the token says, and the identity by the claims that the token states. -/

namespace CallGuard

/-- A failure that every caller is told as unauthenticated. -/
def VerifyFailure.IsUnauthenticated (f : VerifyFailure) : Prop :=
  ∀ expose, ∃ message, Failure.ofVerify expose f = .error (.unauthenticated message)

namespace Token

theorem Fault.failure_isUnauthenticated (f : Fault) : f.failure.IsUnauthenticated :=
  fun _ => ⟨_, rfl⟩

/-! ## Registered claims -/

/-- What limits ask of claims at a time. -/
structure Limits.Admits (l : Limits) (now : Nat) (c : Claims) : Prop where
  unexpired : ∃ t, (c.get? "exp").bind instant? = some t ∧ now ≤ t + l.leeway
  mature : ∀ d, c.get? "nbf" = some d → ∃ t, instant? d = some t ∧ t ≤ now + l.leeway
  issued : l.issuers ≠ [] → isAccepted l.issuers (c.get? "iss") = true
  addressed : l.audiences ≠ [] → isAccepted l.audiences (c.get? "aud") = true

/-- A claim is no instant, or one too late, unless it is absent or an early enough instant. -/
theorem instant_checks_iff {d : Option Json} {last : Nat} :
    ¬ d.map instant? = some none ∧ ¬ (d.map instant?).join.any (last < ·) = true ↔
      ∀ e, d = some e → ∃ t, instant? e = some t ∧ t ≤ last := by
  cases d with
  | none => simp
  | some e => cases h : instant? e <;> simp [h]

theorem restriction_iff {names : List String} {fits : Bool} :
    ¬ (!names.isEmpty && !fits) = true ↔ (names ≠ [] → fits = true) := by
  cases names <;> simp

theorem Limits.check_eq_ok_iff {l : Limits} {now : Nat} {c : Claims} :
    l.check now c = .ok () ↔ l.Admits now c := by
  unfold Limits.check
  split
  next exp hexp =>
    dsimp only
    rw [Checks.refusal_eq_ok_iff, Checks.refusal_eq_ok_iff, Checks.refusal_eq_ok_iff,
      Checks.refusal_eq_ok_iff, Checks.requirement_eq_ok_iff, restriction_iff, restriction_iff]
    constructor
    · rintro ⟨hform, hexpired, himmature, hissuer, haudience⟩
      have hunexpired : now ≤ exp + l.leeway := Nat.le_of_not_lt hexpired
      exact ⟨⟨exp, hexp, hunexpired⟩, instant_checks_iff.mp ⟨hform, himmature⟩, hissuer, haudience⟩
    · rintro ⟨⟨t, ht, hunexpired⟩, hmature, hissuer, haudience⟩
      obtain rfl : exp = t := Option.some.inj (hexp.symm.trans ht)
      obtain ⟨hform, himmature⟩ := instant_checks_iff.mpr hmature
      exact ⟨hform, Nat.not_lt.mpr hunexpired, himmature, hissuer, haudience⟩
  next hexp =>
    constructor
    · intro h
      cases h
    · rintro ⟨⟨t, ht, -⟩, -, -, -⟩
      exact absurd ht (hexp t)

/-! ## Keys -/

/-- Where the key for an identifier comes from: it is the fixed one, or that of the chosen member
of a set. -/
theorem TokenVerifier.keyFor_eq_ok_iff {v : TokenVerifier} {id : Option String} {key : Key} :
    v.keyFor id = .ok key ↔ v.keys = .fixed key ∨
      ∃ keys k, v.keys = .set keys ∧ KeySet.select? keys id = some k ∧ k.key? = some key := by
  unfold keyFor
  cases v.keys with
  | fixed k => simp
  | set keys =>
      cases hk : KeySet.select? keys id with
      | none => simp [hk]
      | some k => cases hkey : k.key? <;> simp [hk, hkey]

theorem TokenVerifier.checkSignature_eq_ok_iff {v : TokenVerifier} {a : Algorithm} {k : Key}
    {parts : Parts} :
    v.checkSignature a k parts = .ok () ↔
      ∃ isValid signature, v.checker a k = .ok isValid ∧
        Base64.decodeUrl? parts.signature = some signature ∧
        isValid parts.signed.toUTF8.toList signature = true := by
  unfold checkSignature
  rw [Checks.bind_eq_ok_iff]
  cases hs : Base64.decodeUrl? parts.signature with
  | none => simp [throw, throwThe, MonadExceptOf.throw]
  | some signature =>
      constructor
      · rintro ⟨isValid, hchecker, h⟩
        dsimp only at h
        split at h
        next hvalid => exact ⟨isValid, signature, hchecker, rfl, hvalid⟩
        next => cases h
      · rintro ⟨isValid, signature, hchecker, ⟨⟩, hvalid⟩
        exact ⟨isValid, hchecker, if_pos hvalid⟩

/-- The signature of a token is the keyed hash of the signed text. -/
def Parts.SignedWith (parts : Parts) (h : Sha2) (secret : List UInt8) : Prop :=
  Base64.decodeUrl? parts.signature = some (h.hmac secret parts.signed.toUTF8.toList)

/-- An algorithm with a keyed hash takes no key but a shared secret. -/
theorem TokenVerifier.checkSignature_iff_signedWith {v : TokenVerifier} {a : Algorithm} {h : Sha2}
    (ha : a.hash? = some h) {k : Key} {parts : Parts} :
    v.checkSignature a k parts = .ok () ↔
      ∃ secret, k = .secret secret ∧ parts.SignedWith h secret := by
  rw [checkSignature_eq_ok_iff]
  cases k with
  | publicKey f material => simp [checker, ha]
  | secret secret =>
      have hchecker : v.checker a (.secret secret) =
          .ok fun message signature => h.hmac secret message == signature := by
        simp [checker, ha]
      constructor
      · rintro ⟨isValid, signature, hvalid, hsignature, hsigned⟩
        cases hchecker.symm.trans hvalid
        exact ⟨secret, rfl, hsignature.trans (congrArg some (eq_of_beq hsigned).symm)⟩
      · rintro ⟨secret, ⟨⟩, hsigned⟩
        exact ⟨_, _, hchecker, hsigned, beq_self_eq_true _⟩

theorem TokenVerifier.keyFor_isUnauthenticated {v : TokenVerifier} {id : Option String}
    {f : VerifyFailure} (h : v.keyFor id = .error f) : f.IsUnauthenticated := by
  unfold keyFor at h
  split at h
  next => cases h
  next =>
    split at h
    next =>
      cases h
      exact fun _ => ⟨_, rfl⟩
    next =>
      split at h
      next => cases h
      next =>
        cases h
        exact Fault.malformed.failure_isUnauthenticated

/-! ## Age -/

theorem checkAge_isUnauthenticated {maxAge : Option Nat} {leeway now : Nat} {c : Claims} {e : Error}
    (h : checkAge maxAge leeway now c = .error e) :
    (VerifyFailure.refused e).IsUnauthenticated := by
  unfold checkAge at h
  split at h
  next => cases h
  next =>
    split at h
    next =>
      cases h
      exact fun _ => ⟨_, rfl⟩
    next =>
      split at h
      next =>
        cases h
        exact fun _ => ⟨_, rfl⟩
      next => cases h

/-! ## Identities -/

/-- The subject that claims name under some paths. -/
def subject? (paths : ClaimPaths) (c : Claims) : Option String :=
  ((claimAt c paths.subject).bind Json.text?).filter fun s => !s.isEmpty

/-- The expiry of claims, if it is written as a whole number. -/
def wholeExpiry? (c : Claims) : Option Nat :=
  (c.get? "exp").bind Json.nat?

/-- What becomes of claims: nobody is named, or the expiry is beyond the clock, or an identity is
read. -/
inductive Identified (paths : ClaimPaths) (c : Claims) : Except VerifyFailure Identity → Prop where
  | nobody (hs : subject? paths c = none) :
      Identified paths c (.error (.refused (.unauthenticated "missing subject")))
  | beyondClock {subject t} (hs : subject? paths c = some subject) (ht : wholeExpiry? c = some t)
      (hlate : lastSecond < t) : Identified paths c (.error .clockOverflow)
  | read {subject} (hs : subject? paths c = some subject)
      (hheld : ∀ t, wholeExpiry? c = some t → t ≤ lastSecond) :
      Identified paths c (.ok {
        subject
        displayName := (claimAt c paths.name).bind Json.text?
        roles := .ofList (nameList (claimAt c paths.roles))
        scopes := .ofList (nameList (claimAt c paths.scopes))
        claims := c
        kind := "jwt"
        expiresAt := (wholeExpiry? c).map Int.ofNat })

theorem identity_identified (paths : ClaimPaths) (c : Claims) :
    Identified paths c (identity paths c) := by
  unfold identity
  split
  next hs => exact .nobody hs
  next subject hs =>
    dsimp only
    split
    next hany =>
      obtain ⟨t, ht, hlate⟩ := Option.any_eq_true _ _ |>.mp hany
      exact .beyondClock hs ht (of_decide_eq_true hlate)
    next hany =>
      refine .read hs fun t ht => ?_
      refine Nat.le_of_not_lt fun hlate => hany ?_
      exact Option.any_eq_true _ _ |>.mpr ⟨t, ht, decide_eq_true hlate⟩

theorem Identified.claims_eq {paths : ClaimPaths} {c : Claims} {i : Identity}
    (h : Identified paths c (.ok i)) : i.claims = c := by
  cases h with
  | read hs hheld => rfl

/-- An identity is read from claims that name a subject, when the clock holds their expiry. -/
theorem exists_identity {paths : ClaimPaths} {c : Claims} {subject : String}
    (hs : subject? paths c = some subject) (hheld : ∀ t, wholeExpiry? c = some t → t ≤ lastSecond) :
    ∃ i, identity paths c = .ok i ∧ i.claims = c := by
  have hidentified := identity_identified paths c
  generalize identity paths c = result at hidentified
  cases hidentified with
  | nobody hnone => cases hnone.symm.trans hs
  | beyondClock _ ht hlate => exact absurd hlate (Nat.not_lt.mpr (hheld _ ht))
  | read _ _ => exact ⟨_, rfl, rfl⟩

/-! ## Verification -/

/-- The claims that a token states, be it signed or not. -/
def payload? (token : String) : Option Claims :=
  (Parts.ofText? token).bind fun parts => (document? parts.payload).bind claims?

/-- The checks that a token passes when a verifier accepts it: which parts it has, the key that its
signature is checked with, and the claims that it states. -/
structure TokenVerifier.Accepts (v : TokenVerifier) (now : Nat) (token : String) (parts : Parts)
    (header : Header) (key : Key) (c : Claims) : Prop where
  opened : open? token = .ok (parts, header)
  allowed : header.algorithm ∈ v.algorithms
  chosen : v.keyFor header.keyId = .ok key
  signed : v.checkSignature header.algorithm key parts = .ok ()
  stated : (document? parts.payload).bind claims? = some c
  admitted : v.limits.Admits now c
  recent : checkAge v.maxAge v.limits.leeway now c = .ok ()

namespace TokenVerifier

variable {v : TokenVerifier} {now : Nat} {token : String} {parts : Parts} {header : Header}
  {key : Key} {c : Claims} {i : Identity}

theorem claims_eq_ok_iff {a : Algorithm} {k : Key} :
    v.claims now a k parts = .ok c ↔ v.checkSignature a k parts = .ok () ∧
      (document? parts.payload).bind claims? = some c ∧ v.limits.check now c = .ok () := by
  unfold TokenVerifier.claims
  rw [Checks.bind_eq_ok_iff]
  cases hd : (document? parts.payload).bind claims? with
  | none => simp [throw, throwThe, MonadExceptOf.throw]
  | some d =>
      constructor
      · rintro ⟨⟨⟩, hsigned, h⟩
        obtain ⟨⟨⟩, hchecked, h⟩ := Checks.bind_eq_ok_iff.mp h
        cases h
        exact ⟨hsigned, rfl, hchecked⟩
      · rintro ⟨hsigned, hdc, hchecked⟩
        cases hdc
        exact ⟨(), hsigned, Checks.bind_eq_ok_iff.mpr ⟨(), hchecked, rfl⟩⟩

/-- From a token that passes every check an identity is read. -/
theorem Accepts.verify_eq (h : v.Accepts now token parts header key c) :
    v.verify now token = identity v.paths c := by
  have hclaims : v.claims now header.algorithm key parts = .ok c :=
    claims_eq_ok_iff.mpr ⟨h.signed, h.stated, Limits.check_eq_ok_iff.mpr h.admitted⟩
  simp [verify, h.opened, h.allowed, h.chosen, hclaims, h.recent, Except.mapError, bind,
    Except.bind]

/-- A token passes every check, or the caller is told as unauthenticated. -/
theorem verify_cases (v : TokenVerifier) (now : Nat) (token : String) :
    (∃ parts header key c, v.Accepts now token parts header key c) ∨
      ∃ f, v.verify now token = .error f ∧ f.IsUnauthenticated := by
  cases hopen : open? token with
  | error f =>
      refine .inr ⟨f.failure, ?_, f.failure_isUnauthenticated⟩
      simp [verify, hopen, Except.mapError, bind, Except.bind]
  | ok p =>
      obtain ⟨parts, header⟩ := p
      by_cases hallowed : header.algorithm ∈ v.algorithms
      · cases hkey : v.keyFor header.keyId with
        | error f =>
            refine .inr ⟨f, ?_, keyFor_isUnauthenticated hkey⟩
            simp [verify, hopen, hallowed, hkey, Except.mapError, bind, Except.bind]
        | ok key =>
            cases hclaims : v.claims now header.algorithm key parts with
            | error f =>
                refine .inr ⟨f.failure, ?_, f.failure_isUnauthenticated⟩
                simp [verify, hopen, hallowed, hkey, hclaims, Except.mapError, bind, Except.bind]
            | ok c =>
                obtain ⟨hsigned, hstated, hchecked⟩ := claims_eq_ok_iff.mp hclaims
                cases hage : checkAge v.maxAge v.limits.leeway now c with
                | error e =>
                    refine .inr ⟨.refused e, ?_, checkAge_isUnauthenticated hage⟩
                    simp [verify, hopen, hallowed, hkey, hclaims, hage, Except.mapError, bind,
                      Except.bind]
                | ok u =>
                    exact .inl ⟨parts, header, key, c, hopen, hallowed, hkey, hsigned, hstated,
                      Limits.check_eq_ok_iff.mp hchecked, hage⟩
      · refine .inr ⟨.refused (.unauthenticated "token algorithm not allowed"), ?_,
          fun _ => ⟨_, rfl⟩⟩
        simp [verify, hopen, hallowed, Except.mapError, bind, Except.bind, throw, throwThe,
          MonadExceptOf.throw]

theorem open?_eq_ok_iff : open? token = .ok (parts, header) ↔
    Parts.ofText? token = some parts ∧
      (document? parts.header).bind Header.ofDocument? = some header := by
  unfold open?
  cases Parts.ofText? token with
  | none => simp
  | some p =>
      cases hheader : (document? p.header).bind Header.ofDocument? with
      | none =>
          simp only [hheader, reduceCtorEq, false_iff, Option.some.injEq]
          rintro ⟨rfl, h⟩
          cases hheader.symm.trans h
      | some h =>
          simp only [hheader, Except.ok.injEq, Prod.mk.injEq, Option.some.injEq]
          constructor
          · rintro ⟨rfl, rfl⟩
            exact ⟨rfl, hheader⟩
          · rintro ⟨rfl, hh⟩
            exact ⟨rfl, Option.some.inj (hheader.symm.trans hh)⟩

theorem Accepts.payload?_eq (h : v.Accepts now token parts header key c) :
    payload? token = some c := by
  rw [payload?, (open?_eq_ok_iff.mp h.opened).1]
  exact h.stated

/-- What a verifier has accepted when it answers with an identity. -/
theorem exists_accepts (h : v.verify now token = .ok i) :
    ∃ parts header key c, v.Accepts now token parts header key c ∧
      Identified v.paths c (.ok i) := by
  rcases v.verify_cases now token with ⟨parts, header, key, c, hc⟩ | ⟨f, hf, -⟩
  · have hi := identity_identified v.paths c
    rw [← hc.verify_eq, h] at hi
    exact ⟨parts, header, key, c, hc, hi⟩
  · rw [h] at hf
    cases hf

end TokenVerifier

end Token

end CallGuard
