import CallGuard.Proofs.Authenticator.Keeping
import CallGuard.Proofs.Token.Issuing

/-! # How a check of tokens fails

A caller whose token is of no use is told as unauthenticated, whatever is wrong with it. The one
failure of another kind is an instant that no clock holds: the expiry of a token that is accepted,
or the instant at which a kept identity goes out of date. -/

namespace CallGuard

/-- A result that is meant for the caller: the call goes on, or its caller is not known. -/
inductive Answered : Except Failure (Option Identity) → Prop where
  | passed (caller : Option Identity) : Answered (.ok caller)
  | unauthenticated (message : String) : Answered (.error (.error (.unauthenticated message)))

namespace Token

namespace TokenVerifier

variable {v : TokenVerifier} {now : Nat} {token : String}

/-- A token that is accepted, and would speak for somebody, expires after the last second of the
clock. -/
def OutlivesClock (v : TokenVerifier) (now : Nat) (token : String) : Prop :=
  ∃ parts header key c subject t, v.Accepts now token parts header key c ∧
    subject? v.paths c = some subject ∧ wholeExpiry? c = some t ∧ lastSecond < t

theorem failure_cases {f : VerifyFailure} (h : v.verify now token = .error f) :
    f.IsUnauthenticated ∨ f = .clockOverflow ∧ v.OutlivesClock now token := by
  rcases v.verify_cases now token with ⟨parts, header, key, c, haccepts⟩ | ⟨g, hg, htold⟩
  · -- past the checks only the identity can fail
    have hidentified := identity_identified v.paths c
    rw [← haccepts.verify_eq, h] at hidentified
    cases hidentified with
    | nobody hs => exact .inl fun expose => ⟨_, rfl⟩
    | beyondClock hs ht hlate =>
        exact .inr ⟨rfl, parts, header, key, c, _, _, haccepts, hs, ht, hlate⟩
  · cases h.symm.trans hg
    exact .inl htold

/-- The expiry of a token is beyond the clock exactly when its check says so. -/
theorem verify_eq_clockOverflow_iff :
    v.verify now token = .error .clockOverflow ↔ v.OutlivesClock now token := by
  constructor
  · intro h
    rcases failure_cases h with htold | ⟨-, hlate⟩
    · obtain ⟨message, hmessage⟩ := htold false
      cases hmessage
    · exact hlate
  · rintro ⟨parts, header, key, c, subject, t, haccepts, hs, ht, hlate⟩
    rw [haccepts.verify_eq]
    have hidentified := identity_identified v.paths c
    generalize identity v.paths c = result at hidentified
    cases hidentified with
    | nobody hnone => cases hnone.symm.trans hs
    | beyondClock => rfl
    | read _ hheld => exact absurd hlate (Nat.not_lt.mpr (hheld t ht))

end TokenVerifier

variable {ε β : Type}

/-- A check of tokens lets the call go on, or tells the caller as unauthenticated, unless it meets
an instant beyond the clock. -/
theorem verifier_answers {v : TokenVerifier} {a : Authenticator} (ha : a.verifier = v.verifier)
    (now : Moment) (cache : CredentialCache Identity) (r : Request ε β) :
    Answered (a.authenticate now cache r).result ∨
      (a.authenticate now cache r).result = .error .clockOverflow ∧
        ∃ token, a.extractor r.call = some token ∧
          (v.OutlivesClock now.wall.toNat token ∨
            ∃ ttl, cache.ttl? = some ttl ∧ clockEnd ≤ now.uptime + ttl) := by
  have hcourse := a.authenticate_course now cache r
  generalize a.authenticate now cache r = o at hcourse
  cases hcourse with
  | letThrough hs => exact .inl (.passed none)
  | unpresented hs hx => exact .inl (.unauthenticated _)
  | kept hs hx hk => exact .inl (.passed _)
  | refused hs hx hk hv =>
      rw [ha] at hv
      rcases TokenVerifier.failure_cases hv with htold | ⟨rfl, hlate⟩
      · obtain ⟨message, hmessage⟩ := htold a.exposeErrors
        rw [hmessage]
        exact .inl (.unauthenticated message)
      · exact .inr ⟨rfl, _, hx, .inl hlate⟩
  | unstorable hs hx hk hv he =>
      have hclock := CredentialCache.exists_ttl_of_set_eq_none he
      rw [Authenticator.cached_ttl? hk] at hclock
      exact .inr ⟨rfl, _, hx, .inr hclock⟩
  | verified hs hx hk hv he => exact .inl (.passed _)

theorem verifier_answers_sample :
    Answered ((fixedAuthenticator (sampleVerifier [] []) (sampleToken plainPayload)).authenticate
      ⟨1700000000, 0⟩ .off sampleCall).result := by
  obtain ⟨i, hi, -⟩ := exists_plain_verify [] []
  rcases verifier_answers
    (show (fixedAuthenticator (sampleVerifier [] []) (sampleToken plainPayload)).verifier =
      (sampleVerifier [] []).verifier from rfl) ⟨1700000000, 0⟩ .off sampleCall with
    hanswered | ⟨-, token, htoken, hlate | ⟨ttl, httl, -⟩⟩
  · exact hanswered
  · cases htoken
    cases hi.symm.trans (TokenVerifier.verify_eq_clockOverflow_iff.mpr hlate)
  · cases httl

/-- An expiry in the first second that the clock does not hold. -/
def latePayload : String := "\x7b\"sub\":\"u\",\"exp\":9223372036854775808\x7d"

theorem latePayload_read : (wholeDocument? latePayload).bind claims? =
    some (timedClaims (.number (.integer 9223372036854775808))) := by
  have hdocument : wholeDocument? latePayload = some (timedDocument
      ⟨false, [9, 2, 2, 3, 3, 7, 2, 0, 3, 6, 8, 5, 4, 7, 7, 5, 8, 0, 8], none, none⟩) := by
    cbv
  rw [hdocument]
  exact claims?_timedDocument rfl

theorem latePayload_outlivesClock :
    (sampleVerifier [] []).OutlivesClock 1700000000 (sampleToken latePayload) := by
  have haccepts := sampleVerifier_accepts latePayload_read
    (timedClaims_admitted rfl (by decide) [] [])
  refine ⟨_, _, _, _, "u", 9223372036854775808, haccepts, timedClaims_subject, ?_, by decide⟩
  exact timedClaims_wholeExpiry

/-- A token that is signed correctly and expires too late is not answered. -/
theorem verifier_overflows_clock :
    ¬ ∀ (config : Config) (v : TokenVerifier) (a : Authenticator) (now : Moment)
      (r : Request Unit Unit), config.build = .ok v → a.verifier = v.verifier →
        Answered (a.authenticate now .off r).result := by
  intro hanswers
  have hanswered := hanswers _ _ (fixedAuthenticator _ (sampleToken latePayload)) ⟨1700000000, 0⟩
    sampleCall (sampleConfig_build [] []) rfl
  have hoverflow : (fixedAuthenticator (sampleVerifier [] []) (sampleToken latePayload)).verifier
      ⟨1700000000, 0⟩ (sampleToken latePayload) sampleCall.call = .error .clockOverflow :=
    TokenVerifier.verify_eq_clockOverflow_iff.mpr latePayload_outlivesClock
  rw [Authenticator.authenticate_off_of_some rfl rfl, hoverflow] at hanswered
  cases hanswered

end Token

end CallGuard
