import CallGuard.Proofs.Token.Issuing

/-! # Restrictions on issuers and audiences

A verifier may be told which issuers and which audiences it is for. It compares a claim that holds
names with its list, and takes no notice of a claim that is missing or holds something else. -/

namespace CallGuard.Token

/-! ## Names in claims -/

/-- The names that a value holds: a text is one name, and a list holds names if all its items are
texts. -/
def names? : Json → Option (List String)
  | .string s => some [s]
  | d => d.texts?

/-- A claim is there and holds names. -/
def HoldsNames (c : Claims) (key : String) : Prop :=
  ∃ names, (c.get? key).bind names? = some names

/-- A name is one of those that a claim holds. -/
def Names (c : Claims) (key name : String) : Prop :=
  ∃ names, (c.get? key).bind names? = some names ∧ name ∈ names

theorem isAccepted_iff {accepted : List String} {d : Option Json} :
    isAccepted accepted d = true ↔
      ∀ names, d.bind names? = some names → ∃ name ∈ accepted, name ∈ names := by
  cases d with
  | none => simp [isAccepted]
  | some d =>
      cases d with
      | string s => simp [isAccepted, names?]
      | array items =>
          cases h : Json.texts? (.array items) with
          | none => simp [isAccepted, names?, h]
          | some texts => simp [isAccepted, names?, h, and_comm]
      | null => simp [isAccepted, names?, Json.texts?]
      | bool b => simp [isAccepted, names?, Json.texts?]
      | number n => simp [isAccepted, names?, Json.texts?]
      | object members => simp [isAccepted, names?, Json.texts?]

/-- A claim that fits a list names one of its values exactly when it holds names at all. -/
theorem holdsNames_iff_of_isAccepted {accepted : List String} {c : Claims} {key : String}
    (h : isAccepted accepted (c.get? key) = true) :
    HoldsNames c key ↔ ∃ name ∈ accepted, Names c key name := by
  constructor
  · rintro ⟨names, hnames⟩
    obtain ⟨name, haccepted, hmem⟩ := isAccepted_iff.mp h names hnames
    exact ⟨name, haccepted, names, hnames, hmem⟩
  · rintro ⟨name, -, names, hnames, -⟩
    exact ⟨names, hnames⟩

/-! ## Verifiers with restrictions -/

/-- An accepted token whose issuer claim holds names has one of the configured issuers among them,
and likewise for the audiences. Nothing is asked of a claim that holds no names. -/
theorem build_enforces_names {config : Config} {v : TokenVerifier} (hbuild : config.build = .ok v)
    {now : Nat} {token : String} {i : Identity} (h : v.verify now token = .ok i) :
    payload? token = some i.claims ∧
      (config.issuers ≠ [] →
        (HoldsNames i.claims "iss" ↔ ∃ name ∈ config.issuers, Names i.claims "iss" name)) ∧
      (config.audiences ≠ [] →
        (HoldsNames i.claims "aud" ↔ ∃ name ∈ config.audiences, Names i.claims "aud" name)) := by
  obtain ⟨source, hbuilt⟩ := Config.exists_built hbuild
  obtain ⟨parts, header, key, c, haccepts, hidentified⟩ := TokenVerifier.exists_accepts h
  obtain rfl : i.claims = c := hidentified.claims_eq
  have hadmitted := haccepts.admitted
  rw [hbuilt.limits] at hadmitted
  refine ⟨haccepts.payload?_eq, fun hissuers => ?_, fun haudiences => ?_⟩
  · exact holdsNames_iff_of_isAccepted (hadmitted.issued hissuers)
  · exact holdsNames_iff_of_isAccepted (hadmitted.addressed haudiences)

/-- A token for one of two audiences, by the only issuer. -/
def restrictedPayload : String :=
  "\x7b\"sub\":\"u\",\"iss\":\"https://idp.test\",\"aud\":[\"web\",\"api\"],\"exp\":4102444800\x7d"

def restrictedClaims : Claims :=
  .ofMembers [("aud", .array [.string "web", .string "api"]),
    ("exp", .number (.integer 4102444800)), ("iss", .string "https://idp.test"),
    ("sub", .string "u")]

theorem restrictedPayload_read :
    (wholeDocument? restrictedPayload).bind claims? = some restrictedClaims := by
  cbv

theorem restrictedClaims_admitted :
    Limits.Admits ⟨["https://idp.test"], ["api"], 60⟩ 1700000000 restrictedClaims where
  unexpired := ⟨4102444800, by decide +kernel, by decide⟩
  mature d hd := by
    have hnone : restrictedClaims.get? "nbf" = none :=
      Option.isNone_iff_eq_none.mp (by decide +kernel)
    cases hnone.symm.trans hd
  issued _ := by decide +kernel
  addressed _ := by decide +kernel

theorem build_enforces_names_sample :
    ∃ v i, (sampleConfig ["https://idp.test"] ["api"]).build = .ok v ∧
      v.verify 1700000000 (sampleToken restrictedPayload) = .ok i ∧
      (∃ name ∈ ["https://idp.test"], Names i.claims "iss" name) ∧
      ∃ name ∈ ["api"], Names i.claims "aud" name := by
  have hs : subject? Config.default.paths restrictedClaims = some "u" := by decide +kernel
  have hexpiry : wholeExpiry? restrictedClaims = some 4102444800 := by decide +kernel
  have hissuer : (restrictedClaims.get? "iss").bind names? = some ["https://idp.test"] := by
    decide +kernel
  have haudience : (restrictedClaims.get? "aud").bind names? = some ["web", "api"] := by
    decide +kernel
  have hheld : ∀ t, wholeExpiry? restrictedClaims = some t → t ≤ lastSecond := by
    intro t ht
    cases hexpiry.symm.trans ht
    decide
  obtain ⟨i, hidentity, hclaims⟩ := exists_identity hs hheld
  have haccepts := sampleVerifier_accepts restrictedPayload_read restrictedClaims_admitted
  have hi := haccepts.verify_eq.trans hidentity
  have hbuild := sampleConfig_build ["https://idp.test"] ["api"]
  obtain ⟨-, hiss, haud⟩ := build_enforces_names hbuild hi
  rw [hclaims] at hiss haud
  refine ⟨_, i, hbuild, hi, ?_⟩
  rw [hclaims]
  constructor
  · exact (hiss (List.cons_ne_nil _ _)).mp ⟨_, hissuer⟩
  · exact (haud (List.cons_ne_nil _ _)).mp ⟨_, haudience⟩

/-- A token that names neither an issuer nor an audience gets past both restrictions. -/
theorem build_passes_absent_names :
    ¬ ∀ (config : Config) (v : TokenVerifier) (now : Nat) (token : String) (i : Identity),
      config.build = .ok v → v.verify now token = .ok i →
        (config.issuers ≠ [] → ∃ name ∈ config.issuers, Names i.claims "iss" name) ∧
          (config.audiences ≠ [] → ∃ name ∈ config.audiences, Names i.claims "aud" name) := by
  intro henforced
  obtain ⟨i, hi, hclaims⟩ := exists_plain_verify ["https://idp.test"] ["api"]
  have hbuild := sampleConfig_build ["https://idp.test"] ["api"]
  obtain ⟨hissuer, -⟩ := henforced _ _ _ _ i hbuild hi
  obtain ⟨name, -, names, hnames, -⟩ := hissuer (List.cons_ne_nil _ _)
  rw [hclaims, plainClaims, timedClaims_absent (by decide) (by decide)] at hnames
  cases hnames

end CallGuard.Token
