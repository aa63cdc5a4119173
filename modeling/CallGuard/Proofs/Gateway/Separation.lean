import CallGuard.Proofs.Gateway.Spoofing

/-! # Headers that keep to themselves

All headers of a gateway but that of the subject are optional. Whatever bytes one of them holds, a
trusted call is not refused for it, and no part of the identity changes but the one that is passed
on in it. -/

namespace CallGuard

/-! ## Parts of an identity -/

namespace Identity

/-- The parts of an identity that a gateway need not pass on. -/
inductive Part where
  | displayName
  | roles
  | scopes
  | kind
  | claims
deriving DecidableEq

def Part.all : List Part :=
  [.displayName, .roles, .scopes, .kind, .claims]

theorem Part.mem_all (part : Part) : part ∈ all := by
  cases part <;> decide

/-- Two identities that are equal up to one part. -/
structure AgreeBut (part : Part) (i j : Identity) : Prop where
  subject : i.subject = j.subject
  displayName : part ≠ .displayName → i.displayName = j.displayName
  roles : part ≠ .roles → i.roles = j.roles
  scopes : part ≠ .scopes → i.scopes = j.scopes
  kind : part ≠ .kind → i.kind = j.kind
  claims : part ≠ .claims → i.claims = j.claims
  expiresAt : i.expiresAt = j.expiresAt

end Identity

namespace GatewayHeaders

open Identity

/-- The header in which a part is passed on, if it is. -/
def headerOf (g : GatewayHeaders) : Part → Option HeaderName
  | .displayName => g.name
  | .roles => g.roles
  | .scopes => g.scopes
  | .kind => g.type
  | .claims => g.claims

variable {g : GatewayHeaders}

theorem mapped_eq (g : GatewayHeaders) :
    g.mapped = g.subject :: Part.all.filterMap g.headerOf :=
  rfl

theorem mem_mapped_of_headerOf {part : Part} {n : HeaderName} (h : g.headerOf part = some n) :
    n ∈ g.mapped := by
  rw [mapped_eq]
  exact .tail _ (List.mem_filterMap.mpr ⟨part, part.mem_all, h⟩)

/-- In distinct headers no part is passed on where the subject is. -/
theorem subject_ne_of_headerOf (hdistinct : g.mapped.Nodup) {part : Part} {n : HeaderName}
    (h : g.headerOf part = some n) : g.subject ≠ n := by
  rintro rfl
  rw [mapped_eq, List.nodup_cons, List.mem_filterMap] at hdistinct
  exact hdistinct.1 ⟨part, part.mem_all, h⟩

/-- In distinct headers no two parts are passed on in the same one. -/
theorem headerOf_ne (hdistinct : g.mapped.Nodup) {part other : Part} (hne : part ≠ other)
    {n m : HeaderName} (hn : g.headerOf part = some n) (hm : g.headerOf other = some m) :
    m ≠ n := by
  rw [mapped_eq, List.nodup_cons, List.Nodup, List.pairwise_filterMap] at hdistinct
  have hsymm : Std.Symm fun p q => ∀ n, g.headerOf p = some n → ∀ m, g.headerOf q = some m →
      n ≠ m := ⟨fun p q h n hn m hm => (h m hm n hn).symm⟩
  exact hdistinct.2.forall other.mem_all part.mem_all hne.symm m hm n hn

theorem field?_congr {h k : Headers} {name : Option HeaderName}
    (e : ∀ m, name = some m → h.values m = k.values m) : field? h name = field? k name := by
  cases name with
  | none => rfl
  | some m => exact Headers.trimmed?_congr (e m rfl)

theorem exists_identity {h : Headers} {s : String} (hsubject : h.trimmed? g.subject = some s) :
    ∃ i, g.identity h = .ok i := by
  rw [identity, hsubject]
  exact ⟨_, rfl⟩

/-- A part is read off its own header only. -/
theorem agreeBut_of_identity (hdistinct : g.mapped.Nodup) {part : Part} {n : HeaderName}
    (hn : g.headerOf part = some n) {h k : Headers}
    (hvalues : ∀ m, m ≠ n → h.values m = k.values m) {i j : Identity}
    (hi : g.identity h = .ok i) (hj : g.identity k = .ok j) : AgreeBut part i j := by
  have hfield (other : Part) (hne : part ≠ other) :
      field? h (g.headerOf other) = field? k (g.headerOf other) :=
    field?_congr fun m hm => hvalues m (headerOf_ne hdistinct hne hn hm)
  have hsubject : h.trimmed? g.subject = k.trimmed? g.subject :=
    Headers.trimmed?_congr (hvalues _ (subject_ne_of_headerOf hdistinct hn))
  have hname : part ≠ .displayName → field? h g.name = field? k g.name := hfield .displayName
  have hroles : part ≠ .roles → field? h g.roles = field? k g.roles := hfield .roles
  have hscopes : part ≠ .scopes → field? h g.scopes = field? k g.scopes := hfield .scopes
  have htype : part ≠ .kind → field? h g.type = field? k g.type := hfield .kind
  have hclaims : part ≠ .claims → field? h g.claims = field? k g.claims := hfield .claims
  cases hs : k.trimmed? g.subject with
  | none =>
      rw [identity, hs] at hj
      cases hj
  | some s =>
      rw [identity, hsubject, hs] at hi
      rw [identity, hs] at hj
      cases hi
      cases hj
      refine ⟨rfl, hname, fun hne => ?_, fun hne => ?_, fun hne => ?_, fun hne => ?_, rfl⟩
      · rw [hroles hne]
      · rw [hscopes hne]
      · rw [htype hne]
      · rw [hclaims hne]

end GatewayHeaders

/-! ## Requests -/

/-- Two requests that differ in the values of one header at most, and in what no check gets to
see. -/
structure Request.DifferAt {ε β : Type} (n : HeaderName) (r₁ r₂ : Request ε β) : Prop where
  method_eq : r₁.method = r₂.method
  peer_eq : r₁.peer = r₂.peer
  values_eq : ∀ m, m ≠ n → r₁.headers.values m = r₂.headers.values m

namespace GatewayConfig

open Identity

variable {ε β : Type} {c : GatewayConfig} {g : GatewayHeaders} {r₁ r₂ : Request ε β}

theorem alike_of_differAt (hheaders : c.headers = .ok g) {n : HeaderName} (hn : n ∈ g.mapped)
    (htrust : ¬ c.IsTrustHeader n) (h : r₁.DifferAt n r₂) : c.AlikeButForSpoofs r₁ r₂ := by
  refine ⟨h.method_eq, h.peer_eq, fun m hm => h.values_eq m ?_⟩
  rintro rfl
  exact hm ⟨htrust, .inl ((mem_mapped_iff hheaders m).mp hn)⟩

/-- A gateway refuses no trusted call with a subject for its other headers. Of two such calls that
differ in one of these, it finds identities that differ at most in the part which is passed on
there. -/
theorem build_keeps_parts_apart {a : Authenticator} (hbuild : c.build = .ok a)
    (hheaders : c.headers = .ok g) (hdistinct : g.mapped.Nodup)
    (happart : ∀ n ∈ g.mapped, ¬ c.IsTrustHeader n) (hskip : ¬ c.Skips r₁.method)
    (htrust : c.Trusts r₁.call) (hsubject : ∃ s, r₁.headers.trimmed? g.subject = some s)
    (now₁ now₂ : Moment) :
    (∃ i, (a.authenticate now₁ .off r₁).result = .ok (some i)) ∧
      ∀ part n, g.headerOf part = some n → ∀ r₂ : Request ε β, r₁.DifferAt n r₂ →
        ∃ i j, (a.authenticate now₁ .off r₁).result = .ok (some i) ∧
          (a.authenticate now₂ .off r₂).result = .ok (some j) ∧ AgreeBut part i j := by
  obtain ⟨g', source, h⟩ := exists_built hbuild
  obtain rfl : g' = g := Except.ok.inj (h.headers.symm.trans hheaders)
  obtain ⟨s, hs⟩ := hsubject
  obtain ⟨i, hi⟩ := GatewayHeaders.exists_identity hs
  have hfirst : (a.authenticate now₁ .off r₁).result = .ok (some i) := by
    rw [h.authenticate_of_trusts now₁ r₁ hskip htrust, hi]
  refine ⟨⟨i, hfirst⟩, ?_⟩
  intro part n hn r₂ hdiffer
  have hmapped := GatewayHeaders.mem_mapped_of_headerOf hn
  have halike := alike_of_differAt hheaders hmapped (happart n hmapped) hdiffer
  have hskip₂ : ¬ c.Skips r₂.method := halike.method_eq ▸ hskip
  have htrust₂ : c.Trusts r₂.call := by
    obtain ⟨signal, hsignal, htrusted⟩ := htrust
    exact ⟨signal, halike.signals hsignal, htrusted⟩
  have hs₂ : r₂.headers.trimmed? g'.subject = some s := by
    have hne := GatewayHeaders.subject_ne_of_headerOf hdistinct hn
    rwa [← Headers.trimmed?_congr (hdiffer.values_eq _ hne)]
  obtain ⟨j, hj⟩ := GatewayHeaders.exists_identity hs₂
  have hsecond : (a.authenticate now₂ .off r₂).result = .ok (some j) := by
    rw [h.authenticate_of_trusts now₂ r₂ hskip₂ htrust₂, hj]
  exact ⟨i, j, hfirst, hsecond,
    GatewayHeaders.agreeBut_of_identity hdistinct hn hdiffer.values_eq hi hj⟩

/-! ## A gateway with all headers -/

/-- A gateway that shows a secret and passes all parts on. -/
def partsConfig : GatewayConfig :=
  { minimal "X-User" (.header "X-Secret") ["open sesame"] with
    nameHeader := some "X-Name", rolesHeader := some "X-Roles", scopesHeader := some "X-Scopes",
    typeHeader := some "X-Type", claimsHeader := some "X-Claims" }

def nameName : HeaderName := ⟨"x-name", by decide⟩
def rolesName : HeaderName := ⟨"x-roles", by decide⟩
def scopesName : HeaderName := ⟨"x-scopes", by decide⟩
def typeName : HeaderName := ⟨"x-type", by decide⟩
def claimsName : HeaderName := ⟨"x-claims", by decide⟩

def partsHeaders : GatewayHeaders where
  subject := sampleSubject
  name := some nameName
  roles := some rolesName
  scopes := some scopesName
  type := some typeName
  claims := some claimsName

/-- The secret, and the subject that is passed on with it. -/
def secretValue : HeaderValue := ⟨"open sesame".toUTF8, by decide +kernel⟩
def subjectValue : HeaderValue := ⟨"ada".toUTF8, by decide +kernel⟩

/-- The start of a JSON array. -/
def brokenRoles : HeaderValue := ⟨"[\"admin\"".toUTF8, by decide +kernel⟩

/-- A trusted call with a name that is no text, claims that are no object, and some roles. -/
def partsCall (roles : List HeaderValue) : Request Unit Unit :=
  { Request.ofMethod ⟨"Users", "Get"⟩ () () with
    headers := ⟨[(sampleSecret, secretValue), (sampleSubject, subjectValue),
      (nameName, ⟨⟨#[0xC3, 0x28]⟩, by decide +kernel⟩),
      (claimsName, ⟨"\x7b".toUTF8, by decide +kernel⟩)] ++
      roles.map fun v => (rolesName, v)⟩ }

theorem partsCall_differAt (first second : List HeaderValue) :
    (partsCall first).DifferAt rolesName (partsCall second) := by
  refine ⟨rfl, rfl, fun m hm => ?_⟩
  have hroles (roles : List HeaderValue) :
      (roles.map fun v => (rolesName, v)).filter (fun e => e.1 = m) = [] := by
    simp [Ne.symm hm]
  simp only [partsCall, Headers.values, List.filter_append, hroles]

/-- Broken roles do no harm to the other parts, nor do a broken name and broken claims to the
call. -/
theorem build_keeps_parts_apart_sample :
    ∃ a, partsConfig.build = .ok a ∧
      ∃ i j, (a.authenticate ⟨0, 0⟩ .off (partsCall [brokenRoles])).result = .ok (some i) ∧
        (a.authenticate ⟨9, 9⟩ .off (partsCall [])).result = .ok (some j) ∧
        AgreeBut .roles i j := by
  obtain ⟨a, h⟩ : ∃ a, partsConfig.build = .ok a := Checks.exists_eq_ok_of_toBool rfl
  have hheaders : partsConfig.headers = .ok partsHeaders := rfl
  have hdistinct : partsHeaders.mapped.Nodup := by decide
  have happart : ∀ n ∈ partsHeaders.mapped, ¬ partsConfig.IsTrustHeader n := by
    intro n hn htrust
    obtain rfl : sampleSecret = n := htrust.eq rfl rfl
    exact absurd hn (by decide)
  have hskip : ¬ partsConfig.Skips (partsCall [brokenRoles]).method := not_skips_of_nil rfl _
  have htrust : partsConfig.Trusts (partsCall [brokenRoles]).call :=
    ⟨"open sesame", .header rfl rfl (by decide +kernel), by decide +kernel⟩
  have hsubject : (partsCall [brokenRoles]).headers.trimmed? sampleSubject = some "ada" := by
    decide +kernel
  have hparts := build_keeps_parts_apart h hheaders hdistinct happart hskip htrust
    ⟨"ada", hsubject⟩ ⟨0, 0⟩ ⟨9, 9⟩
  exact ⟨a, h, hparts.2 .roles rolesName rfl (partsCall []) (partsCall_differAt _ _)⟩

end GatewayConfig

end CallGuard
