import CallGuard.Gateway
import CallGuard.Proofs.Headers
import CallGuard.Proofs.Identities
import CallGuard.Proofs.Token.Acceptance

/-! # The names of an identity

Roles and scopes are given in several lists, one after the other, or read from a token or from
headers. Whatever the source, an identity holds each given name once, where it was first given. -/

namespace CallGuard.Identity

/-! ## Building -/

/-- What is set about an identity while it is built. -/
inductive Setting where
  | roles (names : List String)
  | scopes (names : List String)
  | claims (claims : Claims)
  | claim (key : String) (value : Json)
  | displayName (name : String)
  | kind (kind : String)
  | expiry (instant : Int)

def set (i : Identity) : Setting → Identity
  | .roles names => i.addRoles names
  | .scopes names => i.addScopes names
  | .claims claims => i.withClaims claims
  | .claim key value => i.withClaim key value
  | .displayName name => i.withDisplayName name
  | .kind kind => i.withKind kind
  | .expiry instant => i.withExpiry instant

def build (subject : String) (settings : List Setting) : Identity :=
  settings.foldl set (ofSubject subject)

namespace Setting

def givenRoles : Setting → List String
  | roles names => names
  | _ => []

def givenScopes : Setting → List String
  | scopes names => names
  | _ => []

end Setting

theorem roles_set (i : Identity) (s : Setting) : (i.set s).roles = i.roles.extend s.givenRoles := by
  cases s <;> rfl

theorem scopes_set (i : Identity) (s : Setting) :
    (i.set s).scopes = i.scopes.extend s.givenScopes := by
  cases s <;> rfl

/-- A list that every setting extends ends up with what all of them give, in their order. -/
theorem foldl_set {names : Identity → NameList} {given : Setting → List String}
    (hset : ∀ i s, names (i.set s) = (names i).extend (given s)) (settings : List Setting)
    (i : Identity) : names (settings.foldl set i) = (names i).extend (settings.flatMap given) := by
  induction settings generalizing i with
  | nil => rfl
  | cons s settings ih =>
      rw [List.foldl_cons, ih, hset, List.flatMap_cons, NameList.extend_append]

theorem roles_build (subject : String) (settings : List Setting) :
    (build subject settings).roles = .ofList (settings.flatMap Setting.givenRoles) :=
  foldl_set roles_set settings (ofSubject subject)

theorem scopes_build (subject : String) (settings : List Setting) :
    (build subject settings).scopes = .ofList (settings.flatMap Setting.givenScopes) :=
  foldl_set scopes_set settings (ofSubject subject)

/-! ## Sources -/

/-- Where an identity comes from, with the roles and the scopes that are given there. -/
inductive Origin : List String → List String → Identity → Prop where
  | built (subject settings) :
      Origin (settings.flatMap Setting.givenRoles) (settings.flatMap Setting.givenScopes)
        (build subject settings)
  | token {v : Token.TokenVerifier} {now text i} (h : v.verify now text = .ok i) :
      Origin (Token.nameList (Token.claimAt i.claims v.paths.roles))
        (Token.nameList (Token.claimAt i.claims v.paths.scopes)) i
  | gateway {trusted g now signal} {call : Call} {i}
      (h : Gateway.verifier trusted g now signal call = .ok i) :
      Origin (((GatewayHeaders.field? call.headers g.roles).map GatewayHeaders.rolesOf).getD [])
        (((GatewayHeaders.field? call.headers g.scopes).map Text.words).getD []) i
  | propagated {h i} (hread : Propagation.read? h = some i) :
      Origin (((Propagation.bounded? h .authRoles).bind Propagation.stringList?).getD [])
        (((Propagation.bounded? h .authScopes).map Text.words).getD []) i

variable {roles scopes : List String} {i : Identity}

theorem Origin.names_eq (h : Origin roles scopes i) :
    i.roles = .ofList roles ∧ i.scopes = .ofList scopes := by
  cases h with
  | built subject settings => exact ⟨roles_build subject settings, scopes_build subject settings⟩
  | token h =>
      obtain ⟨_, _, _, _, -, hidentified⟩ := Token.TokenVerifier.exists_accepts h
      cases hidentified with
      | read => exact ⟨rfl, rfl⟩
  | gateway h =>
      unfold Gateway.verifier GatewayHeaders.identity at h
      split at h
      next =>
        split at h
        next hi =>
          cases h
          split at hi
          next => cases hi
          next =>
            cases hi
            exact ⟨rfl, rfl⟩
        next => cases h
      next => cases h
  | propagated hread =>
      obtain ⟨subject, -, hi⟩ := Option.bind_eq_some_iff.mp hread
      cases hi
      exact ⟨rfl, rfl⟩

/-! ## Names -/

/-- An identity holds given names: each once, where it was first given. -/
structure Holds (roles scopes : List String) (i : Identity) : Prop where
  roles_eq : i.roles.names = roles.eraseDups
  scopes_eq : i.scopes.names = scopes.eraseDups
  roles_nodup : i.roles.names.Nodup
  scopes_nodup : i.scopes.names.Nodup
  hasRole_iff : ∀ role, i.hasRole role = true ↔ role ∈ roles
  hasScope_iff : ∀ scope, i.hasScope scope = true ↔ scope ∈ scopes

/-- Whatever an identity comes from, it holds the names that are given there and no others. -/
theorem holds_of_origin (h : Origin roles scopes i) : Holds roles scopes i := by
  obtain ⟨hroles, hscopes⟩ := h.names_eq
  have hrole (role : String) : i.hasRole role = true ↔ role ∈ roles := by
    rw [hasRole, hroles, NameList.contains, List.contains_iff_mem, NameList.mem_ofList]
  have hscope (scope : String) : i.hasScope scope = true ↔ scope ∈ scopes := by
    rw [hasScope, hscopes, NameList.contains, List.contains_iff_mem, NameList.mem_ofList]
  exact
    { roles_eq := by rw [hroles, NameList.names_ofList]
      scopes_eq := by rw [hscopes, NameList.names_ofList]
      roles_nodup := i.roles.nodup
      scopes_nodup := i.scopes.nodup
      hasRole_iff := hrole
      hasScope_iff := hscope }

/-- Roles that are given twice, with scopes and a claim of the same names in between. -/
def builtSample : List Setting :=
  [.roles ["b", "a", "b"], .scopes ["a"], .claim "roles" (.string "c"), .roles ["a", "c"],
    .kind "jwt", .scopes ["x", "a"]]

def propagatedSample : Headers :=
  ⟨[(.authSubject, ⟨"u".toUTF8, by decide +kernel⟩),
    (.authScopes, ⟨" x y x".toUTF8, by decide +kernel⟩)]⟩

theorem propagatedSample_origin :
    ∃ i, Propagation.read? propagatedSample = some i ∧ Origin [] ["x", "y", "x"] i := by
  have hsubject : Propagation.nonempty? propagatedSample .authSubject = some "u" := by
    have htext : propagatedSample.text? .authSubject = some "u" := Headers.text?_of_head? rfl rfl
    rw [Propagation.nonempty?, htext]
    rfl
  have hroles : Propagation.bounded? propagatedSample .authRoles = none := rfl
  have hscopes : (Propagation.bounded? propagatedSample .authScopes).map Text.words =
      some ["x", "y", "x"] := by
    have htext : propagatedSample.text? .authScopes = some " x y x" :=
      Headers.text?_of_head? rfl rfl
    rw [Propagation.bounded?, htext]
    decide
  obtain ⟨i, hi⟩ : ∃ i, Propagation.read? propagatedSample = some i := by
    simp only [Propagation.read?, hsubject, Option.bind_eq_bind, Option.bind_some, Option.pure_def,
      Option.some.injEq, exists_eq']
  have horigin := Origin.propagated hi
  rw [hroles, hscopes] at horigin
  exact ⟨i, hi, horigin⟩

theorem holds_of_origin_samples :
    Origin ["b", "a", "b", "a", "c"] ["a", "x", "a"] (build "u" builtSample) ∧
      (build "u" builtSample).roles.names = ["b", "a", "c"] ∧
      (build "u" builtSample).scopes.names = ["a", "x"] ∧
      ∃ i, Propagation.read? propagatedSample = some i ∧ Origin [] ["x", "y", "x"] i ∧
        i.scopes.names = ["x", "y"] := by
  have hbuilt : Origin ["b", "a", "b", "a", "c"] ["a", "x", "a"] (build "u" builtSample) :=
    .built "u" builtSample
  have hnames := holds_of_origin hbuilt
  obtain ⟨i, hi, hread⟩ := propagatedSample_origin
  exact ⟨hbuilt, hnames.roles_eq, hnames.scopes_eq, i, hi, hread, (holds_of_origin hread).scopes_eq⟩

end CallGuard.Identity
