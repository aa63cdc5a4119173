import CallGuard.Proofs.Propagation.Delivery

/-! # Rights at the next hop

Roles and claims at the next hop are those of the identity that was written. Scopes are parted at
blanks, so that the words inside a scope come out as scopes of their own: only an identity whose
scopes have no blanks meets no further requirements there. -/

namespace CallGuard.Propagation

theorem mem_of_mem_words {scopes : List String}
    (hblank : ∀ t ∈ scopes, ∀ c ∈ t.toList, Text.isBlank c = false) {s t : String}
    (ht : t ∈ scopes) (hs : s ∈ Text.words t) : s ∈ scopes := by
  by_cases hempty : t = ""
  · subst hempty
    rw [Text.words_empty] at hs
    exact absurd hs List.not_mem_nil
  · rw [Text.words_of_not_blank hempty (hblank t ht), List.mem_singleton] at hs
    exact hs ▸ ht

theorem names_ite_subset {c : Prop} [Decidable c] (l : NameList) :
    (if c then l else .empty).names ⊆ l.names := by
  split
  next => exact List.Subset.refl _
  next => exact List.nil_subset _

theorem roles_delivered (o : Options) (i : Identity) :
    (delivered o i).roles.names ⊆ i.roles.names :=
  names_ite_subset i.roles

theorem scopes_delivered {o : Options} {i : Identity} {s : String}
    (hs : s ∈ (delivered o i).scopes.names) : ∃ t ∈ i.scopes.names, s ∈ Text.words t := by
  have hword := names_ite_subset _ hs
  rwa [NameList.mem_ofList, List.mem_flatMap] at hword

theorem claims_delivered {o : Options} {i : Identity}
    (hexact : (i.claims.filter o.allows).json.IsExact) :
    (delivered o i).claims.members ⊆ (i.claims.filter o.allows).members := by
  simp only [delivered, claims?_text hexact]
  split_ifs
  · exact List.Subset.refl _
  · exact List.nil_subset _
  · exact List.nil_subset _

/-- What an identity can do at the next hop. Its roles are roles that were written, and so are its
claims, all of which may travel. Its scopes are words of scopes that were written; when these have
no blanks, every requirement that is met there is met here too. -/
theorem read?_write_grants {o : Options} {i i' : Identity} {h : Headers}
    (hread : read? (write o i h) = some i') :
    i'.roles.names ⊆ i.roles.names ∧
    (∀ s ∈ i'.scopes.names, ∃ t ∈ i.scopes.names, s ∈ Text.words t) ∧
    ((i.claims.filter o.allows).json.IsExact →
      ∀ m ∈ i'.claims.members, m ∈ i.claims.members ∧ o.allows m.1 = true) ∧
    ((∀ t ∈ i.scopes.names, ∀ c ∈ t.toList, Text.isBlank c = false) →
      i'.scopes.names ⊆ i.scopes.names ∧
      ∀ r : Requirement, r.isMetBy i' = true → r.isMetBy i = true) := by
  rw [read?_write] at hread
  obtain rfl := eq_delivered hread
  have hroles := roles_delivered o i
  refine ⟨hroles, fun s => scopes_delivered, ?_, ?_⟩
  · intro hexact m hm
    exact List.mem_filter.mp (claims_delivered hexact hm)
  · intro hblank
    have hscopes : (delivered o i).scopes.names ⊆ i.scopes.names := by
      intro s hs
      obtain ⟨t, ht, hword⟩ := scopes_delivered hs
      exact mem_of_mem_words hblank ht hword
    exact ⟨hscopes, fun r => Requirement.isMetBy_mono hroles hscopes⟩

/-- An identity with scopes of one word each, and with claims of which one travels. -/
def grantSample : Identity :=
  { (((Identity.ofSubject "u").addRoles ["viewer"]).addScopes ["read", "write"]) with
    claims := ⟨[("level", .number (.integer 3)), ("note", .null)],
      by unfold Members.Ordered; decide⟩ }

theorem read?_write_grants_sample :
    ∃ i', read? (write ⟨some ["level"]⟩ grantSample .empty) = some i' ∧
      i'.roles.names ⊆ grantSample.roles.names ∧
      (∀ m ∈ i'.claims.members, m ∈ grantSample.claims.members) ∧
      ∀ r : Requirement, r.isMetBy i' = true → r.isMetBy grantSample = true := by
  have hexact : (grantSample.claims.filter (Options.allows ⟨some ["level"]⟩)).json.IsExact := by
    refine ⟨(grantSample.claims.filter _).ordered, ?_⟩
    simp [grantSample, Claims.filter, Options.allows, Json.HaveExact, Json.IsExact, Number.IsWord]
  have hreceived : read? (write ⟨some ["level"]⟩ grantSample .empty) =
      some { grantSample with
        claims := grantSample.claims.filter (Options.allows ⟨some ["level"]⟩) } := by
    rw [read?_write, delivered?, delivered, claims?_text hexact]
    rfl
  obtain ⟨hroles, -, hclaims, hrequirements⟩ := read?_write_grants hreceived
  have hblank : ∀ t ∈ grantSample.scopes.names, ∀ c ∈ t.toList, Text.isBlank c = false := by
    have hnames : grantSample.scopes.names = ["read", "write"] := rfl
    simp [hnames, Text.isBlank, Text.blankRanges]
  exact ⟨_, hreceived, hroles, fun m hm => (hclaims hexact m hm).1, (hrequirements hblank).2⟩

/-- An identity with one scope, in which a blank stands before the name of another right. -/
def splitSample : Identity :=
  (Identity.ofSubject "u").addScopes ["viewer admin"]

/-- A scope with a blank comes out as two, and so meets a requirement that was not met before. -/
theorem read?_write_splits_scopes :
    ∃ i', read? (write .all splitSample .empty) = some i' ∧
      i'.scopes.names = ["viewer", "admin"] ∧
      (Requirement.ofScopes ["admin"]).isMetBy i' = true ∧
      (Requirement.ofScopes ["admin"]).isMetBy splitSample = false := by
  rw [read?_write]
  exact ⟨_, rfl, rfl, rfl, rfl⟩

end CallGuard.Propagation
