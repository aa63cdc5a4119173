import CallGuard.Propagation
import CallGuard.Proofs.Identities

/-! # What stays private

Claims that an allow list leaves out are gone before anything is encoded or measured. What is
written says nothing about them: neither what they hold, nor that they are there. -/

namespace CallGuard.Propagation

/-- Two identities that agree on all that may travel under an allow list. Their other claims and
their expiries may differ. -/
structure Agree (keys : List String) (i j : Identity) : Prop where
  subject : i.subject = j.subject
  kind : i.kind = j.kind
  displayName : i.displayName = j.displayName
  roles : i.roles = j.roles
  scopes : i.scopes = j.scopes
  claims : ∀ key ∈ keys, i.claims.get? key = j.claims.get? key

variable {keys : List String} {i j : Identity}

theorem Options.allows_some_iff {key : String} :
    Options.allows ⟨some keys⟩ key = true ↔ key ∈ keys :=
  List.contains_iff_mem

theorem Agree.withClaim {key : String} (h : key ∉ keys) (value : Json) (i : Identity) :
    Agree keys (i.withClaim key value) i := by
  refine ⟨rfl, rfl, rfl, rfl, rfl, fun other hother => ?_⟩
  have hne : other ≠ key := fun heq => h (heq ▸ hother)
  exact Claims.get?_insert_of_ne hne value i.claims

/-- The texts are made of what the identities agree on. -/
theorem Agree.fields_eq (h : Agree keys i j) : fields ⟨some keys⟩ i = fields ⟨some keys⟩ j := by
  have hclaims : i.claims.filter (Options.allows ⟨some keys⟩) =
      j.claims.filter (Options.allows ⟨some keys⟩) := by
    apply Claims.filter_congr
    intro key hkey
    exact h.claims key (Options.allows_some_iff.mp hkey)
  simp only [fields, h.subject, h.kind, h.displayName, h.roles, h.scopes, hclaims]

/-- Under an allow list, identities that agree on what may travel are written alike over any
headers. In particular no further claim, however large, changes what is written. -/
theorem write_hides_claims (hagree : Agree keys i j) (h : Headers) :
    write ⟨some keys⟩ i h = write ⟨some keys⟩ j h ∧
      ∀ key ∉ keys, ∀ value,
        write ⟨some keys⟩ (i.withClaim key value) h = write ⟨some keys⟩ j h := by
  have halike {a b : Identity} (hab : Agree keys a b) :
      write ⟨some keys⟩ a h = write ⟨some keys⟩ b h := by
    rw [write, write, hab.fields_eq]
  refine ⟨halike hagree, fun key hkey value => ?_⟩
  rw [halike (Agree.withClaim hkey value i), halike hagree]

/-- An identity with one claim, and the same with an expiry and a claim that can stand in no
header. -/
def openSample : Identity :=
  (Identity.ofSubject "ada").withClaim "tenant" (.string "acme")

def privateSample : Identity :=
  (openSample.withClaim "note" (.string "\x7f")).withExpiry 4102444800

/-- The private claim would keep the other one back if it travelled with it. -/
theorem write_hides_claims_sample :
    Agree ["tenant"] privateSample openSample ∧
      write ⟨some ["tenant"]⟩ privateSample .empty = write ⟨some ["tenant"]⟩ openSample .empty ∧
      (write ⟨some ["tenant"]⟩ openSample .empty).text? .authClaims =
        some "\x7b\"tenant\":\"acme\"\x7d" ∧
      (write .all privateSample .empty).text? .authClaims = none := by
  have hclaim : Agree ["tenant"] (openSample.withClaim "note" (.string "\x7f")) openSample :=
    .withClaim (by decide) _ openSample
  have hagree : Agree ["tenant"] privateSample openSample := { hclaim with }
  refine ⟨hagree, (write_hides_claims hagree .empty).1, ?_, ?_⟩
  · decide +kernel
  · decide +kernel

end CallGuard.Propagation
