import CallGuard.Proofs.Identities
import CallGuard.Proofs.Text.Lists
import CallGuard.Proofs.Token.Acceptance

/-! # From claims to an identity

A path leads through nested objects, past whatever else they hold. The names at its end may be
written as a list or as a text; both make up the same roles and scopes. -/

namespace CallGuard

/-! ## Members that are found -/

namespace Members

variable {α : Type} {members : List (String × α)} {key : String}

/-- The first member with a key is found, whatever stands around it. -/
theorem get?_append {before : List (String × α)} (h : key ∉ before.map Prod.fst) (value : α)
    (after : List (String × α)) : get? key (before ++ (key, value) :: after) = some value := by
  induction before with
  | nil => simp [get?]
  | cons m before ih =>
      rw [List.map_cons, List.mem_cons, not_or] at h
      rw [List.cons_append, get?, if_neg (Ne.symm h.1), ih h.2]

theorem exists_append_of_get? {value : α} (h : get? key members = some value) :
    ∃ before after, members = before ++ (key, value) :: after ∧ key ∉ before.map Prod.fst := by
  induction members with
  | nil => cases h
  | cons m rest ih =>
      obtain ⟨k, v⟩ := m
      rw [get?] at h
      split at h
      next hk =>
        subst hk
        cases h
        exact ⟨[], rest, rfl, List.not_mem_nil⟩
      next hk =>
        obtain ⟨before, after, rfl, hbefore⟩ := ih h
        refine ⟨(k, v) :: before, after, rfl, ?_⟩
        exact List.not_mem_cons_of_ne_of_not_mem (Ne.symm hk) hbefore

theorem get?_eq_none_iff : get? key members = none ↔ key ∉ members.map Prod.fst := by
  induction members with
  | nil => simp [get?]
  | cons m rest ih =>
      obtain ⟨k, v⟩ := m
      by_cases hk : k = key
      · simp [get?, hk]
      · simp [get?, hk, Ne.symm hk, ih]

end Members

namespace Token

/-! ## Paths -/

/-- A path that consists of some segments. -/
inductive Dotted (segments : List String) : String → Prop where
  | intro (hne : segments ≠ []) (h : ∀ s ∈ segments, '.' ∉ s.toList) :
      Dotted segments (Text.join "." segments)

/-- Segments lead from a value to one inside it, through an object for each of them. -/
inductive Leads : List String → Json → Json → Prop where
  | here (v) : Leads [] v v
  | down {key before v after rest w} (hkey : key ∉ before.map Prod.fst) (h : Leads rest v w) :
      Leads (key :: rest) (.object (before ++ (key, v) :: after)) w

/-- Segments lead nowhere: one of them is missing in its object, or there is no object. -/
inductive Misses : List String → Json → Prop where
  | absent {key members rest} (h : key ∉ members.map Prod.fst) :
      Misses (key :: rest) (.object members)
  | blocked {key v rest} (h : ∀ members, v ≠ .object members) : Misses (key :: rest) v
  | down {key before v after rest} (hkey : key ∉ before.map Prod.fst) (h : Misses rest v) :
      Misses (key :: rest) (.object (before ++ (key, v) :: after))

theorem Dotted.split_eq {segments : List String} {path : String} (h : Dotted segments path) :
    Text.split '.' path = segments := by
  cases h with
  | intro hne h =>
      have hdot : "." = String.singleton '.' := rfl
      rw [hdot]
      exact Text.split_join hne h

theorem follow_object {key : String} {before : List (String × Json)}
    (h : key ∉ before.map Prod.fst) (v : Json) (after : List (String × Json))
    (rest : List String) :
    follow (.object (before ++ (key, v) :: after)) (key :: rest) = follow v rest := by
  rw [follow, Json.member?, Members.get?_append h, Option.bind_some]

theorem follow_eq_some_iff {path : List String} {v w : Json} :
    follow v path = some w ↔ Leads path v w := by
  constructor
  · intro h
    induction path generalizing v with
    | nil =>
        cases h
        exact .here w
    | cons key rest ih =>
        cases v with
        | object members =>
            obtain ⟨u, hu, hw⟩ := Option.bind_eq_some_iff.mp h
            obtain ⟨before, after, rfl, hbefore⟩ := Members.exists_append_of_get? hu
            exact .down hbefore (ih hw)
        | _ => cases h
  · intro h
    induction h with
    | here v => rfl
    | down hkey _ ih => rw [follow_object hkey, ih]

theorem follow_eq_none_iff {path : List String} {v : Json} :
    follow v path = none ↔ Misses path v := by
  constructor
  · intro h
    induction path generalizing v with
    | nil => cases h
    | cons key rest ih =>
        cases v with
        | object members =>
            cases hu : Members.get? key members with
            | none => exact .absent (Members.get?_eq_none_iff.mp hu)
            | some u =>
                obtain ⟨before, after, rfl, hbefore⟩ := Members.exists_append_of_get? hu
                rw [follow_object hbefore] at h
                exact .down hbefore (ih h)
        | _ => exact .blocked fun _ => by simp
  · intro h
    induction h with
    | absent h => rw [follow, Json.member?, Members.get?_eq_none_iff.mpr h, Option.bind_none]
    | @blocked key v rest h =>
        cases v with
        | object members => exact absurd rfl (h members)
        | _ => rfl
    | down hkey _ ih => rw [follow_object hkey, ih]

theorem Dotted.claimAt_eq_some_iff {segments : List String} {path : String}
    (h : Dotted segments path) {c : Claims} {v : Json} :
    claimAt c path = some v ↔ Leads segments c.json v := by
  rw [claimAt, h.split_eq, follow_eq_some_iff]

theorem Dotted.claimAt_eq_none_iff {segments : List String} {path : String}
    (h : Dotted segments path) {c : Claims} : claimAt c path = none ↔ Misses segments c.json := by
  rw [claimAt, h.split_eq, follow_eq_none_iff]

/-! ## Names -/

/-- The items of a list are some texts, with any other values among them. -/
inductive Mixed : List String → List Json → Prop where
  | nil : Mixed [] []
  | text {xs items} (s) (h : Mixed xs items) : Mixed (s :: xs) (.string s :: items)
  | other {xs v items} (hv : ∀ s, v ≠ .string s) (h : Mixed xs items) : Mixed xs (v :: items)

/-- A value gives some names: it is a list with them, or a text with blanks between them. A value of
another form gives none. -/
inductive Gives : List String → Json → Prop where
  | list {xs items} (h : Mixed xs items) : Gives xs (.array items)
  | row {xs s} (h : Text.IsRow xs s) : Gives xs (.string s)
  | shapeless {v} (harray : ∀ items, v ≠ .array items) (hstring : ∀ s, v ≠ .string s) : Gives [] v

/-- Claims give some names at the end of a path, or none since it leads nowhere. -/
inductive NamesAt (c : Claims) (segments : List String) : List String → Prop where
  | found {xs v} (h : Leads segments c.json v) (hv : Gives xs v) : NamesAt c segments xs
  | missed (h : Misses segments c.json) : NamesAt c segments []

theorem Mixed.filterMap_eq {xs : List String} {items : List Json} (h : Mixed xs items) :
    items.filterMap Json.text? = xs := by
  induction h with
  | nil => rfl
  | text s _ ih => simp [Json.text?, ih]
  | @other xs v items hv _ ih =>
      have hnone : v.text? = none := by
        cases v with
        | string s => exact absurd rfl (hv s)
        | _ => rfl
      rw [List.filterMap_cons_none hnone, ih]

theorem Gives.nameList_eq {xs : List String} {v : Json} (h : Gives xs v) :
    nameList (some v) = xs := by
  cases h with
  | list h => exact h.filterMap_eq
  | row h => exact h.words_eq
  | shapeless harray hstring =>
      cases v with
      | array items => exact absurd rfl (harray items)
      | string s => exact absurd rfl (hstring s)
      | _ => rfl

theorem NamesAt.nameList_eq {c : Claims} {segments xs : List String} {path : String}
    (h : NamesAt c segments xs) (hpath : Dotted segments path) : nameList (claimAt c path) = xs := by
  cases h with
  | found h hv => rw [hpath.claimAt_eq_some_iff.mpr h, hv.nameList_eq]
  | missed h =>
      rw [hpath.claimAt_eq_none_iff.mpr h]
      rfl

/-! ## Subjects -/

/-- Claims name a subject at the end of a path. -/
def Subject (c : Claims) (segments : List String) (subject : String) : Prop :=
  subject ≠ "" ∧ Leads segments c.json (.string subject)

section

variable {paths : ClaimPaths} {c : Claims} {segments : List String} {i : Identity}

theorem subject?_eq_some_iff (h : Dotted segments paths.subject) {subject : String} :
    subject? paths c = some subject ↔ Subject c segments subject := by
  rw [subject?, Option.filter_eq_some_iff, Option.bind_eq_some_iff, Subject, and_comm]
  refine and_congr (by simp) ?_
  constructor
  · rintro ⟨v, hv, htext⟩
    cases v with
    | string s =>
        cases htext
        exact h.claimAt_eq_some_iff.mp hv
    | _ => cases htext
  · intro hleads
    exact ⟨_, h.claimAt_eq_some_iff.mpr hleads, rfl⟩

theorem subject?_eq_none_iff (h : Dotted segments paths.subject) :
    subject? paths c = none ↔ ∀ subject, ¬ Subject c segments subject := by
  rw [Option.eq_none_iff_forall_ne_some]
  exact forall_congr' fun _ => not_congr (subject?_eq_some_iff h)

/-! ## Identities -/

/-- The clock holds the expiry if it is a whole number. -/
def HeldExpiry (c : Claims) : Prop :=
  ∀ n, c.get? "exp" = some (.number (.integer n)) → n ≤ 2 ^ 63 - 1

theorem HeldExpiry.le_lastSecond (h : HeldExpiry c) {t : Nat} (ht : wholeExpiry? c = some t) :
    t ≤ lastSecond := by
  have hend : lastSecond = 2 ^ 63 - 1 := by decide
  obtain ⟨v, hv, ht⟩ := Option.bind_eq_some_iff.mp ht
  cases v with
  | number x =>
      cases x with
      | integer n =>
          have hn := h n hv
          rw [Json.nat?, Number.nat?] at ht
          split at ht
          next => cases ht; omega
          next => cases ht
      | double x => cases ht
  | _ => cases ht

/-- Claims whose expiry the clock holds are refused for want of a subject only. -/
theorem identity_eq_error_iff (hheld : HeldExpiry c) {f : VerifyFailure} :
    identity paths c = .error f ↔
      subject? paths c = none ∧ f = .refused (.unauthenticated "missing subject") := by
  constructor
  · intro h
    have hidentified := identity_identified paths c
    rw [h] at hidentified
    cases hidentified with
    | nobody hs => exact ⟨hs, rfl⟩
    | beyondClock _ ht hlate => exact absurd hlate (Nat.not_lt.mpr (hheld.le_lastSecond ht))
  · rintro ⟨hs, rfl⟩
    rw [subject?] at hs
    rw [identity, hs]

end

/-- What becomes of claims whose parts are found at some segments. -/
structure MappingSpec (paths : ClaimPaths) (c : Claims) (subject roles scopes : List String) :
    Prop where
  /-- Every path, be it used here or not, yields what its segments lead to. -/
  claimAt_eq_some_iff : ∀ segments path v, Dotted segments path →
    (claimAt c path = some v ↔ Leads segments c.json v)
  claimAt_eq_none_iff : ∀ segments path, Dotted segments path →
    (claimAt c path = none ↔ Misses segments c.json)
  roles_eq : ∀ i xs, identity paths c = .ok i → NamesAt c roles xs → i.roles.names = xs.eraseDups
  scopes_eq : ∀ i xs, identity paths c = .ok i → NamesAt c scopes xs →
    i.scopes.names = xs.eraseDups
  error_iff : HeldExpiry c → ∀ f, identity paths c = .error f ↔
    (∀ s, ¬ Subject c subject s) ∧ f = .refused (.unauthenticated "missing subject")
  subject_named : ∀ i, identity paths c = .ok i → Subject c subject i.subject
  claims_eq : ∀ i, identity paths c = .ok i → i.claims = c

/-- An identity is made up of what stands at the ends of the paths: each name once, in the order in
which the names are given there. -/
theorem identity_mapping {paths : ClaimPaths} {subject roles scopes : List String}
    (hsubject : Dotted subject paths.subject) (hroles : Dotted roles paths.roles)
    (hscopes : Dotted scopes paths.scopes) (c : Claims) :
    MappingSpec paths c subject roles scopes := by
  have hread {i} (h : identity paths c = .ok i) : Identified paths c (.ok i) :=
    h ▸ identity_identified paths c
  refine ⟨fun _ _ _ h => h.claimAt_eq_some_iff, fun _ _ h => h.claimAt_eq_none_iff, ?roles, ?scopes,
    ?error, ?subject, fun _ h => (hread h).claims_eq⟩
  case roles =>
    intro i xs hi hxs
    cases hread hi with
    | read => rw [hxs.nameList_eq hroles, NameList.names_ofList]
  case scopes =>
    intro i xs hi hxs
    cases hread hi with
    | read => rw [hxs.nameList_eq hscopes, NameList.names_ofList]
  case error =>
    intro hheld f
    rw [identity_eq_error_iff hheld, subject?_eq_none_iff hsubject]
  case subject =>
    intro i hi
    cases hread hi with
    | read hs => exact (subject?_eq_some_iff hsubject).mp hs

/-- Claims with roles in a nested list among other values, and with scopes in a text. -/
def nestedClaims : Claims :=
  .ofMembers [
    ("realm_access", .object [
      ("kind", .string "realm"),
      ("roles", .array [.string "admin", .null, .string "viewer", .string "admin"])]),
    ("scope", .string " read\twrite read"),
    ("sub", .string "u")]

def nestedPaths : ClaimPaths :=
  ⟨"sub", "realm_access.roles", "scope", "name"⟩

theorem identity_mapping_nested :
    Dotted ["sub"] nestedPaths.subject ∧ Dotted ["realm_access", "roles"] nestedPaths.roles ∧
      Dotted ["scope"] nestedPaths.scopes ∧
      ∃ i, identity nestedPaths nestedClaims = .ok i ∧ i.subject = "u" ∧
        i.roles.names = ["admin", "viewer"] ∧ i.scopes.names = ["read", "write"] := by
  have hsubject : Dotted ["sub"] nestedPaths.subject := .intro (by decide) (by decide)
  have hroles : Dotted ["realm_access", "roles"] nestedPaths.roles :=
    .intro (by decide) (by decide)
  have hscopes : Dotted ["scope"] nestedPaths.scopes := .intro (by decide) (by decide)
  refine ⟨hsubject, hroles, hscopes, ?_⟩
  have spec := identity_mapping hsubject hroles hscopes nestedClaims
  have hleads : Leads ["sub"] nestedClaims.json (.string "u") :=
    (spec.claimAt_eq_some_iff _ _ _ hsubject).mp (by cbv)
  have hlist : NamesAt nestedClaims ["realm_access", "roles"] ["admin", "viewer", "admin"] :=
    .found ((spec.claimAt_eq_some_iff _ _ _ hroles).mp (by cbv))
      (.list (.text _ (.other (by simp) (.text _ (.text _ .nil)))))
  have hlast : Text.IsRow ["read"] (" " ++ "read" ++ "") :=
    .word (by decide) (by decide) (by rintro d ⟨⟩) (.blank (by decide))
  have hrest : Text.IsRow ["write", "read"] ("\t" ++ "write" ++ (" " ++ "read" ++ "")) :=
    .word (by decide) (by decide) (by rintro d ⟨⟩; rfl) hlast
  have hrow : Text.IsRow ["read", "write", "read"]
      (" " ++ "read" ++ ("\t" ++ "write" ++ (" " ++ "read" ++ ""))) :=
    .word (by decide) (by decide) (by rintro d ⟨⟩; rfl) hrest
  have htext : NamesAt nestedClaims ["scope"] ["read", "write", "read"] :=
    .found ((spec.claimAt_eq_some_iff _ _ _ hscopes).mp (by cbv)) (.row hrow)
  have hheld : HeldExpiry nestedClaims := by
    intro n hn
    cases hn
  cases h : identity nestedPaths nestedClaims with
  | error f => exact absurd ⟨by decide, hleads⟩ (((spec.error_iff hheld f).mp h).1 "u")
  | ok i =>
      refine ⟨i, rfl, ?_, spec.roles_eq i _ h hlist, spec.scopes_eq i _ h htext⟩
      have hnamed := (spec.claimAt_eq_some_iff _ _ _ hsubject).mpr (spec.subject_named i h).2
      rw [(spec.claimAt_eq_some_iff _ _ _ hsubject).mpr hleads] at hnamed
      exact (Json.string.inj (Option.some.inj hnamed)).symm

end Token

end CallGuard
