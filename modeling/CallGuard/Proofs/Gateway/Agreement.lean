import CallGuard.Proofs.Gateway.Spoofing
import CallGuard.Proofs.Propagation.RoundTrip

/-! # Gateways and propagation headers

A gateway may pass identities on in the propagation headers. It reads them by rules of its own:
single texts are trimmed, roles may be written in two ways, and an identity without a kind has
another one. None of this shows in headers that were written for an identity whose single texts
have no blanks around them. -/

namespace CallGuard

/-! ## Texts of collections -/

namespace Json

theorem isTrimmed_text_of_ends {v : Json} {first last : Char}
    (hfirst : v.chars.head? = some first) (hlast : v.chars.getLast? = some last)
    (hf : Text.isBlank first = false) (hl : Text.isBlank last = false) :
    Text.IsTrimmed v.text := by
  rw [← String.toList_ofList (l := v.chars)] at hfirst hlast
  exact Text.isTrimmed_of_ends hfirst hlast hf hl

theorem getLast?_itemChars (items : List Json) : (itemChars items).getLast? = some ']' := by
  induction items with
  | nil => rfl
  | cons v items ih =>
      rw [itemChars, ← List.cons_append, List.getLast?_append, ih]
      rfl

theorem getLast?_memberChars (members : List (String × Json)) :
    (memberChars members).getLast? = some '\x7d' := by
  induction members with
  | nil => rfl
  | cons m members ih =>
      obtain ⟨k, v⟩ := m
      have hsplit : memberChars ((k, v) :: members) =
          (',' :: (quote k ++ ':' :: v.chars)) ++ memberChars members := by
        simp [memberChars]
      rw [hsplit, List.getLast?_append, ih]
      rfl

/-- Brackets stand at both ends of an array. -/
theorem isTrimmed_text_array (items : List Json) : Text.IsTrimmed (array items).text := by
  cases items with
  | nil => exact isTrimmed_text_of_ends rfl rfl (by decide) (by decide)
  | cons v items =>
      have hlast : (array (v :: items)).chars.getLast? = some ']' := by
        rw [chars, ← List.cons_append, List.getLast?_append, getLast?_itemChars]
        rfl
      exact isTrimmed_text_of_ends rfl hlast (by decide) (by decide)

/-- Braces stand at both ends of an object. -/
theorem isTrimmed_text_object (members : List (String × Json)) :
    Text.IsTrimmed (object members).text := by
  cases members with
  | nil => exact isTrimmed_text_of_ends rfl rfl (by decide) (by decide)
  | cons m members =>
      obtain ⟨k, v⟩ := m
      have hsplit : (object ((k, v) :: members)).chars =
          ('\x7b' :: (quote k ++ ':' :: v.chars)) ++ memberChars members := by
        simp [chars]
      have hlast : (object ((k, v) :: members)).chars.getLast? = some '\x7d' := by
        rw [hsplit, List.getLast?_append, getLast?_memberChars]
        rfl
      exact isTrimmed_text_of_ends rfl hlast (by decide) (by decide)

end Json

/-- Trimming changes nothing about a header whose text has no blanks around it. -/
theorem Headers.trimmed?_eq_text? {h : Headers} {name : HeaderName}
    (ht : ∀ s, h.text? name = some s → Text.IsTrimmed s) : h.trimmed? name = h.text? name := by
  rw [trimmed?]
  cases hs : h.text? name with
  | none => rfl
  | some s => rw [Option.bind_some, (ht s hs).trimNonempty?_eq]

/-! ## The headers of a written identity -/

namespace Propagation

/-- A single text that both readers take as it is. -/
structure IsPlain (s : String) : Prop extends Clear s, Text.IsTrimmed s

/-- An identity whose single texts are plain. Its roles, scopes and claims may be anything. -/
structure HasPlainTexts (i : Identity) : Prop where
  subject : IsPlain i.subject
  kind : IsPlain i.kind
  displayName : ∀ n, i.displayName = some n → IsPlain n

variable {o : Options} {i : Identity} (h : Headers)

/-- A header that was written holds the text that the identity gives to it. -/
theorem get?_of_text?_write {name : HeaderName} (hname : name ∈ headerNames) {s : String}
    (hs : (write o i h).text? name = some s) :
    Keyed.get? name (fields o i) = some s ∧ Fits s := by
  rw [text?_write o i h hname, Option.filter_eq_some_iff] at hs
  exact ⟨hs.1, of_decide_eq_true hs.2⟩

/-- A plain text that an identity gives to a header arrives there as it is, with and without
trimming. -/
theorem text?_write_of_plain {name : HeaderName} (hname : name ∈ headerNames) {t : Option String}
    (hget : Keyed.get? name (fields o i) = t.map sanitize) (ht : ∀ s, t = some s → IsPlain s) :
    (write o i h).text? name = t ∧ (write o i h).trimmed? name = t := by
  have htext : (write o i h).text? name = t := by
    rw [text?_write o i h hname, hget]
    cases t with
    | none => rfl
    | some s =>
        have hs := ht s rfl
        simp [hs.sanitize_eq, Option.filter_some, hs.fits]
  refine ⟨htext, ?_⟩
  rw [Headers.trimmed?_eq_text?, htext]
  intro s hs
  exact (ht s (htext.symm.trans hs)).toIsTrimmed

/-- The single texts of an identity arrive as they are. -/
structure Arrives (i : Identity) (read : HeaderName → Option String) : Prop where
  subject : read .authSubject = some i.subject
  kind : read .authType = some i.kind
  displayName : read .authName = i.displayName

theorem arrives_write (o : Options) (hi : HasPlainTexts i) :
    Arrives i (write o i h).text? ∧ Arrives i (write o i h).trimmed? := by
  obtain ⟨hsubject, hkind, hdisplay, -, -, -⟩ := get?_fields o i
  have hplain {u : String} (hu : IsPlain u) : ∀ s, some u = some s → IsPlain s := by
    rintro s ⟨⟩
    exact hu
  have hs := text?_write_of_plain h (by decide) hsubject (hplain hi.subject)
  have hk := text?_write_of_plain h (by decide) hkind (hplain hi.kind)
  have hn := text?_write_of_plain h (by decide) hdisplay hi.displayName
  exact ⟨⟨hs.1, hk.1, hn.1⟩, ⟨hs.2, hk.2, hn.2⟩⟩

theorem bounded?_write_eq_text? {name : HeaderName} (hname : name ∈ headerNames) :
    bounded? (write o i h) name = (write o i h).text? name := by
  rw [bounded?_write o i h hname, text?_write o i h hname]

end Propagation

/-! ## Reading them -/

namespace GatewayHeaders

open Propagation

/-- The six propagation headers as those of a gateway. -/
def propagated : GatewayHeaders where
  subject := .authSubject
  name := some .authName
  roles := some .authRoles
  scopes := some .authScopes
  type := some .authType
  claims := some .authClaims

variable (o : Options) (i : Identity) (h : Headers)

theorem roles_agree :
    ((field? (write o i h) propagated.roles).map rolesOf).getD [] =
      ((bounded? (write o i h) .authRoles).bind stringList?).getD [] := by
  obtain ⟨-, -, -, hroles, -, -⟩ := get?_fields o i
  -- the text is that of an array of strings, which both read in the same way
  have htext : ∀ s, (write o i h).text? .authRoles = some s →
      s = (Json.array (i.roles.names.map .string)).text := by
    intro s hs
    have hget := (get?_of_text?_write h (by decide) hs).1
    rw [hroles] at hget
    split at hget
    next => cases hget
    next => exact (Option.some.inj hget).symm
  have htrim : (write o i h).trimmed? .authRoles = (write o i h).text? .authRoles := by
    apply Headers.trimmed?_eq_text?
    intro s hs
    rw [htext s hs]
    exact Json.isTrimmed_text_array _
  rw [bounded?_write_eq_text? h (by decide)]
  rw [propagated, field?, Option.bind_some, htrim]
  cases hs : (write o i h).text? .authRoles with
  | none => rfl
  | some s =>
      obtain rfl := htext s hs
      simp only [Option.map_some, Option.bind_some, rolesOf, stringList?_text]

theorem scopes_agree :
    ((field? (write o i h) propagated.scopes).map Text.words).getD [] =
      ((bounded? (write o i h) .authScopes).map Text.words).getD [] := by
  rw [bounded?_write_eq_text? h (by decide)]
  rw [propagated, field?, Option.bind_some, Headers.trimmed?]
  cases (write o i h).text? .authScopes with
  | none => rw [Option.bind_none, Option.map_none]
  | some s => rw [Option.bind_some, Option.map_some, Text.getD_map_words_trimNonempty?,
      Option.getD_some]

theorem claims_agree :
    ((field? (write o i h) propagated.claims).map claimsOf).getD .empty =
      ((bounded? (write o i h) .authClaims).bind claims?).getD .empty := by
  obtain ⟨-, -, -, -, -, hclaims⟩ := get?_fields o i
  have htext : ∀ s, (write o i h).text? .authClaims = some s →
      s = (i.claims.filter o.allows).json.text ∧ s.utf8ByteSize ≤ maxBytes := by
    intro s hs
    obtain ⟨hget, hfits⟩ := get?_of_text?_write h (by decide) hs
    rw [hclaims] at hget
    split at hget
    next => cases hget
    next => exact ⟨(Option.some.inj hget).symm, hfits.1⟩
  have htrim : (write o i h).trimmed? .authClaims = (write o i h).text? .authClaims := by
    apply Headers.trimmed?_eq_text?
    intro s hs
    rw [(htext s hs).1]
    exact Json.isTrimmed_text_object _
  rw [bounded?_write_eq_text? h (by decide)]
  rw [propagated, field?, Option.bind_some, htrim]
  cases hs : (write o i h).text? .authClaims with
  | none => rfl
  | some s =>
      rw [Option.map_some, Option.getD_some, Option.bind_some, claimsOf,
        if_neg (Nat.not_lt.mpr (htext s hs).2)]

variable {i}

/-- The identity that headers hold which were written for plain texts. -/
def received (o : Options) (i : Identity) (h : Headers) : Identity where
  subject := i.subject
  displayName := i.displayName
  roles := .ofList (((bounded? (write o i h) .authRoles).bind stringList?).getD [])
  scopes := .ofList (((bounded? (write o i h) .authScopes).map Text.words).getD [])
  claims := ((bounded? (write o i h) .authClaims).bind claims?).getD .empty
  kind := i.kind
  expiresAt := none

theorem read?_write_eq_received (hi : HasPlainTexts i) :
    read? (write o i h) = some (received o i h) := by
  obtain ⟨harrives, -⟩ := arrives_write h o hi
  have hread (name : HeaderName) (s : String) (hs : (write o i h).text? name = some s)
      (hne : s ≠ "") : nonempty? (write o i h) name = some s := by
    simp [nonempty?, hs, Option.filter_some, hne]
  simp only [read?, hread _ _ harrives.subject hi.subject.nonempty,
    hread _ _ harrives.kind hi.kind.nonempty, harrives.displayName, received,
    Option.bind_eq_bind, Option.bind_some, Option.pure_def, Option.getD_some]

theorem identity_write_eq_received (hi : HasPlainTexts i) :
    propagated.identity (write o i h) = .ok (received o i h) := by
  obtain ⟨-, harrives⟩ := arrives_write h o hi
  have hsubject : (write o i h).trimmed? propagated.subject = some i.subject := harrives.subject
  have hkind : field? (write o i h) propagated.type = some i.kind := harrives.kind
  have hdisplay : field? (write o i h) propagated.name = i.displayName := harrives.displayName
  simp only [identity, hsubject, hkind, hdisplay, roles_agree, scopes_agree, claims_agree,
    received, Option.getD_some]

end GatewayHeaders

namespace GatewayConfig

variable {ε β : Type}

/-- A gateway that passes identities on in the propagation headers and the reader of these headers
agree. On a call that the gateway trusts, whose headers were written for an identity with plain
texts, authentication finds the identity that the headers hold for the next hop, in all its
parts. -/
theorem build_agrees_with_read? {c : GatewayConfig} {a : Authenticator} (hbuild : c.build = .ok a)
    (hheaders : c.headers = .ok .propagated) {o : Propagation.Options} {i : Identity}
    (hi : Propagation.HasPlainTexts i) {h : Headers} {r : Request ε β}
    (hwritten : r.headers = Propagation.write o i h) (hskip : ¬ c.Skips r.method)
    (htrust : c.Trusts r.call) (now : Moment) :
    ∃ j, Propagation.read? r.headers = some j ∧
      (a.authenticate now .off r).result = .ok (some j) := by
  obtain ⟨g, source, hbuilt⟩ := exists_built hbuild
  obtain rfl : g = .propagated := Except.ok.inj (hbuilt.headers.symm.trans hheaders)
  refine ⟨GatewayHeaders.received o i h, ?_, ?_⟩
  · rw [hwritten, GatewayHeaders.read?_write_eq_received o h hi]
  · rw [hbuilt.authenticate_of_trusts now r hskip htrust, hwritten,
      GatewayHeaders.identity_write_eq_received o h hi]

/-! ## A gateway behind a gateway -/

/-- A gateway that believes its own network. -/
def innerConfig : GatewayConfig :=
  { minimal "X-Auth-Subject" .peerAddress ["10.0.0.0/8"] with
    nameHeader := some "x-auth-name", rolesHeader := some "x-auth-roles",
    scopesHeader := some "x-auth-scopes", typeHeader := some "x-auth-type",
    claimsHeader := some "x-auth-claims" }

/-- A call from that network with the headers of an identity. -/
def innerCall : Request Unit Unit :=
  { Request.ofMethod ⟨"Users", "Get"⟩ () () with
    headers := Propagation.write .all Propagation.portableSample .empty
    peer := some (.v4 0x0a010203#32) }

theorem portableSample_hasPlainTexts :
    Propagation.HasPlainTexts Propagation.portableSample where
  subject := ⟨⟨by decide, by simp [Propagation.portableSample, Text.isControl]⟩,
    ⟨by decide, by rintro c ⟨⟩; rfl, by rintro c ⟨⟩; rfl⟩⟩
  kind := ⟨⟨by decide, by simp [Propagation.portableSample, Text.isControl]⟩,
    ⟨by decide, by rintro c ⟨⟩; rfl, by rintro c ⟨⟩; rfl⟩⟩
  displayName := by
    rintro n ⟨⟩
    exact ⟨⟨by decide, by simp [Text.isControl]⟩,
      ⟨by decide, by rintro c ⟨⟩; rfl, by rintro c ⟨⟩; rfl⟩⟩

theorem build_agrees_with_read?_sample :
    ∃ a, innerConfig.build = .ok a ∧ innerConfig.headers = .ok .propagated ∧
      ¬ innerConfig.Skips innerCall.method ∧ innerConfig.Trusts innerCall.call ∧
      ∃ j, Propagation.read? innerCall.headers = some j ∧
        (a.authenticate ⟨0, 0⟩ .off innerCall).result = .ok (some j) := by
  obtain ⟨a, h⟩ : ∃ a, innerConfig.build = .ok a := Checks.exists_eq_ok_of_toBool rfl
  have hheaders : innerConfig.headers = .ok .propagated := rfl
  have hskip : ¬ innerConfig.Skips innerCall.method := not_skips_of_nil rfl _
  have htrust : innerConfig.Trusts innerCall.call :=
    ⟨_, .peer rfl rfl, by decide +kernel⟩
  exact ⟨a, h, hheaders, hskip, htrust,
    build_agrees_with_read? h hheaders portableSample_hasPlainTexts rfl hskip htrust ⟨0, 0⟩⟩

end GatewayConfig

end CallGuard
