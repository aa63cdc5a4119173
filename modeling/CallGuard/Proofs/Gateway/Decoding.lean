import CallGuard.Proofs.Gateway.Separation
import CallGuard.Proofs.Identities
import CallGuard.Proofs.Json.Documents
import CallGuard.Proofs.Text.Lists

/-! # Identities that headers hold

A gateway that passes an identity on can write it in many ways: roles as a JSON array or with
commas between them, values with any spelling, and blanks around everything. Whichever it takes,
the identity is read from the headers. -/

namespace CallGuard

/-! ## Texts that hold parts of an identity -/

/-- A label with any blanks around it, unless there is none. -/
inductive HoldsLabel : Option String → Option String → Prop where
  | absent : HoldsLabel none none
  | label {s t} (hs : Text.IsTrimmed s) (ht : Text.Padded s t) : HoldsLabel (some t) (some s)

/-- Roles are written as a JSON array of strings, or with commas and any blanks between them. A
list of the second kind has no comma inside a role and does not begin like an array. -/
inductive HoldsRoles : Option String → List String → Prop where
  | absent : HoldsRoles none []
  | array {n names s t} (hs : Json.Spells n (.value (.array (names.map .string))) s.toList)
      (ht : Text.Padded s t) : HoldsRoles (some t) names
  | commas {names s t} (hs : Text.Lists ',' names s) (htight : Text.IsTight s)
      (hstart : s.toList.head? ≠ some '[') (htrimmed : ∀ name ∈ names, Text.IsTrimmed name)
      (hcomma : ∀ name ∈ names, ',' ∉ name.toList) (ht : Text.Padded s t) :
      HoldsRoles (some t) names

/-- Scopes are words with blanks between them. -/
inductive HoldsScopes : Option String → List String → Prop where
  | absent : HoldsScopes none []
  | row {ws t} (ht : Text.IsRow ws t) : HoldsScopes (some t) ws

/-- Claims are a JSON object that is neither too long nor nested too deep. -/
inductive HoldsClaims : Option String → Claims → Prop where
  | absent : HoldsClaims none .empty
  | object {n c s t} (hs : Json.Spells n (.value c.json) s.toList) (hdepth : n ≤ Json.maxDepth)
      (hshort : s.utf8ByteSize ≤ Propagation.maxBytes) (ht : Text.Padded s t) :
      HoldsClaims (some t) c

namespace GatewayHeaders

/-- The text of an optional header. -/
def text? (h : Headers) (name : Option HeaderName) : Option String :=
  name.bind h.text?

/-- The mapped headers hold an identity. -/
structure Hold (g : GatewayHeaders) (h : Headers) (i : Identity) : Prop where
  subject : HoldsLabel (h.text? g.subject) (some i.subject)
  displayName : HoldsLabel (text? h g.name) i.displayName
  roles : HoldsRoles (text? h g.roles) i.roles.names
  scopes : HoldsScopes (text? h g.scopes) i.scopes.names
  kind : ∃ label, HoldsLabel (text? h g.type) label ∧ i.kind = label.getD "gateway"
  claims : HoldsClaims (text? h g.claims) i.claims
  expiresAt : i.expiresAt = none

theorem text?_of_head? {h : Headers} {name : Option HeaderName} {n : HeaderName} {v : HeaderValue}
    {s : String} (hn : name = some n) (hv : (h.values n).head? = some v)
    (hs : v.bytes = s.toUTF8) : text? h name = some s := by
  rw [text?, hn, Option.bind_some, Headers.text?_of_head? hv hs]

theorem field?_eq (h : Headers) (name : Option HeaderName) :
    field? h name = (text? h name).bind Text.trimNonempty? := by
  cases name with
  | none => rfl
  | some n => rfl

/-! ## Reading the parts -/

theorem bind_trimNonempty?_of_holdsLabel {text label : Option String}
    (h : HoldsLabel text label) : text.bind Text.trimNonempty? = label := by
  cases h with
  | absent => rfl
  | label hs ht => rw [Option.bind_some, ht.trimNonempty?_eq hs]

theorem rolesOf_of_spells {n : Nat} {names : List String} {s : String}
    (hs : Json.Spells n (.value (.array (names.map .string))) s.toList) : rolesOf s = names := by
  have hlist : Propagation.stringList? s = some names := by
    rw [Propagation.stringList?, Decoder.ofText_of_spells hs (.refl _)]
    rfl
  rw [rolesOf, hlist]

theorem isBlank_of_document {c : Char} (h : Document.isBlank c = true) :
    Text.isBlank c = true := by
  rcases Document.isBlank_iff.mp h with rfl | rfl | rfl | rfl <;> rfl

theorem skipBlanks_of_isTight {s : String} (h : Text.IsTight s) :
    Document.skipBlanks s.toList = s.toList := by
  have hfirst := h.first
  cases hs : s.toList with
  | nil => rfl
  | cons c cs =>
      rw [hs] at hfirst
      have hblank : Document.isBlank c ≠ true := fun hc =>
        absurd (isBlank_of_document hc) (by simp [hfirst c rfl])
      exact Document.skipBlanks_cons (Bool.eq_false_iff.mpr hblank) cs

/-- A list with commas is no array, so that it is parted at the commas. -/
theorem rolesOf_of_lists {names : List String} {s : String} (hs : Text.Lists ',' names s)
    (htight : Text.IsTight s) (hstart : s.toList.head? ≠ some '[')
    (htrimmed : ∀ name ∈ names, Text.IsTrimmed name)
    (hcomma : ∀ name ∈ names, ',' ∉ name.toList) : rolesOf s = names := by
  have hnone : Propagation.stringList? s = none := by
    rw [← skipBlanks_of_isTight htight] at hstart
    rw [Propagation.stringList?, Decoder.ofText_list_of_head _ hstart]
    rfl
  have hempty : Text.trimNonempty? "" = none := rfl
  have hread : ∀ name ∈ names, ∀ piece, Text.Padded (id name) piece →
      Text.trimNonempty? piece = some name :=
    fun name hname piece hpiece => hpiece.trimNonempty?_eq (htrimmed name hname)
  rw [← List.map_id names] at hs
  rw [rolesOf, hnone]
  exact hs.filterMap_split (by decide) hcomma hread hempty

theorem roles_of_holdsRoles {text : Option String} {names : List String}
    (h : HoldsRoles text names) :
    ((text.bind Text.trimNonempty?).map rolesOf).getD [] = names := by
  cases h with
  | absent => rfl
  | array hs ht =>
      have htrimmed := hs.isTrimmed_array
      rw [Option.bind_some, ht.trimNonempty?_eq htrimmed, Option.map_some, rolesOf_of_spells hs]
      rfl
  | @commas _ s t hs htight hstart htrimmed hcomma ht =>
      have hroles := rolesOf_of_lists hs htight hstart htrimmed hcomma
      rw [Option.bind_some, Text.trimNonempty?, ht.trim_eq, htight.trim_eq]
      by_cases hempty : s = ""
      · subst hempty
        exact hroles
      · simp [hempty, hroles]

theorem scopes_of_holdsScopes {text : Option String} {ws : List String}
    (h : HoldsScopes text ws) : ((text.bind Text.trimNonempty?).map Text.words).getD [] = ws := by
  cases h with
  | absent => rfl
  | row ht => rw [Option.bind_some, Text.getD_map_words_trimNonempty?, ht.words_eq]

theorem claims_of_holdsClaims {text : Option String} {c : Claims} (h : HoldsClaims text c) :
    ((text.bind Text.trimNonempty?).map claimsOf).getD .empty = c := by
  cases h with
  | absent => rfl
  | @object n _ s t hs hdepth hshort ht =>
      have htrimmed : Text.IsTrimmed s := hs.isTrimmed_object
      have hclaims : Propagation.claims? s = some c := by
        rw [Propagation.claims?, Json.parse?_of_spells hs (.refl _), if_pos hdepth]
        exact c.ofJson?_json
      rw [Option.bind_some, ht.trimNonempty?_eq htrimmed, Option.map_some, claimsOf,
        if_neg (Nat.not_lt.mpr hshort), hclaims]
      rfl

/-- The identity that headers hold is read from them. -/
theorem identity_of_hold {g : GatewayHeaders} {h : Headers} {i : Identity} (hi : g.Hold h i) :
    g.identity h = .ok i := by
  obtain ⟨hsubject, hname, hroles, hscopes, ⟨label, hlabel, hkind⟩, hclaims, hexpires⟩ := hi
  have hs : h.trimmed? g.subject = some i.subject := bind_trimNonempty?_of_holdsLabel hsubject
  rw [identity, hs]
  simp only [field?_eq, bind_trimNonempty?_of_holdsLabel hname,
    bind_trimNonempty?_of_holdsLabel hlabel, roles_of_holdsRoles hroles,
    scopes_of_holdsScopes hscopes, claims_of_holdsClaims hclaims, NameList.ofList_names, ← hkind,
    ← hexpires]

end GatewayHeaders

namespace GatewayConfig

variable {ε β : Type}

/-- On a trusted call a gateway finds exactly the identity that the mapped headers hold. -/
theorem build_decodes {c : GatewayConfig} {a : Authenticator} (hbuild : c.build = .ok a)
    {g : GatewayHeaders} (hheaders : c.headers = .ok g) {r : Request ε β} {i : Identity}
    (hi : g.Hold r.headers i) (hskip : ¬ c.Skips r.method) (htrust : c.Trusts r.call)
    (now : Moment) : (a.authenticate now .off r).result = .ok (some i) := by
  obtain ⟨g', source, h⟩ := exists_built hbuild
  obtain rfl : g' = g := Except.ok.inj (h.headers.symm.trans hheaders)
  rw [h.authenticate_of_trusts now r hskip htrust, GatewayHeaders.identity_of_hold hi]

/-! ## A call with an identity -/

def decodedClaims : Claims :=
  ⟨[("n", .number (.integer 7)), ("o", .object [("k", .array [.string "😀"])])],
    by unfold Members.Ordered; decide⟩

def decodedIdentity : Identity where
  subject := "ada"
  displayName := some "Ada Lovelace"
  roles := ⟨["admin", "é b"], by decide⟩
  scopes := ⟨["read", "write:own"], by decide⟩
  claims := decodedClaims
  kind := "gateway"
  expiresAt := none

/-- A spelling of the claims in which a key is given twice and a character by two codes. -/
def claimsText : String :=
  "\x7b\"n\":-3, \"o\" : \x7b\"k\":[\"\\uD83d\\ude00\"]\x7d,\"n\":7\x7d"

/-- A trusted call with the identity. -/
def decodedCall (roles : HeaderValue) : Request Unit Unit :=
  { Request.ofMethod ⟨"Users", "Get"⟩ () () with
    headers := ⟨[(sampleSecret, secretValue), (sampleSubject, subjectValue),
      (nameName, ⟨"Ada Lovelace ".toUTF8, by decide +kernel⟩), (rolesName, roles),
      (scopesName, ⟨"read  write:own".toUTF8, by decide +kernel⟩),
      (claimsName, ⟨claimsText.toUTF8, by decide +kernel⟩)]⟩ }

/-- The same roles in the two ways of writing them. -/
def arrayRoles : HeaderValue := ⟨"[ \"\\u0061dmin\",\"é b\"]".toUTF8, by decide +kernel⟩
def commaRoles : HeaderValue := ⟨"admin , é b".toUTF8, by decide +kernel⟩

theorem spellsString_smile : Json.SpellsString "😀" "\"\\uD83d\\ude00\"".toList := by
  have hhigh : Json.IsCode 0xD83D 'D' '8' '3' 'd' := by decide
  have hlow : Json.IsCode 0xDE00 'd' 'e' '0' '0' := by decide
  have hchars : List.Forall₂ Json.SpellsChar "😀".toList
      [['\\', 'u', 'D', '8', '3', 'd', '\\', 'u', 'd', 'e', '0', '0']] :=
    .cons (.pair (by decide) hhigh hlow) .nil
  exact .intro hchars

theorem claimsText_spells : Json.Spells 3 (.value decodedClaims.json) claimsText.toList := by
  have hn : Json.SpellsString "n" "\"n\"".toList := Json.spellsString_quote "n"
  have ho : Json.SpellsString "o" "\"o\"".toList := Json.spellsString_quote "o"
  have hk : Json.SpellsString "k" "\"k\"".toList := Json.spellsString_quote "k"
  have hthree : Json.Spells 0 (.value (.number (.integer (-3)))) "-3".toList :=
    .integer ⟨by decide, by decide⟩
  have hseven : Json.Spells 0 (.value (.number (.integer 7))) "7".toList :=
    .integer ⟨by decide, by decide⟩
  have hinner : Json.Spells 2 (.value (.object [("k", .array [.string "😀"])]))
      "\x7b\"k\":[\"\\uD83d\\ude00\"]\x7d".toList :=
    .object (.lastMember hk (.refl _)
      (.array (.lastItem (.string spellsString_smile) (.refl _))) (.refl _))
  have hblank : Json.AllBlanks [' '] := by decide
  have hkey : Json.Spaced "\"o\"".toList " \"o\" ".toList :=
    .intro hblank hblank
  have hvalue : Json.Spaced "\x7b\"k\":[\"\\uD83d\\ude00\"]\x7d".toList
      " \x7b\"k\":[\"\\uD83d\\ude00\"]\x7d".toList :=
    .intro hblank Json.allBlanks_nil
  have hmembers := Json.Spells.member hn (.refl _) hthree (.refl _)
    (.member ho hkey hinner hvalue (.lastMember hn (.refl _) hseven (.refl _)))
  exact .object hmembers

theorem arrayRoles_hold : HoldsRoles (some "[ \"\\u0061dmin\",\"é b\"]") ["admin", "é b"] := by
  have hcode : Json.IsCode 0x61 '0' '0' '6' '1' := by decide
  have hplain (c : Char) (h : 0x20 ≤ c.toNat ∧ c ≠ '"' ∧ c ≠ '\\') : Json.SpellsChar c [c] :=
    .plain h.1 h.2.1 h.2.2
  have hchars : List.Forall₂ Json.SpellsChar "admin".toList
      [['\\', 'u', '0', '0', '6', '1'], ['d'], ['m'], ['i'], ['n']] :=
    .cons (.code hcode) (.cons (hplain 'd' (by decide)) (.cons (hplain 'm' (by decide))
      (.cons (hplain 'i' (by decide)) (.cons (hplain 'n' (by decide)) .nil))))
  have hadmin : Json.SpellsString "admin" "\"\\u0061dmin\"".toList := .intro hchars
  have hother : Json.SpellsString "é b" "\"é b\"".toList := Json.spellsString_quote "é b"
  have hblank : Json.AllBlanks [' '] := by decide
  have hspaced : Json.Spaced "\"\\u0061dmin\"".toList " \"\\u0061dmin\"".toList :=
    .intro hblank Json.allBlanks_nil
  have hitems := Json.Spells.item (.string hadmin) hspaced (.lastItem (.string hother) (.refl _))
  have harray : Json.Spells 1 (.value (.array (["admin", "é b"].map .string)))
      "[ \"\\u0061dmin\",\"é b\"]".toList := .array hitems
  exact .array harray (.refl _)

theorem commaRoles_hold : HoldsRoles (some "admin , é b") ["admin", "é b"] := by
  have hblank : Text.AllBlank " " := by decide
  have hadmin : Text.Padded "admin" "admin " := .intro Text.allBlank_empty hblank
  have hother : Text.Padded "é b" " é b" := .intro hblank Text.allBlank_empty
  have hlists : Text.Lists ',' ["admin", "é b"] (Text.join "," ["admin ", " é b"]) :=
    .intro (.cons hadmin (.cons hother .nil))
  exact .commas hlists (by decide) (by decide) (by decide) (by decide) (.refl _)

theorem decodedCall_hold {roles : HeaderValue} {text : String} (htext : roles.bytes = text.toUTF8)
    (hroles : HoldsRoles (some text) decodedIdentity.roles.names) :
    partsHeaders.Hold (decodedCall roles).headers decodedIdentity := by
  have hsubject : (decodedCall roles).headers.text? sampleSubject = some "ada" :=
    Headers.text?_of_head? rfl rfl
  have hname : GatewayHeaders.text? (decodedCall roles).headers partsHeaders.name =
      some "Ada Lovelace " := GatewayHeaders.text?_of_head? rfl rfl rfl
  have hrolesText : GatewayHeaders.text? (decodedCall roles).headers partsHeaders.roles =
      some text := GatewayHeaders.text?_of_head? rfl rfl htext
  have hscopes : GatewayHeaders.text? (decodedCall roles).headers partsHeaders.scopes =
      some "read  write:own" := GatewayHeaders.text?_of_head? rfl rfl rfl
  have hclaims : GatewayHeaders.text? (decodedCall roles).headers partsHeaders.claims =
      some claimsText := GatewayHeaders.text?_of_head? rfl rfl rfl
  have hpadded : Text.Padded "Ada Lovelace" ("" ++ "Ada Lovelace" ++ " ") :=
    .intro (by decide) (by decide)
  have hend : Text.IsRow [] "" := .blank (by decide)
  have hlast : Text.IsRow ["write:own"] ("  " ++ "write:own" ++ "") :=
    .word (by decide) (by decide) (by rintro c ⟨⟩) hend
  have hrow : Text.IsRow ["read", "write:own"] ("" ++ "read" ++ ("  " ++ "write:own" ++ "")) :=
    .word (by decide) (by decide) (by rintro c ⟨⟩; rfl) hlast
  exact
    { subject := hsubject ▸ .label (by decide) (.refl _)
      displayName := hname ▸ .label (by decide) hpadded
      roles := hrolesText ▸ hroles
      scopes := hscopes ▸ .row hrow
      kind := ⟨none, .absent, rfl⟩
      claims := hclaims ▸ .object claimsText_spells (by decide) (by decide +kernel) (.refl _)
      expiresAt := rfl }

/-- Both ways of writing the roles give the identity. -/
theorem build_decodes_sample :
    ∃ a, partsConfig.build = .ok a ∧ partsConfig.headers = .ok partsHeaders ∧
      ∀ roles ∈ [arrayRoles, commaRoles],
        partsHeaders.Hold (decodedCall roles).headers decodedIdentity ∧
        (a.authenticate ⟨0, 0⟩ .off (decodedCall roles)).result = .ok (some decodedIdentity) := by
  obtain ⟨a, h⟩ : ∃ a, partsConfig.build = .ok a := Checks.exists_eq_ok_of_toBool rfl
  have hheaders : partsConfig.headers = .ok partsHeaders := rfl
  have hholds : ∀ roles ∈ [arrayRoles, commaRoles],
      partsHeaders.Hold (decodedCall roles).headers decodedIdentity := by
    intro roles hroles
    rcases List.mem_pair.mp hroles with rfl | rfl
    · exact decodedCall_hold rfl arrayRoles_hold
    · exact decodedCall_hold rfl commaRoles_hold
  have htrust (roles : HeaderValue) : partsConfig.Trusts (decodedCall roles).call := by
    have hsecret : (decodedCall roles).headers.text? sampleSecret = some "open sesame" :=
      Headers.text?_of_head? rfl rfl
    have hsignal : (decodedCall roles).headers.trimmed? sampleSecret = some "open sesame" := by
      rw [Headers.trimmed?, hsecret]
      rfl
    exact ⟨"open sesame", .header rfl rfl hsignal, by decide +kernel⟩
  refine ⟨a, h, hheaders, fun roles hroles => ⟨hholds roles hroles, ?_⟩⟩
  exact build_decodes h hheaders (hholds roles hroles) (not_skips_of_nil rfl _) (htrust roles)
    ⟨0, 0⟩

end GatewayConfig

end CallGuard
