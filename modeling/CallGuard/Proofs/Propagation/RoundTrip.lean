import CallGuard.Proofs.Json.Characters
import CallGuard.Proofs.Propagation.Delivery

/-! # Identities that arrive unchanged

What keeps a part of an identity from arriving is a control character, a blank inside a scope, a
number that is no integer, and the size of its text. Without these the next hop reads the identity
that was written, up to the claims that do not travel and the expiry. -/

namespace CallGuard.Propagation

/-! ## Single texts -/

/-- A text arrives as it is when it is short and has no control character but the tab. -/
structure Clear (s : String) : Prop where
  short : s.utf8ByteSize ≤ maxBytes
  no_control : ∀ c ∈ s.toList, Text.isControl c = true → c = '\t'

theorem Clear.sanitize_eq {s : String} (h : Clear s) : sanitize s = s := by
  have hkeep : ∀ c ∈ s.toList, (!Text.isControl c || c == '\t') = true := by
    intro c hc
    cases hcontrol : Text.isControl c with
    | false => rfl
    | true => simp [h.no_control c hc hcontrol]
  rw [sanitize, List.filter_eq_self.mpr hkeep, String.ofList_toList]

theorem Clear.fits {s : String} (h : Clear s) : Fits s := by
  refine ⟨h.short, fun c hc => ?_⟩
  cases hcontrol : Text.isControl c with
  | true => exact .inl (h.no_control c hc hcontrol)
  | false =>
      have hrange : 0x20 ≤ c.toNat ∧ ¬ (0x7f ≤ c.toNat ∧ c.toNat < 0xa0) := by
        simpa [Text.isControl] using hcontrol
      refine .inr ⟨hrange.1, ?_⟩
      rintro rfl
      exact hrange.2 (by decide)

/-! ## Collections -/

/-- The text of an exact value fits unless it is long or one of its strings has U+007F. -/
theorem fits_text {v : Json} (hv : v.IsExact) (hshort : v.text.utf8ByteSize ≤ maxBytes)
    (hdelete : ∀ s ∈ v.strings, '\x7f' ∉ s.toList) : Fits v.text := by
  refine ⟨hshort, fun c hc => ?_⟩
  rw [Json.text, String.toList_ofList] at hc
  rcases Json.shows_of_mem_chars v hv hc with hplain | ⟨hlow, s, hs, hcs⟩
  · have hrange : 0x20 ≤ c.toNat ∧ c.toNat < 0x7f := by
      simpa [Json.isPlain] using hplain
    refine .inr ⟨hrange.1, ?_⟩
    rintro rfl
    exact absurd hrange.2 (by decide)
  · refine .inr ⟨hlow, ?_⟩
    rintro rfl
    exact hdelete s hs hcs

/-- A scope that is one word and has no ASCII control character. -/
structure IsToken (s : String) : Prop where
  nonempty : s ≠ ""
  no_blank : ∀ c ∈ s.toList, Text.isBlank c = false
  no_control : ∀ c ∈ s.toList, 0x20 ≤ c.toNat ∧ c ≠ '\x7f'

theorem fits_join {scopes : List String} (hscopes : ∀ s ∈ scopes, IsToken s)
    (hshort : (Text.join " " scopes).utf8ByteSize ≤ maxBytes) : Fits (Text.join " " scopes) := by
  refine ⟨hshort, fun c hc => ?_⟩
  rcases Text.mem_join hc with rfl | ⟨s, hs, hcs⟩
  · decide
  · exact .inr ((hscopes s hs).no_control c hcs)

theorem flatMap_words {scopes : List String} (hscopes : ∀ s ∈ scopes, IsToken s) :
    scopes.flatMap Text.words = scopes :=
  Text.flatMap_words_eq_self fun s hs => ⟨(hscopes s hs).nonempty, (hscopes s hs).no_blank⟩

/-! ## Identities -/

/-- An identity of which every part arrives, apart from claims that do not travel: single texts
are clear, scopes are tokens, no string of a JSON text has the one control character that is not
escaped there, and every text is short. -/
structure Portable (o : Options) (i : Identity) : Prop where
  subject : i.subject ≠ "" ∧ Clear i.subject
  kind : i.kind ≠ "" ∧ Clear i.kind
  displayName : ∀ n, i.displayName = some n → Clear n
  roles : ∀ r ∈ i.roles.names, '\x7f' ∉ r.toList
  roles_short : (Json.array (i.roles.names.map .string)).text.utf8ByteSize ≤ maxBytes
  scopes : ∀ s ∈ i.scopes.names, IsToken s
  scopes_short : (Text.join " " i.scopes.names).utf8ByteSize ≤ maxBytes
  claims : ∀ s ∈ (i.claims.filter o.allows).json.strings, '\x7f' ∉ s.toList
  claims_exact : (i.claims.filter o.allows).json.IsExact
  claims_depth : (i.claims.filter o.allows).json.depth ≤ Json.maxDepth
  claims_short : (i.claims.filter o.allows).json.text.utf8ByteSize ≤ maxBytes

/-- A portable identity is read as it was written, with the claims that travel and no expiry. -/
theorem read?_write_of_portable {o : Options} {i : Identity} (hi : Portable o i) (h : Headers) :
    read? (write o i h) = some { i with claims := i.claims.filter o.allows, expiresAt := none } := by
  obtain ⟨hsubject, hsubjectClear⟩ := hi.subject
  obtain ⟨hkind, hkindClear⟩ := hi.kind
  have hdisplay : (i.displayName.map sanitize).filter (fun s => Fits s) = i.displayName := by
    cases hname : i.displayName with
    | none => rfl
    | some n =>
        have hclear : Clear n := hi.displayName n hname
        simp [Option.filter_some, hclear.sanitize_eq, hclear.fits]
  have hroles : Fits (Json.array (i.roles.names.map .string)).text := by
    apply fits_text (Json.isExact_strings i.roles.names) hi.roles_short
    rw [Json.strings_array_map_string]
    exact hi.roles
  have hscopes : Fits (Text.join " " i.scopes.names) := fits_join hi.scopes hi.scopes_short
  have hclaims : Fits (i.claims.filter o.allows).json.text :=
    fits_text hi.claims_exact hi.claims_short hi.claims
  rw [read?_write, delivered?, delivered, hsubjectClear.sanitize_eq, hkindClear.sanitize_eq,
    hdisplay, if_pos hroles, if_pos hscopes, if_pos hclaims,
    if_pos ⟨hsubjectClear.fits, hsubject⟩, if_pos ⟨hkindClear.fits, hkind⟩,
    flatMap_words hi.scopes, NameList.ofList_names,
    claims?_text hi.claims_exact, if_pos hi.claims_depth]
  rfl

/-- An identity with a role beyond ASCII, two scopes, and claims of several kinds. -/
def portableSample : Identity where
  subject := "user-42"
  displayName := some "Ada\tLovelace"
  roles := ⟨["admin", "rédactrice \"a, b\""], by decide⟩
  scopes := ⟨["read", "write:all"], by decide⟩
  claims := ⟨[("level", .number (.integer (-3))),
    ("org", .object [("path", .array [.string "a\nb", .null, .bool true])]),
    ("tenant", .string "acme")], by unfold Members.Ordered; decide⟩
  kind := "jwt"
  expiresAt := some 4102444800

theorem read?_write_of_portable_sample :
    Portable ⟨some ["level", "org"]⟩ portableSample ∧
    read? (write ⟨some ["level", "org"]⟩ portableSample .empty) =
      some { portableSample with
        claims := portableSample.claims.filter (Options.allows ⟨some ["level", "org"]⟩)
        expiresAt := none } := by
  have hportable : Portable ⟨some ["level", "org"]⟩ portableSample :=
    { subject := ⟨by decide, by decide, by simp [portableSample, Text.isControl]⟩
      kind := ⟨by decide, by decide, by simp [portableSample, Text.isControl]⟩
      displayName := by
        rintro n ⟨⟩
        exact ⟨by decide, by simp [Text.isControl]⟩
      roles := by decide
      roles_short := by decide
      scopes := by
        have hread : IsToken "read" :=
          ⟨by decide, by simp [Text.isBlank, Text.blankRanges], by simp⟩
        have hwrite : IsToken "write:all" :=
          ⟨by decide, by simp [Text.isBlank, Text.blankRanges], by simp⟩
        simp [portableSample, hread, hwrite]
      scopes_short := by decide
      claims := by decide
      claims_exact := by
        refine ⟨(portableSample.claims.filter _).ordered, ?_⟩
        simp [portableSample, Claims.filter, Options.allows, Json.HaveExact, Json.IsExact,
          Json.AreExact, Number.IsWord, Members.Ordered]
      claims_depth := by decide
      claims_short := by decide }
  exact ⟨hportable, read?_write_of_portable hportable .empty⟩

end CallGuard.Propagation
