import CallGuard.Keyed
import CallGuard.Propagation
import CallGuard.Proofs.Headers
import CallGuard.Proofs.Identities
import CallGuard.Proofs.Json.Documents

/-! # What the next hop receives

Every propagation header stands for itself: it holds the text that an identity gives to it, if the
text fits, and else nothing, whatever stood there before. Part by part this tells the identity that
the next hop reads. -/

namespace CallGuard.Propagation

/-! ## Texts that fit -/

/-- A text fits into a header when it is short enough and has no control characters that a value
may not hold. -/
def Fits (text : String) : Prop :=
  text.utf8ByteSize ≤ maxBytes ∧ ∀ c ∈ text.toList, HeaderValue.IsTextual c

-- the characters of the text are looked at, not all that there are
instance (text : String) : Decidable (Fits text) :=
  @instDecidableAnd _ _ _ (List.decidableBAll _ _)

/-- The value that a text becomes; none if it does not fit. -/
def capped? (text : String) : Option HeaderValue :=
  if maxBytes < text.utf8ByteSize then none else HeaderValue.ofText? text

theorem capped?_bind_text? (text : String) :
    (capped? text).bind HeaderValue.text? = if Fits text then some text else none := by
  unfold capped?
  by_cases hshort : text.utf8ByteSize ≤ maxBytes
  · rw [if_neg (Nat.not_lt.mpr hshort)]
    cases hvalue : HeaderValue.ofText? text with
    | none =>
        have hnot : ¬ ∀ c ∈ text.toList, HeaderValue.IsTextual c := by
          rw [← HeaderValue.exists_ofText?_iff, hvalue]
          simp
        rw [if_neg fun hfits => hnot hfits.2]
        rfl
    | some v =>
        have htextual := (HeaderValue.exists_ofText?_iff text).mp ⟨v, hvalue⟩
        rw [if_pos ⟨hshort, htextual⟩]
        exact HeaderValue.text?_of_ofText? hvalue
  · rw [if_pos (Nat.lt_of_not_le hshort), if_neg fun hfits => hshort hfits.1]
    rfl

/-! ## Headers after writing -/

theorem values_insertCapped (h : Headers) (name other : HeaderName) (text : String) :
    (insertCapped h name text).values other =
      if name = other then (capped? text).elim (h.values other) fun v => [v]
      else h.values other := by
  unfold insertCapped capped?
  split
  next => simp
  next =>
    cases HeaderValue.ofText? text with
    | none => simp
    | some v => exact Headers.values_insert h name other v

/-- When no name is written twice, each name is told by its own text. -/
theorem values_foldl_insertCapped {texts : List (HeaderName × String)}
    (hnodup : (Keyed.keys texts).Nodup) (h : Headers) (name : HeaderName) :
    (texts.foldl (fun h f => insertCapped h f.1 f.2) h).values name =
      ((Keyed.get? name texts).bind capped?).elim (h.values name) fun v => [v] := by
  induction texts generalizing h with
  | nil => rfl
  | cons f texts ih =>
      obtain ⟨hnew, hrest⟩ := List.nodup_cons.mp hnodup
      rw [List.foldl_cons, ih hrest, values_insertCapped, Keyed.get?]
      by_cases hname : f.1 = name
      · have hlater : Keyed.get? name texts = none := Keyed.get?_eq_none_iff.mpr (hname ▸ hnew)
        simp [hname, hlater]
      · simp [hname]

section

variable {c : Prop} [Decidable c] (name key : HeaderName) (text : String)

theorem keys_ite_sublist :
    (Keyed.keys (if c then [] else [(name, text)])).Sublist [name] := by
  split <;> simp [Keyed.keys]

theorem get?_ite :
    Keyed.get? key (if c then [] else [(name, text)]) =
      if name = key then (if c then none else some text) else none := by
  split <;> simp [Keyed.get?]

theorem get?_map (texts : Option String) :
    Keyed.get? key (texts.toList.map fun n => (name, sanitize n)) =
      if name = key then texts.map sanitize else none := by
  cases texts <;> simp [Keyed.get?]

end

variable (o : Options) (i : Identity)

theorem keys_fields_sublist : (Keyed.keys (fields o i)).Sublist headerNames := by
  have hnames : headerNames = [.authSubject, .authType] ++ [.authName] ++ [.authRoles]
      ++ [.authScopes] ++ [.authClaims] := rfl
  have hdisplay :
      (Keyed.keys (i.displayName.toList.map fun n => (HeaderName.authName, sanitize n))).Sublist
        [.authName] := by
    cases i.displayName <;> simp [Keyed.keys]
  rw [hnames, fields]
  simp only [Keyed.keys, List.map_append]
  exact ((((List.Sublist.refl _).append hdisplay).append (keys_ite_sublist _ _)).append
    (keys_ite_sublist _ _)).append (keys_ite_sublist _ _)

variable (h : Headers)

/-- After writing, a propagation header holds what the identity gives to it, and every other header
holds what it did before. -/
theorem values_write (name : HeaderName) :
    (write o i h).values name =
      if name ∈ headerNames then ((Keyed.get? name (fields o i)).bind capped?).toList
      else h.values name := by
  have hnodup : headerNames.Nodup := by decide
  rw [write, values_foldl_insertCapped ((keys_fields_sublist o i).nodup hnodup), strip,
    Headers.values_removeAll]
  split
  next => cases (Keyed.get? name (fields o i)).bind capped? <;> rfl
  next hname =>
    have hnone : Keyed.get? name (fields o i) = none :=
      Keyed.get?_eq_none_iff.mpr fun hmem => hname ((keys_fields_sublist o i).subset hmem)
    rw [hnone]
    rfl

theorem text?_write {name : HeaderName} (hname : name ∈ headerNames) :
    (write o i h).text? name = (Keyed.get? name (fields o i)).filter fun s => Fits s := by
  rw [Headers.text?, values_write, if_pos hname]
  cases Keyed.get? name (fields o i) with
  | none => rfl
  | some text => 
      have hhead (x : Option HeaderValue) : x.toList.head? = x := by cases x <;> rfl
      rw [hhead, Option.bind_some, capped?_bind_text?, Option.filter_some]
      simp

/-- No text that fits is refused for its length. -/
theorem bounded?_write {name : HeaderName} (hname : name ∈ headerNames) :
    bounded? (write o i h) name = (Keyed.get? name (fields o i)).filter fun s => Fits s := by
  rw [bounded?, text?_write o i h hname]
  cases Keyed.get? name (fields o i) with
  | none => rfl
  | some text =>
      by_cases hfits : Fits text
      · simp [Option.filter_some, hfits, hfits.1]
      · simp [Option.filter_some, hfits]

theorem nonempty?_write {name : HeaderName} (hname : name ∈ headerNames) {text : String}
    (hget : Keyed.get? name (fields o i) = some text) :
    nonempty? (write o i h) name = if Fits text ∧ text ≠ "" then some text else none := by
  rw [nonempty?, text?_write o i h hname, hget]
  by_cases hfits : Fits text <;> simp [Option.filter_some, hfits]

/-- The texts that an identity gives to the headers, one by one. -/
theorem get?_fields :
    Keyed.get? .authSubject (fields o i) = some (sanitize i.subject) ∧
    Keyed.get? .authType (fields o i) = some (sanitize i.kind) ∧
    Keyed.get? .authName (fields o i) = i.displayName.map sanitize ∧
    Keyed.get? .authRoles (fields o i) =
      (if i.roles.names.isEmpty then none
        else some (Json.array (i.roles.names.map .string)).text) ∧
    Keyed.get? .authScopes (fields o i) =
      (if i.scopes.names.isEmpty then none else some (Text.join " " i.scopes.names)) ∧
    Keyed.get? .authClaims (fields o i) =
      (if (i.claims.filter o.allows).members.isEmpty then none
        else some (i.claims.filter o.allows).json.text) := by
  simp +decide [fields, Keyed.get?_append, Keyed.get?, get?_ite, get?_map]

/-! ## The identity that is read -/

/-- What arrives of an identity with a subject. Single texts lose their control characters, scopes
fall apart at blanks, and what does not fit is lost. -/
def delivered : Identity where
  subject := sanitize i.subject
  displayName := (i.displayName.map sanitize).filter fun s => Fits s
  roles := if Fits (Json.array (i.roles.names.map .string)).text then i.roles else .empty
  scopes :=
    if Fits (Text.join " " i.scopes.names) then .ofList (i.scopes.names.flatMap Text.words)
    else .empty
  claims :=
    if Fits (i.claims.filter o.allows).json.text then
      (claims? (i.claims.filter o.allows).json.text).getD .empty
    else .empty
  kind :=
    if Fits (sanitize i.kind) ∧ sanitize i.kind ≠ "" then sanitize i.kind
    else Identity.unknownKind
  expiresAt := none

/-- What arrives of any identity: without a subject nothing does. -/
def delivered? : Option Identity :=
  if Fits (sanitize i.subject) ∧ sanitize i.subject ≠ "" then some (delivered o i) else none

theorem eq_delivered {o : Options} {i i' : Identity} (h : delivered? o i = some i') :
    i' = delivered o i := by
  unfold delivered? at h
  split at h
  next => exact (Option.some.inj h).symm
  next => cases h

theorem stringList?_text (names : List String) :
    stringList? (Json.array (names.map .string)).text = some names := by
  rw [stringList?, Decoder.ofText_strings]
  rfl

/-- Exact claims are read back unless they are nested too deep. -/
theorem claims?_text {c : Claims} (hexact : c.json.IsExact) :
    claims? c.json.text = if c.json.depth ≤ Json.maxDepth then some c else none := by
  rw [claims?, Json.parse?_text hexact]
  split
  next => rw [Option.bind_some, Claims.ofJson?_json]
  next => rfl

/-- A collection that is not written when it is empty reads like one that is always written. -/
theorem getD_bind_filter {α : Type} (read : String → Option α) {c : Prop} [Decidable c]
    {text : String} {fallback : α} (hread : c → read text = some fallback) :
    (((if c then none else some text).filter fun s => Fits s).bind read).getD fallback =
      if Fits text then (read text).getD fallback else fallback := by
  by_cases hc : c
  · simp [hc, hread hc]
  · by_cases hfits : Fits text <;> simp [Option.filter_some, hc, hfits]

theorem roles_write :
    NameList.ofList (((bounded? (write o i h) .authRoles).bind stringList?).getD []) =
      if Fits (Json.array (i.roles.names.map .string)).text then i.roles else .empty := by
  obtain ⟨-, -, -, hroles, -, -⟩ := get?_fields o i
  have hempty : i.roles.names.isEmpty = true →
      stringList? (Json.array (i.roles.names.map .string)).text = some [] := by
    intro hnil
    rw [stringList?_text, List.isEmpty_iff.mp hnil]
  rw [bounded?_write o i h (by decide), hroles, getD_bind_filter stringList? hempty, stringList?_text]
  split
  next => exact NameList.ofList_names i.roles
  next => rfl

theorem scopes_write :
    NameList.ofList (((bounded? (write o i h) .authScopes).map Text.words).getD []) =
      if Fits (Text.join " " i.scopes.names) then .ofList (i.scopes.names.flatMap Text.words)
      else .empty := by
  obtain ⟨-, -, -, -, hscopes, -⟩ := get?_fields o i
  have hempty : i.scopes.names.isEmpty = true →
      some (Text.words (Text.join " " i.scopes.names)) = some [] := by
    intro hnil
    rw [List.isEmpty_iff.mp hnil]
    rfl
  rw [bounded?_write o i h (by decide), hscopes, Option.map_eq_bind,
    getD_bind_filter (some ∘ Text.words) hempty]
  split
  next => exact congrArg NameList.ofList (Text.words_join i.scopes.names)
  next => rfl

theorem claims_write :
    ((bounded? (write o i h) .authClaims).bind claims?).getD .empty =
      if Fits (i.claims.filter o.allows).json.text then
        (claims? (i.claims.filter o.allows).json.text).getD .empty
      else .empty := by
  obtain ⟨-, -, -, -, -, hclaims⟩ := get?_fields o i
  have hempty : (i.claims.filter o.allows).members.isEmpty = true →
      claims? (i.claims.filter o.allows).json.text = some .empty := by
    intro hnil
    rw [Claims.json, List.isEmpty_iff.mp hnil]
    rfl
  rw [bounded?_write o i h (by decide), hclaims, getD_bind_filter claims? hempty]

/-- The next hop reads exactly what is delivered, whatever the headers held before. -/
theorem read?_write : read? (write o i h) = delivered? o i := by
  obtain ⟨hsubject, hkind, hdisplay, -, -, -⟩ := get?_fields o i
  have hfallback (c : Prop) [Decidable c] (kind fallback : String) :
      (if c then some kind else none).getD fallback = if c then kind else fallback := by
    split <;> rfl
  rw [read?, nonempty?_write o i h (by decide) hsubject,
    nonempty?_write o i h (by decide) hkind, text?_write o i h (by decide), hdisplay, hfallback,
    roles_write, scopes_write, claims_write]
  unfold delivered?
  split <;> rfl

end CallGuard.Propagation
