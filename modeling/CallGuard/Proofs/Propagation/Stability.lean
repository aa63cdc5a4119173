import CallGuard.Proofs.Propagation.Delivery

/-! # Identities that travel on

What a hop loses is lost at the first hop. The identity that arrives there is of texts without
control characters, of scopes that are single words, and of collections that fit, so every further
hop hands it on unchanged. -/

namespace CallGuard.Propagation

/-! ## Parts that arrive once -/

theorem sanitize_sanitize (s : String) : sanitize (sanitize s) = sanitize s := by
  simp [sanitize, List.filter_filter]

/-- What was kept because it fits is kept again, and so is what stands in its place. -/
theorem ite_stable {α : Type} (P : α → Prop) [DecidablePred P] (fallback x : α) :
    (if P (if P x then x else fallback) then (if P x then x else fallback) else fallback) =
      if P x then x else fallback := by
  by_cases hx : P x
  · simp [hx]
  · simp [hx]

theorem displayName_stable (name : Option String) :
    ((((name.map sanitize).filter fun s => Fits s).map sanitize).filter fun s => Fits s) =
      (name.map sanitize).filter fun s => Fits s := by
  cases name with
  | none => rfl
  | some n =>
      by_cases hfits : Fits (sanitize n)
      · simp [Option.filter_some, hfits, sanitize_sanitize]
      · simp [Option.filter_some, hfits]

/-- The kind that arrives is not empty and arrives as it is. -/
theorem kind_stable (kind : String) :
    let arrived := if Fits (sanitize kind) ∧ sanitize kind ≠ "" then sanitize kind
      else Identity.unknownKind
    sanitize arrived = arrived ∧ Fits arrived ∧ arrived ≠ "" := by
  dsimp only
  split
  next h => exact ⟨sanitize_sanitize kind, h⟩
  next => decide

/-! ## Scopes -/

/-- Words of a text that fits still fit when some of them are written again. -/
theorem fits_join_words {ws : List String} {s : String} (hws : ws.Sublist (Text.words s))
    (hs : Fits s) : Fits (Text.join " " ws) := by
  refine ⟨(Text.utf8ByteSize_join_words_le hws).trans hs.1, fun c hc => ?_⟩
  rcases Text.mem_join_words hws hc with rfl | hc
  · decide
  · exact hs.2 c hc

theorem scopes_stable (scopes : List String) (hfits : Fits (Text.join " " scopes)) :
    let arrived := NameList.ofList (scopes.flatMap Text.words)
    Fits (Text.join " " arrived.names) ∧
      NameList.ofList (arrived.names.flatMap Text.words) = arrived := by
  dsimp only
  rw [← Text.words_join]
  have hsublist := NameList.names_ofList_sublist (Text.words (Text.join " " scopes))
  have hwords : ∀ w ∈ (NameList.ofList (Text.words (Text.join " " scopes))).names,
      w ≠ "" ∧ ∀ c ∈ w.toList, Text.isBlank c = false :=
    fun w hw => Text.not_blank_of_mem_words (hsublist.subset hw)
  refine ⟨fits_join_words hsublist hfits, ?_⟩
  rw [Text.flatMap_words_eq_self hwords, NameList.ofList_names]

/-! ## Claims -/

theorem filter_filter_claims (keep : String → Bool) (c : Claims) :
    (c.filter keep).filter keep = c.filter keep := by
  simp [Claims.filter, List.filter_filter]

/-- Exact claims arrive as a whole or not at all. -/
theorem claims_arrive {c : Claims} (hexact : c.json.IsExact) :
    (if Fits c.json.text then (claims? c.json.text).getD .empty else .empty) =
      if Fits c.json.text ∧ c.json.depth ≤ Json.maxDepth then c else .empty := by
  rw [claims?_text hexact]
  by_cases hfits : Fits c.json.text
  · by_cases hdepth : c.json.depth ≤ Json.maxDepth <;> simp [hfits, hdepth]
  · simp [hfits]

theorem claims_stable (keep : String → Bool) {c : Claims} (hexact : (c.filter keep).json.IsExact) :
    let arrived := if Fits (c.filter keep).json.text then
      (claims? (c.filter keep).json.text).getD .empty else .empty
    (if Fits (arrived.filter keep).json.text then
      (claims? (arrived.filter keep).json.text).getD .empty else .empty) = arrived := by
  dsimp only
  rw [claims_arrive hexact]
  split
  next h => rw [filter_filter_claims, claims_arrive hexact, if_pos h]
  next =>
    have hempty : Claims.empty.filter keep = .empty := rfl
    rw [hempty, claims_arrive (c := .empty) ⟨List.Pairwise.nil, trivial⟩, ite_self]

/-! ## Identities -/

variable {o : Options} {i j : Identity}

/-- An identity that has arrived: every part of it is as the next hop would read it. -/
structure Settled (o : Options) (i : Identity) : Prop where
  subject : sanitize i.subject = i.subject ∧ Fits i.subject ∧ i.subject ≠ ""
  displayName : ((i.displayName.map sanitize).filter fun s => Fits s) = i.displayName
  roles : (if Fits (Json.array (i.roles.names.map .string)).text then i.roles else .empty) = i.roles
  scopes : (if Fits (Text.join " " i.scopes.names) then .ofList (i.scopes.names.flatMap Text.words)
    else .empty) = i.scopes
  claims : (if Fits (i.claims.filter o.allows).json.text then
    (claims? (i.claims.filter o.allows).json.text).getD .empty else .empty) = i.claims
  kind : sanitize i.kind = i.kind ∧ Fits i.kind ∧ i.kind ≠ ""
  expiresAt : i.expiresAt = none

theorem Settled.read?_write (hi : Settled o i) (h : Headers) : read? (write o i h) = some i := by
  obtain ⟨hsubject, hsubjectArrives⟩ := hi.subject
  obtain ⟨hkind, hkindArrives⟩ := hi.kind
  rw [Propagation.read?_write, delivered?, delivered, hsubject, if_pos hsubjectArrives, hkind,
    if_pos hkindArrives, hi.displayName, hi.roles, hi.scopes, hi.claims]
  exact congrArg (fun expiresAt => some { i with expiresAt }) hi.expiresAt.symm

theorem settled_of_delivered? (hexact : (i.claims.filter o.allows).json.IsExact)
    (h : delivered? o i = some j) : Settled o j := by
  have hsubject : Fits (sanitize i.subject) ∧ sanitize i.subject ≠ "" := by
    by_contra hnot
    rw [delivered?, if_neg hnot] at h
    cases h
  obtain rfl := eq_delivered h
  refine ⟨⟨sanitize_sanitize i.subject, hsubject⟩, displayName_stable i.displayName, ?_, ?_,
    claims_stable o.allows hexact, kind_stable i.kind, rfl⟩
  · exact ite_stable (fun l : NameList => Fits (Json.array (l.names.map .string)).text) .empty
      i.roles
  · by_cases hfits : Fits (Text.join " " i.scopes.names)
    · obtain ⟨hagain, hnames⟩ := scopes_stable i.scopes.names hfits
      simp only [delivered, if_pos hfits, if_pos hagain, hnames]
    · simp only [delivered, if_neg hfits]
      exact ite_self _

/-! ## Hops -/

/-- The identity that is left after some hops, each of which writes it into headers of its own. -/
def travel (o : Options) : Identity → List Headers → Option Identity
  | i, [] => some i
  | i, h :: hops => (read? (write o i h)).bind fun j => travel o j hops

theorem Settled.travel (hi : Settled o i) (hops : List Headers) :
    Propagation.travel o i hops = some i := by
  induction hops with
  | nil => rfl
  | cons h hops ih => rw [Propagation.travel, hi.read?_write, Option.bind_some, ih]

/-- The identity that arrives at the first hop arrives at every further one, whatever the identity
was that set out, as long as the numbers among its claims are integers of 64 bits. -/
theorem travel_of_read?_write (hexact : (i.claims.filter o.allows).json.IsExact) {h : Headers}
    (hread : read? (write o i h) = some j) (hops : List Headers) :
    travel o j hops = some j ∧ ∀ next, read? (write o j next) = some j := by
  rw [Propagation.read?_write] at hread
  have hj := settled_of_delivered? hexact hread
  exact ⟨hj.travel hops, hj.read?_write⟩

/-- An identity of which much is lost: control characters, a role that cannot stand in a header,
blanks inside scopes, a label that is empty, and a claim that does not travel. -/
def untidySample : Identity where
  subject := "u\nv"
  displayName := some "\n"
  roles := ⟨["admin\x7f"], by decide⟩
  scopes := ⟨["read\twrite", " ", "read  all"], by decide⟩
  claims := ⟨[("level", .number (.integer 7)), ("note", .null)], by unfold Members.Ordered; decide⟩
  kind := ""
  expiresAt := some 4102444800

def tidySample : Identity where
  subject := "uv"
  displayName := some ""
  roles := .empty
  scopes := ⟨["read", "write", "all"], by decide⟩
  claims := ⟨[("level", .number (.integer 7))], by unfold Members.Ordered; decide⟩
  kind := "unknown"
  expiresAt := none

theorem travel_of_read?_write_sample :
    (untidySample.claims.filter (Options.allows ⟨some ["level"]⟩)).json.IsExact ∧
      read? (write ⟨some ["level"]⟩ untidySample .empty) = some tidySample ∧
      travel ⟨some ["level"]⟩ tidySample [.empty, .empty] = some tidySample := by
  have hexact : (untidySample.claims.filter (Options.allows ⟨some ["level"]⟩)).json.IsExact := by
    refine ⟨(untidySample.claims.filter _).ordered, ?_⟩
    simp [untidySample, Claims.filter, Options.allows, Json.HaveExact, Json.IsExact, Number.IsWord]
  have hread : read? (write ⟨some ["level"]⟩ untidySample .empty) = some tidySample := by
    rw [Propagation.read?_write, delivered?, delivered, claims?_text hexact]
    rfl
  exact ⟨hexact, hread, (travel_of_read?_write hexact hread [.empty, .empty]).1⟩

end CallGuard.Propagation
