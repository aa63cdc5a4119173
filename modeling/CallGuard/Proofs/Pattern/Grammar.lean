import CallGuard.Proofs.Text
import CallGuard.Rule

/-! # Which texts are patterns, and what they mean

A pattern is read from a text and matched as a value, and a raw text is matched as it stands. The
texts that are patterns are told by their characters, a pattern that has been read keeps its text,
and both ways of matching give that text the same meaning. -/

namespace CallGuard.Pattern

/-! ## The grammar -/

/-- The texts of patterns: a lone wildcard, or a service and a method with a slash between them.
Neither of the two has another slash in it, and the only wildcard is a whole method. -/
inductive IsText : String → Prop where
  | all : IsText "*"
  | segments {service name : String} :
      service ≠ "" → '/' ∉ service.toList → '*' ∉ service.toList →
      name ≠ "" → '/' ∉ name.toList → (name = "*" ∨ '*' ∉ name.toList) →
      IsText (service ++ "/" ++ name)

/-- What a text stands for: a lone wildcard for all methods, and any other text for those whose
service stands before its first slash, if a wildcard or their name stands behind it. -/
inductive Means : String → Method → Prop where
  | all (m : Method) : Means "*" m
  | ofService {m : Method} : '/' ∉ m.service.toList → Means (m.service ++ "/" ++ "*") m
  | single {m : Method} : '/' ∉ m.service.toList → Means (m.service ++ "/" ++ m.name) m

/-! ## Patterns that have a text of their own -/

/-- A name that a pattern spells out. -/
structure IsSegment (s : String) : Prop where
  nonempty : s ≠ ""
  no_slash : '/' ∉ s.toList
  no_wildcard : '*' ∉ s.toList

theorem IsSegment.ne_wildcard {s : String} (h : IsSegment s) : s ≠ "*" := by
  rintro rfl
  exact h.no_wildcard (by decide)

theorem IsSegment.cut? {service : String} (h : IsSegment service) (name : String) :
    Text.cut? '/' (service ++ "/" ++ name) = some (service, name) :=
  Text.cut?_slash_eq_some_iff.mpr ⟨rfl, h.no_slash⟩

/-- A pattern whose names are segments, so that it can be told from its text. -/
inductive WellFormed : Pattern → Prop where
  | all : WellFormed .all
  | ofService {service : String} : IsSegment service → WellFormed (.ofService service)
  | single {service name : String} :
      IsSegment service → IsSegment name → WellFormed (.single service name)

theorem text_ofService (service : String) : (ofService service).text = service ++ "/" ++ "*" := by
  rw [text, String.append_assoc]
  rfl

theorem isText_iff {t : String} : IsText t ↔ ∃ p, WellFormed p ∧ p.text = t := by
  constructor
  · intro h
    cases h with
    | all => exact ⟨.all, .all, rfl⟩
    | @segments service name hs hslash hstar hn hnslash hnstar =>
        have hservice : IsSegment service := ⟨hs, hslash, hstar⟩
        by_cases hwild : name = "*"
        · subst hwild
          exact ⟨.ofService service, .ofService hservice, text_ofService service⟩
        · have hname : IsSegment name := ⟨hn, hnslash, hnstar.resolve_left hwild⟩
          exact ⟨.single service name, .single hservice hname, rfl⟩
  · rintro ⟨p, hp, rfl⟩
    cases hp with
    | all => exact .all
    | ofService hs =>
        rw [text_ofService]
        exact .segments hs.nonempty hs.no_slash hs.no_wildcard (by decide) (by decide) (.inl rfl)
    | single hs hn =>
        exact .segments hs.nonempty hs.no_slash hs.no_wildcard hn.nonempty hn.no_slash
          (.inr hn.no_wildcard)

/-- A text with a slash is neither empty nor a lone wildcard. -/
theorem ne_of_cut? {t : String} {sides : String × String} (h : Text.cut? '/' t = some sides) :
    t ≠ "" ∧ t ≠ "*" := by
  constructor
  · rintro rfl
    cases h
  · rintro rfl
    cases h

/-! ## Reading -/

theorem ofTrimmed_of_cut? {t service name : String} (h : Text.cut? '/' t = some (service, name)) :
    ofTrimmed t = ofSegments t service name := by
  obtain ⟨hempty, hwild⟩ := ne_of_cut? h
  simp only [ofTrimmed, String.isEmpty_iff, hempty, hwild, h, if_false]

theorem ofSegments_eq_ok_iff {t service name : String} {p : Pattern}
    (hslash : '/' ∉ service.toList) :
    ofSegments t service name = .ok p ↔
      IsSegment service ∧
        (name = "*" ∧ p = .ofService service ∨ IsSegment name ∧ p = .single service name) := by
  unfold ofSegments
  constructor
  · intro h
    split at h
    next => cases h
    next hempty =>
      split at h
      next => cases h
      next hmarks =>
        simp only [Bool.or_eq_true, String.isEmpty_iff, not_or] at hempty
        simp only [Bool.or_eq_true, List.contains_iff_mem, not_or] at hmarks
        refine ⟨⟨hempty.1, hslash, hmarks.1⟩, ?_⟩
        split at h
        next hwild => exact .inl ⟨hwild, (Except.ok.inj h).symm⟩
        next =>
          split at h
          next => cases h
          next hstar =>
            rw [List.contains_iff_mem] at hstar
            exact .inr ⟨⟨hempty.2, hmarks.2, hstar⟩, (Except.ok.inj h).symm⟩
  · rintro ⟨hs, ⟨rfl, rfl⟩ | ⟨hn, rfl⟩⟩
    · simp [hs.nonempty, hs.no_wildcard]
    · simp [hs.nonempty, hs.no_wildcard, hn.nonempty, hn.no_slash, hn.no_wildcard, hn.ne_wildcard]

/-- A trimmed text is read as the well-formed pattern whose text it is. -/
theorem ofTrimmed_eq_ok_iff {t : String} {p : Pattern} :
    ofTrimmed t = .ok p ↔ WellFormed p ∧ p.text = t := by
  constructor
  · intro h
    by_cases hwild : t = "*"
    · subst hwild
      obtain rfl : all = p := Except.ok.inj h
      exact ⟨.all, rfl⟩
    · cases hcut : Text.cut? '/' t with
      | none =>
          simp only [ofTrimmed, hwild, hcut, if_false] at h
          split at h <;> cases h
      | some sides =>
          obtain ⟨service, name⟩ := sides
          obtain ⟨rfl, hslash⟩ := Text.cut?_slash_eq_some_iff.mp hcut
          rw [ofTrimmed_of_cut? hcut, ofSegments_eq_ok_iff hslash] at h
          obtain ⟨hs, ⟨rfl, rfl⟩ | ⟨hn, rfl⟩⟩ := h
          · exact ⟨.ofService hs, text_ofService service⟩
          · exact ⟨.single hs hn, rfl⟩
  · rintro ⟨hp, rfl⟩
    cases hp with
    | all => rfl
    | ofService hs =>
        rw [text_ofService, ofTrimmed_of_cut? (hs.cut? "*"), ofSegments_eq_ok_iff hs.no_slash]
        exact ⟨hs, .inl ⟨rfl, rfl⟩⟩
    | single hs hn =>
        rw [text, ofTrimmed_of_cut? (hs.cut? _), ofSegments_eq_ok_iff hs.no_slash]
        exact ⟨hs, .inr ⟨hn, rfl⟩⟩

theorem parse_eq_ok_iff {s : String} {p : Pattern} :
    parse s = .ok p ↔ WellFormed p ∧ p.text = Text.trim s := by
  rw [← ofTrimmed_eq_ok_iff, parse]
  cases ofTrimmed (Text.trim s) with
  | ok q => simp
  | error fault => simp

/-- The text of a pattern that was read is read as that pattern again. -/
theorem parse_text {s : String} {p : Pattern} (h : parse s = .ok p) : parse p.text = .ok p := by
  obtain ⟨hp, htext⟩ := parse_eq_ok_iff.mp h
  rw [parse_eq_ok_iff, htext, Text.trim_trim]
  exact ⟨hp, rfl⟩

theorem decode_string_eq_ok_iff {s : String} {p : Pattern} :
    decode (.string (some s)) = .ok p ↔ parse s = .ok p := by
  have hstring : Decoder.string (.string (some s)) = .ok s := rfl
  rw [decode, hstring]
  cases hparse : parse s with
  | ok q => simp [bind, Except.bind, hparse]
  | error e => simp [bind, Except.bind, hparse]

/-! ## Matching -/

theorem covers_of_cut? {t before rest : String} (h : Text.cut? '/' t = some (before, rest))
    (service name : String) :
    covers t service name = (before == service && (rest == "*" || rest == name)) := by
  simp only [covers, (ne_of_cut? h).2, h, if_false]

/-- A raw text covers the methods that it stands for, be it the text of a pattern or not. -/
theorem covers_iff {t : String} {m : Method} :
    covers t m.service m.name = true ↔ Means t m := by
  constructor
  · intro h
    by_cases hwild : t = "*"
    · subst hwild
      exact .all m
    · cases hcut : Text.cut? '/' t with
      | none => simp [covers, hwild, hcut] at h
      | some sides =>
          obtain ⟨before, rest⟩ := sides
          obtain ⟨rfl, hslash⟩ := Text.cut?_slash_eq_some_iff.mp hcut
          simp only [covers_of_cut? hcut, Bool.and_eq_true, Bool.or_eq_true, beq_iff_eq] at h
          obtain ⟨rfl, rfl | rfl⟩ := h
          · exact .ofService hslash
          · exact .single hslash
  · intro h
    cases h with
    | all => rfl
    | ofService hslash =>
        rw [covers_of_cut? (Text.cut?_slash_eq_some_iff.mpr ⟨rfl, hslash⟩)]
        simp
    | single hslash =>
        rw [covers_of_cut? (Text.cut?_slash_eq_some_iff.mpr ⟨rfl, hslash⟩)]
        simp

/-- A pattern selects what its text covers. -/
theorem WellFormed.selects_eq_covers {p : Pattern} (hp : WellFormed p) (m : Method) :
    p.selects m = covers p.text m.service m.name := by
  cases hp with
  | all => rfl
  | ofService hs =>
      rw [text_ofService, covers_of_cut? (hs.cut? "*")]
      simp [selects]
  | single hs hn =>
      have hname := beq_eq_false_iff_ne.mpr hn.ne_wildcard
      rw [text, covers_of_cut? (hs.cut? _), hname, Bool.false_or, selects]

theorem anySelects_eq_anyCovers {ps : List Pattern} (hps : ∀ p ∈ ps, WellFormed p) (m : Method) :
    anySelects ps m = anyCovers (ps.map text) m.service m.name := by
  induction ps with
  | nil => rfl
  | cons p ps ih =>
      obtain ⟨hp, hrest⟩ := List.forall_mem_cons.mp hps
      have hhead := hp.selects_eq_covers m
      have htail := ih hrest
      simp only [anySelects, anyCovers] at htail
      simp only [anySelects, anyCovers, List.map_cons, List.any_cons, hhead, htail]

/-- A text is read, from a value as well as from a document, exactly when it is the text of a
pattern up to the blanks around it. The pattern that is read keeps that text, is read from it
again, and selects the methods that the text stands for. So matching with patterns and matching
with their raw texts come to the same. -/
theorem parse_grammar (s : String) :
    ((∃ p, parse s = .ok p) ↔ IsText (Text.trim s)) ∧
    (∀ p, decode (.string (some s)) = .ok p ↔ parse s = .ok p) ∧
    (∀ p, parse s = .ok p →
      p.text = Text.trim s ∧ parse p.text = .ok p ∧
        ∀ m, p.selects m = true ↔ Means (Text.trim s) m) ∧
    ∀ ps : List Pattern, (∀ p ∈ ps, ∃ t, parse t = .ok p) →
      ∀ m : Method, anySelects ps m = anyCovers (ps.map text) m.service m.name := by
  refine ⟨?_, fun p => decode_string_eq_ok_iff, ?_, ?_⟩
  · rw [isText_iff]
    exact exists_congr fun p => parse_eq_ok_iff
  · intro p h
    obtain ⟨hp, htext⟩ := parse_eq_ok_iff.mp h
    refine ⟨htext, parse_text h, fun m => ?_⟩
    rw [hp.selects_eq_covers m, covers_iff, htext]
  · intro ps hps m
    apply anySelects_eq_anyCovers
    intro p hp
    obtain ⟨t, ht⟩ := hps p hp
    exact (parse_eq_ok_iff.mp ht).1

end CallGuard.Pattern
