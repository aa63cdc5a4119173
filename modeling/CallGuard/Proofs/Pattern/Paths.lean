import CallGuard.Proofs.Method.Paths
import CallGuard.Proofs.Pattern.Grammar

/-! # Patterns that are written as paths

A text can be the text of a pattern and the path of a method at once. A path is read without the
blanks around each of its two names, a pattern without those around the whole text only. So a
blank beside the slash makes the difference: without one the pattern stands for the method that
the path names, and with one it stands for no accepted method at all. -/

namespace CallGuard.Pattern

/-! ## A text that is read both ways -/

theorem slash_mem_of_names {path : String} {m : Method} (h : Method.Names path m) :
    '/' ∈ path.toList := by
  cases h with
  | @sides service name hrelative =>
      generalize hrest : service ++ "/" ++ name = rest at hrelative
      cases hrelative with
      | rooted => simp
      | bare =>
          rw [← hrest]
          simp

/-- The names of a path, read from the two sides of the text without the blanks around it. -/
theorem eq_of_names_of_trim {s service name : String} (hservice : IsSegment service)
    (htrim : Text.trim s = service ++ "/" ++ name) {m : Method} (h : Method.Names s m) :
    m = ⟨Text.trim service, Text.trim name⟩ ∧ m.IsChecked := by
  obtain ⟨front, back, hs, hfront, hback⟩ := Text.exists_eq_append_trim s
  have hsides : s = front ++ service ++ "/" ++ (name ++ back) := by
    rw [hs, htrim]
    simp only [String.append_assoc]
  have hslash : '/' ∉ (front ++ service).toList := by
    rw [String.toList_append, List.mem_append]
    rintro (hmem | hmem)
    · exact absurd (hfront '/' hmem) (by decide)
    · exact hservice.no_slash hmem
  have hne : front ++ service ≠ "" := fun hempty =>
    hservice.nonempty (String.append_eq_empty_iff.mp hempty).2
  have hwhole : Method.Relative s s := by
    rw [hsides]
    exact .of_sides hne hslash _
  cases h with
  | @sides before rest hrelative hbefore hs hn =>
      have heq : s = before ++ "/" ++ rest :=
        (Method.relative_eq_iff.mpr hwhole).symm.trans (Method.relative_eq_iff.mpr hrelative)
      have hcut := Text.cut?_slash_eq_some_iff.mpr ⟨hsides, hslash⟩
      rw [Text.cut?_slash_eq_some_iff.mpr ⟨heq, hbefore⟩] at hcut
      obtain ⟨rfl, rfl⟩ := Prod.mk.inj (Option.some.inj hcut)
      rw [Text.trim_blank_append hfront] at hs ⊢
      rw [Text.trim_append_blank hback] at hn ⊢
      exact ⟨rfl, hs, hn⟩

/-- A text that is read both ways spells out a single method. -/
theorem exists_single_of_ofPath {s : String} {p : Pattern} {m : Method} (hp : parse s = .ok p)
    (hm : Method.ofPath s = .ok m) :
    ∃ service name, p = .single service name ∧ Text.trim s = service ++ "/" ++ name ∧
      m = ⟨Text.trim service, Text.trim name⟩ ∧ m.IsChecked := by
  obtain ⟨hform, htext⟩ := parse_eq_ok_iff.mp hp
  have hnames := Method.ofPath_eq_ok_iff.mp hm
  cases hform with
  | all =>
      obtain ⟨front, back, hs, hfront, hback⟩ := Text.exists_eq_append_trim s
      have hslash := slash_mem_of_names hnames
      rw [hs, ← htext, String.toList_append, String.toList_append, List.mem_append,
        List.mem_append] at hslash
      rcases hslash with (hmem | hmem) | hmem
      · exact absurd (hfront '/' hmem) (by decide)
      · exact absurd hmem (by decide)
      · exact absurd (hback '/' hmem) (by decide)
  | @ofService service hservice =>
      rw [text_ofService] at htext
      obtain ⟨rfl, hchecked⟩ := eq_of_names_of_trim hservice htext.symm hnames
      have hmem : '*' ∈ (Text.trim "*").toList := by decide
      have hstar : Method.NameChar '*' := hchecked.name.chars '*' hmem
      exact absurd hstar.range.1 (by decide)
  | @single service name hservice hname =>
      obtain ⟨rfl, hchecked⟩ := eq_of_names_of_trim hservice htext.symm hnames
      exact ⟨service, name, rfl, htext.symm, rfl, hchecked⟩

/-! ## What it stands for -/

theorem selects_single_iff {service name : String} {m : Method} :
    (single service name).selects m = true ↔ service = m.service ∧ name = m.name := by
  simp [selects]

/-- A text that is read as a pattern and as a path stands for the method that the path names
exactly when no blank is left in it after trimming. It never stands for another accepted method,
so with a blank beside its slash it stands for none. -/
theorem selects_ofPath_iff {s : String} {p : Pattern} {m : Method} (hp : parse s = .ok p)
    (hm : Method.ofPath s = .ok m) :
    (p.selects m = true ↔ ∀ c ∈ (Text.trim s).toList, Text.isBlank c = false) ∧
    ∀ other : Method, other.Accepted → p.selects other = true → other = m := by
  obtain ⟨service, name, rfl, htrim, rfl, hchecked⟩ := exists_single_of_ofPath hp hm
  refine ⟨?_, ?_⟩
  · rw [selects_single_iff, htrim]
    constructor
    · rintro ⟨hs, hn⟩ c hc
      simp only [String.toList_append, List.mem_append] at hc
      rcases hc with (hc | hc) | hc
      · rw [hs] at hc
        exact (hchecked.service.chars c hc).not_blank
      · obtain rfl : c = '/' := List.mem_singleton.mp hc
        decide
      · rw [hn] at hc
        exact (hchecked.name.chars c hc).not_blank
    · intro hblank
      simp only [String.toList_append, List.mem_append] at hblank
      constructor
      · exact (Text.trim_eq_self fun c hc => hblank c (.inl (.inl hc))).symm
      · exact (Text.trim_eq_self fun c hc => hblank c (.inr hc)).symm
  · intro other haccepted hselects
    obtain ⟨rfl, rfl⟩ := selects_single_iff.mp hselects
    have hother := Method.accepted_iff.mp haccepted
    rw [hother.service.trim_eq, hother.name.trim_eq]

theorem selects_ofPath_iff_sample :
    parse " svc.Foo/Bar" = .ok (.single "svc.Foo" "Bar") ∧
      Method.ofPath " svc.Foo/Bar" = .ok ⟨"svc.Foo", "Bar"⟩ ∧
      (single "svc.Foo" "Bar").selects ⟨"svc.Foo", "Bar"⟩ = true := by
  have hp : parse " svc.Foo/Bar" = .ok (.single "svc.Foo" "Bar") := rfl
  have hm : Method.ofPath " svc.Foo/Bar" = .ok ⟨"svc.Foo", "Bar"⟩ := rfl
  have hplain : (Text.trim " svc.Foo/Bar").toList.all (fun c => !Text.isBlank c) = true := rfl
  refine ⟨hp, hm, (selects_ofPath_iff hp hm).1.mpr fun c hc => ?_⟩
  simpa using List.all_eq_true.mp hplain c hc

/-- A pattern with a blank beside its slash is accepted, and misses the method that it spells. -/
theorem blank_beside_slash_misses :
    parse "svc.Foo /Bar" = .ok (.single "svc.Foo " "Bar") ∧
      Method.ofPath "svc.Foo /Bar" = .ok ⟨"svc.Foo", "Bar"⟩ ∧
      (single "svc.Foo " "Bar").selects ⟨"svc.Foo", "Bar"⟩ = false :=
  ⟨rfl, rfl, rfl⟩

end CallGuard.Pattern
