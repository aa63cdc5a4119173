import Mathlib
import CallGuard.Method
import CallGuard.Proofs.Checks
import CallGuard.Proofs.Text

/-! # Paths of methods

Which paths name a method is told by their characters. The display text of a checked method is
such a path, with and without a slash in front, and is read as that method again; so no two
checked methods are displayed alike. -/

namespace CallGuard.Method

/-! ## Names and paths -/

/-- The letters and digits of ASCII, and three marks. -/
def NameChar (c : Char) : Prop :=
  'A' ≤ c ∧ c ≤ 'Z' ∨ 'a' ≤ c ∧ c ≤ 'z' ∨ '0' ≤ c ∧ c ≤ '9' ∨ c = '.' ∨ c = '_' ∨ c = '-'

/-- A name has 1 to 256 bytes. -/
structure IsName (s : String) : Prop where
  nonempty : 1 ≤ s.utf8ByteSize
  short : s.utf8ByteSize ≤ 256
  chars : ∀ c ∈ s.toList, NameChar c

structure IsChecked (m : Method) : Prop where
  service : IsName m.service
  name : IsName m.name

/-- A path without the slash in front of it, if there is one. -/
inductive Relative : String → String → Prop where
  | rooted (rest : String) : Relative ("/" ++ rest) rest
  | bare {path : String} : path.toList.head? ≠ some '/' → Relative path path

/-- A path names a method when the two sides of its first slash, one in front not counted, are
the names of the method with blanks around them. -/
inductive Names : String → Method → Prop where
  | sides {path service name : String} :
      Relative path (service ++ "/" ++ name) → '/' ∉ service.toList →
      IsName (Text.trim service) → IsName (Text.trim name) →
      Names path ⟨Text.trim service, Text.trim name⟩

/-! ## Characters of names -/

theorem isNameChar_iff {c : Char} : isNameChar c = true ↔ NameChar c := by
  have hupper : c.isUpper = true ↔ 'A' ≤ c ∧ c ≤ 'Z' := by
    simp [Char.isUpper, Char.le_def]
  have hlower : c.isLower = true ↔ 'a' ≤ c ∧ c ≤ 'z' := by
    simp [Char.isLower, Char.le_def]
  have hdigit : c.isDigit = true ↔ '0' ≤ c ∧ c ≤ '9' := by
    simp [Char.isDigit, Char.le_def]
  simp only [isNameChar, Text.isAlphanumeric, Char.isAlpha, Bool.or_eq_true, beq_iff_eq, hupper,
    hlower, hdigit, NameChar, or_assoc]

/-- The characters of names lie between the hyphen and the last letter, and the slash, which lies
there too, is none of them. -/
theorem NameChar.range {c : Char} (h : NameChar c) :
    45 ≤ c.toNat ∧ c.toNat ≤ 122 ∧ c.toNat ≠ 47 := by
  simp only [NameChar, Char.le_def, UInt32.le_iff_toNat_le] at h
  rcases h with h | h | h | rfl | rfl | rfl
  · change 65 ≤ c.toNat ∧ c.toNat ≤ 90 at h
    omega
  · change 97 ≤ c.toNat ∧ c.toNat ≤ 122 at h
    omega
  · change 48 ≤ c.toNat ∧ c.toNat ≤ 57 at h
    omega
  · decide
  · decide
  · decide

theorem NameChar.not_blank {c : Char} (h : NameChar c) : Text.isBlank c = false := by
  obtain ⟨hlow, hhigh, -⟩ := h.range
  exact Text.not_blank_of_visible (by omega) (by omega)

theorem IsName.ne_empty {s : String} (h : IsName s) : s ≠ "" := by
  rw [Ne, ← String.utf8ByteSize_eq_zero_iff]
  have hpos := h.nonempty
  omega

theorem IsName.no_slash {s : String} (h : IsName s) : '/' ∉ s.toList := by
  intro hslash
  exact (h.chars '/' hslash).range.2.2 rfl

theorem IsName.trim_eq {s : String} (h : IsName s) : Text.trim s = s :=
  Text.trim_eq_self fun c hc => (h.chars c hc).not_blank

/-! ## Reading names -/

theorem checkName_eq_ok_iff {s t : String} : checkName s = .ok t ↔ t = Text.trim s ∧ IsName t := by
  unfold checkName
  constructor
  · intro h
    dsimp only at h
    split at h
    next => cases h
    next hempty =>
      split at h
      next => cases h
      next hshort =>
        split at h
        next hchars =>
          obtain rfl := Except.ok.inj h
          refine ⟨rfl, ?_, Nat.le_of_not_lt hshort, ?_⟩
          · rw [String.isEmpty_iff, ← String.utf8ByteSize_eq_zero_iff] at hempty
            omega
          · intro c hc
            exact isNameChar_iff.mp (List.all_eq_true.mp hchars c hc)
        next => cases h
  · rintro ⟨rfl, h⟩
    have hempty : ¬ (Text.trim s).isEmpty = true := by
      rw [String.isEmpty_iff]
      exact h.ne_empty
    have hchars : (Text.trim s).toList.all isNameChar = true :=
      List.all_eq_true.mpr fun c hc => isNameChar_iff.mpr (h.chars c hc)
    dsimp only
    rw [if_neg hempty, if_neg (Nat.not_lt.mpr h.short), if_pos hchars]

theorem checkPart_eq_ok_iff {part : Part} {s t : String} :
    checkPart part s = .ok t ↔ t = Text.trim s ∧ IsName t := by
  rw [← checkName_eq_ok_iff, checkPart]
  cases checkName s with
  | ok u => simp
  | error fault => simp

theorem ofNames_eq_ok_iff {service name : String} {m : Method} :
    ofNames service name = .ok m ↔
      m = ⟨Text.trim service, Text.trim name⟩ ∧ m.IsChecked := by
  simp only [ofNames, Checks.bind_eq_ok_iff, checkPart_eq_ok_iff, pure, Except.pure,
    Except.ok.injEq]
  constructor
  · rintro ⟨_, ⟨rfl, hs⟩, _, ⟨rfl, hn⟩, rfl⟩
    exact ⟨rfl, hs, hn⟩
  · rintro ⟨rfl, h⟩
    exact ⟨_, ⟨rfl, h.service⟩, _, ⟨rfl, h.name⟩, rfl⟩

/-! ## Reading paths -/

theorem relative_eq_iff {path rest : String} : relative path = rest ↔ Relative path rest := by
  unfold relative
  constructor
  · rintro rfl
    split
    next cs hpath =>
      have hrooted : path = "/" ++ String.ofList cs := by
        apply String.toList_inj.mp
        simp [hpath]
      rw [hrooted]
      exact .rooted _
    next hpath =>
      refine .bare fun hhead => ?_
      obtain ⟨cs, hcs⟩ := List.head?_eq_some_iff.mp hhead
      exact hpath cs hcs
  · intro h
    cases h with
    | rooted => simp
    | bare hhead =>
        split
        next cs hpath => simp [hpath] at hhead
        next => rfl

/-- Where something stands before the first slash there is none in front. -/
theorem Relative.of_sides {before : String} (hne : before ≠ "") (hslash : '/' ∉ before.toList)
    (rest : String) : Relative (before ++ "/" ++ rest) (before ++ "/" ++ rest) := by
  apply Relative.bare
  cases hchars : before.toList with
  | nil => exact absurd (String.toList_eq_nil_iff.mp hchars) hne
  | cons c cs =>
      have hc : c ≠ '/' := by
        rintro rfl
        exact hslash (hchars ▸ List.mem_cons_self)
      simpa [hchars] using hc

theorem ofPath_eq_ok_iff {path : String} {m : Method} : ofPath path = .ok m ↔ Names path m := by
  unfold ofPath
  constructor
  · intro h
    split at h
    next => cases h
    next service name hcut =>
      obtain ⟨hrest, hslash⟩ := Text.cut?_slash_eq_some_iff.mp hcut
      obtain ⟨rfl, hs, hn⟩ := ofNames_eq_ok_iff.mp h
      exact .sides (relative_eq_iff.mp hrest) hslash hs hn
  · intro h
    cases h with
    | sides hrelative hslash hs hn =>
        rw [relative_eq_iff.mpr hrelative, Text.cut?_slash_eq_some_iff.mpr ⟨rfl, hslash⟩]
        exact ofNames_eq_ok_iff.mpr ⟨rfl, hs, hn⟩

/-! ## Display texts -/

namespace IsChecked

variable {m : Method}

theorem relative_display (h : m.IsChecked) : Relative m.display m.display :=
  .of_sides h.service.ne_empty h.service.no_slash m.name

theorem names (h : m.IsChecked) {path : String} (hpath : Relative path m.display) :
    Names path m := by
  have htrim : (⟨Text.trim m.service, Text.trim m.name⟩ : Method) = m := by
    rw [h.service.trim_eq, h.name.trim_eq]
  have hsides : IsName (Text.trim m.service) ∧ IsName (Text.trim m.name) := by
    rw [h.service.trim_eq, h.name.trim_eq]
    exact ⟨h.service, h.name⟩
  rw [← htrim]
  exact .sides hpath h.service.no_slash hsides.1 hsides.2

theorem ofPath_display (h : m.IsChecked) :
    ofPath m.display = .ok m ∧ ofPath ("/" ++ m.display) = .ok m :=
  ⟨ofPath_eq_ok_iff.mpr (h.names h.relative_display),
    ofPath_eq_ok_iff.mpr (h.names (.rooted m.display))⟩

end IsChecked

/-- A method that was made from names, or read from a path. -/
def Accepted (m : Method) : Prop :=
  (∃ service name, ofNames service name = .ok m) ∨ ∃ path, ofPath path = .ok m

theorem accepted_iff {m : Method} : m.Accepted ↔ m.IsChecked := by
  constructor
  · rintro (⟨service, name, h⟩ | ⟨path, h⟩)
    · exact (ofNames_eq_ok_iff.mp h).2
    · cases ofPath_eq_ok_iff.mp h with
      | sides _ _ hs hn => exact ⟨hs, hn⟩
  · intro h
    exact .inr ⟨m.display, h.ofPath_display.1⟩

/-- A path is read exactly when it names a method, and as the method that it names. Reading undoes
displaying: an accepted method is read from its display text, also behind a slash, and made from
its own names. So no two accepted methods are displayed alike. -/
theorem ofPath_inverts_display :
    (∀ path m, ofPath path = .ok m ↔ Names path m) ∧
    (∀ m, Accepted m →
      ofPath m.display = .ok m ∧ ofPath ("/" ++ m.display) = .ok m ∧
        ofNames m.service m.name = .ok m) ∧
    ∀ m₁ m₂, Accepted m₁ → Accepted m₂ → m₁.display = m₂.display → m₁ = m₂ := by
  refine ⟨fun path m => ofPath_eq_ok_iff, ?_, ?_⟩
  · intro m hm
    have h := accepted_iff.mp hm
    obtain ⟨hdisplay, hrooted⟩ := h.ofPath_display
    refine ⟨hdisplay, hrooted, ofNames_eq_ok_iff.mpr ⟨?_, h⟩⟩
    rw [h.service.trim_eq, h.name.trim_eq]
  · intro m₁ m₂ hm₁ hm₂ heq
    have h₁ := (accepted_iff.mp hm₁).ofPath_display.1
    have h₂ := (accepted_iff.mp hm₂).ofPath_display.1
    rw [heq, h₂] at h₁
    exact (Except.ok.inj h₁).symm

/-- Blanks of any kind may stand around the names, and only one slash in front of them. -/
example : ofPath "/svc.Foo\u3000/ Bar\t" = .ok ⟨"svc.Foo", "Bar"⟩ ∧
    (ofPath "//svc.Foo/Bar").toBool = false := by
  decide +kernel

end CallGuard.Method
