import Mathlib
import CallGuard.Proofs.Text

/-! # Lists written as texts

Several texts are written as one with a separator or with blanks between them. Blanks around each
of them do not count, so that one list has many texts. All of them are read as the list. -/

namespace CallGuard.Text

/-! ## Blanks around a text -/

def AllBlank (s : String) : Prop :=
  ∀ c ∈ s.toList, isBlank c = true

/-- A text has no blank at either end; the empty text is one of these. -/
structure IsTight (s : String) : Prop where
  first : ∀ c, s.toList.head? = some c → isBlank c = false
  last : ∀ c, s.toList.getLast? = some c → isBlank c = false

/-- A text with any blanks around it. -/
inductive Padded (s : String) : String → Prop where
  | intro {front back : String} (hfront : AllBlank front) (hback : AllBlank back) :
      Padded s (front ++ s ++ back)

-- only the characters of the text are looked at
instance (s : String) : Decidable (AllBlank s) :=
  List.decidableBAll _ _

theorem allBlank_empty : AllBlank "" := by
  simp [AllBlank]

theorem Padded.refl (s : String) : Padded s s := by
  have h : Padded s ("" ++ s ++ "") := .intro allBlank_empty allBlank_empty
  rwa [String.empty_append, String.append_empty] at h

theorem IsTight.trim_eq {s : String} (h : IsTight s) : trim s = s :=
  trim_eq_self_of_ends h.first h.last

theorem Padded.trim_eq {s t : String} (h : Padded s t) : trim t = trim s := by
  cases h with
  | intro hfront hback => rw [trim_append_blank hback, trim_blank_append hfront]

theorem Padded.trimNonempty?_eq {s t : String} (h : Padded s t) (hs : IsTrimmed s) :
    trimNonempty? t = some s := by
  have hself := hs.trimNonempty?_eq
  rw [trimNonempty?] at hself ⊢
  rwa [h.trim_eq]

theorem Chars.isBlank_of_head?_dropWhile {cs : List Char} {c : Char}
    (h : (cs.dropWhile isBlank).head? = some c) : isBlank c = false := by
  have hstop := List.head?_dropWhile_not isBlank cs
  rw [h] at hstop
  simpa using hstop

theorem isTight_trim (s : String) : IsTight (trim s) := by
  have hprefix : Chars.trim s.toList <+: s.toList.dropWhile isBlank := by
    rw [Chars.trim, ← List.reverse_suffix, List.reverse_reverse]
    exact List.dropWhile_suffix isBlank
  refine ⟨fun c hc => ?_, fun c hc => ?_⟩
  · rw [trim, String.toList_ofList] at hc
    obtain ⟨rest, hrest⟩ := hprefix
    have hhead : (s.toList.dropWhile isBlank).head? = some c := by
      rw [← hrest, List.head?_append, hc]
      rfl
    exact Chars.isBlank_of_head?_dropWhile hhead
  · rw [trim, String.toList_ofList, Chars.trim, List.getLast?_reverse] at hc
    exact Chars.isBlank_of_head?_dropWhile hc

theorem isTight_iff {s : String} : IsTight s ↔ trim s = s :=
  ⟨IsTight.trim_eq, fun h => h ▸ isTight_trim s⟩

instance (s : String) : Decidable (IsTight s) :=
  decidable_of_iff _ isTight_iff.symm

/-- What trimming leaves is the text that stands between the blanks. -/
theorem trimNonempty?_eq_some_iff {s t : String} :
    trimNonempty? t = some s ↔ Padded s t ∧ IsTrimmed s := by
  constructor
  · intro h
    rw [trimNonempty?] at h
    split at h
    next => cases h
    next hne =>
      obtain rfl := Option.some.inj h
      obtain ⟨front, back, ht, hfront, hback⟩ := exists_eq_append_trim t
      have htight := isTight_trim t
      refine ⟨?_, ⟨by simpa using hne, htight.first, htight.last⟩⟩
      have hpadded : Padded (trim t) (front ++ trim t ++ back) := .intro hfront hback
      rwa [← ht] at hpadded
  · rintro ⟨hpadded, hs⟩
    exact hpadded.trimNonempty?_eq hs

theorem isTrimmed_iff {s : String} : IsTrimmed s ↔ trimNonempty? s = some s :=
  ⟨IsTrimmed.trimNonempty?_eq, fun h => (trimNonempty?_eq_some_iff.mp h).2⟩

instance (s : String) : Decidable (IsTrimmed s) :=
  decidable_of_iff _ isTrimmed_iff.symm

/-- A character that is not blank stands in the text itself. -/
theorem Padded.mem {s t : String} (h : Padded s t) {c : Char} (hc : isBlank c = false)
    (hmem : c ∈ t.toList) : c ∈ s.toList := by
  cases h with
  | intro hfront hback =>
      rw [String.toList_append, String.toList_append, List.mem_append, List.mem_append] at hmem
      rcases hmem with (hmem | hmem) | hmem
      · exact absurd (hfront c hmem) (by simp [hc])
      · exact hmem
      · exact absurd (hback c hmem) (by simp [hc])

/-! ## Separators -/

/-- Texts without the separator are parted again where they were joined. -/
theorem split_join {separator : Char} {ss : List String} (hne : ss ≠ [])
    (h : ∀ s ∈ ss, separator ∉ s.toList) :
    split separator (join (String.singleton separator) ss) = ss := by
  have hplain {s : String} (hs : separator ∉ s.toList) :
      Chars.pieces (· == separator) s.toList = [s.toList] := by
    apply Chars.pieces_of_not
    intro c hc
    exact beq_false_of_ne fun heq => hs (heq ▸ hc)
  induction ss with
  | nil => exact absurd rfl hne
  | cons s rest ih =>
      obtain ⟨hs, hrest⟩ := List.forall_mem_cons.mp h
      cases rest with
      | nil => simp [split, join, hplain hs]
      | cons t rest =>
          have hchars := toList_join_cons_cons (String.singleton separator) s t rest
          rw [String.toList_singleton, List.append_assoc, List.singleton_append] at hchars
          have hcut : ∀ cs ds : List Char, Chars.pieces (· == separator) (cs ++ separator :: ds) =
              Chars.pieces (· == separator) cs ++ Chars.pieces (· == separator) ds :=
            Chars.pieces_append_cons (beq_self_eq_true separator)
          have hlater := ih (List.cons_ne_nil t rest) hrest
          rw [split] at hlater ⊢
          rw [hchars, hcut, hplain hs, List.map_append, hlater]
          simp

/-- A text that lists some texts with a separator between them and any blanks around each. -/
inductive Lists (separator : Char) (ss : List String) : String → Prop where
  | intro {pieces : List String} (h : List.Forall₂ Padded ss pieces) :
      Lists separator ss (join (String.singleton separator) pieces)

theorem notMem_of_padded {separator : Char} (hblank : isBlank separator = false)
    {ss pieces : List String} (h : List.Forall₂ Padded ss pieces)
    (hplain : ∀ s ∈ ss, separator ∉ s.toList) : ∀ piece ∈ pieces, separator ∉ piece.toList := by
  induction h with
  | nil => exact List.forall_mem_nil _
  | cons hpiece _ ih =>
      obtain ⟨hs, hrest⟩ := List.forall_mem_cons.mp hplain
      exact List.forall_mem_cons.mpr ⟨fun hmem => hs (hpiece.mem hblank hmem), ih hrest⟩

section

variable {α : Type} {write : α → String} {read : String → Option α} {items : List α}

theorem filterMap_padded {pieces : List String}
    (h : List.Forall₂ Padded (items.map write) pieces)
    (hread : ∀ a ∈ items, ∀ piece, Padded (write a) piece → read piece = some a) :
    pieces.filterMap read = items := by
  rw [List.forall₂_map_left_iff] at h
  induction h with
  | nil => rfl
  | cons hpiece _ ih =>
      obtain ⟨hfirst, hrest⟩ := List.forall_mem_cons.mp hread
      rw [List.filterMap_cons, hfirst _ hpiece, ih hrest]

/-- Items that are written without the separator are read back from a text that lists them, when
each of them is read back with blanks around it. -/
theorem Lists.filterMap_split {separator : Char} (hblank : isBlank separator = false) {t : String}
    (h : Lists separator (items.map write) t) (hplain : ∀ a ∈ items, separator ∉ (write a).toList)
    (hread : ∀ a ∈ items, ∀ piece, Padded (write a) piece → read piece = some a)
    (hempty : read "" = none) : (split separator t).filterMap read = items := by
  cases h with
  | @intro pieces hpieces =>
      cases pieces with
      | nil =>
          -- an empty list is written as one empty piece
          obtain rfl : items = [] := List.map_eq_nil_iff.mp (List.forall₂_nil_right_iff.mp hpieces)
          simp [split, join, Chars.pieces, hempty]
      | cons piece rest =>
          have hnone := notMem_of_padded hblank hpieces (by simpa using hplain)
          rw [split_join (List.cons_ne_nil piece rest) hnone, filterMap_padded hpieces hread]

end

/-! ## Words -/

/-- A word is not empty and has no blanks. -/
structure IsWord (s : String) : Prop where
  nonempty : s ≠ ""
  no_blank : ∀ c ∈ s.toList, isBlank c = false

theorem isWord_iff {s : String} : IsWord s ↔ s ≠ "" ∧ ∀ c ∈ s.toList, isBlank c = false :=
  ⟨fun h => ⟨h.nonempty, h.no_blank⟩, fun h => ⟨h.1, h.2⟩⟩

instance (s : String) : Decidable (IsWord s) :=
  @decidable_of_iff _ _ isWord_iff.symm (@instDecidableAnd _ _ _ (List.decidableBAll _ _))

/-- Words one after the other, each with blanks in front if any and with a blank behind it unless
the text ends there. -/
inductive IsRow : List String → String → Prop where
  | blank {s} (h : AllBlank s) : IsRow [] s
  | word {front w ws s} (hfront : AllBlank front) (hw : IsWord w)
      (hgap : ∀ c, s.toList.head? = some c → isBlank c = true) (h : IsRow ws s) :
      IsRow (w :: ws) (front ++ w ++ s)

/-- A word ends at the first blank. -/
theorem words_word_append {w s : String} (hw : IsWord w)
    (hgap : ∀ c, s.toList.head? = some c → isBlank c = true) :
    words (w ++ s) = w :: words s := by
  have hpieces : Chars.pieces isBlank w.toList = [w.toList] := Chars.pieces_of_not hw.no_blank
  have hne : w.toList ≠ [] := by simpa using hw.nonempty
  rw [words, words, String.toList_append]
  cases hs : s.toList with
  | nil => simp [Chars.words, Chars.pieces, hpieces, hne]
  | cons c cs =>
      have hc : isBlank c = true := hgap c (by rw [hs]; rfl)
      simp [Chars.words, Chars.pieces_append_cons hc, Chars.pieces, hpieces, hc, hne]

theorem words_blank_append {front : String} (hfront : AllBlank front) (s : String) :
    words (front ++ s) = words s := by
  rw [words, words, String.toList_append, Chars.words_blanks_append hfront]

theorem IsRow.words_eq {ws : List String} {s : String} (h : IsRow ws s) : words s = ws := by
  induction h with
  | @blank s h =>
      have hblank := words_blank_append h ""
      rwa [String.append_empty, words_empty] at hblank
  | word hfront hw hgap _ ih =>
      rw [String.append_assoc, words_blank_append hfront, words_word_append hw hgap, ih]

/-! ## Case -/

theorem utf8Size_eq_one {c : Char} (h : c.toNat ≤ 127) : c.utf8Size = 1 := by
  rw [Char.utf8Size, if_pos]
  exact UInt32.le_iff_toNat_le.mpr h

theorem utf8Size_toLower (c : Char) : c.toLower.utf8Size = c.utf8Size := by
  rw [Char.toLower]
  split
  next h =>
    simp only [ge_iff_le, UInt32.le_iff_toNat_le] at h
    have hhigh : c.toNat ≤ 90 := h.2
    have hlower : (c.toNat + 32) % 2 ^ 32 ≤ 127 := by omega
    rw [utf8Size_eq_one (Nat.le_trans hhigh (by decide)), utf8Size_eq_one]
    simpa using hlower
  next => rfl

/-- A letter has the same number of bytes in both cases. -/
theorem utf8ByteSize_lower (s : String) : (lower s).utf8ByteSize = s.utf8ByteSize := by
  have hlen (cs : List Char) : String.utf8Len (cs.map Char.toLower) = String.utf8Len cs := by
    induction cs with
    | nil => rfl
    | cons c cs ih =>
        rw [List.map_cons, String.utf8Len_cons, String.utf8Len_cons, ih, utf8Size_toLower]
  rw [lower, String.utf8ByteSize_ofList, hlen, ← String.utf8ByteSize_ofList, String.ofList_toList]

end CallGuard.Text
