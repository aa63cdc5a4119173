import CallGuard.Text
import Mathlib.Data.List.TakeWhile
import Mathlib.Data.String.Basic

/-! # Laws of text -/

namespace CallGuard.Text

/-- A text is read back from its bytes. -/
theorem fromUTF8?_toUTF8 (s : String) : String.fromUTF8? s.toUTF8 = some s :=
  dif_pos s.isValidUTF8

/-- The visible characters of ASCII are not blank. -/
theorem not_blank_of_visible {c : Char} (hlow : 33 ≤ c.toNat) (hhigh : c.toNat ≤ 126) :
    isBlank c = false := by
  simp [isBlank, blankRanges]
  omega

/-! ## Trimming -/

theorem Chars.dropWhile_isBlank_eq_self {cs : List Char}
    (h : ∀ c, cs.head? = some c → isBlank c = false) : cs.dropWhile isBlank = cs := by
  cases cs with
  | nil => rfl
  | cons c cs => simp [h c rfl]

/-- Trimming looks at the ends only. -/
theorem trim_eq_self_of_ends {s : String}
    (hfirst : ∀ c, s.toList.head? = some c → isBlank c = false)
    (hlast : ∀ c, s.toList.getLast? = some c → isBlank c = false) : trim s = s := by
  have hreverse : ∀ c, s.toList.reverse.head? = some c → isBlank c = false := by
    intro c hc
    rw [List.head?_reverse] at hc
    exact hlast c hc
  rw [trim, Chars.trim, Chars.dropWhile_isBlank_eq_self hfirst,
    Chars.dropWhile_isBlank_eq_self hreverse, List.reverse_reverse, String.ofList_toList]

/-- Only blanks can be trimmed. -/
theorem trim_eq_self {s : String} (h : ∀ c ∈ s.toList, isBlank c = false) : trim s = s :=
  trim_eq_self_of_ends (fun c hc => h c (List.mem_of_head? hc))
    fun c hc => h c (List.mem_of_getLast? hc)

/-- Blanks around a text do not count. -/
theorem Chars.trim_append {front cs back : List Char} (hfront : ∀ c ∈ front, isBlank c = true)
    (hback : ∀ c ∈ back, isBlank c = true) : trim (front ++ cs ++ back) = trim cs := by
  have hreverse : ∀ c ∈ back.reverse, isBlank c = true := fun c hc =>
    hback c (List.mem_reverse.mp hc)
  rw [trim, List.append_assoc, List.dropWhile_append_of_pos hfront, List.dropWhile_append]
  split
  next hempty =>
    have hnone : back.dropWhile isBlank = [] := List.dropWhile_eq_nil_iff.mpr hback
    rw [hnone, trim, List.isEmpty_iff.mp hempty]
  next => rw [List.reverse_append, List.dropWhile_append_of_pos hreverse, trim]

theorem trim_blank_append {front : String} (hfront : ∀ c ∈ front.toList, isBlank c = true)
    (s : String) : trim (front ++ s) = trim s := by
  have htrim : Chars.trim (front.toList ++ s.toList ++ []) = Chars.trim s.toList :=
    Chars.trim_append hfront (List.forall_mem_nil _)
  rw [List.append_nil] at htrim
  rw [trim, String.toList_append, htrim, trim]

theorem trim_append_blank {back : String} (hback : ∀ c ∈ back.toList, isBlank c = true)
    (s : String) : trim (s ++ back) = trim s := by
  have htrim : Chars.trim ([] ++ s.toList ++ back.toList) = Chars.trim s.toList :=
    Chars.trim_append (List.forall_mem_nil _) hback
  rw [List.nil_append] at htrim
  rw [trim, String.toList_append, htrim, trim]

/-- Trimming takes blanks off both ends and leaves the rest as it is. -/
theorem exists_eq_append_trim (s : String) :
    ∃ front back, s = front ++ trim s ++ back ∧ (∀ c ∈ front.toList, isBlank c = true) ∧
      ∀ c ∈ back.toList, isBlank c = true := by
  have htake (cs : List Char) : ∀ c ∈ cs.takeWhile isBlank, isBlank c = true :=
    List.all_eq_true.mp List.all_takeWhile
  refine ⟨.ofList (s.toList.takeWhile isBlank),
    .ofList ((s.toList.dropWhile isBlank).reverse.takeWhile isBlank).reverse, ?_, ?_, ?_⟩
  · apply String.toList_inj.mp
    simp only [trim, Chars.trim, String.toList_append, String.toList_ofList]
    rw [List.append_assoc, ← List.reverse_append, List.takeWhile_append_dropWhile,
      List.reverse_reverse, List.takeWhile_append_dropWhile]
  · simpa using htake s.toList
  · simpa using htake (s.toList.dropWhile isBlank).reverse

theorem trim_trim (s : String) : trim (trim s) = trim s := by
  obtain ⟨front, back, hs, hfront, hback⟩ := exists_eq_append_trim s
  conv_rhs => rw [hs, trim_append_blank hback, trim_blank_append hfront]

/-- A text that is not empty and has blanks at neither end. -/
structure IsTrimmed (s : String) : Prop where
  nonempty : s ≠ ""
  first : ∀ c, s.toList.head? = some c → isBlank c = false
  last : ∀ c, s.toList.getLast? = some c → isBlank c = false

theorem isTrimmed_of_ends {s : String} {first last : Char} (hfirst : s.toList.head? = some first)
    (hlast : s.toList.getLast? = some last) (hf : isBlank first = false)
    (hl : isBlank last = false) : IsTrimmed s := by
  refine ⟨?_, fun c hc => ?_, fun c hc => ?_⟩
  · rintro rfl
    cases hfirst
  · rw [hfirst] at hc
    exact Option.some.inj hc ▸ hf
  · rw [hlast] at hc
    exact Option.some.inj hc ▸ hl

theorem IsTrimmed.trimNonempty?_eq {s : String} (h : IsTrimmed s) : trimNonempty? s = some s := by
  rw [trimNonempty?, trim_eq_self_of_ends h.first h.last]
  simp [h.nonempty]

/-! ## Cutting -/

theorem Chars.cutLast?_eq_some_iff {separator : Char} {cs before rest : List Char} :
    cutLast? separator cs = some (before, rest) ↔
      cs = before ++ separator :: rest ∧ separator ∉ rest := by
  rw [cutLast?, Option.map_eq_some_iff]
  constructor
  · rintro ⟨⟨after, front⟩, hcut, hpair⟩
    obtain ⟨rfl, rfl⟩ := Prod.mk.inj hpair
    obtain ⟨hreverse, hnot⟩ := cut?_eq_some_iff.mp hcut
    refine ⟨?_, by simpa using hnot⟩
    rw [← List.reverse_reverse cs, hreverse]
    simp
  · rintro ⟨rfl, hnot⟩
    refine ⟨(rest.reverse, before.reverse), cut?_eq_some_iff.mpr ⟨by simp, by simpa using hnot⟩, ?_⟩
    simp

/-- The last cut parts a text at a separator after which there is no other. -/
theorem cutLast?_eq_some_iff {separator : Char} {s before rest : String} :
    cutLast? separator s = some (before, rest) ↔
      s = before ++ String.singleton separator ++ rest ∧ separator ∉ rest.toList := by
  rw [cutLast?, Option.map_eq_some_iff]
  constructor
  · rintro ⟨⟨front, back⟩, hcut, hpair⟩
    obtain ⟨rfl, rfl⟩ := Prod.mk.inj hpair
    obtain ⟨hs, hnot⟩ := Chars.cutLast?_eq_some_iff.mp hcut
    refine ⟨?_, by simpa using hnot⟩
    apply String.toList_inj.mp
    simpa using hs
  · rintro ⟨rfl, hnot⟩
    refine ⟨(before.toList, rest.toList), Chars.cutLast?_eq_some_iff.mpr ⟨by simp, hnot⟩, ?_⟩
    simp

/-- The first cut parts a text at a separator before which there is no other. -/
theorem cut?_eq_some_iff {separator : Char} {s before rest : String} :
    cut? separator s = some (before, rest) ↔
      s = before ++ String.singleton separator ++ rest ∧ separator ∉ before.toList := by
  rw [cut?, Option.map_eq_some_iff]
  constructor
  · rintro ⟨⟨front, back⟩, hcut, hpair⟩
    obtain ⟨rfl, rfl⟩ := Prod.mk.inj hpair
    obtain ⟨hs, hnot⟩ := Chars.cut?_eq_some_iff.mp hcut
    refine ⟨?_, by simpa using hnot⟩
    apply String.toList_inj.mp
    simpa using hs
  · rintro ⟨rfl, hnot⟩
    refine ⟨(before.toList, rest.toList), Chars.cut?_eq_some_iff.mpr ⟨by simp, hnot⟩, ?_⟩
    simp

/-- The first slash of a text parts it. -/
theorem cut?_slash_eq_some_iff {s before rest : String} :
    cut? '/' s = some (before, rest) ↔ s = before ++ "/" ++ rest ∧ '/' ∉ before.toList :=
  cut?_eq_some_iff

/-! ## Words -/

namespace Chars

variable {isSeparator : Char → Bool}

theorem pieces_of_not {cs : List Char} (h : ∀ c ∈ cs, isSeparator c = false) :
    pieces isSeparator cs = [cs] := by
  induction cs with
  | nil => rfl
  | cons c cs ih =>
      obtain ⟨hc, hcs⟩ := List.forall_mem_cons.mp h
      rw [pieces, ih hcs]
      simp [hc]

/-- A separator parts the pieces before it from those after it. -/
theorem pieces_append_cons {separator : Char} (h : isSeparator separator = true)
    (cs rest : List Char) :
    pieces isSeparator (cs ++ separator :: rest) =
      pieces isSeparator cs ++ pieces isSeparator rest := by
  induction cs with
  | nil => simp [pieces, h]
  | cons c cs ih =>
      rw [List.cons_append, pieces, pieces, ih]
      by_cases hc : isSeparator c = true
      · rw [if_pos hc, if_pos hc, List.cons_append]
      · rw [if_neg hc, if_neg hc]
        cases hp : pieces isSeparator cs with
        | nil => exact absurd hp (pieces_ne_nil isSeparator cs)
        | cons p ps => rfl

/-- A single piece is the whole text. -/
theorem eq_of_pieces_eq_singleton {cs p : List Char} (h : pieces isSeparator cs = [p]) :
    cs = p := by
  induction cs generalizing p with
  | nil => simpa [pieces] using h
  | cons c cs ih =>
      rw [pieces] at h
      split at h
      next => exact absurd (List.cons.inj h).2 (pieces_ne_nil isSeparator cs)
      next =>
        cases hq : pieces isSeparator cs with
        | nil => exact absurd hq (pieces_ne_nil isSeparator cs)
        | cons q qs =>
            rw [hq] at h ih
            obtain ⟨rfl, rfl⟩ := List.cons.inj h
            rw [ih rfl]

/-- Behind the first of several pieces stands a separator. -/
theorem exists_of_pieces_eq_cons_cons {cs p q : List Char} {qs : List (List Char)}
    (h : pieces isSeparator cs = p :: q :: qs) :
    ∃ separator rest, isSeparator separator = true ∧ cs = p ++ separator :: rest ∧
      pieces isSeparator rest = q :: qs := by
  induction cs generalizing p with
  | nil => simp [pieces] at h
  | cons c cs ih =>
      rw [pieces] at h
      split at h
      next hc =>
        obtain ⟨rfl, hrest⟩ := List.cons.inj h
        exact ⟨c, cs, hc, rfl, hrest⟩
      next =>
        cases hp : pieces isSeparator cs with
        | nil => exact absurd hp (pieces_ne_nil isSeparator cs)
        | cons p' ps =>
            rw [hp] at h ih
            obtain ⟨rfl, rfl⟩ := List.cons.inj h
            obtain ⟨separator, rest, hseparator, rfl, hrest⟩ := ih rfl
            exact ⟨separator, rest, hseparator, rfl, hrest⟩

end Chars

theorem words_empty : words "" = [] := rfl

/-- A blank-free text is a word by itself. -/
theorem words_of_not_blank {s : String} (hne : s ≠ "") (h : ∀ c ∈ s.toList, isBlank c = false) :
    words s = [s] := by
  have hcs : s.toList ≠ [] := by simpa using hne
  rw [words, Chars.words, Chars.pieces_of_not h]
  simp [hcs]

theorem Chars.not_of_mem_pieces {isSeparator : Char → Bool} {cs p : List Char}
    (hp : p ∈ pieces isSeparator cs) {c : Char} (hc : c ∈ p) : isSeparator c = false := by
  induction cs generalizing p with
  | nil =>
      obtain rfl : p = [] := by simpa [pieces] using hp
      exact absurd hc List.not_mem_nil
  | cons d cs ih =>
      rw [pieces] at hp
      split at hp
      next hd =>
        rcases List.mem_cons.mp hp with rfl | hp
        · exact absurd hc List.not_mem_nil
        · exact ih hp hc
      next hd =>
        cases hq : pieces isSeparator cs with
        | nil => exact absurd hq (pieces_ne_nil isSeparator cs)
        | cons q qs =>
            rw [hq] at hp ih
            rcases List.mem_cons.mp hp with rfl | hp
            · rcases List.mem_cons.mp hc with rfl | hc
              · simpa using hd
              · exact ih List.mem_cons_self hc
            · exact ih (List.mem_cons_of_mem q hp) hc

/-- A word is not empty and has no blanks. -/
theorem not_blank_of_mem_words {s w : String} (h : w ∈ words s) :
    w ≠ "" ∧ ∀ c ∈ w.toList, isBlank c = false := by
  obtain ⟨cs, hcs, rfl⟩ := List.mem_map.mp h
  obtain ⟨hpiece, hne⟩ := List.mem_filter.mp hcs
  refine ⟨by simpa using hne, fun c hc => ?_⟩
  rw [String.toList_ofList] at hc
  exact Chars.not_of_mem_pieces hpiece hc

/-- Words do not fall apart any further. -/
theorem flatMap_words_eq_self {ws : List String}
    (h : ∀ w ∈ ws, w ≠ "" ∧ ∀ c ∈ w.toList, isBlank c = false) : ws.flatMap words = ws := by
  induction ws with
  | nil => rfl
  | cons w ws ih =>
      obtain ⟨hw, hrest⟩ := List.forall_mem_cons.mp h
      rw [List.flatMap_cons, words_of_not_blank hw.1 hw.2, ih hrest, List.singleton_append]

theorem words_append_blank (s t : String) : words (s ++ " " ++ t) = words s ++ words t := by
  have hblank : isBlank ' ' = true := by decide
  have hchars : (s ++ " " ++ t).toList = s.toList ++ ' ' :: t.toList := by simp
  rw [words, hchars, Chars.words, Chars.pieces_append_cons hblank, List.filter_append,
    List.map_append]
  rfl

/-- Texts that are joined by spaces have the words of all of them. -/
theorem words_join (ss : List String) : words (join " " ss) = ss.flatMap words := by
  induction ss with
  | nil => exact words_empty
  | cons s rest ih =>
      cases rest with
      | nil => rw [join, List.flatMap_singleton]
      | cons t rest =>
          have hjoin : join " " (s :: t :: rest) = s ++ " " ++ join " " (t :: rest) := rfl
          rw [hjoin, words_append_blank, ih, ← List.flatMap_cons]

/-- Blanks at the end of a text add no words. -/
theorem Chars.words_append_blanks {bs : List Char} (hbs : ∀ b ∈ bs, isBlank b = true)
    (cs : List Char) : words (cs ++ bs) = words cs := by
  induction bs generalizing cs with
  | nil => rw [List.append_nil]
  | cons b bs ih =>
      obtain ⟨hb, hrest⟩ := List.forall_mem_cons.mp hbs
      have hnone : words bs = [] := ih hrest []
      rw [words, pieces_append_cons hb, List.filter_append]
      change words cs ++ words bs = words cs
      rw [hnone, List.append_nil]

/-- Nor do blanks at the start. -/
theorem Chars.words_blanks_append {bs : List Char} (hbs : ∀ b ∈ bs, isBlank b = true)
    (cs : List Char) : words (bs ++ cs) = words cs := by
  induction bs with
  | nil => rfl
  | cons b bs ih =>
      obtain ⟨hb, hrest⟩ := List.forall_mem_cons.mp hbs
      rw [← ih hrest]
      simp [words, pieces, hb]

theorem words_trim (s : String) : words (trim s) = words s := by
  obtain ⟨front, back, hs, hfront, hback⟩ := exists_eq_append_trim s
  have hchars : s.toList = front.toList ++ (trim s).toList ++ back.toList := by
    conv_lhs => rw [hs, String.toList_append, String.toList_append]
  rw [words, words, hchars, Chars.words_append_blanks hback, Chars.words_blanks_append hfront]

/-- A text that trimming leaves nothing of has no words. -/
theorem getD_map_words_trimNonempty? (s : String) :
    ((trimNonempty? s).map words).getD [] = words s := by
  rw [trimNonempty?, ← words_trim s]
  by_cases h : trim s = ""
  · simp [h, words_empty]
  · simp [h]

theorem toList_join_cons_cons (separator s t : String) (rest : List String) :
    (join separator (s :: t :: rest)).toList =
      s.toList ++ separator.toList ++ (join separator (t :: rest)).toList := by
  rw [join, String.toList_append, String.toList_append]
  exact List.cons_ne_nil t rest

theorem toList_join_cons {ss : List String} (h : ss ≠ []) (s : String) :
    (join " " (s :: ss)).toList = s.toList ++ ' ' :: (join " " ss).toList := by
  obtain ⟨t, rest, rfl⟩ := List.exists_cons_of_ne_nil h
  rw [toList_join_cons_cons, List.append_assoc]
  rfl

theorem mem_join {ss : List String} {c : Char} (h : c ∈ (join " " ss).toList) :
    c = ' ' ∨ ∃ s ∈ ss, c ∈ s.toList := by
  induction ss with
  | nil => exact absurd h (by simp [join])
  | cons s rest ih =>
      cases rest with
      | nil => exact .inr ⟨s, List.mem_singleton_self s, h⟩
      | cons t rest =>
          rw [toList_join_cons (List.cons_ne_nil t rest), List.mem_append, List.mem_cons] at h
          rcases h with hs | rfl | hrest
          · exact .inr ⟨s, List.mem_cons_self, hs⟩
          · exact .inl rfl
          · exact (ih hrest).imp id fun ⟨u, hu, hc⟩ => ⟨u, List.mem_cons_of_mem s hu, hc⟩

/-! ## Words in a row -/

/-- A text with a space in the place of every blank. -/
def Chars.spaced (cs : List Char) : List Char :=
  cs.map fun c => if isBlank c then ' ' else c

/-- The pieces between blanks, joined again, are the text with spaces for blanks. -/
theorem toList_join_pieces (cs : List Char) :
    (join " " ((Chars.pieces isBlank cs).map String.ofList)).toList = Chars.spaced cs := by
  induction cs with
  | nil => rfl
  | cons c cs ih =>
      have hne := Chars.pieces_ne_nil isBlank cs
      rw [Chars.pieces]
      split
      next hc =>
        rw [List.map_cons, toList_join_cons (by simpa using hne), ih]
        simp [Chars.spaced, hc]
      next hc =>
        cases hp : Chars.pieces isBlank cs with
        | nil => exact absurd hp hne
        | cons p ps =>
            have hspaced : Chars.spaced (c :: cs) = c :: Chars.spaced cs := by
              simp [Chars.spaced, hc]
            rw [hspaced, ← ih, hp]
            cases ps with
            | nil => simp [join]
            | cons q ps => simp [join]

/-- A text that is left out takes a separator with it. -/
theorem toList_join_sublist {ss ts : List String} (h : ss.Sublist ts) :
    (join " " ss).toList.Sublist (join " " ts).toList := by
  induction h with
  | slnil => exact List.Sublist.refl _
  | @cons ss ts t h ih =>
      cases ts with
      | nil =>
          obtain rfl := List.sublist_nil.mp h
          exact List.nil_sublist _
      | cons u ts =>
          rw [toList_join_cons (List.cons_ne_nil u ts)]
          exact (ih.trans (List.sublist_cons_self ' ' _)).trans (List.sublist_append_right _ _)
  | @cons_cons ss ts t h ih =>
      cases ss with
      | nil =>
          cases ts with
          | nil => exact List.Sublist.refl _
          | cons u ts =>
              rw [toList_join_cons (List.cons_ne_nil u ts)]
              exact List.sublist_append_left _ _
      | cons s ss =>
          have hts : ts ≠ [] := List.ne_nil_of_mem (h.subset List.mem_cons_self)
          rw [toList_join_cons (List.cons_ne_nil s ss), toList_join_cons hts]
          exact (ih.cons_cons ' ').append_left _

/-- Some of the words of a text, joined, are shorter than it and made of its characters. -/
theorem toList_join_words_sublist {ss : List String} {s : String} (h : ss.Sublist (words s)) :
    (join " " ss).toList.Sublist (Chars.spaced s.toList) := by
  have hwords : (words s).Sublist ((Chars.pieces isBlank s.toList).map String.ofList) :=
    List.filter_sublist.map String.ofList
  rw [← toList_join_pieces]
  exact toList_join_sublist (h.trans hwords)

theorem utf8Len_spaced_le (cs : List Char) :
    String.utf8Len (Chars.spaced cs) ≤ String.utf8Len cs := by
  induction cs with
  | nil => exact Nat.le_refl _
  | cons c cs ih =>
      have hsize : (if isBlank c then ' ' else c).utf8Size ≤ c.utf8Size := by
        split
        next => exact c.utf8Size_pos
        next => exact Nat.le_refl _
      exact Nat.add_le_add ih hsize

theorem utf8ByteSize_join_words_le {ss : List String} {s : String} (h : ss.Sublist (words s)) :
    (join " " ss).utf8ByteSize ≤ s.utf8ByteSize := by
  have hlen (t : String) : t.utf8ByteSize = String.utf8Len t.toList := by
    rw [← String.utf8ByteSize_ofList, String.ofList_toList]
  rw [hlen, hlen]
  exact (String.utf8Len_le_of_sublist (toList_join_words_sublist h)).trans
    (utf8Len_spaced_le s.toList)

theorem mem_join_words {ss : List String} {s : String} (h : ss.Sublist (words s)) {c : Char}
    (hc : c ∈ (join " " ss).toList) : c = ' ' ∨ c ∈ s.toList := by
  obtain ⟨d, hd, rfl⟩ := List.mem_map.mp ((toList_join_words_sublist h).subset hc)
  split
  next => exact .inl rfl
  next => exact .inr hd

end CallGuard.Text
