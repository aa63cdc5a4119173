import CallGuard.Json.Decode
import CallGuard.Proofs.Json.Literals
import CallGuard.Proofs.Text

/-! # The grammar of JSON texts

A value has many spellings: blanks may stand between its parts, its strings may be escaped in many
ways, and an object may give a key several times. Every spelling is read as the value, provided
that its numbers are 64-bit integers. The reader is followed by its fuel: what it needs for a text
is at most the length of the text. -/

namespace CallGuard

/-! ## Spellings of values -/

namespace Json

def AllBlanks (cs : List Char) : Prop :=
  ∀ c ∈ cs, Document.isBlank c = true

instance (cs : List Char) : Decidable (AllBlanks cs) :=
  List.decidableBAll _ _

theorem allBlanks_nil : AllBlanks [] := by
  simp [AllBlanks]

/-- A text with any blanks around it. -/
inductive Spaced (t : List Char) : List Char → Prop where
  | intro {front back : List Char} (hfront : AllBlanks front) (hback : AllBlanks back) :
      Spaced t (front ++ t ++ back)

/-- What is spelled: a value, or what stands in an array or an object up to its closing bracket. -/
inductive Phrase where
  | value (v : Json)
  | items (vs : List Json)
  | members (ms : List (String × Json))

/-- The spellings of a phrase, with the depth to which arrays and objects are nested in them. Of
members with one key the last counts. -/
inductive Spells : Nat → Phrase → List Char → Prop where
  | null : Spells 0 (.value .null) ['n', 'u', 'l', 'l']
  | isTrue : Spells 0 (.value (.bool true)) ['t', 'r', 'u', 'e']
  | isFalse : Spells 0 (.value (.bool false)) ['f', 'a', 'l', 's', 'e']
  | integer {m : Int} (h : (Number.integer m).IsWord) :
      Spells 0 (.value (.number (.integer m))) (toString m).toList
  | string {s t} (h : SpellsString s t) : Spells 0 (.value (.string s)) t
  | emptyArray {t} (h : AllBlanks t) : Spells 1 (.value (.array [])) ('[' :: (t ++ [']']))
  | array {n vs t} (h : Spells n (.items vs) t) : Spells (n + 1) (.value (.array vs)) ('[' :: t)
  | emptyObject {t} (h : AllBlanks t) :
      Spells 1 (.value (.object [])) ('\x7b' :: (t ++ ['\x7d']))
  | object {n ms t} (h : Spells n (.members ms) t) :
      Spells (n + 1) (.value (.object (Members.ofList ms))) ('\x7b' :: t)
  | lastItem {n v t p} (h : Spells n (.value v) t) (hp : Spaced t p) :
      Spells n (.items [v]) (p ++ [']'])
  | item {n m v vs t p ts} (h : Spells n (.value v) t) (hp : Spaced t p)
      (hs : Spells m (.items vs) ts) : Spells (max n m) (.items (v :: vs)) (p ++ ',' :: ts)
  | lastMember {n k v q pq t p} (hk : SpellsString k q) (hq : Spaced q pq)
      (h : Spells n (.value v) t) (hp : Spaced t p) :
      Spells n (.members [(k, v)]) (pq ++ ':' :: (p ++ ['\x7d']))
  | member {n m k v ms q pq t p ts} (hk : SpellsString k q) (hq : Spaced q pq)
      (h : Spells n (.value v) t) (hp : Spaced t p) (hs : Spells m (.members ms) ts) :
      Spells (max n m) (.members ((k, v) :: ms)) (pq ++ ':' :: (p ++ ',' :: ts))

theorem Spaced.refl (t : List Char) : Spaced t t := by
  have h : Spaced t ([] ++ t ++ []) := .intro allBlanks_nil allBlanks_nil
  rwa [List.nil_append, List.append_nil] at h

theorem Spaced.length_le {t p : List Char} (h : Spaced t p) : t.length ≤ p.length := by
  cases h with
  | intro => simp only [List.length_append]; omega

end Json

namespace Document

open Json

/-! ## Blanks -/

theorem isBlank_iff {c : Char} :
    isBlank c = true ↔ c = ' ' ∨ c = '\t' ∨ c = '\n' ∨ c = '\r' := by
  simp [isBlank, or_assoc]

theorem skipBlanks_cons {c : Char} (h : isBlank c = false) (cs : List Char) :
    skipBlanks (c :: cs) = c :: cs := by
  rw [skipBlanks, List.dropWhile_cons_of_neg (by simp [h])]

theorem skipBlanks_append {bs : List Char} (h : AllBlanks bs) (cs : List Char) :
    skipBlanks (bs ++ cs) = skipBlanks cs := by
  rw [skipBlanks, List.dropWhile_append_of_pos h, skipBlanks]

theorem exists_skipBlanks_eq {t p : List Char} (hp : Spaced t p) : ∃ back, AllBlanks back ∧
    ∀ rest, skipBlanks (p ++ rest) = skipBlanks (t ++ (back ++ rest)) := by
  cases hp with
  | @intro front back hfront hback =>
      refine ⟨back, hback, fun rest => ?_⟩
      rw [List.append_assoc, List.append_assoc, skipBlanks_append hfront]

theorem skipBlanks_skipBlanks (cs : List Char) : skipBlanks (skipBlanks cs) = skipBlanks cs := by
  rw [skipBlanks, skipBlanks, List.dropWhile_idempotent]

theorem readValue_skipBlanks (fuel : Nat) (cs : List Char) :
    readValue fuel (skipBlanks cs) = readValue fuel cs := by
  cases fuel with
  | zero => simp [readValue]
  | succ fuel => rw [readValue, readValue, skipBlanks_skipBlanks]

theorem readItems_skipBlanks (fuel : Nat) (cs : List Char) :
    readItems fuel (skipBlanks cs) = readItems fuel cs := by
  cases fuel with
  | zero => simp [readItems]
  | succ fuel => rw [readItems, readItems, readValue_skipBlanks]

theorem readMembers_skipBlanks (fuel : Nat) (cs : List Char) :
    readMembers fuel (skipBlanks cs) = readMembers fuel cs := by
  cases fuel with
  | zero => simp [readMembers]
  | succ fuel => rw [readMembers, readMembers, skipBlanks_skipBlanks]

/-! ## Reading one level -/

theorem readValue_string {cs rest : List Char} {s : Quoted} (h : quoted? cs = some (s, rest))
    (fuel : Nat) : readValue (fuel + 1) ('"' :: cs) = (string s, some rest) := by
  rw [readValue, skipBlanks_cons rfl]
  simp only [h]

theorem IsNumeric.isBlank {c : Char} (h : IsNumeric c) : Document.isBlank c = false := by
  rw [Bool.eq_false_iff]
  intro hblank
  rcases isBlank_iff.mp hblank with rfl | rfl | rfl | rfl <;> exact h.ne (by decide) rfl

theorem readValue_numeric {c : Char} (hc : IsNumeric c) {cs rest : List Char} {n : Numeral}
    (h : numeral? (c :: cs) = some (n, rest)) (fuel : Nat) :
    readValue (fuel + 1) (c :: cs) = (number n, some rest) := by
  rw [readValue, skipBlanks_cons hc.isBlank]
  split
  next heq => exact absurd (List.cons.inj heq).1 (hc.ne (by decide))
  next heq => exact absurd (List.cons.inj heq).1 (hc.ne (by decide))
  next heq => exact absurd (List.cons.inj heq).1 (hc.ne (by decide))
  next heq => exact absurd (List.cons.inj heq).1 (hc.ne (by decide))
  next heq => exact absurd (List.cons.inj heq).1 (hc.ne (by decide))
  next heq => exact absurd (List.cons.inj heq).1 (hc.ne (by decide))
  next => rw [h]

/-- After its bracket an array goes on with its items, unless it is closed at once. -/
theorem readValue_array {c : Char} {cs rest : List Char} (h : skipBlanks cs = c :: rest)
    (hc : c ≠ ']') (fuel : Nat) :
    readValue (fuel + 1) ('[' :: cs) = (array (readItems fuel cs).1, (readItems fuel cs).2) := by
  rw [← readItems_skipBlanks fuel cs, readValue, skipBlanks_cons rfl]
  simp only [h]
  split
  next heq => exact absurd (List.cons.inj heq).1 hc
  next => rfl

theorem readValue_object {c : Char} {cs rest : List Char} (h : skipBlanks cs = c :: rest)
    (hc : c ≠ '\x7d') (fuel : Nat) :
    readValue (fuel + 1) ('\x7b' :: cs) =
      (object (readMembers fuel cs).1, (readMembers fuel cs).2) := by
  rw [← readMembers_skipBlanks fuel cs, readValue, skipBlanks_cons rfl]
  simp only [h]
  split
  next heq => exact absurd (List.cons.inj heq).1 hc
  next => rfl

theorem readItems_last {fuel : Nat} {cs r rest : List Char} {d : Document}
    (h : readValue fuel cs = (d, some r)) (hr : skipBlanks r = ']' :: rest) :
    readItems (fuel + 1) cs = ([d], some rest) := by
  rw [readItems, h]
  simp only [hr]

theorem readItems_more {fuel : Nat} {cs r rest : List Char} {d : Document}
    (h : readValue fuel cs = (d, some r)) (hr : skipBlanks r = ',' :: rest) :
    readItems (fuel + 1) cs = (d :: (readItems fuel rest).1, (readItems fuel rest).2) := by
  rw [readItems, h]
  simp only [hr]

/-- A key is read, and after its colon the rest is left. -/
def ReadsKey (k : Quoted) (cs rest : List Char) : Prop :=
  ∃ body r, skipBlanks cs = '"' :: body ∧ quoted? body = some (k, r) ∧ skipBlanks r = ':' :: rest

theorem readMembers_last {fuel : Nat} {k : Quoted} {cs next r rest : List Char} {d : Document}
    (hk : ReadsKey k cs next) (h : readValue fuel next = (d, some r))
    (hr : skipBlanks r = '\x7d' :: rest) :
    readMembers (fuel + 1) cs = ([(k, d)], some rest) := by
  obtain ⟨body, r', hbody, hquoted, hcolon⟩ := hk
  rw [readMembers, hbody]
  simp only [hquoted, hcolon, h, hr]

theorem readMembers_more {fuel : Nat} {k : Quoted} {cs next r rest : List Char} {d : Document}
    (hk : ReadsKey k cs next) (h : readValue fuel next = (d, some r))
    (hr : skipBlanks r = ',' :: rest) :
    readMembers (fuel + 1) cs =
      ((k, d) :: (readMembers fuel rest).1, (readMembers fuel rest).2) := by
  obtain ⟨body, r', hbody, hquoted, hcolon⟩ := hk
  rw [readMembers, hbody]
  simp only [hquoted, hcolon, h, hr]

/-! ## Meanings of documents -/

/-- A document stands for a value, wherever there is room for its nesting. -/
def Means (n : Nat) (d : Document) (v : Json) : Prop :=
  ∀ depth, d.value? depth = if n ≤ depth then some v else none

def MeanItems (n : Nat) (ds : List Document) (vs : List Json) : Prop :=
  ∀ depth, values? depth ds = if n ≤ depth then some vs else none

def MeanMembers (n : Nat) (ds : List (Quoted × Document)) (ms : List (String × Json)) : Prop :=
  ∀ depth, memberValues? depth ds = if n ≤ depth then some ms else none

theorem meanItems_nil : MeanItems 0 [] [] := by
  intro depth
  rw [values?, if_pos (Nat.zero_le depth)]

theorem meanMembers_nil : MeanMembers 0 [] [] := by
  intro depth
  rw [memberValues?, if_pos (Nat.zero_le depth)]

variable {n m : Nat} {d : Document} {v : Json}

theorem Means.cons {ds : List Document} {vs : List Json} (hd : Means n d v)
    (hds : MeanItems m ds vs) : MeanItems (max n m) (d :: ds) (v :: vs) := by
  intro depth
  rw [values?, hd depth, hds depth]
  by_cases hv : n ≤ depth <;> by_cases hvs : m ≤ depth <;> simp [hv, hvs]

theorem Means.consMember {ds : List (Quoted × Document)} {ms : List (String × Json)}
    (hd : Means n d v) (hds : MeanMembers m ds ms) (k : String) :
    MeanMembers (max n m) ((some k, d) :: ds) ((k, v) :: ms) := by
  intro depth
  rw [memberValues?, hd depth, hds depth]
  by_cases hv : n ≤ depth <;> by_cases hvs : m ≤ depth <;> simp [hv, hvs]

theorem MeanItems.array {ds : List Document} {vs : List Json} (h : MeanItems n ds vs) :
    Means (n + 1) (array ds) (.array vs) := by
  intro depth
  cases depth with
  | zero => rfl
  | succ depth =>
      rw [value?, h depth]
      by_cases hvs : n ≤ depth <;> simp [hvs]

theorem MeanMembers.object {ds : List (Quoted × Document)} {ms : List (String × Json)}
    (h : MeanMembers n ds ms) : Means (n + 1) (object ds) (.object (Members.ofList ms)) := by
  intro depth
  cases depth with
  | zero => rfl
  | succ depth =>
      rw [value?, h depth]
      by_cases hvs : n ≤ depth <;> simp [hvs]

/-! ## Reading all levels -/

/-- What the reader makes of the spelling of a phrase, whatever follows it. -/
def ReadsAs (fuel n : Nat) : Phrase → List Char → Prop
  | .value v, t => ∀ rest, Ends rest →
      ∃ d, readValue fuel (t ++ rest) = (d, some rest) ∧ Means n d v
  | .items vs, t => ∀ rest,
      ∃ ds, readItems fuel (t ++ rest) = (ds, some rest) ∧ MeanItems n ds vs
  | .members ms, t => ∀ rest,
      ∃ ds, readMembers fuel (t ++ rest) = (ds, some rest) ∧ MeanMembers n ds ms

/-- The characters that stand behind a value inside an array or an object. -/
def IsDelimiter (c : Char) : Prop :=
  c = ',' ∨ c = ']' ∨ c = '\x7d'

theorem IsDelimiter.isBlank {c : Char} (h : IsDelimiter c) : Document.isBlank c = false := by
  rcases h with rfl | rfl | rfl <;> rfl

/-- A number ends before a delimiter, and before blanks. -/
theorem IsDelimiter.ends {c : Char} (h : IsDelimiter c) (rest : List Char) : Ends (c :: rest) := by
  intro b hb
  obtain rfl : c = b := by simpa using hb
  rcases h with rfl | rfl | rfl <;> decide

theorem ends_append {back rest : List Char} (hback : AllBlanks back) (hrest : Ends rest) :
    Ends (back ++ rest) := by
  cases back with
  | nil => exact hrest
  | cons b back =>
      intro c hc
      obtain rfl : b = c := by simpa using hc
      rcases isBlank_iff.mp (hback b List.mem_cons_self) with rfl | rfl | rfl | rfl <;> decide

/-- Blanks around a value do not keep it from being read. -/
theorem ReadsAs.spaced {fuel : Nat} {t p : List Char} (h : ReadsAs fuel n (.value v) t)
    (hp : Spaced t p) {c : Char} (hc : IsDelimiter c) (rest : List Char) :
    ∃ d r, readValue fuel (p ++ c :: rest) = (d, some r) ∧ skipBlanks r = c :: rest ∧
      Means n d v := by
  obtain ⟨back, hback, hskip⟩ := exists_skipBlanks_eq hp
  obtain ⟨d, hd, hmeans⟩ := h (back ++ c :: rest) (ends_append hback (hc.ends rest))
  refine ⟨d, back ++ c :: rest, ?_, ?_, hmeans⟩
  · rw [← readValue_skipBlanks, hskip, readValue_skipBlanks, hd]
  · rw [skipBlanks_append hback, skipBlanks_cons hc.isBlank]

theorem readsKey {k : String} {q p : List Char} (hk : SpellsString k q) (hp : Spaced q p)
    (rest : List Char) : ReadsKey (some k) (p ++ ':' :: rest) rest := by
  obtain ⟨body, rfl, hquoted⟩ := exists_quoted hk
  obtain ⟨back, hback, hskip⟩ := exists_skipBlanks_eq hp
  refine ⟨body ++ (back ++ ':' :: rest), back ++ ':' :: rest, ?_, hquoted _, ?_⟩
  · rw [hskip, List.cons_append, skipBlanks_cons rfl]
  · rw [skipBlanks_append hback, skipBlanks_cons rfl]

section

variable {fuel : Nat} {vs : List Json} {ms : List (String × Json)} {t ts p : List Char}

theorem ReadsAs.lastItem (h : ReadsAs fuel n (.value v) t) (hp : Spaced t p) :
    ReadsAs (fuel + 1) n (.items [v]) (p ++ [']']) := by
  intro rest
  obtain ⟨d, r, hd, hr, hmeans⟩ := h.spaced hp (.inr (.inl rfl)) rest
  have hone : MeanItems (max n 0) [d] [v] := hmeans.cons meanItems_nil
  rw [Nat.max_zero] at hone
  rw [List.append_assoc, List.cons_append, List.nil_append]
  exact ⟨[d], readItems_last hd hr, hone⟩

theorem ReadsAs.item (h : ReadsAs fuel n (.value v) t) (hp : Spaced t p)
    (hs : ReadsAs fuel m (.items vs) ts) :
    ReadsAs (fuel + 1) (max n m) (.items (v :: vs)) (p ++ ',' :: ts) := by
  intro rest
  obtain ⟨d, r, hd, hr, hmeans⟩ := h.spaced hp (.inl rfl) (ts ++ rest)
  obtain ⟨ds, hds, hmeanItems⟩ := hs rest
  refine ⟨d :: ds, ?_, hmeans.cons hmeanItems⟩
  rw [List.append_assoc, List.cons_append, readItems_more hd hr, hds]

theorem ReadsAs.lastMember {k : String} {q pq : List Char} (hk : SpellsString k q)
    (hq : Spaced q pq) (h : ReadsAs fuel n (.value v) t) (hp : Spaced t p) :
    ReadsAs (fuel + 1) n (.members [(k, v)]) (pq ++ ':' :: (p ++ ['\x7d'])) := by
  intro rest
  obtain ⟨d, r, hd, hr, hmeans⟩ := h.spaced hp (.inr (.inr rfl)) rest
  have hkey := readsKey hk hq (p ++ '\x7d' :: rest)
  have hone : MeanMembers (max n 0) [(some k, d)] [(k, v)] :=
    hmeans.consMember meanMembers_nil k
  rw [Nat.max_zero] at hone
  refine ⟨[(some k, d)], ?_, hone⟩
  simp only [List.append_assoc, List.cons_append, List.nil_append]
  exact readMembers_last hkey hd hr

theorem ReadsAs.member {k : String} {q pq : List Char} (hk : SpellsString k q)
    (hq : Spaced q pq) (h : ReadsAs fuel n (.value v) t) (hp : Spaced t p)
    (hs : ReadsAs fuel m (.members ms) ts) :
    ReadsAs (fuel + 1) (max n m) (.members ((k, v) :: ms)) (pq ++ ':' :: (p ++ ',' :: ts)) := by
  intro rest
  obtain ⟨d, r, hd, hr, hmeans⟩ := h.spaced hp (.inl rfl) (ts ++ rest)
  obtain ⟨ds, hds, hmeanMembers⟩ := hs rest
  have hkey := readsKey hk hq (p ++ ',' :: (ts ++ rest))
  refine ⟨(some k, d) :: ds, ?_, hmeans.consMember hmeanMembers k⟩
  simp only [List.append_assoc, List.cons_append]
  rw [readMembers_more hkey hd hr, hds]

theorem ReadsAs.array (h : ReadsAs fuel n (.items vs) t)
    (hhead : ∀ rest, ∃ c cs, skipBlanks (t ++ rest) = c :: cs ∧ c ≠ ']' ∧ c ≠ '\x7d') :
    ReadsAs (fuel + 1) (n + 1) (.value (.array vs)) ('[' :: t) := by
  intro rest _
  obtain ⟨ds, hds, hmeans⟩ := h rest
  obtain ⟨c, cs, hcs, hclose, -⟩ := hhead rest
  refine ⟨.array ds, ?_, hmeans.array⟩
  rw [List.cons_append, readValue_array hcs hclose, hds]

theorem ReadsAs.object (h : ReadsAs fuel n (.members ms) t)
    (hhead : ∀ rest, ∃ c cs, skipBlanks (t ++ rest) = c :: cs ∧ c ≠ ']' ∧ c ≠ '\x7d') :
    ReadsAs (fuel + 1) (n + 1) (.value (.object (Members.ofList ms))) ('\x7b' :: t) := by
  intro rest _
  obtain ⟨ds, hds, hmeans⟩ := h rest
  obtain ⟨c, cs, hcs, -, hclose⟩ := hhead rest
  refine ⟨.object ds, ?_, hmeans.object⟩
  rw [List.cons_append, readValue_object hcs hclose, hds]

theorem readsAs_integer {m : Int} (h : (Number.integer m).IsWord) (fuel : Nat) :
    ReadsAs (fuel + 1) 0 (.value (.number (.integer m))) (toString m).toList := by
  intro rest hrest
  have hnumeral : numeral? ((toString m).toList ++ rest) = some (.ofInt m, rest) :=
    numeral?_text m hrest
  obtain ⟨c, cs, hcs, hc⟩ := exists_text_eq_cons m
  have htext : (toString m).toList = c :: cs := hcs
  rw [htext, List.cons_append] at hnumeral ⊢
  refine ⟨number (.ofInt m), readValue_numeric hc hnumeral fuel, ?_⟩
  intro depth
  rw [value?, Numeral.number?_ofInt h]
  rfl

end

end Document

namespace Json.Spells

open Document

variable {n : Nat} {p : Phrase} {t : List Char}

/-- A spelling begins, after blanks, with a character that is no closing bracket. -/
theorem exists_head (h : Spells n p t) (rest : List Char) :
    ∃ c cs, skipBlanks (t ++ rest) = c :: cs ∧ c ≠ ']' ∧ c ≠ '\x7d' := by
  induction h generalizing rest with
  | null => exact ⟨_, _, rfl, by decide, by decide⟩
  | isTrue => exact ⟨_, _, rfl, by decide, by decide⟩
  | isFalse => exact ⟨_, _, rfl, by decide, by decide⟩
  | @integer m _ =>
      obtain ⟨c, cs, hcs, hc⟩ := exists_text_eq_cons m
      have htext : (toString m).toList = c :: cs := hcs
      refine ⟨c, cs ++ rest, ?_, hc.ne (by decide), hc.ne (by decide)⟩
      rw [htext, List.cons_append, skipBlanks_cons hc.isBlank]
  | string h =>
      obtain ⟨body, rfl, -⟩ := exists_quoted h
      exact ⟨_, _, rfl, by decide, by decide⟩
  | emptyArray => exact ⟨_, _, rfl, by decide, by decide⟩
  | array => exact ⟨_, _, rfl, by decide, by decide⟩
  | emptyObject => exact ⟨_, _, rfl, by decide, by decide⟩
  | object => exact ⟨_, _, rfl, by decide, by decide⟩
  | lastItem _ hp ih =>
      obtain ⟨back, -, hskip⟩ := exists_skipBlanks_eq hp
      rw [List.append_assoc, hskip]
      exact ih _
  | item _ hp _ ih _ =>
      obtain ⟨back, -, hskip⟩ := exists_skipBlanks_eq hp
      rw [List.append_assoc, hskip]
      exact ih _
  | lastMember hk hq =>
      obtain ⟨body, r, hbody, -⟩ := readsKey hk hq _
      rw [List.append_assoc, List.cons_append, hbody]
      exact ⟨_, _, rfl, by decide, by decide⟩
  | member hk hq =>
      obtain ⟨body, r, hbody, -⟩ := readsKey hk hq _
      rw [List.append_assoc, List.cons_append, hbody]
      exact ⟨_, _, rfl, by decide, by decide⟩

theorem length_pos (h : Spells n p t) : 0 < t.length := by
  have hhead := h.exists_head []
  rcases t with _ | ⟨c, cs⟩
  · obtain ⟨c, cs, hcs, -⟩ := hhead
    cases hcs
  · exact Nat.succ_pos _

/-- No spelling is read without fuel, as none is empty. -/
theorem readsAs_of_succ (h : Spells n p t)
    (hsucc : ∀ {fuel}, t.length ≤ fuel + 1 → ReadsAs (fuel + 1) n p t) {fuel : Nat}
    (hfuel : t.length ≤ fuel) : ReadsAs fuel n p t := by
  cases fuel with
  | zero => exact absurd hfuel (Nat.not_le.mpr h.length_pos)
  | succ fuel => exact hsucc hfuel

theorem readsAs_succ (h : Spells n p t) {fuel : Nat} (hfuel : t.length ≤ fuel + 1) :
    ReadsAs (fuel + 1) n p t := by
  -- each call of the reader takes one unit of fuel, and a bracket or a comma pays for it
  induction h generalizing fuel with
  | null => exact fun rest _ => ⟨.null, rfl, fun depth => rfl⟩
  | isTrue => exact fun rest _ => ⟨.bool true, rfl, fun depth => rfl⟩
  | isFalse => exact fun rest _ => ⟨.bool false, rfl, fun depth => rfl⟩
  | integer h => exact readsAs_integer h fuel
  | @string s t h =>
      obtain ⟨body, rfl, hquoted⟩ := exists_quoted h
      exact fun rest _ => ⟨.string (some s), readValue_string (hquoted rest) fuel, fun depth => rfl⟩
  | @emptyArray t h =>
      intro rest _
      refine ⟨.array [], ?_, meanItems_nil.array⟩
      simp only [List.cons_append, List.append_assoc, List.nil_append]
      rw [readValue, skipBlanks_cons rfl]
      simp only [skipBlanks_append h, skipBlanks_cons (c := ']') rfl]
  | array h ih =>
      rw [List.length_cons] at hfuel
      exact (readsAs_of_succ h ih (Nat.le_of_succ_le_succ hfuel)).array h.exists_head
  | emptyObject h =>
      intro rest _
      refine ⟨.object [], ?_, meanMembers_nil.object⟩
      simp only [List.cons_append, List.append_assoc, List.nil_append]
      rw [readValue, skipBlanks_cons rfl]
      simp only [skipBlanks_append h, skipBlanks_cons (c := '\x7d') rfl]
  | object h ih =>
      rw [List.length_cons] at hfuel
      exact (readsAs_of_succ h ih (Nat.le_of_succ_le_succ hfuel)).object h.exists_head
  | lastItem h hp ih =>
      have hlength := hp.length_le
      rw [List.length_append, List.length_singleton] at hfuel
      exact (readsAs_of_succ h ih (by omega)).lastItem hp
  | item h hp hs ih ihs =>
      have hlength := hp.length_le
      rw [List.length_append, List.length_cons] at hfuel
      exact (readsAs_of_succ h ih (by omega)).item hp (readsAs_of_succ hs ihs (by omega))
  | lastMember hk hq h hp ih =>
      have hlength := hp.length_le
      simp only [List.length_append, List.length_cons] at hfuel
      exact .lastMember hk hq (readsAs_of_succ h ih (by omega)) hp
  | member hk hq h hp hs ih ihs =>
      have hlength := hp.length_le
      simp only [List.length_append, List.length_cons] at hfuel
      exact .member hk hq (readsAs_of_succ h ih (by omega)) hp
        (readsAs_of_succ hs ihs (by omega))

/-- A spelling is read as what it spells, with any fuel that is at least its length. -/
theorem readsAs (h : Spells n p t) {fuel : Nat} (hfuel : t.length ≤ fuel) : ReadsAs fuel n p t :=
  readsAs_of_succ h h.readsAs_succ hfuel

end Json.Spells

/-! ## Closing brackets -/

namespace Json

/-- The bracket that closes what is spelled; a value needs none. -/
def Phrase.bracket? : Phrase → Option Char
  | .value _ => none
  | .items _ => some ']'
  | .members _ => some '\x7d'

theorem Spells.getLast?_eq {n : Nat} {p : Phrase} {t : List Char} (h : Spells n p t) {c : Char}
    (hc : p.bracket? = some c) : t.getLast? = some c := by
  induction h with
  | null => cases hc
  | isTrue => cases hc
  | isFalse => cases hc
  | integer => cases hc
  | string => cases hc
  | emptyArray => cases hc
  | array => cases hc
  | emptyObject => cases hc
  | object => cases hc
  | lastItem =>
      cases hc
      rw [List.getLast?_append]
      rfl
  | item _ _ _ _ ih =>
      rw [List.getLast?_append, List.getLast?_cons, ih hc]
      rfl
  | lastMember =>
      cases hc
      rw [List.getLast?_append, List.getLast?_cons, List.getLast?_append]
      rfl
  | member _ _ _ _ _ _ ih =>
      rw [List.getLast?_append, List.getLast?_cons, List.getLast?_append, List.getLast?_cons,
        ih hc]
      rfl

theorem Spells.isTrimmed_array {n : Nat} {vs : List Json} {s : String}
    (h : Spells n (.value (.array vs)) s.toList) : Text.IsTrimmed s := by
  have hends : s.toList.head? = some '[' ∧ s.toList.getLast? = some ']' := by
    generalize s.toList = t at h
    cases h with
    | @emptyArray t h =>
        refine ⟨rfl, ?_⟩
        rw [List.getLast?_cons, List.getLast?_append]
        rfl
    | array h =>
        refine ⟨rfl, ?_⟩
        rw [List.getLast?_cons, h.getLast?_eq rfl]
        rfl
  exact Text.isTrimmed_of_ends hends.1 hends.2 (by decide) (by decide)

theorem Spells.isTrimmed_object {n : Nat} {ms : List (String × Json)} {s : String}
    (h : Spells n (.value (.object ms)) s.toList) : Text.IsTrimmed s := by
  have hends : s.toList.head? = some '\x7b' ∧ s.toList.getLast? = some '\x7d' := by
    generalize s.toList = t at h
    cases h with
    | emptyObject =>
        refine ⟨rfl, ?_⟩
        rw [List.getLast?_cons, List.getLast?_append]
        rfl
    | object h =>
        refine ⟨rfl, ?_⟩
        rw [List.getLast?_cons, h.getLast?_eq rfl]
        rfl
  exact Text.isTrimmed_of_ends hends.1 hends.2 (by decide) (by decide)

end Json

/-! ## Reading texts -/

open Json

variable {n : Nat} {v : Json} {t : List Char} {s : String}

/-- A text that spells a value, with any blanks around it, is read as a whole. -/
theorem Document.read_of_spells (h : Spells n (.value v) t) (hs : Spaced t s.toList) :
    ∃ d, Document.read s = (d, true) ∧ Means n d v := by
  obtain ⟨back, hback, hskip⟩ := exists_skipBlanks_eq hs
  have hlength := hs.length_le
  have hnone : Ends [] := by simp [Ends]
  have hreads : ReadsAs (2 * s.toList.length + 2) n (.value v) t := h.readsAs (by omega)
  obtain ⟨d, hd, hmeans⟩ := hreads (back ++ []) (ends_append hback hnone)
  refine ⟨d, ?_, hmeans⟩
  have hvalue : readValue (2 * s.toList.length + 2) s.toList = (d, some (back ++ [])) := by
    rw [← readValue_skipBlanks, ← List.append_nil s.toList, hskip, readValue_skipBlanks,
      List.append_nil s.toList, hd]
  rw [read]
  simp only [hvalue, skipBlanks_append hback]
  rfl

/-- A text that spells a value is read as the value, unless it is nested too deep. -/
theorem Json.parse?_of_spells (h : Spells n (.value v) t) (hs : Spaced t s.toList) :
    Json.parse? s = if n ≤ Json.maxDepth then some v else none := by
  obtain ⟨d, hd, hmeans⟩ := Document.read_of_spells h hs
  rw [Json.parse?, hd]
  exact hmeans Json.maxDepth

/-! ## Lists of strings -/

namespace Document

/-- Only a string literal stands for a string. -/
theorem eq_string_of_value? {d : Document} {depth : Nat} {s : String}
    (h : d.value? depth = some (.string s)) : d = string (some s) := by
  cases d with
  | string q =>
      cases q with
      | none => cases h
      | some t =>
          obtain rfl : t = s := by simpa [value?] using h
          rfl
  | number n => simp [value?] at h
  | array items => cases depth <;> simp [value?] at h
  | object members => cases depth <;> simp [value?] at h
  | null => cases h
  | bool b => cases h
  | broken => cases h

theorem eq_strings_of_values? {depth : Nat} {ds : List Document} {names : List String}
    (h : values? depth ds = some (names.map .string)) :
    ds = names.map fun s => string (some s) := by
  induction ds generalizing names with
  | nil =>
      cases names with
      | nil => rfl
      | cons s names => cases h
  | cons d ds ih =>
      simp only [values?, Option.bind_eq_bind, Option.pure_def, Option.bind_eq_some_iff] at h
      obtain ⟨v, hv, vs, hvs, heq⟩ := h
      cases names with
      | nil => cases heq
      | cons s names =>
          obtain ⟨rfl, rfl⟩ := List.cons.inj (Option.some.inj heq)
          rw [eq_string_of_value? hv, ih hvs, List.map_cons]

theorem Means.eq_strings {d : Document} {names : List String}
    (h : Means n d (.array (names.map .string))) :
    d = array (names.map fun s => string (some s)) := by
  have hvalue := h n
  rw [if_pos (Nat.le_refl n)] at hvalue
  cases d with
  | array items =>
      cases n with
      | zero => cases hvalue
      | succ n =>
          obtain ⟨vs, hvs, heq⟩ := Option.map_eq_some_iff.mp hvalue
          obtain rfl := Json.array.inj heq
          rw [eq_strings_of_values? hvs]
  | null => cases hvalue
  | bool b => cases hvalue
  | number n => simp [value?] at hvalue
  | string q => simp [value?] at hvalue
  | object members => cases n <;> simp [value?] at hvalue
  | broken => cases hvalue

/-- No array is read where there is no bracket. -/
theorem head?_of_readValue_array {fuel : Nat} {cs : List Char} {items : List Document}
    {r : Option (List Char)} (h : readValue fuel cs = (array items, r)) :
    (skipBlanks cs).head? = some '[' := by
  cases fuel with
  | zero => simp [readValue] at h
  | succ fuel =>
      rw [readValue] at h
      split at h
      next => cases h
      next => cases h
      next => cases h
      next =>
        split at h
        next => cases h
        next => cases h
      next heq => rw [heq]; rfl
      next =>
        split at h
        next => cases h
        next => cases h
      next =>
        split at h
        next => cases h
        next => cases h

end Document

namespace Decoder

theorem mapM_string (names : List String) :
    (names.map fun s => Document.string (some s)).mapM Decoder.string = .ok names := by
  induction names with
  | nil => rfl
  | cons s names ih =>
      rw [List.map_cons, List.mapM_cons, ih]
      rfl

/-- A list of strings is read from every text that spells it. -/
theorem ofText_of_spells {names : List String}
    (h : Spells n (.value (.array (names.map .string))) t) (hs : Spaced t s.toList) :
    ofText (.list .string) s = .ok names := by
  obtain ⟨d, hd, hmeans⟩ := Document.read_of_spells h hs
  rw [hmeans.eq_strings] at hd
  rw [ofText, hd]
  simp only [list, mapM_string]
  rfl

/-- A text that does not begin with a bracket holds no list. -/
theorem ofText_list_of_head {α : Type} (inner : Decoder α)
    (h : (Document.skipBlanks s.toList).head? ≠ some '[') :
    ofText (.list inner) s = .error .mismatch := by
  have hread : ∀ items, (Document.read s).1 ≠ .array items := by
    intro items hitems
    rw [Document.read] at hitems
    cases hvalue : Document.readValue (2 * s.toList.length + 2) s.toList with
    | mk d r =>
        rw [hvalue] at hitems
        obtain rfl : d = .array items := by cases r <;> exact hitems
        exact h (Document.head?_of_readValue_array hvalue)
  have hlist : list inner (Document.read s).1 = .error .mismatch := by
    unfold list
    split
    next items heq => exact absurd heq (hread items)
    next => rfl
  rw [ofText]
  simp only [hlist]
  rfl

end Decoder

end CallGuard
