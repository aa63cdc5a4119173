import CallGuard.Extractor
import CallGuard.Proofs.Text.Lists

/-! # Credentials in cookies

A cookie header holds pairs of a name and a value with semicolons between them, and a call may have
several such headers. Which value is taken is said by the pairs as they were written, line by line;
a line that is no text holds none. -/

namespace CallGuard.Extractor

/-! ## Pairs and lines -/

/-- A pair that can be written in a cookie header. The value may hold equals signs. -/
structure IsPair (p : String × String) : Prop where
  name_no_equals : '=' ∉ p.1.toList
  name_no_semicolon : ';' ∉ p.1.toList
  name_tight : Text.IsTight p.1
  value_no_semicolon : ';' ∉ p.2.toList
  value_tight : Text.IsTight p.2

theorem isPair_iff {p : String × String} : IsPair p ↔ '=' ∉ p.1.toList ∧ ';' ∉ p.1.toList ∧
    Text.IsTight p.1 ∧ ';' ∉ p.2.toList ∧ Text.IsTight p.2 :=
  ⟨fun h => ⟨h.1, h.2, h.3, h.4, h.5⟩, fun h => ⟨h.1, h.2.1, h.2.2.1, h.2.2.2.1, h.2.2.2.2⟩⟩

instance (p : String × String) : Decidable (IsPair p) :=
  decidable_of_iff _ isPair_iff.symm

def pairText (p : String × String) : String :=
  p.1 ++ "=" ++ p.2

/-- What a header line holds: the pairs that are written in it with semicolons between them and any
blanks around each, or nothing when the line is no text. -/
inductive Holds : HeaderValue → List (String × String) → Prop where
  | binary {line} (h : line.text? = none) : Holds line []
  | text {line pairs t} (h : line.text? = some t) (hpairs : ∀ p ∈ pairs, IsPair p)
      (hlists : Text.Lists ';' (pairs.map pairText) t) : Holds line pairs

theorem toList_pairText (p : String × String) :
    (pairText p).toList = p.1.toList ++ '=' :: p.2.toList := by
  simp [pairText]

namespace IsPair

variable {p : String × String}

/-- An equals sign or the end of a tight text stands at each end of a pair. -/
theorem isTight_pairText (h : IsPair p) : Text.IsTight (pairText p) := by
  have hequals : Text.isBlank '=' = false := by decide
  constructor
  · intro c hc
    rw [toList_pairText] at hc
    cases hname : p.1.toList with
    | nil =>
        obtain rfl : '=' = c := by simpa [hname] using hc
        exact hequals
    | cons d ds =>
        obtain rfl : d = c := by simpa [hname] using hc
        exact h.name_tight.first d (by rw [hname]; rfl)
  · intro c hc
    rw [toList_pairText, List.getLast?_append, List.getLast?_cons] at hc
    cases hvalue : p.2.toList.getLast? with
    | none =>
        obtain rfl : '=' = c := by simpa [hvalue] using hc
        exact hequals
    | some d =>
        obtain rfl : d = c := by simpa [hvalue] using hc
        exact h.value_tight.last d hvalue

theorem semicolon_notMem (h : IsPair p) : ';' ∉ (pairText p).toList := by
  rw [toList_pairText, List.mem_append, List.mem_cons]
  rintro (hname | hequals | hvalue)
  · exact h.name_no_semicolon hname
  · exact absurd hequals (by decide)
  · exact h.value_no_semicolon hvalue

/-- A written pair is read back, whatever equals signs are in its value. -/
theorem cookiePair?_eq (h : IsPair p) {piece : String} (hpiece : Text.Padded (pairText p) piece) :
    cookiePair? piece = some p := by
  rw [cookiePair?, hpiece.trim_eq, h.isTight_pairText.trim_eq]
  exact Text.cut?_eq_some_iff.mpr ⟨rfl, h.name_no_equals⟩

end IsPair

/-- The pairs of all lines are found in line order and then in pair order. -/
theorem cookiePairs_of_holds {lines : List HeaderValue} {pairs : List (List (String × String))}
    (h : List.Forall₂ Holds lines pairs) : cookiePairs lines = pairs.flatten := by
  induction h with
  | nil => rfl
  | @cons line ps lines pss hline _ ih =>
      rw [List.flatten_cons, ← ih]
      cases hline with
      | binary hnone => simp [cookiePairs, hnone]
      | text hsome hpairs hlists =>
          have hps := hlists.filterMap_split (by decide) (fun p hp => (hpairs p hp).semicolon_notMem)
            (fun p hp piece => (hpairs p hp).cookiePair?_eq) rfl
          simp [cookiePairs, hsome, List.filterMap_append, hps]

/-! ## The first value -/

/-- The value of the first pair that has a name and a value that is not empty. -/
def IsFirst (name : String) (pairs : List (String × String)) (value : String) : Prop :=
  value ≠ "" ∧ ∃ before after, pairs = before ++ (name, value) :: after ∧
    ∀ p ∈ before, p.1 = name → p.2 = ""

/-- No pair has the name and a value that is not empty. -/
def Lacks (name : String) (pairs : List (String × String)) : Prop :=
  ∀ p ∈ pairs, p.1 = name → p.2 = ""

theorem cookieValue?_of_isFirst {name value : String} {call : Call}
    (h : IsFirst name (cookiePairs (call.headers.values .cookie)) value) :
    cookieValue? name call = some value := by
  obtain ⟨hvalue, before, after, hpairs, hbefore⟩ := h
  have hfind : (cookiePairs (call.headers.values .cookie)).find?
      (fun p => p.1 == name && !p.2.isEmpty) = some (name, value) := by
    refine List.find?_eq_some_iff_append.mpr ⟨by simpa using hvalue, before, after, hpairs, ?_⟩
    intro p hp
    simpa [← imp_iff_not_or] using hbefore p hp
  rw [cookieValue?, hfind, Option.map_some]

theorem cookieValue?_of_lacks {name : String} {call : Call}
    (h : Lacks name (cookiePairs (call.headers.values .cookie))) :
    cookieValue? name call = none := by
  rw [cookieValue?, Option.map_eq_none_iff, List.find?_eq_none]
  intro p hp
  simpa using h p hp

/-! ## Bearer tokens -/

/-- The token of an authorization text stands behind the seven bytes of the word `bearer` and a
space, which may be in any case, and may have blanks around it. -/
inductive IsBearer (token : String) : String → Prop where
  | intro {scheme rest} (hsize : scheme.utf8ByteSize = 7) (hscheme : Text.lower scheme = "bearer ")
      (hrest : Text.Padded token rest) (htoken : Text.IsTrimmed token) :
      IsBearer token (scheme ++ rest)

/-- A call shows a token in its first authorization header, if that is text. -/
def ShowsBearer (call : Call) (token : String) : Prop :=
  ∃ line value, (call.headers.values .authorization).head? = some line ∧
    line.text? = some value ∧ IsBearer token value

theorem bearerToken?_eq_some_iff {value token : String} :
    bearerToken? value = some token ↔ IsBearer token value := by
  constructor
  · intro h
    rw [bearerToken?] at h
    split at h
    next hscheme =>
      obtain ⟨hrest, htoken⟩ := Text.trimNonempty?_eq_some_iff.mp h
      have hlower : Text.lower (.ofList (value.toList.take 7)) = "bearer " := by
        rw [Text.lower, String.toList_ofList, hscheme, String.ofList_toList]
      have hsize : (String.ofList (value.toList.take 7)).utf8ByteSize = 7 := by
        rw [← Text.utf8ByteSize_lower, hlower]
        rfl
      have hvalue : String.ofList (value.toList.take 7) ++ .ofList (value.toList.drop 7) = value := by
        rw [← String.ofList_append, List.take_append_drop, String.ofList_toList]
      rw [← hvalue]
      exact .intro hsize hlower hrest htoken
    next => cases h
  · intro h
    cases h with
    | @intro scheme rest _ hscheme hrest htoken =>
        have hchars : scheme.toList.map Char.toLower = "bearer ".toList := by
          rw [← hscheme, Text.lower, String.toList_ofList]
        have hlength : scheme.toList.length = 7 := by
          rw [← List.length_map Char.toLower, hchars]
          rfl
        have htake : (scheme ++ rest).toList.take 7 = scheme.toList := by
          rw [String.toList_append, ← hlength, List.take_left]
        have hdrop : (scheme ++ rest).toList.drop 7 = rest.toList := by
          rw [String.toList_append, ← hlength, List.drop_left]
        rw [bearerToken?, htake, hdrop, if_pos hchars, String.ofList_toList]
        exact Text.trimNonempty?_eq_some_iff.mpr ⟨hrest, htoken⟩

theorem bearer_eq_some_iff {call : Call} {token : String} :
    bearer call = some token ↔ ShowsBearer call token := by
  simp only [bearer, Headers.text?, Option.bind_eq_some_iff, bearerToken?_eq_some_iff, ShowsBearer]
  constructor
  · rintro ⟨value, ⟨line, hline, hvalue⟩, htoken⟩
    exact ⟨line, value, hline, hvalue, htoken⟩
  · rintro ⟨line, value, hline, hvalue, htoken⟩
    exact ⟨value, ⟨line, hline, hvalue⟩, htoken⟩

/-! ## Cookies and bearer tokens -/

/-- What is answered to a call whose cookie headers hold some pairs: the first value that goes by
the name, or else the bearer token where that is allowed. -/
structure CookieSpec (name : String) (bearerFallback : Bool) (call : Call)
    (pairs : List (String × String)) (answer : Option String) : Prop where
  cookie : ∀ value, IsFirst name pairs value → answer = some value
  token : Lacks name pairs → bearerFallback = true →
    ∀ token, answer = some token ↔ ShowsBearer call token
  nothing : Lacks name pairs → bearerFallback = false → answer = none

/-- Of the pairs that are written in the cookie headers of a call, line after line, an extractor
answers the first value that goes by its name. Lines that are no text are passed over. -/
theorem cookie_spec (name : String) (bearerFallback : Bool) {call : Call}
    {pairs : List (List (String × String))}
    (h : List.Forall₂ Holds (call.headers.values .cookie) pairs) :
    CookieSpec name bearerFallback call pairs.flatten (cookie name bearerFallback call) := by
  have hpairs := cookiePairs_of_holds h
  refine ⟨?_, ?_, ?_⟩
  · intro value hfirst
    rw [← hpairs] at hfirst
    rw [cookie, cookieValue?_of_isFirst hfirst]
  · intro hlacks hallowed token
    rw [← hpairs] at hlacks
    rw [cookie, cookieValue?_of_lacks hlacks, hallowed]
    exact bearer_eq_some_iff
  · intro hlacks hforbidden
    rw [← hpairs] at hlacks
    rw [cookie, cookieValue?_of_lacks hlacks, hforbidden]
    rfl

/-! ## A call with cookies -/

/-- A call with two cookie headers. The first is no text; in the second the session is empty at
first and then holds an equals sign. The authorization header holds a token beyond ASCII. -/
def sampleCall : Call where
  method := ⟨"Users", "Get"⟩
  headers := ⟨[(.cookie, ⟨⟨#[0x73, 0x3D, 0xFF]⟩, by decide +kernel⟩),
    (.cookie, ⟨"sid=; sid=a=b ;theme=dark;sid=c".toUTF8, by decide +kernel⟩),
    (.authorization, ⟨"BEARER  clé ".toUTF8, by decide +kernel⟩)]⟩
  peer := none

def samplePairs : List (List (String × String)) :=
  [[], [("sid", ""), ("sid", "a=b"), ("theme", "dark"), ("sid", "c")]]

theorem samplePairs_isPair : ∀ pairs ∈ samplePairs, ∀ p ∈ pairs, IsPair p := by
  decide +kernel

theorem sampleCall_holds : List.Forall₂ Holds (sampleCall.headers.values .cookie) samplePairs := by
  have hblank : Text.AllBlank " " := by decide
  have hsid : Text.Padded "sid=a=b" " sid=a=b " := .intro hblank hblank
  have hlists : Text.Lists ';' ["sid=", "sid=a=b", "theme=dark", "sid=c"]
      (Text.join ";" ["sid=", " sid=a=b ", "theme=dark", "sid=c"]) :=
    .intro (.cons (.refl _) (.cons hsid (.cons (.refl _) (.cons (.refl _) .nil))))
  have htext : String.fromUTF8? "sid=; sid=a=b ;theme=dark;sid=c".toUTF8 =
      some "sid=; sid=a=b ;theme=dark;sid=c" := Text.fromUTF8?_toUTF8 _
  have hpairs := samplePairs_isPair _ (.tail _ (.head _))
  exact .cons (.binary (by decide +kernel)) (.cons (.text htext hpairs hlists) .nil)

/-- The session is the first value that is not empty, and a call without the cookie falls back to
the token. -/
theorem cookie_spec_sample :
    List.Forall₂ Holds (sampleCall.headers.values .cookie) samplePairs ∧
      cookie "sid" true sampleCall = some "a=b" ∧ cookie "lang" true sampleCall = some "clé" ∧
      cookie "lang" false sampleCall = none := by
  have hlacks : Lacks "lang" samplePairs.flatten := by
    simp [Lacks, samplePairs]
  have hfirst : IsFirst "sid" samplePairs.flatten "a=b" :=
    ⟨by decide, [("sid", "")], [("theme", "dark"), ("sid", "c")], rfl, by simp⟩
  have hblank : Text.AllBlank " " := by decide
  have hrest : Text.Padded "clé" " clé " := .intro hblank hblank
  have hbearer : IsBearer "clé" ("BEARER " ++ " clé ") :=
    .intro rfl rfl hrest (by decide)
  have hline : String.fromUTF8? "BEARER  clé ".toUTF8 = some "BEARER  clé " :=
    Text.fromUTF8?_toUTF8 _
  have htoken : ShowsBearer sampleCall "clé" := ⟨_, _, rfl, hline, hbearer⟩
  refine ⟨sampleCall_holds, ?_, ?_, ?_⟩
  · exact (cookie_spec "sid" true sampleCall_holds).cookie "a=b" hfirst
  · exact ((cookie_spec "lang" true sampleCall_holds).token hlacks rfl "clé").mpr htoken
  · exact (cookie_spec "lang" false sampleCall_holds).nothing hlacks rfl

end CallGuard.Extractor
