import CallGuard.Proofs.Authenticator.LastWord
import CallGuard.Proofs.Handler.Stack
import CallGuard.Proofs.Token.Construction
import CallGuard.Session

/-! # What callers do not get to see

A verifier may say why some other part failed, and a denial names a rule and a requirement. Neither
gets to the caller. With another verifier that says so in other words, and with another authorizer
that names other rules, callers are shown the same, and the same state is left for the next call. -/

namespace CallGuard

/-! ## Alike but for words -/

/-- Answers that differ in the text of a foreign failure at most. -/
inductive AlikeAnswers {α : Type} : Except VerifyFailure α → Except VerifyFailure α → Prop where
  | found (a) : AlikeAnswers (.ok a) (.ok a)
  | refused (e) : AlikeAnswers (.error (.refused e)) (.error (.refused e))
  | foreign (s t) : AlikeAnswers (.error (.foreign s)) (.error (.foreign t))
  | clockOverflow : AlikeAnswers (.error .clockOverflow) (.error .clockOverflow)

def AlikeVerifiers (v w : Verifier) : Prop :=
  ∀ now credential call, AlikeAnswers (v now credential call) (w now credential call)

theorem AlikeAnswers.refl {α : Type} (x : Except VerifyFailure α) : AlikeAnswers x x := by
  rcases x with (e | text | _) | a
  · exact .refused e
  · exact .foreign text text
  · exact .clockOverflow
  · exact .found a

theorem AlikeAnswers.bind {α β : Type} {x y : Except VerifyFailure α}
    {f g : α → Except VerifyFailure β} (h : AlikeAnswers x y)
    (hf : ∀ a, AlikeAnswers (f a) (g a)) : AlikeAnswers (x >>= f) (y >>= g) := by
  cases h with
  | found a => exact hf a
  | refused e => exact .refused e
  | foreign s t => exact .foreign s t
  | clockOverflow => exact .clockOverflow

/-! ## Sessions and tokens -/

def AlikeStores (s t : SessionStore) : Prop :=
  ∀ session h, AlikeAnswers (s session h) (t session h)

/-- Sessions are verified alike when they are looked up alike. -/
theorem AlikeStores.verifier {s t : SessionStore} (h : AlikeStores s t) :
    AlikeVerifiers (Session.verifier s) (Session.verifier t) :=
  fun _ credential call => .bind (h credential call.headers) fun _ => .refl _

namespace Token

variable {ε α β : Type} {v : TokenVerifier} {s : PublicScheme}

/-- Schemes that check signatures alike, and say why a key is of no use in other words at most. -/
def AlikeSchemes (s t : PublicScheme) : Prop :=
  ∀ a material, (s a material).toOption = (t a material).toOption

def TokenVerifier.withScheme (v : TokenVerifier) (s : PublicScheme) : TokenVerifier :=
  { v with scheme := s }

theorem toOption_bind (x : Except ε α) (f : α → Except ε β) :
    (x >>= f).toOption = x.toOption.bind fun a => (f a).toOption := by
  cases x <;> rfl

theorem toOption_mapError {δ : Type} (x : Except ε α) (f : ε → δ) :
    (x.mapError f).toOption = x.toOption := by
  cases x <;> rfl

/-- Every fault is a foreign failure, so it does not matter which one it is. -/
theorem alikeAnswers_failure {x y : Except Fault α} (h : x.toOption = y.toOption) :
    AlikeAnswers (x.mapError Fault.failure) (y.mapError Fault.failure) := by
  cases x with
  | error f =>
      cases y with
      | error g => exact .foreign f.message g.message
      | ok b => cases h
  | ok a =>
      cases y with
      | error g => cases h
      | ok b =>
          cases h
          exact .found a

theorem AlikeSchemes.toOption_claims (h : AlikeSchemes v.scheme s) (now : Nat) (a : Algorithm)
    (k : Key) (parts : Parts) :
    (v.claims now a k parts).toOption = ((v.withScheme s).claims now a k parts).toOption := by
  have hchecker : (v.checker a k).toOption = ((v.withScheme s).checker a k).toOption := by
    have hscheme : (v.withScheme s).scheme = s := rfl
    unfold TokenVerifier.checker
    split
    next => rfl
    next f material hhash =>
      split
      next => rw [toOption_mapError, toOption_mapError, h a material, hscheme]
      next => rfl
    next => rfl
  have hsignature : (v.checkSignature a k parts).toOption =
      ((v.withScheme s).checkSignature a k parts).toOption := by
    rw [TokenVerifier.checkSignature, TokenVerifier.checkSignature, toOption_bind, toOption_bind,
      hchecker]
  rw [TokenVerifier.claims, TokenVerifier.claims, toOption_bind, toOption_bind, hsignature]
  rfl

/-- Tokens are verified alike when their signatures are checked alike. -/
theorem AlikeSchemes.verifier (h : AlikeSchemes v.scheme s) :
    AlikeVerifiers v.verifier (v.withScheme s).verifier := by
  intro now token call
  have halgorithms : (v.withScheme s).algorithms = v.algorithms := rfl
  unfold TokenVerifier.verifier TokenVerifier.verify
  refine .bind (.refl _) fun ⟨parts, header⟩ => ?_
  dsimp only
  rw [halgorithms]
  split
  next => exact .refused _
  next =>
    refine .bind (.refl _) fun key => ?_
    exact .bind (alikeAnswers_failure (h.toOption_claims _ _ key parts)) fun c => .refl _

def Config.withScheme (c : Config) (s : PublicScheme) : Config :=
  { c with scheme := s }

/-- The scheme is built in as it is configured, without a check. -/
theorem Config.build_withScheme {c : Config} (h : c.build = .ok v) (s : PublicScheme) :
    (c.withScheme s).build = .ok (v.withScheme s) := by
  unfold build at h ⊢
  obtain ⟨source, hsource, h⟩ := Checks.bind_eq_ok_iff.mp h
  obtain ⟨keys, hkeys, h⟩ := Checks.bind_eq_ok_iff.mp h
  cases h
  exact Checks.bind_eq_ok_iff.mpr ⟨source, hsource, Checks.bind_eq_ok_iff.mpr ⟨keys, hkeys, rfl⟩⟩

end Token

/-! ## Rules under other names -/

/-- Decisions that differ in the rule and the requirement of a denial at most. -/
inductive AlikeDecisions : Except Error Decision → Except Error Decision → Prop where
  | undecided (e) : AlikeDecisions (.error e) (.error e)
  | allowed : AlikeDecisions (.ok .allow) (.ok .allow)
  | denied (rule q rule' q') : AlikeDecisions (.ok (.deny rule q)) (.ok (.deny rule' q'))

def AlikeAuthorizers (e e' : Authorizer) : Prop :=
  ∀ p identity m, AlikeDecisions (e.decideWith p identity m) (e'.decideWith p identity m)

theorem AlikeDecisions.refl (d : Except Error Decision) : AlikeDecisions d d := by
  cases d with
  | error e => exact .undecided e
  | ok d =>
      cases d with
      | allow => exact .allowed
      | deny rule q => exact .denied rule q rule q

theorem AlikeDecisions.ofEffect (rule rule' : String) (x : Effect) :
    AlikeDecisions (.ok (.ofEffect rule x)) (.ok (.ofEffect rule' x)) := by
  cases x with
  | allow => exact .allowed
  | deny => exact .denied rule none rule' none

def Rule.rename (f : String → String) (r : Rule) : Rule :=
  { r with name := f r.name }

def Authorizer.rename (e : Authorizer) (f : String → String) : Authorizer :=
  { e with rules := e.rules.map (Rule.rename f) }

/-- Renamed rules are passed over alike, and the first that decides has the same effect. -/
theorem Authorizer.walk_rename (f : String → String) (m : Method) (identity : Option Identity)
    (unmet : Option Requirement) (rules : List Rule) :
    (∃ q, walk m identity unmet rules = .error q ∧
        walk m identity unmet (rules.map (Rule.rename f)) = .error q) ∨
      ∃ d d', walk m identity unmet rules = .ok d ∧
        walk m identity unmet (rules.map (Rule.rename f)) = .ok d' ∧
        AlikeDecisions (.ok d) (.ok d') := by
  induction rules generalizing unmet with
  | nil => exact .inl ⟨unmet, rfl, rfl⟩
  | cons r rest ih =>
      have hselects : (r.rename f).selects m = r.selects m := rfl
      have hadmits : (r.rename f).admits identity = r.admits identity := rfl
      rw [List.map_cons, walk, walk, hselects, hadmits]
      cases r.selects m with
      | false => exact ih unmet
      | true =>
          cases r.admits identity with
          | false => exact ih (if identity.isSome then r.requires else unmet)
          | true => exact .inr ⟨_, _, rfl, rfl, .ofEffect r.name (f r.name) r.effect⟩

theorem alikeAuthorizers_rename (e : Authorizer) (f : String → String) :
    AlikeAuthorizers e (e.rename f) := by
  intro p identity m
  unfold Authorizer.decideWith
  cases p.bind fun p => Authorizer.decideDeclared p identity with
  | some d => exact .refl d
  | none =>
      rw [Option.getD_none, Option.getD_none, Authorizer.decideOpen, Authorizer.decideOpen,
        Authorizer.rename]
      rcases Authorizer.walk_rename f m identity none e.rules with
        ⟨q, hwalk, hwalk'⟩ | ⟨d, d', hwalk, hwalk', hdecisions⟩
      · rw [hwalk, hwalk']
        exact .refl _
      · rw [hwalk, hwalk']
        exact hdecisions

/-! ## Authentication -/

def Authenticator.withVerifier (a : Authenticator) (w : Verifier) : Authenticator :=
  { a with verifier := w }

def AuthenticatorConfig.withVerifier (c : AuthenticatorConfig) (w : Verifier) :
    AuthenticatorConfig :=
  { c with verifier := w }

/-- The verifier is built in as it is configured, without a check. -/
theorem AuthenticatorConfig.build_withVerifier {c : AuthenticatorConfig} {a : Authenticator}
    (h : c.build = .ok a) (w : Verifier) : (c.withVerifier w).build = .ok (a.withVerifier w) := by
  have hbuilt := build_eq_ok_iff.mp h
  exact build_eq_ok_iff.mpr { hbuilt with verifier := rfl }

namespace Authenticator

variable {ε β : Type} {a b : Authenticator} {w : Verifier}

theorem verify_withVerifier (hhidden : a.exposeErrors = false)
    (halike : AlikeVerifiers a.verifier w) (now : Moment) (cache : CredentialCache Identity)
    (credential : String) (call : Call) :
    (a.withVerifier w).verify now cache credential call = a.verify now cache credential call := by
  have hanswer := halike now credential call
  have hv : (a.withVerifier w).verifier = w := rfl
  have hexpose : (a.withVerifier w).exposeErrors = false := hhidden
  rw [verify, verify, hv, hexpose, hhidden]
  generalize a.verifier now credential call = x at hanswer
  generalize w now credential call = y at hanswer
  cases hanswer with
  | found i => rfl
  | refused e => rfl
  | foreign s t => rfl
  | clockOverflow => rfl

/-- One call does not tell two verifiers apart. -/
theorem authenticate_withVerifier (hhidden : a.exposeErrors = false)
    (halike : AlikeVerifiers a.verifier w) (now : Moment) (cache : CredentialCache Identity)
    (r : Request ε β) : (a.withVerifier w).authenticate now cache r = a.authenticate now cache r := by
  have hverify := verify_withVerifier hhidden halike
  unfold authenticate
  simp only [hverify]
  rfl

/-- Authenticators that agree on every single call agree on every run. -/
theorem run_congr
    (h : ∀ now cache (r : Request ε β), a.authenticate now cache r = b.authenticate now cache r)
    (cache : CredentialCache Identity) (events : List (Event ε β)) :
    a.run cache events = b.run cache events ∧
      a.cacheAfter cache events = b.cacheAfter cache events := by
  -- what a call leaves in the cache is where the rest of the events begins
  induction events generalizing cache with
  | nil => exact ⟨rfl, rfl⟩
  | cons event rest ih =>
      cases event with
      | call now r =>
          obtain ⟨hrun, hcache⟩ := ih (b.authenticate now cache r).cache
          simp only [run, cacheAfter, h, hrun, hcache, and_self]
      | invalidate credential => exact ih (cache.invalidate credential)
      | clear => exact ih cache.clear

/-- A failure of the verifier is the failure of the call in which it is asked. -/
theorem Asks.result_eq {cache : CredentialCache Identity} {credential : String} {now : Moment}
    {r : Request ε β} (hasks : a.Asks cache credential now r) {f : VerifyFailure}
    (hv : a.verifier now credential r.call = .error f) :
    (a.authenticate now cache r).result = .error (.ofVerify a.exposeErrors f) := by
  obtain ⟨hx, hverified⟩ := hasks
  have hcourse := a.authenticate_course now cache r
  generalize a.authenticate now cache r = o at hcourse hverified ⊢
  cases hcourse with
  | letThrough hs => cases hverified
  | unpresented hs hnone => cases hverified
  | kept hs hc hk => cases hverified
  | refused hs hc hk hf =>
      cases hx.symm.trans hc
      cases hv.symm.trans hf
      rfl
  | unstorable hs hc hk hi he =>
      cases hx.symm.trans hc
      cases hv.symm.trans hi
  | verified hs hc hk hi he =>
      cases hx.symm.trans hc
      cases hv.symm.trans hi

end Authenticator

/-! ## Authorization on top -/

/-- What the caller is shown of a failure: a status and a text, or nothing when no clock holds an
instant. -/
def Failure.shown : Failure → Option (Code × String)
  | .error e => some (e.code, e.publicMessage)
  | .clockOverflow => none

namespace Handler

variable {τ ε β α : Type} {a b : Authenticator} {e e' : Authorizer}

/-- Runs that are shown alike and leave the same behind. -/
structure ShownAlike {σ : Type} (x y : Except Failure α × Scope σ) : Prop where
  shown_eq : x.1.mapError Failure.shown = y.1.mapError Failure.shown
  state_eq : x.2 = y.2

theorem ShownAlike.within {σ : Type} {x y : Scoped σ (Except Failure α)}
    (h : ∀ s, ShownAlike (x s) (y s)) (binding : Option Identity) (s : Scope σ) :
    ShownAlike (Scoped.within binding x s) (Scoped.within binding y s) := by
  obtain ⟨hshown, hstate⟩ := h ⟨binding, s.state⟩
  exact ⟨hshown, by rw [Scoped.run_within, Scoped.run_within, hstate]⟩

/-- A check of rights stops the same calls, and shows the same when it does. -/
theorem authorized_alike (h : AlikeAuthorizers e e') (inner : Handler τ ε β α) (r : Request ε β)
    (s : Scope (Guards τ)) : ShownAlike (authorized e inner r s) (authorized e' inner r s) := by
  have hdecisions := h (Authorizer.lookUp s.state.resolver r.method).1 s.bound r.method
  generalize hd : e.decideWith _ s.bound r.method = d at hdecisions
  generalize hd' : e'.decideWith _ s.bound r.method = d' at hdecisions
  have hanswer : (e.authorize s.state.resolver s.bound r.method).1 = Authorizer.enforce d :=
    congrArg Authorizer.enforce hd
  have hanswer' : (e'.authorize s.state.resolver s.bound r.method).1 = Authorizer.enforce d' :=
    congrArg Authorizer.enforce hd'
  -- the resolver remembers what it was asked for, whoever asked
  have hresolver : s.state.afterDecision e s.bound r.method =
      s.state.afterDecision e' s.bound r.method := rfl
  cases hdecisions with
  | undecided x =>
      rw [run_authorized_of_error inner hanswer, run_authorized_of_error inner hanswer', hresolver]
      exact ⟨rfl, rfl⟩
  | allowed =>
      rw [run_authorized_of_ok inner hanswer, run_authorized_of_ok inner hanswer', hresolver]
      exact ⟨rfl, rfl⟩
  | denied rule q rule' q' =>
      rw [run_authorized_of_error inner hanswer, run_authorized_of_error inner hanswer', hresolver]
      exact ⟨rfl, rfl⟩

theorem stack_alike
    (hauthenticate : ∀ now cache (r : Request ε β),
      a.authenticate now cache r = b.authenticate now cache r)
    (h : AlikeAuthorizers e e') (now : Moment) (inner : Handler τ ε β α) (r : Request ε β)
    (g : Guards τ) :
    ShownAlike (stack a now e inner r ⟨none, g⟩) (stack b now e' inner r ⟨none, g⟩) := by
  have ho := hauthenticate now g.cache r
  cases hresult : (a.authenticate now g.cache r).result with
  | error f =>
      rw [stack, run_authenticated_of_error (s := ⟨none, g⟩) _ hresult, stack,
        run_authenticated_of_error (s := ⟨none, g⟩) _ (ho ▸ hresult), ho]
      exact ⟨rfl, rfl⟩
  | ok identity =>
      rw [run_stack_of_found inner hresult, run_stack_of_found inner (ho ▸ hresult), ho]
      exact .within (authorized_alike h inner _) identity _

/-- What callers are shown who call one after the other, and the guards that are left. -/
def serve (a : Authenticator) (e : Authorizer) (inner : Handler τ ε β α) :
    Guards τ → List (Moment × Request ε β) →
      List (Except (Option (Code × String)) α) × Guards τ
  | g, [] => ([], g)
  | g, (now, r) :: rest =>
      let (answer, s) := stack a now e inner r ⟨none, g⟩
      let (answers, g) := serve a e inner s.state rest
      (answer.mapError Failure.shown :: answers, g)

theorem serve_alike
    (hauthenticate : ∀ now cache (r : Request ε β),
      a.authenticate now cache r = b.authenticate now cache r)
    (h : AlikeAuthorizers e e') (inner : Handler τ ε β α) (g : Guards τ)
    (calls : List (Moment × Request ε β)) :
    serve a e inner g calls = serve b e' inner g calls := by
  induction calls generalizing g with
  | nil => rfl
  | cons call rest ih =>
      obtain ⟨now, r⟩ := call
      obtain ⟨hshown, hstate⟩ := stack_alike hauthenticate h now inner r g
      simp only [serve, hshown, hstate, ih]

end Handler

/-! ## Two authenticators -/

/-- What can be told of an authenticator, with or without authorization on top, when another one has
a verifier that uses other words. -/
structure SecrecySpec (a b : Authenticator) : Prop where
  run_eq : ∀ {ε β : Type} (cache : CredentialCache Identity)
    (events : List (Authenticator.Event ε β)), a.run cache events = b.run cache events
  cacheAfter_eq : ∀ {ε β : Type} (cache : CredentialCache Identity)
    (events : List (Authenticator.Event ε β)), a.cacheAfter cache events = b.cacheAfter cache events
  foreign : ∀ {ε β : Type} {cache credential now} {r : Request ε β} {text},
    a.Asks cache credential now r → a.verifier now credential r.call = .error (.foreign text) →
      ∃ f, (a.authenticate now cache r).result = .error f ∧
        f.shown = some (.unauthenticated, "invalid credential")
  refused : ∀ {ε β : Type} {cache credential now} {r : Request ε β} {e},
    a.Asks cache credential now r → a.verifier now credential r.call = .error (.refused e) →
      (a.authenticate now cache r).result = .error (.error e)
  denied : ∀ {τ ε β α : Type} {now} {e : Authorizer} {g : Guards τ} {r : Request ε β}
    {identity rule q} (inner : Handler τ ε β α),
    (a.authenticate now g.cache r).result = .ok identity →
      (e.decide g.resolver identity r.method).1 = .ok (.deny rule q) →
      ∃ f, (Handler.stack a now e inner r ⟨none, g⟩).1 = .error f ∧
        f.shown = some (.permissionDenied, "access denied")
  served : ∀ {τ ε β α : Type} {e e' : Authorizer} (inner : Handler τ ε β α) (g : Guards τ)
    (calls : List (Moment × Request ε β)), AlikeAuthorizers e e' →
      Handler.serve a e inner g calls = Handler.serve b e' inner g calls
  renamed : ∀ {τ ε β α : Type} (e : Authorizer) (names : String → String)
    (inner : Handler τ ε β α) (g : Guards τ) (calls : List (Moment × Request ε β)),
      Handler.serve a e inner g calls = Handler.serve b (e.rename names) inner g calls

/-- An authenticator that hides the errors of its verifier does not tell it from one that is
alike. -/
theorem Authenticator.secrecySpec_withVerifier {a : Authenticator} {w : Verifier}
    (hhidden : a.exposeErrors = false) (halike : AlikeVerifiers a.verifier w) :
    SecrecySpec a (a.withVerifier w) := by
  have hauthenticate {ε β : Type} (now cache) (r : Request ε β) :
      a.authenticate now cache r = (a.withVerifier w).authenticate now cache r :=
    (authenticate_withVerifier hhidden halike now cache r).symm
  exact
    { run_eq := fun cache events => (run_congr hauthenticate cache events).1
      cacheAfter_eq := fun cache events => (run_congr hauthenticate cache events).2
      foreign := by
        intro ε β cache credential now r text hasks hv
        have hresult := hasks.result_eq hv
        rw [hhidden] at hresult
        exact ⟨_, hresult, rfl⟩
      refused := fun hasks hv => hasks.result_eq hv
      denied := by
        intro τ ε β α now e g r identity rule q inner hfound hdenied
        have hanswer : (e.authorize g.resolver identity r.method).1 =
            .error (.permissionDenied rule q) := congrArg Authorizer.enforce hdenied
        obtain ⟨t, -, hrun⟩ := Handler.run_stack_of_refuses inner (.unauthorized hfound hanswer)
        exact ⟨_, congrArg Prod.fst hrun, rfl⟩
      served := fun inner g calls h => Handler.serve_alike hauthenticate h inner g calls
      renamed := fun e names inner g calls =>
        Handler.serve_alike hauthenticate (alikeAuthorizers_rename e names) inner g calls }

theorem AuthenticatorConfig.secrecySpec_of_build {c : AuthenticatorConfig} {w : Verifier}
    (hhidden : c.exposeErrors = false) (halike : AlikeVerifiers c.verifier w) {a : Authenticator}
    (ha : c.build = .ok a) : SecrecySpec a (a.withVerifier w) := by
  have hbuilt := build_eq_ok_iff.mp ha
  rw [← hbuilt.verifier] at halike
  rw [← hbuilt.exposeErrors] at hhidden
  exact Authenticator.secrecySpec_withVerifier hhidden halike

/-- What a store says about a session that it does not give is kept from the caller. -/
theorem Session.secrecySpec_of_alikeStores {s t : SessionStore} (halike : AlikeStores s t)
    {cookie : String} {a b : Authenticator} (ha : (authenticator s cookie).build = .ok a)
    (hb : (authenticator t cookie).build = .ok b) : SecrecySpec a b := by
  cases hb.symm.trans (AuthenticatorConfig.build_withVerifier ha (verifier t))
  exact AuthenticatorConfig.secrecySpec_of_build rfl halike.verifier ha

/-- Why a public key is of no use is kept from whoever shows a token. -/
theorem Token.Config.secrecySpec_of_alikeSchemes {c : Config} {s : PublicScheme}
    (halike : AlikeSchemes c.scheme s) {d e : AuthenticatorConfig} (hd : c.authenticator = .ok d)
    (he : (c.withScheme s).authenticator = .ok e) {a b : Authenticator} (ha : d.build = .ok a)
    (hb : e.build = .ok b) : SecrecySpec a b := by
  obtain ⟨v, hv, hd⟩ := Checks.bind_eq_ok_iff.mp hd
  obtain ⟨w, hw, he⟩ := Checks.bind_eq_ok_iff.mp he
  cases hw.symm.trans (build_withScheme hv s)
  cases hd
  cases he
  cases hb.symm.trans (AuthenticatorConfig.build_withVerifier ha (v.withScheme s).verifier)
  obtain ⟨source, hbuilt⟩ := exists_built hv
  rw [← hbuilt.scheme] at halike
  exact AuthenticatorConfig.secrecySpec_of_build rfl halike.verifier ha

/-- As long as the errors of its verifier are not exposed, an authenticator keeps their text to
itself: with another verifier that is alike, every call is answered alike and leaves the same
behind. -/
theorem build_hides_words {c : AuthenticatorConfig} (hhidden : c.exposeErrors = false)
    {w : Verifier} (halike : AlikeVerifiers c.verifier w) {a b : Authenticator}
    (ha : c.build = .ok a) (hb : (c.withVerifier w).build = .ok b) : SecrecySpec a b := by
  obtain rfl : a.withVerifier w = b :=
    Except.ok.inj ((AuthenticatorConfig.build_withVerifier ha w).symm.trans hb)
  exact AuthenticatorConfig.secrecySpec_of_build hhidden halike ha

/-- A store that knows one session, and says about any other why it does not. -/
def storeSample (reason : String) : SessionStore := fun session _ =>
  if session = "known" then .ok (some (.ofSubject "u")) else .error (.foreign reason)

def sessionsSample (reason : String) : AuthenticatorConfig :=
  Session.authenticator (storeSample reason) "sid"

theorem sessionsSample_alike (reason other : String) :
    AlikeVerifiers (sessionsSample reason).verifier (sessionsSample other).verifier := by
  apply AlikeStores.verifier
  intro session h
  unfold storeSample
  split
  next => exact .found _
  next => exact .foreign reason other

def knownSample : Request Unit Unit :=
  { Request.ofMethod ⟨"Users", "Get"⟩ () () with
    headers := ⟨[(.cookie, ⟨"sid=known".toUTF8, by decide +kernel⟩)]⟩ }

def strangerSample : Request Unit Unit :=
  { Request.ofMethod ⟨"Users", "Get"⟩ () () with
    headers := ⟨[(.cookie, ⟨"sid=stranger".toUTF8, by decide +kernel⟩)]⟩ }

/-- Neither the address in the text of a store is shown, nor the name of the rule that denies. -/
theorem build_hides_words_sample :
    (sessionsSample "timeout at 10.0.0.1").exposeErrors = false ∧
      AlikeVerifiers (sessionsSample "timeout at 10.0.0.1").verifier
        (sessionsSample "lost").verifier ∧
      ∃ a b, (sessionsSample "timeout at 10.0.0.1").build = .ok a ∧
        ((sessionsSample "timeout at 10.0.0.1").withVerifier (sessionsSample "lost").verifier).build
          = .ok b ∧
        (∀ cache, a.run cache [.call ⟨0, 0⟩ strangerSample, .call ⟨0, 1⟩ knownSample] =
          b.run cache [.call ⟨0, 0⟩ strangerSample, .call ⟨0, 1⟩ knownSample]) ∧
        (∃ f, (a.authenticate ⟨0, 0⟩ .off strangerSample).result = .error f ∧
          f.shown = some (.unauthenticated, "invalid credential")) ∧
        ∀ inner : Handler Unit Unit Unit Unit,
          ∃ f, (Handler.stack a ⟨0, 0⟩ ⟨[], none, .deny⟩ inner knownSample
              ⟨none, ⟨.off, none, 0, ()⟩⟩).1 = .error f ∧
            f.shown = some (.permissionDenied, "access denied") := by
  have halike := sessionsSample_alike "timeout at 10.0.0.1" "lost"
  obtain ⟨a, ha⟩ : ∃ a, (sessionsSample "timeout at 10.0.0.1").build = .ok a := ⟨_, rfl⟩
  have hb := AuthenticatorConfig.build_withVerifier ha (sessionsSample "lost").verifier
  have spec := build_hides_words rfl halike ha hb
  refine ⟨rfl, halike, a, _, ha, hb, fun cache => spec.run_eq cache _, ?stranger, ?known⟩
  case stranger =>
    cases ha
    exact spec.foreign ⟨rfl, rfl⟩ rfl
  case known =>
    intro inner
    cases ha
    exact spec.denied inner rfl rfl

end CallGuard
