import Mathlib.Data.List.Induction
import Azbridge.Broker.Models
import Azbridge.Runtime.Sas

/-!
# Tokens of a broker

A gateway keeps the last token that the broker gave it for a relay and a right, and asks again once
the token comes near its expiry. Whatever was cached is forgotten before the broker is asked.
-/

namespace Azbridge.Sas

open Azbridge.Broker (RelayRight RelayTokenResponse)

/-- `TOKEN_RENEWAL_MARGIN`. -/
def tokenRenewalMargin : Nat := 300 * second

/-- An hour and a minute. -/
def longestLifetime : Nat := 3660 * second

/-- The last second that a `SystemTime` counts. -/
def lastSecond : Nat := 2 ^ 63 - 1

structure BrokerTokenProvider where
  relayName : String
  right : RelayRight
  audience : String
  deriving DecidableEq, Repr

def scopeChar (c : Char) : Bool := c.isAlphanum || ['/', '-', '.', '_'].contains c

def BrokerTokenProvider.new (libs : Libraries) (endpoint : Url) (relayName : String) (right : RelayRight) :
    Option BrokerTokenProvider :=
  if relayName.isEmpty ∨ (Text.split '/' relayName).any (fun s => s.isEmpty || s == "." || s == "..") ∨
      ¬ relayName.toList.all scopeChar = true then none
  else (buildRelayAddress libs endpoint relayName).map fun address => ⟨relayName, right, normalizeAudience libs address⟩

inductive TokenError where
  | wrongAudience
  | zeroLifetime
  | requestFailed (error : String)
  | invalid
  | expiry
  deriving DecidableEq, Repr

/-- The value of a field, where the fields are a map. -/
def field (params : List (String × String)) (name : String) : Option String :=
  (params.find? (·.1 = name)).map (·.2)

namespace BrokerTokenProvider
variable (libs : Libraries) (p : BrokerTokenProvider)

def validateToken (now : SystemTime) (response : RelayTokenResponse) : Except TokenError SecurityToken := do
  let some fields := Text.stripPrefix "SharedAccessSignature " response.token | throw .invalid
  let params := libs.parseForm fields
  -- A name that comes twice ends the loop that fills the map.
  if ¬ (params.map (·.1)).Nodup then throw .invalid
  if field params "sr" ≠ some p.audience ∨ (field params "se").bind Text.parseU64 ≠ some response.expiresAt ∨
      (field params "sig").all String.isEmpty ∨ (field params "skn").all String.isEmpty then
    throw .invalid
  if lastSecond < response.expiresAt then throw .invalid
  let expiresAt : SystemTime := response.expiresAt * second
  if expiresAt < now then throw .invalid
  let remaining := expiresAt - now
  if remaining ≤ tokenRenewalMargin ∨ longestLifetime < remaining then throw .expiry
  return ⟨response.token, expiresAt⟩

end BrokerTokenProvider

/-- One call of `get_token`: its arguments, the clock when the cache is looked at, what the broker
answers if it is asked, and the clock when the answer is validated. -/
structure Call where
  audience : String
  validFor : Nat
  checked : SystemTime
  /-- `none` if the call is dropped while it waits. -/
  reply : Option (Except String RelayTokenResponse)
  validated : SystemTime

def SecurityToken.usable (token : SecurityToken) (now : SystemTime) : Bool := (tokenRenewalMargin : Int) < token.expiresAt - now

namespace BrokerTokenProvider
variable (libs : Libraries) (p : BrokerTokenProvider)

/-- What the broker is asked for, and what becomes of its answer. -/
def fetch (call : Call) : Option (Except TokenError SecurityToken) :=
  call.reply.map fun
    | .ok response => p.validateToken libs call.validated response
    | .error e => .error (.requestFailed e)

/-- The result, if the call is not dropped, and the cache it leaves. -/
def getToken (cache : Option SecurityToken) (call : Call) : Option (Except TokenError SecurityToken) × Option SecurityToken :=
  if call.audience ≠ p.audience then (some (.error .wrongAudience), cache)
  else if call.validFor = 0 then (some (.error .zeroLifetime), cache)
  else
    match cache.filter (·.usable call.checked) with
    | some token => (some (.ok token), cache)
    | none =>
      -- Never fall back to stale tokens on a broker error or a revocation.
      match p.fetch libs call with
      | some (.ok token) => (some (.ok token), some token)
      | result => (result, none)

def cacheAfter (calls : List Call) : Option SecurityToken :=
  calls.foldl (fun cache call => (p.getToken libs cache call).2) none

def resultAfter (calls : List Call) (call : Call) : Option (Except TokenError SecurityToken) :=
  (p.getToken libs (p.cacheAfter libs calls) call).1

end BrokerTokenProvider

/-- A token of the right scope, with an expiry neither too near nor too far. -/
structure Validated (libs : Libraries) (p : BrokerTokenProvider) (now : SystemTime) (response : RelayTokenResponse)
    (token : SecurityToken) : Prop where
  text : token.token = response.token
  expiry : token.expiresAt = response.expiresAt * second
  fields : ∃ fields, response.token = "SharedAccessSignature " ++ fields ∧ ((libs.parseForm fields).map (·.1)).Nodup ∧
    ("sr", p.audience) ∈ libs.parseForm fields ∧
    (∃ se, ("se", se) ∈ libs.parseForm fields ∧ Text.parseU64 se = some response.expiresAt) ∧
    (∃ sig, ("sig", sig) ∈ libs.parseForm fields ∧ sig ≠ "") ∧ ∃ skn, ("skn", skn) ∈ libs.parseForm fields ∧ skn ≠ ""
  renewable : (tokenRenewalMargin : Int) < token.expiresAt - now
  limited : token.expiresAt - now ≤ longestLifetime

theorem mem_of_field {params : List (String × String)} {name value : String} (h : field params name = some value) :
    (name, value) ∈ params := by
  obtain ⟨⟨name', value'⟩, found, same⟩ := Option.map_eq_some_iff.mp h
  have named : name' = name := by simpa using List.find?_some found
  subst named
  cases same
  exact List.mem_of_find?_eq_some found

theorem validateToken_ok {libs : Libraries} {p : BrokerTokenProvider} {now : SystemTime} {response : RelayTokenResponse}
    {token : SecurityToken} (h : p.validateToken libs now response = .ok token) : Validated libs p now response token := by
  have filled : ∀ {name : String} {params : List (String × String)},
      ¬ (field params name).all String.isEmpty = true → ∃ value, (name, value) ∈ params ∧ value ≠ "" := by
    intro name params some_
    cases found : field params name with
    | none => simp [found] at some_
    | some value => exact ⟨value, mem_of_field found, by simpa [found, String.isEmpty_iff] using some_⟩
  simp only [BrokerTokenProvider.validateToken, bind, Except.bind, pure, Except.pure, throw, throwThe, MonadExceptOf.throw] at h
  split at h
  · next fields stripped =>
    split at h
    · cases h
    · next distinct =>
      split at h
      · cases h
      · next fits =>
        split at h
        · cases h
        · next counted =>
          split at h
          · cases h
          · next ahead =>
            split at h
            · cases h
            · next within =>
              simp only [not_or, ne_eq, Classical.not_not] at fits within distinct
              obtain ⟨sr, se, sig, skn⟩ := fits
              obtain ⟨seText, named, parsed⟩ := Option.bind_eq_some_iff.mp se
              cases h
              exact {
                text := rfl
                expiry := rfl
                fields := ⟨fields, Text.stripPrefix_eq_some stripped, distinct, mem_of_field sr,
                  ⟨seText, mem_of_field named, parsed⟩, filled sig, filled skn⟩
                renewable := Int.not_le.mp within.1
                limited := Int.not_lt.mp within.2 }
  · cases h

namespace BrokerTokenProvider
variable {libs : Libraries} {p : BrokerTokenProvider} {cache : Option SecurityToken} {call : Call} {calls : List Call}
  {token : SecurityToken}

/-- The broker was asked, or the call was dropped while it waited, and there was no token. -/
def Failed (result : Option (Except TokenError SecurityToken)) : Prop :=
  ∀ answer, result = some answer → ∃ e, answer = .error e ∧ e ≠ .wrongAudience ∧ e ≠ .zeroLifetime

def Supplies (libs : Libraries) (p : BrokerTokenProvider) (source : Call) (token : SecurityToken) : Prop :=
  source.audience = p.audience ∧ ∃ response, source.reply = some (.ok response) ∧ Validated libs p source.validated response token

theorem fetch_ok (asked : call.audience = p.audience) (h : p.fetch libs call = some (.ok token)) : Supplies libs p call token := by
  obtain ⟨reply, replied, answer⟩ := Option.map_eq_some_iff.mp h
  cases reply with
  | error e => cases answer
  | ok response => exact ⟨asked, response, replied, validateToken_ok answer⟩

theorem getToken_ok (h : (p.getToken libs cache call).1 = some (.ok token)) : call.audience = p.audience ∧
    (cache = some token ∧ token.usable call.checked = true ∨ Supplies libs p call token) := by
  unfold getToken at h
  split at h
  · cases h
  · next asked =>
    rw [ne_eq, Classical.not_not] at asked
    split at h
    · cases h
    · next lasting =>
      split at h
      · next held cached =>
        obtain ⟨there, usable⟩ := Option.filter_eq_some_iff.mp cached
        cases h
        exact ⟨asked, .inl ⟨there, usable⟩⟩
      · next missing =>
        split at h
        · next fetched answer =>
          cases h
          exact ⟨asked, .inr (fetch_ok asked answer)⟩
        · next other => exact absurd h (other token)

theorem getToken_cache (h : (p.getToken libs cache call).2 = some token) :
    cache = some token ∨ (p.getToken libs cache call).1 = some (.ok token) := by
  unfold getToken at h ⊢
  split at h
  · exact .inl h
  · next asked =>
    split at h
    · exact .inl h
    · next lasting =>
      split at h
      · exact .inl h
      · next missing =>
        rw [if_neg asked, if_neg lasting]
        split at h
        · next fetched answer =>
          cases h
          exact .inr rfl
        · cases h

theorem getToken_failed (failed : Failed (p.getToken libs cache call).1) : (p.getToken libs cache call).2 = none := by
  unfold getToken at failed ⊢
  split at failed
  · obtain ⟨e, same, other, -⟩ := failed _ rfl
    cases same
    exact absurd rfl other
  · next asked =>
    split at failed
    · obtain ⟨e, same, -, other⟩ := failed _ rfl
      cases same
      exact absurd rfl other
    · next lasting =>
      rw [if_neg asked, if_neg lasting]
      split at failed
      · obtain ⟨e, same, -⟩ := failed _ rfl
        cases same
      · next missing =>
        split at failed
        · obtain ⟨e, same, -⟩ := failed _ rfl
          cases same
        · rfl

theorem cacheAfter_concat (calls : List Call) (call : Call) :
    p.cacheAfter libs (calls ++ [call]) = (p.getToken libs (p.cacheAfter libs calls) call).2 := by
  simp [cacheAfter]

def Supplied (libs : Libraries) (p : BrokerTokenProvider) (calls : List Call) (token : SecurityToken) : Prop :=
  ∃ source ∈ calls, Supplies libs p source token

theorem supplied_of_cached (h : p.cacheAfter libs calls = some token) : Supplied libs p calls token := by
  induction calls using List.reverseRecOn with
  | nil =>
    rw [cacheAfter, List.foldl_nil] at h
    cases h
  | append_singleton calls call ih =>
    rw [cacheAfter_concat] at h
    have before : p.cacheAfter libs calls = some token → Supplied libs p (calls ++ [call]) token := by
      intro cached
      obtain ⟨source, member, supplies⟩ := ih cached
      exact ⟨source, List.mem_append_left _ member, supplies⟩
    rcases getToken_cache h with cached | returned
    · exact before cached
    · obtain ⟨-, origin⟩ := getToken_ok returned
      rcases origin with ⟨cached, -⟩ | supplies
      · exact before cached
      · exact ⟨call, by simp, supplies⟩

/-- After a failure it is as if nothing had been called before. -/
theorem resultAfter_failed {earlier later : List Call} {failing : Call} (failed : Failed (p.resultAfter libs earlier failing)) :
    p.resultAfter libs (earlier ++ failing :: later) call = p.resultAfter libs later call := by
  have cleared : p.cacheAfter libs (earlier ++ [failing]) = none := by
    rw [cacheAfter_concat]
    exact getToken_failed failed
  have same : p.cacheAfter libs (earlier ++ failing :: later) = p.cacheAfter libs later := by
    rw [List.append_cons]
    unfold cacheAfter at cleared ⊢
    rw [List.foldl_append, cleared]
  unfold resultAfter
  rw [same]

/-- Whatever is called in whatever order: a token that is returned was supplied by the broker for this
audience with its expiry, limited when it was validated, and is not near its expiry when it is returned;
and after a failure the broker must supply another. -/
theorem tokens_are_fresh (libs : Libraries) (p : BrokerTokenProvider) :
    (∀ calls call token, p.resultAfter libs calls call = some (.ok token) →
      call.audience = p.audience ∧ Supplied libs p (calls ++ [call]) token ∧
        (Supplies libs p call token ∨ (tokenRenewalMargin : Int) < token.expiresAt - call.checked)) ∧
    ∀ earlier failing later call token, Failed (p.resultAfter libs earlier failing) →
      p.resultAfter libs (earlier ++ failing :: later) call = some (.ok token) → Supplied libs p (later ++ [call]) token := by
  have returned : ∀ calls call token, p.resultAfter libs calls call = some (.ok token) →
      call.audience = p.audience ∧ Supplied libs p (calls ++ [call]) token ∧
        (Supplies libs p call token ∨ (tokenRenewalMargin : Int) < token.expiresAt - call.checked) := by
    intro calls call token result
    obtain ⟨asked, origin⟩ := getToken_ok result
    rcases origin with ⟨cached, usable⟩ | supplies
    · obtain ⟨source, member, supplies⟩ := supplied_of_cached cached
      exact ⟨asked, ⟨source, List.mem_append_left _ member, supplies⟩, .inr (of_decide_eq_true usable)⟩
    · exact ⟨asked, ⟨call, by simp, supplies⟩, .inl supplies⟩
  refine ⟨returned, ?_⟩
  intro earlier failing later call token failed result
  rw [resultAfter_failed failed] at result
  exact (returned later call token result).2.1

end BrokerTokenProvider

def oneToken : RelayTokenResponse := ⟨"SharedAccessSignature sr=a&sig=s&se=4000&skn=k", 4000⟩

def nextToken : RelayTokenResponse := ⟨"SharedAccessSignature sr=a&sig=t&se=7000&skn=k", 7000⟩

/-- Knows the fields of two tokens. -/
def twoForms : Libraries where
  parseUrl _ := none
  parseForm fields :=
    if fields = "sr=a&sig=s&se=4000&skn=k" then [("sr", "a"), ("sig", "s"), ("se", "4000"), ("skn", "k")]
    else if fields = "sr=a&sig=t&se=7000&skn=k" then [("sr", "a"), ("sig", "t"), ("se", "7000"), ("skn", "k")]
    else []
  mac _ _ := ""
  unicode := ⟨Char.isAlphanum, fun c => [c.toLower]⟩

def listening : BrokerTokenProvider := ⟨"r", .listen, "a"⟩

def callAt (s : Nat) (reply : Except String RelayTokenResponse) : Call := ⟨"a", 1, s * second, some reply, s * second⟩

/-- Asked a second time, the provider returns what it got before. Near the expiry a refusal leaves it without a token
until the broker gives the next one. -/
theorem tokens_are_fresh_again :
    (∃ token, listening.resultAfter twoForms [callAt 1000 (.ok oneToken)] (callAt 2000 (.error "gone")) = some (.ok token) ∧
      (tokenRenewalMargin : Int) < token.expiresAt - 2000 * second) ∧
    listening.resultAfter twoForms [callAt 1000 (.ok oneToken)] (callAt 3800 (.error "gone")) = some (.error (.requestFailed "gone")) ∧
    ∃ token, listening.resultAfter twoForms [callAt 1000 (.ok oneToken), callAt 3800 (.error "gone"), callAt 3850 (.ok nextToken)]
        (callAt 5000 (.error "gone")) = some (.ok token) ∧
      BrokerTokenProvider.Supplied twoForms listening [callAt 3850 (.ok nextToken), callAt 5000 (.error "gone")] token := by
  obtain ⟨fresh, renewed⟩ := BrokerTokenProvider.tokens_are_fresh twoForms listening
  have refused : listening.resultAfter twoForms [callAt 1000 (.ok oneToken)] (callAt 3800 (.error "gone")) =
      some (.error (.requestFailed "gone")) := by decide +kernel
  refine ⟨⟨⟨oneToken.token, 4000 * second⟩, by decide +kernel, ?_⟩, refused, ⟨nextToken.token, 7000 * second⟩, by decide +kernel, ?_⟩
  · have own := fresh [callAt 1000 (.ok oneToken)] (callAt 2000 (.error "gone")) ⟨oneToken.token, 4000 * second⟩ (by decide +kernel)
    rcases own.2.2 with ⟨-, response, answered, -⟩ | margin
    · cases answered
    · exact margin
  · have failed : BrokerTokenProvider.Failed (listening.resultAfter twoForms [callAt 1000 (.ok oneToken)] (callAt 3800 (.error "gone"))) := by
      intro answer result
      obtain rfl := Option.some.inj (refused.symm.trans result)
      exact ⟨_, rfl, by decide, by decide⟩
    exact renewed [callAt 1000 (.ok oneToken)] (callAt 3800 (.error "gone")) [callAt 3850 (.ok nextToken)]
      (callAt 5000 (.error "gone")) ⟨nextToken.token, 7000 * second⟩ failed (by decide +kernel)

end Azbridge.Sas
