/-
Settings with the environment's word over them.  What was valid stays valid unless the environment
sets a waiting time of zero or a url that is no websocket's; these are taken as they are.
-/
import GatewayClient.Proofs.Settings.Source
import GatewayClient.Proofs.Text.Trimmed
import GatewayClient.Settings.Environment

namespace GatewayClient

namespace Environment

/-- Whether the waiting time is set to a number that is zero. -/
def SetsZeroWaitTime (env : Environment) : Prop :=
  ∃ text, env.text? "FIREBOLT_WAIT_TIME_MS" = some text ∧ Text.Number text.toList 0

/-- Whether the url is set to one that is no websocket's. -/
def SetsForeignUrl (env : Environment) (url : String) : Prop :=
  env.text? "FIREBOLT_WS_URL" = some url ∧ Settings.isWebsocketUrl url = false

end Environment

namespace Settings

variable {s : Settings} {env : Environment} {url : String}

/-- Settings that a client can work with. -/
structure Valid (s : Settings) : Prop where
  waitTime : s.waitTime ≠ 0
  subscribeTimeout : s.subscribeTimeout ≠ 0
  cleanupInterval : s.cleanupInterval ≠ 0
  outboundBuffer : s.outboundBuffer ≠ 0
  gatewayUrl : isWebsocketUrl s.gatewayUrl = true

/-- Whether settings are the defaults or were read from a text. -/
def Obtained (s : Settings) : Prop :=
  s = {} ∨ ∃ text, parse text = .ok s

theorem ite_error_eq_ok {ε α : Type} {p : Prop} [Decidable p] {e : ε} {x : Except ε α} {a : α} :
    (if p then .error e else x) = .ok a ↔ ¬ p ∧ x = .ok a := by
  split
  · next hp => exact iff_of_false (fun heq => nomatch heq) fun h => h.1 hp
  · next hp => exact (and_iff_right hp).symm

theorem validate_eq_ok_iff : s.validate = .ok () ↔ s.Valid := by
  simp only [validate, ite_error_eq_ok, Bool.not_eq_true', Bool.not_eq_false]
  constructor
  · rintro ⟨hwait, hsubscribe, hcleanup, hbuffer, hurl, -⟩
    exact ⟨hwait, hsubscribe, hcleanup, hbuffer, hurl⟩
  · rintro ⟨hwait, hsubscribe, hcleanup, hbuffer, hurl⟩
    exact ⟨hwait, hsubscribe, hcleanup, hbuffer, hurl, trivial⟩

theorem Valid.default : ({} : Settings).Valid :=
  validate_eq_ok_iff.mp (by decide +kernel)

theorem Obtained.valid (h : s.Obtained) : s.Valid := by
  rcases h with rfl | ⟨text, htext⟩
  · exact Valid.default
  · exact validate_eq_ok_iff.mp (parse_eq_ok htext).2

/-- Where only the url is at fault, the url is what is refused. -/
theorem validate_of_foreign (hwait : s.waitTime ≠ 0) (hsubscribe : s.subscribeTimeout ≠ 0)
    (hcleanup : s.cleanupInterval ≠ 0) (hbuffer : s.outboundBuffer ≠ 0)
    (hurl : isWebsocketUrl s.gatewayUrl = false) :
    s.validate = .error (.notWebsocket s.gatewayUrl) := by
  rw [validate, if_neg hwait, if_neg hsubscribe, if_neg hcleanup, if_neg hbuffer, hurl]
  rfl

theorem waitTime_override (h : s.waitTime ≠ 0) :
    (s.override env).waitTime = 0 ↔ env.SetsZeroWaitTime := by
  change ((env.text? "FIREBOLT_WAIT_TIME_MS").bind waitTimeOf?).getD s.waitTime = 0 ↔ _
  cases hset : env.text? "FIREBOLT_WAIT_TIME_MS" with
  | none =>
      refine iff_of_false h ?_
      rintro ⟨text, htext, -⟩
      rw [hset] at htext
      cases htext
  | some text =>
      have hzero : (waitTimeOf? text).getD s.waitTime = 0 ↔ waitTimeOf? text = some 0 := by
        cases waitTimeOf? text with
        | none => exact iff_of_false h (fun heq => nomatch heq)
        | some n => exact Option.some_inj.symm
      rw [Option.bind_some, hzero, waitTimeOf?, Text.readWord?_eq_some_iff]
      constructor
      · exact fun hnumber => ⟨text, hset, hnumber⟩
      · rintro ⟨text', htext', hnumber⟩
        rw [hset] at htext'
        cases htext'
        exact hnumber

theorem gatewayUrl_override_of_set (hset : env.text? "FIREBOLT_WS_URL" = some url) :
    (s.override env).gatewayUrl = url := by
  change (env.text? "FIREBOLT_WS_URL").getD s.gatewayUrl = url
  rw [hset]
  rfl

theorem isWebsocketUrl_override (h : isWebsocketUrl s.gatewayUrl = true) :
    isWebsocketUrl (s.override env).gatewayUrl = true ↔ ∀ url, ¬ env.SetsForeignUrl url := by
  cases hset : env.text? "FIREBOLT_WS_URL" with
  | none =>
      have hkept : (s.override env).gatewayUrl = s.gatewayUrl := by
        change (env.text? "FIREBOLT_WS_URL").getD s.gatewayUrl = s.gatewayUrl
        rw [hset]
        rfl
      rw [hkept]
      refine iff_of_true h fun url hforeign => ?_
      rw [Environment.SetsForeignUrl, hset] at hforeign
      cases hforeign.1
  | some url =>
      rw [gatewayUrl_override_of_set hset]
      constructor
      · rintro hurl other ⟨hother, hforeign⟩
        rw [hset] at hother
        cases hother
        rw [hurl] at hforeign
        cases hforeign
      · intro hnone
        exact eq_true_of_ne_false fun hforeign => hnone url ⟨hset, hforeign⟩

/-- Of a valid configuration the environment can only spoil the waiting time and the url. -/
theorem Valid.override_iff (h : s.Valid) :
    (s.override env).Valid ↔ ¬ env.SetsZeroWaitTime ∧ ∀ url, ¬ env.SetsForeignUrl url := by
  rw [← waitTime_override h.waitTime, ← isWebsocketUrl_override h.gatewayUrl]
  constructor
  · exact fun hvalid => ⟨hvalid.waitTime, hvalid.gatewayUrl⟩
  · exact fun ⟨hwait, hurl⟩ =>
      ⟨hwait, h.subscribeTimeout, h.cleanupInterval, h.outboundBuffer, hurl⟩

/-- What validation says of settings with the environment's word over them: they are valid unless
the environment sets a waiting time of zero or a foreign url.  What it has no variable for stays. -/
structure ValidUnless (s : Settings) (env : Environment) : Prop where
  valid_iff : (s.override env).validate = .ok () ↔
    ¬ env.SetsZeroWaitTime ∧ ∀ url, ¬ env.SetsForeignUrl url
  zero : env.SetsZeroWaitTime → (s.override env).validate = .error (.zeroTimeout "waitTime")
  foreign : ∀ url, env.SetsForeignUrl url → ¬ env.SetsZeroWaitTime →
    (s.override env).validate = .error (.notWebsocket url)
  others : (s.override env).subscribeTimeout = s.subscribeTimeout ∧
    (s.override env).cleanupInterval = s.cleanupInterval ∧
    (s.override env).outboundBuffer = s.outboundBuffer

/-- The environment keeps a configuration valid, unless it sets a waiting time of zero or a url that
is no websocket's. -/
theorem overrides_keep_valid_unless (h : s.Obtained) (env : Environment) : ValidUnless s env where
  valid_iff := validate_eq_ok_iff.trans h.valid.override_iff
  zero := fun hzero => if_pos ((waitTime_override h.valid.waitTime).mpr hzero)
  foreign := by
    rintro url ⟨hset, hforeign⟩ hzero
    have hurl : (s.override env).gatewayUrl = url := gatewayUrl_override_of_set hset
    rw [← hurl] at hforeign ⊢
    exact validate_of_foreign (mt (waitTime_override h.valid.waitTime).mp hzero)
      h.valid.subscribeTimeout h.valid.cleanupInterval h.valid.outboundBuffer hforeign
  others := ⟨rfl, rfl, rfl⟩

/-- A url is refused that stands over the one of a text, and a zero with a sign before the url. -/
theorem overrides_keep_valid_unless_foreign :
    let text := "\x7b\"waitTime\":\"3s\"\x7d"
    let s : Settings := { waitTime := 3000 }
    let env : Environment := ⟨[("FIREBOLT_WS_URL", "http://tv".toUTF8)]⟩
    let zero : Environment := ⟨("FIREBOLT_WAIT_TIME_MS", "+00".toUTF8) :: env.entries⟩
    parse text = .ok s ∧ (s.override env).validate = .error (.notWebsocket "http://tv") ∧
      (s.override zero).validate = .error (.zeroTimeout "waitTime") := by
  intro text s env zero
  have hparse : parse text = .ok s := eq_ok_of_toOption (by decide +kernel)
  have hforeign : env.SetsForeignUrl "http://tv" := ⟨by decide +kernel, by decide +kernel⟩
  have hunset : ¬ env.SetsZeroWaitTime := by
    rintro ⟨text, htext, -⟩
    have hnone : env.text? "FIREBOLT_WAIT_TIME_MS" = none := by decide +kernel
    rw [hnone] at htext
    cases htext
  have hzero : zero.SetsZeroWaitTime :=
    ⟨"+00", by decide +kernel, Text.readWord?_eq_some_iff.mp (by decide +kernel)⟩
  exact ⟨hparse,
    (overrides_keep_valid_unless (.inr ⟨text, hparse⟩) env).foreign _ hforeign hunset,
    (overrides_keep_valid_unless (.inr ⟨text, hparse⟩) zero).zero hzero⟩

/-- The defaults are valid, and with a waiting time of zero from the environment they are not. -/
theorem override_spoils_defaults :
    let env : Environment := ⟨[("FIREBOLT_WAIT_TIME_MS", "0".toUTF8)]⟩
    Obtained {} ∧ (override {} env).validate = .error (.zeroTimeout "waitTime") :=
  ⟨.inl rfl, by decide +kernel⟩

end Settings

end GatewayClient
