/-
Where the durations of settings come from.  Each is a default or is spelled by a value that stands
in the text, and only a number of seconds or of minutes can be more milliseconds than a word holds.
-/
import GatewayClient.Proofs.Json.Rest
import GatewayClient.Settings.Reader

namespace GatewayClient

namespace Settings

variable {s s' : Settings} {key : Key} {keys seen : List Key} {text cs rest : List Char}
  {v : Json} {fuel ms : Nat}

/-- The durations among the settings. -/
def durations (s : Settings) : List Nat :=
  [s.waitTime, s.subscribeTimeout, s.cleanupInterval]

/-- Whether a value that stands in the text is read as this duration. -/
def Spells (text : List Char) (v : Json) (ms : Nat) : Prop :=
  (∃ cs rest, cs <:+ text ∧ Json.readValue (Json.depthLimit - 1) cs = some (v, rest)) ∧
    readDuration v = .ok ms

/-- Whether every duration is a default or is spelled in the text. -/
def Sourced (text : List Char) (s : Settings) : Prop :=
  ∀ ms ∈ s.durations, ms ∈ ({} : Settings).durations ∨ ∃ v, Spells text v ms

theorem sourced_default (text : List Char) : Sourced text {} :=
  fun _ hmem => .inl hmem

theorem exists_of_bind_eq_ok {ε α β : Type} {x : Except ε α} {f : α → Except ε β} {b : β}
    (h : x.bind f = .ok b) : ∃ a, x = .ok a ∧ f a = .ok b := by
  cases x with
  | error e => cases h
  | ok a => exact ⟨a, rfl, h⟩

theorem exists_of_map_eq_ok {ε α β : Type} {x : Except ε α} {f : α → β} {b : β}
    (h : x.map f = .ok b) : ∃ a, x = .ok a ∧ f a = b := by
  cases x with
  | error e => cases h
  | ok a => exact ⟨a, rfl, Except.ok.inj h⟩

theorem eq_ok_of_toOption {ε α : Type} {x : Except ε α} {a : α} (h : x.toOption = some a) :
    x = .ok a := by
  cases x with
  | error e => cases h
  | ok b => exact congrArg Except.ok (Option.some.inj h)

theorem orUnreadable_eq_ok {α : Type} {x : Option α} {a : α} (h : orUnreadable x = .ok a) :
    x = some a := by
  cases x with
  | none => cases h
  | some b => exact congrArg some (Except.ok.inj h)

/-- Setting a member leaves the durations as they are, but for one that the value says. -/
theorem mem_durations_of_set (h : s.set key v = .ok s') (hmem : ms ∈ s'.durations) :
    ms ∈ s.durations ∨ readDuration v = .ok ms := by
  cases key with
  | waitTime | subscribeTimeout | cleanupInterval =>
      obtain ⟨n, hread, rfl⟩ := exists_of_map_eq_ok h
      simp only [durations, List.mem_cons, List.not_mem_nil, or_false] at hmem ⊢
      grind
  | gatewayUrl | logLevel | outboundBuffer =>
      obtain ⟨_, -, rfl⟩ := Option.map_eq_some_iff.mp (orUnreadable_eq_ok h)
      exact .inl hmem

theorem Sourced.readField (hs : Sourced text s) (hcs : cs <:+ text)
    (h : s.readField key cs = .ok (s', rest)) : Sourced text s' ∧ rest <:+ text := by
  obtain ⟨⟨v, after⟩, hvalue, h⟩ := exists_of_bind_eq_ok h
  obtain ⟨s₁, hset, hpair⟩ := exists_of_bind_eq_ok h
  cases hpair
  have hread := orUnreadable_eq_ok hvalue
  refine ⟨fun ms hmem => ?_, (Json.readValue_suffix hread).trans hcs⟩
  rcases mem_durations_of_set hset hmem with hbefore | hsays
  · exact hs ms hbefore
  · exact .inr ⟨v, ⟨cs, _, hcs, hread⟩, hsays⟩

/-- What comes after a member, in a text whose durations so far are sourced. -/
theorem Sourced.goOn (hs : Sourced text s) (hcs : cs <:+ text)
    (hmore : ∀ {cs}, cs <:+ text → readMembers fuel seen s cs = .ok (s', rest) →
      Sourced text s' ∧ rest <:+ text)
    (h : (match Json.skipBlank cs with
      | ',' :: cs => readMembers fuel seen s cs
      | '}' :: cs => .ok (s, cs)
      | _ => .error .unreadable) = .ok (s', rest)) : Sourced text s' ∧ rest <:+ text := by
  split at h
  · next hcomma => exact hmore ((Json.suffix_of_skipBlank hcomma).trans hcs) h
  · next hend =>
      cases h
      exact ⟨hs, (Json.suffix_of_skipBlank hend).trans hcs⟩
  · cases h

theorem Sourced.readMembers (hs : Sourced text s) (hcs : cs <:+ text)
    (h : readMembers fuel seen s cs = .ok (s', rest)) : Sourced text s' ∧ rest <:+ text := by
  induction fuel generalizing seen s cs with
  | zero => cases h
  | succ fuel ih =>
      rw [Settings.readMembers] at h
      split at h
      · next hquote =>
        obtain ⟨⟨name, afterName⟩, hname, h⟩ := exists_of_bind_eq_ok h
        have hafterName := (Json.readText_suffix (orUnreadable_eq_ok hname)).trans
          ((Json.suffix_of_skipBlank hquote).trans hcs)
        dsimp only at h
        split at h
        · cases h
        split at h
        · next hcolon =>
          obtain ⟨afterColon, hvalue, h⟩ := exists_of_bind_eq_ok h
          cases hvalue
          have hafterColon := (Json.suffix_of_skipBlank hcolon).trans hafterName
          split at h
          · obtain ⟨⟨s₁, after⟩, hfield, h⟩ := exists_of_bind_eq_ok h
            obtain ⟨hs₁, hafter⟩ := hs.readField hafterColon hfield
            exact hs₁.goOn hafter (ih hs₁) h
          · obtain ⟨⟨s₁, after⟩, hskip, h⟩ := exists_of_bind_eq_ok h
            obtain ⟨_, hskip, hpair⟩ := exists_of_map_eq_ok hskip
            cases hpair
            have hafter := (Json.skipValue_suffix (orUnreadable_eq_ok hskip)).trans hafterColon
            exact hs.goOn hafter (ih hs) h
        · cases h
      · cases h

theorem Sourced.readItems (hs : Sourced text s) (hcs : cs <:+ text)
    (h : readItems keys s cs = .ok (s', rest)) : Sourced text s' ∧ rest <:+ text := by
  induction keys generalizing s cs with
  | nil => cases h
  | cons key keys ih =>
      obtain ⟨⟨s₁, after⟩, hfield, h⟩ := exists_of_bind_eq_ok h
      obtain ⟨hs₁, hafter⟩ := hs.readField hcs hfield
      dsimp only at h
      split at h
      · next hcomma => exact ih hs₁ ((Json.suffix_of_skipBlank hcomma).trans hafter) h
      · next hend =>
          cases h
          exact ⟨hs₁, (Json.suffix_of_skipBlank hend).trans hafter⟩
      · cases h

theorem sourced_of_readSettings (h : readSettings text = .ok (s, rest)) : Sourced text s := by
  rw [readSettings] at h
  split at h
  · next hbrace =>
      split at h
      · cases h
        exact sourced_default text
      · have hstart := (Json.skipBlank_suffix _).trans (Json.suffix_of_skipBlank hbrace)
        exact ((sourced_default text).readMembers hstart h).1
  · next hbracket =>
      split at h
      · cases h
        exact sourced_default text
      · have hstart := (Json.skipBlank_suffix _).trans (Json.suffix_of_skipBlank hbracket)
        exact ((sourced_default text).readItems hstart h).1
  · cases h

theorem parse_eq_ok {text : String} (h : parse text = .ok s) :
    (∃ rest, readSettings text.toList = .ok (s, rest)) ∧ s.validate = .ok () := by
  obtain ⟨⟨s₁, rest⟩, hread, h⟩ := exists_of_bind_eq_ok h
  dsimp only at h
  split at h
  · cases h
  · obtain ⟨_, hvalid, h⟩ := exists_of_bind_eq_ok h
    cases h
    exact ⟨⟨rest, hread⟩, hvalid⟩

theorem readWord?_lt {number : List Char} {n : Nat} (h : Text.readWord? number = some n) :
    n < UInt64.size := by
  rw [Text.readWord?] at h
  split at h
  · next hword =>
      cases h
      exact hword.2.2
  · cases h

theorem parse_duration_eq_ok {text : String} (h : Duration.parse text = .ok ms) :
    ∃ unit number n, Duration.splitUnit (Text.trim text.toList) = (unit, number) ∧
      Text.readWord? number = some n ∧ ms = unit.span n := by
  rw [Duration.parse] at h
  split at h
  next unit number hsplit =>
    split at h
    · next n hn =>
        cases h
        exact ⟨unit, number, n, hsplit, hn, rfl⟩
    · cases h

/-- Too many milliseconds for a word are spelled only by a number of seconds or of minutes. -/
theorem large_of_readDuration (h : readDuration v = .ok ms) (hlarge : UInt64.size ≤ ms) :
    ∃ text unit number n, v = .string text ∧
      Duration.splitUnit (Text.trim text.toList) = (unit, number) ∧
      (unit = .seconds ∨ unit = .minutes) ∧ Text.readWord? number = some n ∧
      ms = unit.span n := by
  rw [readDuration.eq_def] at h
  split at h
  · next text =>
      split at h
      · next hparse =>
          cases h
          obtain ⟨unit, number, n, hsplit, hn, rfl⟩ := parse_duration_eq_ok hparse
          have hword := readWord?_lt hn
          refine ⟨text, unit, number, n, rfl, hsplit, ?_, hn, rfl⟩
          cases unit with
          | seconds => exact .inl rfl
          | minutes => exact .inr rfl
          | milliseconds | plain => exact absurd hword (Nat.not_lt.mpr hlarge)
      · cases h
  · split at h
    · next n _ =>
        cases h
        exact absurd n.toNat_lt (Nat.not_lt.mpr hlarge)
    · cases h

end Settings

end GatewayClient
