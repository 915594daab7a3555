/-
Settings that are written and read again.  A duration is written as a 64-bit word of milliseconds,
and one that was given in seconds or minutes need not fit it.
-/
import GatewayClient.Proofs.Json.ReadBack
import GatewayClient.Proofs.Settings.Source

namespace GatewayClient

namespace Settings

variable {s source : Settings} {key : Key} {keys seen : List Key} {rest : List Char}
  {depth fuel : Nat}

/-- The settings with every duration cut down to a word. -/
def reduced (s : Settings) : Settings :=
  { s with
    waitTime := s.waitTime % UInt64.size
    subscribeTimeout := s.subscribeTimeout % UInt64.size
    cleanupInterval := s.cleanupInterval % UInt64.size }

/-- What settings are written with under a key. -/
def value (s : Settings) : Key → Json
  | .waitTime => encodeDuration s.waitTime
  | .subscribeTimeout => encodeDuration s.subscribeTimeout
  | .cleanupInterval => encodeDuration s.cleanupInterval
  | .gatewayUrl => .string s.gatewayUrl
  | .logLevel => .string s.logLevel
  | .outboundBuffer => Json.ofWord s.outboundBuffer

/-- What settings are written with under each of some keys. -/
def members (s : Settings) (keys : List Key) : List (String × Json) :=
  keys.map fun key => (key.text, s.value key)

/-- The settings as an object with their members in some order. -/
def listed (s : Settings) (order : List Key) : Json :=
  .object (s.members order)

/-- The settings with what others have under a key. -/
def adopt (source s : Settings) : Key → Settings
  | .waitTime => { s with waitTime := source.waitTime }
  | .subscribeTimeout => { s with subscribeTimeout := source.subscribeTimeout }
  | .cleanupInterval => { s with cleanupInterval := source.cleanupInterval }
  | .gatewayUrl => { s with gatewayUrl := source.gatewayUrl }
  | .logLevel => { s with logLevel := source.logLevel }
  | .outboundBuffer => { s with outboundBuffer := source.outboundBuffer }

theorem Key.ofText?_text (key : Key) : Key.ofText? key.text = some key := by
  cases key <;> rfl

theorem readDuration_encodeDuration (ms : Nat) :
    readDuration (encodeDuration ms) = .ok (ms % UInt64.size) := by
  have hword : ms % UInt64.size < UInt64.size := Nat.mod_lt _ (by decide)
  have hread : (encodeDuration ms).toWord? = some (UInt64.ofNat (ms % UInt64.size)) :=
    if_pos ⟨Int.natCast_nonneg _, hword⟩
  rw [encodeDuration] at hread ⊢
  rw [readDuration.eq_def]
  dsimp only
  rw [hread]
  exact congrArg Except.ok (Nat.mod_eq_of_lt hword)

theorem set_value (source s : Settings) (key : Key) :
    s.set key (source.value key) = .ok (adopt source.reduced s key) := by
  cases key with
  | waitTime | subscribeTimeout | cleanupInterval =>
      rw [set, value, readDuration_encodeDuration]
      rfl
  | gatewayUrl | logLevel => rfl
  | outboundBuffer =>
      have hread : Codec.uint64.decode (source.value .outboundBuffer) =
          some source.outboundBuffer := Json.toWord?_ofWord _
      rw [set, hread]
      rfl

theorem readValue_value (source : Settings) (key : Key) (hrest : Json.Stops rest) :
    Json.readValue depth (Json.write (source.value key) ++ rest) =
      some (source.value key, rest) := by
  cases key with
  | waitTime | subscribeTimeout | cleanupInterval =>
      exact Json.readValue_word (Nat.mod_lt _ (by decide)) hrest
  | gatewayUrl | logLevel => exact Json.readValue_text _ _
  | outboundBuffer => exact Json.readValue_word (UInt64.toNat_lt _) hrest

theorem readField_value (source s : Settings) (key : Key) (hrest : Json.Stops rest) :
    s.readField key (Json.write (source.value key) ++ rest) =
      .ok (adopt source.reduced s key, rest) := by
  rw [readField, readValue_value source key hrest]
  change (s.set key (source.value key)).bind _ = _
  rw [set_value]
  rfl

/-- A written member is read as the member it is, unless one of its key has come before. -/
theorem readMembers_member (hseen : key ∉ seen) (hrest : Json.Stops rest) :
    readMembers (fuel + 1) seen s
        (Json.writeText key.text ++ ':' :: (Json.write (source.value key) ++ rest)) =
      match Json.skipBlank rest with
      | ',' :: rest => readMembers fuel (key :: seen) (adopt source.reduced s key) rest
      | '}' :: rest => .ok (adopt source.reduced s key, rest)
      | _ => .error .unreadable := by
  have hquote : Json.isBlank '"' = false := rfl
  have hcolon : Json.isBlank ':' = false := rfl
  have hnew : (some key).any (seen.contains ·) = false := by
    simpa using hseen
  rw [readMembers, Json.writeText_append]
  simp only [Json.skipBlank_cons hquote, Json.skipBlank_cons hcolon, Json.readText_append,
    orUnreadable, bind, Except.bind, Key.ofText?_text, hnew, readField_value source s key hrest]
  rfl

/-- Written members are read one after the other, and each is taken over. -/
theorem readMembers_listed (hkeys : keys ≠ []) (hnodup : keys.Nodup)
    (hseen : ∀ key ∈ keys, key ∉ seen) (hfuel : keys.length ≤ fuel) :
    readMembers fuel seen s (Json.writeMembers (source.members keys) ++ rest) =
      .ok (keys.foldl (adopt source.reduced) s, rest) := by
  induction keys generalizing fuel seen s with
  | nil => exact absurd rfl hkeys
  | cons key keys ih =>
      obtain ⟨fuel, rfl⟩ : ∃ rest, fuel = rest + 1 :=
        Nat.exists_eq_add_one_of_ne_zero (Nat.ne_of_gt (Nat.lt_of_lt_of_le (by simp) hfuel))
      obtain ⟨hkey, htail⟩ := List.forall_mem_cons.mp hseen
      obtain ⟨hnot, hnodup⟩ := List.nodup_cons.mp hnodup
      cases keys with
      | nil =>
          have hwrite : Json.writeMembers (source.members [key]) ++ rest =
              Json.writeText key.text ++ ':' :: (Json.write (source.value key) ++ '}' :: rest) := by
            simp [members, Json.writeMembers]
          rw [hwrite, readMembers_member hkey (Json.stops_cons (by decide) _),
            Json.skipBlank_cons rfl]
          rfl
      | cons next keys =>
          have hwrite : Json.writeMembers (source.members (key :: next :: keys)) ++ rest =
              Json.writeText key.text ++ ':' :: (Json.write (source.value key) ++
                ',' :: (Json.writeMembers (source.members (next :: keys)) ++ rest)) := by
            simp [members, Json.writeMembers]
          have hlater : ∀ later ∈ next :: keys, later ∉ key :: seen := fun later hmem =>
            List.not_mem_cons_of_ne_of_not_mem (fun heq => hnot (heq ▸ hmem)) (htail later hmem)
          rw [hwrite, readMembers_member hkey (Json.stops_cons (by decide) _),
            Json.skipBlank_cons rfl]
          exact ih (List.cons_ne_nil _ _) hnodup hlater (Nat.le_of_succ_le_succ hfuel)

theorem adopt_comm (source s : Settings) (key other : Key) :
    adopt source (adopt source s key) other = adopt source (adopt source s other) key := by
  cases key <;> cases other <;> rfl

/-- Where every member is taken over, in whatever order, nothing else is left. -/
theorem foldl_adopt (h : keys.Perm Key.all) (source s : Settings) :
    keys.foldl (adopt source) s = source := by
  rw [h.foldl_eq' fun key _ other _ s => adopt_comm source s key other]
  rfl

theorem Key.nodup_all : Key.all.Nodup := by
  decide

theorem readSettings_listed (h : keys.Perm Key.all) (source : Settings) :
    readSettings (source.listed keys).render.toList = .ok (source.reduced, []) := by
  have hlength : keys.length ≤ (Json.writeMembers (source.members keys)).length :=
    Nat.le_trans (Nat.le_of_eq (List.length_map _).symm) (Json.length_le_writeMembers _)
  have hkeys : keys ≠ [] := List.ne_nil_of_length_pos (h.length_eq ▸ by decide)
  have hread : readMembers ((Json.writeMembers (source.members keys)).length + 1) [] {}
      (Json.writeMembers (source.members keys) ++ []) = .ok (source.reduced, []) := by
    rw [readMembers_listed hkeys (h.nodup_iff.mpr Key.nodup_all) (fun _ _ => List.not_mem_nil)
      (Nat.le_succ_of_le hlength), foldl_adopt h]
  obtain ⟨tail, htail⟩ : ∃ tail, Json.writeMembers (source.members keys) = '"' :: tail := by
    match keys with
    | [_] | _ :: _ :: _ => exact ⟨_, rfl⟩
  rw [List.append_nil, htail] at hread
  rw [listed, Json.render, Json.write, htail, String.toList_ofList, readSettings,
    Json.skipBlank_cons rfl]
  exact hread

/-- Settings are read with every duration cut down, and are refused where those are. -/
theorem parse_listed (h : keys.Perm Key.all) (source : Settings) :
    parse (source.listed keys).render = source.reduced.validate.map fun _ => source.reduced := by
  rw [parse, readSettings_listed h]
  change source.reduced.validate.bind _ = _
  cases source.reduced.validate <;> rfl

/-- The order in which settings are written is that of their keys' texts. -/
def writtenOrder : List Key :=
  [.cleanupInterval, .logLevel, .outboundBuffer, .subscribeTimeout, .waitTime, .gatewayUrl]

theorem toJson_eq_listed (s : Settings) : s.toJson = s.listed writtenOrder := by
  simp only [toJson, codec, duration, Codec.convert, Codec.string, Codec.uint64, Fields.record,
    Fields.toMembers, Field.defaulted, Json.ofMembers, Json.sortMembers, Json.putMember, listed,
    members, writtenOrder, value, Key.text, List.foldl_cons, List.foldl_nil, List.map_cons,
    List.map_nil, String.reduceEq, String.reduceLT, reduceIte, Bool.false_eq_true]

theorem reduced_eq_iff : s.reduced = s ↔ ∀ ms ∈ s.durations, ms < UInt64.size := by
  have hcut : ∀ ms, ms % UInt64.size = ms ↔ ms < UInt64.size := fun ms =>
    Nat.mod_eq_iff_lt (by decide)
  obtain ⟨waitTime, subscribeTimeout, cleanupInterval, gatewayUrl, logLevel, outboundBuffer⟩ := s
  simp [reduced, durations, hcut]

/-- What settings are read as that were read and written again.  They are read as they were
exactly if every duration fits a word, and a duration that does not was given in seconds or in
minutes.  The order in which the members are written does not matter. -/
theorem reads_what_was_read {text : String} (h : parse text = .ok s) :
    (∃ order : List Key, order.Perm Key.all ∧ s.toJson = s.listed order) ∧
    (∀ order : List Key, order.Perm Key.all →
      parse (s.listed order).render = s.reduced.validate.map (fun _ => s.reduced) ∧
      (parse (s.listed order).render = .ok s ↔ ∀ ms ∈ s.durations, ms < UInt64.size)) ∧
    ∀ ms ∈ s.durations, UInt64.size ≤ ms →
      ∃ given unit number n, Spells text.toList (.string given) ms ∧
        Duration.splitUnit (Text.trim given.toList) = (unit, number) ∧
        (unit = .seconds ∨ unit = .minutes) ∧ Text.readWord? number = some n ∧
        ms = unit.span n := by
  obtain ⟨⟨rest, hread⟩, hvalid⟩ := parse_eq_ok h
  refine ⟨⟨writtenOrder, by decide, s.toJson_eq_listed⟩, fun order horder => ?_,
    fun ms hmem hlarge => ?_⟩
  · refine ⟨parse_listed horder s, ?_⟩
    rw [parse_listed horder, ← reduced_eq_iff]
    constructor
    · intro hsame
      obtain ⟨_, -, hreduced⟩ := exists_of_map_eq_ok hsame
      exact hreduced
    · intro hreduced
      rw [hreduced, hvalid]
      rfl
  · rcases sourced_of_readSettings hread ms hmem with hdefault | ⟨v, hspells⟩
    · have hsmall : ∀ ms ∈ ({} : Settings).durations, ms < UInt64.size := by decide
      exact absurd hlarge (Nat.not_le.mpr (hsmall ms hdefault))
    · obtain ⟨given, unit, number, n, rfl, hunit⟩ := large_of_readDuration hspells.2 hlarge
      exact ⟨given, unit, number, n, hspells, hunit⟩

/-- Durations in all forms that fit a word. -/
theorem reads_what_was_read_units :
    let text :=
      "\x7b\"waitTime\":\"250\",\"subscribeTimeout\":\"3s\",\"cleanupInterval\":\" 2 m\"\x7d"
    let s : Settings := { waitTime := 250, subscribeTimeout := 3000, cleanupInterval := 120000 }
    parse text = .ok s ∧ parse s.toJson.render = .ok s := by
  intro text s
  have hparse : parse text = .ok s := eq_ok_of_toOption (by decide +kernel)
  obtain ⟨⟨order, horder, hwritten⟩, hread, -⟩ := reads_what_was_read hparse
  rw [hwritten]
  exact ⟨hparse, (hread order horder).2.mpr (by decide)⟩

/-- So many seconds are a multiple of 2^64 milliseconds, and nothing of them is left in a word. -/
theorem refuses_what_was_read :
    let text := "\x7b\"waitTime\":\"2305843009213693952s\"\x7d"
    let s : Settings := { waitTime := 2305843009213693952000 }
    parse text = .ok s ∧ parse s.toJson.render = .error (.zeroTimeout "waitTime") := by
  intro text s
  refine ⟨eq_ok_of_toOption (by decide +kernel), ?_⟩
  have hcut : s.reduced.waitTime = 0 := by decide
  rw [toJson_eq_listed, parse_listed (by decide), validate, if_pos hcut]
  rfl

end Settings

end GatewayClient
