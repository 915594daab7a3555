/-
The texts of durations.  A text is read exactly if it is, without the blanks around it, a number
with one of the units after it or with none, and it is read as what it spells; a text that is
refused is refused in the name of the unit that it ends in.
-/
import GatewayClient.Proofs.Settings.RoundTrip
import GatewayClient.Proofs.Text.Trimmed

namespace GatewayClient

namespace Duration

open Text (Blanks Number Trims)

variable {text : String} {cs t number blanks body : List Char} {unit : DurationUnit} {n ms : Nat}

/-- The trimmed texts of durations, each with the milliseconds that it spells. -/
inductive Spelled : List Char → Nat → Prop where
  | milliseconds {number blanks : List Char} {n : Nat} (hnumber : Number number n)
    (hblanks : Blanks blanks) : Spelled (number ++ blanks ++ ['m', 's']) n
  | seconds {number blanks : List Char} {n : Nat} (hnumber : Number number n)
    (hblanks : Blanks blanks) : Spelled (number ++ blanks ++ ['s']) (n * 1000)
  | minutes {number blanks : List Char} {n : Nat} (hnumber : Number number n)
    (hblanks : Blanks blanks) : Spelled (number ++ blanks ++ ['m']) (n * 60 * 1000)
  | plain {number : List Char} {n : Nat} (hnumber : Number number n) : Spelled number n

/-- What is said of a trimmed text that spells no duration. -/
def refusal (t : List Char) : String :=
  if ['m', 's'] <:+ t then "invalid milliseconds"
  else if ['s'] <:+ t then "invalid seconds"
  else if ['m'] <:+ t then "invalid minutes"
  else "invalid duration format"

/-- Whether a text, if it spells minutes, spells so few that their seconds fit a word. -/
def FewMinutes (t : List Char) : Prop :=
  ∀ number blanks n, Number number n → Blanks blanks → t = number ++ blanks ++ ['m'] →
    n * 60 < UInt64.size

/-- The unit at the end of a text, and what is left before it.  Of the units that the text ends in
the longest counts. -/
inductive Ending : List Char → DurationUnit → List Char → Prop where
  | milliseconds (body : List Char) : Ending (body ++ ['m', 's']) .milliseconds (Text.trim body)
  | seconds (body : List Char) (hm : ¬ ['m'] <:+ body) :
    Ending (body ++ ['s']) .seconds (Text.trim body)
  | minutes (body : List Char) : Ending (body ++ ['m']) .minutes (Text.trim body)
  | plain (cs : List Char) (hs : ¬ ['s'] <:+ cs) (hm : ¬ ['m'] <:+ cs) : Ending cs .plain cs

theorem suffix_milliseconds_iff : ['m', 's'] <:+ body ++ ['s'] ↔ ['m'] <:+ body := by
  constructor
  · rintro ⟨rest, hrest⟩
    exact ⟨rest, (List.append_inj' (hrest.symm.trans (List.append_cons ..)) rfl).1.symm⟩
  · rintro ⟨rest, rfl⟩
    exact ⟨rest, List.append_cons ..⟩

theorem seconds_suffix_of_milliseconds (h : ['m', 's'] <:+ cs) : ['s'] <:+ cs :=
  (List.suffix_append ['m'] ['s']).trans h

theorem not_seconds_suffix (body : List Char) : ¬ ['s'] <:+ body ++ ['m'] := by
  simp

theorem splitUnit_ending (cs : List Char) : Ending cs (splitUnit cs).1 (splitUnit cs).2 := by
  rw [splitUnit]
  split
  · next body hbody =>
      rw [Text.dropSuffix?_eq_some_iff.mp hbody]
      exact .milliseconds body
  · next hms =>
      split
      · next body hbody =>
          rw [Text.dropSuffix?_eq_none_iff, Text.dropSuffix?_eq_some_iff.mp hbody,
            suffix_milliseconds_iff] at hms
          rw [Text.dropSuffix?_eq_some_iff.mp hbody]
          exact .seconds body hms
      · next hs =>
          split
          · next body hbody =>
              rw [Text.dropSuffix?_eq_some_iff.mp hbody]
              exact .minutes body
          · next hm =>
              exact .plain cs (Text.dropSuffix?_eq_none_iff.mp hs)
                (Text.dropSuffix?_eq_none_iff.mp hm)

theorem Ending.splitUnit_eq (h : Ending cs unit number) : splitUnit cs = (unit, number) := by
  cases h with
  | milliseconds body => rw [splitUnit, Text.dropSuffix?_eq_some_iff.mpr rfl]
  | seconds body hm =>
      have hms := Text.dropSuffix?_eq_none_iff.mpr (mt suffix_milliseconds_iff.mp hm)
      rw [splitUnit, hms, Text.dropSuffix?_eq_some_iff.mpr rfl]
  | minutes body =>
      have hs := not_seconds_suffix body
      have hms := mt seconds_suffix_of_milliseconds hs
      rw [splitUnit, Text.dropSuffix?_eq_none_iff.mpr hms, Text.dropSuffix?_eq_none_iff.mpr hs,
        Text.dropSuffix?_eq_some_iff.mpr rfl]
  | plain _ hs hm =>
      have hms := mt seconds_suffix_of_milliseconds hs
      rw [splitUnit, Text.dropSuffix?_eq_none_iff.mpr hms, Text.dropSuffix?_eq_none_iff.mpr hs,
        Text.dropSuffix?_eq_none_iff.mpr hm]

/-- The fault of a unit is what is said of the texts that end in it. -/
theorem Ending.fault_eq (h : Ending t unit number) : unit.fault = refusal t := by
  cases h with
  | milliseconds body => exact (if_pos (List.suffix_append body ['m', 's'])).symm
  | seconds body hm =>
      rw [refusal, if_neg (mt suffix_milliseconds_iff.mp hm), if_pos (List.suffix_append _ _)]
      rfl
  | minutes body =>
      have hs := not_seconds_suffix body
      rw [refusal, if_neg (mt seconds_suffix_of_milliseconds hs), if_neg hs,
        if_pos (List.suffix_append _ _)]
      rfl
  | plain _ hs hm =>
      rw [refusal, if_neg (mt seconds_suffix_of_milliseconds hs), if_neg hs, if_neg hm]
      rfl

/-- A text that ends in another unit spells no minutes. -/
theorem fewMinutes_of_suffix (h : ['s'] <:+ t) : FewMinutes t := by
  rintro number blanks n - - rfl
  exact absurd h (not_seconds_suffix _)

theorem fault_injective : Function.Injective DurationUnit.fault := by
  intro unit other h
  cases unit <;> cases other <;> first | rfl | exact absurd h (by decide)

/-- Neither blanks nor numbers have the letters of a unit in them. -/
theorem not_suffix_of_number {c : Char} (hnumber : Number number n) (hblanks : Blanks blanks)
    (hc : c = 'm' ∨ c = 's') : ¬ [c] <:+ number ++ blanks := by
  intro hsuffix
  have hmem := hsuffix.subset List.mem_cons_self
  rcases hc with rfl | rfl <;>
    exact hnumber.not_mem_append hblanks (by decide) (by decide) (by decide) hmem

/-- Few minutes make as many seconds as they do without a word's limit. -/
theorem span_minutes (hfew : n * 60 < UInt64.size) :
    DurationUnit.minutes.span n = n * 60 * 1000 := by
  rw [DurationUnit.span, Nat.mod_eq_of_lt hfew]

theorem Spelled.exists_ending (h : Spelled t ms) (hfew : FewMinutes t) :
    ∃ unit number n, Ending t unit number ∧ Number number n ∧ ms = unit.span n := by
  cases h with
  | @milliseconds number blanks n hnumber hblanks =>
      refine ⟨.milliseconds, number, ms, ?_, hnumber, rfl⟩
      have hending := Ending.milliseconds (number ++ blanks)
      rwa [hnumber.trim_append hblanks] at hending
  | @seconds number blanks n hnumber hblanks =>
      refine ⟨.seconds, number, n, ?_, hnumber, rfl⟩
      have hending := Ending.seconds (number ++ blanks)
        (not_suffix_of_number hnumber hblanks (.inl rfl))
      rwa [hnumber.trim_append hblanks] at hending
  | @minutes number blanks n hnumber hblanks =>
      refine ⟨.minutes, number, n, ?_, hnumber, ?_⟩
      swap
      · rw [span_minutes (hfew _ _ _ hnumber hblanks rfl)]
      have hending := Ending.minutes (number ++ blanks)
      rwa [hnumber.trim_append hblanks] at hending
  | plain hnumber =>
      refine ⟨.plain, t, ms, ?_, hnumber, rfl⟩
      have hnot : ∀ c, c = 'm' ∨ c = 's' → ¬ [c] <:+ t := by
        intro c hc
        have happend := not_suffix_of_number hnumber (List.forall_mem_nil _) hc
        rwa [List.append_nil] at happend
      exact .plain t (hnot 's' (.inr rfl)) (hnot 'm' (.inl rfl))

theorem Ending.spelled (h : Ending t unit number)
    (hhead : ∀ c ∈ t.head?, Text.isBlank c = false) (hnumber : Number number n)
    (hfew : FewMinutes t) : Spelled t (unit.span n) := by
  -- Before the unit the text begins as a whole, so there are no blanks in front of the number.
  have hbefore : ∀ body suffix, t = body ++ suffix → Number (Text.trim body) n →
      ∃ blanks, Blanks blanks ∧ t = Text.trim body ++ blanks ++ suffix := by
    rintro body suffix rfl hbody
    have hbody' : ∀ c ∈ body.head?, Text.isBlank c = false := fun c hc =>
      hhead c (List.mem_head?_append_of_mem_head? hc)
    obtain ⟨blanks, hblanks, heq⟩ := Text.exists_blanks_of_trim hbody'
    exact ⟨blanks, hblanks, by rw [← heq]⟩
  cases h with
  | milliseconds body =>
      obtain ⟨blanks, hblanks, heq⟩ := hbefore body _ rfl hnumber
      rw [heq]
      exact .milliseconds hnumber hblanks
  | seconds body hm =>
      obtain ⟨blanks, hblanks, heq⟩ := hbefore body _ rfl hnumber
      rw [heq]
      exact .seconds hnumber hblanks
  | minutes body =>
      obtain ⟨blanks, hblanks, heq⟩ := hbefore body _ rfl hnumber
      rw [span_minutes (hfew _ _ _ hnumber hblanks heq), heq]
      exact .minutes hnumber hblanks
  | plain _ hs hm => exact .plain hnumber

/-- A duration that is spelled has its whole seconds in a word. -/
theorem Spelled.seconds_lt (h : Spelled t ms) (hfew : FewMinutes t) :
    ms / 1000 < UInt64.size := by
  cases h with
  | milliseconds hnumber | plain hnumber =>
      exact Nat.lt_of_le_of_lt (Nat.div_le_self _ _) hnumber.lt_size
  | seconds hnumber =>
      rw [Nat.mul_div_cancel _ (by decide)]
      exact hnumber.lt_size
  | minutes hnumber hblanks =>
      rw [Nat.mul_div_cancel _ (by decide)]
      exact hfew _ _ _ hnumber hblanks rfl

theorem parse_eq_ok_iff (hfew : FewMinutes (Text.trim text.toList)) :
    parse text = .ok ms ↔ Spelled (Text.trim text.toList) ms := by
  constructor
  · intro h
    obtain ⟨unit, number, n, hsplit, hread, rfl⟩ := Settings.parse_duration_eq_ok h
    have hending := splitUnit_ending (Text.trim text.toList)
    rw [hsplit] at hending
    exact hending.spelled (Text.trims_trim _).head (Text.readWord?_eq_some_iff.mp hread) hfew
  · intro h
    obtain ⟨unit, number, n, hending, hnumber, rfl⟩ := h.exists_ending hfew
    rw [parse, hending.splitUnit_eq]
    dsimp only
    rw [Text.readWord?_eq_some_iff.mpr hnumber]

theorem fault_of_parse (h : parse text = .error unit) :
    unit.fault = refusal (Text.trim text.toList) := by
  rw [parse] at h
  split at h
  next unit' number hsplit =>
    split at h
    · cases h
    · cases h
      have hending := splitUnit_ending (Text.trim text.toList)
      rw [hsplit] at hending
      exact hending.fault_eq

/-- What is read of a text as a duration, told of the text without the blanks around it.  A text is
read exactly if it spells a duration, and any other is refused in the name of the unit that it ends
in.  A number says the same as a text, as a text with the unit `ms`, and as no text. -/
structure ReadsAs (text : String) (t : List Char) : Prop where
  accepts : ∀ ms, parse text = .ok ms ↔ Spelled t ms
  fits : ∀ ms, parse text = .ok ms → ms / 1000 < UInt64.size
  refuses : ∀ unit, parse text = .error unit ↔ (∀ ms, ¬ Spelled t ms) ∧ unit.fault = refusal t
  agrees : ∀ n, Number t n → Settings.readDuration (.string text) = .ok n ∧
    Settings.readDuration (.string (text ++ "ms")) = .ok n ∧
    Settings.readDuration (.integer n) = .ok n

theorem readDuration_of_parse (h : parse text = .ok ms) :
    Settings.readDuration (.string text) = .ok ms := by
  rw [Settings.readDuration, h]

/-- The blanks around a number may stand before a unit as well. -/
theorem parse_milliseconds (hnumber : Number (Text.trim text.toList) n) :
    parse (text ++ "ms") = .ok n := by
  obtain ⟨before, after, hbefore, hafter, htext⟩ := (Text.trims_trim text.toList).between
  have htrims : Text.trim (text ++ "ms").toList =
      Text.trim text.toList ++ after ++ ['m', 's'] := by
    refine Text.trim_eq_iff.mpr ⟨⟨before, [], hbefore, List.forall_mem_nil _, ?_⟩, ?_, ?_⟩
    · rw [String.toList_append, List.append_nil]
      conv_lhs => rw [htext]
      simp
    · intro c hc
      rw [List.append_assoc, List.head?_append_of_ne_nil _ hnumber.ne_nil] at hc
      exact (Text.trims_trim text.toList).head c hc
    · intro c hc
      rw [List.getLast?_append] at hc
      cases hc
      decide
  have hfew : FewMinutes (Text.trim (text ++ "ms").toList) := by
    rw [htrims]
    exact fewMinutes_of_suffix (seconds_suffix_of_milliseconds (List.suffix_append _ _))
  rw [parse_eq_ok_iff hfew, htrims]
  exact .milliseconds hnumber hafter

/-- Exactly the texts of durations are read, each as what it spells. -/
theorem duration_texts_exact (htrims : Trims text.toList t) (hfew : FewMinutes t) :
    ReadsAs text t := by
  obtain rfl := Text.trim_eq_iff.mpr htrims
  have hread : ∀ ms, parse text = .ok ms ↔ Spelled (Text.trim text.toList) ms :=
    fun _ => parse_eq_ok_iff hfew
  refine ⟨hread, fun ms h => ((hread ms).mp h).seconds_lt hfew,
    fun unit => ⟨fun h => ⟨fun ms hms => ?_, fault_of_parse h⟩, fun ⟨hnone, hfault⟩ => ?_⟩,
    fun n hnumber => ⟨?_, ?_, ?_⟩⟩
  · rw [(hread ms).mpr hms] at h
    cases h
  · cases hparse : parse text with
    | ok ms => exact absurd ((hread ms).mp hparse) (hnone ms)
    | error other =>
        rw [fault_injective ((fault_of_parse hparse).trans hfault.symm)]
  · exact readDuration_of_parse ((hread n).mpr (.plain hnumber))
  · exact readDuration_of_parse (parse_milliseconds hnumber)
  · have hread := Settings.readDuration_encodeDuration n
    rwa [Settings.encodeDuration, Nat.mod_eq_of_lt hnumber.lt_size] at hread

/-- Seven minutes, with a sign and zeros in front and blanks of several kinds. -/
theorem duration_texts_exact_minutes :
    let text := "\t+007 m\n"
    let t := ['+', '0', '0', '7', ' ', 'm']
    Trims text.toList t ∧ FewMinutes t ∧ parse text = .ok 420000 := by
  intro text t
  have htrims : Trims text.toList t := Text.trim_eq_iff.mp (by decide +kernel)
  have hseven : Number ['+', '0', '0', '7'] 7 := Text.readWord?_eq_some_iff.mp (by decide)
  have hblanks : Blanks [' '] := by
    rintro c hc
    rw [List.mem_singleton.mp hc]
    decide
  have hfew : FewMinutes t := by
    intro number blanks n hnumber hblanks' heq
    have hbody : ['+', '0', '0', '7'] ++ [' '] = number ++ blanks :=
      (List.append_inj' heq rfl).1
    have hsame : ['+', '0', '0', '7'] = number := by
      rw [← hseven.trim_append hblanks, hbody, hnumber.trim_append hblanks']
    subst hsame
    rw [hnumber.unique hseven]
    decide
  exact ⟨htrims, hfew,
    ((duration_texts_exact htrims hfew).accepts _).mpr (.minutes hseven hblanks)⟩

end Duration

end GatewayClient
