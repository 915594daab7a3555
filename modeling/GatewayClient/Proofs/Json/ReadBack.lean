/-
Texts and words that are read back from what is written for them.  A string is closed by its quote,
so anything may follow it; a word goes on as long as digits come, so what follows has to stop it.
-/
import GatewayClient.Json.Reader
import GatewayClient.Json.Writer

namespace GatewayClient

namespace Text

theorem isDigit_of_mem_toDigits {n : Nat} {c : Char} (h : c ∈ Nat.toDigits 10 n) :
    isDigit c = true := by
  have hdigit := Nat.isDigit_of_mem_toDigits (by decide) (by decide) h
  rw [Char.isDigit, Bool.and_eq_true, decide_eq_true_eq, decide_eq_true_eq] at hdigit
  exact decide_eq_true hdigit

theorem digitsValue_toDigits (n : Nat) : digitsValue (Nat.toDigits 10 n) = n :=
  Nat.ofDigitChars_toDigits (by decide) (by decide)

/-- No number above zero is written with a zero in front. -/
theorem head?_toDigits_ne {n : Nat} (hn : n ≠ 0) : (Nat.toDigits 10 n).head? ≠ some '0' := by
  induction n using Nat.strongRecOn with
  | ind n ih =>
      rw [Nat.toDigits_eq_if (by decide)]
      split
      · next hlt =>
          have hdigit : ∀ d < 10, d ≠ 0 → d.digitChar ≠ '0' := by decide
          exact fun hhead => hdigit n hlt hn (Option.some.inj hhead)
      · next hle =>
          have hrest : n / 10 ≠ 0 := by omega
          rw [List.head?_append, List.head?_eq_some_head Nat.toDigits_ne_nil, Option.some_or,
            ← List.head?_eq_some_head]
          exact ih (n / 10) (by omega) hrest

theorem le_foldl_digits (n : Nat) (digits : List Char) :
    n ≤ digits.foldl (fun n c => 10 * n + digitValue c) n := by
  induction digits generalizing n with
  | nil => exact Nat.le_refl n
  | cons c digits ih =>
      calc n ≤ 10 * n + digitValue c := by omega
        _ ≤ _ := ih (10 * n + digitValue c)

end Text

namespace Json

open Text (isDigit digitValue digitsValue)

variable {rest : List Char} {depth : Nat} {n : Nat}

/-- Whether a text does not go on with a numeral that stands before it. -/
def Stops (rest : List Char) : Prop :=
  ∀ c ∈ rest.head?, isDigit c = false ∧ c ≠ '.' ∧ c ≠ 'e' ∧ c ≠ 'E'

theorem stops_cons {c : Char} (hc : isDigit c = false ∧ c ≠ '.' ∧ c ≠ 'e' ∧ c ≠ 'E')
    (rest : List Char) : Stops (c :: rest) := by
  rintro _ ⟨⟩
  exact hc

namespace Numeral

theorem readDigits_append {digits : List Char} (hdigits : ∀ c ∈ digits, isDigit c = true)
    (hne : digits ≠ []) (hrest : Stops rest) :
    readDigits (digits ++ rest) = some (digits, rest) := by
  have hstop : rest.takeWhile isDigit = [] ∧ rest.dropWhile isDigit = rest := by
    cases rest with
    | nil => exact ⟨rfl, rfl⟩
    | cons c rest =>
        have hc := (hrest c rfl).1
        exact ⟨List.takeWhile_cons_of_neg (by simp [hc]), List.dropWhile_cons_of_neg (by simp [hc])⟩
  rw [readDigits, List.takeWhile_append_of_pos hdigits, List.dropWhile_append_of_pos hdigits,
    hstop.1, hstop.2, List.append_nil]
  cases digits with
  | nil => exact absurd rfl hne
  | cons => rfl

theorem readWhole_toDigits (n : Nat) (hrest : Stops rest) :
    readWhole (Nat.toDigits 10 n ++ rest) = some (Nat.toDigits 10 n, rest) := by
  have hread := readDigits_append (fun _ => Text.isDigit_of_mem_toDigits (n := n))
    Nat.toDigits_ne_nil hrest
  rw [readWhole, hread]
  by_cases hn : n = 0
  · subst hn
    rfl
  · have hhead := Text.head?_toDigits_ne hn
    split
    · next heq => rw [heq]
    · next heq =>
        rw [(Prod.mk.inj (Option.some.inj heq)).1] at hhead
        exact absurd rfl hhead
    · rfl

theorem read_toDigits (n : Nat) (hrest : Stops rest) :
    read (Nat.toDigits 10 n ++ rest) = some (⟨false, Nat.toDigits 10 n, none, none⟩, rest) := by
  have hsign : readSign (Nat.toDigits 10 n ++ rest) = (false, Nat.toDigits 10 n ++ rest) := by
    cases hdigits : Nat.toDigits 10 n with
    | nil => exact absurd hdigits Nat.toDigits_ne_nil
    | cons c digits =>
        have hc : isDigit c = true :=
          Text.isDigit_of_mem_toDigits (hdigits ▸ List.mem_cons_self)
        rw [List.cons_append, readSign]
        rintro _ heq
        cases heq
        cases hc
  have hfraction : readFraction rest = some (none, rest) := by
    cases rest with
    | nil => rfl
    | cons c rest =>
        rw [readFraction]
        rintro _ heq
        cases heq
        exact (hrest '.' rfl).2.1 rfl
  have hexponent : readExponent rest = some (none, rest) := by
    cases rest with
    | nil => rfl
    | cons c rest =>
        obtain ⟨-, -, he, hE⟩ := hrest c rfl
        rw [readExponent, if_neg (not_or.mpr ⟨he, hE⟩)]
  simp only [read, hsign, readWhole_toDigits n hrest, hfraction, hexponent, Option.bind_eq_bind,
    Option.bind_some, Option.pure_def]

/-- Digits are all taken where what they spell fits a word. -/
theorem absorb_of_le {significand : Nat} {digits : List Char}
    (h : digits.foldl (fun n c => 10 * n + digitValue c) significand ≤ wordMax) :
    absorb significand digits =
      (digits.foldl (fun n c => 10 * n + digitValue c) significand, digits.length) := by
  induction digits generalizing significand with
  | nil => rfl
  | cons c digits ih =>
      have hnext : 10 * significand + digitValue c ≤ wordMax :=
        Nat.le_trans (Text.le_foldl_digits _ digits) h
      simp only [absorb, if_neg (Nat.not_lt.mpr hnext), ih h, List.foldl_cons, List.length_cons]

theorem value?_toDigits (h : n < UInt64.size) :
    (⟨false, Nat.toDigits 10 n, none, none⟩ : Numeral).value? = some (.integer n) := by
  have hvalue : (Nat.toDigits 10 n).foldl (fun n c => 10 * n + digitValue c) 0 = n :=
    Text.digitsValue_toDigits n
  have habsorb : absorb 0 (Nat.toDigits 10 n) = (n, (Nat.toDigits 10 n).length) := by
    rw [absorb_of_le (by rw [hvalue]; exact Nat.le_sub_one_of_lt h), hvalue]
  simp [value?, habsorb]

end Numeral

theorem skipBlank_cons {c : Char} (hc : isBlank c = false) (cs : List Char) :
    skipBlank (c :: cs) = c :: cs :=
  List.dropWhile_cons_of_neg (by simp [hc])

theorem isBlank_of_isDigit {c : Char} (hc : isDigit c = true) : isBlank c = false := by
  have hrange : '0' ≤ c ∧ c ≤ '9' := of_decide_eq_true hc
  refine decide_eq_false ?_
  rintro (rfl | rfl | rfl | rfl) <;> revert hrange <;> decide

theorem readValue_of_digit {c : Char} (hc : isDigit c = true) (cs : List Char) :
    readValue depth (c :: cs) = (do
      let (numeral, rest) ← Numeral.read (c :: cs)
      let value ← numeral.value?
      return (value, rest)) := by
  rw [readValue.eq_def]
  dsimp only
  rw [skipBlank_cons (isBlank_of_isDigit hc)]
  split
  iterate 6
    next heq =>
      cases heq
      cases hc
  rfl

/-- A word is read back as it was written. -/
theorem readValue_word (h : n < UInt64.size) (hrest : Stops rest) :
    readValue depth (write (.integer n) ++ rest) = some (.integer n, rest) := by
  have hread := Numeral.read_toDigits n hrest
  change readValue depth (Nat.toDigits 10 n ++ rest) = _
  cases hdigits : Nat.toDigits 10 n with
  | nil => exact absurd hdigits Nat.toDigits_ne_nil
  | cons c digits =>
      have hc : isDigit c = true :=
        Text.isDigit_of_mem_toDigits (hdigits ▸ List.mem_cons_self)
      rw [List.cons_append, readValue_of_digit hc, ← List.cons_append, ← hdigits, hread]
      simp only [Option.bind_eq_bind, Option.bind_some, Numeral.value?_toDigits h, Option.pure_def]

theorem hexValue?_hexDigit : ∀ n < 16, hexValue? (hexDigit n) = some n := by
  decide

/-- A control character is escaped by its number, which is no surrogate's. -/
theorem readEscapedUnit_control {c : Char} (hc : c.toNat < 0x20) (rest : List Char) :
    readEscapedUnit ('0' :: '0' :: hexDigit (c.toNat / 16) :: hexDigit (c.toNat % 16) :: rest) =
      some (c, rest) := by
  have hunit : readUnit
      ('0' :: '0' :: hexDigit (c.toNat / 16) :: hexDigit (c.toNat % 16) :: rest) =
        some (c.toNat, rest) := by
    have hzero : hexValue? '0' = some 0 := rfl
    simp only [readUnit, hzero, hexValue?_hexDigit (c.toNat / 16) (by omega),
      hexValue?_hexDigit (c.toNat % 16) (by omega), Option.bind_eq_bind, Option.bind_some,
      Option.pure_def, Nat.zero_mul, Nat.zero_add, Nat.div_add_mod']
  rw [readEscapedUnit, hunit]
  simp only [Option.bind_eq_bind, Option.bind_some]
  rw [if_neg (by omega), if_neg (by omega), Char.ofNat_toNat]
  rfl

theorem readChars_writeChar (c : Char) (fuel : Nat) (rest : List Char) :
    readChars (fuel + 1) (writeChar c ++ rest) =
      (readChars fuel rest).map fun (text, rest) => (c :: text, rest) := by
  rw [Option.map_eq_bind, writeChar]
  iterate 7
    split
    · subst c
      rfl
  split
  · next hcontrol =>
      simp only [List.cons_append, List.nil_append, readChars, readEscapedUnit_control hcontrol]
      rfl
  · next hquote hslash _ _ _ _ _ hcontrol =>
      have hplain : ¬ (c.toNat < 0x20 ∨ c = '\\') := not_or.mpr ⟨hcontrol, hslash⟩
      rw [List.singleton_append, readChars, if_neg hplain]
      · rfl
      · exact hquote
      · exact fun _ heq _ => hslash heq
      · exact fun _ _ heq _ => hslash heq

theorem writeChar_ne_nil (c : Char) : writeChar c ≠ [] := by
  rw [writeChar]
  repeat' split
  all_goals exact List.cons_ne_nil _ _

theorem length_le_flatMap_writeChar (cs : List Char) :
    cs.length ≤ (cs.flatMap writeChar).length := by
  induction cs with
  | nil => exact Nat.le_refl 0
  | cons c cs ih =>
      have hc := List.length_pos_iff.mpr (writeChar_ne_nil c)
      rw [List.flatMap_cons, List.length_append, List.length_cons]
      omega

theorem readChars_flatMap_writeChar {cs : List Char} {fuel : Nat} (h : cs.length < fuel) :
    readChars fuel (cs.flatMap writeChar ++ '"' :: rest) = some (cs, rest) := by
  induction cs generalizing fuel with
  | nil =>
      obtain ⟨fuel, rfl⟩ := Nat.exists_eq_add_one_of_ne_zero (Nat.ne_of_gt h)
      rfl
  | cons c cs ih =>
      obtain ⟨fuel, rfl⟩ := Nat.exists_eq_add_one_of_ne_zero (Nat.ne_of_gt (Nat.zero_lt_of_lt h))
      rw [List.flatMap_cons, List.append_assoc, readChars_writeChar,
        ih (Nat.lt_of_succ_lt_succ h), Option.map_some]

theorem readText_append (text : String) (rest : List Char) :
    readText (text.toList.flatMap writeChar ++ '"' :: rest) = some (text, rest) := by
  have hfuel : text.toList.length <
      (text.toList.flatMap writeChar ++ '"' :: rest).length + 1 := by
    have hlength := length_le_flatMap_writeChar text.toList
    rw [List.length_append]
    omega
  rw [readText, readChars_flatMap_writeChar hfuel, Option.map_some]
  dsimp only
  rw [String.ofList_toList]

theorem writeText_append (text : String) (rest : List Char) :
    writeText text ++ rest = '"' :: (text.toList.flatMap writeChar ++ '"' :: rest) := by
  rw [writeText, List.cons_append, List.append_assoc, List.singleton_append]

/-- A text is read back as it was written, whatever characters are in it. -/
theorem readValue_text (text : String) (rest : List Char) :
    readValue depth (write (.string text) ++ rest) = some (.string text, rest) := by
  rw [write, writeText_append, readValue.eq_def]
  dsimp only
  rw [skipBlank_cons rfl]
  exact congrArg (Option.map fun p => (Json.string p.1, p.2)) (readText_append text rest)

theorem length_le_writeMembers (members : List (String × Json)) :
    members.length ≤ (writeMembers members).length := by
  induction members with
  | nil => exact Nat.zero_le _
  | cons member members ih =>
      cases members with
      | nil =>
          simp only [writeMembers, List.length_append, List.length_cons]
          omega
      | cons next members =>
          simp only [writeMembers, List.length_append, List.length_cons] at ih ⊢
          omega

end Json

end GatewayClient
