/-
What a reader leaves over is the end of the text that it was given.
-/
import GatewayClient.Json.Reader

namespace GatewayClient.Json

variable {cs rest word digits : List Char} {fuel depth : Nat}

theorem skipBlank_suffix (cs : List Char) : skipBlank cs <:+ cs :=
  List.dropWhile_suffix _

/-- What is left after a character of the unblanked text is left of the text. -/
theorem suffix_of_skipBlank {c : Char} (h : skipBlank cs = c :: rest) : rest <:+ cs :=
  (List.suffix_cons c rest).trans (h ▸ skipBlank_suffix cs)

namespace Numeral

theorem readDigits_suffix (h : readDigits cs = some (digits, rest)) : rest <:+ cs := by
  rw [readDigits] at h
  split at h
  · cases h
  · cases h
    exact List.dropWhile_suffix _

theorem readWhole_suffix (h : readWhole cs = some (digits, rest)) : rest <:+ cs := by
  rw [readWhole] at h
  split at h
  · next hread =>
      cases h
      exact readDigits_suffix hread
  · cases h
  · exact readDigits_suffix h

theorem readFraction_suffix {fraction : Option (List Char)}
    (h : readFraction cs = some (fraction, rest)) : rest <:+ cs := by
  rw [readFraction.eq_def] at h
  split at h
  · obtain ⟨⟨digits, after⟩, hread, hpair⟩ := Option.map_eq_some_iff.mp h
    cases hpair
    exact (readDigits_suffix hread).trans (List.suffix_cons _ _)
  · cases h
    exact List.suffix_rfl

theorem readExponentSign_suffix (cs : List Char) : (readExponentSign cs).2 <:+ cs := by
  rw [readExponentSign.eq_def]
  split
  · exact List.suffix_cons _ _
  · exact List.suffix_cons _ _
  · exact List.suffix_rfl

theorem readExponent_suffix {exponent : Option (Bool × List Char)}
    (h : readExponent cs = some (exponent, rest)) : rest <:+ cs := by
  rw [readExponent.eq_def] at h
  split at h
  · cases h
    exact List.suffix_rfl
  · next c cs =>
      split at h
      · obtain ⟨⟨digits, after⟩, hread, hpair⟩ := Option.map_eq_some_iff.mp h
        cases hpair
        exact (readDigits_suffix hread).trans
          ((readExponentSign_suffix cs).trans (List.suffix_cons c cs))
      · cases h
        exact List.suffix_rfl

theorem readSign_suffix (cs : List Char) : (readSign cs).2 <:+ cs := by
  rw [readSign.eq_def]
  split
  · exact List.suffix_cons _ _
  · exact List.suffix_rfl

theorem read_suffix {numeral : Numeral} (h : read cs = some (numeral, rest)) : rest <:+ cs := by
  obtain ⟨⟨whole, afterWhole⟩, hwhole, h⟩ := Option.bind_eq_some_iff.mp h
  obtain ⟨⟨fraction, afterFraction⟩, hfraction, h⟩ := Option.bind_eq_some_iff.mp h
  obtain ⟨⟨exponent, afterExponent⟩, hexponent, hpair⟩ := Option.bind_eq_some_iff.mp h
  cases hpair
  have hunsigned := (readWhole_suffix hwhole).trans (readSign_suffix cs)
  exact (readExponent_suffix hexponent).trans ((readFraction_suffix hfraction).trans hunsigned)

end Numeral

theorem readUnit_suffix {unit : Nat} (h : readUnit cs = some (unit, rest)) : rest <:+ cs := by
  rw [readUnit.eq_def] at h
  split at h
  · next a b c d after =>
      obtain ⟨_, -, h⟩ := Option.bind_eq_some_iff.mp h
      obtain ⟨_, -, h⟩ := Option.bind_eq_some_iff.mp h
      obtain ⟨_, -, h⟩ := Option.bind_eq_some_iff.mp h
      obtain ⟨_, -, hpair⟩ := Option.bind_eq_some_iff.mp h
      cases hpair
      exact ⟨[a, b, c, d], rfl⟩
  · cases h

theorem readEscapedUnit_suffix {c : Char} (h : readEscapedUnit cs = some (c, rest)) :
    rest <:+ cs := by
  obtain ⟨⟨high, afterHigh⟩, hhigh, h⟩ := Option.bind_eq_some_iff.mp h
  have hafter := readUnit_suffix hhigh
  dsimp only at h
  split at h
  · split at h
    · next afterMark _ _ =>
        obtain ⟨⟨low, afterLow⟩, hlow, h⟩ := Option.bind_eq_some_iff.mp h
        dsimp only at h
        split at h
        · obtain ⟨-, rfl⟩ := Prod.mk.inj (Option.some.inj h)
          exact (readUnit_suffix hlow).trans (.trans ⟨['\\', 'u'], rfl⟩ hafter)
        · cases h
    · cases h
  · split at h
    · cases h
    · obtain ⟨-, rfl⟩ := Prod.mk.inj (Option.some.inj h)
      exact hafter

theorem readChars_suffix {text : List Char} (h : readChars fuel cs = some (text, rest)) :
    rest <:+ cs := by
  induction fuel generalizing cs text with
  | zero => cases h
  | succ fuel ih =>
      rw [readChars.eq_def] at h
      dsimp only at h
      split at h
      · cases h
      · cases h
        exact List.suffix_cons _ _
      · obtain ⟨⟨c, after⟩, hunit, h⟩ := Option.bind_eq_some_iff.mp h
        obtain ⟨⟨more, last⟩, hmore, hpair⟩ := Option.bind_eq_some_iff.mp h
        cases hpair
        exact (ih hmore).trans ((readEscapedUnit_suffix hunit).trans ⟨['\\', 'u'], rfl⟩)
      · next e after _ =>
          obtain ⟨c, -, h⟩ := Option.bind_eq_some_iff.mp h
          obtain ⟨⟨more, last⟩, hmore, hpair⟩ := Option.bind_eq_some_iff.mp h
          cases hpair
          exact (ih hmore).trans ⟨['\\', e], rfl⟩
      · split at h
        · cases h
        · obtain ⟨⟨more, last⟩, hmore, hpair⟩ := Option.bind_eq_some_iff.mp h
          cases hpair
          exact (ih hmore).trans (List.suffix_cons _ _)

theorem readText_suffix {text : String} (h : readText cs = some (text, rest)) : rest <:+ cs := by
  obtain ⟨⟨chars, after⟩, hchars, hpair⟩ := Option.map_eq_some_iff.mp h
  cases hpair
  exact readChars_suffix hchars

theorem skipText_suffix (h : skipText fuel cs = some rest) : rest <:+ cs := by
  induction fuel generalizing cs with
  | zero => cases h
  | succ fuel ih =>
      rw [skipText.eq_def] at h
      dsimp only at h
      split at h
      · cases h
      · cases h
        exact List.suffix_cons _ _
      · obtain ⟨⟨_, after⟩, hunit, h⟩ := Option.bind_eq_some_iff.mp h
        exact (ih h).trans ((readUnit_suffix hunit).trans ⟨['\\', 'u'], rfl⟩)
      · next e after _ =>
          obtain ⟨_, -, h⟩ := Option.bind_eq_some_iff.mp h
          exact (ih h).trans ⟨['\\', e], rfl⟩
      · split at h
        · cases h
        · exact (ih h).trans (List.suffix_cons _ _)

theorem readWord_suffix (h : readWord word cs = some rest) : rest <:+ cs := by
  rw [readWord] at h
  split at h
  · cases h
    exact List.drop_suffix _ _
  · cases h

section Nested

variable {item : List Char → Option (Json × List Char)} {skip : List Char → Option (List Char)}

theorem readItems_suffix (hitem : ∀ cs v rest, item cs = some (v, rest) → rest <:+ cs)
    {items : List Json} (h : readItems item fuel cs = some (items, rest)) : rest <:+ cs := by
  induction fuel generalizing cs items with
  | zero => cases h
  | succ fuel ih =>
      obtain ⟨⟨v, after⟩, hv, h⟩ := Option.bind_eq_some_iff.mp h
      dsimp only at h
      split at h
      · next hcomma =>
          obtain ⟨⟨vs, last⟩, hvs, hpair⟩ := Option.bind_eq_some_iff.mp h
          cases hpair
          exact (ih hvs).trans ((suffix_of_skipBlank hcomma).trans (hitem _ _ _ hv))
      · next hend =>
          cases h
          exact (suffix_of_skipBlank hend).trans (hitem _ _ _ hv)
      · cases h

theorem readKey_suffix {key : String} (h : readKey cs = some (key, rest)) : rest <:+ cs := by
  rw [readKey] at h
  split at h
  · next hquote =>
      obtain ⟨⟨name, after⟩, htext, h⟩ := Option.bind_eq_some_iff.mp h
      dsimp only at h
      split at h
      · next hcolon =>
          cases h
          exact (suffix_of_skipBlank hcolon).trans
            ((readText_suffix htext).trans (suffix_of_skipBlank hquote))
      · cases h
  · cases h

theorem readMembers_suffix (hitem : ∀ cs v rest, item cs = some (v, rest) → rest <:+ cs)
    {members : List (String × Json)} (h : readMembers item fuel cs = some (members, rest)) :
    rest <:+ cs := by
  induction fuel generalizing cs members with
  | zero => cases h
  | succ fuel ih =>
      obtain ⟨⟨key, afterKey⟩, hkey, h⟩ := Option.bind_eq_some_iff.mp h
      obtain ⟨⟨v, after⟩, hv, h⟩ := Option.bind_eq_some_iff.mp h
      have hafter := (hitem _ _ _ hv).trans (readKey_suffix hkey)
      dsimp only at h
      split at h
      · next hcomma =>
          obtain ⟨⟨vs, last⟩, hvs, hpair⟩ := Option.bind_eq_some_iff.mp h
          cases hpair
          exact (ih hvs).trans ((suffix_of_skipBlank hcomma).trans hafter)
      · next hend =>
          cases h
          exact (suffix_of_skipBlank hend).trans hafter
      · cases h

theorem skipItems_suffix (hskip : ∀ cs rest, skip cs = some rest → rest <:+ cs)
    (h : skipItems skip fuel cs = some rest) : rest <:+ cs := by
  induction fuel generalizing cs with
  | zero => cases h
  | succ fuel ih =>
      obtain ⟨after, hitem, h⟩ := Option.bind_eq_some_iff.mp h
      split at h
      · next hcomma => exact (ih h).trans ((suffix_of_skipBlank hcomma).trans (hskip _ _ hitem))
      · next hend =>
          cases h
          exact (suffix_of_skipBlank hend).trans (hskip _ _ hitem)
      · cases h

theorem skipMembers_suffix (hskip : ∀ cs rest, skip cs = some rest → rest <:+ cs)
    (h : skipMembers skip fuel cs = some rest) : rest <:+ cs := by
  induction fuel generalizing cs with
  | zero => cases h
  | succ fuel ih =>
      rw [skipMembers] at h
      split at h
      · next hquote =>
          obtain ⟨afterKey, hkey, h⟩ := Option.bind_eq_some_iff.mp h
          split at h
          · next hcolon =>
              obtain ⟨after, hitem, h⟩ := Option.bind_eq_some_iff.mp h
              have hkey := (skipText_suffix hkey).trans (suffix_of_skipBlank hquote)
              have hafter := (hskip _ _ hitem).trans ((suffix_of_skipBlank hcolon).trans hkey)
              split at h
              · next hcomma => exact (ih h).trans ((suffix_of_skipBlank hcomma).trans hafter)
              · next hend =>
                  cases h
                  exact (suffix_of_skipBlank hend).trans hafter
              · cases h
          · cases h
      · cases h

end Nested

theorem readValue_suffix {v : Json} (h : readValue depth cs = some (v, rest)) : rest <:+ cs := by
  induction depth using Nat.strongRecOn generalizing cs v rest with
  | ind depth ih =>
      rw [readValue.eq_def] at h
      dsimp only at h
      split at h
      iterate 3
        next hhead =>
          obtain ⟨_, hword, hpair⟩ := Option.map_eq_some_iff.mp h
          cases hpair
          exact (readWord_suffix hword).trans (suffix_of_skipBlank hhead)
      · next hhead =>
          obtain ⟨_, htext, hpair⟩ := Option.map_eq_some_iff.mp h
          cases hpair
          exact (readText_suffix htext).trans (suffix_of_skipBlank hhead)
      · next hhead =>
          split at h
          · cases h
          · next depth =>
              split at h
              · next hend =>
                  cases h
                  exact (suffix_of_skipBlank hend).trans (suffix_of_skipBlank hhead)
              · obtain ⟨_, hitems, hpair⟩ := Option.map_eq_some_iff.mp h
                cases hpair
                have hrest := readItems_suffix (fun _ _ _ => ih depth depth.lt_succ_self) hitems
                exact hrest.trans ((skipBlank_suffix _).trans (suffix_of_skipBlank hhead))
      · next hhead =>
          split at h
          · cases h
          · next depth =>
              split at h
              · next hend =>
                  cases h
                  exact (suffix_of_skipBlank hend).trans (suffix_of_skipBlank hhead)
              · obtain ⟨_, hmembers, hpair⟩ := Option.map_eq_some_iff.mp h
                cases hpair
                have hrest :=
                  readMembers_suffix (fun _ _ _ => ih depth depth.lt_succ_self) hmembers
                exact hrest.trans ((skipBlank_suffix _).trans (suffix_of_skipBlank hhead))
      · obtain ⟨⟨numeral, _⟩, hread, h⟩ := Option.bind_eq_some_iff.mp h
        obtain ⟨_, -, hpair⟩ := Option.bind_eq_some_iff.mp h
        cases hpair
        exact (Numeral.read_suffix hread).trans (skipBlank_suffix cs)

theorem skipNested_suffix (h : skipNested depth cs = some rest) : rest <:+ cs := by
  induction depth using Nat.strongRecOn generalizing cs rest with
  | ind depth ih =>
      rw [skipNested.eq_def] at h
      dsimp only at h
      split at h
      iterate 3
        next hhead => exact (readWord_suffix h).trans (suffix_of_skipBlank hhead)
      · next hhead => exact (skipText_suffix h).trans (suffix_of_skipBlank hhead)
      · next hhead =>
          split at h
          · cases h
          · next depth =>
              split at h
              · next hend =>
                  cases h
                  exact (suffix_of_skipBlank hend).trans (suffix_of_skipBlank hhead)
              · have hrest := skipItems_suffix (fun _ _ => ih depth depth.lt_succ_self) h
                exact hrest.trans ((skipBlank_suffix _).trans (suffix_of_skipBlank hhead))
      · next hhead =>
          split at h
          · cases h
          · next depth =>
              split at h
              · next hend =>
                  cases h
                  exact (suffix_of_skipBlank hend).trans (suffix_of_skipBlank hhead)
              · have hrest := skipMembers_suffix (fun _ _ => ih depth depth.lt_succ_self) h
                exact hrest.trans ((skipBlank_suffix _).trans (suffix_of_skipBlank hhead))
      · obtain ⟨⟨numeral, _⟩, hread, hpair⟩ := Option.map_eq_some_iff.mp h
        cases hpair
        exact (Numeral.read_suffix hread).trans (skipBlank_suffix cs)

theorem skipValue_suffix (h : skipValue cs = some rest) : rest <:+ cs :=
  skipNested_suffix h

end GatewayClient.Json
