/-
Trimmed texts and numbers, said by what they are and not by how they are found: a trimmed text is
what stands between blanks and has none at its ends, and a number is an optional plus sign with
digits after it.
-/
import GatewayClient.Text.Blank
import GatewayClient.Text.Word
import Mathlib.Data.List.DropRight
import Mathlib.Data.Nat.Digits.Defs

namespace GatewayClient

namespace Text

variable {cs t suffix rest number blanks digits : List Char} {c : Char} {n m : Nat}

/-- Whether a text has nothing but blanks. -/
def Blanks (cs : List Char) : Prop :=
  ∀ c ∈ cs, isBlank c = true

/-- Whether a text stands between blanks and neither begins nor ends with one. -/
structure Trims (cs t : List Char) : Prop where
  between : ∃ before after, Blanks before ∧ Blanks after ∧ cs = before ++ t ++ after
  head : ∀ c ∈ t.head?, isBlank c = false
  last : ∀ c ∈ t.getLast?, isBlank c = false

/-- A number of a 64-bit word: a plus sign or none, and one or more decimal digits. -/
def Number (cs : List Char) (n : Nat) : Prop :=
  ∃ sign digits, (sign = [] ∨ sign = ['+']) ∧ digits ≠ [] ∧ (∀ c ∈ digits, '0' ≤ c ∧ c ≤ '9') ∧
    cs = sign ++ digits ∧ n = Nat.ofDigits 10 (digits.reverse.map digitValue) ∧ n < UInt64.size

theorem head?_dropWhile_isBlank (cs : List Char) :
    ∀ c ∈ (cs.dropWhile isBlank).head?, isBlank c = false := by
  intro c hc
  have hnot := List.head?_dropWhile_not isBlank cs
  rwa [hc] at hnot

theorem trim_eq_rdropWhile (cs : List Char) :
    trim cs = (cs.dropWhile isBlank).rdropWhile isBlank :=
  rfl

theorem trims_trim (cs : List Char) : Trims cs (trim cs) where
  between := by
    refine ⟨cs.takeWhile isBlank, (cs.dropWhile isBlank).rtakeWhile isBlank,
      fun c hc => List.mem_takeWhile_imp hc, fun c hc => List.mem_rtakeWhile_imp hc, ?_⟩
    rw [trim_eq_rdropWhile, List.append_assoc, List.rdropWhile_append_rtakeWhile,
      List.takeWhile_append_dropWhile]
  head := by
    intro c hc
    obtain ⟨rest, hrest⟩ := List.rdropWhile_prefix isBlank (cs.dropWhile isBlank)
    apply head?_dropWhile_isBlank cs
    rw [← hrest]
    exact List.mem_head?_append_of_mem_head? hc
  last := by
    intro c hc
    obtain ⟨hne, rfl⟩ := List.mem_getLast?_eq_getLast hc
    exact eq_false_of_ne_true (List.rdropWhile_last_not isBlank _ hne)

/-- There is one way of trimming a text. -/
theorem trim_eq_iff : trim cs = t ↔ Trims cs t := by
  constructor
  · rintro rfl
    exact trims_trim cs
  · rintro ⟨⟨before, after, hbefore, hafter, rfl⟩, hhead, hlast⟩
    rw [trim_eq_rdropWhile, List.append_assoc, List.dropWhile_append_of_pos hbefore]
    cases t with
    | nil =>
        rw [List.nil_append, List.dropWhile_eq_nil_iff.mpr hafter]
        rfl
    | cons c t =>
        have hc : isBlank c = false := hhead c rfl
        have hkept : ((c :: t).rdropWhile isBlank) = c :: t := by
          rw [List.rdropWhile_eq_self_iff]
          intro hne
          rw [hlast _ (List.getLast?_eq_some_getLast hne)]
          exact Bool.false_ne_true
        rw [List.cons_append, List.dropWhile_cons_of_neg (by simp [hc]), ← List.cons_append,
          List.rdropWhile, List.reverse_append,
          List.dropWhile_append_of_pos (fun c hc => hafter c (List.mem_reverse.mp hc))]
        exact hkept

/-- A text that begins with no blank is trimmed at its end only. -/
theorem exists_blanks_of_trim (hhead : ∀ c ∈ cs.head?, isBlank c = false) :
    ∃ blanks, Blanks blanks ∧ cs = trim cs ++ blanks := by
  obtain ⟨⟨before, after, hbefore, hafter, hcs⟩, -, -⟩ := trims_trim cs
  cases before with
  | nil => exact ⟨after, hafter, hcs⟩
  | cons c before =>
      have hc := hhead c (by rw [hcs]; rfl)
      rw [hbefore c List.mem_cons_self] at hc
      cases hc

theorem dropSuffix?_eq_some_iff : dropSuffix? suffix cs = some rest ↔ cs = rest ++ suffix := by
  rw [dropSuffix?]
  split
  · next hsuffix =>
      have heq := List.suffix_iff_eq_append.mp (List.isSuffixOf_iff_suffix.mp hsuffix)
      rw [Option.some_inj]
      constructor
      · rintro rfl
        exact heq.symm
      · rintro rfl
        exact List.append_cancel_right heq
  · next hsuffix =>
      refine iff_of_false (fun heq => nomatch heq) fun heq => hsuffix ?_
      rw [heq]
      exact List.isSuffixOf_iff_suffix.mpr (List.suffix_append rest suffix)

theorem dropSuffix?_eq_none_iff : dropSuffix? suffix cs = none ↔ ¬ suffix <:+ cs := by
  rw [Option.eq_none_iff_forall_ne_some]
  constructor
  · rintro hnone ⟨rest, hrest⟩
    exact hnone rest (dropSuffix?_eq_some_iff.mpr hrest.symm)
  · intro hnot rest hsome
    exact hnot ⟨rest, (dropSuffix?_eq_some_iff.mp hsome).symm⟩

theorem isDigit_iff : isDigit c = true ↔ '0' ≤ c ∧ c ≤ '9' :=
  decide_eq_true_iff

/-- The value of digits is positional, with the last digit the lowest. -/
theorem digitsValue_eq_ofDigits (digits : List Char) :
    digitsValue digits = Nat.ofDigits 10 (digits.reverse.map digitValue) := by
  induction digits using List.reverseRecOn with
  | nil => rfl
  | append_singleton digits c ih =>
      have hstep : digitsValue (digits ++ [c]) = 10 * digitsValue digits + digitValue c := by
        rw [digitsValue, List.foldl_concat, digitsValue]
      rw [hstep, ih, List.reverse_concat, List.map_cons, Nat.ofDigits_cons, Nat.add_comm]

theorem exists_sign (cs : List Char) :
    ∃ sign, (sign = [] ∨ sign = ['+']) ∧ cs = sign ++ dropPlus cs := by
  rw [dropPlus.eq_def]
  split
  · exact ⟨['+'], .inr rfl, rfl⟩
  · exact ⟨[], .inl rfl, rfl⟩

theorem dropPlus_of_digits (hdigits : ∀ c ∈ digits, '0' ≤ c ∧ c ≤ '9') :
    dropPlus digits = digits := by
  rw [dropPlus.eq_def]
  split
  · next rest => exact absurd (hdigits '+' List.mem_cons_self) (by decide)
  · rfl

theorem readWord?_eq_some_iff : readWord? cs = some n ↔ Number cs n := by
  rw [readWord?]
  constructor
  · intro h
    split at h
    · next hword =>
        obtain ⟨hne, hall, hlt⟩ := hword
        obtain ⟨sign, hsign, hcs⟩ := exists_sign cs
        cases h
        exact ⟨sign, dropPlus cs, hsign, hne,
          fun c hc => isDigit_iff.mp (List.all_eq_true.mp hall c hc), hcs,
          digitsValue_eq_ofDigits _, hlt⟩
    · cases h
  · rintro ⟨sign, digits, hsign, hne, hdigits, rfl, rfl, hlt⟩
    have hdrop : dropPlus (sign ++ digits) = digits := by
      rcases hsign with rfl | rfl
      · exact dropPlus_of_digits hdigits
      · rfl
    have hall : digits.all isDigit = true :=
      List.all_eq_true.mpr fun c hc => isDigit_iff.mpr (hdigits c hc)
    rw [← digitsValue_eq_ofDigits] at hlt ⊢
    rw [hdrop]
    exact if_pos ⟨hne, hall, hlt⟩

theorem isBlank_of_digit (h : '0' ≤ c ∧ c ≤ '9') : isBlank c = false := by
  have hlow : 48 ≤ c.toNat := h.1
  have hhigh : c.toNat ≤ 57 := h.2
  rw [isBlank, decide_eq_false_iff_not]
  omega

namespace Number

theorem lt_size (h : Number number n) : n < UInt64.size := by
  obtain ⟨-, -, -, -, -, -, -, hlt⟩ := h
  exact hlt

/-- A number is a number of one value. -/
theorem unique (h : Number number n) (h' : Number number m) : n = m := by
  rw [← readWord?_eq_some_iff] at h h'
  exact Option.some.inj (h.symm.trans h')

theorem ne_nil (h : Number number n) : number ≠ [] := by
  obtain ⟨sign, digits, -, hne, -, rfl, -, -⟩ := h
  exact List.append_ne_nil_of_right_ne_nil sign hne

theorem mem (h : Number number n) (hc : c ∈ number) : c = '+' ∨ ('0' ≤ c ∧ c ≤ '9') := by
  obtain ⟨sign, digits, hsign, -, hdigits, rfl, -, -⟩ := h
  rcases List.mem_append.mp hc with hc | hc
  · rcases hsign with rfl | rfl
    · cases hc
    · exact .inl (List.mem_singleton.mp hc)
  · exact .inr (hdigits c hc)

theorem isBlank_of_mem (h : Number number n) (hc : c ∈ number) : isBlank c = false := by
  rcases h.mem hc with rfl | hdigit
  · decide
  · exact isBlank_of_digit hdigit

/-- A number is left of itself with blanks around it. -/
theorem trim_append (h : Number number n) (hblanks : Blanks blanks) :
    trim (number ++ blanks) = number :=
  trim_eq_iff.mpr
    { between := ⟨[], blanks, List.forall_mem_nil _, hblanks, rfl⟩
      head := fun _ hc => h.isBlank_of_mem (List.mem_of_mem_head? hc)
      last := fun _ hc => h.isBlank_of_mem (List.mem_of_mem_getLast? hc) }

/-- What is neither sign, digit nor blank does not stand in a number with blanks after it. -/
theorem not_mem_append (h : Number number n) (hblanks : Blanks blanks) (hplus : c ≠ '+')
    (hdigit : ¬ ('0' ≤ c ∧ c ≤ '9')) (hblank : isBlank c = false) : c ∉ number ++ blanks := by
  intro hc
  rcases List.mem_append.mp hc with hc | hc
  · exact (h.mem hc).elim hplus hdigit
  · rw [hblanks c hc] at hblank
    cases hblank

end Number

end Text

end GatewayClient
