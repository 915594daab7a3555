/-
Logging is installed once, whatever the language of filters.  Of settings that are installed one
after the other the first with a well-formed filter decides; settings before and after it leave no
trace, and what a process prints is told by those settings alone.
-/
import GatewayClient.Logging.Install

namespace GatewayClient

namespace FilterLanguage

variable {F : Type} {rules : FilterLanguage F} {st : LogState F} {s : LogSettings} {filter : F}
  {configs before after : List LogSettings} {answers later : List (Except LogFault String)}
  {current : LogSettings × F}

/-- The first settings with a well-formed filter, and what it says. -/
def firstValid (rules : FilterLanguage F) (configs : List LogSettings) : Option (LogSettings × F) :=
  configs.findSome? fun s => (rules.parse? s.filter).map fun filter => (s, filter)

/-- The lines of a process that logs by these settings: one when they are installed and one when
their guard is dropped, if lines about logging are let through. -/
def lines (rules : FilterLanguage F) (s : LogSettings) (filter : F) : List LogLine :=
  if s.console = true ∧ rules.admits filter LogState.target .info = true then
    [.installed s.serviceName s.filter s.json, .shutDown s.serviceName]
  else []

theorem install_of_malformed (h : rules.parse? s.filter = none) :
    rules.install st s = (st, .error .invalidFilter) := by
  rw [install, h]

theorem install_of_installed (h : rules.parse? s.filter = some filter)
    (hst : st.installed = some current) :
    rules.install st s = (st, .error .alreadyInstalled) := by
  rw [install, h, hst]

theorem install_of_fresh (h : rules.parse? s.filter = some filter) (hst : st.installed = none) :
    rules.install st s =
      (rules.print { st with installed := some (s, filter) }
        (.installed s.serviceName s.filter s.json), .ok s.serviceName) := by
  rw [install, h, hst]

theorem installed_print (rules : FilterLanguage F) (st : LogState F) (line : LogLine) :
    (rules.print st line).installed = st.installed := by
  rw [print]
  split
  · split <;> rfl
  · rfl

/-- What is installed stays; else the settings are installed if their filter is well formed. -/
theorem installed_install (rules : FilterLanguage F) (st : LogState F) (s : LogSettings) :
    (rules.install st s).1.installed =
      st.installed.or ((rules.parse? s.filter).map fun filter => (s, filter)) := by
  cases hparse : rules.parse? s.filter with
  | none => rw [install_of_malformed hparse, Option.map_none, Option.or_none]
  | some filter =>
      cases hst : st.installed with
      | none =>
          rw [install_of_fresh hparse hst, installed_print]
          rfl
      | some current =>
          rw [install_of_installed hparse hst, hst]
          rfl

theorem installAll_append (rules : FilterLanguage F) (st : LogState F)
    (before after : List LogSettings) :
    rules.installAll st (before ++ after) =
      ((rules.installAll (rules.installAll st before).1 after).1,
        (rules.installAll st before).2 ++
          (rules.installAll (rules.installAll st before).1 after).2) := by
  induction before generalizing st with
  | nil => rfl
  | cons s before ih => simp only [List.cons_append, installAll, ih]

theorem length_installAll (rules : FilterLanguage F) (st : LogState F)
    (configs : List LogSettings) : (rules.installAll st configs).2.length = configs.length := by
  induction configs generalizing st with
  | nil => rfl
  | cons s configs ih => exact congrArg (· + 1) (ih _)

/-- Settings are answered by the state that those before them have left. -/
theorem answer_at {i : Nat} (h : configs[i]? = some s) :
    (rules.installAll st configs).2[i]? =
      some (rules.install (rules.installAll st (configs.take i)).1 s).2 := by
  induction configs generalizing st i with
  | nil => cases h
  | cons first configs ih =>
      cases i with
      | zero =>
          cases h
          rfl
      | succ i => exact ih h

/-- What is installed in the end was installed at first, or is of the first well-formed settings. -/
theorem installed_installAll (rules : FilterLanguage F) (st : LogState F)
    (configs : List LogSettings) :
    (rules.installAll st configs).1.installed = st.installed.or (rules.firstValid configs) := by
  induction configs generalizing st with
  | nil => exact Option.or_none.symm
  | cons s configs ih =>
      have hrest : (rules.installAll st (s :: configs)).1 =
          (rules.installAll (rules.install st s).1 configs).1 := rfl
      rw [hrest, ih, installed_install, Option.or_assoc, firstValid, firstValid,
        List.findSome?_cons]
      cases rules.parse? s.filter <;> rfl

theorem firstValid_eq_none_iff :
    rules.firstValid configs = none ↔ ∀ s ∈ configs, rules.parse? s.filter = none := by
  simp only [firstValid, List.findSome?_eq_none_iff, Option.map_eq_none_iff]

/-- Where settings can only be refused, nothing changes and no guard is given. -/
structure Refuses (rules : FilterLanguage F) (st : LogState F) (configs : List LogSettings) :
    Prop where
  state : (rules.installAll st configs).1 = st
  answers : ∀ answer ∈ (rules.installAll st configs).2, ∃ fault, answer = .error fault

theorem Refuses.of_each (h : ∀ s ∈ configs, ∃ fault, rules.install st s = (st, .error fault)) :
    rules.Refuses st configs := by
  induction configs with
  | nil => exact ⟨rfl, fun _ hmem => nomatch hmem⟩
  | cons s configs ih =>
      obtain ⟨⟨fault, hfault⟩, hrest⟩ := List.forall_mem_cons.mp h
      obtain ⟨hstate, hanswers⟩ := ih hrest
      have hcons : rules.installAll st (s :: configs) =
          ((rules.installAll st configs).1, .error fault :: (rules.installAll st configs).2) := by
        simp only [installAll, hfault]
      refine ⟨by rw [hcons]; exact hstate, ?_⟩
      rw [hcons]
      exact List.forall_mem_cons.mpr ⟨⟨fault, rfl⟩, hanswers⟩

theorem Refuses.of_malformed (h : ∀ s ∈ configs, rules.parse? s.filter = none) :
    rules.Refuses st configs :=
  .of_each fun s hmem => ⟨_, install_of_malformed (h s hmem)⟩

theorem Refuses.of_installed (hst : st.installed = some current) : rules.Refuses st configs := by
  refine .of_each fun s _ => ?_
  cases hparse : rules.parse? s.filter with
  | none => exact ⟨_, install_of_malformed hparse⟩
  | some filter => exact ⟨_, install_of_installed hparse hst⟩

theorem printed_print (hst : st.installed = some (s, filter)) (line : LogLine) :
    (rules.print st line).printed =
      st.printed ++ if s.console = true ∧ rules.admits filter LogState.target .info = true
        then [line] else [] := by
  rw [print, hst]
  simp only [Bool.and_eq_true]
  split
  · rfl
  · exact (List.append_nil _).symm

theorem dropGuards_append (rules : FilterLanguage F) (st : LogState F)
    (answers later : List (Except LogFault String)) :
    rules.dropGuards st (answers ++ later) = rules.dropGuards (rules.dropGuards st answers) later :=
  List.foldl_append

/-- Refusals come without a guard. -/
theorem dropGuards_of_errors (h : ∀ answer ∈ answers, ∃ fault, answer = .error fault) :
    rules.dropGuards st answers = st := by
  induction answers with
  | nil => rfl
  | cons answer answers ih =>
      obtain ⟨⟨fault, rfl⟩, hrest⟩ := List.forall_mem_cons.mp h
      exact ih hrest

theorem process_eq (rules : FilterLanguage F) (configs : List LogSettings) :
    rules.process configs =
      (rules.dropGuards (rules.installAll {} configs).1 (rules.installAll {} configs).2,
        (rules.installAll {} configs).2) :=
  rfl

theorem printed_of_none (h : rules.firstValid configs = none) :
    (rules.process configs).1.printed = [] := by
  have hrefuses : rules.Refuses {} configs := .of_malformed (firstValid_eq_none_iff.mp h)
  obtain ⟨hstate, hanswers⟩ := hrefuses
  rw [process_eq, dropGuards_of_errors hanswers, hstate]

/-- The first well-formed settings are installed, those before and after them are refused, and the
one guard there is drops at the end. -/
theorem printed_of_first (h : rules.firstValid configs = some (s, filter)) :
    (rules.process configs).1.printed = rules.lines s filter := by
  obtain ⟨before, s', after, rfl, hparse, hbefore⟩ := List.findSome?_eq_some_iff.mp h
  obtain ⟨_, hparse, hsame⟩ := Option.map_eq_some_iff.mp hparse
  cases hsame
  let fresh : LogState F := { installed := some (s, filter) }
  let line : LogLine := .installed s.serviceName s.filter s.json
  have hinstalled : (rules.print fresh line).installed = some (s, filter) := installed_print _ _ _
  have hearlier : rules.Refuses {} before := .of_malformed fun b hb =>
    Option.map_eq_none_iff.mp (hbefore b hb)
  have hlater : rules.Refuses (rules.print fresh line) after := .of_installed hinstalled
  obtain ⟨hstate, hearly⟩ := hearlier
  obtain ⟨hstate', hlate⟩ := hlater
  have hfirst : rules.installAll {} (s :: after) =
      (rules.print fresh line,
        .ok s.serviceName :: (rules.installAll (rules.print fresh line) after).2) := by
    simp only [installAll, install_of_fresh hparse, hstate', fresh, line]
  rw [process_eq, installAll_append, hstate, hfirst]
  dsimp only
  rw [dropGuards_append, dropGuards_of_errors hearly]
  change (rules.dropGuards (rules.dropGuard (rules.print fresh line) s.serviceName) _).printed = _
  have hfresh : fresh.installed = some (s, filter) := rfl
  rw [dropGuards_of_errors hlate, dropGuard, printed_print hinstalled, printed_print hfresh, lines]
  split <;> rfl

/-- Settings with a malformed filter are refused, and all else is as without them. -/
theorem process_of_malformed (h : rules.parse? s.filter = none) (before after : List LogSettings) :
    ∃ early late, early.length = before.length ∧
      (rules.process (before ++ after)).2 = early ++ late ∧
      rules.process (before ++ s :: after) =
        ((rules.process (before ++ after)).1, early ++ .error .invalidFilter :: late) := by
  refine ⟨(rules.installAll {} before).2,
    (rules.installAll (rules.installAll {} before).1 after).2, length_installAll _ _ _, ?_, ?_⟩
  · rw [process_eq, installAll_append]
  · have hrest : rules.installAll (rules.installAll {} before).1 (s :: after) =
        ((rules.installAll (rules.installAll {} before).1 after).1,
          .error .invalidFilter :: (rules.installAll (rules.installAll {} before).1 after).2) := by
      simp only [installAll, install_of_malformed h]
    rw [process_eq, process_eq, installAll_append, installAll_append, hrest]
    dsimp only
    rw [dropGuards_append, dropGuards_append]
    rfl

/-- What becomes of settings that are installed one after the other in one process.  A malformed
filter is refused wherever it comes, and state and other answers are those of a process without it.
The first well-formed settings get the guard, well-formed ones after them are rejected, and what is
printed is told by the first alone. -/
structure InstalledOnce (rules : FilterLanguage F) (configs : List LogSettings) : Prop where
  answered : (rules.process configs).2.length = configs.length
  refused : ∀ (i : Nat) (s : LogSettings), configs[i]? = some s → rules.parse? s.filter = none →
    (rules.process configs).2[i]? = some (.error .invalidFilter)
  untouched : ∀ (before : List LogSettings) (s : LogSettings) (after : List LogSettings),
    configs = before ++ s :: after → rules.parse? s.filter = none →
    ∃ early late, early.length = before.length ∧
      (rules.process (before ++ after)).2 = early ++ late ∧
      rules.process configs =
        ((rules.process (before ++ after)).1, early ++ .error .invalidFilter :: late)
  guarded : ∀ (i : Nat) (s : LogSettings), configs[i]? = some s → rules.parse? s.filter ≠ none →
    (∀ t ∈ configs.take i, rules.parse? t.filter = none) →
    (rules.process configs).2[i]? = some (.ok s.serviceName)
  rejected : ∀ (i : Nat) (s : LogSettings), configs[i]? = some s → rules.parse? s.filter ≠ none →
    (∃ t ∈ configs.take i, rules.parse? t.filter ≠ none) →
    (rules.process configs).2[i]? = some (.error .alreadyInstalled)
  printed : (rules.process configs).1.printed =
    match rules.firstValid configs with
    | none => []
    | some (s, filter) => rules.lines s filter

/-- Whatever the language of filters, logging is installed at most once, and by the first settings
with a well-formed filter. -/
theorem logging_installed_once (rules : FilterLanguage F) (configs : List LogSettings) :
    rules.InstalledOnce configs where
  answered := length_installAll _ _ _
  refused := by
    intro i s hs hparse
    rw [process_eq, answer_at hs, install_of_malformed hparse]
  untouched := by
    rintro before s after rfl hparse
    exact process_of_malformed hparse before after
  guarded := by
    intro i s hs hparse hbefore
    obtain ⟨filter, hfilter⟩ := Option.ne_none_iff_exists'.mp hparse
    have hnone : (rules.installAll {} (configs.take i)).1.installed = none := by
      rw [installed_installAll, firstValid_eq_none_iff.mpr hbefore]
      rfl
    rw [process_eq, answer_at hs, install_of_fresh hfilter hnone]
  rejected := by
    rintro i s hs hparse ⟨t, ht, hvalid⟩
    obtain ⟨filter, hfilter⟩ := Option.ne_none_iff_exists'.mp hparse
    have hsome : (rules.installAll {} (configs.take i)).1.installed ≠ none := by
      rw [installed_installAll, Option.or_of_isNone rfl, Ne, firstValid_eq_none_iff]
      exact fun hall => hvalid (hall t ht)
    obtain ⟨current, hcurrent⟩ := Option.ne_none_iff_exists'.mp hsome
    rw [process_eq, answer_at hs, install_of_installed hfilter hcurrent]
  printed := by
    cases hfirst : rules.firstValid configs with
    | none => exact printed_of_none hfirst
    | some first => exact printed_of_first hfirst

/-- A filter that is no list of directives does not use the installation up. -/
example :
    (LogState.process [{ level := "=info" }, { level := "info" }, { level := "debug" }]).2 =
      [.error .invalidFilter, .ok "firebolt-client", .error .alreadyInstalled] := by
  cbv

end FilterLanguage

end GatewayClient
