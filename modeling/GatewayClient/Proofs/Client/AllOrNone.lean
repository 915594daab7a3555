/-
Several handlers, all or none.  A job that fails takes back those that it has registered, whatever
the platform says to that; a handler that was there before and has been replaced does not come back.
-/
import GatewayClient.Client.Operation
import GatewayClient.Proofs.Client.Series

namespace GatewayClient

namespace Client

variable {c c' : Client} {i : JobId} {m : Move} {job : Job} {stage : ChangeStage}
  {handlers : List (String × Handler)} {past : List Made} {before p : Standing} {moves : List Move}

/-- Who provides in a state. -/
abbrev standing (c : Client) : Standing :=
  c.providers.get?

/-- The job `i` has provided all its handlers, and none has been refused; the platform has been
asked once for each that had to be registered.  `client` is what it leaves. -/
structure ProvidesAll (c : Client) (i : JobId) (handlers : List (String × Handler))
    (moves : List Move) (client : Client) : Prop where
  concluded : c.shown (concludes? i) moves = handlers.map fun entry =>
    (Made.ofProvision c.standing entry).conclusion
  asked : c.shown (brings? i) moves =
    (c.standing.newly handlers).map fun entry => (.provide entry.1 entry.2, true)
  stored : ∀ entry ∈ handlers, client.standing entry.1 = some entry.2
  answered : ∀ entry ∈ handlers, ∀ m call, client.providerCall? m = some call →
    call.method = entry.1 →
    ∀ later, (client.move m).Answered client.nextJob call (some entry.2) later

/-- The job `i` has been refused a handler, `entry`, whose event had none, after it had provided
those of `done`, and has taken back what it had registered, but not what it had replaced.  The
platform was asked once for each registration, and once for each revocation.  `client` is what it
leaves. -/
structure TakesBack (c : Client) (i : JobId) (moves : List Move) (f : Failure)
    (done : List (String × Handler)) (entry : String × Handler)
    (rest : List (String × Handler)) (client : Client) : Prop where
  unprovided : c.standing entry.1 = none
  concluded : ∃ withdrawn,
    c.shown (concludes? i) moves =
      (done.map fun other => (Made.ofProvision c.standing other).conclusion) ++
        (.provide entry.1 entry.2, .error f) :: withdrawn ∧
    withdrawn.map Prod.fst = (c.standing.newly done).map fun other => .revoke other.1
  asked : ∃ taken revocations,
    c.shown (brings? i) moves =
      ((c.standing.newly done).map fun other => (.provide other.1 other.2, true)) ++
        (.provide entry.1 entry.2, taken) :: revocations ∧
    revocations.map Prod.fst = (c.standing.newly done).map fun other => .revoke other.1
  left : ∀ other ∈ done,
    client.standing other.1 = if (c.standing other.1).isSome then some other.2 else none
  kept : ∀ other ∈ entry :: rest, client.standing other.1 = c.standing other.1

namespace Series

variable {client : Client} {current : List (Change × Bool)}

theorem providesAll {made : List String}
    (h : c'.Series i handlers c.standing (c.shown (concludes? i) moves)
      (c.shown (brings? i) moves) (.provideAll [] made stage) past p current)
    (hdistinct : (handlers.map Prod.fst).Nodup) (hproviders : client.providers = c'.providers)
    (hnumbered : client.Numbered) (hserved : client.Served) :
    c.ProvidesAll i handlers moves client := by
  have habides : c'.Abides (handlers.map Prod.fst) p none current := h.abides
  cases habides with
  | idle hall =>
      have hpursues := h.pursues
      cases hpursues with
      | providing hhandlers hpast hok =>
          rw [List.append_nil] at hhandlers
          subst hhandlers
          obtain ⟨rfl, hstored, -⟩ := h.history.provisions hpast hok hdistinct
          have hget : ∀ entry ∈ handlers, client.standing entry.1 = some entry.2 := by
            intro entry hentry
            rw [standing, hproviders, hall entry.1 (List.mem_map_of_mem hentry),
              hstored entry hentry]
          refine ⟨?_, ?_, hget, fun entry hentry m call hcall hmethod later => ?_⟩
          · rw [h.concluded, List.map_map]
            rfl
          · rw [h.brought, List.append_nil, Made.asked_ofProvision]
          · rw [← hget entry hentry, ← hmethod]
            exact answered_of_providerCall hnumbered hserved hcall later

theorem takesBack {f : Failure}
    (h : c'.Series i handlers c.standing (c.shown (concludes? i) moves)
      (c.shown (brings? i) moves) (.withdraw f [] stage) past p current)
    (hdistinct : (handlers.map Prod.fst).Nodup) (hproviders : client.providers = c'.providers) :
    ∃ done entry rest, handlers = done ++ entry :: rest ∧
      c.TakesBack i moves f done entry rest client := by
  have habides : c'.Abides (handlers.map Prod.fst) p none current := h.abides
  cases habides with
  | idle hall =>
      have hconcluded := h.concluded
      have hbrought := h.brought
      obtain ⟨past', withdrawn, done, entry, rest, request, rfl, hhandlers, hpast, hok,
        hwithdrawn⟩ := h.pursues.of_withdrawn
      subst hhandlers
      rw [List.map_append, List.nodup_append] at hdistinct
      have hnew : entry.1 ∉ done.map Prod.fst := fun hmem =>
        hdistinct.2.2 _ hmem _ List.mem_cons_self rfl
      obtain ⟨rfl, hnone, ⟨taken, rfl⟩, hrevoked, hdone, hothers⟩ :=
        h.history.refused hpast hok hwithdrawn hdistinct.1 hnew
      rw [Made.registered_ofProvision] at hwithdrawn
      have hget : ∀ other ∈ done ++ entry :: rest, client.standing other.1 = p other.1 := by
        intro other hmem
        rw [standing, hproviders, hall other.1 (List.mem_map_of_mem hmem)]
      refine ⟨done, entry, rest, rfl, ?_, ⟨withdrawn.map Made.conclusion, ?_, ?_⟩,
        ⟨taken, withdrawn.flatMap Made.asked, ?_, ?_⟩, fun other hmem => ?_,
        fun other hmem => ?_⟩
      · exact hnone
      · rw [hconcluded, List.map_append, List.map_map]
        rfl
      · rw [List.map_map]
        exact hwithdrawn.trans List.map_map
      · rw [hbrought, List.append_nil, List.flatMap_append, Made.asked_ofProvision]
        rfl
      · exact hrevoked.trans (hwithdrawn.trans List.map_map)
      · exact (hget other (List.mem_append_left _ hmem)).trans (hdone other hmem)
      · refine (hget other (List.mem_append_right _ hmem)).trans (hothers other.1 fun hmem' => ?_)
        exact hdistinct.2.2 _ hmem' _ (List.mem_map_of_mem hmem) rfl

end Series

/-- What the job `i` shows of its requests with a move is what it does with them: those that the
link takes are the ones that it hands over, and any other finds the link closed. -/
structure ShowsRequests (c : Client) (i : JobId) (m : Move) : Prop where
  handed : ∀ change, c.brings? i m = some (change, true) →
    ∃ id, c.HandsOver m i (c.changeCall change) id
  shown : ∀ call id, c.HandsOver m i call id →
    ∃ change, c.brings? i m = some (change, true) ∧ call = c.changeCall change
  refused : ∀ change, c.brings? i m = some (change, false) → c.link.isUp = false

theorem Series.showsRequests {concluded : List (Change × Except Failure Changed)}
    {brought current : List (Change × Bool)}
    (h : c.Series i handlers before concluded brought job past p current)
    (hnumbered : c.Numbered) : c.ShowsRequests i m := by
  refine ⟨fun change => handsOver_of_brings hnumbered, ?_, fun change => h.isUp_of_brings⟩
  rintro call id ⟨rfl, ⟨stage, hcall, -⟩, hsent, -⟩
  obtain ⟨change, hbrings⟩ := h.brings_of_sent (by rw [hsent]; simp)
  obtain ⟨id', -, ⟨stage', hcall', -⟩, -⟩ := handsOver_of_brings hnumbered hbrings
  rw [hcall] at hcall'
  cases hcall'
  exact ⟨change, hbrings, rfl⟩

theorem showsRequests_of_gone (hgone : c.jobs.get? i = none) : c.ShowsRequests i m := by
  have hwork : c.workAt i = none := by rw [workAt, hgone, Option.bind_none]
  have hnone : c.brings? i m = none := by
    by_cases hown : m = .advance i
    · rw [brings?, if_pos hown, hwork]
    · exact brings?_of_others hown
  refine ⟨fun change hbrings => ?_, ?_, fun change hbrings => ?_⟩
  · rw [hnone] at hbrings
    cases hbrings
  · rintro call id ⟨-, ⟨stage, hcall, -⟩, -⟩
    rw [callAt, hwork] at hcall
    cases hcall
  · rw [hnone] at hbrings
    cases hbrings

/-- The job `i` provides `handlers`, all or none, in every run in which nobody else changes who
provides for their events.  When it succeeds it has provided them all.  When it fails one was
refused, and it has taken back those that it had registered, so all is as it was if it had replaced
none. -/
structure AllOrNone (c : Client) (i : JobId) (handlers : List (String × Handler)) : Prop where
  granted : ∀ moves value, c.Undisturbed i (handlers.map Prod.fst) moves →
    (c.run moves).Returns i (.ok value) →
    value = .null ∧ c.ProvidesAll i handlers moves ((c.run moves).move (.advance i))
  refused : ∀ moves f, c.Undisturbed i (handlers.map Prod.fst) moves →
    (c.run moves).Returns i (.error f) →
    ∃ done entry rest, handlers = done ++ entry :: rest ∧
      c.TakesBack i moves f done entry rest ((c.run moves).move (.advance i))
  restored : ∀ moves f, c.Undisturbed i (handlers.map Prod.fst) moves →
    (c.run moves).Returns i (.error f) →
    (∀ event handler changed, (.provide event handler, .ok changed) ∈ c.shown (concludes? i) moves →
      changed = .registered) →
    ∀ event ∈ handlers.map Prod.fst,
      ((c.run moves).move (.advance i)).standing event = c.standing event
  requests : ∀ moves m, c.Undisturbed i (handlers.map Prod.fst) moves →
    (c.run moves).ShowsRequests i m
  apart : ∀ moves, c.Undisturbed i (handlers.map Prod.fst) moves →
    ∀ event ∉ handlers.map Prod.fst,
      ((c.run moves).move (.advance i)).standing event = (c.run moves).standing event

/-- The events of a job that has replaced no handler before it was refused one are as they were. -/
theorem TakesBack.standing_eq {client : Client} {f : Failure}
    {done rest : List (String × Handler)} {entry : String × Handler}
    (h : c.TakesBack i moves f done entry rest client)
    (hregistered : ∀ event handler changed,
      (.provide event handler, .ok changed) ∈ c.shown (concludes? i) moves →
      changed = .registered)
    {event : String} (hevent : event ∈ (done ++ entry :: rest).map Prod.fst) :
    client.standing event = c.standing event := by
  obtain ⟨other, hother, rfl⟩ := List.mem_map.mp hevent
  rcases List.mem_append.mp hother with hdone | hrest
  · obtain ⟨withdrawn, hconcluded, -⟩ := h.concluded
    have hchanged := hregistered other.1 other.2 _ (hconcluded ▸
      List.mem_append_left _ (List.mem_map_of_mem hdone))
    cases hprovided : c.standing other.1 with
    | some old =>
        rw [hprovided] at hchanged
        cases hchanged
    | none =>
        rw [h.left other hdone, hprovided]
        rfl
  · exact h.kept other hrest

/-- A job that is over does not return again. -/
theorem not_returns_of_gone (hgone : c.jobs.get? i = none) {outcome : Outcome} :
    ¬c.Returns i outcome := by
  intro hreturns
  rw [Returns, move_of_gone hgone] at hreturns
  exact absurd (congrArg List.length hreturns) (by simp [pause])

/-- A job that has yet to provide handlers of distinct events provides all or none. -/
theorem AllOrNone.of_fresh (hnumbered : c.Numbered) (hserved : c.Served)
    (hunserved : ∀ k, c.serves k ≠ some i)
    (hget : c.jobs.get? i = some (.provideAll handlers [] .fresh))
    (hdistinct : (handlers.map Prod.fst).Nodup) : c.AllOrNone i handlers := by
  have hseries : ∀ {moves}, c.Undisturbed i (handlers.map Prod.fst) moves →
      (c.run moves).jobs.get? i = none ∨ ∃ job past p current,
        (c.run moves).Series i handlers c.standing (c.shown (concludes? i) moves)
          (c.shown (brings? i) moves) job past p current :=
    fun hundisturbed => (series_run hnumbered hunserved hget _ hundisturbed).2
  have hrefused : ∀ moves f, c.Undisturbed i (handlers.map Prod.fst) moves →
      (c.run moves).Returns i (.error f) → ∃ done entry rest, handlers = done ++ entry :: rest ∧
        c.TakesBack i moves f done entry rest ((c.run moves).move (.advance i)) := by
    intro moves f hundisturbed hreturns
    rcases hseries hundisturbed with hnone | ⟨job, past, p, current, hrun⟩
    · exact absurd hreturns (not_returns_of_gone hnone)
    · obtain ⟨hproviders, ⟨⟨⟩, -⟩ | ⟨reason, stage, ⟨⟩, rfl⟩⟩ := hrun.returns hreturns
      exact hrun.takesBack hdistinct hproviders
  refine ⟨?_, hrefused, ?_, ?_, ?_⟩
  · intro moves value hundisturbed hreturns
    rcases hseries hundisturbed with hnone | ⟨job, past, p, current, hrun⟩
    · exact absurd hreturns (not_returns_of_gone hnone)
    · obtain ⟨hproviders, ⟨⟨⟩, made, stage, rfl⟩ | ⟨reason, stage, ⟨⟩, -⟩⟩ := hrun.returns hreturns
      have hlast := hnumbered.run moves
      exact ⟨rfl, hrun.providesAll hdistinct hproviders (hlast.move _)
        ((hserved.run hnumbered moves).move hlast _)⟩
  · intro moves f hundisturbed hreturns hregistered event hevent
    obtain ⟨done, entry, rest, rfl, htakes⟩ := hrefused moves f hundisturbed hreturns
    exact htakes.standing_eq hregistered hevent
  · intro moves m hundisturbed
    rcases hseries hundisturbed with hnone | ⟨job, past, p, current, hrun⟩
    · exact showsRequests_of_gone hnone
    · exact hrun.showsRequests (hnumbered.run moves)
  · intro moves hundisturbed event hother
    rcases hseries hundisturbed with hnone | ⟨job, past, p, current, hrun⟩
    · rw [move, stepJob?, hnone]
      rfl
    · exact hrun.get?_providers_of_other hother

/-- So does one that begins now. -/
theorem AllOrNone.ofBegin (hnumbered : c.Numbered) (hserved : c.Served)
    (hdistinct : (handlers.map Prod.fst).Nodup) :
    (c.move (.begin (.provideAll handlers))).AllOrNone c.nextJob handlers := by
  refine .of_fresh (hnumbered.move _) (hserved.move hnumbered _) ?_ ?_ hdistinct
  · apply Course.unserved_move
    · exact fun k hk => Nat.lt_irrefl _ (hserved k _ hk).1
    · exact List.not_mem_nil
  · rw [show (c.move (.begin (.provideAll handlers))).jobs = _ from
      jobs_start c (.provideAll handlers [] .fresh)]
    exact Dictionary.get?_put_self _ _ _

/-- In every run, an application that provides for the keyboard provides all three handlers, each
for its own method, or takes back those that it has registered. -/
theorem provides_all_or_takes_back (settings : Settings) (link : Link) (before : List Move)
    (name : String) (script : Script) :
    let c := (ofSettings settings link).run before
    (c.move (.begin (Catalog.Service.keyboard.provide name script))).AllOrNone c.nextJob
      [("keyboard.onRequestStandard", Catalog.keyboardStandard.handler name "standard" script),
        ("keyboard.onRequestPassword", Catalog.keyboardPassword.handler name "password" script),
        ("keyboard.onRequestEmail", Catalog.keyboardEmail.handler name "email" script)] := by
  intro c
  have hnumbered := numbered_ofSettings settings link
  have hserved := (Served.ofSettings settings link).run hnumbered before
  have hdistinct : ["keyboard.onRequestStandard", "keyboard.onRequestPassword",
    "keyboard.onRequestEmail"].Nodup := by decide
  exact .ofBegin (hnumbered.run before) hserved hdistinct

/-- The platform refuses the second handler of the keyboard; the one that the first has replaced is
not there again, though nobody else has provided or revoked. -/
theorem keeps_replacement :
    let event := "keyboard.onRequestStandard"
    let events := [event, "keyboard.onRequestPassword", "keyboard.onRequestEmail"]
    let script : String → Script := fun text => ⟨none, .outcome (.ok (.string text))⟩
    let old := Handler.scripted "H" none .anything .anything (script "old")
    let before := .begin (.change (.provide event old)) :: [0, 0, 0, 0, 0].map Move.advance ++
      .deliver "\x7b\"id\":1,\"result\":null\x7d" true :: [0, 0, 0, 0].map Move.advance
    let moves := [1, 1, 1, 1, 1, 1, 1, 1, 1, 1].map Move.advance ++
      .deliver "\x7b\"id\":2,\"error\":\x7b\"code\":-32000,\"message\":\"no\"\x7d\x7d" true ::
        [1, 1, 1, 1].map Move.advance
    let c := ((ofSettings {} (.direct .up)).run before).move
      (.begin (Catalog.Service.keyboard.provide "K" (script "new")))
    c.standing event = some old ∧ c.Undisturbed 1 events moves ∧
      (c.run moves).Returns 1 (.error .general) ∧
      ((c.run moves).move (.advance 1)).standing event =
        some (Catalog.keyboardStandard.handler "K" "standard" (script "new")) ∧
      Catalog.keyboardStandard.handler "K" "standard" (script "new") ≠ old := by
  intro event events script old before moves c
  refine ⟨by decide +kernel, by decide +kernel, ?_, by decide +kernel, by decide⟩
  rw [Returns]
  decide +kernel

end Client

end GatewayClient
