/-
What comes in is taken in.  Whatever a source gives up to its end is delivered, once and in order,
and nothing after it; nothing that goes wrong on the way changes how the frames after it are
treated; and who takes in what comes through the channel goes on until all of it has been delivered
and no more can come.
-/
import GatewayClient.Proofs.Client.Answers
import GatewayClient.Proofs.Client.Treatment

namespace GatewayClient

/-- Whether a source is at its end with what it gives. -/
def Arrival.isEnd : Arrival → Bool
  | .error .closed => true
  | _ => false

/-- What a source gives before its end. -/
def beforeEnd (arrivals : List Arrival) : List Arrival :=
  arrivals.takeWhile fun arrival => !Arrival.isEnd arrival

/-- Whether a source is at its end with something that happens to a client. -/
def endsSource : Move ⊕ Arrival → Bool
  | .inl _ => false
  | .inr arrival => Arrival.isEnd arrival

/-- The move that something comes to which happens to a client before the end of its source: a frame
is delivered, and a failure comes to none. -/
def asMove? : Move ⊕ Arrival → Option Move
  | .inl m => some m
  | .inr (.ok text) => some (.deliver text true)
  | .inr (.error _) => none

namespace Client

variable {c c' : Client} {r : JobId} {m : Move}

/-- Takes in what a source gives up to its end, while moves of the client come in between. -/
def attend (c : Client) : List (Move ⊕ Arrival) → Client
  | [] => c
  | .inl m :: rest => (c.move m).attend rest
  | .inr arrival :: rest =>
    if Arrival.isEnd arrival then c.run (rest.filterMap Sum.getLeft?)
    else (c.takeIn [arrival]).1.attend rest

/-- A move that should not make a difference to the frames that come after it: a frame that comes in
and is no reply to a call that is waited for, or a step of an answer to the platform or of the
handler that runs for it. -/
inductive Harmless (c : Client) (m : Move) : Prop
  | frame {text : String} (harrival : c.arrival? m = some text)
    (hunmatched : ∀ reply, c.replyIn? m = some reply → (c.deliverResponse reply).2 = false)
  | answer {i : JobId} {id : Json} {method : String} {stage : AnswerStage} (hm : m = .advance i)
    (hget : c.jobs.get? i = some (.answer id method stage))
  | handle {i served : JobId} {handler : Handler} {method : String} {stage : HandlingStage}
    (hm : m = .advance i) (hget : c.jobs.get? i = some (.handle served handler method stage))

/-- The client after a run that begins with the start of a job which takes in what comes through the
channel. -/
def receiving (c : Client) (since : List Move) : Client :=
  (c.move .startReceiver).run since

/-- A client takes in what a source gives, and what comes through its channel.  Every frame before
the end of a source is delivered when it comes, once and in order, and what comes after it is not
even asked for.  Frames that come to nothing do not change how those after them are treated.  Who
takes in what comes through the channel stays at it until no more can come and all has been taken
out. -/
structure TakesIn (c : Client) : Prop where
  delivered : ∀ arrivals, c.takeIn arrivals =
    ((c.deliverTexts true ((beforeEnd arrivals).filterMap Except.toOption)).1,
      (beforeEnd arrivals).length + 1)
  ended : ∀ before after, c.takeIn (before ++ .error .closed :: after) = c.takeIn before
  alone : ∀ arrivals, c.attend (arrivals.map .inr) = (c.takeIn arrivals).1
  attended : ∀ happenings, c.attend happenings =
    c.run ((happenings.takeWhile fun happening => !endsSource happening).filterMap asMove? ++
      (happenings.dropWhile fun happening => !endsSource happening).filterMap Sum.getLeft?)
  unaffected : ∀ moves later, c.Throughout Harmless moves →
    (c.run moves).treatments later = c.treatments later
  taken : ∀ m text, c.takesOut? m = some text → c.move m = ((c.taking m).deliver text true).1
  conserved : ∀ moves, c.shown takesOut? moves ++ (c.run moves).inbox.frames =
    c.inbox.frames ++ moves.filterMap Move.brought?
  lasts : ∀ since, .drop c.nextJob ∉ since →
    (c.receiving since).jobs.get? c.nextJob = some .receive ∧
        (c.receiving since).takesOut? (.advance c.nextJob) =
          (c.receiving since).inbox.frames.head? ∨
      ∃ first second, since = first ++ .advance c.nextJob :: second ∧
        (c.receiving first).inbox = ⟨[], false⟩ ∧
        (c.move .startReceiver).shown takesOut? first =
          c.inbox.frames ++ first.filterMap Move.brought?
  ends : ∀ first second, (c.receiving first).inbox.isOpen = false →
    (c.receiving first).inbox.frames.length + (second.filterMap Move.brought?).length <
      second.count (.advance c.nextJob) →
    (c.receiving (first ++ second)).jobs.get? c.nextJob = none

theorem beforeEnd_append (before after : List Arrival) :
    beforeEnd (before ++ .error .closed :: after) = beforeEnd before := by
  rw [beforeEnd, List.takeWhile_append]
  split
  · next hall =>
      rw [List.takeWhile_cons_of_neg Bool.false_ne_true, List.append_nil, beforeEnd,
        (List.takeWhile_prefix _).eq_of_length hall]
  · rfl

theorem takeIn_eq (c : Client) (arrivals : List Arrival) :
    c.takeIn arrivals =
      ((c.deliverTexts true ((beforeEnd arrivals).filterMap Except.toOption)).1,
        (beforeEnd arrivals).length + 1) := by
  induction arrivals generalizing c with
  | nil => rfl
  | cons arrival rest ih =>
      cases arrival with
      | ok text =>
          rw [takeIn, ih]
          rfl
      | error failure =>
          cases failure with
          | closed => rfl
          | sendFailed message | receiveFailed message =>
              rw [takeIn, ih]
              rfl

theorem attend_eq (c : Client) (happenings : List (Move ⊕ Arrival)) :
    c.attend happenings =
      c.run ((happenings.takeWhile fun happening => !endsSource happening).filterMap asMove? ++
        (happenings.dropWhile fun happening => !endsSource happening).filterMap Sum.getLeft?) := by
  induction happenings generalizing c with
  | nil => rfl
  | cons happening rest ih =>
      cases happening with
      | inl m => exact ih _
      | inr arrival =>
          cases arrival with
          | ok text => exact ih _
          | error failure =>
              cases failure with
              | closed => rfl
              | sendFailed message | receiveFailed message => exact ih _

/-- With no moves in between, to attend to a source is to take it in. -/
theorem attend_arrivals (c : Client) (arrivals : List Arrival) :
    c.attend (arrivals.map .inr) = (c.takeIn arrivals).1 := by
  induction arrivals generalizing c with
  | nil => rfl
  | cons arrival rest ih =>
      cases arrival with
      | ok text => exact ih _
      | error failure =>
          cases failure with
          | closed =>
              have hmoves : (rest.map Sum.inr).filterMap (Sum.getLeft? (α := Move)) = [] := by
                simp
              rw [List.map_cons, attend, hmoves]
              rfl
          | sendFailed message | receiveFailed message => exact ih _

theorem outlook_taking (c : Client) (m : Move) : (c.taking m).outlook = c.outlook := by
  cases m <;> rfl

theorem Harmless.outlook (h : c.Harmless m) (hnumbered : c.Numbered) :
    (c.move m).outlook = c.outlook := by
  cases h with
  | @frame text harrival hunmatched =>
      rw [move_of_arrival harrival, outlook_deliver, outlook_taking]
      apply Outlook.after_of_unmatched
      intro reply hreply
      rw [expects_outlook]
      exact hunmatched reply (by rw [replyIn?, harrival, Option.bind_some, hreply])
  | @answer i id method stage hm hget =>
      subst hm
      rw [move, stepJob?, hget]
      dsimp only
      cases hstep : c.stepAnswer? i id method stage with
      | none => rfl
      | some c' =>
          exact outlook_of_quiet (quiet_stepAnswer hnumbered hget hstep) (.stepAnswer? hstep)
  | @handle i served handler method stage hm hget =>
      subst hm
      rw [move, stepJob?, hget]
      dsimp only
      cases hstep : c.stepHandle? i served handler method stage with
      | none => rfl
      | some c' => exact outlook_of_quiet (quiet_stepHandle hget hstep) (.stepHandle? hstep)

theorem outlook_run_of_harmless (hnumbered : c.Numbered) {moves : List Move}
    (h : c.Throughout Harmless moves) : (c.run moves).outlook = c.outlook := by
  induction moves generalizing c with
  | nil => rfl
  | cons m rest ih => exact (ih (hnumbered.move m) h.2).trans (h.1.outlook hnumbered)

/-- The job takes in what comes through the channel, and no handler runs for it. -/
structure Receives (c : Client) (r : JobId) : Prop where
  job : c.jobs.get? r = some .receive
  unserved : ∀ k, c.serves k ≠ some r

namespace Receives

theorem of_start (hserved : c.Served) : (c.move .startReceiver).Receives c.nextJob where
  job := by
    rw [move, startReceiver, jobs_start]
    exact Dictionary.get?_put_self _ _ _
  unserved :=
    Course.unserved_move (fun k hk => Nat.lt_irrefl _ (hserved k _ hk).1) List.not_mem_nil

/-- It is over when it finds that no more can come. -/
theorem ended (h : c.Receives r) (hinbox : c.inbox = ⟨[], false⟩) :
    (c.move (.advance r)).jobs.get? r = none := by
  have hstep : c.stepReceive? r = some (c.removeJob r) := by
    rw [stepReceive?, hinbox]
    rfl
  rw [Client.move, stepJob?, h.job]
  dsimp only
  rw [hstep]
  exact Dictionary.get?_erase_self _ _

/-- Otherwise it stays at it until it is given up. -/
theorem stays (h : c.Receives r) (hnumbered : c.Numbered) (hdrop : m ≠ .drop r)
    (hmore : ¬(m = .advance r ∧ c.inbox = ⟨[], false⟩)) : (c.move m).Receives r := by
  have hlt := hnumbered r _ h.job
  refine ⟨?_, Course.unserved_move h.unserved ?_⟩
  · by_cases hm : m = .advance r
    · subst hm
      cases hframes : c.inbox.frames with
      | cons text rest =>
          have harrival : c.arrival? (.advance r) = some text := by
            rw [arrival?, if_pos h.job, hframes, List.head?_cons]
          have hspares : Spares (c.taking (.advance r)) _ [] [] [] := .deliver _ text true
          rw [move_of_arrival harrival]
          exact (hspares.kept r hlt List.not_mem_nil).trans h.job
      | nil =>
          have hopen : c.inbox.isOpen = true := by
            by_contra hclosed
            exact hmore ⟨rfl, congrArg₂ Inbox.mk hframes (Bool.eq_false_iff.mpr hclosed)⟩
          have hstuck : c.stepReceive? r = none := by
            rw [stepReceive?, hframes]
            exact if_pos hopen
          rw [Client.move, stepJob?, h.job]
          dsimp only
          rw [hstuck]
          exact h.job
    · rw [(c.spares_move m).kept r hlt]
      · exact h.job
      · exact fun htouched => (eq_of_touched h.unserved htouched).elim hm hdrop
  · intro hmem
    obtain ⟨-, id, method, stage, hget⟩ := mem_starting hmem
    rw [h.job] at hget
    cases hget

/-- A move leaves the job at it with more to come, or the job is gone with the move. -/
theorem move (h : c.Receives r) (hnumbered : c.Numbered) (m : Move) :
    ((c.move m).Receives r ∧ ¬(m = .advance r ∧ c.inbox = ⟨[], false⟩)) ∨
      ((m = .drop r ∨ m = .advance r ∧ c.inbox = ⟨[], false⟩) ∧
        (c.move m).jobs.get? r = none) := by
  by_cases hdrop : m = .drop r
  · refine Or.inr ⟨Or.inl hdrop, ?_⟩
    rw [hdrop]
    exact get?_dropJob c r
  · by_cases hended : m = .advance r ∧ c.inbox = ⟨[], false⟩
    · refine Or.inr ⟨Or.inr hended, ?_⟩
      rw [hended.1]
      exact h.ended hended.2
    · exact Or.inl ⟨h.stays hnumbered hdrop hended, hended⟩

/-- Once the job is gone, it stays so. -/
theorem gone_run (h : c.Receives r) (hnumbered : c.Numbered) {first : List Move}
    (hgone : (c.run first).jobs.get? r = none) (second : List Move) :
    (c.run (first ++ second)).jobs.get? r = none := by
  have hlt := Nat.lt_of_lt_of_le (hnumbered r _ h.job) (inherits_run hnumbered first).nextJob
  rw [run_append]
  exact (inherits_run (hnumbered.run first) second).gone hlt hgone

/-- In a run, the job stays at it, or at one of the moves it is given up or finds that no more can
come, and it is gone. -/
theorem run (h : c.Receives r) (hnumbered : c.Numbered) (since : List Move) :
    (c.run since).Receives r ∨ (c.run since).jobs.get? r = none ∧
      ∃ first m second, since = first ++ m :: second ∧
        (m = .drop r ∨ m = .advance r ∧ (c.run first).inbox = ⟨[], false⟩) := by
  induction since generalizing c with
  | nil => exact Or.inl h
  | cons m rest ih =>
      have hnumbered' := hnumbered.move m
      rcases h.move hnumbered m with ⟨hnext, -⟩ | ⟨hm, hgone⟩
      · rcases ih hnext hnumbered' with hlast | ⟨hgone, first, m', second, rfl, hm⟩
        · exact Or.inl hlast
        · exact Or.inr ⟨hgone, m :: first, m', second, rfl, hm⟩
      · have hafter : (c.run [m]).jobs.get? r = none := hgone
        exact Or.inr ⟨h.gone_run hnumbered hafter rest, [], m, rest, rfl, hm⟩

theorem takesOut (h : c.Receives r) : c.takesOut? (.advance r) = c.inbox.frames.head? := by
  rw [takesOut?, arrival?, if_pos h.job]

/-- A move leaves the job fewer frames to take out and to come than steps, if it had fewer before
and no more can come. -/
theorem fewer_move (h : c.Receives r) (hclosed : c.inbox.isOpen = false)
    (hmore : ¬(m = .advance r ∧ c.inbox = ⟨[], false⟩)) {rest : List Move}
    (hfewer : c.inbox.frames.length + ((m :: rest).filterMap Move.brought?).length <
      (m :: rest).count (.advance r)) :
    (c.move m).inbox.frames.length + (rest.filterMap Move.brought?).length <
      rest.count (.advance r) := by
  have hframes := congrArg List.length (c.frames_move m)
  have hbrought : ((m :: rest).filterMap Move.brought?).length =
      m.brought?.toList.length + (rest.filterMap Move.brought?).length := by
    rw [List.filterMap_cons]
    cases m.brought? <;> simp [Nat.add_comm]
  rw [List.length_append, List.length_append] at hframes
  rw [hbrought, List.count_cons] at hfewer
  by_cases hm : m = .advance r
  · subst hm
    have hsome : c.inbox.frames ≠ [] := fun hnil => hmore ⟨rfl, congrArg₂ Inbox.mk hnil hclosed⟩
    obtain ⟨text, others, hcons⟩ := List.exists_cons_of_ne_nil hsome
    have hone : (c.takesOut? (.advance r)).toList.length = 1 := by
      rw [h.takesOut, hcons]
      rfl
    rw [beq_self_eq_true, if_pos rfl] at hfewer
    omega
  · rw [beq_eq_false_iff_ne.mpr hm, if_neg Bool.false_ne_true] at hfewer
    omega

/-- With no more to come, the job is gone once it has made a step for every frame, and one more. -/
theorem gone (h : c.Receives r) (hnumbered : c.Numbered) (hclosed : c.inbox.isOpen = false)
    {since : List Move}
    (hfewer : c.inbox.frames.length + (since.filterMap Move.brought?).length <
      since.count (.advance r)) : (c.run since).jobs.get? r = none := by
  induction since generalizing c with
  | nil => exact absurd hfewer (Nat.not_lt_zero _)
  | cons m rest ih =>
      have hnumbered' := hnumbered.move m
      rcases h.move hnumbered m with ⟨hnext, hmore⟩ | ⟨-, hgone⟩
      · refine ih hnext hnumbered' ?_ (h.fewer_move hclosed hmore hfewer)
        rw [isOpen_move, hclosed, Bool.false_and]
      · have hafter : (c.run [m]).jobs.get? r = none := hgone
        exact h.gone_run hnumbered hafter rest

end Receives

theorem inbox_startReceiver (c : Client) : (c.move .startReceiver).inbox = c.inbox :=
  (Apart.start c .receive).inbox

/-- In every state that a run reaches, a client takes in whatever a source gives and whatever comes
through its channel. -/
theorem taken_in_once_in_order (settings : Settings) (link : Link) (moves : List Move) :
    ((ofSettings settings link).run moves).TakesIn := by
  have hnone := numbered_ofSettings settings link
  have hnumbered := hnone.run moves
  have hnumbered' := hnumbered.move .startReceiver
  have hstart := Receives.of_start ((Served.ofSettings settings link).run hnone moves)
  refine ⟨takeIn_eq _, ?_, attend_arrivals _, attend_eq _, ?_, ?_, frames_run _, ?_, ?_⟩
  · intro before after
    rw [takeIn_eq, takeIn_eq, beforeEnd_append]
  · intro since later hharmless
    exact treatments_congr hnumbered (hnumbered.run since)
      (outlook_run_of_harmless hnumbered hharmless) later
  · intro m text htaken
    cases m with
    | advance i => exact move_of_arrival htaken
    | _ => cases htaken
  · intro since hdrop
    rcases hstart.run hnumbered' since with hlast | ⟨-, first, m, second, hsince, hm⟩
    · exact Or.inl ⟨hlast.job, hlast.takesOut⟩
    · rcases hm with rfl | ⟨rfl, hinbox⟩
      · rw [hsince] at hdrop
        exact absurd (List.mem_append_right _ List.mem_cons_self) hdrop
      · refine Or.inr ⟨first, second, hsince, hinbox, ?_⟩
        have hframes :=
          frames_run (((ofSettings settings link).run moves).move .startReceiver) first
        rwa [hinbox, List.append_nil, inbox_startReceiver] at hframes
  · intro first second hclosed hfewer
    rcases hstart.run hnumbered' first with hlast | ⟨hgone, -⟩
    · rw [receiving, run_append]
      exact hlast.gone (hnumbered'.run first) hclosed hfewer
    · exact hstart.gone_run hnumbered' hgone second

/-- Neither a failure of the source, nor a text that is no frame, nor a reply for nobody, nor a
listener that breaks down keeps the next notice from the listener; the end of the source does. -/
example :
    let event := "device.onNameChanged"
    let moves := [.begin (.change (.subscribe event ⟨"name", .anything, .breakDown⟩))] ++
      [0, 0, 0, 0, 0].map Move.advance ++ [.deliver "\x7b\"id\":1,\"result\":null\x7d" true] ++
      [0, 0, 0, 0].map Move.advance
    let notice := "\x7b\"event\":\"device.onNameChanged\",\"value\":true\x7d"
    let taken := ((ofSettings {} (.direct .up)).run moves).takeIn [.ok notice,
      .error (.receiveFailed "reset"), .ok "?", .ok "\x7b\"id\":1,\"result\":null\x7d", .ok notice,
      .error .closed, .ok notice]
    taken.2 = 6 ∧ taken.1.notes = [⟨"name", .bool true⟩, ⟨"name", .bool true⟩] := by
  decide +kernel

end Client

end GatewayClient
