/-
The work that the jobs of a client are at, and what does not touch it.  Most of what a client does
is quiet: it has nothing to do with the calls and changes that are under way, with the table, or
with who listens and provides.
-/
import GatewayClient.Client.Run
import GatewayClient.Proofs.Dictionary

namespace GatewayClient

/-- Whether a link takes frames, at once or when there is room. -/
def Link.isUp : Link → Bool
  | .direct state => decide (state = .up)
  | .channel pipe => pipe.isOpen

/-- What a job does for an application: a call, or a change. -/
inductive Work where
  | call (call : Call) (stage : CallStage)
  | change (change : Change) (stage : ChangeStage)
deriving DecidableEq

/-- Whether a piece of work has begun. -/
def Work.isBegun : Work → Bool
  | call _ .fresh | change _ .fresh => false
  | _ => true

namespace Job

/-- The work of a job.  One that provides several handlers, or takes them back, is at the first. -/
def work? : Job → Option Work
  | call c _ stage => some (.call c stage)
  | change c stage => some (.change c stage)
  | provideAll ((event, handler) :: _) _ stage => some (.change (.provide event handler) stage)
  | withdraw _ (event :: _) stage => some (.change (.revoke event) stage)
  | _ => none

/-- The work that a job has begun. -/
def begun? (job : Job) : Option Work :=
  job.work?.filter Work.isBegun

/-- The change that a job is for, if it is for one alone. -/
def change? : Job → Option Change
  | change c _ => some c
  | _ => none

end Job

namespace Client

/-- The work that the job of a number has begun. -/
def workAt (c : Client) (i : JobId) : Option Work :=
  (c.jobs.get? i).bind Job.begun?

/-- Every job has a number that was given out. -/
def Numbered (c : Client) : Prop :=
  ∀ i job, c.jobs.get? i = some job → i < c.nextJob

theorem workAt_of_get? {c : Client} {i : JobId} {job : Job} (hget : c.jobs.get? i = some job) :
    c.workAt i = job.begun? := by
  rw [workAt, hget, Option.bind_some]

theorem workAt_congr {c c' : Client} {i : JobId} (hjob : c'.jobs.get? i = c.jobs.get? i) :
    c'.workAt i = c.workAt i := by
  rw [workAt, workAt, hjob]

/-- No job has a number not given out yet. -/
theorem Numbered.get?_eq_none {c : Client} (h : c.Numbered) {i : JobId} (hi : c.nextJob ≤ i) :
    c.jobs.get? i = none := by
  apply Option.eq_none_iff_forall_ne_some.mpr
  intro job hget
  exact Nat.not_lt_of_le hi (h i job hget)

theorem workAt_setJob (c : Client) (i j : JobId) (job : Job) :
    (c.setJob i job).workAt j = if j = i then job.begun? else c.workAt j := by
  rw [workAt, setJob, Dictionary.get?_put]
  by_cases hj : j = i
  · rw [if_pos hj, if_pos hj.symm, Option.bind_some]
  · rw [if_neg hj, if_neg (Ne.symm hj), workAt]

theorem workAt_removeJob (c : Client) (i j : JobId) :
    (c.removeJob i).workAt j = if j = i then none else c.workAt j := by
  rw [workAt, removeJob, Dictionary.get?_erase]
  by_cases hj : j = i
  · rw [if_pos hj, if_pos hj.symm, Option.bind_none]
  · rw [if_neg hj, if_neg (Ne.symm hj), workAt]

/-- The jobs of `c'` are jobs of `c`, each for the same change as before if it is for one alone, and
new ones. -/
structure Inherits (c c' : Client) : Prop where
  nextJob : c.nextJob ≤ c'.nextJob
  jobs : ∀ i job', c'.jobs.get? i = some job' →
    (∃ job, c.jobs.get? i = some job ∧ job'.change? = job.change?) ∨
      (c.nextJob ≤ i ∧ i < c'.nextJob)

namespace Inherits

theorem of_jobs {c c' : Client} (hnext : c'.nextJob = c.nextJob) (hjobs : c'.jobs = c.jobs) :
    Inherits c c' where
  nextJob := Nat.le_of_eq hnext.symm
  jobs := fun _ job' hget' => Or.inl ⟨job', hjobs ▸ hget', rfl⟩

theorem trans {c c₁ c' : Client} (h : Inherits c c₁) (h' : Inherits c₁ c') : Inherits c c' where
  nextJob := Nat.le_trans h.nextJob h'.nextJob
  jobs := by
    intro i job'' hget''
    have hnext := h.nextJob
    have hnext' := h'.nextJob
    rcases h'.jobs i job'' hget'' with ⟨job', hget', hsame'⟩ | ⟨hle, hlt⟩
    · rcases h.jobs i job' hget' with ⟨job, hget, hsame⟩ | ⟨hle, hlt⟩
      · exact Or.inl ⟨job, hget, hsame'.trans hsame⟩
      · exact Or.inr ⟨hle, Nat.lt_of_lt_of_le hlt hnext'⟩
    · exact Or.inr ⟨Nat.le_trans hnext hle, hlt⟩

theorem numbered {c c' : Client} (h : Inherits c c') (hnumbered : c.Numbered) : c'.Numbered := by
  intro i job' hget'
  rcases h.jobs i job' hget' with ⟨job, hget, -⟩ | ⟨-, hlt⟩
  · exact Nat.lt_of_lt_of_le (hnumbered i job hget) h.nextJob
  · exact hlt

end Inherits

/-- Time goes on, and the table's clock does not gain on the timers. -/
structure Later (c c' : Client) : Prop where
  clock : c.clock ≤ c'.clock
  pace : c.now + c'.clock ≤ c'.now + c.clock

namespace Later

theorem of_eq {c c' : Client} (hnow : c'.now = c.now) (hclock : c'.clock = c.clock) :
    Later c c' := by
  constructor <;> omega

theorem trans {c c₁ c' : Client} (h : Later c c₁) (h' : Later c₁ c') : Later c c' := by
  obtain ⟨hclock, hpace⟩ := h
  obtain ⟨hclock', hpace'⟩ := h'
  exact ⟨Nat.le_trans hclock hclock', by omega⟩

theorem now {c c' : Client} (h : Later c c') : c.now ≤ c'.now := by
  obtain ⟨hclock, hpace⟩ := h
  omega

end Later

/-- Apart from the work of the jobs, `c'` is `c` as far as calls and changes go.  All that the link
has taken in between are replies to calls of the platform. -/
structure Keeps (c c' : Client) : Prop where
  settings : c'.settings = c.settings
  later : Later c c'
  table : c'.table = c.table
  sent : ∃ replies : List Response, c'.sent = c.sent ++ replies.map Response.toJson
  events : c'.events = c.events
  nextListener : c'.nextListener = c.nextListener
  eventGates : c'.eventGates = c.eventGates
  providers : c'.providers = c.providers
  providerGates : c'.providerGates = c.providerGates
  inherits : Inherits c c'

/-- As far as calls and changes go, `c'` is `c`. -/
structure Quiet (c c' : Client) : Prop extends Keeps c c' where
  work : c.Numbered → ∀ i, c'.workAt i = c.workAt i

namespace Keeps

theorem trans {c c₁ c' : Client} (h : Keeps c c₁) (h' : Keeps c₁ c') : Keeps c c' where
  settings := h'.settings.trans h.settings
  later := h.later.trans h'.later
  table := h'.table.trans h.table
  sent := by
    obtain ⟨replies, hsent⟩ := h.sent
    obtain ⟨replies', hsent'⟩ := h'.sent
    exact ⟨replies ++ replies', by rw [hsent', hsent, List.map_append, List.append_assoc]⟩
  events := h'.events.trans h.events
  nextListener := h'.nextListener.trans h.nextListener
  eventGates := h'.eventGates.trans h.eventGates
  providers := h'.providers.trans h.providers
  providerGates := h'.providerGates.trans h.providerGates
  inherits := h.inherits.trans h'.inherits

theorem numbered {c c' : Client} (h : Keeps c c') (hnumbered : c.Numbered) : c'.Numbered :=
  h.inherits.numbered hnumbered

/-- Nothing that calls and changes depend on is touched by what is set aside here. -/
theorem aside (c : Client) (link : Link) (inbox : Inbox) (attached : Dictionary String UInt64)
    (signals : Dictionary String Signal) (ready : List JobId)
    (finished : List (JobId × Outcome)) (errands : Dictionary JobId String) (notes : List Note) :
    Keeps c
      { c with
        link := link, inbox := inbox, attached := attached, signals := signals, ready := ready,
        finished := finished, errands := errands, notes := notes } :=
  ⟨rfl, .of_eq rfl rfl, rfl, ⟨[], by simp⟩, rfl, rfl, rfl, rfl, rfl, .of_jobs rfl rfl⟩

theorem setJob {c : Client} {i : JobId} {old : Job} (hget : c.jobs.get? i = some old) {job : Job}
    (hsame : job.change? = old.change?) : Keeps c (c.setJob i job) := by
  refine ⟨rfl, .of_eq rfl rfl, rfl, ⟨[], by simp [Client.setJob]⟩, rfl, rfl, rfl, rfl, rfl,
    Nat.le_refl _, ?_⟩
  intro j job' hget'
  rw [Client.setJob, Dictionary.get?_put] at hget'
  split at hget'
  · next heq =>
      cases hget'
      exact Or.inl ⟨old, heq ▸ hget, hsame⟩
  · exact Or.inl ⟨job', hget', rfl⟩

theorem removeJob (c : Client) (i : JobId) : Keeps c (c.removeJob i) := by
  refine ⟨rfl, .of_eq rfl rfl, rfl, ⟨[], by simp [Client.removeJob]⟩, rfl, rfl, rfl, rfl, rfl,
    Nat.le_refl _, ?_⟩
  intro j job hget
  rw [Client.removeJob, Dictionary.get?_erase] at hget
  split at hget
  · cases hget
  · exact Or.inl ⟨job, hget, rfl⟩

theorem finish (c : Client) (i : JobId) (outcome : Outcome) : Keeps c (c.finish i outcome) :=
  (removeJob c i).trans (aside _ _ _ _ _ _ _ _ _)

end Keeps

theorem workAt_finish (c : Client) (i j : JobId) (outcome : Outcome) :
    (c.finish i outcome).workAt j = if j = i then none else c.workAt j :=
  workAt_removeJob c i j

namespace Quiet

theorem trans {c c₁ c' : Client} (h : Quiet c c₁) (h' : Quiet c₁ c') : Quiet c c' where
  toKeeps := h.toKeeps.trans h'.toKeeps
  work := fun hnumbered i =>
    (h'.work (h.numbered hnumbered) i).trans (h.work hnumbered i)

theorem of_jobs {c c' : Client} (h : Keeps c c') (hjobs : c'.jobs = c.jobs) : Quiet c c' where
  toKeeps := h
  work := fun _ i => workAt_congr (by rw [hjobs])

theorem aside (c : Client) (link : Link) (inbox : Inbox) (attached : Dictionary String UInt64)
    (signals : Dictionary String Signal) (ready : List JobId)
    (finished : List (JobId × Outcome)) (errands : Dictionary JobId String) (notes : List Note) :
    Quiet c
      { c with
        link := link, inbox := inbox, attached := attached, signals := signals, ready := ready,
        finished := finished, errands := errands, notes := notes } :=
  of_jobs (Keeps.aside c link inbox attached signals ready finished errands notes) rfl

/-- Time may pass. -/
theorem passing (c : Client) {now clock : Nat} (hlater : Later c { c with now, clock }) :
    Quiet c { c with now, clock } :=
  of_jobs ⟨rfl, hlater, rfl, ⟨[], by simp⟩, rfl, rfl, rfl, rfl, rfl, .of_jobs rfl rfl⟩ rfl

theorem refl (c : Client) : Quiet c c :=
  aside c _ _ _ _ _ _ _ _

/-- A job's stage may change as long as its work is the same. -/
theorem setJob {c : Client} {i : JobId} (old job : Job) (hget : c.jobs.get? i = some old)
    (hsame : job.change? = old.change?) (hwork : job.begun? = old.begun?) :
    Quiet c (c.setJob i job) where
  toKeeps := Keeps.setJob hget hsame
  work := by
    intro _ j
    rw [workAt_setJob]
    split
    · next hj => rw [hj, workAt_of_get? hget, hwork]
    · rfl

theorem removeJob {c : Client} {i : JobId} (hwork : c.workAt i = none) :
    Quiet c (c.removeJob i) where
  toKeeps := Keeps.removeJob c i
  work := by
    intro _ j
    rw [workAt_removeJob]
    split
    · next hj => rw [hj, hwork]
    · rfl

end Quiet

theorem wake_eq (c : Client) (job : JobId) : ∃ ready, c.wake job = { c with ready := ready } := by
  rw [wake]
  split
  · exact ⟨c.ready, rfl⟩
  · exact ⟨_, rfl⟩

theorem wakeOption_eq (c : Client) (job : Option JobId) :
    ∃ ready, c.wakeOption job = { c with ready := ready } := by
  cases job with
  | none => exact ⟨c.ready, rfl⟩
  | some job => exact c.wake_eq job

theorem wakeAll_eq (c : Client) (jobs : List JobId) :
    ∃ ready, c.wakeAll jobs = { c with ready := ready } := by
  induction jobs generalizing c with
  | nil => exact ⟨c.ready, rfl⟩
  | cons job rest ih =>
      obtain ⟨ready, hwake⟩ := c.wake_eq job
      obtain ⟨ready', hrest⟩ := ih (c.wake job)
      refine ⟨ready', ?_⟩
      rw [wakeAll, List.foldl_cons]
      exact hrest.trans (by rw [hwake])

namespace Quiet

theorem wake (c : Client) (job : JobId) : Quiet c (c.wake job) := by
  obtain ⟨ready, heq⟩ := c.wake_eq job
  rw [heq]
  exact aside c _ _ _ _ _ _ _ _

theorem wakeOption (c : Client) (job : Option JobId) : Quiet c (c.wakeOption job) := by
  obtain ⟨ready, heq⟩ := c.wakeOption_eq job
  rw [heq]
  exact aside c _ _ _ _ _ _ _ _

theorem wakeAll (c : Client) (jobs : List JobId) : Quiet c (c.wakeAll jobs) := by
  obtain ⟨ready, heq⟩ := c.wakeAll_eq jobs
  rw [heq]
  exact aside c _ _ _ _ _ _ _ _

/-- A job that has not begun its work changes nothing when it is started. -/
theorem start (c : Client) (job : Job) (hwork : job.begun? = none) : Quiet c (c.start job).1 := by
  let started := { c with jobs := c.jobs.put c.nextJob job, nextJob := c.nextJob + 1 }
  suffices h : Quiet c started from h.trans (wake started c.nextJob)
  refine ⟨⟨rfl, .of_eq rfl rfl, rfl, ⟨[], by simp [started]⟩, rfl, rfl, rfl, rfl, rfl,
    Nat.le_succ c.nextJob, ?_⟩, ?_⟩
  · intro i job' hget
    rw [Dictionary.get?_put] at hget
    split at hget
    · next heq => exact heq ▸ Or.inr ⟨Nat.le_refl _, Nat.lt_succ_self _⟩
    · exact Or.inl ⟨job', hget, rfl⟩
  · intro hnumbered i
    rw [workAt, Dictionary.get?_put]
    split
    · next heq =>
        rw [← heq, workAt, hnumbered.get?_eq_none (Nat.le_refl _), Option.bind_some, hwork,
          Option.bind_none]
    · rfl

end Quiet

/-- Starting a job changes the jobs, and which are ready. -/
theorem start_eq (c : Client) (job : Job) :
    ∃ ready, (c.start job).1 =
      { c with jobs := c.jobs.put c.nextJob job, nextJob := c.nextJob + 1, ready := ready } := by
  obtain ⟨ready, heq⟩ :=
    { c with jobs := c.jobs.put c.nextJob job, nextJob := c.nextJob + 1 }.wake_eq c.nextJob
  exact ⟨ready, heq⟩

theorem jobs_start (c : Client) (job : Job) :
    (c.start job).1.jobs = c.jobs.put c.nextJob job := by
  obtain ⟨ready, heq⟩ := c.start_eq job
  rw [heq]

/-- What the link does with a frame that job `i` brings to it: it takes the frame, has the job wait
at the end of the line since its channel is full, or is down. -/
inductive Offered (c : Client) (i : JobId) (frame : Json) (c' : Client) : SendStep → Prop where
  | direct (hlink : c.link = .direct .up) (hafter : c'.link = c.link)
    (hsent : c'.sent = c.sent ++ [frame]) : Offered c i frame c' .sent
  | room {pipe : Channel} (hlink : c.link = .channel pipe) (hopen : pipe.isOpen = true)
    (hroom : pipe.frames.length + pipe.admitted.length < pipe.capacity)
    (hafter : c'.link = .channel { pipe with frames := pipe.frames ++ [frame] })
    (hsent : c'.sent = c.sent ++ [frame]) : Offered c i frame c' .sent
  | full {pipe : Channel} (hlink : c.link = .channel pipe) (hopen : pipe.isOpen = true)
    (hfull : pipe.capacity ≤ pipe.frames.length + pipe.admitted.length)
    (hafter : c'.link = .channel { pipe with waiting := pipe.waiting ++ [i] })
    (hsent : c'.sent = c.sent) : Offered c i frame c' .waits
  | down (hdown : c.link.isUp = false) (hafter : c'.link = c.link) (hsent : c'.sent = c.sent) :
    Offered c i frame c' .failed

/-- What the link does with the frame of a job that waits for room: it takes the frame once it has
given the job room, has it wait on, or is down. -/
inductive OfferedAgain (c : Client) (i : JobId) (frame : Json) (c' : Client) : SendStep → Prop where
  | direct (hlink : c.link = .direct .up) (hafter : c'.link = c.link)
    (hsent : c'.sent = c.sent ++ [frame]) : OfferedAgain c i frame c' .sent
  | room {pipe : Channel} (hlink : c.link = .channel pipe) (hopen : pipe.isOpen = true)
    (hroom : i ∈ pipe.admitted)
    (hafter : c'.link = .channel { pipe with
      frames := pipe.frames ++ [frame], admitted := pipe.admitted.erase i })
    (hsent : c'.sent = c.sent ++ [frame]) : OfferedAgain c i frame c' .sent
  | full {pipe : Channel} (hlink : c.link = .channel pipe) (hopen : pipe.isOpen = true)
    (hfull : i ∉ pipe.admitted) (hafter : c'.link = c.link) (hsent : c'.sent = c.sent) :
    OfferedAgain c i frame c' .waits
  | down (hdown : c.link.isUp = false) (hafter : c'.link = c.link) (hsent : c'.sent = c.sent) :
    OfferedAgain c i frame c' .failed

theorem offered (c : Client) (i : JobId) (frame : Json) :
    Offered c i frame (c.offer i frame).1 (c.offer i frame).2 := by
  rw [offer]
  cases hlink : c.link with
  | direct state =>
      cases state with
      | up => exact .direct hlink hlink.symm rfl
      | closed | failing => exact .down (by rw [hlink]; rfl) rfl rfl
  | channel pipe =>
      dsimp only
      by_cases hopen : pipe.isOpen = true
      · by_cases hroom : pipe.frames.length + pipe.admitted.length < pipe.capacity
        · rw [show pipe.offer i frame = ({ pipe with frames := pipe.frames ++ [frame] }, .sent) by
            simp [Channel.offer, Channel.hasRoom, hopen, hroom]]
          exact .room hlink hopen hroom rfl rfl
        · rw [show pipe.offer i frame = ({ pipe with waiting := pipe.waiting ++ [i] }, .waits) by
            simp [Channel.offer, Channel.hasRoom, hopen, hroom]]
          exact .full hlink hopen (Nat.le_of_not_lt hroom) rfl rfl
      · rw [show pipe.offer i frame = (pipe, .failed) by simp [Channel.offer, hopen]]
        exact .down (by rw [hlink]; exact Bool.eq_false_iff.mpr hopen) hlink.symm rfl

theorem offeredAgain (c : Client) (i : JobId) (frame : Json) :
    OfferedAgain c i frame (c.offerAgain i frame).1 (c.offerAgain i frame).2 := by
  rw [offerAgain]
  cases hlink : c.link with
  | direct state =>
      dsimp only
      have h := c.offered i frame
      generalize (c.offer i frame).2 = step at h
      cases h with
      | direct hup hafter hsent => exact .direct hup hafter hsent
      | down hdown hafter hsent => exact .down hdown hafter hsent
      | room hlink' | full hlink' => cases hlink.symm.trans hlink'
  | channel pipe =>
      dsimp only
      by_cases hopen : pipe.isOpen = true
      · by_cases hroom : i ∈ pipe.admitted
        · rw [show pipe.retry i frame = ({ pipe with
              frames := pipe.frames ++ [frame], admitted := pipe.admitted.erase i }, .sent) by
            simp [Channel.retry, hopen, hroom]]
          exact .room hlink hopen hroom rfl rfl
        · rw [show pipe.retry i frame = (pipe, .waits) by simp [Channel.retry, hopen, hroom]]
          exact .full hlink hopen hroom hlink.symm rfl
      · rw [show pipe.retry i frame = (pipe, .failed) by simp [Channel.retry, hopen]]
        exact .down (by rw [hlink]; exact Bool.eq_false_iff.mpr hopen) hlink.symm rfl

/-- The link refuses a frame only if it takes none. -/
theorem isUp_of_offer {c : Client} {i : JobId} {frame : Json}
    (hfailed : (c.offer i frame).2 = .failed) : c.link.isUp = false := by
  have h := c.offered i frame
  rw [hfailed] at h
  cases h with
  | down hdown => exact hdown

theorem isUp_of_offerAgain {c : Client} {i : JobId} {frame : Json}
    (hfailed : (c.offerAgain i frame).2 = .failed) : c.link.isUp = false := by
  have h := c.offeredAgain i frame
  rw [hfailed] at h
  cases h with
  | down hdown => exact hdown

/-- Bringing a frame to the link changes the link, and adds the frame to those sent if it is. -/
theorem offer_eq (c : Client) (sender : JobId) (frame : Json) :
    ∃ link, (c.offer sender frame).1 =
      { c with
        link := link
        sent := if (c.offer sender frame).2 = .sent then c.sent ++ [frame] else c.sent } := by
  rw [offer]
  cases hlink : c.link with
  | direct state =>
      cases state with
      | up => exact ⟨.direct .up, rfl⟩
      | closed => exact ⟨c.link, rfl⟩
      | failing => exact ⟨c.link, rfl⟩
  | channel channel => exact ⟨_, rfl⟩

theorem offerAgain_eq (c : Client) (sender : JobId) (frame : Json) :
    ∃ link, (c.offerAgain sender frame).1 =
      { c with
        link := link
        sent := if (c.offerAgain sender frame).2 = .sent then c.sent ++ [frame] else c.sent } := by
  rw [offerAgain]
  cases hlink : c.link with
  | direct state => exact c.offer_eq sender frame
  | channel channel => exact ⟨_, rfl⟩

theorem withdrawOffer_eq (c : Client) (sender : JobId) :
    ∃ link ready, c.withdrawOffer sender = { c with link := link, ready := ready } := by
  rw [withdrawOffer]
  cases c.link with
  | direct state => exact ⟨c.link, c.ready, rfl⟩
  | channel channel =>
      obtain ⟨ready, heq⟩ :=
        { c with link := .channel (channel.giveUp sender).1 }.wakeOption_eq
          (channel.giveUp sender).2
      exact ⟨_, ready, heq⟩

namespace Quiet

/-- A reply that the link takes or not. -/
theorem ofReply (c : Client) (r : Response) (taken : Bool) (link : Link) :
    Quiet c { c with link := link, sent := if taken then c.sent ++ [r.toJson] else c.sent } := by
  refine of_jobs ⟨rfl, .of_eq rfl rfl, rfl, ⟨if taken then [r] else [], ?_⟩, rfl, rfl, rfl, rfl,
    rfl, .of_jobs rfl rfl⟩ rfl
  cases taken <;> simp

theorem offer (c : Client) (sender : JobId) (r : Response) :
    Quiet c (c.offer sender r.toJson).1 := by
  obtain ⟨link, heq⟩ := c.offer_eq sender r.toJson
  rw [heq]
  simpa using ofReply c r (decide ((c.offer sender r.toJson).2 = .sent)) link

theorem offerAgain (c : Client) (sender : JobId) (r : Response) :
    Quiet c (c.offerAgain sender r.toJson).1 := by
  obtain ⟨link, heq⟩ := c.offerAgain_eq sender r.toJson
  rw [heq]
  simpa using ofReply c r (decide ((c.offerAgain sender r.toJson).2 = .sent)) link

theorem withdrawOffer (c : Client) (sender : JobId) : Quiet c (c.withdrawOffer sender) := by
  obtain ⟨link, ready, heq⟩ := c.withdrawOffer_eq sender
  rw [heq]
  exact aside c _ _ _ _ _ _ _ _

end Quiet

end Client

end GatewayClient
