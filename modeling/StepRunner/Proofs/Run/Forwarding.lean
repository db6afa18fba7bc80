import StepRunner.Proofs.Log.Sequence
import StepRunner.Proofs.Run.Schedule
import StepRunner.Proofs.Run.Transition

/-!
# What a log task forwards

A log task against its own steps: it opens the log stream of its container once, and what it sends
are the lines of this stream, in order and from the first one on.  It stops before the last one only
if it finds the reader gone.

* `LogOpening.lines`         the lines that a scanner comes to in an opened stream
* `RunEvent.openings`        the log streams that a step has opened, and what that came to
* `RunEvent.sent`            the lines that a step has sent to the reader
* `LogTask.Story`            a log task with its steps so far
* `Story.transition`         each of its steps goes on with it
* `delivered_play`           what the steps of a run send is delivered, in this order
-/

namespace StepRunner

variable {σ : Type}

/-- the lines that a scanner comes to in an opened log stream; without a stream there are none -/
def LogOpening.lines (options : Text.SanitizeOptions) : LogOpening → List String
  | .stream s => (Log.Scanner.ofReads options s.reads).lines
  | .failed _ | .panicked => []

/-! ## what a step opens and sends -/

namespace RunEvent

/-- the containers whose log stream a step has opened, and what that came to -/
def openings (setup : Setup σ) (e : RunEvent σ) : List (String × LogOpening) :=
  e.calls.flatMap fun c =>
    match c.event with
    | .opened container =>
      [(container, (setup.platform.openLogs c.pod container e.seen.state).1)]
    | _ => []

/-- the lines that a step has sent to the reader, the oldest first -/
def sent (e : RunEvent σ) : List LogLine :=
  (e.left.channel.sent.take (e.left.channel.sent.length - e.seen.channel.sent.length)).reverse

theorem flatMap_concat {β : Type} (f : RunEvent σ → List β) (past : List (RunEvent σ))
    (e : RunEvent σ) : (past ++ [e]).flatMap f = past.flatMap f ++ f e := by
  rw [List.flatMap_append, List.flatMap_singleton]

theorem flatMap_concat_of_nil {β : Type} {f : RunEvent σ → List β} {past : List (RunEvent σ)}
    {e : RunEvent σ} (h : f e = []) : (past ++ [e]).flatMap f = past.flatMap f := by
  rw [flatMap_concat, h, List.append_nil]

variable {setup : Setup σ} {e : RunEvent σ}

theorem openings_of_no_call (h : e.left.calls = e.seen.calls) : e.openings setup = [] := by
  rw [openings, calls_of_append [] h]
  rfl

theorem openings_of_call {c : CallRecord} (h : e.left.calls = c :: e.seen.calls)
    (hc : ∀ container, c.event ≠ .opened container) : e.openings setup = [] := by
  rw [openings, calls_of_append [c] h]
  cases hevent : c.event with
  | opened container => exact absurd hevent (hc container)
  | _ => simp [hevent]

theorem openings_of_opened {time : Nat} {pod : PodRef} {container : String}
    (h : e.left.calls = ⟨time, pod, .opened container⟩ :: e.seen.calls) :
    e.openings setup = [(container, (setup.platform.openLogs pod container e.seen.state).1)] := by
  rw [openings, calls_of_append [_] h]
  rfl

theorem sent_of_append (lines : List LogLine)
    (h : e.left.channel.sent = lines ++ e.seen.channel.sent) : e.sent = lines.reverse := by
  rw [sent, h, List.length_append, Nat.add_sub_cancel, List.take_left]

theorem sent_of_same (h : e.left.channel = e.seen.channel) : e.sent = [] :=
  sent_of_append [] (by rw [h]; rfl)

theorem sent_of_open {line : LogLine} (ho : e.seen.channel.isOpen = true)
    (h : e.left.channel = e.seen.channel.send line) : e.sent = [line] :=
  sent_of_append [line] (by rw [h, Channel.send, if_pos ho]; rfl)

theorem sent_of_closed {line : LogLine} (ho : e.seen.channel.isOpen = false)
    (h : e.left.channel = e.seen.channel.send line) : e.sent = [] :=
  sent_of_same (by rw [h, Channel.send, ho]; rfl)

end RunEvent

/-! ## one log task -/

namespace LogTask

variable {setup : Setup σ} {t : LogTask} {past : List (RunEvent σ)} {e : RunEvent σ}
  {result : Result σ}

def isOpening (t : LogTask) : Bool :=
  match t.phase with
  | .opening _ => true
  | _ => false

theorem isOpening_of_isOver (h : t.isOver = true) : t.isOpening = false := by
  unfold isOver at h
  unfold isOpening
  split at h <;> simp_all

/-- A log task with its steps so far: what it has opened, what of this it has sent, and what is
still to come. -/
inductive Story (setup : Setup σ) (t : LogTask) (past : List (RunEvent σ)) : Prop where
  | opening (hp : t.isOpening = true) (ho : past.flatMap (·.openings setup) = [])
      (hs : past.flatMap (·.sent) = [])
  | forwarding {s : Log.Stream} {scanner : Log.Scanner} {times : List Nat} {line : Option String}
      (done : List String) (hp : t.phase = .forwarding scanner times line)
      (ho : past.flatMap (·.openings setup) = [(t.container, .stream s)])
      (hs : past.flatMap (·.sent) = done.map (.output t.step t.container))
      (hl : done ++ line.toList ++ scanner.lines =
        (LogOpening.stream s).lines setup.config.sanitize)
  | finished {opening : LogOpening} (done : List String) (hp : t.isOver = true)
      (ho : past.flatMap (·.openings setup) = [(t.container, opening)])
      (hs : past.flatMap (·.sent) = done.map (.output t.step t.container))
      (hl : done <+: opening.lines setup.config.sanitize)
      (hall : (∀ e ∈ past, e.seen.channel.isOpen = true) →
        done = opening.lines setup.config.sanitize)

theorem close_task (t : LogTask) (scanner : Log.Scanner) (w : World σ) :
    (t.close scanner w).task = { t with phase := .ended } ∧
      (t.close scanner w).world.calls = w.calls ∧
      (t.close scanner w).world.channel = w.channel := by
  unfold close
  split <;> exact ⟨rfl, rfl, rfl⟩

/-- whether a step of a log task opens its stream: this is the step by which it is not any more
about to open it -/
theorem Transition.openings
    (h : Transition setup.platform setup.config.sanitize t e.seen result)
    (hl : e.left = result.world) :
    (e.openings setup = [] ∧ result.task.isOpening = t.isOpening) ∨
      ∃ opening, e.openings setup = [(t.container, opening)] ∧ t.isOpening = true ∧
        result.task.isOpening = false := by
  have hkeeps (hc : result.world.calls = e.seen.calls) : e.openings setup = [] :=
    RunEvent.openings_of_no_call (by rw [hl]; exact hc)
  have hopened (hc : result.world.calls =
        ⟨e.seen.now, t.pod, .opened t.container⟩ :: e.seen.calls) :
      e.openings setup =
        [(t.container, (setup.platform.openLogs t.pod t.container e.seen.state).1)] :=
    RunEvent.openings_of_opened (by rw [hl]; exact hc)
  have hopening {timer : Timer} (hp : t.phase = .opening timer) : t.isOpening = true := by
    simp only [isOpening, hp]
  have hforwarding {scanner : Log.Scanner} {times : List Nat} {line : Option String}
      (hp : t.phase = .forwarding scanner times line) : t.isOpening = false := by
    simp only [isOpening, hp]
  cases h with
  | asked hp => exact .inl ⟨hkeeps rfl, (hopening hp).symm⟩
  | openPanicked hp | openRefused hp | opened hp =>
    exact .inr ⟨_, hopened rfl, hopening hp, rfl⟩
  | read hp | stopped hp | sent hp => exact .inl ⟨hkeeps rfl, (hforwarding hp).symm⟩
  | @closed scanner scanner' times warnings hp =>
    obtain ⟨htask, hcalls, -⟩ := close_task t scanner' (e.seen.warn warnings)
    refine .inl ⟨hkeeps hcalls, ?_⟩
    rw [htask, hforwarding hp]
    rfl

theorem Transition.outputs
    (h : Transition setup.platform setup.config.sanitize t e.seen result)
    (hl : e.left = result.world) :
    result.task.id = t.id ∧ result.task.step = t.step ∧ result.task.container = t.container ∧
      ∀ line ∈ e.sent, line.container = t.container ∧ line.kind = .output := by
  have hquiet (hc : e.left.channel = e.seen.channel) :
      ∀ line ∈ e.sent, line.container = t.container ∧ line.kind = .output := by
    rw [RunEvent.sent_of_same hc]
    simp
  cases h with
  | asked | openPanicked | openRefused | opened | read | stopped =>
    exact ⟨rfl, rfl, rfl, hquiet (by rw [hl]; rfl)⟩
  | @closed scanner scanner' times warnings =>
    obtain ⟨htask, -, hchannel⟩ := close_task t scanner' (e.seen.warn warnings)
    rw [htask]
    exact ⟨rfl, rfl, rfl, hquiet (by rw [hl]; exact hchannel)⟩
  | sent hp ho =>
    refine ⟨rfl, rfl, rfl, ?_⟩
    rw [RunEvent.sent_of_open ho (by rw [hl]; rfl)]
    exact List.forall_mem_singleton.2 ⟨rfl, rfl⟩

theorem Story.of_opening (h : t.Story setup past) (hp : t.isOpening = true) :
    past.flatMap (·.openings setup) = [] ∧ past.flatMap (·.sent) = [] := by
  cases h with
  | opening _ ho hs => exact ⟨ho, hs⟩
  | forwarding _ hp' => simp [isOpening, hp'] at hp
  | finished _ hp' => simp [isOpening_of_isOver hp'] at hp

/-- what a log task that forwards lines has sent, is about to send and has still to read are the
lines of the stream that it has opened -/
theorem Story.of_forwarding (h : t.Story setup past) {scanner : Log.Scanner} {times : List Nat}
    {line : Option String} (hp : t.phase = .forwarding scanner times line) :
    ∃ s done, past.flatMap (·.openings setup) = [(t.container, .stream s)] ∧
      past.flatMap (·.sent) = done.map (.output t.step t.container) ∧
      done ++ line.toList ++ scanner.lines =
        (LogOpening.stream s).lines setup.config.sanitize := by
  cases h with
  | opening hp' => simp [isOpening, hp] at hp'
  | @forwarding s _ _ _ done hp' ho hs hl =>
    rw [hp] at hp'
    cases hp'
    exact ⟨s, done, ho, hs, hl⟩
  | finished _ hp' => simp [isOver, hp] at hp'

/-- **Each step of a log task goes on with its story.** -/
theorem Story.transition (h : t.Story setup past)
    (ht : Transition setup.platform setup.config.sanitize t e.seen result)
    (hl : e.left = result.world) : result.task.Story setup (past ++ [e]) := by
  have hquiet (hc : result.world.channel = e.seen.channel) :
      (past ++ [e]).flatMap (·.sent) = past.flatMap (·.sent) :=
    RunEvent.flatMap_concat_of_nil (RunEvent.sent_of_same (by rw [hl]; exact hc))
  have hkeeps (hc : result.world.calls = e.seen.calls) :
      (past ++ [e]).flatMap (·.openings setup) = past.flatMap (·.openings setup) :=
    RunEvent.flatMap_concat_of_nil (RunEvent.openings_of_no_call (by rw [hl]; exact hc))
  have hopening {timer : Timer} (hp : t.phase = .opening timer) :
      past.flatMap (·.openings setup) = [] ∧ past.flatMap (·.sent) = [] :=
    h.of_opening (by simp only [isOpening, hp])
  have hopened {timer : Timer} (hp : t.phase = .opening timer) (hc : result.world.calls =
        ⟨e.seen.now, t.pod, .opened t.container⟩ :: e.seen.calls) :
      (past ++ [e]).flatMap (·.openings setup) =
        [(t.container, (setup.platform.openLogs t.pod t.container e.seen.state).1)] := by
    rw [RunEvent.flatMap_concat, (hopening hp).1,
      RunEvent.openings_of_opened (by rw [hl]; exact hc)]
    rfl
  cases ht with
  | asked hp =>
    exact .opening rfl ((hkeeps rfl).trans (hopening hp).1) ((hquiet rfl).trans (hopening hp).2)
  | openPanicked hp _ ha =>
    have ho := hopened hp rfl
    rw [ha] at ho
    exact .finished [] rfl ho ((hquiet rfl).trans (hopening hp).2) List.nil_prefix fun _ => rfl
  | openRefused hp _ ha =>
    have ho := hopened hp rfl
    rw [ha] at ho
    exact .finished [] rfl ho ((hquiet rfl).trans (hopening hp).2) List.nil_prefix fun _ => rfl
  | opened hp _ ha =>
    have ho := hopened hp rfl
    rw [ha] at ho
    exact .forwarding [] rfl ho ((hquiet rfl).trans (hopening hp).2) rfl
  | read hp _ ha =>
    obtain ⟨s, done, ho, hsent, hlines⟩ := h.of_forwarding hp
    refine .forwarding done rfl ((hkeeps rfl).trans ho) ((hquiet rfl).trans hsent) ?_
    rw [← hlines, Log.Scanner.lines_of_advance ha]
    simp
  | @closed scanner scanner' times warnings hp _ ha =>
    obtain ⟨s, done, ho, hsent, hlines⟩ := h.of_forwarding hp
    obtain ⟨htask, hcalls, hchannel⟩ := close_task t scanner' (e.seen.warn warnings)
    have hdone : done = (LogOpening.stream s).lines setup.config.sanitize := by
      rw [← hlines, Log.Scanner.lines_of_no_advance ha]
      simp
    rw [htask]
    exact .finished done rfl ((hkeeps hcalls).trans ho) ((hquiet hchannel).trans hsent)
      (hdone ▸ List.prefix_refl done) fun _ => hdone
  | @stopped scanner times line hp hclosed =>
    obtain ⟨s, done, ho, hsent, hlines⟩ := h.of_forwarding hp
    refine .finished done rfl ((hkeeps rfl).trans ho) ((hquiet rfl).trans hsent) ?_
      fun hopen => ?_
    · rw [← hlines, List.append_assoc]
      exact List.prefix_append done _
    · rw [hopen e (List.mem_append_right past List.mem_cons_self)] at hclosed
      cases hclosed
  | @sent scanner times line hp hopen =>
    obtain ⟨s, done, ho, hsent, hlines⟩ := h.of_forwarding hp
    refine .forwarding (done ++ [line]) rfl ((hkeeps rfl).trans ho) ?_ ?_
    · rw [RunEvent.flatMap_concat, hsent, RunEvent.sent_of_open hopen (by rw [hl]; rfl),
        List.map_append]
      rfl
    · rw [← hlines]
      simp

theorem Story.prefix_lines (h : t.Story setup past) :
    past.flatMap (·.sent) <+: ((past.flatMap (·.openings setup)).flatMap
      (·.2.lines setup.config.sanitize)).map (.output t.step t.container) := by
  cases h with
  | opening _ ho hs =>
    rw [ho, hs]
    exact List.prefix_refl []
  | @forwarding _ _ _ _ done _ ho hs hl =>
    rw [ho, hs, List.flatMap_singleton, ← hl, List.append_assoc]
    exact (List.prefix_append done _).map _
  | finished _ _ ho hs hl =>
    rw [ho, hs, List.flatMap_singleton]
    exact hl.map _

/-- what a log task that is over has sent to a reader who was there are all of them -/
theorem Story.of_isOver (h : t.Story setup past) (hover : t.isOver = true)
    (hopen : ∀ e ∈ past, e.seen.channel.isOpen = true) :
    ∃ opening, past.flatMap (·.openings setup) = [(t.container, opening)] ∧
      past.flatMap (·.sent) =
        (opening.lines setup.config.sanitize).map (.output t.step t.container) := by
  cases h with
  | opening hp =>
    rw [isOpening_of_isOver hover] at hp
    cases hp
  | forwarding _ hp => simp [isOver, hp] at hover
  | @finished opening _ _ ho hs _ hall =>
    rw [hall hopen] at hs
    exact ⟨opening, ho, hs⟩

end LogTask

/-! ## the channel -/

/-- the reader of a channel stays or stays away, and lines are added to it -/
def Channel.Grows (before after : Channel) : Prop :=
  after.isOpen = before.isOpen ∧ ∃ lines, after.sent = lines ++ before.sent

theorem Channel.grows_refl (c : Channel) : c.Grows c := ⟨rfl, [], rfl⟩

theorem Channel.grows_send (c : Channel) (line : LogLine) : c.Grows (c.send line) := by
  unfold send
  split
  · exact ⟨rfl, [line], rfl⟩
  · exact c.grows_refl

theorem Run.Transition.grows {setup : Setup σ} {r r' : Run} {w w' : World σ}
    (h : Transition setup r w r' w') : w.channel.Grows w'.channel := by
  cases h with
  | announced => exact w.channel.grows_send _
  | created | joinedAll => split <;> exact w.channel.grows_refl
  | _ => exact w.channel.grows_refl

theorem LogTask.Transition.grows {platform : Platform σ} {options : Text.SanitizeOptions}
    {t : LogTask} {w : World σ} {result : Result σ} (h : Transition platform options t w result) :
    w.channel.Grows result.world.channel := by
  cases h with
  | sent => exact w.channel.grows_send _
  | @closed scanner scanner' times warnings =>
    rw [(close_task t scanner' (w.warn warnings)).2.2]
    exact w.channel.grows_refl
  | _ => exact w.channel.grows_refl

/-! ## the room for lines -/

theorem Channel.room_send (c : Channel) (line : LogLine) : (c.send line).room = c.room := by
  unfold send
  split <;> rfl

theorem Run.Transition.room {setup : Setup σ} {r r' : Run} {w w' : World σ}
    (h : Transition setup r w r' w') : w'.channel.room = w.channel.room := by
  cases h with
  | announced => exact w.channel.room_send _
  | created | joinedAll => split <;> rfl
  | _ => rfl

theorem LogTask.Transition.room {platform : Platform σ} {options : Text.SanitizeOptions}
    {t : LogTask} {w : World σ} {result : Result σ} (h : Transition platform options t w result) :
    result.world.channel.room = w.channel.room := by
  cases h with
  | sent => exact w.channel.room_send _
  | @closed scanner scanner' times warnings =>
    rw [(close_task t scanner' (w.warn warnings)).2.2]
    rfl
  | _ => rfl

/-! ## all schedules -/

namespace Crew

variable {setup : Setup σ} {c : Crew σ} {i : Nat} {m : Move} {e : RunEvent σ}

theorem channel_settle (policy : Option FailurePolicy) (r : Run) (w : World σ) :
    (settle policy r w).channel = w.channel := by
  unfold settle
  split
  · split
    · rfl
    · dsimp only
      split <;> rfl
  · rfl

theorem grows_move (setup : Setup σ) (c : Crew σ) (m : Move) :
    c.world.channel.Grows (c.move setup m).world.channel := by
  cases m with
  | tick =>
    obtain ⟨now, hmove⟩ := move_tick setup c
    rw [hmove]
    exact c.world.channel.grows_refl
  | pass current waiting => exact c.world.channel.grows_refl
  | act a =>
    have htouched := touched_act setup c a
    generalize (c.move setup (.act a)).world = w at htouched
    cases htouched with
    | still | canceller => exact c.world.channel.grows_refl
    | @run r r' w ht =>
      rw [channel_settle]
      exact ht.grows
    | logTask ht => exact ht.grows
    | reader hc =>
      -- the reader takes a line that stays among those sent
      unfold Channel.receive? at hc
      split at hc
      next => cases hc
      next =>
        cases hc
        exact ⟨rfl, [], rfl⟩

theorem room_move (setup : Setup σ) (c : Crew σ) (m : Move) :
    (c.move setup m).world.channel.room = c.world.channel.room := by
  cases m with
  | tick =>
    obtain ⟨now, hmove⟩ := move_tick setup c
    rw [hmove]
  | pass current waiting => rfl
  | act a =>
    have htouched := touched_act setup c a
    generalize (c.move setup (.act a)).world = w at htouched
    cases htouched with
    | still | canceller => rfl
    | @run r r' w ht =>
      rw [channel_settle]
      exact ht.room
    | logTask ht => exact ht.room
    | reader hc =>
      unfold Channel.receive? at hc
      split at hc
      next => cases hc
      next =>
        cases hc
        rfl

theorem room_play (setup : Setup σ) (c : Crew σ) (moves : List Move) :
    (c.play setup moves).world.channel.room = c.world.channel.room := by
  induction moves generalizing c with
  | nil => rfl
  | cons m moves ih => exact (ih (c.move setup m)).trans (room_move setup c m)

/-- the step that a move makes run `i` take starts from the world as it is, and leaves the channel
to the next one -/
theorem seen_of_event? (h : c.event? setup i m = some e) :
    e.seen = c.world ∧ (c.move setup m).world.channel = e.left.channel := by
  unfold event? at h
  split at h
  next k =>
    split at h
    next hk =>
      subst hk
      obtain ⟨r, hr, h⟩ := Option.bind_eq_some_iff.1 h
      obtain ⟨⟨r', w⟩, hact, rfl⟩ := Option.map_eq_some_iff.1 h
      rw [(move_run hr hact).2]
      exact ⟨rfl, channel_settle c.policy r' w⟩
    next => cases h
  next k id =>
    split at h
    next hk =>
      subst hk
      obtain ⟨r, hr, h⟩ := Option.bind_eq_some_iff.1 h
      obtain ⟨⟨r', w⟩, hact, rfl⟩ := Option.map_eq_some_iff.1 h
      rw [(move_logTask hr hact).2]
      exact ⟨rfl, rfl⟩
    next => cases h
  next => cases h

theorem isOpen_of_mem_events {moves : List Move} (he : e ∈ c.events setup i moves) :
    e.seen.channel.isOpen = c.world.channel.isOpen := by
  induction moves generalizing c with
  | nil => cases he
  | cons m moves ih =>
    rw [events, List.mem_append, Option.mem_toList] at he
    obtain he | he := he
    · rw [(seen_of_event? he).1]
    · rw [ih he, (grows_move setup c m).1]

/-- **What the steps of a run send is delivered**, in the order in which it is sent; other runs may
send more in between. -/
theorem delivered_play (setup : Setup σ) (i : Nat) (moves : List Move) (c : Crew σ) :
    ∃ lines, (c.play setup moves).world.channel.delivered =
        c.world.channel.delivered ++ lines ∧
      ((c.events setup i moves).flatMap (·.sent)).Sublist lines := by
  induction moves generalizing c with
  | nil => exact ⟨[], (List.append_nil _).symm, .slnil⟩
  | cons m moves ih =>
    obtain ⟨-, first, hfirst⟩ := grows_move setup c m
    obtain ⟨rest, hrest, hsub⟩ := ih (c.move setup m)
    refine ⟨first.reverse ++ rest, ?_, ?_⟩
    · rw [play_cons, hrest, Channel.delivered, hfirst, List.reverse_append, List.append_assoc]
      rfl
    · rw [events, List.flatMap_append]
      refine List.Sublist.append ?_ hsub
      cases hevent : c.event? setup i m with
      | none => exact List.nil_sublist _
      | some e =>
        obtain ⟨hseen, hleft⟩ := seen_of_event? hevent
        have hsent : e.sent = first.reverse :=
          RunEvent.sent_of_append first (by rw [← hleft, hfirst, hseen])
        show (e.sent ++ []).Sublist first.reverse
        rw [List.append_nil]
        exact hsent ▸ List.Sublist.refl _

end Crew

end StepRunner
