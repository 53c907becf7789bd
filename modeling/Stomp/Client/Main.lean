import Stomp.Base.Run
import Stomp.Client.Commands

/-!
# The sessions of the client

`main` runs the commands of its user, and `communicate` reads the frames of the server in a thread of
its own. The thread deletes the protocol object at its end. Only `logout` joins the thread.
-/

open Stomp.Split Stomp.Utf8

namespace Stomp.Client

/-- Where the thread stands in `communicate`. -/
inductive ThreadPhase where
  /-- At the test of the loop. -/
  | test
  /-- In `getFrameAscii`. -/
  | read
  /-- After the loop, before the clean-up. -/
  | leave
  | returned
  deriving DecidableEq

inductive MainPhase where
  | prompt
  /-- In `communicator.join()`. -/
  | joining
  /-- The program ended: an exception that nobody caught, or a pointer that is null. -/
  | ended
  deriving DecidableEq

/-- The variables of `main` that its thread shares, and `communicator`. The pointer to the connection
handler is set and cleared together with `protocol`. -/
structure Main where
  username : Bytes
  protocol : Option StompProtocol
  /-- `none` when the variable holds no joinable thread. -/
  communicator : Option ThreadPhase
  phase : MainPhase

inductive MainEvent where
  /-- `connects` is what `connect()` returns. -/
  | login (hostPort username password : Bytes) (connects : Bool)
  | command (command : Command)
  /-- A line that only prints: another word, or a wrong number of arguments, or `summary`. -/
  | print
  /-- A line that ends the program: one with no word, or the report of a file that is not parsed. -/
  | die
  /-- `join` returns. -/
  | joined
  | test
  | frame (message : Bytes)
  | lose
  | cleanUp

namespace Main

def initial : Main := ⟨[], none, none, .prompt⟩

def ended (s : Main) : Main := { s with phase := .ended }

/-- `protocol && protocol->isConnected()`. -/
def loggedIn (s : Main) : Bool := s.protocol.any (·.connected)

/-- The port after the first colon, if there is one. -/
def port (hostPort : Bytes) : Option Bytes := (splitOnce [colon] hostPort).2

/-! ## The commands -/

/-- An assignment over a joinable thread ends the program. -/
def start (s : Main) : Main :=
  if s.communicator.isSome then s.ended
  else { s with protocol := some .initial, communicator := some .test }

def login (s : Main) (hostPort username : Bytes) (connects : Bool) : Main :=
  if s.loggedIn then s
  else
    match port hostPort with
    | none => s
    | some port =>
      if (stoi port).isNone then s.ended
      else if connects then { s with username := username }.start
      else { s with username := username, protocol := none }

/-- `join` throws if the thread is not joinable. -/
def join (s : Main) : Main :=
  if s.communicator.isSome then { s with phase := .joining } else s.ended

def command (s : Main) (command : Command) : Main :=
  match s.protocol with
  | none => s
  | some p =>
    let s' := { s with protocol := some (command.run p s.username).1 }
    if command.waits p then s'.join else s'

/-! ## The thread -/

/-- A step of the thread on the object that `protocol` points to. -/
def withProtocol (s : Main) (f : StompProtocol → Main) : Main :=
  match s.protocol with
  | none => s.ended
  | some p => f p

def test (s : Main) : Main :=
  s.withProtocol fun p =>
    { s with communicator := some (if p.stopCommunication then .leave else .read) }

/-- An exception that leaves `parseFrame` ends the program. -/
def frame (s : Main) (message : Bytes) : Main :=
  s.withProtocol fun p =>
    match p.parseFrame message with
    | none => s.ended
    | some p' => { s with protocol := some p', communicator := some .test }

def lose (s : Main) : Main :=
  s.withProtocol fun p =>
    { s with protocol := some { p with stopCommunication := true }, communicator := some .leave }

def cleanUp (s : Main) : Main :=
  s.withProtocol fun p =>
    let s' := { s with protocol := none, communicator := some .returned }
    if p.errorOccured then s'.ended else s'

/-- `main` takes a line from its user. -/
def atPrompt (s s' : Main) : Option Main := if s.phase = .prompt then some s' else none

/-- The thread stands at `t`. -/
def inThread (s : Main) (t : ThreadPhase) (s' : Main) : Option Main :=
  if s.phase ≠ .ended ∧ s.communicator = some t then some s' else none

def next (s : Main) : MainEvent → Option Main
  | .login hostPort username _ connects => s.atPrompt (s.login hostPort username connects)
  | .command command => s.atPrompt (s.command command)
  | .print => s.atPrompt s
  | .die => s.atPrompt s.ended
  | .joined =>
    if s.phase = .joining ∧ s.communicator = some .returned then
      some { s with communicator := none, phase := .prompt }
    else none
  | .test => s.inThread .test s.test
  | .frame message => s.inThread .read (s.frame message)
  | .lose => s.inThread .read s.lose
  | .cleanUp => s.inThread .leave s.cleanUp

def runs : System Main MainEvent := ⟨.initial, next⟩

/-! ## What a login and a logout rely on -/

/-- A login that comes to the assignment of its new thread. -/
def Starts (e : Main × MainEvent) : Prop :=
  ∃ hostPort username password port, e.2 = .login hostPort username password true ∧
    e.1.loggedIn = false ∧ Main.port hostPort = some port ∧ (stoi port).isSome = true

/-- A logout that comes to its `join`. -/
def LogsOut (e : Main × MainEvent) : Prop := e.2 = .command .logout ∧ e.1.loggedIn = true

/-- The thread handled the server's answer to a login, or it is gone. -/
def Answers (e : Main × MainEvent) : Prop :=
  e.2 = .cleanUp ∨ ∃ message, e.2 = .frame message ∧
    ((StompProtocol.parse message).command = ascii "CONNECTED" ∨
      (StompProtocol.parse message).command = ascii "ERROR")

def LoginLine (e : MainEvent) : Prop :=
  ∃ hostPort username password connects, e = .login hostPort username password connects

/-- A login line with a colon in its host and port. -/
def HasPort (e : MainEvent) : Prop :=
  ∃ hostPort username password connects port, e = .login hostPort username password connects ∧
    Main.port hostPort = some port

/-- After the steps `pre`, a login assigns over no joinable thread, a logout joins one, and a login
that comes before the server's answer to another changes nothing. -/
structure Sound (pre : List (Main × MainEvent)) (e : Main × MainEvent) : Prop where
  starts : Starts e → e.1.communicator = none
  logsOut : LogsOut e → e.1.communicator.isSome = true
  refused : LoginLine e.2 → Since Starts Answers pre → e.1.next e.2 = some e.1

/-! ## What a step does -/

/-- The steps, by what they do to the thread. -/
inductive Step (s : Main) (e : MainEvent) (s' : Main) : Prop
  | dies (hphase : s'.phase = .ended)
  | starts (h : Starts (s, e)) (hthread : s'.communicator = some .test) (hphase : s'.phase = .prompt)
    (hprotocol : s'.protocol = some .initial)
  | logsOut (h : LogsOut (s, e)) (hprompt : s.phase = .prompt)
    (hthread : s'.communicator = s.communicator) (hjoin : s.communicator.isSome = true)
    (hphase : s'.phase = .joining) (hprotocol : s'.protocol.isSome = true)
  | joined (hphase : s.phase = .joining) (hthread : s.communicator = some .returned)
    (he : e = .joined) (hs : s' = { s with communicator := none, phase := .prompt })
  | stays (hphase : s'.phase = s.phase) (hthread : s'.communicator = s.communicator)
    (hprotocol : s'.protocol.isSome = true → s.protocol.isSome = true)
    (hkeeps : s.protocol.isSome = true → s'.protocol.isSome = true ∨ LoginLine e)
    (hin : s'.loggedIn = true → s.loggedIn = true)
    (hstarts : ¬ Starts (s, e)) (hlogsOut : ¬ LogsOut (s, e))
  | goesOn (t : ThreadPhase) (hphase : s'.phase = s.phase) (hold : s.communicator.isSome = true)
    (hthread : s'.communicator = some t) (hprotocol : s'.protocol.isSome = true → t ≠ .returned)
    (hkeeps : s'.protocol.isSome = true ∨ Answers (s, e))
    (hin : s'.loggedIn = true → s.loggedIn = true ∨ Answers (s, e))
    (hstarts : ¬ Starts (s, e)) (hlogsOut : ¬ LogsOut (s, e))

theorem not_starts {s : Main} {e : MainEvent}
    (h : ∀ hostPort username password connects, e ≠ .login hostPort username password connects) :
    ¬ Starts (s, e) := by
  rintro ⟨hostPort, username, password, port, he, -⟩
  exact h _ _ _ _ he

theorem login_step {s : Main} {hostPort username password : Bytes} {connects : Bool}
    (hs : s.phase = .prompt) :
    Step s (.login hostPort username password connects) (s.login hostPort username connects) := by
  have hlogsOut : ¬ LogsOut (s, .login hostPort username password connects) := by
    rintro ⟨he, -⟩
    cases he
  unfold login
  split
  · next hin =>
    refine .stays rfl rfl id .inl id ?_ hlogsOut
    rintro ⟨_, _, _, _, -, hout, -⟩
    rw [hin] at hout
    cases hout
  next hout =>
  split
  · next hport =>
    refine .stays rfl rfl id .inl id ?_ hlogsOut
    rintro ⟨_, _, _, _, he, -, hport', -⟩
    cases he
    cases hport.symm.trans hport'
  next text hport =>
  split
  · exact .dies rfl
  next hnumber =>
  split
  · next hconnects =>
    unfold start
    split
    · exact .dies rfl
    · refine .starts ⟨hostPort, username, password, text, by rw [hconnects], ?_, hport, ?_⟩ rfl hs rfl
      · exact Bool.not_eq_true _ ▸ hout
      · exact Option.isSome_iff_ne_none.mpr fun hnone => hnumber (by rw [hnone]; rfl)
  · next hfails =>
    refine .stays rfl rfl (fun hf => by cases hf) (fun _ => .inr ⟨_, _, _, _, rfl⟩)
      (fun hf => by cases hf) ?_ hlogsOut
    rintro ⟨_, _, _, _, he, -⟩
    cases he
    exact hfails rfl

theorem command_step {s : Main} (command : Command) (hs : s.phase = .prompt) :
    Step s (.command command) (s.command command) := by
  have hstarts : ¬ Starts (s, .command command) := not_starts fun _ _ _ _ he => by cases he
  unfold Main.command
  split
  · next hnone =>
    refine .stays rfl rfl id .inl id hstarts ?_
    rintro ⟨-, hin⟩
    rw [loggedIn, hnone] at hin
    cases hin
  next p hp =>
  have hin : s.loggedIn = p.connected := by rw [loggedIn, hp, Option.any_some]
  dsimp only
  split
  · next hwaits =>
    have hlogsOut : LogsOut (s, .command command) := by
      cases command with
      | logout => exact ⟨rfl, hin.trans hwaits⟩
      | join | exit | report => cases hwaits
    unfold join
    split
    · next hjoin => exact .logsOut hlogsOut hs rfl hjoin rfl rfl
    · exact .dies rfl
  · next hwaits =>
    refine .stays rfl rfl (fun _ => by rw [hp]; rfl) (fun _ => .inl rfl) (fun hconnected => ?_) hstarts ?_
    · rw [loggedIn, Option.any_some, Command.run_connected] at hconnected
      exact hin.trans hconnected
    rintro ⟨he, hconnected⟩
    cases he
    exact hwaits (hin.symm.trans hconnected)

/-- What the thread does is neither a login nor a logout. -/
def OfThread : MainEvent → Prop
  | .test | .frame _ | .lose | .cleanUp => True
  | _ => False

theorem thread_step {s s' : Main} {e : MainEvent} (he : OfThread e) (t : ThreadPhase)
    (hphase : s'.phase = s.phase) (hold : s.communicator.isSome = true)
    (hthread : s'.communicator = some t) (hprotocol : s'.protocol.isSome = true → t ≠ .returned)
    (hkeeps : s'.protocol.isSome = true ∨ Answers (s, e))
    (hin : s'.loggedIn = true → s.loggedIn = true ∨ Answers (s, e)) : Step s e s' := by
  refine .goesOn t hphase hold hthread hprotocol hkeeps hin (not_starts fun _ _ _ _ h => ?_) ?_
  · rw [h] at he
    exact he
  · rintro ⟨h, -⟩
    rw [show e = .command .logout from h] at he
    exact he

theorem connected_of_parseFrame {s : Main} {p p' : StompProtocol} {message : Bytes}
    (h : p.parseFrame message = some p') (hconnected : p'.connected = true) :
    p.connected = true ∨ Answers (s, .frame message) := by
  cases StompProtocol.parseFrame_handles h with
  | connected hc => exact .inr (.inr ⟨message, rfl, .inl hc⟩)
  | message _ _ _ | error _ | unknown _ _ | other _ => exact .inl hconnected
  | receipt _ _ _ =>
    dsimp only at hconnected
    split at hconnected <;> exact .inl hconnected

theorem test_step {s : Main} (hold : s.communicator.isSome = true) : Step s .test s.test := by
  unfold test withProtocol
  split
  · exact .dies rfl
  · next p hp =>
    refine thread_step trivial _ rfl hold rfl (fun _ => ?_) (.inl (by rw [hp]; rfl)) .inl
    split <;> decide

theorem frame_step {s : Main} (message : Bytes) (hold : s.communicator.isSome = true) :
    Step s (.frame message) (s.frame message) := by
  unfold frame withProtocol
  split
  · exact .dies rfl
  next p hp =>
  dsimp only
  split
  · exact .dies rfl
  next p' hparse =>
  refine thread_step trivial .test rfl hold rfl (fun _ => by decide) (.inl rfl) fun hconnected => ?_
  rw [loggedIn, hp]
  exact connected_of_parseFrame hparse hconnected

theorem lose_step {s : Main} (hold : s.communicator.isSome = true) : Step s .lose s.lose := by
  unfold lose withProtocol
  split
  · exact .dies rfl
  · next p hp =>
    refine thread_step trivial .leave rfl hold rfl (fun _ => by decide) (.inl rfl) fun hconnected => ?_
    rw [loggedIn, hp]
    exact .inl hconnected

theorem cleanUp_step {s : Main} (hold : s.communicator.isSome = true) :
    Step s .cleanUp s.cleanUp := by
  unfold cleanUp withProtocol
  split
  · exact .dies rfl
  dsimp only
  split
  · exact .dies rfl
  · exact thread_step trivial .returned rfl hold rfl (fun hf => by cases hf) (.inr (.inl rfl))
      fun hf => by cases hf

theorem atPrompt_eq_some {s s' r : Main} (h : s.atPrompt r = some s') : s.phase = .prompt ∧ r = s' := by
  unfold atPrompt at h
  split at h
  · next hp => exact ⟨hp, Option.some.inj h⟩
  · cases h

theorem inThread_eq_some {s s' r : Main} {t : ThreadPhase} (h : s.inThread t r = some s') :
    s.communicator.isSome = true ∧ r = s' := by
  unfold inThread at h
  split at h
  · next ht => exact ⟨by rw [ht.2]; rfl, Option.some.inj h⟩
  · cases h

theorem next_step {s s' : Main} {e : MainEvent} (h : s.next e = some s') : Step s e s' := by
  cases e with
  | login hostPort username password connects =>
    obtain ⟨hp, rfl⟩ := atPrompt_eq_some h
    exact login_step hp
  | command command =>
    obtain ⟨hp, rfl⟩ := atPrompt_eq_some h
    exact command_step command hp
  | print =>
    obtain ⟨-, rfl⟩ := atPrompt_eq_some h
    refine .stays rfl rfl id .inl id (not_starts fun _ _ _ _ he => by cases he) ?_
    rintro ⟨he, -⟩
    cases he
  | die =>
    obtain ⟨-, rfl⟩ := atPrompt_eq_some h
    exact .dies rfl
  | joined =>
    simp only [next] at h
    split at h
    · next hj =>
      cases h
      exact .joined hj.1 hj.2 rfl rfl
    · cases h
  | test =>
    obtain ⟨hold, rfl⟩ := inThread_eq_some h
    exact test_step hold
  | frame message =>
    obtain ⟨hold, rfl⟩ := inThread_eq_some h
    exact frame_step message hold
  | lose =>
    obtain ⟨hold, rfl⟩ := inThread_eq_some h
    exact lose_step hold
  | cleanUp =>
    obtain ⟨hold, rfl⟩ := inThread_eq_some h
    exact cleanUp_step hold

/-! ## Every run -/

/-- A protocol object has its thread. The thread is joinable exactly while it was started and no
logout came after that, except that a logout waits for it. -/
structure Threaded (trace : List (Main × MainEvent)) (s : Main) : Prop where
  protocol : s.phase ≠ .ended → s.protocol.isSome = true →
    ∃ t, s.communicator = some t ∧ t ≠ .returned
  prompt : s.phase = .prompt → (s.communicator.isSome = true ↔ Since Starts LogsOut trace)
  joining : s.phase = .joining → s.communicator.isSome = true ∧ ¬ Since Starts LogsOut trace

theorem since_stays {trace : List (Main × MainEvent)} {e : Main × MainEvent} (hs : ¬ Starts e)
    (hl : ¬ LogsOut e) : Since Starts LogsOut (trace ++ [e]) ↔ Since Starts LogsOut trace := by
  rw [since_snoc]
  simp [hs, hl]

theorem Threaded.step {trace : List (Main × MainEvent)} {s s' : Main} {e : MainEvent}
    (h : Threaded trace s) (hs : Step s e s') : Threaded (trace ++ [(s, e)]) s' := by
  cases hs with
  | dies hphase =>
    refine ⟨fun hne => absurd hphase hne, fun hp => ?_, fun hp => ?_⟩ <;>
    · rw [hphase] at hp
      cases hp
  | starts hst hthread hphase _ =>
    refine ⟨fun _ _ => ⟨.test, hthread, by decide⟩, fun _ => ?_, fun hp => ?_⟩
    · refine iff_of_true (by rw [hthread]; rfl) ((since_snoc _ _ _ _).mpr (.inl hst))
    · rw [hphase] at hp
      cases hp
  | logsOut hl hprompt hthread hjoin hphase _ =>
    have hsome : s.protocol.isSome = true := by
      obtain ⟨p, hp, -⟩ := (Option.any_eq_true _ _).mp hl.2
      rw [hp]
      rfl
    refine ⟨fun _ _ => ?_, fun hp => ?_, fun _ => ⟨hthread ▸ hjoin, fun hsince => ?_⟩⟩
    · rw [hthread]
      exact h.protocol (by rw [hprompt]; decide) hsome
    · rw [hphase] at hp
      cases hp
    · obtain hst | ⟨-, hno⟩ := (since_snoc _ _ _ _).mp hsince
      · exact not_starts (fun _ _ _ _ he => by cases hl.1.symm.trans he) hst
      · exact hno hl
  | joined hphase hthread he hs =>
    subst hs
    have hstays : Since Starts LogsOut (trace ++ [(s, e)]) ↔ Since Starts LogsOut trace := by
      refine since_stays (not_starts fun _ _ _ _ hl => by cases he.symm.trans hl) ?_
      rintro ⟨hl, -⟩
      cases he.symm.trans hl
    refine ⟨fun _ hp => ?_, fun _ => ?_, fun hp => by cases hp⟩
    · obtain ⟨t, ht, hne⟩ := h.protocol (by rw [hphase]; decide) hp
      cases hthread.symm.trans ht
      exact absurd rfl hne
    · rw [hstays]
      exact iff_of_false (fun hf => by cases hf) (h.joining hphase).2
  | stays hphase hthread hprotocol _ _ hstarts hlogsOut =>
    refine ⟨fun hne hp => ?_, fun hp => ?_, fun hp => ?_⟩
    · rw [hthread]
      exact h.protocol (hphase ▸ hne) (hprotocol hp)
    · rw [hthread, since_stays hstarts hlogsOut]
      exact h.prompt (hphase ▸ hp)
    · rw [hthread, since_stays hstarts hlogsOut]
      exact h.joining (hphase ▸ hp)
  | goesOn t hphase hold hthread hprotocol _ _ hstarts hlogsOut =>
    have hnew : s'.communicator.isSome = s.communicator.isSome := by
      rw [hthread, hold]
      rfl
    refine ⟨fun _ hp => ⟨t, hthread, hprotocol hp⟩, fun hp => ?_, fun hp => ?_⟩
    · rw [hnew, since_stays hstarts hlogsOut]
      exact h.prompt (hphase ▸ hp)
    · rw [hnew, since_stays hstarts hlogsOut]
      exact h.joining (hphase ▸ hp)

theorem threaded_run {trace : List (Main × MainEvent)} {s : Main} (h : runs.Run trace s) :
    Threaded trace s := by
  induction h with
  | nil =>
    exact ⟨fun _ hp => (by cases hp), fun _ => iff_of_false (fun hf => by cases hf) id,
      fun hp => (by cases hp)⟩
  | snoc _ hs ih => exact ih.step (next_step hs)

theorem Starts.prompt {s s' : Main} {e : MainEvent} (h : Starts (s, e)) (hs : s.next e = some s') :
    s.phase = .prompt := by
  obtain ⟨_, _, _, _, he, -⟩ := h
  rw [show e = _ from he] at hs
  exact (atPrompt_eq_some hs).1

theorem LogsOut.prompt {s s' : Main} {e : MainEvent} (h : LogsOut (s, e)) (hs : s.next e = some s') :
    s.phase = .prompt := by
  rw [show e = _ from h.1] at hs
  exact (atPrompt_eq_some hs).1

theorem Threaded.logsOut {trace : List (Main × MainEvent)} {s : Main} {e : MainEvent}
    (h : Threaded trace s) (hp : s.phase = .prompt) (hl : LogsOut (s, e)) :
    s.communicator.isSome = true := by
  obtain ⟨p, hprotocol, -⟩ := (Option.any_eq_true _ _).mp hl.2
  obtain ⟨t, ht, -⟩ := h.protocol (by rw [hp]; decide) (by rw [hprotocol]; rfl)
  rw [ht]
  rfl

theorem loggedIn_run {trace : List (Main × MainEvent)} {s : Main} (h : runs.Run trace s)
    (hphase : s.phase ≠ .ended) (hin : s.loggedIn = true) : ¬ Since Starts Answers trace := by
  induction h with
  | nil => exact id
  | @snoc trace s e s' _ hs ih =>
    rw [since_snoc]
    rintro (hst | ⟨hsince, hno⟩)
    · cases next_step hs with
      | dies hended => exact hphase hended
      | starts _ _ _ hprotocol =>
        rw [loggedIn, hprotocol] at hin
        cases hin
      | logsOut hl _ _ _ _ _ => exact not_starts (fun _ _ _ _ he => by cases hl.1.symm.trans he) hst
      | joined _ _ he _ => exact not_starts (fun _ _ _ _ hl => by cases he.symm.trans hl) hst
      | stays _ _ _ _ _ hno _ | goesOn _ _ _ _ _ _ _ hno _ => exact hno hst
    · cases next_step hs with
      | dies hended => exact hphase hended
      | starts _ _ _ hprotocol =>
        rw [loggedIn, hprotocol] at hin
        cases hin
      | logsOut hl hprompt _ _ _ _ => exact ih (by rw [hprompt]; decide) hl.2 hsince
      | joined hjoining _ _ hs =>
        subst hs
        exact ih (by rw [hjoining]; decide) hin hsince
      | stays hsame _ _ _ hback _ _ => exact ih (hsame ▸ hphase) (hback hin) hsince
      | goesOn _ hsame _ _ _ _ hback _ _ =>
        exact (hback hin).elim (fun hin => ih (hsame ▸ hphase) hin hsince) hno

theorem protocol_run {trace : List (Main × MainEvent)} {s : Main} (h : runs.Run trace s)
    (hsound : ∀ pre e post, trace = pre ++ e :: post → Sound pre e) (hphase : s.phase ≠ .ended)
    (hsince : Since Starts Answers trace) : s.protocol.isSome = true := by
  -- In a sound run no login takes the protocol object away before the answer.
  induction h with
  | nil => cases hsince
  | @snoc trace s e s' _ hs ih =>
    have ih := ih fun pre e' post heq =>
      hsound pre e' (post ++ [(s, e)]) (by rw [heq, List.append_assoc]; rfl)
    rw [since_snoc] at hsince
    cases next_step hs with
    | dies hended => exact absurd hended hphase
    | starts _ _ _ hprotocol =>
      rw [hprotocol]
      rfl
    | logsOut _ _ _ _ _ hprotocol => exact hprotocol
    | joined hjoining _ he hs =>
      subst hs
      obtain hst | ⟨hsince, -⟩ := hsince
      · exact absurd hst (not_starts fun _ _ _ _ hl => by cases he.symm.trans hl)
      · exact ih (by rw [hjoining]; decide) hsince
    | stays hsame _ _ hkeeps _ hno _ =>
      obtain hst | ⟨hsince, -⟩ := hsince
      · exact absurd hst hno
      have hold := ih (hsame ▸ hphase) hsince
      obtain hnew | hline := hkeeps hold
      · exact hnew
      · -- the login was refused
        have hrefused := (hsound trace (s, e) [] rfl).refused hline hsince
        cases hs.symm.trans hrefused
        exact hold
    | goesOn _ _ _ _ _ hkeeps _ hno _ =>
      obtain hst | ⟨-, hanswers⟩ := hsince
      · exact absurd hst hno
      · exact hkeeps.resolve_right hanswers

theorem login_changes {s : Main} {hostPort username password port : Bytes} {connects : Bool}
    (hport : Main.port hostPort = some port) (hout : s.loggedIn = false)
    (hprotocol : s.protocol.isSome = true) :
    s.next (.login hostPort username password connects) ≠ some s := by
  intro h
  obtain ⟨hprompt, h⟩ := atPrompt_eq_some h
  have hended : s.ended ≠ s := by
    intro heq
    have hphase := congrArg phase heq
    rw [hprompt] at hphase
    cases hphase
  rw [login, hout, if_neg Bool.false_ne_true, hport] at h
  dsimp only at h
  split at h
  · exact hended h
  split at h
  · unfold start at h
    split at h
    · have hphase := congrArg phase h
      rw [hprompt] at hphase
      cases hphase
    · next hnone =>
      rw [← h] at hnone
      exact hnone rfl
  · rw [← h] at hprotocol
    cases hprotocol

/-- A run is sound exactly when a logout stands between any two logins that start a thread, and no
login with a port comes before the answer to another. -/
theorem sound_iff {trace : List (Main × MainEvent)} {s : Main} (h : runs.Run trace s) :
    (∀ pre e post, trace = pre ++ e :: post → Sound pre e) ↔
      ∀ pre e post, trace = pre ++ e :: post → (Starts e → ¬ Since Starts LogsOut pre) ∧
        (HasPort e.2 → ¬ Since Starts Answers pre) := by
  constructor
  · rintro hsound pre ⟨t, e⟩ post heq
    obtain ⟨hpre, s', hs, -⟩ := h.split heq
    have hat := hsound pre (t, e) post heq
    refine ⟨fun hst hsince => ?_, ?_⟩
    · have hnone := hat.starts hst
      have hsome := ((threaded_run hpre).prompt (hst.prompt hs)).mpr hsince
      rw [hnone] at hsome
      cases hsome
    · rintro ⟨hostPort, username, password, connects, port, rfl, hport⟩ hsince
      have hrunning : t.phase ≠ .ended := by
        rw [(atPrompt_eq_some hs).1]
        decide
      have hout : t.loggedIn = false :=
        Bool.eq_false_iff.mpr fun hin => loggedIn_run hpre hrunning hin hsince
      have hprotocol := protocol_run hpre (fun pre' e' post' heq' =>
        hsound pre' e' (post' ++ (t, _) :: post) (by rw [heq, heq', List.append_assoc]; rfl))
        hrunning hsince
      exact login_changes hport hout hprotocol (hat.refused ⟨_, _, _, _, rfl⟩ hsince)
  · rintro hC pre ⟨t, e⟩ post heq
    obtain ⟨hpre, s', hs, -⟩ := h.split heq
    obtain ⟨hstarts, hport⟩ := hC pre (t, e) post heq
    have hthreaded := threaded_run hpre
    refine ⟨fun hst => ?_, fun hl => hthreaded.logsOut (hl.prompt hs) hl, ?_⟩
    · rw [← Option.not_isSome_iff_eq_none, hthreaded.prompt (hst.prompt hs)]
      exact hstarts hst
    · rintro ⟨hostPort, username, password, connects, rfl⟩ hsince
      have hlogin : t.login hostPort username connects = t := by
        unfold login
        split
        · rfl
        split
        · rfl
        · next port hp => exact absurd hsince (hport ⟨_, _, _, _, port, rfl, hp⟩)
      show t.atPrompt (t.login hostPort username connects) = some t
      rw [hlogin, atPrompt, if_pos (atPrompt_eq_some hs).1]

/-! ## Runs -/

/-- What `Starts` says, as a computation. -/
def starts (e : Main × MainEvent) : Bool :=
  match e.2 with
  | .login hostPort _ _ connects =>
    connects && !e.1.loggedIn && (port hostPort).any fun text => (stoi text).isSome
  | _ => false

theorem starts_iff (e : Main × MainEvent) : starts e = true ↔ Starts e := by
  obtain ⟨s, e⟩ := e
  cases e with
  | login hostPort username password connects =>
    simp only [starts, Bool.and_eq_true, Bool.not_eq_true', Option.any_eq_true]
    constructor
    · rintro ⟨⟨rfl, hout⟩, text, hport, hnumber⟩
      exact ⟨hostPort, username, password, text, rfl, hout, hport, hnumber⟩
    · rintro ⟨_, _, _, text, he, hout, hport, hnumber⟩
      cases he
      exact ⟨⟨rfl, hout⟩, text, hport, hnumber⟩
  | command | print | die | joined | test | frame | lose | cleanUp =>
    refine iff_of_false (fun hf => by cases hf) (not_starts fun _ _ _ _ he => by cases he)

instance : DecidablePred Starts := fun e => decidable_of_iff _ (starts_iff e)

def isLogout : MainEvent → Bool
  | .command .logout => true
  | _ => false

theorem isLogout_iff (e : MainEvent) : isLogout e = true ↔ e = .command .logout := by
  constructor
  · intro h
    unfold isLogout at h
    split at h
    · rfl
    · cases h
  · rintro rfl
    rfl

instance : DecidablePred LogsOut := fun e =>
  decidable_of_iff (isLogout e.2 = true ∧ e.1.loggedIn = true) (and_congr_left' (isLogout_iff e.2))

/-- What `Answers` says, as a computation. -/
def answers (e : Main × MainEvent) : Bool :=
  match e.2 with
  | .cleanUp => true
  | .frame message => (StompProtocol.parse message).command = ascii "CONNECTED" ∨
      (StompProtocol.parse message).command = ascii "ERROR"
  | _ => false

theorem answers_iff (e : Main × MainEvent) : answers e = true ↔ Answers e := by
  obtain ⟨s, e⟩ := e
  cases e with
  | cleanUp => exact iff_of_true rfl (.inl rfl)
  | frame message =>
    simp only [answers, decide_eq_true_eq]
    constructor
    · exact fun h => .inr ⟨message, rfl, h⟩
    · rintro (he | ⟨_, he, h⟩)
      · cases he
      · cases he
        exact h
  | login | command | print | die | joined | test | lose =>
    refine iff_of_false (fun hf => by cases hf) ?_
    rintro (he | ⟨_, he, -⟩) <;> cases he

instance : DecidablePred Answers := fun e => decidable_of_iff _ (answers_iff e)

def hasPort : MainEvent → Bool
  | .login hostPort _ _ _ => (port hostPort).isSome
  | _ => false

theorem hasPort_iff (e : MainEvent) : hasPort e = true ↔ HasPort e := by
  cases e with
  | login hostPort username password connects =>
    rw [hasPort, Option.isSome_iff_exists]
    constructor
    · rintro ⟨text, hport⟩
      exact ⟨hostPort, username, password, connects, text, rfl, hport⟩
    · rintro ⟨_, _, _, _, text, he, hport⟩
      cases he
      exact ⟨text, hport⟩
  | command | print | die | joined | test | frame | lose | cleanUp =>
    refine iff_of_false (fun hf => by cases hf) ?_
    rintro ⟨_, _, _, _, _, he, -⟩
    cases he

instance : DecidablePred HasPort := fun e => decidable_of_iff _ (hasPort_iff e)

def loginLine (connects : Bool) : MainEvent := .login (ascii "h:1") (ascii "u") (ascii "p") connects

/-- A login, its CONNECTED, and the end of the session by a logout. -/
def logoutRun : List MainEvent :=
  [loginLine true, .test, .frame (ascii "CONNECTED\nversion:1.2\n\n"), loginLine true, .test,
    .command .logout, .frame (ascii "RECEIPT\nreceipt-id:0\n\n"), .test, .cleanUp, .joined,
    loginLine true]

/-- The connection is lost instead. -/
def lostRun : List MainEvent :=
  [loginLine true, .test, .frame (ascii "CONNECTED\nversion:1.2\n\n"), .test, .lose, .cleanUp,
    loginLine true]

/-- The second login comes before the answer to the first. -/
def pendingRun : List MainEvent := [loginLine true, .test, loginLine true]

/-- The second login does not connect, and takes the protocol object away from the thread. -/
def failingRun : List MainEvent :=
  [loginLine true, .test, loginLine false, .frame (ascii "CONNECTED\nversion:1.2\n\n")]

theorem sound_logoutRun : ∃ trace s, runs.Run trace s ∧ trace.map (·.2) = logoutRun ∧
    s.phase = .prompt ∧ ∀ pre e post, trace = pre ++ e :: post → Sound pre e := by
  obtain ⟨trace, s, hr, hl, hs⟩ := System.exists_run_labels (M := runs) logoutRun
    (fun trace s => decide (s.phase = .prompt ∧ ∀ i (hi : i < trace.length),
      (Starts (trace.get ⟨i, hi⟩) → ¬ Since Starts LogsOut (trace.take i)) ∧
      (HasPort (trace.get ⟨i, hi⟩).2 → ¬ Since Starts Answers (trace.take i)))) (by decide +kernel)
  obtain ⟨hphase, hC⟩ := of_decide_eq_true hs
  exact ⟨trace, s, hr, hl, hphase, (sound_iff hr).mpr (forall_split hC)⟩

/-- A login assigns over a joinable thread, or takes the protocol object before the answer. -/
def breaks (pre : List (Main × MainEvent)) (e : Main × MainEvent) : Bool :=
  (starts e && e.1.communicator.isSome) ||
    (hasPort e.2 && decide (Since Starts Answers pre) && e.1.protocol.isSome &&
      (e.1.next e.2).any fun s => s.protocol.isNone)

theorem not_sound_of_breaks {pre : List (Main × MainEvent)} {e : Main × MainEvent}
    (h : breaks pre e = true) : ¬ Sound pre e := by
  intro hsound
  rw [breaks, Bool.or_eq_true] at h
  rcases h with h | h
  · rw [Bool.and_eq_true, starts_iff] at h
    rw [hsound.starts h.1] at h
    cases h.2
  · simp only [Bool.and_eq_true, decide_eq_true_eq, hasPort_iff] at h
    obtain ⟨⟨⟨⟨_, _, _, _, _, he, -⟩, hsince⟩, hsome⟩, hnone⟩ := h
    rw [hsound.refused ⟨_, _, _, _, he⟩ hsince, Option.any_some] at hnone
    rw [Option.isNone_iff_eq_none.mp hnone] at hsome
    cases hsome

/-- Some login breaks the session, and the program ends. -/
def diesOfLogin (steps : List (Main × MainEvent)) (s : Main) : Bool :=
  (List.range steps.length).any (fun i => steps[i]?.any (breaks (steps.take i))) &&
    decide (s.phase = .ended)

/-- A run with these events that is not sound, and ends the program. -/
def EndsOfLogin (ls : List MainEvent) : Prop :=
  ∃ trace s, runs.Run trace s ∧ trace.map (·.2) = ls ∧
    (∃ pre e post, trace = pre ++ e :: post ∧ ¬ Sound pre e) ∧ s.phase = .ended

theorem endsOfLogin_of_exec {ls : List MainEvent}
    (hexec : (runs.exec ls).any (fun r => diesOfLogin r.1 r.2) = true) : EndsOfLogin ls := by
  obtain ⟨trace, s, hr, hl, hs⟩ := System.exists_run_labels (M := runs) ls diesOfLogin hexec
  rw [diesOfLogin, Bool.and_eq_true, decide_eq_true_eq] at hs
  obtain ⟨i, -, hi⟩ := List.any_eq_true.mp hs.1
  obtain ⟨e, he, hbreaks⟩ := (Option.any_eq_true _ _).mp hi
  obtain ⟨hlt, rfl⟩ := List.getElem?_eq_some_iff.mp he
  refine ⟨trace, s, hr, hl, ⟨trace.take i, _, trace.drop (i + 1), ?_, not_sound_of_breaks hbreaks⟩,
    hs.2⟩
  rw [← List.drop_eq_getElem_cons hlt, List.take_append_drop]

/-- A login after a lost connection, and one before the server's answer, end the program. -/
theorem login_ends : EndsOfLogin lostRun ∧ EndsOfLogin pendingRun ∧ EndsOfLogin failingRun := by
  refine ⟨?_, ?_, ?_⟩ <;> exact endsOfLogin_of_exec (by decide +kernel)

end Main

end Stomp.Client
