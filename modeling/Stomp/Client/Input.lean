import Stomp.Client.Main

/-!
# The lines of the user

The body of the loop of `main`: it reads a line, cuts it into tokens and does what the first token
says. Each access to a token and each call that throws is there, so that a line can end the program.
-/

open Stomp.Split Stomp.Utf8

namespace Stomp.Client

open Stomp.Framing

def space : UInt8 := 32

/-- What ends the program. -/
inductive Fault where
  /-- `tokens[i]` with no token there. -/
  | noToken
  /-- `std::stoi` throws. -/
  | notANumber
  /-- A thread is assigned over a joinable one. -/
  | joinable
  /-- `join` of no thread throws. -/
  | notJoinable
  deriving DecidableEq

/-- The socket and the files, with what `connect` returns and `parseEventsFile` reads. -/
structure World where
  connect : Bytes → Int → Bool
  parseEventsFile : Bytes → Bytes × List Event

/-- A line ends the program, or leaves the variables of `main` and the frames that it sent. -/
abbrev LineResult := Except Fault (Main × List ClientFrame)

namespace Input

open Main (port)

/-- `tokens[i]` -/
def token (tokens : List Bytes) (i : Nat) : Except Fault Bytes :=
  match tokens[i]? with
  | some token => .ok token
  | none => .error .noToken

/-- `short serverPort = std::stoi(text)` -/
def toShort (text : Bytes) : Except Fault Int :=
  match stoi text with
  | some n => .ok (n.bmod (2 ^ 16))
  | none => .error .notANumber

/-- `communicator = std::thread(..)` -/
def start (s : Main) : Except Fault Main :=
  if s.communicator.isSome then .error .joinable else .ok { s with communicator := some .test }

/-- `communicator.join()` -/
def wait (s : Main) : Except Fault Main :=
  if s.communicator.isSome then .ok { s with phase := .joining } else .error .notJoinable

/-- The command on the object that `protocol` points to. -/
def run (s : Main) (command : Command) : Main × List ClientFrame :=
  match s.protocol with
  | none => (s, [])
  | some p =>
    ({ s with protocol := some (command.run p s.username).1 }, (command.run p s.username).2)

/-! ## The branches of the loop -/

def login (w : World) (tokens : List Bytes) (s : Main) : LineResult :=
  if tokens.length ≠ 4 then .ok (s, [])
  else if s.loggedIn then .ok (s, [])
  else do
    let hostPort ← token tokens 1
    match port hostPort with
    | none => .ok (s, [])
    | some portText =>
      let serverPort ← toShort portText
      let username ← token tokens 2
      let password ← token tokens 3
      let s := { s with username := username, protocol := some .initial }
      if w.connect (splitOnce [colon] hostPort).1 serverPort then do
        let s ← start s
        .ok (s, [connectFrame username password])
      else .ok ({ s with protocol := none }, [])

/-- A branch that needs one argument and a login. -/
def oneArgument (command : Bytes → Command) (tokens : List Bytes) (s : Main) : LineResult :=
  if tokens.length ≠ 2 then .ok (s, [])
  else if !s.loggedIn then .ok (s, [])
  else do
    let argument ← token tokens 1
    .ok (run s (command argument))

def join : List Bytes → Main → LineResult := oneArgument .join

def exit : List Bytes → Main → LineResult := oneArgument .exit

def report (w : World) : List Bytes → Main → LineResult :=
  oneArgument fun file => .report (w.parseEventsFile file).1 (w.parseEventsFile file).2

/-- It only writes a file. -/
def summary (tokens : List Bytes) (s : Main) : LineResult :=
  if tokens.length ≠ 4 then .ok (s, [])
  else if !s.loggedIn then .ok (s, [])
  else do
    let _file ← token tokens 3
    let _channel ← token tokens 1
    let _user ← token tokens 2
    .ok (s, [])

/-- The tokens after the first are not looked at. -/
def logout (s : Main) : LineResult :=
  if !s.loggedIn then .ok (s, [])
  else do
    let s' ← wait (run s .logout).1
    .ok (s', (run s .logout).2)

/-- The loop body from the tokens on. The first token is read before the test for none. -/
def dispatch (w : World) (tokens : List Bytes) (s : Main) : LineResult := do
  let command ← token tokens 0
  if tokens.isEmpty then .ok (s, [])
  else if command = ascii "login" then login w tokens s
  else if command = ascii "join" then join tokens s
  else if command = ascii "exit" then exit tokens s
  else if command = ascii "report" then report w tokens s
  else if command = ascii "summary" then summary tokens s
  else if command = ascii "logout" then logout s
  else .ok (s, [])

def handle (w : World) (userInput : Bytes) (s : Main) : LineResult :=
  dispatch w (split_str userInput space) s

/-! ## What a line can do -/

/-- The loop goes on after the line, which was a step of the session. -/
def GoesOn (s : Main) (r : LineResult) : Prop :=
  ∃ e s' frames, r = .ok (s', frames) ∧ s.next e = some s' ∧ s'.phase ≠ .ended

/-- The line ends the program, as a step of the session. -/
def Dies (s : Main) (r : LineResult) : Prop :=
  ∃ e s' fault, r = .error fault ∧ s.next e = some s' ∧ s'.phase = .ended

/-- The arguments of a login that comes to its `stoi` and to its thread are in order. -/
def LoginFits (w : World) (s : Main) (hostPort : Bytes) : Prop :=
  ∀ portText, s.loggedIn = false → port hostPort = some portText → ∃ n, stoi portText = some n ∧
    (w.connect (splitOnce [colon] hostPort).1 (n.bmod (2 ^ 16)) = true → s.communicator = none)

/-- The line has a word, and it is no login with a bad port or over an old thread. -/
def Fits (w : World) (userInput : Bytes) (s : Main) : Prop :=
  (∃ b ∈ userInput, b ≠ space) ∧ ∀ hostPort username password,
    split_str userInput space = [ascii "login", hostPort, username, password] →
      LoginFits w s hostPort

section Branches

variable {s : Main} {tokens : List Bytes}

theorem GoesOn.not_dies {r : LineResult} (h : GoesOn s r) : ¬ Dies s r := by
  rintro ⟨_, _, _, herror, -⟩
  obtain ⟨_, _, _, hok, -⟩ := h
  cases hok.symm.trans herror

theorem next_prompt (hs : s.phase = .prompt) {s' : Main} : s.atPrompt s' = some s' := by
  rw [Main.atPrompt, if_pos hs]

theorem goesOn_print (hs : s.phase = .prompt) : GoesOn s (.ok (s, [])) := by
  refine ⟨.print, s, [], rfl, next_prompt hs, ?_⟩
  rw [hs]
  decide

theorem token_ok {i : Nat} (h : i < tokens.length) : token tokens i = .ok tokens[i] := by
  rw [token, List.getElem?_eq_getElem h]

theorem phase_run (s : Main) (command : Command) : (run s command).1.phase = s.phase := by
  unfold run
  cases s.protocol <;> rfl

theorem communicator_run (s : Main) (command : Command) :
    (run s command).1.communicator = s.communicator := by
  unfold run
  cases s.protocol <;> rfl

theorem command_eq_run {command : Command} (hwaits : ∀ p, command.waits p = false) :
    s.command command = (run s command).1 := by
  unfold run Main.command
  cases s.protocol with
  | none => rfl
  | some p =>
    dsimp only
    rw [hwaits, if_neg Bool.false_ne_true]

theorem command_logout (hin : s.loggedIn = true) : s.command .logout = (run s .logout).1.join := by
  obtain ⟨p, hp, hconnected⟩ := (Option.any_eq_true _ _).mp hin
  simp only [run, Main.command, hp, Command.waits]
  exact if_pos hconnected

theorem oneArgument_goesOn {command : Bytes → Command}
    (hwaits : ∀ argument p, (command argument).waits p = false) (hs : s.phase = .prompt) :
    GoesOn s (oneArgument command tokens s) := by
  unfold oneArgument
  split
  · exact goesOn_print hs
  next hsize =>
  split
  · exact goesOn_print hs
  rw [token_ok (show 1 < tokens.length by omega)]
  refine ⟨.command (command tokens[1]), (run s (command tokens[1])).1, _, rfl, ?_, ?_⟩
  · rw [← command_eq_run (hwaits tokens[1])]
    exact next_prompt hs
  · rw [phase_run, hs]
    decide

theorem summary_goesOn (hs : s.phase = .prompt) : GoesOn s (summary tokens s) := by
  unfold summary
  split
  · exact goesOn_print hs
  next hsize =>
  split
  · exact goesOn_print hs
  rw [token_ok (show 3 < tokens.length by omega), token_ok (show 1 < tokens.length by omega),
    token_ok (show 2 < tokens.length by omega)]
  exact goesOn_print hs

theorem logout_goesOn (hs : s.phase = .prompt)
    (hthread : Main.LogsOut (s, .command .logout) → s.communicator.isSome = true) :
    GoesOn s (logout s) := by
  unfold logout
  split
  · exact goesOn_print hs
  next hout =>
  have hin : s.loggedIn = true := by simpa using hout
  have hjoin : (run s .logout).1.communicator.isSome = true := by
    rw [communicator_run]
    exact hthread ⟨rfl, hin⟩
  refine ⟨.command .logout, (run s .logout).1.join, (run s .logout).2, ?_, ?_, ?_⟩
  · rw [wait, Main.join, if_pos hjoin, if_pos hjoin]
    rfl
  · rw [← command_logout hin]
    exact next_prompt hs
  · rw [Main.join, if_pos hjoin]
    exact fun h => by cases h

theorem login_eq (w : World) (hout : s.loggedIn = false) {hostPort portText : Bytes}
    (hport : port hostPort = some portText) (username password : Bytes) :
    login w [ascii "login", hostPort, username, password] s =
      match stoi portText with
      | none => .error .notANumber
      | some n =>
        if w.connect (splitOnce [colon] hostPort).1 (n.bmod (2 ^ 16)) then
          if s.communicator.isSome then .error .joinable
          else .ok (⟨username, some .initial, some .test, s.phase⟩, [connectFrame username password])
        else .ok (⟨username, none, s.communicator, s.phase⟩, []) := by
  have htokens : token [ascii "login", hostPort, username, password] 1 = .ok hostPort ∧
      token [ascii "login", hostPort, username, password] 2 = .ok username ∧
      token [ascii "login", hostPort, username, password] 3 = .ok password := ⟨rfl, rfl, rfl⟩
  unfold login
  rw [if_neg (by simp), if_neg (by simp [hout])]
  simp only [Bind.bind, Except.bind, htokens, hport, toShort, start]
  cases stoi portText with
  | none => rfl
  | some n =>
    dsimp only
    split
    · cases s.communicator <;> rfl
    · rfl

theorem next_login_eq (hs : s.phase = .prompt) (hout : s.loggedIn = false) {hostPort portText : Bytes}
    (hport : port hostPort = some portText) (username password : Bytes) (connects : Bool) :
    s.next (.login hostPort username password connects) =
      some (if (stoi portText).isNone then s.ended
        else if connects then { s with username := username }.start
        else { s with username := username, protocol := none }) := by
  have hlogin : s.next (.login hostPort username password connects) =
      some (s.login hostPort username connects) := next_prompt hs
  rw [hlogin, Main.login, if_neg (by simp [hout]), hport]

theorem login_dies (w : World) (hs : s.phase = .prompt) {hostPort : Bytes} (username password : Bytes)
    (hfits : ¬ LoginFits w s hostPort) :
    Dies s (login w [ascii "login", hostPort, username, password] s) := by
  simp only [LoginFits, not_forall] at hfits
  obtain ⟨portText, hout, hport, hno⟩ := hfits
  rw [login_eq w hout hport]
  cases hn : stoi portText with
  | none =>
    refine ⟨.login hostPort username password true, s.ended, _, rfl, ?_, rfl⟩
    rw [next_login_eq hs hout hport, hn]
    rfl
  | some n =>
    have hn' : ¬ (w.connect (splitOnce [colon] hostPort).1 (n.bmod (2 ^ 16)) = true →
        s.communicator = none) := fun h => hno ⟨n, hn, h⟩
    rw [Classical.not_imp] at hn'
    obtain ⟨t, ht⟩ := Option.ne_none_iff_exists'.mp hn'.2
    refine ⟨.login hostPort username password true,
      { s with username := username, phase := .ended }, .joinable, ?_, ?_, rfl⟩
    · dsimp only
      rw [if_pos hn'.1, ht]
      rfl
    · rw [next_login_eq hs hout hport, hn, Main.start, ht]
      rfl

theorem login_goesOn (w : World) (hs : s.phase = .prompt) {hostPort : Bytes} (username password : Bytes)
    (hfits : LoginFits w s hostPort) :
    GoesOn s (login w [ascii "login", hostPort, username, password] s) := by
  cases hin : s.loggedIn with
  | true =>
    unfold login
    rw [if_neg (by simp), if_pos hin]
    exact goesOn_print hs
  | false =>
  cases hport : port hostPort with
  | none =>
    have htoken : token [ascii "login", hostPort, username, password] 1 = .ok hostPort := rfl
    unfold login
    rw [if_neg (by simp), if_neg (by simp [hin]), htoken]
    simp only [Bind.bind, Except.bind, hport]
    exact goesOn_print hs
  | some portText =>
    obtain ⟨n, hn, hthread⟩ := hfits portText hin hport
    rw [login_eq w hin hport, hn]
    dsimp only
    split
    · next hconnects =>
      rw [hthread hconnects]
      refine ⟨.login hostPort username password true, _, _, rfl, ?_, ?_⟩
      · rw [next_login_eq hs hin hport, hn, Main.start, hthread hconnects]
        rfl
      · rw [hs]
        decide
    · refine ⟨.login hostPort username password false, _, _, rfl, ?_, ?_⟩
      · rw [next_login_eq hs hin hport, hn]
        rfl
      · rw [hs]
        decide

theorem dispatch_goesOn (w : World) (command : Bytes) (args : List Bytes) (hs : s.phase = .prompt)
    (hthread : Main.LogsOut (s, .command .logout) → s.communicator.isSome = true)
    (hno : command ≠ ascii "login" ∨ args.length ≠ 3) :
    GoesOn s (dispatch w (command :: args) s) := by
  have htoken : token (command :: args) 0 = .ok command := rfl
  unfold dispatch
  rw [htoken]
  simp only [Bind.bind, Except.bind, List.isEmpty_cons, Bool.false_eq_true, if_false]
  split
  · next hlogin =>
    have hsize : (command :: args).length ≠ 4 := by
      rw [List.length_cons]
      have := hno.resolve_left (fun h => h hlogin)
      omega
    rw [login, if_pos hsize]
    exact goesOn_print hs
  split
  · exact oneArgument_goesOn (fun _ _ => rfl) hs
  split
  · exact oneArgument_goesOn (fun _ _ => rfl) hs
  split
  · exact oneArgument_goesOn (fun _ _ => rfl) hs
  split
  · exact summary_goesOn hs
  split
  · exact logout_goesOn hs hthread
  · exact goesOn_print hs

theorem handle_goesOn_iff (w : World) (userInput : Bytes) (hs : s.phase = .prompt)
    (hthread : Main.LogsOut (s, .command .logout) → s.communicator.isSome = true) :
    GoesOn s (handle w userInput s) ↔ Fits w userInput s := by
  unfold handle Fits
  cases htokens : split_str userInput space with
  | nil =>
    have hdies : Dies s (dispatch w [] s) := ⟨.die, s.ended, .noToken, rfl, next_prompt hs, rfl⟩
    refine iff_of_false (fun h => h.not_dies hdies) ?_
    rintro ⟨⟨b, hb, hne⟩, -⟩
    exact hne ((split_str_eq_nil_iff userInput space).mp htokens b hb)
  | cons command args =>
    have hword : ∃ b ∈ userInput, b ≠ space := by
      by_contra hall
      push Not at hall
      rw [(split_str_eq_nil_iff userInput space).mpr hall] at htokens
      cases htokens
    rw [and_iff_right hword]
    by_cases hlogin : command = ascii "login" ∧ args.length = 3
    · obtain ⟨rfl, hsize⟩ := hlogin
      obtain ⟨hostPort, username, password, rfl⟩ := List.length_eq_three.mp hsize
      have hdispatch : dispatch w [ascii "login", hostPort, username, password] s =
          login w [ascii "login", hostPort, username, password] s := rfl
      rw [hdispatch]
      constructor
      · intro h _ _ _ heq
        cases heq
        by_contra hfits
        exact h.not_dies (login_dies w hs username password hfits)
      · exact fun h => login_goesOn w hs username password (h hostPort username password rfl)
    · refine iff_of_true (dispatch_goesOn w command args hs hthread ?_) fun _ _ _ heq => ?_
      · rwa [not_and_or] at hlogin
      · cases heq
        exact absurd ⟨rfl, rfl⟩ hlogin

end Branches

/-! ## Every line in every session -/

/-- The line is handled as the next step of the session, and the program does not end. -/
def IsHandled (w : World) (userInput : Bytes) (trace : List (Main × MainEvent)) (s : Main) : Prop :=
  ∃ e s' frames, handle w userInput s = .ok (s', frames) ∧
    Main.runs.Run (trace ++ [(s, e)]) s' ∧ s'.phase ≠ .ended

theorem handled_iff {trace : List (Main × MainEvent)} {s : Main} (h : Main.runs.Run trace s)
    (hs : s.phase = .prompt) (w : World) (userInput : Bytes) :
    IsHandled w userInput trace s ↔ Fits w userInput s := by
  rw [← handle_goesOn_iff w userInput hs fun hl => (Main.threaded_run h).logsOut hs hl]
  constructor
  · rintro ⟨e, s', frames, hr, hrun, hphase⟩
    have hnext : s.next e = some s' := hrun.after (fun t => s.next e = some t) rfl
      (fun _ h => h) fun _ hx => (by cases hx)
    exact ⟨e, s', frames, hr, hnext, hphase⟩
  · rintro ⟨e, s', frames, hr, hnext, hphase⟩
    exact ⟨e, s', frames, hr, h.snoc hnext, hphase⟩

/-- Every connection opens, and no file has events. -/
def openWorld : World := ⟨fun _ _ => true, fun _ => ([], [])⟩

def fault : LineResult → Option Fault
  | .error f => some f
  | .ok _ => none

theorem handled_iff_login : IsHandled openWorld (ascii "login h:1 u p") [] .initial := by
  refine (handled_iff .nil rfl openWorld (ascii "login h:1 u p")).mpr
    ⟨⟨108, by decide, by decide⟩, ?_⟩
  intro hostPort username password htokens portText _ hport
  have hline : split_str (ascii "login h:1 u p") space =
      [ascii "login", ascii "h:1", ascii "u", ascii "p"] := by decide
  obtain rfl : ascii "h:1" = hostPort := by
    rw [hline] at htokens
    injection htokens with _ htokens
    injection htokens
  obtain rfl : ascii "1" = portText := Option.some.inj (Eq.trans (by decide) hport)
  exact ⟨1, by decide, fun _ => rfl⟩

/-- Lines without a word, ports that are no number or too large, and a login over the thread of a
lost connection. -/
theorem lines_fault :
    fault (handle openWorld [] .initial) = some .noToken ∧
    fault (handle openWorld (ascii "  ") .initial) = some .noToken ∧
    fault (handle openWorld (ascii "login h:abc u p") .initial) = some .notANumber ∧
    fault (handle openWorld (ascii "login h:99999999999 u p") .initial) = some .notANumber ∧
    ∃ trace s, Main.runs.Run trace s ∧ trace.map (·.2) = Main.lostRun.dropLast ∧
      s.phase = .prompt ∧ fault (handle openWorld (ascii "login h:1 u p") s) = some .joinable := by
  refine ⟨by decide, by decide, by decide, by decide, ?_⟩
  obtain ⟨trace, s, hr, hl, hs⟩ := System.exists_run_labels (M := Main.runs) Main.lostRun.dropLast
    (fun _ s => decide (s.phase = .prompt ∧
      fault (handle openWorld (ascii "login h:1 u p") s) = some .joinable)) (by decide +kernel)
  obtain ⟨hphase, hfault⟩ := of_decide_eq_true hs
  exact ⟨trace, s, hr, hl, hphase, hfault⟩

end Input

end Stomp.Client
