import TableShell.Proofs.Reachability

/-
Commands that change nothing, whichever way they are handed to a session.

A command is idle where it fails or can only read. It leaves the session as it was, so the idle
commands of a run may be left out: the run ends in the same session, and whatever is not left out
gets the reply it got before.
-/
namespace TableShell

/-- The commands that list or select. -/
def Command.isReading : Command → Bool
  | .listDatabases | .listTables | .select _ => true
  | _ => false

namespace Session

/-- The command fails in this session, or can only read. -/
def isIdle (session : Session) (command : Command) : Bool :=
  command.isReading ||
    match (session.execute command).answer with
    | .ok _ => false
    | .error _ => true

theorem session_eq_of_isReading {session session' : Session} {command : Command} {text : String}
    (h : session.Effect command text session') (hr : command.isReading = true) :
    session' = session := by
  cases h with
  | listDatabases => rfl
  | listTables _ => rfl
  | select _ _ _ => rfl
  | createDatabase _ _ => exact absurd hr Bool.false_ne_true
  | useDatabase _ => exact absurd hr Bool.false_ne_true
  | createTable _ _ _ _ => exact absurd hr Bool.false_ne_true
  | insert _ _ _ _ => exact absurd hr Bool.false_ne_true

theorem session_execute_of_isIdle {session : Session} {command : Command}
    (h : session.isIdle command = true) : (session.execute command).session = session := by
  cases ha : (session.execute command).answer with
  | error cause => exact session_execute_of_error ha
  | ok text =>
    rw [isIdle, ha, Bool.or_false] at h
    exact session_eq_of_isReading (effect_of_answer ha) h

theorem session_respond (session : Session) (command : Command) :
    (session.respond command).session = (session.execute command).session := by
  rw [respond]
  split <;> rfl

theorem text_respond_of_ok {session : Session} {command : Command} {text : String}
    (h : (session.execute command).answer = .ok text) :
    (session.respond command).text = text := by
  rw [respond, h]

theorem text_respond_of_error {session : Session} {command : Command} {cause : Error}
    (h : (session.execute command).answer = .error cause) :
    (session.respond command).text = cause.message := by
  rw [respond, h]

end Session

/-- A way to hand inputs to a session: the command that an input stands for, the reply to it, and
the session behind it. -/
structure Channel (α β : Type) where
  command : α → Command
  reply : Session → α → β
  next : Session → α → Session

namespace Channel

/-- Commands that are answered with a text or the cause of their failure. -/
def executing : Channel Command (Except Error String) where
  command := id
  reply session command := (session.execute command).answer
  next session command := (session.execute command).session

/-- Commands that are answered with a text, whether they succeed or fail. -/
def responding : Channel Command String where
  command := id
  reply session command := (session.respond command).text
  next session command := (session.respond command).session

/-- Lines. -/
def processing : Channel String String where
  command := Command.classify
  reply session line := (session.process line).text
  next session line := (session.process line).session

section

variable {α β : Type} (channel : Channel α β)

/-- Takes inputs one after the other. -/
def run (session : Session) (inputs : List α) : Session :=
  inputs.foldl channel.next session

/-- The inputs of a run, each with the reply to it. -/
def record (session : Session) : List α → List (α × β)
  | [] => []
  | input :: inputs =>
    (input, channel.reply session input) :: record (channel.next session input) inputs

/-- The entries of the record whose commands are not idle where they are run. -/
def kept (session : Session) : List α → List (α × β)
  | [] => []
  | input :: inputs =>
    let later := kept (channel.next session input) inputs
    if session.isIdle (channel.command input) then later
    else (input, channel.reply session input) :: later

/-- Idle commands do nothing on the channel: none changes the session, and a run without them ends
in the same session and gives the same replies to the others. -/
structure Inert : Prop where
  next_eq : ∀ session input, session.isIdle (channel.command input) = true →
    channel.next session input = session
  kept_sublist : ∀ session inputs,
    (channel.kept session inputs).Sublist (channel.record session inputs)
  run_kept : ∀ session inputs,
    channel.run session ((channel.kept session inputs).map Prod.fst) = channel.run session inputs
  record_kept : ∀ session inputs,
    channel.record session ((channel.kept session inputs).map Prod.fst) =
      channel.kept session inputs

variable {channel}

theorem record_concat (session : Session) (inputs : List α) (input : α) :
    channel.record session (inputs ++ [input]) =
      channel.record session inputs ++
        [(input, channel.reply (channel.run session inputs) input)] := by
  induction inputs generalizing session with
  | nil => rfl
  | cons input' inputs ih =>
    rw [List.cons_append, record, ih]
    rfl

theorem kept_sublist_record (session : Session) (inputs : List α) :
    (channel.kept session inputs).Sublist (channel.record session inputs) := by
  induction inputs generalizing session with
  | nil => exact .slnil
  | cons input inputs ih =>
    rw [kept, record]
    split
    · exact (ih _).cons _
    · exact (ih _).cons_cons _

section Idle

variable (h : ∀ session input, session.isIdle (channel.command input) = true →
  channel.next session input = session)
include h

theorem run_map_kept (session : Session) (inputs : List α) :
    channel.run session ((channel.kept session inputs).map Prod.fst) =
      channel.run session inputs := by
  induction inputs generalizing session with
  | nil => rfl
  | cons input inputs ih =>
    have hrun : channel.run session (input :: inputs) =
        channel.run (channel.next session input) inputs := rfl
    rw [hrun, ← ih, kept]
    split
    · next hidle => rw [h session input hidle]
    · rfl

theorem record_map_kept (session : Session) (inputs : List α) :
    channel.record session ((channel.kept session inputs).map Prod.fst) =
      channel.kept session inputs := by
  induction inputs generalizing session with
  | nil => rfl
  | cons input inputs ih =>
    rw [kept]
    split
    · next hidle => rw [h session input hidle, ih]
    · rw [List.map_cons, record, ih]

theorem inert_of_next_eq : channel.Inert :=
  ⟨h, kept_sublist_record, run_map_kept h, record_map_kept h⟩

end Idle

end

/-- Commands that fail or only read change nothing, and can be left out of every run, whether
commands are executed, responded to, or read from lines. -/
theorem inert_channels : executing.Inert ∧ responding.Inert ∧ processing.Inert := by
  have hrespond : ∀ (session : Session) (command : Command), session.isIdle command = true →
      (session.respond command).session = session := by
    intro session command hidle
    rw [Session.session_respond, Session.session_execute_of_isIdle hidle]
  refine ⟨inert_of_next_eq ?_, inert_of_next_eq hrespond, inert_of_next_eq ?_⟩
  · exact fun session command hidle => Session.session_execute_of_isIdle hidle
  · exact fun session line hidle => hrespond session (Command.classify line) hidle

/-- Lines do to a session what the commands do that they are recognised as. -/
theorem run_processing (session : Session) (lines : List String) :
    processing.run session lines = session.run (lines.map Command.classify) := by
  induction lines generalizing session with
  | nil => rfl
  | cons line lines ih =>
    have hnext : processing.next session line =
        (session.execute (Command.classify line)).session :=
      Session.session_respond session (Command.classify line)
    rw [run, List.foldl_cons, hnext]
    exact ih _

theorem processing_wellFormed (lines : List String) :
    (processing.run .empty lines).WellFormed := by
  rw [run_processing]
  exact Session.run_wellFormed Session.empty_wellFormed _

end Channel
end TableShell
