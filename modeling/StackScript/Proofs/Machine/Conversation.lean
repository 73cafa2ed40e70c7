import StackScript.Prompt
import StackScript.Proofs.Machine.Leftover

/-!
# What the prompt remembers

The lines at the prompt are run on one machine, but each of them brings its own constants and its
own variables, which replace those of the lines before. What a line finds of them is the code of
their functions, and this code finds the constants and the variables of the line.

* `conversation_forgets`: a conversation goes as if all but the functions were forgotten before each
  entry.
-/

namespace StackScript

namespace Prompt

open Wide

/-- The session with the functions that are defined in it, over the same store. -/
def Session.afresh (session : Session) : Session :=
  { session with machine := session.machine.renewed session.machine.routines }

/-- A conversation in which all but the functions is forgotten before each entry. -/
def Session.forgetful (session : Session) : List Entry → Ending × List String
  | [] => (.done, [""])
  | entry :: rest =>
    match session.afresh.enter entry with
    | .again output session =>
      let (ending, outputs) := session.forgetful rest
      (ending, output :: outputs)
    | .leave => (.done, [""])
    | .limit output => (.limit, [output])
    | .endless => (.endless, [""])

/-- The machine that has loaded a line. -/
def Session.loaded? (session : Session) : Entry → Option State
  | .interrupt => none
  | .line text => do
    (session.machine.load (← (compileText (Text.trimText text)).toOption).bytes).toOption

/-- Before each entry all calls and try blocks are over, and no exception is left; and each line
finds its own operands. -/
def Session.Settled (session : Session) : List Entry → Prop
  | [] => True
  | entry :: rest =>
    (session.machine.frames = [] ∧ session.machine.handlers = [] ∧
      session.machine.current.isNone) ∧
    (∀ s ∈ session.afresh.loaded? entry, Unaided [] session.left s) ∧
    match session.enter entry with
    | .again _ session => session.Settled rest
    | _ => True

/-- Replies that show the same, with sessions that have the same functions. -/
inductive Reply.Alike : Reply → Reply → Prop
  | again {output : String} {session session' : Session} (h : session.afresh = session'.afresh) :
      Alike (.again output session) (.again output session')
  | leave : Alike .leave .leave
  | limit (output : String) : Alike (.limit output) (.limit output)
  | endless : Alike .endless .endless

/-- The reply that comes of a run. -/
def replyOf (o : Outcome) : Reply :=
  match o.finish with
  | .done => .again o.state.output ⟨o.state, o.left⟩
  | .limit => .limit o.state.output
  | .broken e => .again (o.state.output ++ errorLine e.message) ⟨o.state, o.left⟩

theorem Session.run_of_load {session : Session} {bytes : List UInt8} {s : State}
    (h : session.machine.load bytes = .ok s) :
    session.run bytes = replyOf (Wide.run session.left { s with output := "" }) := by
  rw [Session.run, h]
  rfl

/-- Operands below those of a run do not show in the reply. -/
theorem alike_above (o : Outcome) (base : List Value) :
    (replyOf (o.above base o.state.routines)).Alike (replyOf o) := by
  obtain ⟨finish, left, state⟩ := o
  cases finish with
  | done => exact .again rfl
  | limit => exact .limit _
  | broken e => exact .again rfl

section Step

variable {session : Session} (hframes : session.machine.frames = [])
  (hhandlers : session.machine.handlers = []) (hcurrent : session.machine.current = none)
include hframes hhandlers hcurrent

theorem Session.run_afresh {bytes : List UInt8}
    (h : ∀ s, session.afresh.machine.load bytes = .ok s → Unaided [] session.left s) :
    (session.run bytes).Alike (session.afresh.run bytes) := by
  have hload : session.machine.load bytes =
      (session.afresh.machine.load bytes).map session.machine.regain := State.load_eq _ _
  cases ht : session.afresh.machine.load bytes with
  | error e =>
    rw [ht] at hload
    rw [Session.run, Session.run, hload, ht]
    exact .again rfl
  | ok t =>
    rw [ht] at hload
    have hunaided := h t ht
    have hstart := State.load_start ht
    have hbacked : Backed t.routines [] t.routines := fun name => by simp
    have houtput : { t with output := "" } = t := by
      rw [← hstart]
      rfl
    -- The run is the same above nothing, so that it ends with the routines of its start.
    have hself := run_regain (s := session.machine.renewed []) rfl rfl rfl hstart hbacked hunaided
    rw [hstart, houtput] at hself
    have hroutines : t.routines = (Wide.run session.left t).state.routines :=
      (congrArg (·.state.routines) hself).symm
    have hrun := run_regain hframes hhandlers hcurrent hstart hbacked hunaided
    rw [session.run_of_load hload, Session.run_of_load ht, houtput]
    show (replyOf (Wide.run session.left _)).Alike (replyOf (Wide.run session.left t))
    rw [show Wide.run session.left { session.machine.regain t with output := "" } = _ from hrun,
      hroutines]
    exact alike_above _ _

/-- An entry has the same reply on a machine that has nothing but the functions. -/
theorem Session.enter_afresh {entry : Entry}
    (h : ∀ s ∈ session.afresh.loaded? entry, Unaided [] session.left s) :
    (session.enter entry).Alike (session.afresh.enter entry) := by
  cases entry with
  | interrupt => exact .again rfl
  | line text =>
    simp only [Session.enter]
    split
    · exact .leave
    split
    · exact .again rfl
    split
    · exact .again rfl
    cases hcompiled : compileText (Text.trimText text) with
    | error e =>
      simp only
      split
      · exact .endless
      · exact .again rfl
    | ok c =>
      refine session.run_afresh hframes hhandlers hcurrent fun s hs => h s ?_
      simp [Session.loaded?, hcompiled, hs, Except.toOption]

end Step

theorem Session.forgetful_congr {session session' : Session} (h : session.afresh = session'.afresh)
    (entries : List Entry) : session.forgetful entries = session'.forgetful entries := by
  cases entries with
  | nil => rfl
  | cons entry rest => rw [Session.forgetful, Session.forgetful, h]

/-- Each line of a settled conversation is answered as by a machine that has the functions of the
lines before and nothing else: their variables have no values, and what their functions do depends on
the constants and the variables of the line. -/
theorem conversation_forgets {session : Session} {entries : List Entry}
    (h : session.Settled entries) : session.converse entries = session.forgetful entries := by
  induction entries generalizing session with
  | nil => rfl
  | cons entry rest ih =>
    obtain ⟨⟨hframes, hhandlers, hcurrent⟩, hunaided, hrest⟩ := h
    have halike := session.enter_afresh hframes hhandlers (Option.isNone_iff_eq_none.1 hcurrent)
      hunaided
    rw [Session.converse, Session.forgetful]
    generalize session.enter entry = reply at halike hrest
    generalize session.afresh.enter entry = reply' at halike
    cases halike with
    | again hsame => simp only [ih hrest, Session.forgetful_congr hsame]
    | leave => rfl
    | limit output => rfl
    | endless => rfl

instance decidableSettled : ∀ (session : Session) (entries : List Entry),
    Decidable (session.Settled entries)
  | _, [] => .isTrue trivial
  | session, entry :: rest =>
    have : Decidable (match session.enter entry with
        | .again _ session => session.Settled rest
        | _ => True) :=
      match session.enter entry with
      | .again _ session => decidableSettled session rest
      | .leave | .limit _ | .endless => .isTrue trivial
    inferInstanceAs (Decidable (_ ∧ _ ∧ _))

/-- A function, a line that fails and leaves an operand, and a line that calls the function. -/
def calledLater : List Entry := [.line "func f(){return 2}", .line "[1,1/0]", .line "print(f())"]

/-- The call returns the constant of the last line that has the number of the function's own. -/
theorem conversation_forgets_calledLater : Session.Settled { left := 50 } calledLater ∧
    Session.converse { left := 50 } calledLater = Session.forgetful { left := 50 } calledLater ∧
    Session.converse { left := 50 } calledLater =
      (.done, ["", "Runtime error: Division by zero\nCall stack:\n", "print\n", ""]) := by
  have hsettled : Session.Settled { left := 50 } calledLater := by decide +kernel
  exact ⟨hsettled, conversation_forgets hsettled, by decide +kernel⟩

/-- A variable has lost its value on the next line, but not on the next line of one program. -/
theorem variable_lost_between_lines :
    Session.converse { left := 50 } [.line "var x = 1", .line "print(x)"] =
      (.done, ["", "None\n", ""]) ∧
    ∃ c s, compileText "var x = 1\nprint(x)" = .ok c ∧
      State.load { functions := .extended } c.bytes = .ok s ∧
      (Wide.run 50 s).state.output = "1\n" := by
  refine ⟨by decide +kernel, ?_⟩
  have hjoined : (do
      let c ← (compileText "var x = 1\nprint(x)").toOption
      let s ← (State.load { functions := .extended } c.bytes).toOption
      return (Wide.run 50 s).state.output) = some "1\n" := by
    decide +kernel
  simp only [bind, Option.bind_eq_some_iff, pure, Option.some.injEq] at hjoined
  obtain ⟨c, hc, s, hs, houtput⟩ := hjoined
  exact ⟨c, s, eq_ok_of_toOption hc, eq_ok_of_toOption hs, houtput⟩

end Prompt

end StackScript
