import SyslogNg.Lib.Run
import Mathlib.Data.List.TakeWhile

/-!
# The control channel (`lib/control.c`)

A connection is driven by the answers of its reads and writes. The handlers of the commands are a parameter:
the reply, which has some text, or nothing where no command starts the line.
-/

namespace SyslogNg.MainLoop

open List Lib Option

def maxControlLineLength : Nat := 4096

abbrev Reply := {reply : List UInt8 // reply ≠ []}

/-- `input` and `output` are the texts of the buffers; `written` is what the peer has got. -/
structure ControlConnection (σ : Type) where
  input : List UInt8
  output : List UInt8
  pos : Nat
  written : List UInt8
  closed : Bool
  world : σ
  deriving DecidableEq

inductive ControlEvent where
  | read (bytes : List UInt8)
  /-- `EAGAIN`, with what the enlarged buffer holds behind its old `NUL`. -/
  | readAgain (junk : List UInt8)
  /-- The end of the input, or another error. -/
  | readFailed
  | write (n : Nat)
  | writeAgain
  | writeFailed

section

variable {σ : Type} (answer : List UInt8 → σ → Option (Reply × σ))

def sendReply (reply : Reply) (self : ControlConnection σ) : ControlConnection σ :=
  { self with
    output := reply.1 ++ (if reply.1.getLast reply.2 ≠ 10 then [10] else []) ++ [46, 10]
    pos := 0 }

/-- The end of `control_connection_io_input`: one line is taken from the buffer. -/
def takeCommand (self : ControlConnection σ) : ControlConnection σ :=
  let text := self.input.takeWhile (· ≠ 0)
  if text.contains 10 then
    let command := text.takeWhile (· ≠ 10)
    let self := { self with input := self.input.drop (command.length + 1) }
    match answer command self.world with
    | none => { self with closed := true }
    | some (reply, world) => sendReply reply { self with world }
  else self

/-- `control_connection_io_output` and `control_connection_io_input`, as far as they are set as handlers. -/
def controlStep (self : ControlConnection σ) (event : ControlEvent) : Option (ControlConnection σ) :=
  if self.closed then none
  else if self.output.length > self.pos then
    match event with
    | .write n =>
      if n ≤ self.output.length - self.pos then
        some { self with pos := self.pos + n, written := self.written ++ (self.output.drop self.pos).take n }
      else none
    | .writeAgain => some self
    | .writeFailed => some { self with closed := true }
    | _ => none
  else
    match event with
    | .read bytes =>
      if bytes = [] ∨ bytes.length > 128 then none
      else if self.input.length > maxControlLineLength then some { self with closed := true }
      else some (takeCommand answer { self with input := self.input ++ bytes })
    | .readAgain junk =>
      if junk.length ≠ 128 then none
      else if self.input.length > maxControlLineLength then some { self with closed := true }
      else some { self with input := self.input ++ 0 :: junk }
    | .readFailed => some { self with closed := true }
    | _ => none

def controlNew (world : σ) : ControlConnection σ := ⟨[], [], 0, [], false, world⟩

/-! ## Commands one after another -/

/-- The text of a reply, with its final line. -/
def replyText (reply : Reply) : List UInt8 :=
  (if reply.1.getLast reply.2 = 10 then reply.1 else reply.1 ++ [10]) ++ [46, 10]

/-- What is written when each command arrives alone; an unknown one closes the connection. -/
def answers : List (List UInt8) → σ → List UInt8
  | [], _ => []
  | line :: lines, world =>
    match answer line world with
    | none => []
    | some (reply, world) => replyText reply ++ answers lines world

def linesText (lines : List (List UInt8)) : List UInt8 := lines.flatMap (· ++ [10])

/-- What a read delivers. -/
def ControlEvent.delivered : ControlEvent → List UInt8
  | .read bytes => bytes
  | _ => []

/-- A read brings data, and at most one end of a line; no call fails. -/
def ControlEvent.Aligned : ControlEvent → Prop
  | .read bytes => bytes.count 10 ≤ 1
  | .readAgain _ | .readFailed | .writeFailed => False
  | _ => True

def IsLine (line : List UInt8) : Prop := 10 ∉ line ∧ 0 ∉ line ∧ line.length ≤ maxControlLineLength

variable {answer} {self self' : ControlConnection σ} {lines : List (List UInt8)}

/-- What waits to be written. -/
def ControlConnection.pending (self : ControlConnection σ) : List UInt8 := self.output.drop self.pos

variable {line rest : List UInt8}

theorem takeWhile_line (h : 10 ∉ line) :
    (line ++ 10 :: rest).takeWhile (· ≠ 10) = line := by
  rw [takeWhile_append_of_pos, takeWhile_cons_of_neg (by simp), append_nil]
  rintro c hc
  refine decide_eq_true ?_
  rintro rfl
  exact h hc

theorem linesText_eq (hlines : ∀ l ∈ lines, IsLine l) (hline : 10 ∉ line)
    (h : line ++ 10 :: rest = linesText lines) :
    ∃ lines', lines = line :: lines' ∧ rest = linesText lines' := by
  cases lines with
  | nil => simp [linesText] at h
  | cons l lines =>
    have hl := (hlines l mem_cons_self).1
    simp only [linesText, flatMap_cons, append_assoc, singleton_append] at h
    have hsame := congrArg (takeWhile (· ≠ 10)) h
    rw [takeWhile_line hline, takeWhile_line hl] at hsame
    subst hsame
    exact ⟨lines, rfl, by simpa [linesText] using h⟩

theorem length_le_of_text {text rest : List UInt8} (hlines : ∀ l ∈ lines, IsLine l) (htext : 10 ∉ text)
    (h : text ++ rest = linesText lines) : text.length ≤ maxControlLineLength := by
  cases lines with
  | nil =>
    rw [(append_eq_nil_iff.mp h).1]
    exact Nat.zero_le _
  | cons l lines =>
    refine le_trans (not_lt.mp fun hlong => htext ?_) (hlines l mem_cons_self).2.2
    have hend := congrArg (·[l.length]?) h
    simp only [getElem?_append_left hlong, linesText, flatMap_cons, append_assoc, getElem?_append_right le_rfl,
      Nat.sub_self, singleton_append, getElem?_cons_zero] at hend
    exact mem_of_getElem? hend

theorem takeCommand_line (hline : IsLine line)
    (hinput : self.input = line ++ 10 :: rest) :
    takeCommand answer self = match answer line self.world with
      | none => { self with input := rest, closed := true }
      | some (reply, world) => sendReply reply { self with input := rest, world } := by
  have htext : (line ++ 10 :: rest).takeWhile (· ≠ (0 : UInt8)) = line ++ 10 :: rest.takeWhile (· ≠ 0) := by
    rw [takeWhile_append_of_pos, takeWhile_cons_of_pos (by decide)]
    refine fun c hc => decide_eq_true ?_
    rintro rfl
    exact hline.2.1 hc
  simp only [takeCommand, hinput, htext, takeWhile_line hline.1]
  simp

theorem takeCommand_text (h : 10 ∉ self.input) : takeCommand answer self = self := by
  have htext : (self.input.takeWhile (· ≠ 0)).contains 10 = false := by
    rw [← Bool.not_eq_true, contains_iff_mem]
    exact fun hc => h ((takeWhile_sublist _).subset hc)
  simp only [takeCommand, htext, Bool.false_eq_true, if_false]

theorem pending_sendReply (reply : Reply) : (sendReply reply self).pending = replyText reply := by
  unfold ControlConnection.pending sendReply replyText
  split <;> simp_all

theorem run_answers {events : List ControlEvent} (hlines : ∀ line ∈ lines, IsLine line)
    (haligned : ∀ event ∈ events, event.Aligned) (hopen : self.closed = false) (htext : 10 ∉ self.input)
    (hinput : self.input ++ events.flatMap ControlEvent.delivered = linesText lines)
    (hrun : exec (controlStep answer) self events = some self')
    (hdone : self'.closed = true ∨ self'.pending = []) :
    self'.written = self.written ++ self.pending ++ answers answer lines self.world := by
  induction events generalizing self lines with
  | nil =>
    obtain rfl := some.inj hrun
    have hpending := hdone.resolve_left (by simp [hopen])
    have hnil : lines = [] := by
      cases lines with
      | nil => rfl
      | cons l lines => exact absurd (by simp_all [linesText]) htext
    simp [hpending, hnil, answers]
  | cons event events ih =>
    obtain ⟨halign, hrest⟩ := forall_mem_cons.mp haligned
    obtain ⟨self1, hstep, hrun⟩ := bind_eq_some_iff.mp hrun
    rw [flatMap_cons] at hinput
    unfold controlStep at hstep
    rw [if_neg (by simp [hopen])] at hstep
    split at hstep
    · -- a reply is being written
      cases event with
      | write n =>
        simp only [ite_none_right_eq_some, some.injEq] at hstep
        obtain ⟨-, rfl⟩ := hstep
        refine (ih hlines hrest ?_ ?_ ?_ hrun).trans ?_
        · exact hopen
        · exact htext
        · exact hinput
        · simp [ControlConnection.pending, ← drop_drop]
      | writeAgain =>
        obtain rfl := some.inj hstep
        exact ih hlines hrest hopen htext hinput hrun
      | writeFailed => exact halign.elim
      | _ => cases hstep
    · next hdrained =>
      have hpending : self.pending = [] := drop_eq_nil_of_le (not_lt.mp hdrained)
      cases event with
      | read bytes =>
        dsimp only at hstep
        split at hstep
        · cases hstep
        rw [if_neg (not_lt.mpr (length_le_of_text hlines htext hinput))] at hstep
        obtain rfl := some.inj hstep
        by_cases hnl : 10 ∈ bytes
        · -- the end of the first line, and what is there of the second one
          obtain ⟨b, c, rfl, hb⟩ := eq_append_cons_of_mem hnl
          have hcount : b.count 10 + (c.count 10 + 1) ≤ 1 := by
            simpa [ControlEvent.Aligned, count_append] using halign
          have hc : 10 ∉ c := count_eq_zero.mp (by omega)
          have hline : 10 ∉ self.input ++ b := by simp [htext, hb]
          obtain ⟨lines', rfl, htail⟩ := linesText_eq hlines hline
            (by simpa [ControlEvent.delivered] using hinput)
          rw [takeCommand_line (hlines _ mem_cons_self) (append_assoc _ _ _).symm] at hrun
          rw [answers, hpending, append_nil]
          cases hanswer : answer (self.input ++ b) self.world with
          | none =>
            rw [hanswer] at hrun
            cases events with
            | nil =>
              obtain rfl := some.inj hrun
              simp
            | cons event events => simp [exec, controlStep] at hrun
          | some r =>
            rw [hanswer] at hrun
            refine (ih (fun l hl => hlines l (mem_cons_of_mem _ hl)) hrest ?_ ?_ ?_ hrun).trans ?_
            · exact hopen
            · exact hc
            · exact htail
            · rw [pending_sendReply, append_assoc]
              rfl
        · have htext' : 10 ∉ self.input ++ bytes := by simp [htext, hnl]
          rw [takeCommand_text htext'] at hrun
          refine (ih hlines hrest ?_ htext' ?_ hrun).trans ?_
          · exact hopen
          · simpa [ControlEvent.delivered] using hinput
          · rfl
      | readAgain junk => exact halign.elim
      | readFailed => exact halign.elim
      | _ => cases hstep

end

/-- **The control channel.** Once all lines were delivered and all replies are written, the peer has got
what it gets for one command after another, if no read met `EAGAIN` and none brought the ends of two
lines. -/
theorem control_commands_answered {σ : Type} {answer : List UInt8 → σ → Option (Reply × σ)} {world : σ}
    {lines : List (List UInt8)} {events : List ControlEvent} {s : ControlConnection σ}
    (hlines : ∀ line ∈ lines, IsLine line) (haligned : ∀ event ∈ events, event.Aligned)
    (hinput : events.flatMap ControlEvent.delivered = linesText lines)
    (hrun : exec (controlStep answer) (controlNew world) events = some s)
    (hdone : s.closed = true ∨ s.pending = []) : s.written = answers answer lines world :=
  @run_answers _ _ (controlNew world) _ _ _ hlines haligned rfl not_mem_nil hinput hrun hdone

def echo (line : List UInt8) (world : Unit) : Option (Reply × Unit) :=
  if h : line = [] then none else some (⟨line, h⟩, world)

theorem control_commands_answered_two : ∃ s,
    exec (controlStep echo) (controlNew ()) [.read [65], .read [10, 66], .write 1,
      .writeAgain, .write 3, .read [10], .write 4] = some s ∧ s.written = answers echo [[65], [66]] () := by
  have hrun : exec (controlStep echo) (controlNew ()) [.read [65], .read [10, 66], .write 1,
      .writeAgain, .write 3, .read [10], .write 4] =
    some ⟨[], [66, 10, 46, 10], 4, [65, 10, 46, 10, 66, 10, 46, 10], false, ()⟩ := by decide +kernel
  refine ⟨_, hrun, control_commands_answered ?_ ?_ rfl hrun (.inr rfl)⟩
  · simp [IsLine, maxControlLineLength]
  · simp [ControlEvent.Aligned]

/-- Two commands in one read; nothing after an `EAGAIN`. -/
theorem control_commands_lost : (∃ s,
      exec (controlStep echo) (controlNew ()) [.read [65, 10, 66, 10], .write 4] = some s ∧ s.pending = [] ∧
        s.written ≠ answers echo [[65], [66]] ()) ∧
    ∃ s, exec (controlStep echo) (controlNew ()) [.readAgain (replicate 128 0), .read [65, 10]] = some s ∧
      s.pending = [] ∧ s.written ≠ answers echo [[65]] () :=
  ⟨⟨⟨[66, 10], [65, 10, 46, 10], 4, [65, 10, 46, 10], false, ()⟩, by decide +kernel⟩,
    ⟨0 :: replicate 128 0 ++ [65, 10], [], 0, [], false, ()⟩, by decide +kernel⟩

end SyslogNg.MainLoop
