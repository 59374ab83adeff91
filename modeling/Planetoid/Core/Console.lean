import Mathlib.Data.List.TakeWhile
import Planetoid.Core.LogPrint
import Planetoid.Core.Uart

namespace Planetoid.Log

open Planetoid Program

/-! `Log::info` and `Log::error`: the lines on the serial console. -/

def CString.ofLiteral (text : String) : CString where
  chars := text.toList.takeWhile (· ≠ nul)
  unterminated := fun hmem => by simpa using List.mem_takeWhile_imp hmem

structure Console (depth : Nat) where
  buffer : List Char
  uart : Uart depth

def bufferSize : Nat := 1024

section

variable {depth : Nat}

def onBuffer : Printer α → Program (Console depth) PrintFault α :=
  zoom Console.buffer fun buffer console => { console with buffer := buffer }

def onUart :
    Program (Uart depth) PrintFault α → Program (Console depth) PrintFault α :=
  zoom Console.uart fun uart console => { console with uart := uart }

def logLine (level : CString) (budget : Nat) (fmt : CString)
    (args : List Argument) : Program (Console depth) PrintFault Unit := do
  onUart (uartPuts budget level.memory)
  onBuffer (formatString budget bufferSize fmt.memory args)
  let buffer ← read Console.buffer
  onUart (uartPuts budget buffer)
  onUart (uartPuts budget (CString.ofLiteral "\r\n").memory)

def infoPrefix : CString := CString.ofLiteral "[INFO] "

def errorPrefix : CString := CString.ofLiteral "[ERROR] "

def info : Nat → CString → List Argument →
    Program (Console depth) PrintFault Unit :=
  logLine infoPrefix

def error : Nat → CString → List Argument →
    Program (Console depth) PrintFault Unit :=
  logLine errorPrefix

inductive Call where
  | info (fmt : CString) (args : List Argument)
  | error (fmt : CString) (args : List Argument)

def Call.program (budget : Nat) :
    Call → Program (Console depth) PrintFault Unit
  | .info fmt args => Log.info budget fmt args
  | .error fmt args => Log.error budget fmt args

/-- A call, and what it finds in the stack where its `buffer` is. -/
structure Frame where
  call : Call
  found : List Char
  size : found.length = bufferSize

def runCalls (budget : Nat) :
    List Frame → Program (Console depth) PrintFault Unit
  | [] => pure ()
  | frame :: rest => do
    write fun console => { console with buffer := frame.found }
    frame.call.program budget
    runCalls budget rest

/-- The line that a call prints when its format stands for `text`. -/
def lineOf (level : CString) (text : List Char) : List Char :=
  level.chars ++ text.take (bufferSize - 1) ++ ['\r', '\n']

def Call.level : Call → CString
  | .info .. => infoPrefix
  | .error .. => errorPrefix

def Call.fmt : Call → CString
  | .info fmt _ | .error fmt _ => fmt

def Call.args : Call → List Argument
  | .info _ args | .error _ args => args

/-- The arguments of the call match its format, the texts of the numbers fit
the buffer, and the call stands for `line`. -/
def Call.Means (call : Call) (line : List Char) : Prop :=
  ∃ parts, chunks (pieces .copying call.fmt.chars) call.args = some parts ∧
    Fits (bufferSize - 1) parts ∧ lineOf call.level (rendering parts) = line

def beside (ready : Uart depth → Prop) : Environment (Console depth) where
  rely := fun before after => after.buffer = before.buffer ∧
    (transmitter ready).rely before.uart after.uart
  meets := fun console => ready console.uart
  rely_refl := fun _ => ⟨rfl, .refl⟩
  rely_trans := fun first second =>
    ⟨second.1.trans first.1, first.2.trans second.2⟩

def ConsoleShows (start : Uart depth) (line : List (BitVec 8))
    (console : Console depth) : Prop :=
  ShowsPart start line console.uart

/-- During a call the buffer has its size, and the device took `shown` of the
line. -/
structure During (start : Uart depth) (line shown : List (BitVec 8))
    (console : Console depth) : Prop where
  size : console.buffer.length = bufferSize
  shows : Shows start line shown console.uart

section

variable {start : Uart depth} {line shown : List (BitVec 8)}
  {ready : Uart depth → Prop} {console after : Console depth}

theorem During.rely (during : During start line shown console)
    (h : (beside ready).rely console after) :
    During start line shown after where
  size := (congrArg List.length h.1).trans during.size
  shows := during.shows.rely h.2

theorem During.part (during : During start line shown console) :
    ConsoleShows start line console :=
  ⟨shown, during.shows⟩

theorem onUart_puts {text behind : List Char} (htext : nul ∉ text)
    (during : During start line shown console)
    (hline : shown ++ text.map byte <+: line) {budget : Nat}
    (hbudget : text.length < budget) :
    (onUart (uartPuts budget (text ++ nul :: behind))).Withstands
      (beside ready) (ConsoleShows start line) (Waited ready)
      (fun _ after => after.buffer = console.buffer ∧
        During start line (shown ++ text.map byte) after) console := by
  refine (uartPuts_withstands htext during.shows hline hbudget).zoom
    (fun current => current.buffer = console.buffer)
    (fun _ _ => rfl) (fun _ _ h => h) ?_ (fun _ h => h) (fun _ _ h => h)
    ?_ rfl
  · exact fun before current hbefore h => ⟨h.1.trans hbefore, h.2⟩
  · exact fun _ current hbuffer hshows =>
      ⟨hbuffer, (congrArg List.length hbuffer).trans during.size, hshows⟩

theorem formatString_prints {fmt : CString} {args : List Argument}
    {parts : List Chunk}
    (matching : chunks (pieces .copying fmt.chars) args = some parts)
    (fits : Fits (bufferSize - 1) parts) :
    ∃ need, ∀ budget, need < budget → ∀ out, out.length = bufferSize →
      ∃ after, (formatString budget bufferSize fmt.memory args).run out =
        .ok ((), after) ∧ Prints after bufferSize (rendering parts) := by
  obtain ⟨need, hneed⟩ := formatString_ends fmt matching
  refine ⟨need, fun budget hbudget out hsize => ?_⟩
  have hpos : 0 < out.length := hsize ▸ by decide
  have hrun := hneed budget hbudget out (List.ne_nil_of_length_pos hpos)
  rw [hsize, emit_of_fits fits] at hrun
  refine ⟨_, hrun, ?_, ⟨_, rfl⟩, fun hmem => ?_⟩
  · simp
    omega
  · exact nul_notMem_rendering (clean_of_mem_pieces fmt.unterminated .copying)
      matching (List.mem_of_mem_take hmem)

theorem onBuffer_formats {text : List Char} {program : Printer Unit}
    (during : During start line shown console)
    (hrun : ∀ out, out.length = bufferSize → ∃ after,
      program.run out = .ok ((), after) ∧ Prints after bufferSize text) :
    (onBuffer program).Withstands (beside ready) (ConsoleShows start line) (Waited ready)
      (fun _ after => During start line shown after ∧
        Prints after.buffer bufferSize text) console := by
  obtain ⟨buffer, hrun, hprints⟩ := hrun console.buffer during.size
  refine withstands_zoom (fun current => Shows start line shown current.uart)
    (fun _ _ => rfl) (fun _ _ h => h) ?_ (fun _ hshows => ⟨_, hshows⟩) ?_ hrun
    during.shows
  · exact fun before current hshows h => ⟨hshows.rely h.2, h.1⟩
  · rintro current hshows rfl
    exact ⟨⟨hprints.length, hshows⟩, hprints⟩

theorem lineOf_eq (level : CString) (text : List Char) :
    (lineOf level text).map byte = level.chars.map byte ++
      (text.take (bufferSize - 1)).map byte ++
        (CString.ofLiteral "\r\n").chars.map byte := by
  have hend : (CString.ofLiteral "\r\n").chars = ['\r', '\n'] := by decide
  rw [lineOf, List.map_append, List.map_append, hend]

theorem logLine_withstands {level fmt : CString} {args : List Argument}
    {parts : List Chunk}
    (matching : chunks (pieces .copying fmt.chars) args = some parts)
    (fits : Fits (bufferSize - 1) parts) :
    ∃ need, ∀ budget, need < budget →
      ∀ {start : Uart depth} {line shown : List (BitVec 8)}
        {ready : Uart depth → Prop} {console : Console depth},
      During start line shown console →
      shown ++ (lineOf level (rendering parts)).map byte <+: line →
        (logLine level budget fmt args).Withstands (beside ready) (ConsoleShows start line)
          (Waited ready) (fun _ => During start line
            (shown ++ (lineOf level (rendering parts)).map byte)) console := by
  obtain ⟨need, hneed⟩ := formatString_prints matching fits
  refine ⟨need + level.chars.length + bufferSize + 2, ?_⟩
  intro budget hbudget start line shown ready console during hline
  rw [lineOf_eq, ← List.append_assoc, ← List.append_assoc] at hline ⊢
  have htext := (List.prefix_append ..).trans hline
  have hlevel := (List.prefix_append ..).trans htext
  refine withstands_bind (onUart_puts level.unterminated during hlevel
    (by omega)) fun _ first hfirst => ?_
  have hlength := (hfirst.ended (Environment.rely_refl _ first)).2
  refine withstands_bind (onBuffer_formats hlength (hneed budget (by omega)))
    fun _ second hsecond => withstands_read_bind fun current hcurrent => ?_
  obtain ⟨hprinted, hprints⟩ := hsecond.ended hcurrent
  refine ⟨hprinted.part, fun _ => ?_⟩
  obtain ⟨behind, hbuffer⟩ := hprints.string
  rw [hbuffer]
  refine withstands_bind (onUart_puts hprints.unterminated hprinted htext ?_)
    fun _ third hthird => ?_
  · rw [List.length_take]
    omega
  · have hlast := (hthird.ended (Environment.rely_refl _ third)).2
    have hend : (CString.ofLiteral "\r\n").chars.length = 2 := by decide
    exact (onUart_puts (CString.unterminated _) hlast hline (by omega)).weaken
      fun _ _ h => h.2

theorem Call.program_eq (budget : Nat) (call : Call) :
    (call.program budget : Program (Console depth) PrintFault Unit) =
      logLine call.level budget call.fmt call.args := by
  cases call with
  | info fmt args => rfl
  | error fmt args => rfl

theorem frame_enters {frame : Frame}
    (shows : Shows start line shown console.uart) :
    (write fun console => { console with buffer := frame.found } :
      Program (Console depth) PrintFault Unit).Withstands (beside ready)
        (ConsoleShows start line) (Waited ready)
        (fun _ => During start line shown) console := by
  refine withstands_write fun current hcurrent => ?_
  have hshows := shows.rely hcurrent.2
  refine ⟨⟨_, hshows⟩, fun _ after hafter => ?_⟩
  have during : During start line shown ⟨frame.found, current.uart⟩ :=
    ⟨frame.size, hshows⟩
  exact ⟨(during.rely hafter).part, during.rely hafter⟩

theorem runCalls_withstands {frames : List Frame} {lines : List (List Char)}
    (means : List.Forall₂ (fun frame => frame.call.Means) frames lines) :
    ∃ need, ∀ budget, need < budget →
      ∀ {start : Uart depth} {line shown : List (BitVec 8)}
        {ready : Uart depth → Prop} {console : Console depth},
      Shows start line shown console.uart →
      shown ++ lines.flatten.map byte <+: line →
        (runCalls budget frames).Withstands (beside ready)
          (ConsoleShows start line) (Waited ready)
          (fun _ after => Shows start line (shown ++ lines.flatten.map byte)
            after.uart) console := by
  induction means with
  | nil =>
      refine ⟨0, fun budget _ start line shown ready console shows _ => ?_⟩
      refine withstands_pure fun current hcurrent => ?_
      have hsame := shows.rely hcurrent.2
      rw [List.flatten_nil, List.map_nil, List.append_nil]
      exact ⟨⟨_, hsame⟩, hsame⟩
  | cons hcall _ ih =>
      rename_i frame _ _ _
      obtain ⟨parts, matching, fits, rfl⟩ := hcall
      obtain ⟨first, hfirst⟩ := logLine_withstands matching fits
      obtain ⟨rest, hrest⟩ := ih
      refine ⟨first + rest, ?_⟩
      intro budget hbudget start line shown ready console shows hline
      rw [List.flatten_cons, List.map_append, ← List.append_assoc] at hline ⊢
      unfold runCalls
      rw [Call.program_eq]
      refine withstands_bind (frame_enters shows) fun _ found hfound => ?_
      refine withstands_bind (hfirst budget (by omega)
        (hfound.ended (Environment.rely_refl _ found))
        ((List.prefix_append ..).trans hline)) fun _ after h => ?_
      exact hrest budget (by omega)
        (h.ended (Environment.rely_refl _ after)).shows hline

structure Printed (start : Uart depth) (text : List Char)
    (ready : Uart depth → Prop)
    (reached : Program (Console depth) PrintFault Unit × Console depth) :
    Prop where
  /-- At any time the device took a first part of the text. -/
  part : ConsoleShows start (text.map byte) reached.2
  complete : reached.1 = .ret () →
    reached.2.uart.history = start.history ++ text.map byte
  /-- It ends early only by a wait at a full FIFO. -/
  waited : ∀ fault, reached.1 = .fail fault → Waited ready fault

theorem printed_of_withstands {text : List Char} {start : Uart depth}
    {reached : Program (Console depth) PrintFault Unit × Console depth}
    (withstands : reached.1.Withstands (beside ready)
      (ConsoleShows start (text.map byte)) (Waited ready)
      (fun _ after => Shows start (text.map byte) (text.map byte) after.uart)
      reached.2) : Printed start text ready reached where
  part := withstands.now
  complete := by
    intro hret
    rw [hret] at withstands
    exact (withstands.ended (Environment.rely_refl _ _)).history
  waited := by
    intro fault hfail
    rw [hfail] at withstands
    exact (withstands _ (Environment.rely_refl _ _)).2

/-- The lines of any calls of the log come out whole and in order, whatever the
buffers hold before and whenever the device transmits; and if the FIFO has room
at every access, nothing but the end of the last call ends the run. -/
theorem runCalls_prints {frames : List Frame} {lines : List (List Char)}
    (means : List.Forall₂ (fun frame => frame.call.Means) frames lines) :
    ∃ need, ∀ budget, need < budget → ∀ (console : Console depth)
      (ready : Uart depth → Prop) reached,
      (interleaved (beside ready) (runCalls budget frames) console).Reachable
        (Met (beside ready)) reached →
      Printed console.uart lines.flatten ready reached := by
  obtain ⟨need, hneed⟩ := runCalls_withstands means
  refine ⟨need, fun budget hbudget console ready reached reachable => ?_⟩
  have hstart : Shows console.uart (lines.flatten.map byte) [] console.uart :=
    ⟨List.nil_prefix, (List.append_nil _).symm⟩
  exact printed_of_withstands
    ((hneed budget hbudget hstart (List.prefix_refl _)).reachable reachable)

theorem runCalls_returns {frames : List Frame} {lines : List (List Char)}
    (means : List.Forall₂ (fun frame => frame.call.Means) frames lines)
    (hroom : console.uart.history.length + lines.flatten.length < depth) :
    ∃ need, ∀ budget, need < budget → ∃ after : Console depth,
      (runCalls budget frames).run console = .ok ((), after) ∧
      (interleaved (beside (¬ ·.Full)) (runCalls budget frames)
        console).Reachable (Met (beside (¬ ·.Full))) (.ret (), after) := by
  obtain ⟨need, hneed⟩ := runCalls_withstands means
  refine ⟨need, fun budget hbudget => ?_⟩
  have hstart : Shows console.uart (lines.flatten.map byte) [] console.uart :=
    ⟨List.nil_prefix, (List.append_nil _).symm⟩
  have withstands := @hneed budget hbudget _ _ _ (¬ ·.Full) _ hstart
    (List.prefix_refl _)
  have hmeets : ∀ current : Console depth,
      ConsoleShows console.uart (lines.flatten.map byte) current →
        ¬ current.uart.Full := by
    rintro current ⟨shown, hprefix, hhistory⟩ hfull
    have hlength := congrArg List.length hhistory
    have hshown := hprefix.length_le
    unfold Uart.Full at hfull
    rw [Uart.history, List.length_append, List.length_append] at hlength
    rw [List.length_map] at hshown
    omega
  rcases withstands.run hmeets with ⟨⟨⟩, after, hrun, _⟩ | ⟨_, _, hwaited⟩
  · exact ⟨after, hrun, withstands.reachable_of_run hmeets hrun⟩
  · obtain ⟨_, uart, hready, hfull⟩ := hwaited
    exact absurd hfull hready

end

end

/-- The first call finds zeros in its buffer, the second one what is left of
the first. -/
def twoFrames : List Frame :=
  [⟨.info (.ofLiteral "n=%i") [.int 7], List.replicate bufferSize nul,
    List.length_replicate⟩,
   ⟨.error (.ofLiteral "stop") [], List.replicate bufferSize 'n',
    List.length_replicate⟩]

theorem runCalls_prints_twoFrames :
    ∃ need, ∀ budget, need < budget → ∃ after : Console 64,
      (runCalls budget twoFrames).run ⟨[], ⟨[], [], by decide, 0⟩⟩ =
        .ok ((), after) ∧
      after.uart.history =
        "[INFO] n=7\r\n[ERROR] stop\r\n".toList.map byte := by
  have means : List.Forall₂ (fun frame => frame.call.Means) twoFrames
      ["[INFO] n=7\r\n".toList, "[ERROR] stop\r\n".toList] := by
    refine .cons ⟨[.checked ['n'], .checked ['='], .unchecked ['7']], rfl, ?_,
      rfl⟩ (.cons ⟨[.checked ['s'], .checked ['t'], .checked ['o'],
        .checked ['p']], rfl, ?_, rfl⟩ .nil)
    · exact ⟨by decide, trivial⟩
    · exact trivial
  obtain ⟨first, prints⟩ := @runCalls_prints 64 _ _ means
  obtain ⟨second, returns⟩ := @runCalls_returns 64
    ⟨[], ⟨[], [], by decide, 0⟩⟩ _ _ means (by decide)
  refine ⟨first + second, fun budget hbudget => ?_⟩
  obtain ⟨after, hrun, reachable⟩ := returns budget (by omega)
  exact ⟨after, hrun,
    (prints budget (by omega) _ _ _ reachable).complete rfl⟩

end Planetoid.Log
