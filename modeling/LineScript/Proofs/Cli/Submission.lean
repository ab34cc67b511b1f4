import LineScript.Cli.Repl
import LineScript.Proofs.Engine.Reliable
import LineScript.Proofs.Script.Braces

/-! What a session runs. It waits while more braces are opened than closed and runs the lines as soon
as there are as many; so a block may still be open in them, but only if some other brace closed none. -/
namespace LineScript.Cli.Repl

def complete? (lines : List (List Char)) : Option (List Char) :=
  let source := joinLines lines
  if 0 < braceDepth source ∨ (Text.trim source).isEmpty = true then none else some source

def handed? (r : Repl) (input : Input) : Option (List Char) :=
  match r.phase, input with
  | .reading [], .line text => if Text.trim text = "exit".toList then none else complete? [text]
  | .reading pending, .line text => complete? (pending ++ [text])
  | _, _ => none

def handed (host : Host) : Repl → List (List Char) → List (List Char)
  | _, [] => []
  | r, line :: rest => (r.handed? (.line line)).toList ++ handed host (feed host r (.line line)) rest

def Idle (before after : Console) : Prop :=
  after.machine = { before.machine with stream := after.machine.stream }

section Idle
variable {c d : Console}

theorem writeIdle {text : String} (wrote : c.write text = .ok d) : Idle c d := by
  unfold Console.write at wrote
  split at wrote
  · cases wrote
    rfl
  · split at wrote
    · cases wrote
      rfl
    · cases wrote

theorem Idle.trans {e : Console} (first : Idle c d) (second : Idle d e) : Idle c e := by
  unfold Idle at first second ⊢
  rw [second, first]

theorem afterIdle {text : String} {next : Console → Repl} (goesOn : ∀ d, Idle d (next d).console) :
    Idle c (after c (c.write text) next).console := by
  cases wrote : c.write text with
  | error fault => rfl
  | ok d => exact (writeIdle wrote).trans (goesOn d)

theorem promptIdle (c : Console) (pending : List (List Char)) : Idle c (prompt c pending).console :=
  afterIdle (fun _ => rfl)

end Idle

theorem submitHands (host : Host) (c : Console) (lines : List (List Char)) :
    match complete? lines with
    | some source => submit host c lines = prompt (c.run host source).1 []
    | none => Idle c (submit host c lines).console := by
  unfold complete? submit
  dsimp only
  by_cases opened : 0 < braceDepth (joinLines lines)
  · simp only [opened, true_or, if_true]
    exact promptIdle c lines
  · by_cases blank : (Text.trim (joinLines lines)).isEmpty = true
    · simp only [opened, blank, or_true, if_true, if_false]
      exact promptIdle c []
    · simp only [opened, blank, if_false]
      rfl

theorem leaveIdle (c : Console) : Idle c (leave c).console ∧ ∀ pending, (leave c).phase ≠ .reading pending := by
  unfold leave after
  split
  · rename_i wrote
    exact ⟨writeIdle wrote, by simp⟩
  · exact ⟨rfl, by simp⟩

theorem feedCases (host : Host) (r : Repl) (input : Input) :
    (∃ pending text, r.phase = .reading pending ∧ input = .line text ∧
        feed host r input = submit host r.console (pending ++ [text]) ∧
        handed? r input = complete? (pending ++ [text])) ∨
      handed? r input = none ∧ Idle r.console (feed host r input).console ∧
        ∀ pending, (feed host r input).phase ≠ .reading pending := by
  obtain ⟨console, phase⟩ := r
  cases phase with
  | reading pending =>
    cases input with
    | line text =>
      cases pending with
      | nil =>
        by_cases ends : Text.trim text = "exit".toList
        · refine .inr ⟨?_, ?_⟩
          · simp only [handed?, if_pos ends]
          · simp only [feed, if_pos ends]
            exact ⟨rfl, by simp⟩
        · refine .inl ⟨[], text, rfl, rfl, ?_, ?_⟩
          · simp only [feed, if_neg ends, List.nil_append]
          · simp only [handed?, if_neg ends, List.nil_append]
      | cons first others => exact .inl ⟨first :: others, text, rfl, rfl, rfl, rfl⟩
    | endOfInput | interrupt => cases pending <;> exact .inr ⟨rfl, leaveIdle console⟩
  | finished | crashed => cases input <;> exact .inr ⟨rfl, rfl, by simp [feed]⟩

theorem feedHands (host : Host) (r : Repl) (input : Input) :
    match handed? r input with
    | some source => feed host r input = prompt (r.console.run host source).1 []
    | none => Idle r.console (feed host r input).console := by
  rcases feedCases host r input with ⟨pending, text, -, -, fed, hands⟩ | ⟨hands, idle, -⟩
  · rw [fed, hands]
    exact submitHands host r.console (pending ++ [text])
  · rw [hands]
    exact idle

def Waiting (pending : List (List Char)) : Prop :=
  ∀ n, 0 < n → n ≤ pending.length → 0 < braceDepth (joinLines (pending.take n))

def Patient (r : Repl) : Prop := ∀ pending, r.phase = .reading pending → Waiting pending

section Patience
variable {pending : List (List Char)}

theorem promptPatient (c : Console) (waiting : Waiting pending) : (prompt c pending).Patient := by
  intro kept phase
  unfold prompt after at phase
  dsimp only at phase
  split at phase
  · cases phase
    exact waiting
  · cases phase

theorem waitingNone : Waiting [] := by
  intro n positive few
  simp only [List.length_nil] at few
  omega

theorem Waiting.more {text : List Char} (waiting : Waiting pending)
    (opened : 0 < braceDepth (joinLines (pending ++ [text]))) : Waiting (pending ++ [text]) := by
  intro n positive few
  by_cases fewer : n ≤ pending.length
  · rw [List.take_append_of_le_length fewer]
    exact waiting n positive fewer
  · rw [List.take_of_length_le (by simp only [List.length_append, List.length_singleton] at few ⊢; omega)]
    exact opened

theorem submitPatient (host : Host) (c : Console) {text : List Char} (waiting : Waiting pending) :
    (submit host c (pending ++ [text])).Patient := by
  unfold submit
  dsimp only
  split
  · rename_i opened
    exact promptPatient c (waiting.more opened)
  · split
    · exact promptPatient c waitingNone
    · exact promptPatient _ waitingNone

theorem feedPatient {r : Repl} (patient : r.Patient) (host : Host) (input : Input) :
    (feed host r input).Patient := by
  rcases feedCases host r input with ⟨pending, text, phase, -, fed, -⟩ | ⟨-, -, ended⟩
  · rw [fed]
    exact submitPatient host r.console (patient pending phase)
  · exact fun pending phase => absurd phase (ended pending)

theorem startPatient (c : Console) : (start c).Patient := by
  unfold start after
  split
  · exact promptPatient _ waitingNone
  · exact fun _ phase => by cases phase

structure Due (source : List Char) : Prop where
  settled : braceDepth source ≤ 0
  waited : ∃ pending text, source = joinLines (pending ++ [text]) ∧ Waiting pending

theorem completeDue {text source : List Char} (waiting : Waiting pending)
    (complete : complete? (pending ++ [text]) = some source) : Due source := by
  unfold complete? at complete
  dsimp only at complete
  split at complete
  · contradiction
  · rename_i settled
    cases complete
    exact ⟨by omega, pending, text, rfl, waiting⟩

theorem handedDue {r : Repl} (patient : r.Patient) (host : Host) {input : Input} {source : List Char}
    (hands : handed? r input = some source) : Due source := by
  rcases feedCases host r input with ⟨pending, text, phase, -, -, complete⟩ | ⟨nothing, -⟩
  · exact completeDue (patient pending phase) (complete ▸ hands)
  · rw [nothing] at hands
    contradiction

theorem handedAllDue (host : Host) (lines : List (List Char)) {r : Repl} (patient : r.Patient) :
    ∀ source ∈ handed host r lines, Due source := by
  induction lines generalizing r with
  | nil => simp [handed]
  | cons line rest ih =>
    intro source member
    rcases List.mem_append.mp member with now | later
    · exact handedDue patient host (Option.mem_toList.mp now)
    · exact ih (feedPatient patient host (.line line)) source later

end Patience

/- What a session runs, and when a block is open at its end. -/
theorem openOnlyAfterStray (host : Host) (console : Console) (lines : List (List Char)) :
    (∀ r input, match handed? r input with
      | some source => feed host r input = prompt (r.console.run host source).1 []
      | none => Idle r.console (feed host r input).console) ∧
    ∀ source ∈ handed host (start console) lines, Due source ∧
      (strayBraces 0 (tokens source) = 0 → ∀ line, Diagnostic.unclosedBlock line ∉ (parse source).diagnostics) ∧
      ((∀ line, Diagnostic.tooDeep line ∉ (parse source).diagnostics) →
        ((∃ line, Diagnostic.unclosedBlock line ∈ (parse source).diagnostics) ↔
          0 < braceDepth source + strayBraces 0 (tokens source))) := by
  refine ⟨feedHands host, fun source member => ?_⟩
  have due := handedAllDue host lines (startPatient console) source member
  have settled := due.settled
  have balance := openBracesBalance source
  refine ⟨due, fun noStray line reported => ?_, fun shallow => ?_⟩
  · have few := (Parser.programUnclosed source maxNesting).length_le
    have one := List.length_pos_of_mem (memUnclosed.mpr reported)
    unfold parse at one
    omega
  · have same := (unclosedAreOpen shallow).1
    rw [← same] at balance
    constructor
    · rintro ⟨line, reported⟩
      have one := List.length_pos_of_mem (memUnclosed.mpr reported)
      omega
    · intro positive
      obtain ⟨line, member⟩ := List.exists_mem_of_length_pos
        (l := unclosedLines (parse source).diagnostics) (by omega)
      exact ⟨line, memUnclosed.mp member⟩

def silentHost : Host := .behaving fun _ _ _ => .pure .nil

def silent (m : Machine) : Console := ⟨{ m with stream := none }, ""⟩

theorem silentStart (m : Machine) : start (silent m) = ⟨silent m, .reading []⟩ := rfl

theorem silentWaits (host : Host) (m : Machine) {lines : List (List Char)}
    (opened : 0 < braceDepth (joinLines lines)) : submit host (silent m) lines = ⟨silent m, .reading lines⟩ := by
  unfold submit
  rw [if_pos opened]
  rfl

theorem silentHands (host : Host) (m : Machine) :
    handed host (start (silent m)) ["if a \x7b".toList, "\x7d".toList] = ["if a \x7b\n\x7d".toList] ∧
      handed host (start (silent m)) ["\x7d \x7b".toList] = ["\x7d \x7b".toList] := by
  have first : complete? ["if a \x7b".toList] = none := by cbv
  have second : complete? ["if a \x7b".toList, "\x7d".toList] = some "if a \x7b\n\x7d".toList := by cbv
  have stray : complete? ["\x7d \x7b".toList] = some "\x7d \x7b".toList := by cbv
  have goesOn : Text.trim "if a \x7b".toList ≠ "exit".toList := by decide
  have goesOnToo : Text.trim "\x7d \x7b".toList ≠ "exit".toList := by decide
  have waits := @silentWaits host m ["if a \x7b".toList] (by cbv)
  rw [silentStart]
  constructor
  · simp only [handed, handed?, feed, if_neg goesOn, first, waits, List.cons_append, List.nil_append, second]
    rfl
  · simp only [handed, handed?, if_neg goesOnToo, stray]
    rfl

theorem someMachine : ∃ m, Machine.start {} = .ok m := ⟨_, rfl⟩

theorem blockOnTwoLines : ∃ console, handed silentHost (start console) ["if a \x7b".toList, "\x7d".toList] =
    ["if a \x7b\n\x7d".toList] ∧
      ∀ line, Diagnostic.unclosedBlock line ∉ (parse "if a \x7b\n\x7d".toList).diagnostics := by
  obtain ⟨m, -⟩ := someMachine
  have hands := (silentHands silentHost m).1
  have runs := (openOnlyAfterStray silentHost (silent m) ["if a \x7b".toList, "\x7d".toList]).2
  refine ⟨silent m, hands, ?_⟩
  exact (runs _ (by rw [hands]; exact List.mem_singleton_self _)).2.1 (by cbv)

/- A brace that closes nothing makes up for one that is open. -/
theorem strayHidesOpen : ¬∀ (host : Host) (console : Console) (lines : List (List Char)),
    ∀ source ∈ handed host (start console) lines, ∀ line,
      Diagnostic.unclosedBlock line ∉ (parse source).diagnostics := by
  intro closed
  obtain ⟨m, -⟩ := someMachine
  have hands := (silentHands silentHost m).2
  have shallow := @Parser.shallowOfShort "\x7d \x7b".toList (by cbv)
  have opened : openBraces [] (tokens "\x7d \x7b".toList) = [1] := by decide +kernel
  have reported : Diagnostic.unclosedBlock 1 ∈ (parse "\x7d \x7b".toList).diagnostics := by
    rw [← memUnclosed, (unclosedAreOpen shallow).1, opened]
    exact List.mem_singleton_self 1
  exact closed silentHost (silent m) _ _ (by rw [hands]; exact List.mem_singleton_self _) 1 reported

end LineScript.Cli.Repl
