import DiceNotation.Console
import DiceNotation.Proofs.Atomicity
import DiceNotation.Proofs.Reading
import DiceNotation.Proofs.Trimming
import DiceNotation.Source.Scripted

/-!
# Console sessions

What the console says to a line depends on the lines before it in two ways only: the last of them
that names a system decides which one is in effect, and those that are rolled have moved the source
on. Both can be told from the list of lines, without a run of the console. The run follows by
induction, with the session after the lines so far as the invariant.
-/

namespace DiceNotation

theorem Table.answers_append {σ : Type} (table : Table) (source : Source σ)
    (first second : List Request) (s : σ) :
    (table.answers source (first ++ second) s).2 =
      (table.answers source second (table.answers source first s).2).2 := by
  induction first generalizing s with
  | nil => rfl
  | cons request first ih => exact ih _

theorem Table.answers_singleton {σ : Type} (table : Table) (source : Source σ) (request : Request)
    (s : σ) : (table.answers source [request] s).2 = (table.answer source request s).2 :=
  rfl

/-! ## Names of systems -/

namespace GameSystem

/-- Only the trimmed name in lower case matters. -/
theorem toOption_ofName_congr {name other : String}
    (h : (trim name.toList).map Char.toLower = (trim other.toList).map Char.toLower) :
    (ofName name).toOption = (ofName other).toOption := by
  unfold ofName
  rw [h]
  split <;> rfl

/-- A name that is folded and trimmed before it is read is still read as it was. -/
theorem toOption_ofName_folded (name : List Char) :
    (ofName (String.ofList (trim (' ' :: name.map Char.toLower)))).toOption =
      (ofName (String.ofList name)).toOption := by
  have htrim : trim (' ' :: name.map Char.toLower) = (trim name).map Char.toLower := by
    rw [trim_cons_of_isBlank (by decide), trim_map_toLower]
  apply toOption_ofName_congr
  rw [htrim, String.toList_ofList, String.toList_ofList, trim_map_toLower, trim_trim,
    map_toLower_map_toLower]

/-- The arguments with a meaning of their own are no names. -/
theorem toOption_ofName_reserved :
    (ofName "").toOption = none ∧ (ofName "list").toOption = none :=
  ⟨rfl, rfl⟩

end GameSystem

namespace Console

/-! ## What a line is -/

/-- A line without the blanks at its ends. -/
def bare (line : String) : String :=
  String.ofList (trim line.toList)

/-- The bare line in lower case. -/
def folded (line : String) : String :=
  String.ofList ((trim line.toList).map Char.toLower)

def leaves (line : String) : Bool :=
  folded line = "exit" ∨ folded line = "quit"

/-- The line is the word `system`, alone or with a space behind it. -/
def concernsSystem (line : String) : Bool :=
  folded line = "system" ∨ "system ".toList.isPrefixOf (folded line).toList

/-- The line is no command. -/
def isRolled (line : String) : Bool :=
  !leaves line && folded line ≠ "" && !concernsSystem line

/-- The system whose name stands behind the word `system` and a space. -/
def namedSystem? (line : String) : Option GameSystem :=
  if "system ".toList.isPrefixOf (folded line).toList then
    (GameSystem.ofName (String.ofList ((trim line.toList).drop "system ".length))).toOption
  else none

/-- What a line about systems asks for, by the text behind the word. -/
def Command.ofArgument (argument : String) : Command :=
  if argument = "" then .showSystem
  else if argument = "list" then .listSystems
  else .chooseSystem argument

/-- The text behind the word `system`. -/
def argument (line : String) : String :=
  String.ofList (trim ((folded line).toList.drop "system".length))

theorem ofLine_eq (line : String) : Command.ofLine line =
    if leaves line = true then .leave
    else if folded line = "" then .nothing
    else if concernsSystem line = true then .ofArgument (argument line)
    else .roll (bare line) := by
  have hleaves : leaves line = true ↔ folded line = "exit" ∨ folded line = "quit" :=
    decide_eq_true_iff
  have hsystem : concernsSystem line = true ↔
      folded line = "system" ∨ "system ".toList.isPrefixOf (folded line).toList :=
    decide_eq_true_iff
  simp only [hleaves, hsystem, Command.ofLine, Command.ofArgument, argument, folded, bare,
    String.toList_ofList]

theorem ofLine_of_isRolled {line : String} (h : isRolled line = true) :
    Command.ofLine line = .roll (bare line) := by
  simp only [isRolled, Bool.and_eq_true, Bool.not_eq_true', decide_eq_true_eq] at h
  obtain ⟨⟨hleaves, hblank⟩, hsystem⟩ := h
  rw [ofLine_eq]
  simp only [hleaves, hblank, hsystem, Bool.false_eq_true, if_false]

theorem namedSystem?_of_not_concernsSystem {line : String} (h : concernsSystem line = false) :
    namedSystem? line = none := by
  simp only [concernsSystem, decide_eq_false_iff_not, not_or] at h
  exact if_neg h.2

/-- Neither an empty line nor one that ends the session is about systems. -/
theorem not_concernsSystem {line : String} (h : leaves line = true ∨ folded line = "") :
    concernsSystem line = false := by
  have hwords : folded line = "exit" ∨ folded line = "quit" ∨ folded line = "" := by
    simpa [leaves, or_assoc] using h
  rcases hwords with hword | hword | hword <;> (simp only [concernsSystem, hword]; decide)

/-- The system that a line names is the one that it chooses. -/
theorem toOption_ofName_argument {line : String} (h : concernsSystem line = true) :
    (GameSystem.ofName (argument line)).toOption = namedSystem? line := by
  have hfolded : (folded line).toList = (trim line.toList).map Char.toLower :=
    String.toList_ofList
  unfold namedSystem?
  split
  next hstarts =>
    obtain ⟨behind, hbehind⟩ := List.isPrefixOf_iff_prefix.mp hstarts
    rw [hfolded] at hbehind
    have hargument : (folded line).toList.drop "system".length =
        ' ' :: ((trim line.toList).drop "system ".length).map Char.toLower := by
      rw [hfolded, List.map_drop, ← hbehind]
      rfl
    rw [argument, hargument]
    exact GameSystem.toOption_ofName_folded _
  next hstarts =>
    have hword : folded line = "system" := (of_decide_eq_true h).resolve_right hstarts
    have hnone : argument line = "" := by
      rw [argument, hword]
      rfl
    rw [hnone]
    exact GameSystem.toOption_ofName_reserved.1

/-! ## One line -/

variable {σ : Type} {table : Table} {source : Source σ} {session : Session σ} {line : String}

theorem system_of_argument (table : Table) (source : Source σ) (session : Session σ)
    (argument : String) : (answer table source session (.ofArgument argument)).2 =
      { session with
        system := (GameSystem.ofName argument).toOption.getD session.system } := by
  unfold Command.ofArgument
  split
  next hnone =>
    rw [hnone, GameSystem.toOption_ofName_reserved.1]
    rfl
  next =>
    split
    next hlist =>
      rw [hlist, GameSystem.toOption_ofName_reserved.2]
      rfl
    next =>
      rw [answer, Session.choose]
      cases GameSystem.ofName argument with
      | ok system => rfl
      | error unknown => rfl

/-- A line that is not rolled changes the system at most. -/
theorem answer_of_not_isRolled (h : ¬ isRolled line = true) :
    (answer table source session (.ofLine line)).2 =
      { session with system := (namedSystem? line).getD session.system } := by
  rw [ofLine_eq]
  by_cases hleaves : leaves line = true
  · have hsystem := not_concernsSystem (.inl hleaves)
    rw [if_pos hleaves, namedSystem?_of_not_concernsSystem hsystem]
    rfl
  · rw [if_neg hleaves]
    by_cases hblank : folded line = ""
    · have hsystem := not_concernsSystem (.inr hblank)
      rw [if_pos hblank, namedSystem?_of_not_concernsSystem hsystem]
      rfl
    · rw [if_neg hblank]
      by_cases hsystem : concernsSystem line = true
      · rw [if_pos hsystem, system_of_argument, toOption_ofName_argument hsystem]
      · exact absurd (by simp [isRolled, hleaves, hblank, hsystem]) h

/-- A line that is rolled is answered with what rolling it gives. -/
theorem answer_of_isRolled (h : isRolled line = true) :
    answer table source session (.ofLine line) =
      (match (table.roll source (session.system.expand (bare line)) session.state).1 with
        | .ok roll => ⟨roll.render ++ "\n", ""⟩
        | .error e => ⟨"", "Error: " ++ e.message ++ "\n"⟩,
      { session with
        state := (table.roll source (session.system.expand (bare line)) session.state).2 }) := by
  rw [ofLine_of_isRolled h, answer, Session.roll, Session.play]
  rcases table.roll source (session.system.expand (bare line)) session.state with ⟨result, after⟩
  cases result with
  | ok roll => rfl
  | error e => rfl

/-- The kinds of lines that name no system. -/
theorem namedSystem?_eq_none (h : isRolled line = true ∨ folded line = "" ∨
    folded line = "system" ∨ folded line = "system list") : namedSystem? line = none := by
  rcases h with hrolled | hblank | hword | hlist
  · simp only [isRolled, Bool.and_eq_true, Bool.not_eq_true'] at hrolled
    exact namedSystem?_of_not_concernsSystem hrolled.2
  · exact namedSystem?_of_not_concernsSystem (not_concernsSystem (.inr hblank))
  · rw [namedSystem?, hword, if_neg (by decide)]
  · have hsystem : concernsSystem line = true := by
      simp only [concernsSystem, hlist]
      decide
    have hargument : argument line = "list" := by
      rw [argument, hlist]
      decide
    rw [← toOption_ofName_argument hsystem, hargument]
    exact GameSystem.toOption_ofName_reserved.2

/-! ## The session after some lines -/

/-- The system in effect after the lines: the last one that they name. -/
def systemAfter (lines : List String) : GameSystem :=
  (lines.filterMap namedSystem?).getLast?.getD .standard

/-- What a line asks the table for. -/
def request? (system : GameSystem) (line : String) : Option Request :=
  if isRolled line then some (.text (system.expand (bare line))) else none

/-- What the lines ask the table for, each in the system that those before it leave in effect. -/
def requests (lines : List String) : List Request :=
  (lines.mapIdx fun k line => request? (systemAfter (lines.take k)) line).reduceOption

/-- The system that the lines leave in effect, and the source as their requests leave it. -/
def sessionAfter (table : Table) (source : Source σ) (state : σ) (lines : List String) :
    Session σ :=
  ⟨systemAfter lines, (table.answers source (requests lines) state).2⟩

variable {lines : List String}

theorem systemAfter_concat (lines : List String) (line : String) :
    systemAfter (lines ++ [line]) = (namedSystem? line).getD (systemAfter lines) := by
  unfold systemAfter
  rw [List.filterMap_append]
  cases hnamed : namedSystem? line with
  | none => simp [hnamed]
  | some system => simp [hnamed]

theorem requests_concat (lines : List String) (line : String) :
    requests (lines ++ [line]) = requests lines ++ (request? (systemAfter lines) line).toList := by
  have hbefore : lines.mapIdx (fun k other =>
      request? (systemAfter ((lines ++ [line]).take k)) other) =
        lines.mapIdx fun k other => request? (systemAfter (lines.take k)) other := by
    rw [List.mapIdx_eq_mapIdx_iff]
    intro k hk
    rw [List.take_append_of_le_length (Nat.le_of_lt hk)]
  unfold requests
  rw [List.mapIdx_concat, hbefore, List.take_left, List.reduceOption_append]
  cases request? (systemAfter lines) line <;> rfl

/-- One line takes the session after the lines before it to the session after all of them. -/
theorem answer_snd (table : Table) (source : Source σ) (state : σ) (before : List String)
    (line : String) :
    (answer table source (sessionAfter table source state before) (.ofLine line)).2 =
      sessionAfter table source state (before ++ [line]) := by
  rw [sessionAfter, sessionAfter, systemAfter_concat, requests_concat]
  by_cases hrolled : isRolled line = true
  · have hnamed := namedSystem?_eq_none (.inl hrolled)
    rw [answer_of_isRolled hrolled, hnamed, request?, if_pos hrolled, Table.answers_append,
      Option.toList_some, Table.answers_singleton, Table.answer, Option.getD_none]
  · rw [answer_of_not_isRolled hrolled, request?, if_neg hrolled, Option.toList_none,
      List.append_nil]

/-! ## The lines of an input -/

def inputLines (input : String) : List String :=
  (linesOf input.toList).map String.ofList

theorem linesOf_append_newline {line : List Char} (h : '\n' ∉ line) (rest : List Char) :
    linesOf (line ++ '\n' :: rest) = line :: linesOf rest := by
  induction line with
  | nil => rfl
  | cons c line ih =>
      obtain ⟨hc, hline⟩ := not_or.mp (List.mem_cons.not.mp h)
      rw [List.cons_append, linesOf, if_neg (Ne.symm hc), ih hline]

theorem linesOf_last {last : List Char} (h : '\n' ∉ last) (hne : last ≠ []) :
    linesOf last = [last] := by
  induction last with
  | nil => exact absurd rfl hne
  | cons c last ih =>
      obtain ⟨hc, hlast⟩ := not_or.mp (List.mem_cons.not.mp h)
      rw [linesOf, if_neg (Ne.symm hc)]
      by_cases hnil : last = []
      · rw [hnil]
        rfl
      · rw [ih hlast hnil]

/-- Each line feed ends a line, and what stands behind the last one is a line if there is
anything. -/
theorem inputLines_append (lines : List String) {last : String}
    (hlines : ∀ line ∈ lines, '\n' ∉ line.toList) (hlast : '\n' ∉ last.toList) :
    inputLines (String.join (lines.map (· ++ "\n")) ++ last) =
      lines ++ if last = "" then [] else [last] := by
  induction lines with
  | nil =>
      by_cases hnone : last = ""
      · rw [hnone]
        rfl
      · have hne : last.toList ≠ [] := by simpa using hnone
        rw [inputLines, List.map_nil, String.join_nil, String.empty_append, linesOf_last hlast hne,
          if_neg hnone]
        simp
  | cons line lines ih =>
      obtain ⟨hline, hlines⟩ := List.forall_mem_cons.mp hlines
      have hrest := ih hlines
      have htext : (String.join ((line :: lines).map (· ++ "\n")) ++ last).toList =
          line.toList ++ '\n' :: (String.join (lines.map (· ++ "\n")) ++ last).toList := by
        simp [String.join_cons]
      unfold inputLines at hrest ⊢
      rw [htext, linesOf_append_newline hline, List.map_cons, String.ofList_toList, hrest,
        List.cons_append]

/-! ## The whole run -/

/-- The lines that are answered: those before the first one that ends the session. -/
def answered (lines : List String) : List String :=
  lines.takeWhile fun line => !leaves line

/-- What is said to each line in the session after the lines before it. -/
def repliesTo (table : Table) (source : Source σ) (state : σ) (lines : List String) : List Reply :=
  lines.mapIdx fun k line =>
    (answer table source (sessionAfter table source state (lines.take k)) (.ofLine line)).1

theorem ofLine_eq_leave_iff : Command.ofLine line = .leave ↔ leaves line = true := by
  have hargument : ∀ name, Command.ofArgument name ≠ .leave := by
    intro name
    unfold Command.ofArgument
    split
    · simp
    · split <;> simp
  rw [ofLine_eq]
  by_cases hleaves : leaves line = true
  · simp [hleaves]
  · rw [if_neg hleaves]
    split
    · simp [hleaves]
    · split <;> simp [hleaves, hargument]

theorem answers_of_leaves (h : leaves line = true) :
    answers table source session (line :: lines) = [] := by
  rw [answers, ofLine_eq_leave_iff.mpr h]

theorem answers_cons (h : leaves line = false) :
    answers table source session (line :: lines) =
      (answer table source session (.ofLine line)).1 :: prompt ::
        answers table source (answer table source session (.ofLine line)).2 lines := by
  rw [answers]
  split
  next hleave =>
    rw [ofLine_eq_leave_iff.mp hleave] at h
    cases h
  next =>
    rcases answer table source session (.ofLine line) with ⟨reply, next⟩
    rfl

theorem answers_answered (session : Session σ) (lines : List String) :
    answers table source session lines = answers table source session (answered lines) := by
  unfold answered
  induction lines generalizing session with
  | nil => rfl
  | cons line lines ih =>
      cases hleaves : leaves line with
      | true =>
          rw [answers_of_leaves hleaves, List.takeWhile_cons_of_neg (by simp [hleaves]), answers]
      | false =>
          rw [List.takeWhile_cons_of_pos (by simp [hleaves]), answers_cons hleaves,
            answers_cons hleaves, ih]

/-- By induction on the lines that are left, in the session after those before them. -/
theorem answers_eq_flatMap (table : Table) (source : Source σ) (state : σ) (before : List String)
    (h : ∀ line ∈ lines, leaves line = false) :
    answers table source (sessionAfter table source state before) lines =
      (lines.mapIdx fun k line => (answer table source
        (sessionAfter table source state (before ++ lines.take k)) (.ofLine line)).1).flatMap
          fun reply => [reply, prompt] := by
  induction lines generalizing before with
  | nil => rfl
  | cons line lines ih =>
      obtain ⟨hline, hlines⟩ := List.forall_mem_cons.mp h
      rw [answers_cons hline, answer_snd, ih (before ++ [line]) hlines, List.mapIdx_cons,
        List.flatMap_cons, List.take_zero, List.append_nil]
      simp only [List.take_succ_cons, List.append_assoc, List.cons_append, List.nil_append]

theorem join_map_flatMap (f : Reply → String) (replies : List Reply) :
    String.join ((replies.flatMap fun reply => [reply, prompt]).map f) =
      String.join (replies.map fun reply => f reply ++ f prompt) := by
  induction replies with
  | nil => rfl
  | cons reply replies ih =>
      rw [List.flatMap_cons, List.map_append, List.map_cons, List.map_singleton, List.map_cons,
        String.join_cons, ← ih, List.cons_append, String.join_cons, List.singleton_append,
        String.join_cons, String.append_assoc]

theorem join_prompts (replies : List Reply) :
    Reply.join (prompt :: replies.flatMap fun reply => [reply, prompt]) =
      ⟨"> " ++ String.join (replies.map fun reply => reply.out ++ "> "),
        String.join (replies.map Reply.err)⟩ := by
  have herr : (fun reply : Reply => reply.err ++ prompt.err) = Reply.err := by
    funext reply
    exact String.append_empty
  rw [Reply.join, List.map_cons, List.map_cons, String.join_cons, String.join_cons,
    join_map_flatMap, join_map_flatMap, herr]
  exact congrArg _ String.empty_append

theorem transcript_eq_join (table : Table) (source : Source σ) (state : σ) (input : String) :
    transcript table source state input = .join (prompt ::
      (repliesTo table source state (answered (inputLines input))).flatMap
        fun reply => [reply, prompt]) := by
  have hstay : ∀ line ∈ answered (inputLines input), leaves line = false := by
    intro line hline
    simpa using List.mem_takeWhile_imp hline
  have hrun := answers_eq_flatMap table source state [] hstay
  show Reply.join (prompt :: answers table source (.start state) (inputLines input)) = _
  rw [answers_answered]
  exact congrArg (fun replies => Reply.join (prompt :: replies)) hrun

/-- **A whole session.** The lines that are answered are those before the first `exit` or `quit`. A
prompt is written before them and after each one. Each line is answered in the session after the
lines before it: in the system that the last of these to name one has named, or else the standard
one, and with the source as their requests have left it. What is no command is rolled there, its
shorthand expanded, and answered with the text of the roll or with the error. A blank line is
answered with nothing. Lines of the kinds that name no known system leave the one in effect. -/
theorem transcript_eq (table : Table) (source : Source σ) (state : σ) :
    (∀ (lines : List String) (last : String),
      (∀ line ∈ lines, '\n' ∉ line.toList) → '\n' ∉ last.toList →
        inputLines (String.join (lines.map (· ++ "\n")) ++ last) =
          lines ++ if last = "" then [] else [last]) ∧
    (∀ input : String,
      let replies := repliesTo table source state (answered (inputLines input))
      transcript table source state input =
        ⟨"> " ++ String.join (replies.map fun reply => reply.out ++ "> "),
          String.join (replies.map Reply.err)⟩) ∧
    (∀ session line, isRolled line = true →
      (answer table source session (.ofLine line)).1 =
        match (table.roll source (session.system.expand (bare line)) session.state).1 with
        | .ok roll => ⟨roll.render ++ "\n", ""⟩
        | .error e => ⟨"", "Error: " ++ e.message ++ "\n"⟩) ∧
    (∀ session line, folded line = "" →
      (answer table source session (.ofLine line)).1 = ⟨"", ""⟩) ∧
    ∀ before line, (namedSystem? line = none ∨ isRolled line = true ∨ folded line = "" ∨
        folded line = "system" ∨ folded line = "system list") →
      systemAfter (before ++ [line]) = systemAfter before := by
  refine ⟨?_, ?_, ?_, ?_, ?_⟩
  · intro lines last hlines hlast
    exact inputLines_append lines hlines hlast
  · intro input
    rw [transcript_eq_join, join_prompts]
  · intro session line hrolled
    rw [answer_of_isRolled hrolled]
  · intro session line hblank
    have hstay : ¬ leaves line = true := by
      simp [leaves, hblank]
    rw [ofLine_eq, if_neg hstay, if_pos hblank]
    rfl
  · intro before line hline
    have hnone : namedSystem? line = none := hline.elim id namedSystem?_eq_none
    rw [systemAfter_concat, hnone, Option.getD_none]

/-- A session in fudge dice that ends before its last line. -/
theorem transcript_eq_fudge :
    inputLines "SYSTEM fate\n4d\nquit\n1d6" = ["SYSTEM fate", "4d", "quit", "1d6"] ∧
    (answer {} (Script.source []) ⟨.fudge, ⟨[1, 2, 3, 3], .error⟩⟩ (.ofLine "4d")).1 =
      ⟨"4dF [-1, 0, 1, 1] = 1 \x7bfudge\x7d\n", ""⟩ ∧
    (answer {} (Script.source []) ⟨.fudge, ⟨[], .error⟩⟩ (.ofLine "  ")).1 = ⟨"", ""⟩ ∧
    systemAfter (["SYSTEM fate"] ++ ["system list"]) = .fudge := by
  obtain ⟨hlines, -, hrolled, hblank, hstays⟩ :=
    transcript_eq {} (Script.source []) ⟨[1, 2, 3, 3], .error⟩
  have hread : Formula.read (Table.mk .full {}).limits "4dF" =
      .ok ⟨[.dice ⟨"4dF", .plain ⟨4, by decide, by decide⟩ ⟨3, by decide, by decide⟩ .fudge⟩],
        "4dF"⟩ := by
    decide +kernel
  have hroll : Table.roll {} (Script.source []) "4dF" ⟨[1, 2, 3, 3], .error⟩ =
      (.ok ⟨1, [-1, 0, 1, 1], [], 0, "4dF", [⟨0, .fudge⟩]⟩, ⟨[], .error⟩) := by
    rw [Table.roll_of_read hread]
    rfl
  have hexpand : GameSystem.fudge.expand (bare "4d") = "4dF" := by
    decide +kernel
  have hnamed : systemAfter ["SYSTEM fate"] = .fudge := rfl
  have hinput := hlines ["SYSTEM fate", "4d", "quit"] "1d6" (by decide) (by decide)
  refine ⟨hinput, ?_, hblank _ _ rfl, ?_⟩
  · rw [hrolled _ "4d" (by decide), hexpand, hroll]
    decide +kernel
  · rw [hstays ["SYSTEM fate"] "system list" (.inr (.inr (.inr (.inr rfl))))]
    exact hnamed

end Console

end DiceNotation
