import Asm2Runtime.LaunchLock
import Asm2Runtime.ShellWords
import Mathlib.Data.List.GetD

/-!
# The start time of a process

process_starttime of run.sh reads field 22 of `/proc/<pid>/stat`, and the mkdir lock takes
the owner for dead when it is not the recorded one. A character stands for a byte of the
line.
-/

namespace Asm2Runtime.LaunchLock

open ShellWords

/-- The characters of the default `IFS`. -/
def isBlank (c : Char) : Bool := c == ' ' || c == '\t' || c == '\n'

/-- `process_starttime`, given the line that `read` finds, if it finds one. -/
def processStarttime (stat_line : Option Word) : Option Word := do
  let stat_line ← stat_line
  let stat_fields := stripShortest [')', ' '] stat_line
  let fields := words isBlank stat_fields
  if fields.length < 20 then none
  else
    let field := fields.getD 19 []
    if field.isEmpty || field.any fun c => !c.isDigit then none else some field

/-- `$(process_starttime "$pid")` -/
def starttimeWord (stat_line : Option Word) : Word := (processStarttime stat_line).getD []

/-- A line of `/proc/<pid>/stat`. The fields are those from the third on. -/
structure StatLine where
  pid : Word
  name : Word
  fields : List Word
  pid_digits : ∀ c ∈ pid, c.isDigit = true
  name_length : name.length ≤ 15
  name_line : '\n' ∉ name
  fields_length : 20 ≤ fields.length
  fields_words : ∀ f ∈ fields, f ≠ [] ∧ ∀ c ∈ f, isBlank c = false
  start_digits : ∀ c ∈ fields.getD 19 [], c.isDigit = true

namespace StatLine

/-- The line with the name between parentheses. -/
def text (line : StatLine) : Word :=
  line.pid ++ ' ' :: '(' :: line.name ++ ')' :: line.fields.flatMap (' ' :: ·)

/-- Field 22. -/
def starttime (line : StatLine) : Word := line.fields.getD 19 []

/-- Field 22, or as many fields before it as the name has words behind its first `) `, the
closing parenthesis included, has the text of field 22. -/
def NameHarmless (line : StatLine) : Prop :=
  ∀ rest, afterFirst [')', ' '] line.name = some rest →
    line.fields.getD (19 - (words isBlank (rest ++ [')'])).length) [] = line.starttime

variable (line : StatLine)

/-- The words that the rest of the name puts before the fields. -/
def nameWords : List Word :=
  match afterFirst [')', ' '] line.name with
  | none => []
  | some rest => words isBlank (rest ++ [')'])

theorem nameWords_length : line.nameWords.length ≤ 16 := by
  unfold nameWords
  cases hrest : afterFirst [')', ' '] line.name with
  | none => exact Nat.zero_le 16
  | some rest =>
    have hshort := (afterFirst_length hrest).trans line.name_length
    have hwords : (words isBlank (rest ++ [')'])).length ≤ _ := words_length_le _
    rw [List.length_append, List.length_singleton] at hwords
    exact hwords.trans (Nat.succ_le_succ hshort)

/-- The word splitting of what is left of the line. -/
theorem words_stripShortest_text :
    words isBlank (stripShortest [')', ' '] line.text) = line.nameWords ++ line.fields := by
  have hpid : ')' ∉ line.pid ++ [' ', '('] := by
    intro hmem
    rw [List.mem_append] at hmem
    cases hmem with
    | inl hdigit => exact absurd (line.pid_digits _ hdigit) (by decide)
    | inr hmark => exact absurd hmark (by decide)
  have htext : line.text = (line.pid ++ [' ', '(']) ++
      (line.name ++ ')' :: line.fields.flatMap (' ' :: ·)) := by
    simp [text]
  rw [stripShortest, htext, afterFirst_append_of_not_mem hpid, nameWords]
  cases hrest : afterFirst [')', ' '] line.name with
  | none =>
    obtain ⟨state, fields, hfields⟩ := List.exists_cons_of_length_pos
      (Nat.lt_of_lt_of_le (Nat.succ_pos 19) line.fields_length)
    have hwords := line.fields_words
    rw [hfields] at hwords ⊢
    obtain ⟨hne, hplain⟩ := hwords state List.mem_cons_self
    rw [List.flatMap_cons, List.cons_append,
      afterFirst_pair (by decide) (afterFirst_eq_none_iff.mp hrest), Option.getD_some,
      words_join rfl fields fun w hw => hwords w (List.mem_cons_of_mem state hw),
      words_of_plain hne hplain]
    rfl
  | some rest =>
    rw [afterFirst_append hrest, Option.getD_some, List.append_cons,
      words_join rfl line.fields line.fields_words]

/-- The field that is taken for field 22. -/
theorem getD_words : (line.nameWords ++ line.fields).getD 19 [] =
    line.fields.getD (19 - line.nameWords.length) [] := by
  have hroom := line.nameWords_length
  exact List.getD_append_right _ _ _ 19 (by omega)

theorem nameHarmless_iff :
    line.NameHarmless ↔ line.fields.getD (19 - line.nameWords.length) [] = line.starttime := by
  unfold NameHarmless nameWords
  cases afterFirst [')', ' '] line.name with
  | none => simp [starttime]
  | some rest => simp

theorem starttime_ne_nil : line.starttime ≠ [] := by
  have hin : 19 < line.fields.length := line.fields_length
  rw [starttime, List.getD_eq_getElem _ _ hin]
  exact (line.fields_words _ (List.getElem_mem hin)).1

/-- The start time is printed exactly if the name is harmless. -/
theorem processStarttime_iff :
    processStarttime (some line.text) = some line.starttime ↔ line.NameHarmless := by
  have hlength : ¬ (line.nameWords ++ line.fields).length < 20 := by
    have := line.fields_length
    rw [List.length_append]
    omega
  rw [nameHarmless_iff, processStarttime, Option.bind_eq_bind, Option.bind_some]
  dsimp only
  rw [words_stripShortest_text, if_neg hlength, getD_words]
  constructor
  · intro h
    split at h
    · cases h
    · exact Option.some.inj h
  · intro h
    have hfilled : line.starttime.isEmpty = false :=
      List.isEmpty_eq_false_iff.mpr line.starttime_ne_nil
    have hdigits : (line.starttime.any fun c => !c.isDigit) = false := by
      rw [List.any_eq_false]
      intro c hc
      rw [line.start_digits c hc]
      decide
    rw [h, hfilled, hdigits]
    rfl

end StatLine

/-! ## The owner of the lock -/

/-- What the launchers see of each other: LOCK_START was read in the line `recorded`, and the
line of a live launcher has the same field 22 ever after. The rest of it may change. -/
structure Shown (s : State) (proc : Word → Option StatLine) (recorded : Lid → StatLine) :
    Prop where
  start : ∀ l ∈ s.spawned, (s.launchers l).pc.live = true →
    (s.launchers l).id.start = starttimeWord (some (recorded l).text)
  line : ∀ l ∈ s.spawned, (s.launchers l).pc.live = true →
    ∃ now, proc (s.launchers l).id.pid = some now ∧ now.starttime = (recorded l).starttime

/-- The names of the live launchers are harmless, then and now. -/
def NamesHarmless (s : State) (proc : Word → Option StatLine) (recorded : Lid → StatLine) :
    Prop :=
  ∀ l ∈ s.spawned, (s.launchers l).pc.live = true → (recorded l).NameHarmless ∧
    ∀ now, proc (s.launchers l).id.pid = some now → now.NameHarmless

/-- What `$(process_starttime "$pid")` finds. -/
def observedWord (proc : Word → Option StatLine) (pid : Word) : Word :=
  starttimeWord ((proc pid).map StatLine.text)

section Owner

variable {s : State} {proc : Word → Option StatLine} {recorded : Lid → StatLine}

theorem starttimeWord_of_harmless {line : StatLine} (h : line.NameHarmless) :
    starttimeWord (some line.text) = line.starttime := by
  rw [starttimeWord, line.processStarttime_iff.mpr h, Option.getD_some]

/-- What the lock takes for granted about process_starttime. -/
theorem Shown.observes (h : Shown s proc recorded) (hnames : NamesHarmless s proc recorded)
    (pid : Word) : s.Observes pid (observedWord proc pid) := by
  rintro l hl hlive rfl
  obtain ⟨now, hnow, hsame⟩ := h.line l hl hlive
  obtain ⟨hrecorded, hlater⟩ := hnames l hl hlive
  rw [observedWord, hnow, Option.map_some, starttimeWord_of_harmless (hlater now hnow), hsame,
    h.start l hl hlive, starttimeWord_of_harmless hrecorded]

/-- A launcher that finds a live owner in the owner file gives up. -/
theorem Shown.owner_active (h : Shown s proc recorded) (hnames : NamesHarmless s proc recorded)
    {l m : Lid} {d : DirId} (hpc : (s.launchers l).pc = .checkLive d (s.launchers m).id)
    (hm : m ∈ s.spawned) (hlive : (s.launchers m).pc.live = true) (ok : Bool) :
    s.act l ok (observedWord proc (s.launchers m).id.pid) = some (s.goto l .gone) := by
  have hobserves := h.observes hnames (s.launchers m).id.pid
  simp only [State.act, hpc, if_pos hobserves, if_pos (hobserves m hm hlive rfl)]

end Owner

/-- process_starttime prints field 22 exactly if the name is harmless, and then no live owner
of the lock is taken for dead. -/
theorem stat_line_parsed_iff (line : StatLine) (s : State) (proc : Word → Option StatLine)
    (recorded : Lid → StatLine) :
    (processStarttime (some line.text) = some line.starttime ↔ line.NameHarmless) ∧
      (Shown s proc recorded → NamesHarmless s proc recorded →
        ∀ (l m : Lid) (d : DirId) (ok : Bool),
          (s.launchers l).pc = .checkLive d (s.launchers m).id → m ∈ s.spawned →
          (s.launchers m).pc.live = true →
            s.act l ok (observedWord proc (s.launchers m).id.pid) = some (s.goto l .gone)) :=
  ⟨line.processStarttime_iff,
    fun hshown hnames _ _ _ ok hpc hm hlive => hshown.owner_active hnames hpc hm hlive ok⟩

section Examples

theorem printed_words {fields : List Word}
    (h : (fields.all fun f => !f.isEmpty && f.all fun c => !isBlank c) = true) :
    ∀ f ∈ fields, f ≠ [] ∧ ∀ c ∈ f, isBlank c = false := by
  intro f hf
  have hword := List.all_eq_true.mp h f hf
  simpa using hword

/-- Process 7, started at 5000, before or after it has waited for a child of 4 ticks. -/
def launcherLine (name : Word) (hname : name.length ≤ 15 ∧ '\n' ∉ name) (waited : Bool) :
    StatLine where
  pid := "7".toList
  name := name
  fields := ["S", "1", "7", "7", "0", "-1", "4194304", "100", "0", "0", "0", "1", "1", "0",
    if waited then "4" else "0", "20", "0", "1", "0", "5000", "4096", "200"].map String.toList
  pid_digits := List.all_eq_true.mp (by decide)
  name_length := hname.1
  name_line := hname.2
  fields_length := by simp
  fields_words := printed_words (by cases waited <;> decide)
  start_digits := List.all_eq_true.mp (by cases waited <;> decide)

/-- A script of this name runs the launcher. -/
def nestedLine : Bool → StatLine := launcherLine "a) b c d e f".toList (by decide)

def plainLine : Bool → StatLine := launcherLine "run.sh (old)".toList (by decide)

/-- Launcher 0 holds the lock, and launcher 1 has read its name. -/
def heldState (start : Word) : State :=
  { initial .nothing with
    launchers := fun l => if l = 0 then ⟨⟨"7".toList, start⟩, .holding 1⟩
      else if l = 1 then ⟨⟨"9".toList, "6000".toList⟩, .checkLive 1 ⟨"7".toList, start⟩⟩
      else ⟨⟨[], []⟩, .unborn⟩
    spawned := [0] }

/-- Field 22 is not printed, and when the owner has waited for a child it is taken for dead. -/
theorem nested_name_misread :
    (¬ ∀ line : StatLine, processStarttime (some line.text) = some line.starttime) ∧
      (nestedLine false).starttime = (nestedLine true).starttime ∧
      ¬ (heldState (starttimeWord (some (nestedLine false).text))).Observes "7".toList
        (starttimeWord (some (nestedLine true).text)) := by
  refine ⟨fun h => absurd (h (nestedLine false)) (by decide +kernel), by decide +kernel, ?_⟩
  decide +kernel

theorem plainLine_harmless (waited : Bool) : (plainLine waited).NameHarmless := by
  rw [StatLine.nameHarmless_iff]
  cases waited <;> decide +kernel

theorem heldState_shown : Shown (heldState "5000".toList) (fun _ => some (plainLine true))
    fun _ => plainLine false where
  start := by
    intro l hl _
    obtain rfl := List.mem_singleton.mp hl
    decide +kernel
  line := fun _ _ _ => ⟨plainLine true, rfl, by decide +kernel⟩

theorem stat_line_parsed_plain :
    processStarttime (some (plainLine true).text) = some (plainLine true).starttime ∧
      (heldState "5000".toList).act 1 true
        (observedWord (fun _ => some (plainLine true)) "7".toList) =
          some ((heldState "5000".toList).goto 1 .gone) :=
  have hparsed := stat_line_parsed_iff (plainLine true) (heldState "5000".toList)
    (fun _ => some (plainLine true)) fun _ => plainLine false
  ⟨hparsed.1.mpr (plainLine_harmless true),
    hparsed.2 heldState_shown
      (fun _ _ _ => ⟨plainLine_harmless false, fun _ hnow =>
        Option.some.inj hnow ▸ plainLine_harmless true⟩)
      1 0 1 true rfl (by decide) (by decide)⟩

end Examples

end Asm2Runtime.LaunchLock
