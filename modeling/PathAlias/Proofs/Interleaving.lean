import PathAlias.Matcher
import PathAlias.Proofs.Lookup
import Mathlib.Data.List.Basic

/-!
Interleaved resolutions. A task works off a script that its own lookup and the fixed answers
determine: each question is issued and answered before the next one, and the outcome is reported
last. One step of a task takes the first event off what it has left to do, so a schedule decides
how far each task has come and nothing else.
-/

namespace PathAlias

/-- A resolution that a host starts over entries which it may share with others. Its outcome goes
to the future that was awaited or to the callback that was passed. -/
structure Resolution where
  request : Text
  extensions : List Text
  mainFields : List Text

/-- What a resolution looks up among these entries. -/
def Resolution.lookup (entries : List Entry) (resolution : Resolution) : Lookup (Option Text) :=
  Matcher.search { entries, mainFields := resolution.mainFields } resolution.extensions
    resolution.request

variable {α : Type}

namespace Event

/-- The question that an event answers. -/
def answer? : Event α → Option Question
  | .answered question => some question
  | _ => none

/-- A question is issued and answered. -/
def exchange (question : Question) : List (Event α) := [.asked question, .answered question]

end Event

/-- What a task may have done at any time, if it asks these questions and ends with this outcome
when it runs alone. -/
structure Orderly (questions : List Question) (outcome : Except Error α)
    (events : List (Event α)) : Prop where
  /-- The questions have been answered in the order they were issued, up to the last one. -/
  outstanding : ∃ last : Option Question,
    events.filterMap Event.question? = events.filterMap Event.answer? ++ last.toList
  /-- The questions are those that are asked alone, as far as they have been issued. -/
  issued : events.filterMap Event.question? <+: questions
  /-- The outcome is reported after everything else, when all questions have been answered. -/
  completed : ∀ earlier reported later, events = earlier ++ Event.completed reported :: later →
    later = [] ∧ reported = outcome ∧ earlier.filterMap Event.question? = questions ∧
      earlier.filterMap Event.answer? = questions

namespace Orderly

theorem nil (questions : List Question) (outcome : Except Error α) :
    Orderly questions outcome [] where
  outstanding := ⟨none, rfl⟩
  issued := List.nil_prefix
  completed := by
    intro earlier reported later h
    cases earlier <;> cases h

theorem report (outcome : Except Error α) : Orderly [] outcome [.completed outcome] where
  outstanding := ⟨none, rfl⟩
  issued := List.nil_prefix
  completed := by
    intro earlier reported later h
    cases earlier with
    | nil =>
        cases h
        exact ⟨rfl, rfl, rfl, rfl⟩
    | cons event earlier =>
        have hlength := congrArg List.length h
        simp only [List.length_cons, List.length_append, List.length_nil] at hlength
        omega

theorem ask (question : Question) (questions : List Question) (outcome : Except Error α) :
    Orderly (question :: questions) outcome [.asked question] where
  outstanding := ⟨some question, rfl⟩
  issued := List.cons_prefix_cons.mpr ⟨rfl, List.nil_prefix⟩
  completed := by
    intro earlier reported later h
    cases earlier with
    | nil => cases h
    | cons event earlier =>
        have htail := (List.cons.inj h).2
        cases earlier <;> cases htail

theorem exchange {questions : List Question} {outcome : Except Error α} {events : List (Event α)}
    (question : Question) (h : Orderly questions outcome events) :
    Orderly (question :: questions) outcome (Event.exchange question ++ events) where
  outstanding := by
    obtain ⟨last, hlast⟩ := h.outstanding
    exact ⟨last, congrArg (question :: ·) hlast⟩
  issued := List.cons_prefix_cons.mpr ⟨rfl, h.issued⟩
  completed := by
    intro earlier reported later heq
    match earlier, heq with
    | [], heq => cases heq
    | [event], heq => cases (List.cons.inj (List.cons.inj heq).2).1
    | first :: second :: earlier, heq =>
        obtain ⟨hfirst, hrest⟩ := List.cons.inj heq
        obtain ⟨hsecond, hevents⟩ := List.cons.inj hrest
        obtain ⟨hlater, hreported, hissued, hanswered⟩ := h.completed earlier reported later hevents
        subst hfirst hsecond
        exact ⟨hlater, hreported, congrArg (question :: ·) hissued,
          congrArg (question :: ·) hanswered⟩

end Orderly

/-- Everything that a lookup does as a task. -/
def Lookup.script (fs : FileSystem Id) (lookup : Lookup α) : List (Event α) :=
  (lookup.asked fs).flatMap Event.exchange ++ [.completed (lookup.run fs)]

/-- A script that is cut off anywhere is orderly. -/
theorem orderly_take (questions : List Question) (outcome : Except Error α) (count : Nat) :
    Orderly questions outcome
      ((questions.flatMap Event.exchange ++ [Event.completed outcome]).take count) := by
  induction questions generalizing count with
  | nil =>
      cases count with
      | zero => exact Orderly.nil _ _
      | succ count =>
          rw [List.flatMap_nil, List.nil_append, List.take_succ_cons, List.take_nil]
          exact Orderly.report outcome
  | cons question questions ih =>
      rw [List.flatMap_cons, List.append_assoc]
      match count with
      | 0 => exact Orderly.nil _ _
      | 1 => exact Orderly.ask question questions outcome
      | count + 2 => exact (ih count).exchange question

theorem length_exchanges (questions : List Question) :
    (questions.flatMap (Event.exchange (α := α))).length = 2 * questions.length := by
  induction questions with
  | nil => rfl
  | cons question questions ih =>
      rw [List.flatMap_cons, List.length_append, ih, List.length_cons]
      change 2 + _ = _
      omega

theorem outcome?_exchanges (questions : List Question) (count : Nat) :
    ((questions.flatMap (Event.exchange (α := α))).take count).filterMap Event.outcome? = [] := by
  rw [List.filterMap_eq_nil_iff]
  intro event hevent
  obtain ⟨question, _, hmem⟩ := List.mem_flatMap.mp (List.mem_of_mem_take hevent)
  rcases List.mem_pair.mp hmem with rfl | rfl <;> rfl

/-- The outcome is reported once, and by the last event of the script. -/
theorem Lookup.outcome?_take_script (fs : FileSystem Id) (lookup : Lookup α) (count : Nat) :
    ((lookup.script fs).take count).filterMap Event.outcome? =
      if 2 * (lookup.asked fs).length < count then [lookup.run fs] else [] := by
  rw [script, List.take_append, List.filterMap_append, outcome?_exchanges, length_exchanges,
    List.nil_append]
  split_ifs with hcount
  · have hleft : count - 2 * (lookup.asked fs).length = count - 2 * (lookup.asked fs).length - 1 + 1 := by
      omega
    rw [hleft, List.take_succ_cons, List.take_nil]
    rfl
  · rw [Nat.sub_eq_zero_of_le (by omega)]
    rfl

namespace Task

/-- What a task still has to do. -/
def remaining (fs : FileSystem Id) : Task α → List (Event α)
  | .ready rest => rest.script fs
  | .waiting question next =>
      .answered question ::
        match fs question with
        | .ok answer => (next answer).script fs
        | .error e => [.completed (.error e)]
  | .failed e => [.completed (.error e)]
  | .finished _ => []

theorem script_ask (fs : FileSystem Id) (question : Question)
    (next : question.Answer → Lookup α) :
    (Lookup.ask question next).script fs =
      .asked question :: remaining fs (.waiting question next) := by
  rw [Lookup.script, Lookup.asked_ask, Lookup.run_ask, remaining]
  cases fs question <;> rfl

/-- One step does the first thing that is left to do. -/
theorem step_eq (fs : FileSystem Id) (task : Task α) :
    (task.step fs).2.toList = (task.remaining fs).take 1 ∧
      (task.step fs).1.remaining fs = (task.remaining fs).drop 1 := by
  cases task with
  | ready rest =>
      cases rest with
      | done outcome => exact ⟨rfl, rfl⟩
      | ask question next =>
          rw [remaining, script_ask]
          exact ⟨rfl, rfl⟩
  | waiting question next =>
      rw [step, remaining]
      cases hanswer : fs question with
      | ok answer => exact ⟨rfl, rfl⟩
      | error e => exact ⟨rfl, rfl⟩
  | failed e => exact ⟨rfl, rfl⟩
  | finished outcome => exact ⟨rfl, rfl⟩

/-- A task that is driven to its end works off the script of its lookup. -/
theorem drive_eq (fs : FileSystem Id) (lookup : Lookup α) :
    drive fs lookup = (lookup.script fs, lookup.run fs) := by
  induction lookup with
  | done outcome => rfl
  | ask question next ih =>
      rw [script_ask, remaining, Lookup.run_ask, drive]
      cases hanswer : fs question with
      | ok answer => exact congrArg (fun driven : List (Event α) × Except Error α =>
          (.asked question :: .answered question :: driven.1, driven.2)) (ih answer)
      | error e => rfl

end Task

namespace Pool

variable (fs : FileSystem Id)

theorem eventsOf_append (tasks : List (Task α)) (log later : List (Nat × Event α)) (number : Nat) :
    eventsOf { tasks, log := log ++ later } number =
      eventsOf { tasks, log } number ++ eventsOf { tasks, log := later } number := by
  rw [eventsOf, List.filter_append, List.map_append]
  rfl

/-- A step moves the task that it names. -/
theorem step_self (pool : Pool α) (number : Nat) (task : Task α)
    (htask : pool.tasks[number]? = some task) :
    (pool.step fs number).eventsOf number = pool.eventsOf number ++ (task.remaining fs).take 1 ∧
      (pool.step fs number).tasks[number]? = some (task.step fs).1 := by
  obtain ⟨hbound, _⟩ := List.getElem?_eq_some_iff.mp htask
  rw [step, htask]
  constructor
  · rw [← (task.step_eq fs).1]
    refine (eventsOf_append _ _ _ _).trans (congrArg (pool.eventsOf number ++ ·) ?_)
    rw [eventsOf, List.filter_map, List.map_map]
    have hall : ((fun entry : Nat × Event α => entry.1 == number) ∘
        fun event => (number, event)) = fun _ => true := by
      funext event
      exact beq_self_eq_true number
    rw [hall, List.filter_true]
    exact List.map_id _
  · exact List.getElem?_set_self hbound

/-- A step leaves all other tasks alone. -/
theorem step_of_ne (pool : Pool α) (number other : Nat) (hne : other ≠ number) :
    (pool.step fs other).eventsOf number = pool.eventsOf number ∧
      (pool.step fs other).tasks[number]? = pool.tasks[number]? := by
  rw [step]
  cases pool.tasks[other]? with
  | none => exact ⟨rfl, rfl⟩
  | some task =>
      constructor
      · refine (eventsOf_append _ _ _ _).trans ?_
        rw [eventsOf, eventsOf, List.filter_map]
        have hnone : ((fun entry : Nat × Event α => entry.1 == number) ∘
            fun event => (other, event)) = fun _ => false := by
          funext event
          exact beq_false_of_ne hne
        rw [hnone, List.filter_false, List.map_nil, List.map_nil, List.append_nil]
        rfl
      · exact List.getElem?_set_ne hne

/-- After any schedule a task has done as much as the schedule named it. -/
theorem eventsOf_run (schedule : List Nat) (pool : Pool α) (number : Nat) (task : Task α)
    (htask : pool.tasks[number]? = some task) :
    (pool.run fs schedule).eventsOf number =
      pool.eventsOf number ++ (task.remaining fs).take (schedule.count number) := by
  induction schedule generalizing pool task with
  | nil => rw [List.count_nil, List.take_zero, List.append_nil]; rfl
  | cons other schedule ih =>
      by_cases hother : other = number
      · subst hother
        obtain ⟨hevents, hmoved⟩ := step_self fs pool other task htask
        calc (pool.run fs (other :: schedule)).eventsOf other
            = (pool.step fs other).eventsOf other ++
                ((task.step fs).1.remaining fs).take (schedule.count other) := ih _ _ hmoved
          _ = pool.eventsOf other ++ ((task.remaining fs).take 1 ++
                ((task.remaining fs).drop 1).take (schedule.count other)) := by
              rw [hevents, (task.step_eq fs).2, List.append_assoc]
          _ = _ := by rw [← List.take_add, List.count_cons_self, Nat.add_comm]
      · obtain ⟨hevents, hsame⟩ := step_of_ne fs pool number other hother
        calc (pool.run fs (other :: schedule)).eventsOf number
            = (pool.step fs other).eventsOf number ++
                (task.remaining fs).take (schedule.count number) := ih _ _ (hsame.trans htask)
          _ = _ := by rw [hevents, List.count_cons_of_ne hother]

/-- Each lookup of a pool has done a beginning of what it does when it is driven alone. -/
theorem eventsOf_run_start (schedule : List Nat) (lookups : List (Lookup α)) (number : Nat)
    (lookup : Lookup α) (hlookup : lookups[number]? = some lookup) :
    ((start lookups).run fs schedule).eventsOf number =
      (Task.drive fs lookup).1.take (schedule.count number) := by
  have htask : (start lookups).tasks[number]? = some (.ready lookup) := by
    rw [start, List.getElem?_map, hlookup]
    rfl
  rw [eventsOf_run fs schedule (start lookups) number _ htask, Task.drive_eq]
  rfl

end Pool

/-- **Resolutions do not disturb each other.** Whichever resolutions run at the same time over the
same entries, and in whatever order they issue questions and get answers: each one asks what it
asks when it runs alone, one question at a time, and reports what it answers alone, once it has
been moved often enough and after everything else. -/
theorem interleaved_resolutions (entries : List Entry) (resolutions : List Resolution)
    (fs : FileSystem Id) (schedule : List Nat) (number : Fin resolutions.length) :
    let alone : Except Error (Option Text) × List Question :=
      ((resolutions[number].lookup entries).run (recording fs)).run []
    let events :=
      ((Pool.start (resolutions.map (Resolution.lookup entries))).run fs schedule).eventsOf number
    Orderly alone.2 alone.1 events ∧
      events.filterMap Event.outcome? =
        if 2 * alone.2.length < schedule.count number.val then [alone.1] else [] := by
  intro alone events
  have hlookup : (resolutions.map (Resolution.lookup entries))[number.val]? =
      some (resolutions[number].lookup entries) := by
    rw [List.getElem?_map, List.getElem?_eq_getElem number.isLt]
    rfl
  have halone : alone = ((resolutions[number].lookup entries).run fs,
      (resolutions[number].lookup entries).asked fs) := Lookup.run_recording fs _ []
  have hevents : events =
      (Task.drive fs (resolutions[number].lookup entries)).1.take (schedule.count number.val) :=
    Pool.eventsOf_run_start fs schedule _ number.val _ hlookup
  rw [halone, hevents, Task.drive_eq]
  exact ⟨orderly_take _ _ _, Lookup.outcome?_take_script fs _ _⟩

end PathAlias
