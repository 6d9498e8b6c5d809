import Snapshots.Cron.Search
import Snapshots.Cron.Weekday
import Snapshots.Text.Blank

/-! # Schedules

A schedule is a cron expression of six fields, second first, together with the pattern that it
stands for. An expression that can no longer fire is refused.
-/

namespace Snapshots.Cron

open Text Time

/-- What is wrong inside an expression of six fields. -/
inductive FieldFault where
  | dayOfWeek (fault : Weekday.Fault)
  | grammar
  deriving DecidableEq, Repr

def FieldFault.message : FieldFault → String
  | dayOfWeek fault => fault.message
  | grammar => "Invalid expression: Invalid cron expression."

inductive ScheduleError where
  | fieldCount (expression : String) (found : Nat)
  | malformed (expression : String) (fault : FieldFault)
  | neverFires (expression : String)
  deriving DecidableEq, Repr

def ScheduleError.message : ScheduleError → String
  | fieldCount e found =>
    "invalid cron expression '" ++ e ++ "': expected 6 fields " ++
      "(second minute hour day-of-month month day-of-week), got " ++ toString found
  | malformed e fault => "invalid cron expression '" ++ e ++ "': " ++ fault.message
  | neverFires e => "cron expression '" ++ e ++ "' never fires"

/-- An expression without blanks around it, and its pattern. -/
structure Schedule where
  expression : String
  pattern : Pattern
  deriving DecidableEq, Repr

namespace Schedule

def patternOf (fields : List (List Char)) : Except FieldFault Pattern := do
  let dayOfWeek ← (Weekday.renumberField (fields.getLastD [])).mapError .dayOfWeek
  match Grammar.pattern? (Weekday.joinWith ' ' (fields.dropLast ++ [dayOfWeek])) with
  | some p => .ok p
  | none => .error .grammar

def parse (now : Instant) (expression : String) : Except ScheduleError Schedule := do
  let fields := words expression.toList
  if fields.length ≠ 6 then .error (.fieldCount expression fields.length)
  let p ← (patternOf fields).mapError (.malformed expression)
  if (p.next? now).isNone then .error (.neverFires expression)
  return ⟨trim expression, p⟩

theorem parse_eq (now : Instant) (x : String) :
    parse now x =
      if (words x.toList).length ≠ 6 then .error (.fieldCount x (words x.toList).length)
      else match patternOf (words x.toList) with
        | .error e => .error (.malformed x e)
        | .ok p => if (p.next? now).isNone then .error (.neverFires x) else .ok ⟨trim x, p⟩ := by
  by_cases hn : (words x.toList).length = 6
  · cases hp : patternOf (words x.toList) with
    | error e =>
      simp only [parse, hn, hp, bind, Except.bind, ne_eq, not_true_eq_false, if_false]
      rfl
    | ok p =>
      have hok : (Except.ok p : Except FieldFault Pattern).mapError (ScheduleError.malformed x) =
          .ok p := rfl
      simp only [parse, hn, hp, hok, bind, Except.bind, ne_eq, not_true_eq_false, if_false]
      split <;> rfl
  · simp [parse, hn, bind, Except.bind]

theorem parse_eq_ok_iff {now : Instant} {x : String} {s : Schedule} :
    parse now x = .ok s ↔ (words x.toList).length = 6 ∧ s.expression = trim x ∧
      patternOf (words x.toList) = .ok s.pattern ∧ (s.pattern.next? now).isSome = true := by
  obtain ⟨e, q⟩ := s
  rw [parse_eq]
  by_cases hn : (words x.toList).length = 6
  · cases patternOf (words x.toList) with
    | error e => simp [hn]
    | ok p =>
      simp only [hn, ne_eq, not_true_eq_false, if_false, true_and, Except.ok.injEq]
      constructor
      · intro h
        split at h
        · cases h
        · rename_i hs
          cases h
          exact ⟨rfl, rfl, by simpa [Option.isSome_iff_ne_none] using hs⟩
      · rintro ⟨rfl, rfl, hs⟩
        rw [if_neg (by simpa [Option.isSome_iff_ne_none] using hs)]
  · simp [hn]

/-- The moment decides only whether an expression is a schedule, and not which. -/
theorem parse_unique {now now' : Instant} {x : String} {s s' : Schedule}
    (h : parse now x = .ok s) (h' : parse now' x = .ok s') : s = s' := by
  obtain ⟨-, he, hp, -⟩ := parse_eq_ok_iff.1 h
  obtain ⟨-, he', hp', -⟩ := parse_eq_ok_iff.1 h'
  rw [hp] at hp'
  cases s
  cases s'
  simp_all

end Schedule

end Snapshots.Cron
