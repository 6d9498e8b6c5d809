import Snapshots.Proofs.Cli.Meaning
import Snapshots.Proofs.Cli.Update
import Snapshots.Proofs.Service.Listing
import Snapshots.Proofs.Text.Decimal

/-! # The command for a preview

The command takes every number of hours below 2 ^ 32. It lists what is to come if these hours end in
the calendar, and fails otherwise; which of the two depends on the clock.
-/

namespace Snapshots

open Time

namespace Cli

/-! ### The hours that can be asked for -/

theorem hours?_toString {n : Nat} (h : n < 4294967296) : hours? (toString n) = some n := by
  have htext : (toString n).toList = Text.digits n := String.toList_ofList
  unfold hours?
  split
  · rename_i cs hcs
    have hmem : '-' ∈ Text.digits n := by
      rw [← htext, hcs]
      exact List.mem_cons_self
    cases Text.isDigit_of_mem_digits hmem
  · rw [natBelow?, htext, Text.natOfSigned?_digits]
    exact Option.filter_eq_some_iff.2 ⟨rfl, decide_eq_true h⟩

theorem hours?_lt {s : String} {n : Nat} (h : hours? s = some n) : n < 4294967296 := by
  unfold hours? at h
  split at h
  · split at h
    · cases h
      decide
    · cases h
  · obtain ⟨-, hlt⟩ := Option.filter_eq_some_iff.1 h
    exact of_decide_eq_true hlt

theorem means_verb {options : List OptionRule} {operands : Nat} {meaning : Given → Option Command}
    {i : Invocation} (h : (verb options operands meaning).Means i) :
    ∃ g, meaning g = some i.command := by
  cases h with
  | @command _ _ _ g _ hg =>
    obtain ⟨c, hc, rfl⟩ := Option.map_eq_some_iff.1 hg
    exact ⟨g, hc⟩

theorem means_taskVerb {options : List OptionRule} {meaning : Given → Option TaskCommand}
    {config : Option String} {c : TaskCommand}
    (h : (taskVerb options meaning).Means ⟨config, .task c⟩) : ∃ g, meaning g = some c := by
  obtain ⟨g, hg⟩ := means_verb h
  obtain ⟨c', hc, heq⟩ := Option.map_eq_some_iff.1 hg
  cases heq
  exact ⟨g, hc⟩

theorem means_previewVerb {config : Option String} {hours : Nat}
    (h : verbs.Means ⟨config, .task (.preview hours)⟩) :
    previewVerb.Means ⟨config, .task (.preview hours)⟩ := by
  obtain ⟨name, v, hv, h⟩ := h.of_group
  simp only [List.mem_cons, List.not_mem_nil, or_false, Prod.mk.injEq] at hv
  rcases hv with ⟨-, rfl⟩ | ⟨-, rfl⟩ | ⟨-, rfl⟩ | ⟨-, rfl⟩
  · obtain ⟨g, hg⟩ := means_verb h
    cases hg
  · obtain ⟨name, v, hv, h⟩ := h.of_group
    simp only [List.mem_cons, List.not_mem_nil, or_false, Prod.mk.injEq] at hv
    rcases hv with hv | hv | hv | hv | hv | hv | hv | ⟨-, rfl⟩
    case inr.inr.inr.inr.inr.inr.inr => exact h
    all_goals
      obtain ⟨-, rfl⟩ := hv
      obtain ⟨g, hg⟩ := means_taskVerb h
      simp [Option.bind_eq_some_iff] at hg
  · obtain ⟨name, v, hv, h⟩ := h.of_group
    obtain ⟨-, rfl⟩ := Prod.mk.inj (List.mem_singleton.1 hv)
    obtain ⟨g, hg⟩ := means_verb h
    simp at hg
  · obtain ⟨name, v, hv, h⟩ := h.of_group
    obtain ⟨-, rfl⟩ := Prod.mk.inj (List.mem_singleton.1 hv)
    obtain ⟨g, hg⟩ := means_verb h
    cases hg

theorem hours_lt_of_request {args : List String} {config : Option String} {hours : Nat}
    (h : request args = .run ⟨config, .task (.preview hours)⟩) : hours < 4294967296 := by
  obtain ⟨g, hg⟩ := means_taskVerb (means_previewVerb (Reader.means_of_read h))
  cases hg
  cases hn : (g.value? "hours").bind hours? with
  | none => decide
  | some n =>
    obtain ⟨s, -, hs⟩ := Option.bind_eq_some_iff.1 hn
    exact hours?_lt hs

def hoursOption : OptionRule where
  name := "hours"
  accepts s := (hours? s).isSome

def previewSheet (hours : Nat) : Sheet where
  entries := [(hoursOption, [toString hours])]
  apart := List.nodup_singleton _
  once := by simp

/-- The arguments that ask for a preview of some hours. -/
def previewWords (hours : Nat) : List String :=
  ["task", "dry-run"] ++ (previewSheet hours).row.map Written.text

def previewReader : Reader Invocation where
  verb := previewVerb
  shared := [configOption]
  atTop := false

theorem finish_previewSheet {hours : Nat} (h : hours < 4294967296) :
    { previewReader with given := (previewSheet hours).given }.finish =
      .run ⟨none, .task (.preview hours)⟩ := by
  have hhours : (previewSheet hours).given.value? "hours" = some (toString hours) :=
    Sheet.value?_given (show (hoursOption, [toString hours]) ∈ _ from .head _)
  have hconfig : (previewSheet hours).given.value? "config" = none := by
    apply Sheet.value?_given_of_not_mem
    show "config" ∉ ["hours"]
    decide
  have hfits : (previewSheet hours).given.fits previewVerb.options 0 = true := by
    simp [Given.fits, previewVerb, taskVerb, verb, Verb.options, previewSheet, Sheet.given]
  simp only [previewVerb, taskVerb, verb, Verb.options] at hfits
  simp only [Reader.finish, previewReader, previewVerb, taskVerb, verb, hfits, if_true, hhours,
    hconfig, configOption, Option.bind_some, hours?_toString h]
  rfl

theorem request_previewWords {hours : Nat} (h : hours < 4294967296) :
    request (previewWords hours) = .run ⟨none, .task (.preview hours)⟩ := by
  have hfits : ∀ e ∈ (previewSheet hours).entries, ∀ v ∈ e.2, (Written.mk e.1 v).Fits := by
    intro e he v hv
    obtain rfl := List.mem_singleton.1 he
    obtain rfl := List.mem_singleton.1 hv
    refine ⟨?_, nofun⟩
    show (hours? (toString hours)).isSome = true
    rw [hours?_toString h, Option.isSome_some]
  have hread : request (previewWords hours) =
      previewReader.read ((previewSheet hours).row.map Written.text) := rfl
  rw [hread, Reader.read_sheet rfl rfl rfl (by decide) hfits]
  exact finish_previewSheet h

/-! ### What the command does -/

/-- What is printed is the list of the runs that are to come until some hours after a moment have
passed, each once and in order. -/
def Previews {φ : Type} (s : Service φ) (now : Instant) (hours : Nat) (output : String) : Prop :=
  ∃ (stop : Instant) (runs : List UpcomingRun), stop.seconds = now.seconds + 3600 * hours ∧
    runs.Pairwise UpcomingRun.Before ∧ (∀ run, run ∈ runs ↔ s.Upcoming now now stop run) ∧
    output = previewText hours runs

theorem previews_of_preview? {φ : Type} {s : Service φ}
    (hid : ∀ {k t}, s.tasks.get? k = some t → t.id = k) {now : Instant}
    (hyear : 0 ≤ now.date.year) {hours : Nat} {runs : List UpcomingRun}
    (h : s.preview? now now hours = some runs) : Previews s now hours (previewText hours runs) := by
  obtain ⟨stop, hstop, -⟩ := Option.bind_eq_some_iff.1 h
  refine ⟨stop, runs, (Instant.addHours?_eq_some_iff.1 hstop).1, Service.preview_pairwise hid h,
    fun run => ?_, rfl⟩
  exact Service.mem_preview_iff_upcoming hid (Cron.Pattern.searchable_of_year hyear) hstop h

theorem respond_preview {w : Surroundings} {m : Moment} {args : List String}
    {config : Option String} {c : Config} {hours : Nat}
    (hargs : request args = .run ⟨config, .task (.preview hours)⟩)
    (hc : configOf w ⟨config, .task (.preview hours)⟩ = .ok c) :
    respond w m args = .finish (.of w.files
      (((w.host c (.manual (.new m.now)) m).toService.preview? m.now m.now hours).elim
        (.error .beyondTime) fun runs => .ok (previewText hours runs))) := by
  let site : Site Cluster.Configured := ⟨.manual (.new m.now), w.files, w.clusters c⟩
  let options : Options := ⟨c.policy, c.historyLimit, .ofText c.storePath, w.process⟩
  obtain ⟨-, hfiles, -, -⟩ := Service.start_frame site 0 options m
  have hfiles : (w.host c (.manual (.new m.now)) m).files = w.files := hfiles
  simp only [respond, hargs, hc, perform, runTaskCommand, hfiles]
  cases (w.host c (.manual (.new m.now)) m).toService.preview? m.now m.now hours with
  | none => rfl
  | some runs => rfl

/-- A preview of any tasks can be made exactly if its hours end in the calendar, in the year 262142
or before. The command line takes the numbers of hours below 2 ^ 32, and no others. However it asks
for a preview, the command ends and no file has changed: if the hours end in the calendar, it prints
the runs to come until then, each once and in order, and otherwise it fails and prints nothing. From
each instant of the years 1970 to 9999, 2210240160 hours end in the calendar and no more; from some
of them, 2280629687 hours do and no more. -/
theorem preview_answers_iff (hours : Nat) :
    (∀ {φ : Type} (s : Service φ) (now : Instant),
        (∃ runs, s.preview? now now hours = some runs) ↔ now.yearAfter hours ≤ 262142) ∧
      ((∃ args config, request args = .run ⟨config, .task (.preview hours)⟩) ↔ hours < 2 ^ 32) ∧
      (∀ {w : Surroundings} {m : Moment} {args : List String} {config : Option String} {c : Config},
        request args = .run ⟨config, .task (.preview hours)⟩ →
        configOf w ⟨config, .task (.preview hours)⟩ = .ok c → 0 ≤ m.now.date.year →
        ∃ ending, respond w m args = .finish ending ∧ ending.files = w.files ∧
          (m.now.yearAfter hours ≤ 262142 → ending.code = 0 ∧
            Previews (w.host c (.manual (.new m.now)) m).toService m.now hours ending.output) ∧
          (262142 < m.now.yearAfter hours → ending.code = 101 ∧ ending.output = "")) ∧
      ((∀ now : Instant, 1970 ≤ now.date.year → now.date.year ≤ 9999 →
        now.yearAfter hours ≤ 262142) ↔ hours ≤ 2210240160) ∧
      ((∃ now : Instant, 1970 ≤ now.date.year ∧ now.date.year ≤ 9999 ∧
        now.yearAfter hours ≤ 262142) ↔ hours ≤ 2280629687) := by
  refine ⟨fun s now => Service.exists_preview?_iff,
    ⟨fun ⟨args, config, h⟩ => hours_lt_of_request h, fun h => ⟨_, _, request_previewWords h⟩⟩, ?_,
    Instant.forall_yearAfter_le_iff, Instant.exists_yearAfter_le_iff⟩
  intro w m args config c hargs hc hyear
  refine ⟨_, respond_preview hargs hc, ?_⟩
  have hs : Service.Mirrored (w.host c (.manual (.new m.now)) m).toService :=
    Service.mirrored_start ..
  generalize (w.host c (.manual (.new m.now)) m).toService = s at hs ⊢
  have hanswers : (∃ runs, s.preview? m.now m.now hours = some runs) ↔ _ :=
    Service.exists_preview?_iff
  cases hp : s.preview? m.now m.now hours with
  | some runs =>
    have hend := hanswers.1 ⟨runs, hp⟩
    exact ⟨rfl, fun _ => ⟨rfl, previews_of_preview? hs.id_eq hyear hp⟩, fun h => by omega⟩
  | none =>
    refine ⟨rfl, fun hend => ?_, fun _ => ⟨rfl, rfl⟩⟩
    obtain ⟨runs, hruns⟩ := hanswers.2 hend
    rw [hp] at hruns
    cases hruns

namespace Sample

/-- The last second of the year 9999. -/
def lastMoment : Moment where
  now := (Instant.ofParts? 253402300799 0).getD default

end Sample

/-- The largest number of hours that is safe at every clock ends with the calendar. -/
theorem preview_answers_iff_last : ∃ ending,
    respond Sample.surroundings Sample.lastMoment (previewWords 2210240160) = .finish ending ∧
      ending.code = 0 ∧
      Previews (Sample.surroundings.host {} (.manual (.new Sample.lastMoment.now))
        Sample.lastMoment).toService Sample.lastMoment.now 2210240160 ending.output := by
  obtain ⟨-, -, hcommand, -, -⟩ := preview_answers_iff 2210240160
  have hargs : request (previewWords 2210240160) = _ := request_previewWords (by decide)
  obtain ⟨ending, hending, -, hanswers, -⟩ := hcommand (w := Sample.surroundings)
    (m := Sample.lastMoment) (c := {}) hargs rfl (by decide +kernel)
  exact ⟨ending, hending, hanswers (by decide +kernel)⟩

namespace Sample

def bare : Surroundings :=
  { surroundings with files := .blank }

end Sample

/-- The largest number of hours that can be asked for ends beyond the calendar in the year 2024, and
not even the empty list of runs is printed. -/
theorem preview_overflows :
    request ["task", "dry-run", "--hours=4294967295"] =
        .run ⟨none, .task (.preview 4294967295)⟩ ∧
      Sample.moment.now.date.year = 2024 ∧
      (Sample.bare.host {} (.manual (.new Sample.moment.now)) Sample.moment).toService.preview?
        Sample.moment.now Sample.moment.now 4294967295 = none ∧
      ∃ ending, respond Sample.bare Sample.moment ["task", "dry-run", "--hours=4294967295"] =
        .finish ending ∧ ending.code = 101 ∧ ending.output = "" := by
  have hargs : request ["task", "dry-run", "--hours=4294967295"] = _ :=
    request_previewWords (show 4294967295 < 4294967296 by decide)
  have hnone : (Sample.bare.host {} (.manual (.new Sample.moment.now))
      Sample.moment).toService.preview? Sample.moment.now Sample.moment.now 4294967295 = none := by
    rw [Option.eq_none_iff_forall_ne_some]
    intro runs hruns
    have hend := Service.exists_preview?_iff.1 ⟨runs, hruns⟩
    revert hend
    decide +kernel
  refine ⟨hargs, by decide +kernel, hnone, _, respond_preview hargs (c := {}) rfl, ?_⟩
  rw [hnone]
  exact ⟨rfl, rfl⟩

end Cli
end Snapshots
