import RagFlow.Sync.Polling

/-!
# What incremental sync covers

While a run is in progress, a version that was reported is ingested, still to come in a batch, or
in a failed batch.  When no failed batch is left, all that was reported is ingested at the end of the
run, wherever the next window starts.
-/

namespace RagFlow.Sync

open Lib

section Logs

variable {selected : SyncLog → Bool} {change : SyncLog → SyncLog} {logs : List SyncLog}
  {log : SyncLog}

theorem mem_touch : log ∈ touch selected change logs ↔
    (∃ old ∈ logs, selected old = true ∧ change old = log) ∨
      (log ∈ logs ∧ selected log = false) := by
  simp [touch, and_assoc]

theorem head?_touch_of_mem {old : SyncLog} (stored : old ∈ logs) (hit : selected old = true)
    (latest : (touch selected change logs).head? = some log) :
    ∃ old ∈ logs, selected old = true ∧ change old = log := by
  rw [touch, List.head?_append] at latest
  cases touched : (logs.filter selected).map change with
  | nil =>
    have none_selected := List.filter_eq_nil_iff.mp (List.map_eq_nil_iff.mp touched)
    exact absurd hit (none_selected old stored)
  | cons first rest =>
    rw [touched] at latest
    have found : log ∈ (logs.filter selected).map change := by
      rw [touched]
      cases latest
      exact List.mem_cons_self
    obtain ⟨before, inLogs, same⟩ := List.mem_map.mp found
    exact ⟨before, (List.mem_filter.mp inLogs).1, (List.mem_filter.mp inLogs).2, same⟩

theorem head?_touch (latest : (touch selected change logs).head? = some log) :
    (∃ old ∈ logs, selected old = true ∧ change old = log) ∨ logs.head? = some log := by
  by_cases touched : ∃ old ∈ logs, selected old = true
  · obtain ⟨old, stored, hit⟩ := touched
    exact .inl (head?_touch_of_mem stored hit latest)
  · have none_selected : logs.filter selected = [] :=
      List.filter_eq_nil_iff.mpr fun old stored hit => touched ⟨old, stored, hit⟩
    have untouched : logs.filter (fun log => !selected log) = logs := by
      apply List.filter_eq_self.mpr
      intro old stored
      cases hit : selected old with
      | true => exact absurd ⟨old, stored, hit⟩ touched
      | false => rfl
    rw [touch, none_selected, untouched] at latest
    exact .inr latest

theorem mem_setStatus {id : Nat} {status : TaskStatus} (stored : log ∈ setStatus id status logs) :
    (log.id = id ∧ log.status = status) ∨ (log ∈ logs ∧ log.id ≠ id) := by
  rcases mem_touch.mp stored with ⟨old, -, hit, rfl⟩ | ⟨before, other⟩
  · exact .inl ⟨of_decide_eq_true hit, rfl⟩
  · exact .inr ⟨before, of_decide_eq_false other⟩

theorem id_setStatus {id : Nat} {status : TaskStatus} (stored : log ∈ setStatus id status logs) :
    ∃ old ∈ logs, old.id = log.id := by
  rcases mem_touch.mp stored with ⟨old, before, -, rfl⟩ | ⟨before, -⟩
  · exact ⟨old, before, rfl⟩
  · exact ⟨log, before, rfl⟩

end Logs

theorem inWindow_iff {pollRangeStart : Option Nat} {now : Nat} {version : Version} :
    inWindow pollRangeStart now version = true ↔
      (∀ start, pollRangeStart = some start → start < version.updatedAt) ∧
        version.updatedAt ≤ now := by
  cases pollRangeStart with
  | none => simp [inWindow]
  | some start => simp [inWindow]

structure RunSound (state : SyncState) (run : SyncRun) : Prop where
  known : run.logId < state.nextId
  own : ∀ log ∈ state.logs, log.id = run.logId → log.status ≠ .schedule
  notDone : run.ended = false → ∀ log ∈ state.logs,
    log.id = run.logId ∨ state.logs.head? = some log → log.status ≠ .done
  fromStart : run.ended = false → ∀ log ∈ state.logs, log.status = .schedule →
    log.pollRangeStart = none
  pending : run.ended = false → ∀ version, Missed state version →
    version ∈ run.batches.flatten ∨ version ∈ run.failedDocs
  ended : run.ended = true → ∀ version, ¬Missed state version
  drained : run.ended = true → run.batches = []

structure Sound (state : SyncState) : Prop where
  current : ∀ version, Missed state version → version ∈ state.source
  times : ∀ version ∈ state.source, version.updatedAt ≤ state.now
  ids : ∀ log ∈ state.logs, log.id < state.nextId
  one : ∀ first ∈ state.logs, ∀ second ∈ state.logs, first.status = .schedule →
    second.status = .schedule → first.id = second.id
  scheduled : state.run = none → ∀ log ∈ state.logs, log.status = .schedule →
    ∀ start, log.pollRangeStart = some start → Covered state start
  latest : ∀ log, state.logs.head? = some log → log.status = .done →
    ∀ version, ¬Missed state version
  running : ∀ run, state.run = some run → RunSound state run

theorem covered_of_none_missed {state : SyncState} (none_missed : ∀ version, ¬Missed state version)
    (start : Nat) : Covered state start := by
  intro version reported _
  by_contra notIngested
  exact none_missed version ⟨reported, notIngested⟩

theorem Sound.skipsNothing {state : SyncState} (sound : Sound state) : SkipsNothing state where
  done run current ended :=
    covered_of_none_missed ((sound.running run current).ended ended) run.nextUpdate
  scheduled := sound.scheduled

theorem sound_linked : Sound linked where
  current version missed := absurd missed.1 List.not_mem_nil
  times version stored := absurd stored List.not_mem_nil
  ids log stored := by
    rw [List.mem_singleton.mp stored]
    exact Nat.zero_lt_one
  one first inFirst second inSecond _ _ := by
    rw [List.mem_singleton.mp inFirst, List.mem_singleton.mp inSecond]
  scheduled _ log stored _ start starts := by
    rw [List.mem_singleton.mp stored] at starts
    cases starts
  latest log latest done := by
    cases latest
    cases done
  running run current := by cases current

variable {state : SyncState}

theorem Sound.of_source (sound : Sound state) {now : Nat} {source : List Version}
    (current : ∀ version, Missed state version → version ∈ source)
    (times : ∀ version ∈ source, version.updatedAt ≤ now) :
    Sound { state with now := now, source := source } where
  current := current
  times := times
  ids := sound.ids
  one := sound.one
  scheduled := sound.scheduled
  latest := sound.latest
  running run inProgress := by
    obtain ⟨known, own, notDone, fromStart, pending, ended, drained⟩ := sound.running run inProgress
    exact ⟨known, own, notDone, fromStart, pending, ended, drained⟩

theorem sound_publish (sound : Sound state) {doc advance : Nat}
    (safe : Safe state (.publish doc advance)) :
    Sound (syncStep state (.publish doc advance)) := by
  apply sound.of_source
  · intro version missed
    apply List.mem_cons_of_mem
    rw [List.mem_filter, decide_eq_true_iff]
    exact ⟨sound.current version missed, safe version missed.1 missed.2⟩
  · intro version stored
    rcases List.mem_cons.mp stored with rfl | before
    · exact Nat.le_refl _
    · exact Nat.le_trans (sound.times version (List.mem_filter.mp before).1) (Nat.le_add_right _ _)

theorem sound_remove (sound : Sound state) {doc : Nat} (safe : Safe state (.remove doc)) :
    Sound (syncStep state (.remove doc)) := by
  apply sound.of_source
  · intro version missed
    rw [List.mem_filter, decide_eq_true_iff]
    exact ⟨sound.current version missed, safe version missed.1 missed.2⟩
  · exact fun version stored => sound.times version (List.mem_filter.mp stored).1

theorem sound_schedule (sound : Sound state) {pollRangeStart : Option Nat}
    (covers : ∀ start, pollRangeStart = some start → ∀ version, ¬Missed state version)
    (fromStart : ∀ run, state.run = some run → run.ended = false → pollRangeStart = none) :
    Sound (schedule pollRangeStart state) := by
  rw [schedule]
  by_cases waits : (state.logs.any fun log => log.status = .schedule) = true
  · rw [if_pos waits]
    exact sound
  rw [if_neg waits]
  have none_scheduled : ∀ log ∈ state.logs, log.status ≠ .schedule := by
    intro log stored scheduled
    exact waits (List.any_eq_true.mpr ⟨log, stored, decide_eq_true scheduled⟩)
  constructor
  · exact sound.current
  · exact sound.times
  · intro log stored
    rcases List.mem_cons.mp stored with rfl | before
    · exact Nat.lt_succ_self _
    · exact Nat.lt_succ_of_lt (sound.ids log before)
  · intro first inFirst second inSecond firstScheduled secondScheduled
    rcases List.mem_cons.mp inFirst with rfl | before
    · rcases List.mem_cons.mp inSecond with rfl | other
      · rfl
      · exact absurd secondScheduled (none_scheduled second other)
    · exact absurd firstScheduled (none_scheduled first before)
  · intro idle log stored scheduled start starts
    rcases List.mem_cons.mp stored with rfl | before
    · exact covered_of_none_missed (covers start starts) start
    · exact absurd scheduled (none_scheduled log before)
  · intro log latest done
    cases latest
    cases done
  · intro run inProgress
    obtain ⟨known, own, notDone, -, pending, ended, drained⟩ := sound.running run inProgress
    constructor
    · exact Nat.lt_succ_of_lt known
    · intro log stored isOwn
      rcases List.mem_cons.mp stored with rfl | before
      · exact absurd isOwn (Nat.ne_of_gt known)
      · exact own log before isOwn
    · intro open_ log stored place
      rcases List.mem_cons.mp stored with rfl | before
      · exact TaskStatus.noConfusion
      · rcases place with isOwn | latest
        · exact notDone open_ log before (.inl isOwn)
        · cases latest
          exact TaskStatus.noConfusion
    · intro open_ log stored scheduled
      rcases List.mem_cons.mp stored with rfl | before
      · exact fromStart run inProgress open_
      · exact absurd scheduled (none_scheduled log before)
    · exact pending
    · exact ended
    · exact drained

theorem sound_dispatch (sound : Sound state) (batches : List (List Version)) :
    Sound (dispatch batches state) := by
  rw [dispatch]
  cases idle : state.run with
  | some run => exact sound
  | none =>
    cases found : state.logs.find? fun log => log.status = .schedule with
    | none => exact sound
    | some log =>
      have scheduled : log.status = .schedule := by simpa using List.find?_some found
      have stored : log ∈ state.logs := List.mem_of_find?_eq_some found
      dsimp only
      by_cases polled : batches.flatten.Perm
          (state.source.filter (inWindow log.pollRangeStart state.now))
      · rw [if_pos polled]
        have none_scheduled : ∀ other ∈ setStatus log.id .running state.logs,
            other.status ≠ .schedule := by
          intro other inLogs
          rcases mem_setStatus inLogs with ⟨-, running⟩ | ⟨before, differs⟩
          · rw [running]
            exact TaskStatus.noConfusion
          · intro otherScheduled
            exact differs (sound.one other before log stored otherScheduled scheduled)
        have reached : ∀ version, Missed state version → version ∈ batches.flatten := by
          intro version missed
          apply polled.symm.subset
          have atSource := sound.current version missed
          rw [List.mem_filter, inWindow_iff]
          refine ⟨atSource, fun start starts => ?_, sound.times version atSource⟩
          by_contra early
          exact missed.2 (sound.scheduled idle log stored scheduled start starts version
            missed.1 (Nat.le_of_not_lt early))
        constructor
        · exact sound.current
        · exact sound.times
        · intro other inLogs
          obtain ⟨old, before, same⟩ := id_setStatus inLogs
          exact same ▸ sound.ids old before
        · intro first inFirst second _ firstScheduled _
          exact absurd firstScheduled (none_scheduled first inFirst)
        · intro never
          cases never
        · intro other latest done
          rcases head?_touch latest with ⟨old, -, -, rfl⟩ | before
          · cases done
          · exact sound.latest other before done
        · intro run inProgress
          cases inProgress
          constructor
          · exact sound.ids log stored
          · exact fun other inLogs _ => none_scheduled other inLogs
          · intro _ other inLogs place
            rcases mem_setStatus inLogs with ⟨-, running⟩ | ⟨before, differs⟩
            · rw [running]
              exact TaskStatus.noConfusion
            · rcases place with isOwn | latest
              · exact absurd isOwn differs
              · obtain ⟨old, -, hit, same⟩ :=
                  head?_touch_of_mem stored (decide_eq_true rfl) latest
                exact absurd (same ▸ of_decide_eq_true hit) differs
          · exact fun _ other inLogs otherScheduled =>
              absurd otherScheduled (none_scheduled other inLogs)
          · exact fun _ version missed => .inl (reached version missed)
          · intro ended
            cases ended
          · intro ended
            cases ended
      · rw [if_neg polled]
        exact sound

/-- What a batch changes: the versions reported and ingested, the log of the run, and the run. -/
structure BatchTaken (state next : SyncState) (run later : SyncRun) : Prop where
  now : next.now = state.now
  source : next.source = state.source
  nextId : next.nextId = state.nextId
  inProgress : next.run = some later
  logId : later.logId = run.logId
  ended : later.ended = run.ended
  logs : next.logs = state.logs ∨ ∃ maxUpdate, next.logs = increaseDocs run.logId maxUpdate state.logs
  missed : ∀ version, Missed next version →
    (version ∈ later.batches.flatten ∨ version ∈ later.failedDocs) ∧ version ∈ state.source

theorem sound_of_batchTaken (sound : Sound state) {next : SyncState} {run later : SyncRun}
    (current : state.run = some run) (open_ : run.ended = false)
    (taken : BatchTaken state next run later) : Sound next := by
  obtain ⟨now, source, nextId, inProgress, logId, ended, logs, missed⟩ := taken
  have runSound := sound.running run current
  -- A log of the next state is one of the state before, with the same id and status.
  have origin : ∀ log ∈ next.logs, ∃ old ∈ state.logs, old.id = log.id ∧ old.status = log.status ∧
      (log.id ≠ run.logId → old = log) := by
    intro log stored
    rcases logs with same | ⟨maxUpdate, increased⟩
    · exact ⟨log, same ▸ stored, rfl, rfl, fun _ => rfl⟩
    · rw [increased] at stored
      rcases mem_touch.mp stored with ⟨old, before, hit, rfl⟩ | ⟨before, -⟩
      · exact ⟨old, before, rfl, rfl, fun differs => absurd (of_decide_eq_true hit) differs⟩
      · exact ⟨log, before, rfl, rfl, fun _ => rfl⟩
  have lastOrigin : ∀ log, next.logs.head? = some log →
      log.id = run.logId ∨ state.logs.head? = some log := by
    intro log latest
    rcases logs with same | ⟨maxUpdate, increased⟩
    · exact .inr (same ▸ latest)
    · rw [increased] at latest
      rcases head?_touch latest with ⟨old, -, hit, rfl⟩ | before
      · exact .inl (of_decide_eq_true hit)
      · exact .inr before
  have notDone : ∀ log ∈ next.logs, log.id = run.logId ∨ next.logs.head? = some log →
      log.status ≠ .done := by
    intro log stored place
    obtain ⟨old, before, sameId, sameStatus, same⟩ := origin log stored
    rw [← sameStatus]
    apply runSound.notDone open_ old before
    by_cases isOwn : log.id = run.logId
    · exact .inl (sameId.trans isOwn)
    · have latest := (lastOrigin log (place.resolve_left isOwn)).resolve_left isOwn
      exact .inr ((same isOwn).symm ▸ latest)
  constructor
  · intro version isMissed
    rw [source]
    exact (missed version isMissed).2
  · rw [source, now]
    exact sound.times
  · intro log stored
    obtain ⟨old, before, sameId, -⟩ := origin log stored
    rw [nextId, ← sameId]
    exact sound.ids old before
  · intro first inFirst second inSecond firstScheduled secondScheduled
    obtain ⟨old, before, sameId, sameStatus, -⟩ := origin first inFirst
    obtain ⟨other, beforeOther, otherId, otherStatus, -⟩ := origin second inSecond
    rw [← sameId, ← otherId]
    exact sound.one old before other beforeOther (sameStatus.trans firstScheduled)
      (otherStatus.trans secondScheduled)
  · intro idle
    rw [inProgress] at idle
    cases idle
  · intro log latest done
    exact absurd done (notDone log (List.mem_of_mem_head? latest) (.inr latest))
  · intro other otherRun
    obtain rfl : later = other := Option.some.inj (inProgress.symm.trans otherRun)
    constructor
    · rw [logId, nextId]
      exact runSound.known
    · intro log stored isOwn
      obtain ⟨old, before, sameId, sameStatus, -⟩ := origin log stored
      rw [← sameStatus]
      exact runSound.own old before (sameId.trans (isOwn.trans logId))
    · intro _ log stored place
      exact notDone log stored (place.imp_left fun isOwn => isOwn.trans logId)
    · intro _ log stored scheduled
      obtain ⟨old, before, sameId, sameStatus, same⟩ := origin log stored
      have oldScheduled := sameStatus.trans scheduled
      have notOwn : log.id ≠ run.logId := fun isOwn =>
        runSound.own old before (sameId.trans isOwn) oldScheduled
      rw [← same notOwn]
      exact runSound.fromStart open_ old before oldScheduled
    · exact fun _ version isMissed => (missed version isMissed).1
    · intro isEnded
      rw [ended, open_] at isEnded
      cases isEnded
    · intro isEnded
      rw [ended, open_] at isEnded
      cases isEnded

theorem missed_of_ingested {batch : List Version} {version : Version}
    (reported : version ∈ state.reported ++ batch)
    (notIngested : version ∉ state.ingested ++ batch) :
    Missed state version ∧ version ∉ batch := by
  rw [List.mem_append, not_or] at notIngested
  exact ⟨⟨(List.mem_append.mp reported).resolve_right notIngested.2, notIngested.1⟩, notIngested.2⟩

theorem sound_takeBatch (sound : Sound state) {outcome : Outcome}
    (safe : Safe state (.batch outcome)) : Sound (takeBatch outcome state) := by
  rw [takeBatch]
  cases current : state.run with
  | none => exact sound
  | some run =>
    cases batches : run.batches with
    | nil => simpa only [batches] using sound
    | cons batch rest =>
      have runSound := sound.running run current
      have open_ : run.ended = false := by
        cases ended : run.ended with
        | false => rfl
        | true =>
          rw [runSound.drained ended] at batches
          cases batches
      -- What was missed before is in this batch, in a later one, or failed.
      have before : ∀ version, Missed state version →
          version ∈ batch ∨ version ∈ rest.flatten ∨ version ∈ run.failedDocs := by
        intro version missed
        have pending := runSound.pending open_ version missed
        rw [batches, List.flatten_cons, List.mem_append, or_assoc] at pending
        exact pending
      simp only [batches]
      cases batch with
      | nil =>
        apply sound_of_batchTaken sound current open_
        refine ⟨rfl, rfl, rfl, rfl, rfl, rfl, .inl rfl, fun version missed => ?_⟩
        have same : Missed state version := by simpa [Missed] using missed
        exact ⟨(before version same).resolve_left List.not_mem_nil,
          sound.current version same⟩
      | cons first others =>
        cases outcome with
        | raised =>
          apply sound_of_batchTaken sound current open_
          refine ⟨rfl, rfl, rfl, rfl, rfl, rfl, .inl rfl, fun version missed => ?_⟩
          obtain ⟨reported, notIngested⟩ := missed
          rcases List.mem_append.mp reported with earlier | inBatch
          · have same : Missed state version := ⟨earlier, notIngested⟩
            refine ⟨?_, sound.current version same⟩
            rcases before version same with here | later | failed
            · exact .inr (List.mem_append_right _ here)
            · exact .inl later
            · exact .inr (List.mem_append_left _ failed)
          · have atSource := safe run current (first :: others) (by simp [batches]) version
              inBatch
            exact ⟨.inr (List.mem_append_right _ inBatch),
              atSource.resolve_left notIngested⟩
        | uncounted =>
          apply sound_of_batchTaken sound current open_
          refine ⟨rfl, rfl, rfl, rfl, rfl, rfl, .inl rfl, fun version missed => ?_⟩
          have same := missed_of_ingested missed.1 missed.2
          refine ⟨?_, sound.current version same.1⟩
          rcases before version same.1 with here | later | failed
          · exact absurd here same.2
          · exact .inl later
          · exact .inr (List.mem_append_left _ failed)
        | counted =>
          apply sound_of_batchTaken sound current open_
          refine ⟨rfl, rfl, rfl, rfl, rfl, rfl, .inr ⟨_, rfl⟩, fun version missed => ?_⟩
          have same := missed_of_ingested missed.1 missed.2
          refine ⟨?_, sound.current version same.1⟩
          exact (before version same.1).resolve_left same.2

theorem sound_finish (sound : Sound state) (safe : Safe state .finish) : Sound (finish state) := by
  rw [finish]
  cases current : state.run with
  | none => exact sound
  | some run =>
    dsimp only
    by_cases exhausted : run.batches = []
    · rw [if_pos exhausted]
      have runSound := sound.running run current
      have none_missed : ∀ version, ¬Missed state version := by
        intro version missed
        cases ended : run.ended with
        | true => exact runSound.ended ended version missed
        | false =>
          rcases runSound.pending ended version missed with coming | failed
          · rw [exhausted] at coming
            cases coming
          · exact missed.2 (safe run current exhausted version failed)
      constructor
      · exact sound.current
      · exact sound.times
      · intro log stored
        obtain ⟨old, before, same⟩ := id_setStatus stored
        exact same ▸ sound.ids old before
      · intro first inFirst second inSecond firstScheduled secondScheduled
        rcases mem_setStatus inFirst with ⟨-, done⟩ | ⟨before, -⟩
        · rw [done] at firstScheduled
          cases firstScheduled
        · rcases mem_setStatus inSecond with ⟨-, done⟩ | ⟨other, -⟩
          · rw [done] at secondScheduled
            cases secondScheduled
          · exact sound.one first before second other firstScheduled secondScheduled
      · intro idle
        cases idle
      · exact fun _ _ _ => none_missed
      · intro other otherRun
        cases otherRun
        constructor
        · exact runSound.known
        · intro log stored isOwn
          rcases mem_setStatus stored with ⟨-, done⟩ | ⟨before, differs⟩
          · rw [done]
            exact TaskStatus.noConfusion
          · exact absurd isOwn differs
        · intro open_
          cases open_
        · intro open_
          cases open_
        · intro open_
          cases open_
        · exact fun _ => none_missed
        · exact fun _ => exhausted
    · rw [if_neg exhausted]
      exact sound

theorem sound_withoutRun (sound : Sound state) {run : SyncRun} (current : state.run = some run) :
    Sound { state with run := none } where
  current := sound.current
  times := sound.times
  ids := sound.ids
  one := sound.one
  scheduled _ log stored scheduled start starts := by
    have runSound := sound.running run current
    cases ended : run.ended with
    | true => exact covered_of_none_missed (runSound.ended ended) start
    | false =>
      rw [runSound.fromStart ended log stored scheduled] at starts
      cases starts
  latest := sound.latest
  running _ never := by cases never

theorem sound_reschedule (sound : Sound state) : Sound (reschedule state) := by
  rw [reschedule]
  cases current : state.run with
  | none => exact sound
  | some run =>
    dsimp only
    by_cases ended : run.ended = true
    · rw [if_pos ended]
      apply sound_schedule (sound_withoutRun sound current)
      · exact fun _ _ => (sound.running run current).ended ended
      · intro other never
        cases never
    · rw [if_neg ended]
      exact sound

theorem sound_abort (sound : Sound state) : Sound (abort state) := by
  rw [abort]
  cases current : state.run with
  | none => exact sound
  | some run =>
    have idle := sound_withoutRun sound current
    constructor
    · exact sound.current
    · exact sound.times
    · intro log stored
      obtain ⟨old, before, same⟩ := id_setStatus stored
      exact same ▸ sound.ids old before
    · intro first inFirst second inSecond firstScheduled secondScheduled
      rcases mem_setStatus inFirst with ⟨-, failed⟩ | ⟨before, -⟩
      · rw [failed] at firstScheduled
        cases firstScheduled
      · rcases mem_setStatus inSecond with ⟨-, failed⟩ | ⟨other, -⟩
        · rw [failed] at secondScheduled
          cases secondScheduled
        · exact sound.one first before second other firstScheduled secondScheduled
    · intro _ log stored scheduled
      rcases mem_setStatus stored with ⟨-, failed⟩ | ⟨before, -⟩
      · rw [failed] at scheduled
        cases scheduled
      · exact idle.scheduled rfl log before scheduled
    · intro log latest done
      rcases head?_touch latest with ⟨old, -, -, rfl⟩ | before
      · cases done
      · exact sound.latest log before done
    · intro other never
      cases never

theorem sound_scheduleTasks (sound : Sound state) : Sound (scheduleTasks state) := by
  rw [scheduleTasks]
  cases latest : state.logs.head? with
  | none =>
    apply sound_schedule sound
    · intro start starts
      cases starts
    · exact fun _ _ _ => rfl
  | some log =>
    dsimp only
    by_cases done : log.status = .done
    · rw [if_pos done]
      apply sound_schedule sound
      · exact fun _ _ => sound.latest log latest done
      · intro run current open_
        have stored : log ∈ state.logs := List.mem_of_mem_head? latest
        exact absurd done ((sound.running run current).notDone open_ log stored (.inr latest))
    · rw [if_neg done]
      apply sound_schedule sound
      · intro start starts
        cases starts
      · exact fun _ _ _ => rfl

theorem sound_cancelTasks (sound : Sound state) : Sound (cancelTasks state) := by
  -- A log of the next state is cancelled, or is one of the state before that was not scheduled.
  have origin : ∀ log ∈ (cancelTasks state).logs,
      (log.status = .cancel ∧ ∃ old ∈ state.logs, old.id = log.id) ∨
        (log ∈ state.logs ∧ log.status ≠ .schedule) := by
    intro log stored
    rcases mem_touch.mp stored with ⟨old, before, -, rfl⟩ | ⟨before, other⟩
    · exact .inl ⟨rfl, old, before, rfl⟩
    · exact .inr ⟨before, of_decide_eq_false (Bool.or_eq_false_iff.mp other).1⟩
  have none_scheduled : ∀ log ∈ (cancelTasks state).logs, log.status ≠ .schedule := by
    intro log stored
    rcases origin log stored with ⟨cancelled, -⟩ | ⟨-, other⟩
    · rw [cancelled]
      exact TaskStatus.noConfusion
    · exact other
  constructor
  · exact sound.current
  · exact sound.times
  · intro log stored
    rcases origin log stored with ⟨-, old, before, same⟩ | ⟨before, -⟩
    · exact same ▸ sound.ids old before
    · exact sound.ids log before
  · exact fun first inFirst _ _ scheduled => absurd scheduled (none_scheduled first inFirst)
  · exact fun _ log stored scheduled => absurd scheduled (none_scheduled log stored)
  · intro log latest done
    rcases head?_touch latest with ⟨old, -, -, rfl⟩ | before
    · cases done
    · exact sound.latest log before done
  · intro run inProgress
    have runSound := sound.running run inProgress
    constructor
    · exact runSound.known
    · exact fun log stored _ => none_scheduled log stored
    · intro open_ log stored place
      rcases mem_touch.mp stored with ⟨old, -, -, rfl⟩ | ⟨before, other⟩
      · exact TaskStatus.noConfusion
      · rcases place with isOwn | latest
        · exact runSound.notDone open_ log before (.inl isOwn)
        · rcases head?_touch latest with ⟨old, -, -, rfl⟩ | unchanged
          · exact TaskStatus.noConfusion
          · exact runSound.notDone open_ log before (.inr unchanged)
    · exact fun _ log stored scheduled => absurd scheduled (none_scheduled log stored)
    · exact runSound.pending
    · exact runSound.ended
    · exact runSound.drained

theorem sound_step {move : SyncMove} (safe : Safe state move) (sound : Sound state) :
    Sound (syncStep state move) := by
  cases move with
  | publish doc advance => exact sound_publish sound safe
  | remove doc => exact sound_remove sound safe
  | dispatch batches => exact sound_dispatch sound batches
  | batch outcome => exact sound_takeBatch sound safe
  | finish => exact sound_finish sound safe
  | reschedule => exact sound_reschedule sound
  | abort => exact sound_abort sound
  | scheduleTasks => exact sound_scheduleTasks sound
  | cancelTasks => exact sound_cancelTasks sound

/-- In all states of a run in which no failed batch and no change at the source loses a version that
was reported, the windows leave nothing out. -/
theorem skipsNothing_along (moves : List SyncMove) (safe : Runs.Along syncStep Safe linked moves) :
    ∀ before, before <+: moves → SkipsNothing (Runs.run syncStep linked before) := by
  rintro before ⟨after, rfl⟩
  have earlier : Runs.Along syncStep Safe linked before := by
    intro first move rest parts
    apply safe first move (rest ++ after)
    rw [parts, List.append_assoc, List.cons_append]
  exact (Runs.invariant_along sound_linked (fun state move => @sound_step state move)
    earlier).skipsNothing

theorem skipsNothing_twoRuns :
    SkipsNothing (Runs.run syncStep linked
      [.publish 1 5, .dispatch [[⟨1, 5⟩]], .batch .counted, .finish, .reschedule,
        .publish 2 3, .dispatch [[⟨2, 8⟩]], .batch .uncounted, .finish, .reschedule]) :=
  skipsNothing_along _ (by decide) _ List.prefix_rfl

/-- The first of two batches fails and the second is ingested: the run is done, and the next window
starts behind the documents of both. -/
theorem not_skipsNothing :
    ¬∀ before, before <+: [.publish 1 5, .publish 2 3, .dispatch [[⟨1, 5⟩], [⟨2, 8⟩]],
        .batch .raised, .batch .counted, .finish, .reschedule] →
      SkipsNothing (Runs.run syncStep linked before) := by
  intro skips
  have covered := (skips _ List.prefix_rfl).scheduled rfl ⟨1, .schedule, some 8, none⟩ (by decide) rfl
    8 rfl
  exact absurd (covered ⟨1, 5⟩ (by decide) (by decide)) (by decide)

end RagFlow.Sync
