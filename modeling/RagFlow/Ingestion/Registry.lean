import RagFlow.Ingestion.System

/-!
# The registry of ingestors

`ingestionServers` refers to the live stream on which an ingestor has registered, as long as the
manager handles the end of a stream and the messages of the next one in an order that its code
allows for.
-/

namespace RagFlow.Ingestion

open RagFlow.Lib

/-- The entry of an ingestor is its live stream with a registration, and never a stream whose end
the manager has seen. -/
structure Accurate (system : System) : Prop where
  alive : system.manager.crashed = false
  refers : ∀ id state, system.manager.ingestionServers.get? id = some state →
    (system.streams state.stream).ingestor = id ∧
      (system.streams state.stream).registered = true ∧
      (system.streams state.stream).noticed = false
  present : ∀ id, (system.streams id).live = true → (system.streams id).registered = true →
    ∃ state, system.manager.ingestionServers.get? (system.streams id).ingestor = some state ∧
      state.stream = id

def ListsReports (system : System) : Move → Prop
  | .receives id => ∀ info rest, (system.streams id).toManager = .heartbeat info :: rest →
      ∀ report ∈ info.taskStates, ∃ state,
        (system.step (.receives id)).manager.taskStates.get? report.taskId = some state ∧
          state.status = report.status ∧ state.assignTo = some (system.streams id).ingestor
  | _ => True

def Replaceable (system : System) (id : StreamId) : Prop :=
  ∀ state, system.manager.ingestionServers.get? (system.streams id).ingestor = some state →
    state.stream = id ∨ (system.streams state.stream).live = false

/-- A heartbeat is preceded by a registration, the entry it made is still there, and the manager
knows all tasks of the heartbeat. -/
structure Expected (system : System) (id : StreamId) (info : Heartbeat) : Prop where
  registered : info.taskStates ≠ [] → (system.streams id).registered = true
  entry : (system.streams id).registered = true →
    system.manager.ingestionServers.get? (system.streams id).ingestor ≠ none
  known : ∀ report ∈ info.taskStates,
    report.taskId ∈ (deleteTasks system.manager.taskStates info.deleteTaskIds).keys

def Timely (system : System) : Move → Prop
  | .receives id =>
    match (system.streams id).toManager with
    | .register :: _ => (system.streams id).noticed = false ∧ Replaceable system id
    | .heartbeat info :: _ => Expected system id info
    | _ => True
  | .notices id => (system.streams id).registered = true → (system.streams id).live = false →
      (system.streams id).noticed = false → Replaceable system id
  | _ => True

variable {system : System}

theorem expected_iff {id : StreamId} {info : Heartbeat} : Expected system id info ↔
    (info.taskStates ≠ [] → (system.streams id).registered = true) ∧
      ((system.streams id).registered = true →
        system.manager.ingestionServers.get? (system.streams id).ingestor ≠ none) ∧
      ∀ report ∈ info.taskStates,
        report.taskId ∈ (deleteTasks system.manager.taskStates info.deleteTaskIds).keys :=
  ⟨fun expected => ⟨expected.registered, expected.entry, expected.known⟩,
    fun ⟨registered, entry, known⟩ => ⟨registered, entry, known⟩⟩

instance (id : StreamId) : Decidable (Replaceable system id) :=
  inferInstanceAs (Decidable (∀ state ∈ system.manager.ingestionServers.get?
    (system.streams id).ingestor, state.stream = id ∨ (system.streams state.stream).live = false))

instance (id : StreamId) (info : Heartbeat) : Decidable (Expected system id info) :=
  decidable_of_iff
    ((info.taskStates.isEmpty = false → (system.streams id).registered = true) ∧
      ((system.streams id).registered = true →
        (system.manager.ingestionServers.get? (system.streams id).ingestor).isSome = true) ∧
      ∀ report ∈ info.taskStates,
        report.taskId ∈ (deleteTasks system.manager.taskStates info.deleteTaskIds).keys)
    (by simp only [expected_iff, List.isEmpty_eq_false_iff, Option.isSome_iff_ne_none])

instance : DecidableRel Timely := fun system move => by
  unfold Timely
  split
  · split <;> infer_instance
  · infer_instance
  · infer_instance

/-- A live stream is the current one of its ingestor. -/
structure Streaming (system : System) : Prop where
  current : ∀ id, (system.streams id).live = true →
    (system.ingestors (system.streams id).ingestor).stream = some id
  unopened : ∀ id, system.opened ≤ id → system.streams id = .unopened

theorem streaming_start (maxConcurrency : IngestorId → Nat) :
    Streaming (start maxConcurrency) where
  current id live := absurd live (by simp [start, Stream.unopened])
  unopened id _ := rfl

theorem Streaming.lt_opened (streaming : Streaming system) {id : StreamId}
    (live : (system.streams id).live = true) : id < system.opened := by
  by_contra unopened
  rw [streaming.unopened id (Nat.le_of_not_lt unopened)] at live
  cases live

theorem Streaming.of_manager (streaming : Streaming system) (manager : Manager) :
    Streaming { system with manager } :=
  ⟨streaming.current, streaming.unopened⟩

theorem Streaming.setStream (streaming : Streaming system) {id : StreamId} {stream : Stream}
    (sameIngestor : stream.ingestor = (system.streams id).ingestor)
    (wasLive : stream.live = true → (system.streams id).live = true)
    (same : system.opened ≤ id → stream = system.streams id) :
    Streaming (system.setStream id stream) := by
  constructor
  · intro other live
    by_cases isId : other = id
    · subst isId
      simp only [System.setStream, Function.update_self] at live ⊢
      rw [sameIngestor]
      exact streaming.current other (wasLive live)
    · simp only [System.setStream, Function.update_of_ne isId] at live ⊢
      exact streaming.current other live
  · intro other unopened
    by_cases isId : other = id
    · subst isId
      simp only [System.setStream, Function.update_self]
      rw [same unopened]
      exact streaming.unopened other unopened
    · simp only [System.setStream, Function.update_of_ne isId]
      exact streaming.unopened other unopened

theorem Streaming.setIngestor (streaming : Streaming system) {id : IngestorId}
    {ingestor : Ingestor} (same : ingestor.stream = (system.ingestors id).stream) :
    Streaming (system.setIngestor id ingestor) := by
  refine ⟨?_, streaming.unopened⟩
  intro stream live
  have current := streaming.current stream live
  by_cases isId : (system.streams stream).ingestor = id
  · simp only [System.setIngestor, isId, Function.update_self]
    rw [same, ← isId, current]
  · simpa only [System.setIngestor, Function.update_of_ne isId] using current

theorem Streaming.byManager {after : System} (before : Streaming system)
    (stepped : Streaming after) : Streaming (system.byManager after) := by
  unfold System.byManager
  split_ifs
  · exact before
  · exact stepped

theorem Streaming.send (streaming : Streaming system) (index : Nat) (succeeds : Bool) :
    Streaming (system.send index succeeds) := by
  unfold System.send
  split
  · dsimp only
    refine Streaming.of_manager ?_ _
    split_ifs with sent
    · have live := (Bool.and_eq_true_iff.mp sent).2
      refine streaming.setStream rfl (fun _ => live) (fun unopened => ?_)
      exact absurd (streaming.lt_opened live) (Nat.not_lt.mpr unopened)
    · exact streaming
  · exact streaming

theorem Streaming.receive (streaming : Streaming system) (id : StreamId) :
    Streaming (system.receive id) := by
  unfold System.receive
  dsimp only
  split
  · exact streaming
  · rename_i message rest queue
    have isOpened (stream : Stream) : system.opened ≤ id → stream = system.streams id := by
      intro unopened
      rw [streaming.unopened id unopened] at queue
      cases queue
    split
    all_goals
      refine Streaming.of_manager (streaming.setStream ?_ ?_ (isOpened _)) _
      · rfl
      · exact fun live => live

theorem Streaming.notice (streaming : Streaming system) (id : StreamId) :
    Streaming (system.notice id) := by
  unfold System.notice
  dsimp only
  by_cases ended : ((system.streams id).live || (system.streams id).noticed) = true
  · rw [if_pos ended]
    exact streaming
  · rw [if_neg ended]
    refine Streaming.of_manager (streaming.setStream ?_ ?_ fun unopened => ?_) _
    · rfl
    · exact fun live => live
    · simp [streaming.unopened id unopened, Stream.unopened] at ended

theorem Streaming.breakStream (streaming : Streaming system) (id : StreamId) :
    Streaming (system.breakStream id) := by
  refine streaming.setStream (by rfl) (fun live => by cases live) (fun unopened => ?_)
  rw [streaming.unopened id unopened]
  rfl

theorem Streaming.closeStream (streaming : Streaming system) (id : StreamId) :
    Streaming (system.setStream id
      { system.streams id with live := false, toIngestor := [] }) := by
  refine streaming.setStream (by rfl) (fun live => by cases live) (fun unopened => ?_)
  rw [streaming.unopened id unopened]
  rfl

theorem Streaming.openStream (streaming : Streaming system) {id : IngestorId}
    (closed : ∀ stream, (system.streams stream).live = true →
      (system.streams stream).ingestor ≠ id) (ingestor : Ingestor)
    (current : ingestor.stream = some system.opened) :
    Streaming { (system.setStream system.opened (.open id)).setIngestor id ingestor with
      opened := system.opened + 1 } := by
  constructor
  · intro stream live
    by_cases isNew : stream = system.opened
    · subst isNew
      simp [System.setIngestor, System.setStream, Stream.open, current]
    · simp only [System.setIngestor, System.setStream, Function.update_of_ne isNew] at live ⊢
      rw [Function.update_of_ne (closed stream live)]
      exact streaming.current stream live
  · intro stream unopened
    have isOther : stream ≠ system.opened := Nat.ne_of_gt (Nat.lt_of_succ_le unopened)
    simp only [System.setIngestor, System.setStream, Function.update_of_ne isOther]
    exact streaming.unopened stream (Nat.le_of_succ_le unopened)

theorem Streaming.connect (streaming : Streaming system) (id : IngestorId) :
    Streaming (system.connect id) := by
  unfold System.connect
  dsimp only
  cases current : (system.ingestors id).stream with
  | none =>
    refine streaming.openStream ?_ _ rfl
    intro stream live isId
    have isCurrent := streaming.current stream live
    rw [isId, current] at isCurrent
    cases isCurrent
  | some old =>
    refine (streaming.closeStream old).openStream ?_ _ rfl
    intro stream live isId
    by_cases isOld : stream = old
    · subst isOld
      simp [System.setStream] at live
    · simp only [System.setStream, Function.update_of_ne isOld] at live isId
      have isCurrent := streaming.current stream live
      rw [isId, current] at isCurrent
      exact isOld (Option.some.inj isCurrent).symm

theorem Streaming.ingestorReceive (streaming : Streaming system) (id : IngestorId) :
    Streaming (system.ingestorReceive id) := by
  unfold System.ingestorReceive
  dsimp only
  split
  · exact streaming
  · rename_i streamId current
    split
    · exact streaming
    · rename_i task rest queue
      refine Streaming.setIngestor (streaming.setStream ?_ ?_ fun unopened => ?_)
        (Ingestor.handleTaskAssignment_stream task)
      · rfl
      · exact fun live => live
      · rw [streaming.unopened streamId unopened] at queue
        cases queue

theorem Streaming.ingestorSend (streaming : Streaming system) (id : IngestorId) (index : Nat)
    (succeeds : Bool) : Streaming (system.ingestorSend id index succeeds) := by
  unfold System.ingestorSend
  dsimp only
  split
  · rename_i message streamId _ current
    have popped : Streaming (system.setIngestor id { system.ingestors id with
        outbox := (system.ingestors id).outbox.eraseIdx index }) := streaming.setIngestor (by rfl)
    split_ifs with sent
    · have live : (system.streams streamId).live = true := (Bool.and_eq_true_iff.mp sent).2
      refine popped.setStream rfl (fun _ => live) (fun unopened => ?_)
      exact absurd (streaming.lt_opened live) (Nat.not_lt.mpr unopened)
    · exact popped
  · exact streaming

theorem streaming_step (streaming : Streaming system) (move : Move) :
    Streaming (system.step move) := by
  cases move with
  | startTask comeFrom => exact streaming.byManager (streaming.of_manager _)
  | cancelTask taskId comeFrom => exact streaming.byManager (streaming.of_manager _)
  | shutdownIngestor id => exact streaming.byManager (streaming.of_manager _)
  | dispatches => exact streaming.byManager (streaming.of_manager _)
  | selects index choice => exact streaming.byManager (streaming.of_manager _)
  | parks index => exact streaming.byManager (streaming.of_manager _)
  | wakes index => exact streaming.byManager (streaming.of_manager _)
  | sends index succeeds => exact streaming.byManager (streaming.send index succeeds)
  | receives id => exact streaming.byManager (streaming.receive id)
  | notices id => exact streaming.byManager (streaming.notice id)
  | breaks id => exact streaming.breakStream id
  | connects id => exact streaming.connect id
  | ingestorReceives id => exact streaming.ingestorReceive id
  | offers id index => exact streaming.setIngestor (Ingestor.offer_stream index)
  | takes id => exact streaming.setIngestor Ingestor.take_stream
  | executes id index seesCancel =>
    exact streaming.setIngestor (Ingestor.execute_stream index seesCancel)
  | sendsHeartbeat id expired => exact streaming.setIngestor (by rfl)
  | ingestorSends id index succeeds => exact streaming.ingestorSend id index succeeds

theorem accurate_start (maxConcurrency : IngestorId → Nat) : Accurate (start maxConcurrency) where
  alive := rfl
  refers id state found := by cases found
  present id live := absurd live (by simp [start, Stream.unopened])

theorem Accurate.of_manager (accurate : Accurate system) {manager : Manager}
    (same : system.manager.SameRegistry manager) : Accurate { system with manager } where
  alive := same.2.trans accurate.alive
  refers id state found := accurate.refers id state (same.1 ▸ found)
  present id live registered := by
    obtain ⟨state, found, isStream⟩ := accurate.present id live registered
    exact ⟨state, by rw [same.1, found], isStream⟩

theorem Accurate.setIngestor (accurate : Accurate system) (id : IngestorId)
    (ingestor : Ingestor) : Accurate (system.setIngestor id ingestor) :=
  ⟨accurate.alive, accurate.refers, accurate.present⟩

theorem Accurate.setStream (accurate : Accurate system) {id : StreamId} {stream : Stream}
    (sameIngestor : stream.ingestor = (system.streams id).ingestor)
    (sameRegistered : stream.registered = (system.streams id).registered)
    (sameNoticed : stream.noticed = (system.streams id).noticed)
    (wasLive : stream.live = true → (system.streams id).live = true) :
    Accurate (system.setStream id stream) where
  alive := accurate.alive
  refers ingestor state found := by
    have refers := accurate.refers ingestor state found
    by_cases isId : state.stream = id
    · simp only [System.setStream, isId, Function.update_self]
      rwa [sameIngestor, sameRegistered, sameNoticed, ← isId]
    · simpa only [System.setStream, Function.update_of_ne isId] using refers
  present other live registered := by
    by_cases isId : other = id
    · subst isId
      simp only [System.setStream, Function.update_self] at live registered ⊢
      rw [sameIngestor]
      exact accurate.present other (wasLive live) (sameRegistered ▸ registered)
    · simp only [System.setStream, Function.update_of_ne isId] at live registered ⊢
      exact accurate.present other live registered

theorem Accurate.byManager {after : System} (accurate : Accurate system)
    (stepped : Accurate after) : Accurate (system.byManager after) := by
  unfold System.byManager
  split_ifs
  · exact accurate
  · exact stepped

theorem Accurate.send (accurate : Accurate system) (index : Nat) (succeeds : Bool) :
    Accurate (system.send index succeeds) := by
  unfold System.send
  split
  · dsimp only
    refine Accurate.of_manager ?_ (Manager.sameRegistry_sent index succeeds)
    split_ifs
    · refine accurate.setStream ?_ ?_ ?_ ?_
      · rfl
      · rfl
      · rfl
      · exact fun live => live
    · exact accurate
  · exact accurate

theorem Accurate.register (accurate : Accurate system) {id : StreamId}
    (unseen : (system.streams id).noticed = false) (replaceable : Replaceable system id)
    (rest : List Message) :
    Accurate { system.setStream id
        { system.streams id with toManager := rest, registered := true } with
      manager := system.manager.handleRegister (system.streams id).ingestor id } where
  alive := accurate.alive
  refers ingestor state found := by
    simp only [Manager.handleRegister, Dict.get?_upsert] at found
    split_ifs at found with same
    · cases found
      simp [System.setStream, same, unseen]
    · have refers := accurate.refers ingestor state found
      have isOther : state.stream ≠ id := by
        rintro rfl
        exact same refers.1.symm
      simpa only [System.setStream, Function.update_of_ne isOther] using refers
  present other live registered := by
    by_cases isId : other = id
    · subst isId
      simp [System.setStream, Manager.handleRegister]
    · simp only [System.setStream, Function.update_of_ne isId] at live registered ⊢
      obtain ⟨state, found, isStream⟩ := accurate.present other live registered
      have otherIngestor : (system.streams other).ingestor ≠ (system.streams id).ingestor := by
        intro same
        rw [same] at found
        cases replaceable state found with
        | inl isSame => exact isId (isStream.symm.trans isSame)
        | inr failed =>
          rw [isStream, live] at failed
          cases failed
      refine ⟨state, ?_, isStream⟩
      rw [Manager.handleRegister, Dict.get?_upsert, if_neg otherIngestor, found]

theorem Accurate.heartbeat (accurate : Accurate system) {id : IngestorId}
    (entry : system.manager.ingestionServers.get? id ≠ none) (info : Heartbeat) :
    Accurate { system with manager := system.manager.handleHeartbeat id info } := by
  obtain ⟨old, found⟩ := Option.ne_none_iff_exists'.mp entry
  obtain ⟨status, handled⟩ := Manager.handleHeartbeat_of_entry found info
  rw [handled]
  refine ⟨accurate.alive, ?_, ?_⟩
  · intro ingestor state foundNew
    simp only [Dict.get?_upsert] at foundNew
    by_cases same : ingestor = id
    · rw [if_pos same] at foundNew
      cases foundNew
      exact accurate.refers ingestor old (same ▸ found)
    · rw [if_neg same] at foundNew
      exact accurate.refers ingestor state foundNew
  · intro other live registered
    obtain ⟨state, foundOld, isStream⟩ := accurate.present other live registered
    simp only [Dict.get?_upsert]
    by_cases same : (system.streams other).ingestor = id
    · rw [same, found] at foundOld
      cases foundOld
      exact ⟨_, if_pos same, isStream⟩
    · exact ⟨state, (if_neg same).trans foundOld, isStream⟩

theorem Accurate.cleanup (accurate : Accurate system) {id : StreamId}
    (failed : (system.streams id).live = false) (replaceable : Replaceable system id)
    (registered : (system.streams id).registered = true) :
    Accurate { system.setStream id { system.streams id with noticed := true } with
      manager := system.manager.cleanupIngestionServer (system.streams id).ingestor } := by
  have erased := system.manager.get?_cleanupIngestionServer (system.streams id).ingestor
  have alive := system.manager.crashed_cleanupIngestionServer (system.streams id).ingestor
  refine ⟨alive.trans accurate.alive, ?_, ?_⟩
  · intro ingestor state found
    rw [erased] at found
    split_ifs at found with same
    have refers := accurate.refers ingestor state found
    have isOther : state.stream ≠ id := by
      rintro rfl
      exact same refers.1.symm
    simpa only [System.setStream, Function.update_of_ne isOther] using refers
  · intro other live isRegistered
    have isOther : other ≠ id := by
      rintro rfl
      simp [System.setStream, failed] at live
    simp only [System.setStream, Function.update_of_ne isOther] at live isRegistered ⊢
    obtain ⟨state, found, isStream⟩ := accurate.present other live isRegistered
    have otherIngestor : (system.streams other).ingestor ≠ (system.streams id).ingestor := by
      intro same
      rw [same] at found
      cases replaceable state found with
      | inl isSame => exact isOther (isStream.symm.trans isSame)
      | inr isFailed =>
        rw [isStream, live] at isFailed
        cases isFailed
    exact ⟨state, by rw [erased, if_neg otherIngestor, found], isStream⟩

theorem Accurate.receive (accurate : Accurate system) {id : StreamId}
    (timely : Timely system (.receives id)) : Accurate (system.receive id) := by
  have popped (rest : List Message) :
      Accurate (system.setStream id { system.streams id with toManager := rest }) := by
    refine accurate.setStream ?_ ?_ ?_ ?_
    · rfl
    · rfl
    · rfl
    · exact fun live => live
  unfold System.receive
  dsimp only
  cases queue : (system.streams id).toManager with
  | nil => exact accurate
  | cons message rest =>
    simp only [Timely, queue] at timely
    cases message with
    | register => exact accurate.register timely.1 timely.2 rest
    | heartbeat info =>
      dsimp only
      by_cases registered : (system.streams id).registered = true
      · rw [if_pos registered]
        exact (popped rest).heartbeat (timely.entry registered) info
      · rw [if_neg registered]
        exact popped rest
    | taskResult taskId status => exact (popped rest).of_manager ⟨rfl, rfl⟩

theorem Accurate.notice (accurate : Accurate system) {id : StreamId}
    (timely : Timely system (.notices id)) : Accurate (system.notice id) := by
  unfold System.notice
  dsimp only
  by_cases ended : ((system.streams id).live || (system.streams id).noticed) = true
  · rw [if_pos ended]
    exact accurate
  · rw [if_neg ended]
    simp only [Bool.or_eq_true, not_or, Bool.not_eq_true] at ended
    by_cases registered : (system.streams id).registered = true
    · rw [if_pos registered]
      exact accurate.cleanup ended.1 (timely registered ended.1 ended.2) registered
    · rw [if_neg registered]
      -- no entry refers to a stream without a registration
      refine ⟨accurate.alive, ?_, ?_⟩
      · intro ingestor state found
        have refers := accurate.refers ingestor state found
        have isOther : state.stream ≠ id := by
          rintro rfl
          exact registered refers.2.1
        simpa only [System.setStream, Function.update_of_ne isOther] using refers
      · intro other live isRegistered
        have isOther : other ≠ id := by
          rintro rfl
          simp [System.setStream, ended.1] at live
        simp only [System.setStream, Function.update_of_ne isOther] at live isRegistered ⊢
        exact accurate.present other live isRegistered

theorem Accurate.closeStream (accurate : Accurate system) (id : StreamId) :
    Accurate (system.setStream id
      { system.streams id with live := false, toIngestor := [] }) := by
  refine accurate.setStream ?_ ?_ ?_ ?_
  · rfl
  · rfl
  · rfl
  · exact fun live => by cases live

theorem Accurate.openStream (accurate : Accurate system)
    (unregistered : (system.streams system.opened).registered = false) (id : IngestorId)
    (ingestor : Ingestor) :
    Accurate { (system.setStream system.opened (.open id)).setIngestor id ingestor with
      opened := system.opened + 1 } := by
  refine ⟨accurate.alive, ?_, ?_⟩
  · intro other state found
    have refers := accurate.refers other state found
    have isOld : state.stream ≠ system.opened := by
      intro isNew
      rw [isNew, unregistered] at refers
      cases refers.2.1
    simpa only [System.setIngestor, System.setStream, Function.update_of_ne isOld] using refers
  · intro stream live registered
    have isOld : stream ≠ system.opened := by
      rintro rfl
      simp [System.setIngestor, System.setStream, Stream.open] at registered
    simp only [System.setIngestor, System.setStream, Function.update_of_ne isOld] at *
    exact accurate.present stream live registered

theorem Accurate.connect (accurate : Accurate system) (streaming : Streaming system)
    (id : IngestorId) : Accurate (system.connect id) := by
  have unopened := streaming.unopened system.opened (Nat.le_refl _)
  unfold System.connect
  dsimp only
  cases (system.ingestors id).stream with
  | none => exact accurate.openStream (by rw [unopened]; rfl) id _
  | some old =>
    refine (accurate.closeStream old).openStream ?_ id _
    by_cases isOld : system.opened = old
    · subst isOld
      simp [System.setStream, unopened, Stream.unopened]
    · simp [System.setStream, Function.update_of_ne isOld, unopened, Stream.unopened]

theorem Accurate.ingestorReceive (accurate : Accurate system) (id : IngestorId) :
    Accurate (system.ingestorReceive id) := by
  unfold System.ingestorReceive
  dsimp only
  split
  · exact accurate
  · split
    · exact accurate
    · refine Accurate.setIngestor (accurate.setStream ?_ ?_ ?_ ?_) _ _
      · rfl
      · rfl
      · rfl
      · exact fun live => live

theorem Accurate.ingestorSend (accurate : Accurate system) (id : IngestorId) (index : Nat)
    (succeeds : Bool) : Accurate (system.ingestorSend id index succeeds) := by
  unfold System.ingestorSend
  dsimp only
  split
  · split_ifs
    · refine Accurate.setStream (accurate.setIngestor _ _) ?_ ?_ ?_ ?_
      · rfl
      · rfl
      · rfl
      · exact fun live => live
    · exact accurate.setIngestor _ _
  · exact accurate

theorem accurate_step {move : Move} (timely : Timely system move)
    (streaming : Streaming system) (accurate : Accurate system) :
    Accurate (system.step move) := by
  cases move with
  | startTask comeFrom => exact accurate.byManager (accurate.of_manager ⟨rfl, rfl⟩)
  | cancelTask taskId comeFrom => exact accurate.byManager (accurate.of_manager ⟨rfl, rfl⟩)
  | shutdownIngestor id => exact accurate.byManager (accurate.of_manager ⟨rfl, rfl⟩)
  | dispatches => exact accurate.byManager (accurate.of_manager Manager.sameRegistry_dispatch)
  | selects index choice =>
    exact accurate.byManager (accurate.of_manager (Manager.sameRegistry_select index choice))
  | parks index => exact accurate.byManager (accurate.of_manager (Manager.sameRegistry_park index))
  | wakes index => exact accurate.byManager (accurate.of_manager (Manager.sameRegistry_wake index))
  | sends index succeeds => exact accurate.byManager (accurate.send index succeeds)
  | receives id => exact accurate.byManager (accurate.receive timely)
  | notices id => exact accurate.byManager (accurate.notice timely)
  | breaks id =>
    refine accurate.setStream ?_ ?_ ?_ ?_
    · rfl
    · rfl
    · rfl
    · exact fun live => by cases live
  | connects id => exact accurate.connect streaming id
  | ingestorReceives id => exact accurate.ingestorReceive id
  | offers id index => exact accurate.setIngestor _ _
  | takes id => exact accurate.setIngestor _ _
  | executes id index seesCancel => exact accurate.setIngestor _ _
  | sendsHeartbeat id expired => exact accurate.setIngestor _ _
  | ingestorSends id index succeeds => exact accurate.ingestorSend id index succeeds

theorem listsReports_of_timely {move : Move} (timely : Timely system move)
    (accurate : Accurate system) : ListsReports system move := by
  cases move with
  | receives id =>
    intro info rest queue report isMem
    have expected : Expected system id info := by simpa only [Timely, queue] using timely
    have registered := expected.registered (List.ne_nil_of_mem isMem)
    obtain ⟨old, found⟩ := Option.ne_none_iff_exists'.mp (expected.entry registered)
    obtain ⟨status, handled⟩ := Manager.handleHeartbeat_of_entry found info
    have tasks : (system.step (.receives id)).manager.taskStates =
        Manager.heartbeatTasks system.manager.taskStates (system.streams id).ingestor info := by
      simp only [System.step, System.byManager, accurate.alive, Bool.false_eq_true, if_false,
        System.receive, queue, if_pos registered, handled]
    rw [tasks]
    exact Manager.get?_updateTasks _ _ _ info.nodup isMem (expected.known report isMem)
  | _ => trivial

/-- In every run whose moves come in an order the code allows for, the registry is accurate and
every heartbeat lists its tasks. -/
theorem accurate_of_along (maxConcurrency : IngestorId → Nat) (moves : List Move)
    (timely : Runs.Along System.step Timely (start maxConcurrency) moves) :
    Accurate (Runs.run System.step (start maxConcurrency) moves) ∧
      Runs.Along System.step ListsReports (start maxConcurrency) moves := by
  let sound (system : System) : Prop := Streaming system ∧ Accurate system
  have initially : sound (start maxConcurrency) :=
    ⟨streaming_start maxConcurrency, accurate_start maxConcurrency⟩
  have preserved (system : System) (move : Move) (isTimely : Timely system move)
      (before : sound system) : sound (system.step move) :=
    ⟨streaming_step before.1 move, accurate_step isTimely before.1 before.2⟩
  have after : sound (Runs.run System.step (start maxConcurrency) moves) :=
    Runs.invariant_along initially preserved timely
  refine ⟨after.2, Runs.along_of_invariant initially preserved ?_ timely⟩
  intro system move isTimely before
  exact listsReports_of_timely isTimely before.2

theorem accurate_reconnected :
    Accurate (Runs.run System.step (start fun _ => 1)
      [.connects 0, .ingestorSends 0 0 true, .receives 0, .startTask "CLI", .dispatches,
        .selects 0 0, .sends 0 true, .ingestorReceives 0, .sendsHeartbeat 0 [],
        .ingestorSends 0 0 true, .receives 0, .breaks 0, .notices 0, .connects 0,
        .ingestorSends 0 0 true, .receives 1]) :=
  (accurate_of_along (fun _ => 1) _ (by decide)).1

def lateCleanup : System :=
  Runs.run System.step (start fun _ => 1)
    [.connects 0, .ingestorSends 0 0 true, .receives 0, .breaks 0, .connects 0,
      .ingestorSends 0 0 true, .receives 1, .notices 0]

theorem not_accurate_lateCleanup : ¬ Accurate lateCleanup := by
  intro accurate
  obtain ⟨state, found, -⟩ := accurate.present 1 (by decide) (by decide)
  have absent : lateCleanup.manager.ingestionServers.get? (lateCleanup.streams 1).ingestor =
      none := by decide
  rw [absent] at found
  cases found

end RagFlow.Ingestion
