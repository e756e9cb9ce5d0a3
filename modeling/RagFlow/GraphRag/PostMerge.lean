import RagFlow.GraphRag.Phases

/-!
# The graph after the merge phase

Between its merge phase and its resolution a run keeps its graph in memory while the lock is free.
What the resolution then saves contains all merged documents as long as no other run has merged one
in the meantime.
-/

namespace RagFlow.GraphRag

open RagFlow.Lib

variable {Run Name Doc Score : Type}

section Documents

variable [LinearOrder Name] [LinearOrder Doc] [Add Score]

theorem sourceId_mergeGraphNodes {summary : Summary Name Doc}
    {state after : Graph Name Doc Score × GraphChange Name} {nodes : List Name}
    (merged : mergeGraphNodes summary state nodes = some after) :
    after.1.sourceId = state.1.sourceId := by
  have absorbed : ∀ (rest : List Name) (node0 : Name) (all : List Name)
      (first last : Merging Name Doc Score),
      rest.foldlM (absorbNode summary node0 all) first = some last →
        last.graph.sourceId = first.graph.sourceId := by
    intro rest node0 all
    induction rest with
    | nil =>
      intro first last result
      cases result
      rfl
    | cons node1 rest ih =>
      intro first last result
      rw [List.foldlM_cons] at result
      obtain ⟨next, absorbs, result⟩ := Option.bind_eq_some_iff.mp result
      rw [ih next last result]
      simp only [absorbNode, Option.bind_eq_bind, Option.bind_eq_some_iff] at absorbs
      obtain ⟨attrs0, -, attrs1, -, same⟩ := absorbs
      cases same
      rfl
  cases nodes with
  | nil =>
    cases merged
    rfl
  | cons node0 others =>
    cases others with
    | nil =>
      cases merged
      rfl
    | cons node1 rest =>
      obtain ⟨last, result, same⟩ := Option.bind_eq_some_iff.mp merged
      cases same
      exact absorbed (node1 :: rest) node0 _ _ last result

theorem sourceId_mergeGroups {summary : Summary Name Doc} {groups : List (List Name)}
    {state after : Graph Name Doc Score × GraphChange Name}
    (merged : mergeGroups summary state groups = some after) :
    after.1.sourceId = state.1.sourceId := by
  induction groups generalizing state with
  | nil =>
    cases merged
    rfl
  | cons nodes groups ih =>
    rw [mergeGroups, List.foldlM_cons] at merged
    obtain ⟨next, first, rest⟩ := Option.bind_eq_some_iff.mp merged
    rw [ih rest, sourceId_mergeGraphNodes first]

omit [Add Score] in
theorem documents_setGraph (store : DocStore Name Doc Score) (graph : Graph Name Doc Score)
    (change : GraphChange Name) : documents (setGraph store graph change) = graph.sourceId := by
  rw [documents, storedGraph, graph?_setGraph]
  rfl

omit [Add Score] in
theorem getGraph_of_mem_documents {store : DocStore Name Doc Score} {doc : Doc}
    (inStored : doc ∈ documents store) :
    ∃ graph, (∀ exclude, getGraph store exclude = some graph) ∧ doc ∈ graph.sourceId := by
  rw [documents, storedGraph] at inStored
  cases found : store.findSome? Chunk.graph? with
  | none =>
    rw [found] at inStored
    cases inStored
  | some stored =>
    obtain ⟨graph, removed⟩ := stored
    rw [found] at inStored
    cases removed with
    | true => cases inStored
    | false =>
      refine ⟨graph, fun exclude => ?_, inStored⟩
      rw [getGraph, found]
      rfl

theorem documents_merged {pagerank : List Name → List (Sym2 Name × Score) → Name → Score}
    {store : DocStore Name Doc Score} {subgraph : DocSubgraph Name Doc Score} {doc : Doc}
    (known : doc = subgraph.doc ∨ doc ∈ documents store) :
    doc ∈ (mergedGraph pagerank store subgraph.graph).1.sourceId := by
  rw [sourceId_mergedGraph, List.mem_append]
  rcases known with rfl | inStored
  · right
    rw [subgraph.sourceId]
    exact List.mem_singleton_self _
  · obtain ⟨graph, read, inGraph⟩ := getGraph_of_mem_documents inStored
    left
    rw [read]
    exact inGraph

end Documents

/-- The run may save a graph that it makes from the one it holds. -/
def GraphRun.needsGraph (run : GraphRun Name Doc Score) : Prop :=
  match run.phase with
  | .postWaiting => run.resolutionPending = true
  | .post => run.resolutionPending = true
  | .finished => False
  | _ => True

def GraphRun.inPost (run : GraphRun Name Doc Score) : Bool :=
  match run.phase with
  | .post => true
  | _ => false

def GraphRun.inMerge (run : GraphRun Name Doc Score) : Bool :=
  match run.phase with
  | .merging _ => true
  | _ => false

def GraphRun.hasEnded (run : GraphRun Name Doc Score) : Bool :=
  match run.phase with
  | .finished => true
  | _ => false

def GraphRun.holdsLock (run : GraphRun Name Doc Score) : Prop :=
  match run.phase with
  | .merging _ => True
  | .post => True
  | _ => False

/-- The run has merged, and has not yet cleared the markers. -/
def GraphRun.merges (run : GraphRun Name Doc Score) (subgraphs : List (DocSubgraph Name Doc Score)) :
    Prop :=
  match run.phase with
  | .merging _ => subgraphs ≠ []
  | _ => False

namespace KnowledgeBase

/-- A resolution finds the graph of its run to be the last that was merged, communities are
extracted from a resolved graph only, and a run does not fail after a merge while markers are
set. -/
def Safe (base : KnowledgeBase Run Name Doc Score) (turn : Turn Run Name) : Prop :=
  let run := base.runs turn.run
  match turn.action with
  | .resolve _ _ =>
    run.inPost = true → run.resolutionPending = true → run.seen = base.merged
  | .extractCommunity =>
    run.inPost = true → run.resolutionPending = false → run.communityPending = true →
      base.resolved = true
  | .fail =>
    run.inMerge = true → base.resolutionDone = true ∨ base.communityDone = true →
      base.resolved = true
  | _ => True

instance decidableSafe [DecidableEq Doc] (base : KnowledgeBase Run Name Doc Score) :
    (turn : Turn Run Name) → Decidable (base.Safe turn)
  | ⟨run, .resolve _ _⟩ => inferInstanceAs (Decidable ((base.runs run).inPost = true →
      (base.runs run).resolutionPending = true → (base.runs run).seen = base.merged))
  | ⟨run, .extractCommunity⟩ => inferInstanceAs (Decidable ((base.runs run).inPost = true →
      (base.runs run).resolutionPending = false → (base.runs run).communityPending = true →
        base.resolved = true))
  | ⟨run, .fail⟩ => inferInstanceAs (Decidable ((base.runs run).inMerge = true →
      base.resolutionDone = true ∨ base.communityDone = true → base.resolved = true))
  | ⟨_, .readMarkers⟩ => isTrue trivial
  | ⟨_, .acquire⟩ => isTrue trivial
  | ⟨_, .merge⟩ => isTrue trivial
  | ⟨_, .endMerge⟩ => isTrue trivial
  | ⟨_, .load⟩ => isTrue trivial
  | ⟨_, .finish⟩ => isTrue trivial

structure Sound (settings : Run → Settings Name Doc Score)
    (base : KnowledgeBase Run Name Doc Score) : Prop where
  locked : ∀ run, (base.runs run).holdsLock → base.lock = some run
  todo : ∀ run todo, (base.runs run).phase = .merging todo → todo <:+ (settings run).subgraphs
  stored : ∀ doc ∈ base.merged, doc ∈ documents base.store
  seen : ∀ run graph, (base.runs run).finalGraph = some graph → (base.runs run).needsGraph →
    ∀ doc ∈ (base.runs run).seen, doc ∈ graph.sourceId
  marked : base.resolutionDone = true ∨ base.communityDone = true →
    base.resolved = true ∨ ∃ run, (base.runs run).merges (settings run).subgraphs

variable {settings : Run → Settings Name Doc Score} {base : KnowledgeBase Run Name Doc Score}
  {run : Run}

theorem Sound.marked_others (sound : Sound settings base)
    (idle : ¬(base.runs run).merges (settings run).subgraphs)
    (markers : base.resolutionDone = true ∨ base.communityDone = true) :
    base.resolved = true ∨
      ∃ other, other ≠ run ∧ (base.runs other).merges (settings other).subgraphs := by
  apply (sound.marked markers).imp_right
  rintro ⟨other, merges⟩
  refine ⟨other, ?_, merges⟩
  rintro rfl
  exact idle merges

variable [DecidableEq Run]

theorem Sound.of_run (sound : Sound settings base) {next : KnowledgeBase Run Name Doc Score}
    {new : GraphRun Name Doc Score} (runs : next.runs = Function.update base.runs run new)
    (locked : new.holdsLock → next.lock = some run)
    (others : ∀ other, other ≠ run → (base.runs other).holdsLock → next.lock = some other)
    (todo : ∀ todo, new.phase = .merging todo → todo <:+ (settings run).subgraphs)
    (stored : ∀ doc ∈ next.merged, doc ∈ documents next.store)
    (seen : ∀ graph, new.finalGraph = some graph → new.needsGraph →
      ∀ doc ∈ new.seen, doc ∈ graph.sourceId)
    (marked : next.resolutionDone = true ∨ next.communityDone = true →
      next.resolved = true ∨ new.merges (settings run).subgraphs ∨
        ∃ other, other ≠ run ∧ (base.runs other).merges (settings other).subgraphs) :
    Sound settings next where
  locked other holds := by
    rw [runs] at holds
    by_cases same : other = run
    · subst same
      rw [Function.update_self] at holds
      exact locked holds
    · rw [Function.update_of_ne same] at holds
      exact others other same holds
  todo other rest phase := by
    rw [runs] at phase
    by_cases same : other = run
    · subst same
      rw [Function.update_self] at phase
      exact todo rest phase
    · rw [Function.update_of_ne same] at phase
      exact sound.todo other rest phase
  stored := stored
  seen other graph holds needs := by
    rw [runs] at holds needs ⊢
    by_cases same : other = run
    · subst same
      rw [Function.update_self] at holds needs ⊢
      exact seen graph holds needs
    · rw [Function.update_of_ne same] at holds needs ⊢
      exact sound.seen other graph holds needs
  marked markers := by
    rcases marked markers with resolved | merges | ⟨other, differs, merges⟩
    · exact .inl resolved
    · refine .inr ⟨run, ?_⟩
      rw [runs, Function.update_self]
      exact merges
    · refine .inr ⟨other, ?_⟩
      rw [runs, Function.update_of_ne differs]
      exact merges

theorem sound_stop (sound : Sound settings base)
    (right : (base.runs run).merges (settings run).subgraphs →
      base.resolutionDone = true ∨ base.communityDone = true → base.resolved = true) :
    Sound settings (base.stop run) := by
  have released : ∀ other, other ≠ run → (base.runs other).holdsLock →
      (base.stop run).lock = some other := by
    intro other differs holds
    have lock := sound.locked other holds
    have others : ¬(base.setRun run { base.runs run with phase := .finished }).lock = some run := by
      rw [setRun, lock]
      exact fun same => differs (Option.some.inj same)
    rw [stop, release, if_neg others]
    exact lock
  have fields : (base.stop run).runs =
      Function.update base.runs run { base.runs run with phase := .finished } ∧
      (base.stop run).merged = base.merged ∧ (base.stop run).store = base.store ∧
      (base.stop run).resolutionDone = base.resolutionDone ∧
      (base.stop run).communityDone = base.communityDone ∧
      (base.stop run).resolved = base.resolved := by
    rw [stop, release]
    by_cases held : (base.setRun run { base.runs run with phase := .finished }).lock = some run
    · rw [if_pos held]
      exact ⟨rfl, rfl, rfl, rfl, rfl, rfl⟩
    · rw [if_neg held]
      exact ⟨rfl, rfl, rfl, rfl, rfl, rfl⟩
  obtain ⟨runs, merged, store, resolutionDone, communityDone, resolved⟩ := fields
  apply sound.of_run runs
  · exact False.elim
  · exact released
  · intro todo phase
    cases phase
  · rw [merged, store]
    exact sound.stored
  · intro graph _ needs
    cases needs
  · rw [resolutionDone, communityDone, resolved]
    intro markers
    by_cases merges : (base.runs run).merges (settings run).subgraphs
    · exact .inl (right merges markers)
    · exact (sound.marked_others merges markers).imp_right .inr

theorem sound_readMarkers (sound : Sound settings base) (phase : (base.runs run).phase = .built) :
    Sound settings (base.readMarkers settings run) := by
  have idle : ¬(base.runs run).merges (settings run).subgraphs := by
    rw [GraphRun.merges, phase]
    exact id
  have kept : ∀ graph, (base.runs run).finalGraph = some graph →
      ∀ doc ∈ (base.runs run).seen, doc ∈ graph.sourceId := by
    intro graph holds
    apply sound.seen run graph holds
    rw [GraphRun.needsGraph, phase]
    trivial
  apply sound.of_run rfl
  · intro holds
    simp only [GraphRun.holdsLock] at holds
    split_ifs at holds <;> exact holds.elim
  · exact fun other _ => sound.locked other
  · intro todo merging
    dsimp only at merging
    split_ifs at merging
  · exact sound.stored
  · exact fun graph holds _ => kept graph holds
  · exact fun markers => (sound.marked_others idle markers).imp_right .inr

theorem sound_acquire (sound : Sound settings base) {next : Phase Name Doc Score}
    (todo : ∀ todo, next = .merging todo → todo <:+ (settings run).subgraphs)
    (idle : ¬(base.runs run).merges (settings run).subgraphs)
    (needs : ({ base.runs run with phase := next } : GraphRun Name Doc Score).needsGraph →
      (base.runs run).needsGraph) :
    Sound settings (base.acquire run next) := by
  rw [acquire]
  by_cases free : base.lock.isNone = true
  · rw [if_pos free]
    apply sound.of_run rfl
    · exact fun _ => rfl
    · intro other _ holds
      rw [sound.locked other holds] at free
      cases free
    · exact todo
    · exact sound.stored
    · exact fun graph holds again => sound.seen run graph holds (needs again)
    · exact fun markers => (sound.marked_others idle markers).imp_right .inr
  · rw [if_neg free]
    exact sound

theorem sound_endMerge (sound : Sound settings base) (phase : (base.runs run).phase = .merging []) :
    Sound settings (base.endMerge settings run) := by
  have holds : (base.runs run).holdsLock := by
    rw [GraphRun.holdsLock, phase]
    trivial
  have locked := sound.locked run holds
  have kept : ∀ graph, (base.runs run).finalGraph = some graph →
      ∀ doc ∈ (base.runs run).seen, doc ∈ graph.sourceId := by
    intro graph holds
    apply sound.seen run graph holds
    rw [GraphRun.needsGraph, phase]
    trivial
  apply sound.of_run rfl
  · intro holds
    simp only [GraphRun.holdsLock] at holds
    split_ifs at holds <;> exact holds.elim
  · intro other differs holdsOther
    exact absurd (Option.some.inj (locked.symm.trans (sound.locked other holdsOther))).symm differs
  · intro todo merging
    dsimp only at merging
    split_ifs at merging
  · exact sound.stored
  · exact fun graph holds _ => kept graph holds
  · intro markers
    cases none_merged : (settings run).subgraphs.isEmpty with
    | true =>
      have idle : ¬(base.runs run).merges (settings run).subgraphs := by
        rw [GraphRun.merges, phase]
        exact not_not.mpr (List.isEmpty_iff.mp none_merged)
      have before : base.resolutionDone = true ∨ base.communityDone = true := by
        simpa [endMerge, none_merged] using markers
      exact (sound.marked_others idle before).imp_right .inr
    | false => simp [endMerge, none_merged] at markers

section Graphs

variable [LinearOrder Name] [LinearOrder Doc] [Add Score]
  {pagerank : List Name → List (Sym2 Name × Score) → Name → Score} {summary : Summary Name Doc}

theorem sound_mergeNext (sound : Sound settings base) {subgraph : DocSubgraph Name Doc Score}
    {todo : List (DocSubgraph Name Doc Score)}
    (phase : (base.runs run).phase = .merging (subgraph :: todo)) :
    Sound settings (base.mergeNext pagerank run subgraph todo) := by
  have holds : (base.runs run).holdsLock := by
    rw [GraphRun.holdsLock, phase]
    trivial
  have locked := sound.locked run holds
  have some_asked : subgraph :: todo <:+ (settings run).subgraphs := sound.todo run _ phase
  have nonempty : (settings run).subgraphs ≠ [] := by
    intro none_asked
    rw [none_asked, List.suffix_nil] at some_asked
    cases some_asked
  have rest : ∀ later, todo = later → later <:+ (settings run).subgraphs := by
    rintro later rfl
    exact (List.suffix_cons subgraph todo).trans some_asked
  rw [mergeNext]
  cases contained : (getGraph base.store []).filter fun graph =>
      graph.names ≠ [] ∧ subgraph.doc ∈ graph.sourceId with
  | some currentGraph =>
    have read : getGraph base.store [] = some currentGraph :=
      (Option.filter_eq_some_iff.mp contained).1
    apply sound.of_run rfl
    · exact fun _ => locked
    · exact fun other _ => sound.locked other
    · exact fun later same => rest later (Phase.merging.inj same)
    · exact sound.stored
    · intro graph holds _ doc known
      cases holds
      obtain ⟨stored, again, inStored⟩ := getGraph_of_mem_documents (sound.stored doc known)
      exact (Option.some.inj ((again []).symm.trans read)) ▸ inStored
    · exact fun _ => .inr (.inl nonempty)
  | none =>
    have all_in : ∀ doc ∈ subgraph.doc :: base.merged,
        doc ∈ (mergedGraph pagerank base.store subgraph.graph).1.sourceId := by
      intro doc known
      apply documents_merged
      exact (List.mem_cons.mp known).imp_right (sound.stored doc)
    apply sound.of_run rfl
    · exact fun _ => locked
    · exact fun other _ => sound.locked other
    · exact fun later same => rest later (Phase.merging.inj same)
    · intro doc known
      have saved := documents_setGraph base.store
        (mergedGraph pagerank base.store subgraph.graph).1
        (mergedGraph pagerank base.store subgraph.graph).2
      exact saved ▸ all_in doc known
    · intro graph holds _
      cases holds
      exact all_in
    · exact fun _ => .inr (.inl nonempty)

omit [Add Score] in
theorem sound_load (sound : Sound settings base) (phase : (base.runs run).phase = .post) :
    Sound settings (base.load run) := by
  have idle : ¬(base.runs run).merges (settings run).subgraphs := by
    rw [GraphRun.merges, phase]
    exact id
  have holds : (base.runs run).holdsLock := by
    rw [GraphRun.holdsLock, phase]
    trivial
  rw [load]
  cases read : getGraph base.store [] with
  | none => exact sound_stop sound fun merges => absurd merges idle
  | some graph =>
    apply sound.of_run rfl
    · exact fun _ => sound.locked run holds
    · exact fun other _ => sound.locked other
    · intro todo merging
      rw [phase] at merging
      cases merging
    · exact sound.stored
    · intro other same _ doc known
      cases same
      obtain ⟨stored, again, inStored⟩ := getGraph_of_mem_documents (sound.stored doc known)
      exact (Option.some.inj ((again []).symm.trans read)) ▸ inStored
    · exact fun markers => (sound.marked_others idle markers).imp_right .inr

theorem sound_resolve (sound : Sound settings base) (phase : (base.runs run).phase = .post)
    {graph : Graph Name Doc Score} (holds : (base.runs run).finalGraph = some graph)
    (pending : (base.runs run).resolutionPending = true)
    (current : (base.runs run).seen = base.merged) (groups : List (List Name)) (succeeds : Bool) :
    Sound settings (base.resolve pagerank summary run graph groups succeeds) := by
  have needs : (base.runs run).needsGraph := by
    rw [GraphRun.needsGraph, phase]
    exact pending
  have locks : (base.runs run).holdsLock := by
    rw [GraphRun.holdsLock, phase]
    trivial
  have complete : ∀ doc ∈ base.merged, doc ∈ graph.sourceId := by
    rw [← current]
    exact sound.seen run graph holds needs
  rw [resolve]
  cases merges : mergeGroups summary (graph, .none) groups with
  | none => exact sound
  | some resolution =>
    obtain ⟨resolvedGraph, change⟩ := resolution
    have same : resolvedGraph.sourceId = graph.sourceId := sourceId_mergeGroups merges
    have stored : ∀ doc ∈ base.merged, doc ∈ documents
        (setGraph base.store (resolvedGraph.setPagerank pagerank) change) := by
      rw [documents_setGraph]
      exact fun doc known => same ▸ complete doc known
    cases succeeds with
    | false => exact ⟨sound.locked, sound.todo, stored, sound.seen, fun _ => .inl rfl⟩
    | true =>
      apply sound.of_run rfl
      · exact fun _ => sound.locked run locks
      · exact fun other _ => sound.locked other
      · intro todo merging
        rw [phase] at merging
        cases merging
      · exact stored
      · intro other _ needsAgain
        simp only [GraphRun.needsGraph, phase] at needsAgain
        cases needsAgain
      · exact fun _ => .inl rfl

end Graphs

theorem sound_extractCommunity (sound : Sound settings base)
    (phase : (base.runs run).phase = .post) (resolved : base.resolved = true) :
    Sound settings (base.extractCommunity run) := by
  have locks : (base.runs run).holdsLock := by
    rw [GraphRun.holdsLock, phase]
    trivial
  apply sound.of_run rfl
  · exact fun _ => sound.locked run locks
  · exact fun other _ => sound.locked other
  · exact fun todo merging => sound.todo run todo merging
  · exact sound.stored
  · exact fun graph holds needs => sound.seen run graph holds needs
  · exact fun _ => .inl resolved

section Steps

variable [LinearOrder Name] [LinearOrder Doc] [Add Score]
  {pagerank : List Name → List (Sym2 Name × Score) → Name → Score} {summary : Summary Name Doc}

theorem sound_step (sound : Sound settings base) {turn : Turn Run Name} (safe : base.Safe turn) :
    Sound settings (base.step settings pagerank summary turn) := by
  obtain ⟨run, action⟩ := turn
  cases action with
  | readMarkers =>
    cases phase : (base.runs run).phase with
    | built => simpa only [step, phase] using sound_readMarkers sound phase
    | _ => simpa only [step, phase] using sound
  | acquire =>
    cases phase : (base.runs run).phase with
    | mergeWaiting =>
      simp only [step, phase]
      apply sound_acquire sound
      · intro todo same
        rw [← Phase.merging.inj same]
      · rw [GraphRun.merges, phase]
        exact id
      · rw [GraphRun.needsGraph, GraphRun.needsGraph, phase]
        exact id
    | postWaiting =>
      simp only [step, phase]
      apply sound_acquire sound
      · intro todo same
        cases same
      · rw [GraphRun.merges, phase]
        exact id
      · rw [GraphRun.needsGraph, GraphRun.needsGraph, phase]
        exact id
    | _ => simpa only [step, phase] using sound
  | merge =>
    cases phase : (base.runs run).phase with
    | merging todo =>
      cases todo with
      | nil => simpa only [step, phase] using sound
      | cons subgraph todo => simpa only [step, phase] using sound_mergeNext sound phase
    | _ => simpa only [step, phase] using sound
  | endMerge =>
    cases phase : (base.runs run).phase with
    | merging todo =>
      cases todo with
      | nil => simpa only [step, phase] using sound_endMerge sound phase
      | cons subgraph todo => simpa only [step, phase] using sound
    | _ => simpa only [step, phase] using sound
  | load =>
    cases phase : (base.runs run).phase with
    | post =>
      simp only [step, phase]
      split_ifs
      · exact sound_load sound phase
      · exact sound
    | _ => simpa only [step, phase] using sound
  | resolve groups succeeds =>
    cases phase : (base.runs run).phase with
    | post =>
      cases holds : (base.runs run).finalGraph with
      | none => simpa only [step, phase, holds] using sound
      | some graph =>
        simp only [step, phase, holds]
        by_cases pending : (base.runs run).resolutionPending = true
        · rw [if_pos pending]
          have inPost : (base.runs run).inPost = true := by rw [GraphRun.inPost, phase]
          exact sound_resolve sound phase holds pending (safe inPost pending) groups succeeds
        · rw [if_neg pending]
          exact sound
    | _ => simpa only [step, phase] using sound
  | extractCommunity =>
    cases phase : (base.runs run).phase with
    | post =>
      simp only [step, phase]
      split_ifs with enabled
      · have inPost : (base.runs run).inPost = true := by rw [GraphRun.inPost, phase]
        obtain ⟨-, resolution, community⟩ := enabled
        have resolved := safe inPost (Bool.not_eq_true' _ |>.mp resolution) community
        exact sound_extractCommunity sound phase resolved
      · exact sound
    | _ => simpa only [step, phase] using sound
  | finish =>
    cases phase : (base.runs run).phase with
    | post =>
      simp only [step, phase]
      split_ifs
      · apply sound_stop sound
        rw [GraphRun.merges, phase]
        exact False.elim
      · exact sound
    | _ => simpa only [step, phase] using sound
  | fail =>
    simp only [step]
    apply sound_stop sound
    intro merges markers
    cases phase : (base.runs run).phase with
    | merging todo =>
      have inMerge : (base.runs run).inMerge = true := by rw [GraphRun.inMerge, phase]
      exact safe inMerge markers
    | _ => simp [GraphRun.merges, phase] at merges

end Steps

end KnowledgeBase

theorem Beginning.sound_base (beginning : Beginning Name Doc Score)
    (settings : Run → Settings Name Doc Score) :
    KnowledgeBase.Sound settings (beginning.base : KnowledgeBase Run Name Doc Score) where
  locked run := False.elim
  todo run todo merging := by cases merging
  stored doc inStored := inStored
  seen run graph holds := by cases holds
  marked markers := .inl (beginning.markers_right markers)

section Correctness

variable [DecidableEq Run] [LinearOrder Name] [LinearOrder Doc] [Add Score]
variable (settings : Run → Settings Name Doc Score)
  (pagerank : List Name → List (Sym2 Name × Score) → Name → Score) (summary : Summary Name Doc)

def SavesAll (base : KnowledgeBase Run Name Doc Score) (turn : Turn Run Name) : Prop :=
  ∀ groups succeeds, turn.action = .resolve groups succeeds →
    ∀ doc ∈ base.merged, doc ∈ documents (base.step settings pagerank summary turn).store

def MarkersRight (base : KnowledgeBase Run Name Doc Score) : Prop :=
  (∀ run, (base.runs run).hasEnded = true) →
    base.resolutionDone = true ∨ base.communityDone = true → base.resolved = true

omit settings in
theorem merged_resolve (base : KnowledgeBase Run Name Doc Score) (run : Run)
    (graph : Graph Name Doc Score) (groups : List (List Name)) (succeeds : Bool) :
    (base.resolve pagerank summary run graph groups succeeds).merged = base.merged := by
  rw [KnowledgeBase.resolve]
  cases mergeGroups summary (graph, .none) groups with
  | none => rfl
  | some resolution =>
    cases succeeds with
    | true => rfl
    | false => rfl

theorem merged_step_resolve (base : KnowledgeBase Run Name Doc Score) (run : Run)
    (groups : List (List Name)) (succeeds : Bool) :
    (base.step settings pagerank summary ⟨run, .resolve groups succeeds⟩).merged =
      base.merged := by
  cases phase : (base.runs run).phase with
  | post =>
    cases holds : (base.runs run).finalGraph with
    | none => simp only [KnowledgeBase.step, phase, holds]
    | some graph =>
      simp only [KnowledgeBase.step, phase, holds]
      by_cases pending : (base.runs run).resolutionPending = true
      · rw [if_pos pending, merged_resolve]
      · rw [if_neg pending]
  | _ => simp only [KnowledgeBase.step, phase]

/-- In every interleaving in which a run resolves the graph that was merged last, resolutions lose
no document and the markers are right in the end. -/
theorem current_along (beginning : Beginning Name Doc Score) (turns : List (Turn Run Name))
    (safe : Runs.Along (KnowledgeBase.step settings pagerank summary) KnowledgeBase.Safe
      beginning.base turns) :
    Runs.Along (KnowledgeBase.step settings pagerank summary)
        (SavesAll settings pagerank summary) beginning.base turns ∧
      MarkersRight (Runs.run (KnowledgeBase.step settings pagerank summary) beginning.base
        turns) := by
  have initially := beginning.sound_base settings
  have preserved : ∀ (base : KnowledgeBase Run Name Doc Score) (turn : Turn Run Name),
      base.Safe turn → KnowledgeBase.Sound settings base →
        KnowledgeBase.Sound settings (base.step settings pagerank summary turn) :=
    fun base turn safe sound => KnowledgeBase.sound_step sound safe
  constructor
  · refine Runs.along_of_invariant initially preserved ?_ safe
    rintro base ⟨run, action⟩ safe sound groups succeeds rfl doc known
    apply (preserved base _ safe sound).stored doc
    rw [merged_step_resolve]
    exact known
  · intro ended markers
    let base := Runs.run (KnowledgeBase.step settings pagerank summary) beginning.base turns
    have sound : KnowledgeBase.Sound settings base :=
      Runs.invariant_along initially preserved safe
    rcases sound.marked markers with resolved | ⟨run, merges⟩
    · exact resolved
    · have notEnded : (base.runs run).hasEnded = false := by
        rw [GraphRun.hasEnded]
        rw [GraphRun.merges] at merges
        cases phase : (base.runs run).phase with
        | merging todo => rfl
        | _ => simp [phase] at merges
      exact absurd ((ended run).symm.trans notEnded) (by decide)

end Correctness

def nothingMerged : Beginning ℕ ℕ ℚ where
  store := []
  resolutionDone := false
  communityDone := false
  resolved := false
  markers_right := by simp

def oneDocumentEach (run : Bool) : Settings ℕ ℕ ℚ where
  withResolution := true
  withCommunity := true
  subgraphs := [mention run.toNat run.toNat]

def mergeTurns (run : Bool) : List (Turn Bool ℕ) :=
  [⟨run, .readMarkers⟩, ⟨run, .acquire⟩, ⟨run, .merge⟩, ⟨run, .endMerge⟩]

def postTurns (run : Bool) : List (Turn Bool ℕ) :=
  [⟨run, .acquire⟩, ⟨run, .load⟩, ⟨run, .resolve [] true⟩, ⟨run, .extractCommunity⟩, ⟨run, .finish⟩]

theorem current_oneAfterTheOther :
    let step := KnowledgeBase.step oneDocumentEach (fun names _ _ => (1 : ℚ) / names.length)
      fun _ description => description
    let turns := mergeTurns true ++ postTurns true ++ mergeTurns false ++ postTurns false
    Runs.Along step (SavesAll oneDocumentEach (fun names _ _ => (1 : ℚ) / names.length)
        fun _ description => description) nothingMerged.base turns ∧
      MarkersRight (Runs.run step nothingMerged.base turns) := by
  apply current_along
  decide +kernel

def resolvedBefore : Beginning ℕ ℕ ℚ where
  store := [.graph (mention 1 1).graph [1] false]
  resolutionDone := true
  communityDone := false
  resolved := true
  markers_right := fun _ => rfl

def resumeAndMerge : Bool → Settings ℕ ℕ ℚ
  | true => ⟨true, true, []⟩
  | false => ⟨false, false, [mention 2 2]⟩

/-- A run that resolves the graph of its merge phase takes out the document that another run has
merged since.  A run that read the markers before another run's merge marks the communities of a
graph that is not resolved. -/
theorem not_current :
    (let step := KnowledgeBase.step oneDocumentEach (fun names _ _ => (1 : ℚ) / names.length)
        fun _ description => description
      let turns := mergeTurns true ++ mergeTurns false ++ postTurns true
      ¬Runs.Along step (SavesAll oneDocumentEach (fun names _ _ => (1 : ℚ) / names.length)
        fun _ description => description) nothingMerged.base turns) ∧
    (let step := KnowledgeBase.step resumeAndMerge (fun names _ _ => (1 : ℚ) / names.length)
        fun _ description => description
      let turns := [⟨true, .readMarkers⟩] ++ mergeTurns false ++ [⟨true, .acquire⟩,
        ⟨true, .endMerge⟩, ⟨true, .acquire⟩, ⟨true, .load⟩, ⟨true, .extractCommunity⟩,
        ⟨true, .finish⟩]
      ¬MarkersRight (Runs.run step resolvedBefore.base turns)) := by
  constructor
  · intro step turns saves
    have lost := saves (mergeTurns true ++ mergeTurns false ++ [⟨true, .acquire⟩, ⟨true, .load⟩])
      ⟨true, .resolve [] true⟩ [⟨true, .extractCommunity⟩, ⟨true, .finish⟩] rfl [] true rfl 0
    exact absurd (lost (by decide +kernel)) (by decide +kernel)
  · intro step turns right
    exact absurd (right (by decide +kernel)) (by decide +kernel)

end RagFlow.GraphRag
