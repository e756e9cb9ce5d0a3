import RagFlow.Agent.VariablePaths

/-!
# Laws of the variable store

What is set is got, and other variables stay.  The setter ends in one dictionary, where it writes one
key; the value it replaces there may have had more to read, and the dictionary may be part of
another variable too.
-/

namespace RagFlow.Agent.Variables

open RagFlow.Lib RagFlow.Lib.ObjectHeap

namespace Expression

def namespace? : Expression → Option String
  | .global _ => none
  | .output cpn_id _ _ => some cpn_id

def path : Expression → List String
  | .global name => [name]
  | .output _ root_key rest => if root_key = "" then rest else root_key :: rest

def Comparable (exp other : Expression) : Prop :=
  exp.namespace? = other.namespace? ∧ (exp.path <+: other.path ∨ other.path <+: exp.path)

end Expression

namespace Canvas

/-- All references are to objects of the heap. -/
structure Closed (canvas : Canvas) : Prop where
  heap : ObjectHeap.Closed canvas.heap
  globals : ∀ name value, canvas.globals.get? name = some value → value.Within canvas.heap
  components : ∀ cpn_id outputs, canvas.components.get? cpn_id = some outputs →
    (Reading.outputs outputs).Within canvas.heap

end Canvas

section Laws

variable (python : Interpreter)

/-- The getter returns the same, and no object that can be reached from it has changed. -/
def Unaffected (before after : Canvas) (exp : Expression) : Prop :=
  get_variable_value python after exp = get_variable_value python before exp ∧
    ∀ reading, get_variable_value python before exp = some reading →
      ∀ address, reading.Holds before.heap address →
        after.heap[address]? = before.heap[address]?

structure VariableLaws (before after : Canvas) (exp : Expression) (value : Value Atom) : Prop where
  found : get_variable_value python after exp = some (.value value)
  frame : ∀ other, ¬ exp.Comparable other → Unaffected python before after other

def NothingElse (heap : Heap Atom) (old : Option (Value Atom)) (rest : List String) : Prop :=
  ∀ path : List String, ¬ path <+: rest → ¬ rest <+: path →
    get_variable_param_value python heap (old.elim Reading.none .value) path = Reading.none

def Unshared (canvas : Canvas) (cpn_id : String) (path : List String) (address : Nat) : Prop :=
  ∀ other reading, get_variable_value python canvas other = some reading →
    reading.Holds canvas.heap address → other.namespace? = some cpn_id ∧ other.path <+: path

def InsideItself (heap : Heap Atom) (address : Nat) : Prop :=
  ∃ fields key member, dictAt heap address = some fields ∧ fields.get? key = some member ∧
    ObjectHeap.Holds heap address member

def rootValue (outputs : Dict String (Value Atom)) (root_key : String) : Value Atom :=
  (outputs.get? root_key).getD (.atom (.text ""))

/-- What is replaced has nothing else to read.  What is changed is not shared, unless it had the
value already. -/
structure WritesAlone (canvas : Canvas) (cpn_id root_key : String) (place : Place)
    (value : Value Atom) : Prop where
  nothingElse : NothingElse python canvas.heap (place.old canvas.heap) place.rest
  unshared : place.old canvas.heap = some value ∧ place.rest = [] ∨
    Unshared python canvas cpn_id (root_key :: place.before) place.address

def Undisturbing (canvas : Canvas) (value : Value Atom) : Expression → Prop
  | .global _ => True
  | .output cpn_id root_key rest =>
    root_key ≠ "" ∧ ∀ outputs, canvas.components.get? cpn_id = some outputs → rest ≠ [] →
      if falsy python canvas.heap (rootValue outputs root_key) then
        NothingElse python canvas.heap (some (rootValue outputs root_key)) rest
      else
        ∀ address, rootValue outputs root_key = .ref address →
          WritesAlone python canvas cpn_id root_key (place canvas.heap address rest) value

def Ordinary (canvas : Canvas) : Expression → Prop
  | .global _ => True
  | .output cpn_id root_key rest =>
    root_key ≠ "" ∧ ∀ outputs address, canvas.components.get? cpn_id = some outputs → rest ≠ [] →
      rootValue outputs root_key = .ref address →
        ¬ InsideItself canvas.heap (place canvas.heap address rest).address

end Laws

variable {python : Interpreter} {heap changed : Heap Atom} {path rest : List String}

section Readings

variable {canvas after : Canvas} {cpn_id root_key : String} {outputs : Dict String (Value Atom)}
  {value : Value Atom}

theorem Reading.Within.output (within : (Reading.outputs outputs).Within heap) (key : String) :
    (output outputs key).Within heap := by
  unfold Variables.output
  split_ifs
  · exact within
  · cases found : outputs.get? key with
    | none => trivial
    | some held => exact within key held found

theorem Canvas.Closed.within_get (closed : canvas.Closed) {exp : Expression} {reading : Reading}
    (found : get_variable_value python canvas exp = some reading) :
    reading.Within canvas.heap := by
  cases exp with
  | global name =>
    obtain ⟨held, isHeld, rfl⟩ := Option.map_eq_some_iff.mp found
    exact closed.globals name held isHeld
  | output cpn_id root_key rest =>
    obtain ⟨outputs, isOutputs, rfl⟩ := Option.map_eq_some_iff.mp found
    exact within_walk closed.heap ((closed.components cpn_id outputs isOutputs).output root_key)

theorem path_output (cpn_id root_key : String) (rest : List String) :
    (Expression.output cpn_id root_key rest).path =
      if root_key = "" then rest else root_key :: rest := rfl

theorem path_append (cpn_id root_key : String) (path rest : List String) :
    (Expression.output cpn_id root_key (path ++ rest)).path =
      (Expression.output cpn_id root_key path).path ++ rest := by
  rw [path_output, path_output]
  split_ifs <;> rfl

theorem path_of_named (named : root_key ≠ "") (rest : List String) :
    (Expression.output cpn_id root_key rest).path = root_key :: rest := by
  rw [path_output, if_neg named]

theorem get_append (canvas : Canvas) (cpn_id root_key : String) (path rest : List String) :
    get_variable_value python canvas (.output cpn_id root_key (path ++ rest)) =
      (get_variable_value python canvas (.output cpn_id root_key path)).map fun reading =>
        get_variable_param_value python canvas.heap reading rest := by
  simp only [get_variable_value, walk_append, Option.map_map]
  rfl

theorem get_of_path (isOutputs : canvas.components.get? cpn_id = some outputs)
    (isRoot : outputs.get? root_key = some value) {other : Expression} {keys : List String}
    (sameCpn : other.namespace? = some cpn_id) (samePath : other.path = root_key :: keys) :
    get_variable_value python canvas other =
      some (get_variable_param_value python canvas.heap (.value value) keys) := by
  cases other with
  | global name => contradiction
  | output otherId otherRoot rest =>
    obtain rfl : otherId = cpn_id := Option.some.inj sameCpn
    rw [get_variable_value, isOutputs, Option.map_some]
    rw [path_output] at samePath
    split_ifs at samePath with unnamed
    · rw [samePath, unnamed, output, if_pos rfl, walk_cons, step, isRoot]
      rfl
    · obtain ⟨rfl, rfl⟩ := List.cons.inj samePath
      rw [output, if_neg unnamed, isRoot]
      rfl

theorem output_of_get? (named : root_key ≠ "") (isRoot : outputs.get? root_key = some value) :
    output outputs root_key = .value value := by
  rw [output, if_neg named, isRoot]
  rfl

theorem walk_of_kept (closed : ObjectHeap.Closed heap)
    (keeps : ∀ address, address < heap.length → changed[address]? = heap[address]?)
    {reading : Reading} (within : reading.Within heap) :
    get_variable_param_value python changed reading path =
      get_variable_param_value python heap reading path := by
  refine walk_congr fun before key rest _ => step_congr fun address isRef => keeps address ?_
  have inside := @within_walk python heap before reading closed within
  rw [isRef] at inside
  exact inside

end Readings

section Outputs

variable {canvas : Canvas} {cpn_id root_key : String} {outputs : Dict String (Value Atom)}
  {value written : Value Atom}

def withOutput (canvas : Canvas) (changed : Heap Atom) (cpn_id root_key : String)
    (written : Value Atom) : Canvas :=
  { canvas.setOutput cpn_id root_key written with heap := changed }

theorem components_withOutput (isOutputs : canvas.components.get? cpn_id = some outputs)
    (otherId : String) :
    (withOutput canvas changed cpn_id root_key written).components.get? otherId =
      if otherId = cpn_id then some (outputs.upsert root_key fun _ => written)
      else canvas.components.get? otherId := by
  simp [withOutput, Canvas.setOutput, isOutputs]

theorem unaffected_withOutput (closed : canvas.Closed)
    (isOutputs : canvas.components.get? cpn_id = some outputs) (named : root_key ≠ "")
    (keeps : ∀ address, address < canvas.heap.length →
      changed[address]? = canvas.heap[address]?)
    (chain : Chain changed value rest written)
    (nothingElse : NothingElse python canvas.heap (some (rootValue outputs root_key)) rest)
    {other : Expression} (apart : ¬ (Expression.output cpn_id root_key rest).Comparable other) :
    Unaffected python canvas (withOutput canvas changed cpn_id root_key written) other := by
  refine ⟨?_, fun reading found address holds =>
    keeps address (holds.lt closed.heap (closed.within_get found))⟩
  cases other with
  | global name => rfl
  | output otherId otherRoot path =>
    rw [get_variable_value, get_variable_value, components_withOutput isOutputs]
    by_cases sameCpn : otherId = cpn_id
    · subst sameCpn
      rw [if_pos rfl, isOutputs, Option.map_some, Option.map_some]
      have within := closed.components otherId outputs isOutputs
      have apartPath : ¬ root_key :: rest <+: (Expression.output otherId otherRoot path).path ∧
          ¬ (Expression.output otherId otherRoot path).path <+: root_key :: rest := by
        rw [Expression.Comparable, path_of_named named] at apart
        exact not_or.mp fun comparable => apart ⟨rfl, comparable⟩
      congr 1
      change get_variable_param_value python changed _ path =
        get_variable_param_value python canvas.heap _ path
      rw [path_output] at apartPath
      unfold output
      split_ifs at apartPath ⊢ with unnamed
      · cases path with
        | nil => exact absurd List.nil_prefix apartPath.2
        | cons key path =>
          simp only [walk_cons, step, Dict.get?_upsert]
          split_ifs with same
          · subst same
            simp only [List.cons_prefix_cons, true_and] at apartPath
            have before : get_variable_param_value python canvas.heap
                ((outputs.get? key).elim Reading.none .value) path = Reading.none := by
              cases found : outputs.get? key with
              | none => exact walk_none _ path
              | some held =>
                have nothing := nothingElse path apartPath.2 apartPath.1
                rwa [rootValue, found] at nothing
            rw [before]
            exact walk_chain_apart chain apartPath.2 apartPath.1
          · refine walk_of_kept closed.heap keeps ?_
            cases found : outputs.get? key with
            | none => trivial
            | some held => exact within key held found
      · rw [Dict.get?_upsert]
        split_ifs with same
        · subst same
          simp only [List.cons_prefix_cons, true_and] at apartPath
          have nothing := nothingElse path apartPath.2 apartPath.1
          exact (walk_chain_apart chain apartPath.2 apartPath.1).trans nothing.symm
        · refine walk_of_kept closed.heap keeps ?_
          cases found : outputs.get? otherRoot with
          | none => trivial
          | some held => exact within otherRoot held found
    · rw [if_neg sameCpn]
      cases found : canvas.components.get? otherId with
      | none => rfl
      | some others =>
        refine congrArg some (walk_of_kept closed.heap keeps ?_)
        exact (closed.components otherId others found).output otherRoot

theorem get_withOutput (isOutputs : canvas.components.get? cpn_id = some outputs)
    (named : root_key ≠ "") (path : List String) :
    get_variable_value python (withOutput canvas changed cpn_id root_key written)
        (.output cpn_id root_key path) =
      some (get_variable_param_value python changed (.value written) path) := by
  rw [get_variable_value, components_withOutput isOutputs, if_pos rfl, Option.map_some,
    @output_of_get? _ _ written named (by simp)]
  rfl

theorem variableLaws_withOutput (closed : canvas.Closed)
    (isOutputs : canvas.components.get? cpn_id = some outputs) (named : root_key ≠ "")
    (keeps : ∀ address, address < canvas.heap.length →
      changed[address]? = canvas.heap[address]?)
    (chain : Chain changed value rest written) :
    VariableLaws python canvas (withOutput canvas changed cpn_id root_key written)
        (.output cpn_id root_key rest) value ↔
      NothingElse python canvas.heap (some (rootValue outputs root_key)) rest := by
  constructor
  · intro laws path apart beside
    have notComparable : ¬ (Expression.output cpn_id root_key rest).Comparable
        (.output cpn_id root_key path) := by
      rw [Expression.Comparable, path_of_named named, path_of_named named]
      simp [apart, beside]
    have same := (laws.frame _ notComparable).1
    rw [get_withOutput isOutputs named, walk_chain_apart chain apart beside, get_variable_value,
      isOutputs, Option.map_some, output, if_neg named] at same
    exact (Option.some.inj same).symm
  · intro nothingElse
    refine ⟨?_, fun other apart => ?_⟩
    · rw [get_withOutput isOutputs named, walk_chain chain]
    · exact unaffected_withOutput closed isOutputs named keeps chain nothingElse apart

end Outputs

section InPlace

variable {found : Place} {value written : Value Atom} {fields : Dict String (Value Atom)}

namespace Writes

variable (writes : Writes heap changed found value written fields)

include writes

theorem step_changed :
    step python changed (.value (.ref found.address)) found.key = .value written := by
  rw [step_dict (dictAt_eq_some_iff.mpr writes.changed)]
  simp

theorem step_eq {reading : Reading} {key : String} (within : reading.Within heap)
    (away : ¬(reading = .value (.ref found.address) ∧ key = found.key)) :
    step python changed reading key = step python heap reading key := by
  by_cases here : reading = .value (.ref found.address)
  · subst here
    have otherKey : key ≠ found.key := fun same => away ⟨rfl, same⟩
    rw [step_dict (dictAt_eq_some_iff.mpr writes.changed), step_dict writes.isDict]
    simp [otherKey]
  · refine step_congr fun address isRef => writes.keeps.others address ?_ ?_
    · subst isRef
      exact within
    · rintro rfl
      exact here isRef

theorem walk_eq (closed : ObjectHeap.Closed heap) {reading : Reading}
    (within : reading.Within heap)
    (away : ∀ before rest, path = before ++ found.key :: rest →
      get_variable_param_value python heap reading before ≠ .value (.ref found.address)) :
    get_variable_param_value python changed reading path =
      get_variable_param_value python heap reading path := by
  refine walk_congr fun before key rest split => writes.step_eq (within_walk closed within) ?_
  rintro ⟨here, rfl⟩
  exact away before rest split here

theorem old_eq : found.old heap = fields.get? found.key := by
  rw [Place.old, writes.isDict]
  rfl

theorem insideItself {rest : List String}
    (holds : (get_variable_param_value python heap ((found.old heap).elim Reading.none .value)
      rest).Holds heap found.address) : InsideItself heap found.address := by
  have held := holds_of_walk holds
  rw [writes.old_eq] at held
  cases isMember : fields.get? found.key with
  | none =>
    rw [isMember] at held
    exact absurd held not_holds_atom
  | some member =>
    rw [isMember] at held
    exact ⟨fields, found.key, member, writes.isDict, isMember, held⟩

end Writes

end InPlace

section InPlace

variable {canvas after : Canvas} {cpn_id root_key : String} {outputs : Dict String (Value Atom)}
  {cur : Nat} {value written : Value Atom} {fields : Dict String (Value Atom)}

/-- An output that is a dictionary was set along a path in it. -/
structure SetInPlace (canvas after : Canvas) (cpn_id root_key : String)
    (outputs : Dict String (Value Atom)) (cur : Nat) (rest : List String)
    (value written : Value Atom) (fields : Dict String (Value Atom)) : Prop where
  closed : canvas.Closed
  isOutputs : canvas.components.get? cpn_id = some outputs
  named : root_key ≠ ""
  isRoot : outputs.get? root_key = some (.ref cur)
  nonempty : rest ≠ []
  globals : after.globals = canvas.globals
  components : after.components = canvas.components
  writes : Writes canvas.heap after.heap (place canvas.heap cur rest) value written fields

def ComesFirst (python : Interpreter) (canvas : Canvas) (cur : Nat) (found : Place) : Prop :=
  ∀ before rest, found.before = before ++ found.key :: rest →
    get_variable_param_value python canvas.heap (.value (.ref cur)) before ≠
      .value (.ref found.address)

namespace SetInPlace

variable (inPlace : SetInPlace canvas after cpn_id root_key outputs cur rest value written fields)

include inPlace

theorem path_eq : (Expression.output cpn_id root_key rest).path =
    root_key :: ((place canvas.heap cur rest).before ++
      (place canvas.heap cur rest).key :: (place canvas.heap cur rest).rest) := by
  rw [path_of_named inPlace.named, ← place_keys inPlace.nonempty]

theorem get_eq (path : List String) :
    get_variable_value python canvas (.output cpn_id root_key path) =
      some (get_variable_param_value python canvas.heap (.value (.ref cur)) path) :=
  get_of_path inPlace.isOutputs inPlace.isRoot rfl (path_of_named inPlace.named path)

theorem within_cur : (Reading.value (.ref cur)).Within canvas.heap :=
  inPlace.closed.components cpn_id outputs inPlace.isOutputs root_key (.ref cur) inPlace.isRoot

theorem get_after (path : List String) :
    get_variable_value python after (.output cpn_id root_key path) =
      some (get_variable_param_value python after.heap (.value (.ref cur)) path) :=
  get_of_path (inPlace.components ▸ inPlace.isOutputs) inPlace.isRoot rfl
    (path_of_named inPlace.named path)

theorem walk_after (first : ComesFirst python canvas cur (place canvas.heap cur rest))
    (path : List String) :
    get_variable_param_value python after.heap (.value (.ref cur))
        ((place canvas.heap cur rest).before ++ (place canvas.heap cur rest).key :: path) =
      get_variable_param_value python after.heap (.value written) path := by
  have sameBefore := inPlace.writes.walk_eq inPlace.closed.heap inPlace.within_cur first
  rw [walk_append, sameBefore, walk_place, walk_cons, inPlace.writes.step_changed]

theorem walk_before (path : List String) :
    get_variable_param_value python canvas.heap (.value (.ref cur))
        ((place canvas.heap cur rest).before ++ (place canvas.heap cur rest).key :: path) =
      get_variable_param_value python canvas.heap
        (((place canvas.heap cur rest).old canvas.heap).elim Reading.none .value) path := by
  rw [walk_append, walk_place, walk_cons, step_dict inPlace.writes.isDict, inPlace.writes.old_eq]

theorem found_of_comesFirst (first : ComesFirst python canvas cur (place canvas.heap cur rest)) :
    get_variable_value python after (.output cpn_id root_key rest) = some (.value value) := by
  have walked := inPlace.walk_after first (place canvas.heap cur rest).rest
  rw [← place_keys inPlace.nonempty, walk_chain inPlace.writes.chain] at walked
  rw [inPlace.get_after, walked]

theorem comesFirst_of_not_insideItself
    (outside : ¬ InsideItself canvas.heap (place canvas.heap cur rest).address) :
    ComesFirst python canvas cur (place canvas.heap cur rest) := by
  intro before later split here
  have arrives := @walk_place python canvas.heap cur rest
  rw [split, walk_append, here, walk_cons, step_dict inPlace.writes.isDict,
    ← inPlace.writes.old_eq] at arrives
  refine outside (@Writes.insideItself python _ _ _ _ _ _ inPlace.writes later ?_)
  rw [arrives]
  exact .here

theorem path_of_reads (unshared : Unshared python canvas cpn_id
      (root_key :: (place canvas.heap cur rest).before) (place canvas.heap cur rest).address)
    {otherId otherRoot : String} {path : List String}
    (reads : get_variable_value python canvas (.output otherId otherRoot path) =
      some (.value (.ref (place canvas.heap cur rest).address))) :
    otherId = cpn_id ∧ (Expression.output otherId otherRoot path).path =
      root_key :: (place canvas.heap cur rest).before := by
  obtain ⟨sameCpn, later, split⟩ := unshared _ _ reads .here
  obtain rfl : otherId = cpn_id := Option.some.inj sameCpn
  refine ⟨rfl, ?_⟩
  have longer : (Expression.output otherId otherRoot (path ++ later)).path =
      root_key :: (place canvas.heap cur rest).before := by rw [path_append, split]
  -- The rest of the path leads from the dictionary back to it, so it can be taken once more.
  have again := @get_append python canvas otherId otherRoot path later
  rw [get_of_path inPlace.isOutputs inPlace.isRoot rfl longer, walk_place, reads, Option.map_some,
    Option.some.injEq] at again
  have beyond := @get_eq python _ _ _ _ _ _ _ _ _ _ inPlace
    ((place canvas.heap cur rest).before ++ later)
  rw [walk_append, walk_place, ← again] at beyond
  have shorter := (unshared _ _ beyond .here).2.length_le
  rw [path_of_named inPlace.named, List.length_cons, List.length_cons, List.length_append]
    at shorter
  obtain rfl : later = [] := List.length_eq_zero_iff.mp (by omega)
  rw [← split, List.append_nil]

theorem unaffected (alone : NothingElse python canvas.heap
      ((place canvas.heap cur rest).old canvas.heap) (place canvas.heap cur rest).rest)
    (unshared : Unshared python canvas cpn_id (root_key :: (place canvas.heap cur rest).before)
      (place canvas.heap cur rest).address)
    {other : Expression} (apart : ¬ (Expression.output cpn_id root_key rest).Comparable other) :
    Unaffected python canvas after other := by
  have writes := inPlace.writes
  have notHeld : ∀ reading, get_variable_value python canvas other = some reading →
      ¬ reading.Holds canvas.heap (place canvas.heap cur rest).address := by
    intro reading found holds
    obtain ⟨sameCpn, isPrefix⟩ := unshared other reading found holds
    refine apart ⟨sameCpn.symm, Or.inr (isPrefix.trans ?_)⟩
    rw [inPlace.path_eq, ← List.cons_append]
    exact List.prefix_append _ _
  refine ⟨?_, fun reading found address holds => ?_⟩
  · cases other with
    | global name => rw [get_variable_value, get_variable_value, inPlace.globals]
    | output otherId otherRoot path =>
      rw [get_variable_value, get_variable_value, inPlace.components]
      cases isComponent : canvas.components.get? otherId with
      | none => rfl
      | some others =>
        have within := (inPlace.closed.components otherId others isComponent).output otherRoot
        have readsFirst : ∀ before, get_variable_param_value python canvas.heap
            (output others otherRoot) before =
              .value (.ref (place canvas.heap cur rest).address) →
            otherId = cpn_id ∧ (Expression.output otherId otherRoot before).path =
              root_key :: (place canvas.heap cur rest).before := by
          intro before reads
          refine inPlace.path_of_reads unshared ?_
          rw [get_variable_value, isComponent, Option.map_some, reads]
        rw [Option.map_some, Option.map_some]
        congr 1
        by_cases comes : ∃ before later, path = before ++ (place canvas.heap cur rest).key ::
            later ∧ get_variable_param_value python canvas.heap (output others otherRoot)
              before = .value (.ref (place canvas.heap cur rest).address)
        · obtain ⟨before, later, rfl, reads⟩ := comes
          obtain ⟨rfl, isPath⟩ := readsFirst before reads
          have apartLater : ¬ (place canvas.heap cur rest).rest <+: later ∧
              ¬ later <+: (place canvas.heap cur rest).rest := by
            rw [Expression.Comparable, inPlace.path_eq, path_append, isPath,
              ← List.cons_append, List.prefix_append_right_inj, List.prefix_append_right_inj,
              List.prefix_cons_inj, List.prefix_cons_inj] at apart
            exact not_or.mp fun comparable => apart ⟨rfl, comparable⟩
          have sameBefore : get_variable_param_value python after.heap
              (output others otherRoot) before =
                .value (.ref (place canvas.heap cur rest).address) := by
            refine (writes.walk_eq inPlace.closed.heap within ?_).trans reads
            intro earlier between split readsEarlier
            have shorter := congrArg List.length (readsFirst earlier readsEarlier).2
            rw [← isPath, split, path_append, List.length_append, List.length_cons] at shorter
            omega
          have old := alone later apartLater.2 apartLater.1
          rw [writes.old_eq] at old
          rw [walk_append, sameBefore, walk_cons, writes.step_changed,
            walk_chain_apart writes.chain apartLater.2 apartLater.1, walk_append, reads,
            walk_cons, step_dict writes.isDict, old]
        · refine writes.walk_eq inPlace.closed.heap within fun before later split reads => ?_
          exact comes ⟨before, later, split, reads⟩
  · refine writes.keeps.others address (holds.lt inPlace.closed.heap
      (inPlace.closed.within_get found)) ?_
    rintro rfl
    exact notHeld reading found holds

theorem laws_of_same (same : (place canvas.heap cur rest).old canvas.heap = some value)
    (last : (place canvas.heap cur rest).rest = []) :
    VariableLaws python canvas after (.output cpn_id root_key rest) value := by
  have writes := inPlace.writes
  have isWritten : written = value := by
    have chain := writes.chain
    rw [last] at chain
    exact chain
  have keeps : ∀ address, address < canvas.heap.length →
      after.heap[address]? = canvas.heap[address]? := by
    intro address bound
    by_cases here : address = (place canvas.heap cur rest).address
    · rw [here, writes.changed, dictAt_eq_some_iff.mp writes.isDict,
        Dict.upsert_eq_self (writes.old_eq.symm.trans same) isWritten]
    · exact writes.keeps.others address bound here
  refine ⟨?_, fun other _ => ⟨?_, fun reading found address holds => ?_⟩⟩
  · rw [inPlace.get_after, walk_of_kept inPlace.closed.heap keeps inPlace.within_cur,
      @place_keys canvas.heap cur rest inPlace.nonempty, last, inPlace.walk_before,
      same]
    rfl
  · cases other with
    | global name => rw [get_variable_value, get_variable_value, inPlace.globals]
    | output otherId otherRoot path =>
      rw [get_variable_value, get_variable_value, inPlace.components]
      cases isComponent : canvas.components.get? otherId with
      | none => rfl
      | some others =>
        refine congrArg some (walk_of_kept inPlace.closed.heap keeps ?_)
        exact (inPlace.closed.components otherId others isComponent).output otherRoot
  · exact keeps address (holds.lt inPlace.closed.heap (inPlace.closed.within_get found))

theorem laws_of_writesAlone (alone : WritesAlone python canvas cpn_id root_key
      (place canvas.heap cur rest) value) :
    VariableLaws python canvas after (.output cpn_id root_key rest) value := by
  rcases alone.unshared with ⟨same, last⟩ | unshared
  · exact inPlace.laws_of_same same last
  · refine ⟨inPlace.found_of_comesFirst fun before later split reads => ?_,
      fun other apart => inPlace.unaffected alone.nothingElse unshared apart⟩
    have isPath := (inPlace.path_of_reads unshared
      ((inPlace.get_eq before).trans (congrArg some reads))).2
    have shorter := congrArg List.length isPath
    rw [path_of_named inPlace.named, split] at shorter
    simp at shorter

theorem changed_of_not_same (notSame : ¬((place canvas.heap cur rest).old canvas.heap = some value ∧
      (place canvas.heap cur rest).rest = [])) :
    after.heap[(place canvas.heap cur rest).address]? ≠
      canvas.heap[(place canvas.heap cur rest).address]? := by
  have writes := inPlace.writes
  rw [writes.changed, dictAt_eq_some_iff.mp writes.isDict, writes.old_eq] at *
  intro same
  have sameFields : (fields.upsert (place canvas.heap cur rest).key fun _ => written) = fields := by
    injection same with same
    injection same
  have isOld : fields.get? (place canvas.heap cur rest).key = some written := by
    have lookup := congrArg (fun dict => dict.get? (place canvas.heap cur rest).key) sameFields
    simpa using lookup.symm
  by_cases last : (place canvas.heap cur rest).rest = []
  · have chain := writes.chain
    rw [last] at chain
    obtain rfl : written = value := chain
    exact notSame ⟨isOld, last⟩
  · obtain ⟨address, rfl, isNew⟩ := writes.isNew last
    have inside := inPlace.closed.heap.within (dictAt_eq_some_iff.mp writes.isDict)
      (mem_members_of_get? isOld)
    exact absurd inside (Nat.not_lt.mpr isNew)

theorem writesAlone_of_laws
    (outside : ¬ InsideItself canvas.heap (place canvas.heap cur rest).address)
    (laws : VariableLaws python canvas after (.output cpn_id root_key rest) value) :
    WritesAlone python canvas cpn_id root_key (place canvas.heap cur rest) value := by
  have first := @comesFirst_of_not_insideItself python _ _ _ _ _ _ _ _ _ _ inPlace outside
  refine ⟨fun path apart beside => ?_, ?_⟩
  · have notComparable : ¬ (Expression.output cpn_id root_key rest).Comparable
        (.output cpn_id root_key ((place canvas.heap cur rest).before ++
          (place canvas.heap cur rest).key :: path)) := by
      rw [Expression.Comparable, inPlace.path_eq, path_of_named inPlace.named,
        List.prefix_cons_inj, List.prefix_cons_inj, List.prefix_append_right_inj,
        List.prefix_append_right_inj, List.prefix_cons_inj, List.prefix_cons_inj]
      rintro ⟨-, one | other⟩
      · exact beside one
      · exact apart other
    have same := (laws.frame _ notComparable).1
    rw [inPlace.get_after, inPlace.get_eq, inPlace.walk_after first, inPlace.walk_before,
      walk_chain_apart inPlace.writes.chain apart beside] at same
    exact (Option.some.inj same).symm
  · by_cases same : (place canvas.heap cur rest).old canvas.heap = some value ∧
        (place canvas.heap cur rest).rest = []
    · exact Or.inl same
    · refine Or.inr fun other reading found holds => ?_
      -- A path through the key that is written would lead from the dictionary back to it.
      have notThrough : ∀ later, other.namespace? = some cpn_id →
          other.path ≠ root_key :: ((place canvas.heap cur rest).before ++
            (place canvas.heap cur rest).key :: later) := by
        intro later sameCpn isPath
        rw [get_of_path inPlace.isOutputs inPlace.isRoot sameCpn isPath, inPlace.walk_before,
          Option.some.injEq] at found
        exact outside (@Writes.insideItself python _ _ _ _ _ _ inPlace.writes later
          (found ▸ holds))
      by_cases comparable : (Expression.output cpn_id root_key rest).Comparable other
      · obtain ⟨sameCpn, along⟩ := comparable
        refine ⟨sameCpn.symm, ?_⟩
        rw [inPlace.path_eq] at along
        rcases along with ⟨later, split⟩ | isPrefix
        · refine absurd split.symm ?_
          rw [List.cons_append, List.append_assoc, List.cons_append]
          exact notThrough _ sameCpn.symm
        · rcases List.prefix_or_prefix_of_prefix isPrefix
              (List.prefix_append (root_key :: (place canvas.heap cur rest).before) _) with
            shorter | ⟨later, split⟩
          · exact shorter
          · cases later with
            | nil => rw [← split, List.append_nil]
            | cons key later =>
              rw [← split, ← List.cons_append, List.prefix_append_right_inj,
                List.cons_prefix_cons] at isPrefix
              obtain ⟨rfl, -⟩ := isPrefix
              exact absurd split.symm (notThrough later sameCpn.symm)
      · exact absurd ((laws.frame other comparable).2 reading found _ holds)
          (inPlace.changed_of_not_same same)

end SetInPlace

end InPlace

section Setting

variable {canvas after : Canvas} {value : Value Atom}

theorem variableLaws_global (name : String) :
    VariableLaws python canvas
      { canvas with globals := canvas.globals.upsert name fun _ => value } (.global name) value := by
  refine ⟨by simp [get_variable_value], fun other apart => ⟨?_, fun _ _ _ _ => rfl⟩⟩
  cases other with
  | output => rfl
  | global otherName =>
    have different : otherName ≠ name := by
      rintro rfl
      exact apart ⟨rfl, Or.inl List.prefix_rfl⟩
    simp [get_variable_value, different]

variable {cpn_id root_key : String} {outputs : Dict String (Value Atom)}

theorem rootDict_of_falsy (named : root_key ≠ "")
    (isFalsy : falsy python canvas.heap (rootValue outputs root_key) = true) :
    canvas.rootDict python outputs root_key =
      some (canvas.alloc (.dict .empty), canvas.heap.length) := by
  simp only [Canvas.rootDict, output, if_neg named]
  rw [← rootValue, if_pos isFalsy]

theorem rootDict_of_truthy (named : root_key ≠ "")
    (isTruthy : ¬ falsy python canvas.heap (rootValue outputs root_key) = true)
    {root : Canvas × Nat} (isRoot : canvas.rootDict python outputs root_key = some root) :
    root.1 = canvas ∧ rootValue outputs root_key = .ref root.2 ∧
      ∃ fields, dictAt canvas.heap root.2 = some fields := by
  simp only [Canvas.rootDict, output, if_neg named] at isRoot
  rw [← rootValue, if_neg isTruthy] at isRoot
  cases held : rootValue outputs root_key with
  | atom atom => simp [held] at isRoot
  | ref address =>
    simp only [held] at isRoot
    split_ifs at isRoot with isDict
    obtain rfl := Option.some.inj isRoot
    exact ⟨rfl, rfl, Option.isSome_iff_exists.mp isDict⟩

theorem get?_of_rootValue {address : Nat} (isRef : rootValue outputs root_key = .ref address) :
    outputs.get? root_key = some (.ref address) := by
  unfold rootValue at isRef
  cases found : outputs.get? root_key with
  | none => simp [found] at isRef
  | some held => simpa [found] using isRef

theorem setOutput_same (isOutputs : canvas.components.get? cpn_id = some outputs)
    (isRoot : outputs.get? root_key = some value) :
    (canvas.setOutput cpn_id root_key value).components = canvas.components := by
  have sameOutputs : (outputs.upsert root_key fun _ => value) = outputs :=
    Dict.upsert_eq_self isRoot rfl
  have written : (canvas.setOutput cpn_id root_key value).components =
      canvas.components.upsert cpn_id fun outputs =>
        (outputs.getD .empty).upsert root_key fun _ => value := rfl
  rw [written, Dict.upsert_eq_self isOutputs sameOutputs]

theorem laws_of_falsy (closed : canvas.Closed)
    (isOutputs : canvas.components.get? cpn_id = some outputs) (named : root_key ≠ "")
    {rest : List String} (nonempty : rest ≠ []) :
    VariableLaws python canvas
        (withOutput canvas (set_variable_param_value (canvas.heap ++ [.dict .empty])
          canvas.heap.length value rest) cpn_id root_key (.ref canvas.heap.length))
        (.output cpn_id root_key rest) value ↔
      NothingElse python canvas.heap (some (rootValue outputs root_key)) rest := by
  obtain ⟨chain, keeps⟩ := @chain_set _ _ value rest (@dictAt_new canvas.heap) nonempty
  refine variableLaws_withOutput closed isOutputs named (fun address bound => ?_) chain
  rw [keeps.others address (by simp; omega) bound.ne, List.getElem?_append_left bound]

end Setting

/-- A variable that disturbs nothing obeys the laws; where the dictionary that is written is not part
of itself, only such a variable does. -/
theorem variableLaws_iff (python : Interpreter) (canvas after : Canvas) (closed : canvas.Closed)
    (exp : Expression) (value : Value Atom)
    (set : set_variable_value python canvas value exp = some after) :
    (Undisturbing python canvas value exp → VariableLaws python canvas after exp value) ∧
      (Ordinary canvas exp → VariableLaws python canvas after exp value →
        Undisturbing python canvas value exp) := by
  cases exp with
  | global name =>
    obtain rfl := Option.some.inj set
    exact ⟨fun _ => variableLaws_global name, fun _ _ => trivial⟩
  | output cpn_id root_key rest =>
    rw [set_variable_value] at set
    cases isOutputs : canvas.components.get? cpn_id with
    | none => simp [isOutputs] at set
    | some outputs =>
      simp only [isOutputs] at set
      by_cases whole : rest = []
      · subst whole
        rw [if_pos rfl] at set
        obtain rfl := Option.some.inj set
        have laws : ∀ named : root_key ≠ "", VariableLaws python canvas
            (canvas.setOutput cpn_id root_key value) (.output cpn_id root_key []) value := by
          intro named
          refine (variableLaws_withOutput closed isOutputs named (fun _ _ => rfl) ?_).mpr ?_
          · rfl
          · exact fun path _ beside => absurd List.nil_prefix beside
        refine ⟨fun undisturbing => laws undisturbing.1, fun ordinary _ => ⟨ordinary.1, ?_⟩⟩
        exact fun _ _ nonempty => absurd rfl nonempty
      · rw [if_neg whole] at set
        obtain ⟨root, isRoot, rfl⟩ := Option.map_eq_some_iff.mp set
        suffices laws : ∀ named : root_key ≠ "", (Undisturbing python canvas value
            (.output cpn_id root_key rest) → VariableLaws python canvas _
              (.output cpn_id root_key rest) value) ∧
            (Ordinary canvas (.output cpn_id root_key rest) →
              VariableLaws python canvas _ (.output cpn_id root_key rest) value →
                Undisturbing python canvas value (.output cpn_id root_key rest)) from
          ⟨fun undisturbing => (laws undisturbing.1).1 undisturbing,
            fun ordinary => (laws ordinary.1).2 ordinary⟩
        intro named
        by_cases isFalsy : falsy python canvas.heap (rootValue outputs root_key) = true
        · rw [rootDict_of_falsy named isFalsy] at isRoot
          obtain rfl := Option.some.inj isRoot
          have laws := @laws_of_falsy python canvas value cpn_id root_key outputs closed isOutputs
            named rest whole
          refine ⟨fun undisturbing => laws.mpr ?_, fun _ holds => ⟨named, ?_⟩⟩
          · have alone := undisturbing.2 outputs isOutputs whole
            rwa [if_pos isFalsy] at alone
          · intro others isOthers _
            obtain rfl := Option.some.inj (isOutputs.symm.trans isOthers)
            rw [if_pos isFalsy]
            exact laws.mp holds
        · obtain ⟨sameCanvas, isRef, fields, isDict⟩ := rootDict_of_truthy named isFalsy isRoot
          obtain ⟨after, cur⟩ := root
          obtain rfl : after = canvas := sameCanvas
          obtain ⟨written, last, writes⟩ := @set_writes after.heap cur value rest fields isDict whole
          have isCur := get?_of_rootValue isRef
          have inPlace : SetInPlace after
              { after.setOutput cpn_id root_key (.ref cur) with
                heap := set_variable_param_value after.heap cur value rest }
              cpn_id root_key outputs cur rest value written last :=
            ⟨closed, isOutputs, named, isCur, whole, rfl, setOutput_same isOutputs isCur, writes⟩
          refine ⟨fun undisturbing => inPlace.laws_of_writesAlone ?_,
            fun ordinary holds => ⟨named, ?_⟩⟩
          · have alone := undisturbing.2 outputs isOutputs whole
            rw [if_neg isFalsy] at alone
            exact alone cur isRef
          · intro others isOthers _
            obtain rfl := Option.some.inj (isOutputs.symm.trans isOthers)
            rw [if_neg isFalsy]
            intro address isAddress
            obtain rfl : address = cur := Value.ref.inj (isAddress.symm.trans isRef)
            have outside := ordinary.2 outputs address isOutputs whole isAddress
            exact inPlace.writesAlone_of_laws outside holds

def plainPython : Interpreter where
  loads _ := none
  int text := if text = "0" then some 0 else none
  getattr _ _ := .none
  isZero literal := literal = "0"

def prices : Canvas where
  heap :=
    [.dict (Dict.empty.upsert "list" fun _ => .ref 1), .list [.atom (.number "10")]]
  globals := .empty
  components := Dict.empty.upsert "c" fun _ => Dict.empty.upsert "x" fun _ => .ref 0

def emptyCanvas : Canvas where
  heap := []
  globals := .empty
  components := Dict.empty.upsert "c" fun _ => .empty

theorem variableLaws_emptyCanvas :
    ∃ after, set_variable_value plainPython emptyCanvas (.atom (.text "v"))
        (.output "c" "x" ["a", "b"]) = some after ∧
      VariableLaws plainPython emptyCanvas after (.output "c" "x" ["a", "b"])
        (.atom (.text "v")) := by
  have closed : emptyCanvas.Closed := by
    refine ⟨fun cell isCell => absurd isCell List.not_mem_nil, fun name held found => ?_, ?_⟩
    · simp [emptyCanvas] at found
    · intro cpn_id outputs found key held isHeld
      simp only [emptyCanvas, Dict.get?_upsert] at found
      split_ifs at found
      · obtain rfl := Option.some.inj found
        simp at isHeld
      · simp at found
  refine ⟨_, rfl, (variableLaws_iff plainPython emptyCanvas _ closed _ _ rfl).1 ⟨by decide, ?_⟩⟩
  intro outputs isOutputs _
  obtain rfl : Dict.empty = outputs := by simpa [emptyCanvas] using isOutputs
  rw [if_pos (by decide)]
  intro path apart _
  cases path with
  | nil => exact absurd List.nil_prefix apart
  | cons key path => exact walk_none _ path

/-- Setting a key where the list is loses its items. -/
theorem not_variableLaws_prices :
    parseExpression "{c@x.list.k}" = some (.output "c" "x" ["list", "k"]) ∧
      parseExpression "{c@x.list.0}" = some (.output "c" "x" ["list", "0"]) ∧
      ∃ after, set_variable_value plainPython prices (.atom (.text "v"))
          (.output "c" "x" ["list", "k"]) = some after ∧
        ¬ VariableLaws plainPython prices after (.output "c" "x" ["list", "k"])
          (.atom (.text "v")) := by
  refine ⟨by decide +kernel, by decide +kernel, _, rfl, fun laws => ?_⟩
  have apart : ¬ (Expression.output "c" "x" ["list", "k"]).Comparable
      (.output "c" "x" ["list", "0"]) := by
    rw [Expression.Comparable, path_of_named (by decide), path_of_named (by decide)]
    decide
  have same := (laws.frame _ apart).1
  have before : get_variable_value plainPython prices (.output "c" "x" ["list", "0"]) =
      some (.value (.atom (.number "10"))) := rfl
  rw [before] at same
  injection same with same
  injection same with same
  injection same with same
  contradiction

end RagFlow.Agent.Variables
