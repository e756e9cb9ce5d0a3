import Mathlib
import RagFlow.Lib.PyString
import RagFlow.Lib.Runs

/-!
# Verification codes

`send_code` writes a code for a mailbox, replacing an older one.  `code_login` reads the code in
one connection and deletes it in a second one, in which it also looks the user up.  Requests of
any clients interleave; each connection is one atomic step.
-/

namespace RagFlow.Overseas

open RagFlow.Lib RagFlow.Lib.PyString

structure VerifyCode where
  id : Nat
  email : String
  code : String
  expiresAt : ℚ
  deriving DecidableEq

inductive Event where
  | replaced (id : Nat)
  | consumed (id : Nat)
  | loggedIn (row : VerifyCode) (time : ℚ)
  deriving DecidableEq

/-- A `code_login` between its two connections.  `overtaken` is for the statements only: another
request has deleted the codes of the mailbox since the first connection. -/
structure Login where
  email : String
  row : VerifyCode
  overtaken : Bool
  deriving DecidableEq

structure Server where
  verifyCodes : List VerifyCode
  /-- The next `AUTOINCREMENT` id. -/
  nextId : Nat
  /-- The `email` column of `users`. -/
  users : List String
  now : ℚ
  pending : List Login
  log : List Event

inductive Move where
  | sendCode (email : String) (random : Fin 900000)
  | checkCode (email code : String)
  | finishLogin (index : Nat)
  | changeUsers (users : List String)
  | tick (elapsed : ℚ≥0)

def emptyServer : Server where
  verifyCodes := []
  nextId := 1
  users := []
  now := 0
  pending := []
  log := []

def keptCodes (codes : List VerifyCode) (email : String) : List VerifyCode :=
  codes.filter fun row => row.email ≠ email

def deletedIds (codes : List VerifyCode) (email : String) : List Nat :=
  (codes.filter fun row => row.email = email).map VerifyCode.id

def overtake (pending : List Login) (email : String) : List Login :=
  pending.map fun login => { login with overtaken := login.overtaken || login.email = email }

def sendCode (server : Server) (email : String) (random : Fin 900000) : Server :=
  if strip email = "" then server
  else
    { server with
      verifyCodes := keptCodes server.verifyCodes email ++
        [{ id := server.nextId
           email := email
           code := toString (random.val + 100000)
           expiresAt := server.now + 300 }]
      nextId := server.nextId + 1
      pending := overtake server.pending email
      log := server.log ++ (deletedIds server.verifyCodes email).map .replaced }

/-- The first connection of `code_login`: without a matching row the request ends here. -/
def checkCode (server : Server) (email code : String) : Server :=
  match server.verifyCodes.find? fun row =>
      row.email = strip email ∧ row.code = strip code ∧ server.now < row.expiresAt with
  | none => server
  | some row =>
    { server with
      pending := server.pending ++ [{ email := strip email, row := row, overtaken := false }] }

/-- The second connection of `code_login`.  Without a user nothing is committed, and closing the
connection takes the deletion back. -/
def finishLogin (server : Server) (index : Nat) : Server :=
  match server.pending[index]? with
  | none => server
  | some login =>
    let rest := server.pending.eraseIdx index
    if login.email ∈ server.users then
      { server with
        verifyCodes := keptCodes server.verifyCodes login.email
        pending := overtake rest login.email
        log := server.log ++ .loggedIn login.row server.now ::
          (deletedIds server.verifyCodes login.email).map .consumed }
    else { server with pending := rest }

def step (server : Server) : Move → Server
  | .sendCode email random => sendCode server email random
  | .checkCode email code => checkCode server email code
  | .finishLogin index => finishLogin server index
  | .changeUsers users => { server with users := users }
  | .tick elapsed => { server with now := server.now + elapsed }

def Event.login? : Event → Option Nat
  | .loggedIn row _ => some row.id
  | .replaced _ | .consumed _ => none

@[simp] theorem login?_loggedIn (row : VerifyCode) (time : ℚ) :
    (Event.loggedIn row time).login? = some row.id := rfl

@[simp] theorem login?_replaced (id : Nat) : (Event.replaced id).login? = none := rfl

@[simp] theorem login?_consumed (id : Nat) : (Event.consumed id).login? = none := rfl

/-- Each issued code logs in at most once, and never after it was consumed, replaced or
expired. -/
structure SingleUse (log : List Event) : Prop where
  once : (log.filterMap Event.login?).Nodup
  alive : ∀ before row time after, log = before ++ .loggedIn row time :: after →
    .consumed row.id ∉ before ∧ .replaced row.id ∉ before ∧ time < row.expiresAt

def Undisturbed (server : Server) : Move → Prop
  | .finishLogin index => ∀ login ∈ server.pending[index]?, login.email ∈ server.users →
      login.overtaken = false ∧ server.now < login.row.expiresAt
  | _ => True

def Dead (log : List Event) (id : Nat) : Prop := .consumed id ∈ log ∨ .replaced id ∈ log

theorem singleUse_concat {log : List Event} {event : Event} :
    SingleUse (log ++ [event]) ↔ SingleUse log ∧ ∀ row time, event = .loggedIn row time →
      row.id ∉ log.filterMap Event.login? ∧ ¬ Dead log row.id ∧ time < row.expiresAt := by
  constructor
  · intro lawful
    refine ⟨⟨?_, ?_⟩, ?_⟩
    · have once := lawful.once
      rw [List.filterMap_append] at once
      exact once.of_append_left
    · intro before row time after split
      exact lawful.alive before row time (after ++ [event]) (by simp [split])
    · rintro row time rfl
      have once := lawful.once
      rw [List.filterMap_append] at once
      obtain ⟨notConsumed, notReplaced, inTime⟩ := lawful.alive log row time [] rfl
      refine ⟨fun earlier => ?_, fun dead => ?_, inTime⟩
      · exact List.disjoint_of_nodup_append once earlier (by simp)
      · exact dead.elim notConsumed notReplaced
  · rintro ⟨lawful, last⟩
    refine ⟨?_, ?_⟩
    · rw [List.filterMap_append]
      refine List.Nodup.append lawful.once ?_ ?_
      · cases event <;> simp [List.filterMap_cons]
      · intro id earlier now
        cases event with
        | loggedIn row time =>
          have isRow : id = row.id := by simpa using now
          exact (last row time rfl).1 (isRow ▸ earlier)
        | replaced other => simp at now
        | consumed other => simp at now
    · intro before row time after split
      rcases List.eq_nil_or_concat after with rfl | ⟨rest, final, rfl⟩
      · obtain ⟨rfl, sameEvent⟩ := List.append_inj' split rfl
        obtain ⟨-, alive, inTime⟩ := last row time (List.head_eq_of_cons_eq sameEvent)
        exact ⟨fun consumed => alive (.inl consumed), fun replaced => alive (.inr replaced), inTime⟩
      · rw [List.concat_eq_append, ← List.cons_append, ← List.append_assoc] at split
        exact lawful.alive before row time rest (List.append_inj' split rfl).1

theorem singleUse_append {log events : List Event}
    (noLogin : ∀ event ∈ events, event.login? = none) :
    SingleUse (log ++ events) ↔ SingleUse log := by
  induction events using List.reverseRecOn with
  | nil => rw [List.append_nil]
  | append_singleton events event ih =>
    rw [← List.append_assoc, singleUse_concat,
      ih fun event membership => noLogin event (by simp [membership])]
    apply and_iff_left
    rintro row time rfl
    have isLogin : Event.login? (.loggedIn row time) = none := noLogin _ (by simp)
    simp at isLogin

structure Tracked (server : Server) : Prop where
  ids_lt : ∀ row ∈ server.verifyCodes, row.id < server.nextId
  ids_nodup : (server.verifyCodes.map VerifyCode.id).Nodup
  dead_lt : ∀ id, Dead server.log id → id < server.nextId
  stored_alive : ∀ row ∈ server.verifyCodes, ¬ Dead server.log row.id
  loggedIn_dead : ∀ id ∈ server.log.filterMap Event.login?, Dead server.log id
  login_email : ∀ login ∈ server.pending, login.row.email = login.email
  login_stored : ∀ login ∈ server.pending, login.overtaken = false → login.row ∈ server.verifyCodes
  login_dead : ∀ login ∈ server.pending, login.overtaken = true → Dead server.log login.row.id

theorem tracked_empty : Tracked emptyServer := by
  constructor <;> simp [emptyServer, Dead]

theorem Tracked.dead_iff {server : Server} (tracked : Tracked server) {login : Login}
    (inFlight : login ∈ server.pending) :
    Dead server.log login.row.id ↔ login.overtaken = true := by
  constructor
  · intro dead
    by_contra standing
    have stored := tracked.login_stored login inFlight (by simpa using standing)
    exact tracked.stored_alive _ stored dead
  · exact tracked.login_dead login inFlight

theorem Tracked.leave {server : Server} (tracked : Tracked server) {pending : List Login}
    (fewer : pending ⊆ server.pending) : Tracked { server with pending := pending } where
  __ := tracked
  login_email login inFlight := tracked.login_email login (fewer inFlight)
  login_stored login inFlight := tracked.login_stored login (fewer inFlight)
  login_dead login inFlight := tracked.login_dead login (fewer inFlight)

theorem mem_deletedIds {codes : List VerifyCode} {email : String} {id : Nat} :
    id ∈ deletedIds codes email ↔ ∃ row ∈ codes, row.email = email ∧ row.id = id := by
  simp [deletedIds, and_assoc]

theorem Tracked.delete {server : Server} (tracked : Tracked server) (email : String)
    {log : List Event}
    (dead : ∀ id, Dead log id ↔ Dead server.log id ∨ id ∈ deletedIds server.verifyCodes email)
    (loggedIn : ∀ id ∈ log.filterMap Event.login?, Dead log id) :
    Tracked { server with
      verifyCodes := keptCodes server.verifyCodes email
      pending := overtake server.pending email
      log := log } where
  ids_lt row stored := tracked.ids_lt row (List.mem_of_mem_filter stored)
  ids_nodup := tracked.ids_nodup.sublist (List.filter_sublist.map _)
  dead_lt id isDead := by
    rcases (dead id).mp isDead with old | deleted
    · exact tracked.dead_lt id old
    · obtain ⟨row, stored, -, rfl⟩ := mem_deletedIds.mp deleted
      exact tracked.ids_lt row stored
  stored_alive row stored isDead := by
    obtain ⟨wasStored, other⟩ := List.mem_filter.mp stored
    rcases (dead row.id).mp isDead with old | deleted
    · exact tracked.stored_alive row wasStored old
    · obtain ⟨gone, goneStored, sameEmail, sameId⟩ := mem_deletedIds.mp deleted
      obtain rfl := List.inj_on_of_nodup_map tracked.ids_nodup goneStored wasStored sameId
      exact absurd sameEmail (by simpa using other)
  loggedIn_dead := loggedIn
  login_email login inFlight := by
    obtain ⟨old, wasInFlight, rfl⟩ := List.mem_map.mp inFlight
    exact tracked.login_email old wasInFlight
  login_stored login inFlight standing := by
    obtain ⟨old, wasInFlight, rfl⟩ := List.mem_map.mp inFlight
    obtain ⟨wasStanding, other⟩ : old.overtaken = false ∧ old.email ≠ email := by
      simpa using standing
    refine List.mem_filter.mpr ⟨tracked.login_stored old wasInFlight wasStanding, ?_⟩
    simpa [tracked.login_email old wasInFlight] using other
  login_dead login inFlight lost := by
    obtain ⟨old, wasInFlight, rfl⟩ := List.mem_map.mp inFlight
    apply (dead _).mpr
    cases wasLost : old.overtaken with
    | true => exact .inl (tracked.login_dead old wasInFlight wasLost)
    | false =>
      have sameEmail : old.email = email := by simpa [wasLost] using lost
      exact .inr (mem_deletedIds.mpr ⟨old.row, tracked.login_stored old wasInFlight wasLost,
        (tracked.login_email old wasInFlight).trans sameEmail, rfl⟩)

theorem dead_append_replaced {log : List Event} {ids : List Nat} {id : Nat} :
    Dead (log ++ ids.map .replaced) id ↔ Dead log id ∨ id ∈ ids := by
  simp [Dead, or_assoc]

theorem dead_append_consumed {log : List Event} {ids : List Nat} {id : Nat} {row : VerifyCode}
    {time : ℚ} :
    Dead (log ++ .loggedIn row time :: ids.map .consumed) id ↔ Dead log id ∨ id ∈ ids := by
  simp [Dead, or_assoc, or_comm]

theorem tracked_sendCode {server : Server} (tracked : Tracked server) (email : String)
    (random : Fin 900000) : Tracked (sendCode server email random) := by
  unfold sendCode
  split_ifs with blank
  · exact tracked
  · have loggedInDead : ∀ id ∈ (server.log ++
        (deletedIds server.verifyCodes email).map Event.replaced).filterMap Event.login?,
        Dead (server.log ++ (deletedIds server.verifyCodes email).map .replaced) id := by
      intro id loggedIn
      apply dead_append_replaced.mpr
      exact .inl (tracked.loggedIn_dead id (by simpa using loggedIn))
    have deleted := tracked.delete email (fun id => dead_append_replaced) loggedInDead
    constructor
    case ids_lt =>
      intro row stored
      rcases List.mem_append.mp stored with old | new
      · exact Nat.lt_succ_of_lt (deleted.ids_lt row old)
      · rw [List.mem_singleton.mp new]
        exact Nat.lt_succ_self _
    case ids_nodup =>
      rw [List.map_append]
      apply List.Nodup.append deleted.ids_nodup (List.nodup_singleton _)
      intro id old new
      obtain ⟨row, stored, rfl⟩ := List.mem_map.mp old
      exact (deleted.ids_lt row stored).ne (List.mem_singleton.mp new)
    case dead_lt => exact fun id dead => Nat.lt_succ_of_lt (deleted.dead_lt id dead)
    case stored_alive =>
      intro row stored dead
      rcases List.mem_append.mp stored with old | new
      · exact deleted.stored_alive row old dead
      · have below := deleted.dead_lt row.id dead
        rw [List.mem_singleton.mp new] at below
        exact absurd below (lt_irrefl _)
    case loggedIn_dead => exact deleted.loggedIn_dead
    case login_email => exact deleted.login_email
    case login_stored =>
      exact fun login inFlight standing =>
        List.mem_append_left _ (deleted.login_stored login inFlight standing)
    case login_dead => exact deleted.login_dead

theorem tracked_checkCode {server : Server} (tracked : Tracked server) (email code : String) :
    Tracked (checkCode server email code) := by
  unfold checkCode
  split
  · exact tracked
  · next row found =>
      have stored := List.mem_of_find?_eq_some found
      have sameEmail : row.email = strip email := (by simpa using List.find?_some found : _ ∧ _).1
      constructor
      case login_email =>
        intro login inFlight
        rcases List.mem_append.mp inFlight with old | new
        · exact tracked.login_email login old
        · rw [List.mem_singleton.mp new]
          exact sameEmail
      case login_stored =>
        intro login inFlight standing
        rcases List.mem_append.mp inFlight with old | new
        · exact tracked.login_stored login old standing
        · rw [List.mem_singleton.mp new]
          exact stored
      case login_dead =>
        intro login inFlight lost
        rcases List.mem_append.mp inFlight with old | new
        · exact tracked.login_dead login old lost
        · rw [List.mem_singleton.mp new] at lost
          cases lost
      case ids_lt => exact tracked.ids_lt
      case ids_nodup => exact tracked.ids_nodup
      case dead_lt => exact tracked.dead_lt
      case stored_alive => exact tracked.stored_alive
      case loggedIn_dead => exact tracked.loggedIn_dead

theorem tracked_finishLogin {server : Server} (tracked : Tracked server) (index : Nat) :
    Tracked (finishLogin server index) := by
  unfold finishLogin
  split
  · exact tracked
  · next login found =>
      have inFlight := List.mem_of_getElem? found
      have rest := tracked.leave (List.eraseIdx_subset (l := server.pending) (k := index))
      dsimp only
      split_ifs with known
      · refine rest.delete login.email (fun id => dead_append_consumed) fun id loggedIn => ?_
        apply dead_append_consumed.mpr
        rw [List.filterMap_append, List.mem_append] at loggedIn
        rcases loggedIn with old | new
        · exact .inl (tracked.loggedIn_dead id old)
        · obtain rfl : id = login.row.id := by simpa using new
          cases lost : login.overtaken with
          | true => exact .inl (tracked.login_dead login inFlight lost)
          | false =>
            exact .inr (mem_deletedIds.mpr ⟨login.row, tracked.login_stored login inFlight lost,
              tracked.login_email login inFlight, rfl⟩)
      · exact rest

theorem tracked_step (server : Server) (move : Move) (tracked : Tracked server) :
    Tracked (step server move) := by
  cases move with
  | sendCode email random => exact tracked_sendCode tracked email random
  | checkCode email code => exact tracked_checkCode tracked email code
  | finishLogin index => exact tracked_finishLogin tracked index
  | changeUsers users => exact { tracked with }
  | tick elapsed => exact { tracked with }

theorem singleUse_finishLogin {server : Server} (tracked : Tracked server) (index : Nat) :
    SingleUse (finishLogin server index).log ↔
      SingleUse server.log ∧ Undisturbed server (.finishLogin index) := by
  unfold finishLogin Undisturbed
  split
  · next missing => simp [missing]
  · next login found =>
      have inFlight := List.mem_of_getElem? found
      have noLogin : ∀ event ∈ (deletedIds server.verifyCodes login.email).map Event.consumed,
          event.login? = none := by simp
      dsimp only
      split_ifs with known
      · rw [List.append_cons, singleUse_append noLogin, singleUse_concat, found]
        apply and_congr_right
        intro lawful
        constructor
        · intro accepted login' same known'
          obtain rfl : login = login' := by simpa using same
          obtain ⟨-, alive, inTime⟩ := accepted _ _ rfl
          rw [tracked.dead_iff inFlight] at alive
          exact ⟨by simpa using alive, inTime⟩
        · rintro undisturbed row time same
          obtain ⟨rfl, rfl⟩ : login.row = row ∧ server.now = time := by simpa using same
          obtain ⟨standing, inTime⟩ := undisturbed login rfl known
          have alive : ¬ Dead server.log login.row.id := by
            simp [tracked.dead_iff inFlight, standing]
          exact ⟨fun earlier => alive (tracked.loggedIn_dead _ earlier), alive, inTime⟩
      · refine (and_iff_left fun login' same known' => ?_).symm
        obtain rfl : login = login' := by simpa [found] using same
        exact absurd known' known

theorem singleUse_step (server : Server) (move : Move) (tracked : Tracked server) :
    SingleUse (step server move).log ↔ SingleUse server.log ∧ Undisturbed server move := by
  cases move with
  | finishLogin index => exact singleUse_finishLogin tracked index
  | sendCode email random =>
    refine Iff.trans ?_ (and_iff_left trivial).symm
    change SingleUse (sendCode server email random).log ↔ _
    unfold sendCode
    split_ifs with blank
    · rfl
    · exact singleUse_append (by simp)
  | checkCode email code =>
    refine Iff.trans ?_ (and_iff_left trivial).symm
    change SingleUse (checkCode server email code).log ↔ _
    unfold checkCode
    split <;> rfl
  | changeUsers users => exact (and_iff_left trivial).symm
  | tick elapsed => exact (and_iff_left trivial).symm

/-- Whatever the requests of all clients do, the codes are used as they should be if and only if
no login that finds its user was overtaken between its two connections. -/
theorem singleUse_iff (moves : List Move) :
    SingleUse (Runs.run step emptyServer moves).log ↔
      Runs.Along step Undisturbed emptyServer moves := by
  refine Runs.iff_along Tracked (fun server => SingleUse server.log) tracked_empty tracked_step
    ?_ singleUse_step moves
  exact ⟨List.nodup_nil, fun before row time after split => by simp [emptyServer] at split⟩

/-- Two logins that both read the code before one of them deletes it are both let in. -/
theorem not_singleUse_of_twoLogins :
    ¬ SingleUse (Runs.run step emptyServer [.changeUsers ["a@b"], .sendCode "a@b" 0,
      .checkCode "a@b" "100000", .checkCode "a@b" "100000",
      .finishLogin 0, .finishLogin 0]).log := by
  intro lawful
  exact absurd lawful.once (by decide +kernel)

end RagFlow.Overseas
