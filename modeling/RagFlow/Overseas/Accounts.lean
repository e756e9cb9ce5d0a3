import Mathlib
import RagFlow.Overseas.VerifyCodes

/-!
# Accounts and their chat records

The administrator adds and deletes users; a user changes profile and password and saves chats.
A token names a user by id and stays valid for three days, whatever becomes of the user.  Each
request is handled as a whole, in any order.
-/

namespace RagFlow.Overseas.Accounts

open RagFlow.Lib RagFlow.Lib.PyString

/-- `bcrypt`, with the salt of `gensalt` as an argument. -/
structure Bcrypt where
  hashpw : String → String → String
  checkpw : String → String → Bool
  checkpw_hashpw : ∀ password salt, checkpw password (hashpw password salt) = true

/-- A row of `users`.  The last two fields are for the statements only: the email string the
account was created with, and its password. -/
structure User where
  id : String
  nickname : String
  email : String
  phone : String
  passwordHash : String
  avatar : String
  org : String
  createdWith : String
  password : String
  deriving DecidableEq

structure ChatRecord where
  id : String
  userId : String
  title : String
  messages : String
  deriving DecidableEq

structure Admin where
  id : String
  username : String
  passwordHash : String
  deriving DecidableEq

structure Token where
  sub : String
  admin : Bool
  exp : ℤ
  deriving DecidableEq

structure Server where
  users : List User
  chatRecords : List ChatRecord
  verifyCodes : List VerifyCode
  /-- The next `AUTOINCREMENT` id of `verify_codes`. -/
  nextId : Nat
  admins : List Admin
  /-- The tokens signed so far: no other token passes the check of the signature. -/
  issued : List Token
  now : ℚ

def initDb (admin : Admin) (now : ℚ) : Server where
  users := []
  chatRecords := []
  verifyCodes := []
  nextId := 1
  admins := [admin]
  issued := []
  now := now

inductive Reply where
  /-- `{"code": 0, ...}`, with the token if there is one. -/
  | accepted (token : Option Token)
  /-- `{"code": code, "message": message}` -/
  | refused (code : Nat) (message : String)
  /-- An `HTTPException`, or an exception that the framework answers with 500. -/
  | raised (status : Nat) (detail : String)
  deriving DecidableEq

structure UpdateProfileReq where
  nickname : String := ""
  email : String := ""
  org : String := ""
  avatar : String := ""

structure AdminAddUserReq where
  nickname : String
  email : String
  password : String
  phone : String := ""
  org : String := ""

inductive Request where
  | sendCode (email : String) (random : Fin 900000)
  | login (email password : String)
  | codeLogin (email code : String)
  | updateProfile (bearer : Option Token) (req : UpdateProfileReq)
  | changePassword (bearer : Option Token) (oldPassword newPassword salt : String)
  | saveChatRecord (bearer : Option Token) (title messages rid : String)
  | deleteChatRecord (bearer : Option Token) (recordId : String)
  | adminLogin (username password : String)
  | adminAddUser (bearer : Option Token) (req : AdminAddUserReq) (uid salt : String)
  | adminDeleteUser (bearer : Option Token) (userId : String)
  | tick (elapsed : ℚ≥0)

def jwtExpireHours : ℚ := 72

/-- The payload and its signature; `exp` is in whole seconds. -/
def makeToken (server : Server) (userId : String) (isAdmin : Bool) : Token :=
  { sub := userId, admin := isAdmin, exp := ⌊server.now + jwtExpireHours * 3600⌋ }

def Server.issue (server : Server) (token : Token) : Server :=
  { server with issued := server.issued ++ [token] }

def requireAuth (server : Server) : Option Token → Except Reply Token
  | none => .error (.raised 401 "未登录")
  | some token =>
    if token ∉ server.issued then .error (.raised 401 "无效的登录凭证")
    else if token.exp ≤ server.now then .error (.raised 401 "登录已过期")
    else .ok token

def requireAdmin (server : Server) (bearer : Option Token) : Except Reply Token := do
  let payload ← requireAuth server bearer
  if payload.admin then return payload else .error (.raised 403 "需要管理员权限")

def isLetter (char : Char) : Bool :=
  ('a' ≤ char && char ≤ 'z') || ('A' ≤ char && char ≤ 'Z')

def validatePassword (pwd : String) : Option String :=
  if pwd.toList.length < 8 ∨ 16 < pwd.toList.length then some "密码长度需为 8-16 位"
  else if ¬ pwd.toList.any isLetter then some "密码必须包含字母"
  else if ¬ pwd.toList.any isDecimal then some "密码必须包含数字"
  else none

def codeOf (random : Fin 900000) : String := toString (random.val + 100000)

def sendCode (server : Server) (email : String) (random : Fin 900000) : Server × Reply :=
  if strip email = "" then (server, .refused 400 "请输入邮箱")
  else
    ({ server with
        verifyCodes := keptCodes server.verifyCodes email ++
          [{ id := server.nextId
             email := email
             code := codeOf random
             expiresAt := server.now + 300 }]
        nextId := server.nextId + 1 },
      .accepted none)

def userByEmail (server : Server) (email : String) : Option User :=
  server.users.find? fun user => user.email = email

def login (bcrypt : Bcrypt) (server : Server) (email password : String) : Server × Reply :=
  match userByEmail server (strip email) with
  | none => (server, .refused 401 "账号不存在")
  | some user =>
    if bcrypt.checkpw password user.passwordHash then
      let token := makeToken server user.id false
      (server.issue token, .accepted (some token))
    else (server, .refused 401 "密码不正确")

/-- Without a user nothing is committed, and closing the connection takes the deletion of the codes
back. -/
def codeLogin (server : Server) (email code : String) : Server × Reply :=
  if server.verifyCodes.any fun row =>
      row.email = strip email ∧ row.code = strip code ∧ server.now < row.expiresAt then
    match userByEmail server (strip email) with
    | none => (server, .refused 401 "账号不存在，请联系管理员")
    | some user =>
      let token := makeToken server user.id false
      let cleared := { server with verifyCodes := keptCodes server.verifyCodes (strip email) }
      (cleared.issue token, .accepted (some token))
  else (server, .refused 401 "验证码不正确或已过期")

/-- Another row than that of `id` has this email: the `UNIQUE` constraint. -/
def EmailTaken (server : Server) (id email : String) : Prop :=
  ∃ user ∈ server.users, user.id ≠ id ∧ user.email = email

instance (server : Server) (id email : String) : Decidable (EmailTaken server id email) :=
  inferInstanceAs (Decidable (∃ user ∈ server.users, user.id ≠ id ∧ user.email = email))

def User.update (user : User) (req : UpdateProfileReq) : User :=
  { user with nickname := req.nickname, email := req.email, org := req.org, avatar := req.avatar }

def User.setPassword (user : User) (password passwordHash : String) : User :=
  { user with passwordHash := passwordHash, password := password }

def updateUser (users : List User) (id : String) (change : User → User) : List User :=
  users.map fun user => if user.id = id then change user else user

def updateProfile (server : Server) (bearer : Option Token) (req : UpdateProfileReq) :
    Server × Reply :=
  match requireAuth server bearer with
  | .error reply => (server, reply)
  | .ok payload =>
    if (∃ user ∈ server.users, user.id = payload.sub) ∧ EmailTaken server payload.sub req.email then
      (server, .raised 500 "Internal Server Error")
    else
      ({ server with users := updateUser server.users payload.sub (·.update req) },
        .accepted none)

def changePassword (bcrypt : Bcrypt) (server : Server) (bearer : Option Token)
    (oldPassword newPassword salt : String) : Server × Reply :=
  match requireAuth server bearer with
  | .error reply => (server, reply)
  | .ok payload =>
    match validatePassword newPassword with
    | some err => (server, .refused 400 err)
    | none =>
      match server.users.find? fun user => user.id = payload.sub with
      -- `user` is `None`, and `user["password_hash"]` fails.
      | none => (server, .raised 500 "Internal Server Error")
      | some user =>
        if bcrypt.checkpw oldPassword user.passwordHash then
          let newHash := bcrypt.hashpw newPassword salt
          ({ server with
              users := updateUser server.users payload.sub (·.setPassword newPassword newHash) },
            .accepted none)
        else (server, .refused 400 "旧密码不正确")

/-- The foreign key is declared, but SQLite leaves it unchecked. -/
def saveChatRecord (server : Server) (bearer : Option Token) (title messages rid : String) :
    Server × Reply :=
  match requireAuth server bearer with
  | .error reply => (server, reply)
  | .ok payload =>
    if ∃ record ∈ server.chatRecords, record.id = rid then
      (server, .raised 500 "Internal Server Error")
    else
      ({ server with
          chatRecords := server.chatRecords ++
            [{ id := rid, userId := payload.sub, title := title, messages := messages }] },
        .accepted none)

def deleteChatRecord (server : Server) (bearer : Option Token) (recordId : String) :
    Server × Reply :=
  match requireAuth server bearer with
  | .error reply => (server, reply)
  | .ok payload =>
    ({ server with
        chatRecords := server.chatRecords.filter fun record =>
          ¬ (record.id = recordId ∧ record.userId = payload.sub) },
      .accepted none)

def adminLogin (bcrypt : Bcrypt) (server : Server) (username password : String) : Server × Reply :=
  match server.admins.find? fun admin => admin.username = username with
  | none => (server, .refused 401 "管理员账号或密码不正确")
  | some admin =>
    if bcrypt.checkpw password admin.passwordHash then
      let token := makeToken server admin.id true
      (server.issue token, .accepted (some token))
    else (server, .refused 401 "管理员账号或密码不正确")

/-- The fields that `admin_add_user` wants filled are not blank. -/
def Filled (req : AdminAddUserReq) : Prop :=
  strip req.nickname ≠ "" ∧ strip req.email ≠ "" ∧ strip req.password ≠ ""

instance (req : AdminAddUserReq) : Decidable (Filled req) :=
  inferInstanceAs (Decidable (_ ∧ _))

/-- A row of this id or this email is there: the constraints of `users`. -/
def Taken (server : Server) (id email : String) : Prop :=
  ∃ user ∈ server.users, user.id = id ∨ user.email = email

instance (server : Server) (id email : String) : Decidable (Taken server id email) :=
  inferInstanceAs (Decidable (∃ user ∈ server.users, user.id = id ∨ user.email = email))

def newUser (bcrypt : Bcrypt) (req : AdminAddUserReq) (uid salt : String) : User where
  id := uid
  nickname := req.nickname
  email := req.email
  phone := req.phone
  passwordHash := bcrypt.hashpw req.password salt
  avatar := ""
  org := req.org
  createdWith := req.email
  password := req.password

def adminAddUser (bcrypt : Bcrypt) (server : Server) (bearer : Option Token)
    (req : AdminAddUserReq) (uid salt : String) : Server × Reply :=
  match requireAdmin server bearer with
  | .error reply => (server, reply)
  | .ok _ =>
    if ¬ Filled req then (server, .refused 400 "昵称、邮箱、密码为必填项")
    else
      match validatePassword req.password with
      | some err => (server, .refused 400 err)
      | none =>
        if Taken server uid req.email then (server, .refused 400 "该邮箱已存在")
        else
          ({ server with users := server.users ++ [newUser bcrypt req uid salt] }, .accepted none)

def adminDeleteUser (server : Server) (bearer : Option Token) (userId : String) : Server × Reply :=
  match requireAdmin server bearer with
  | .error reply => (server, reply)
  | .ok _ =>
    ({ server with
        chatRecords := server.chatRecords.filter fun record => record.userId ≠ userId
        users := server.users.filter fun user => user.id ≠ userId },
      .accepted none)

def handle (bcrypt : Bcrypt) (server : Server) : Request → Server × Reply
  | .sendCode email random => sendCode server email random
  | .login email password => login bcrypt server email password
  | .codeLogin email code => codeLogin server email code
  | .updateProfile bearer req => updateProfile server bearer req
  | .changePassword bearer oldPassword newPassword salt =>
    changePassword bcrypt server bearer oldPassword newPassword salt
  | .saveChatRecord bearer title messages rid => saveChatRecord server bearer title messages rid
  | .deleteChatRecord bearer recordId => deleteChatRecord server bearer recordId
  | .adminLogin username password => adminLogin bcrypt server username password
  | .adminAddUser bearer req uid salt => adminAddUser bcrypt server bearer req uid salt
  | .adminDeleteUser bearer userId => adminDeleteUser server bearer userId
  | .tick elapsed => ({ server with now := server.now + elapsed }, .accepted none)

def step (bcrypt : Bcrypt) (server : Server) (request : Request) : Server :=
  (handle bcrypt server request).1

def LoggedInAs (reply : Reply) (id : String) : Prop :=
  ∃ token, reply = .accepted (some token) ∧ token.sub = id ∧ token.admin = false

/-- The account can be logged into with the email string it was created with: by its password, and
by a code sent there. -/
structure Usable (bcrypt : Bcrypt) (server : Server) (user : User) : Prop where
  byPassword : LoggedInAs (login bcrypt server user.createdWith user.password).2 user.id
  byCode : ∀ random, LoggedInAs
    (codeLogin (sendCode server user.createdWith random).1 user.createdWith (codeOf random)).2 user.id

structure Sound (bcrypt : Bcrypt) (server : Server) : Prop where
  chats : ∀ record ∈ server.chatRecords, ∃ user ∈ server.users, user.id = record.userId
  accounts : ∀ user ∈ server.users, Usable bcrypt server user

/-- `admin_add_user` gets to its `INSERT`, which succeeds. -/
def Adds (server : Server) (bearer : Option Token) (req : AdminAddUserReq) (uid : String) : Prop :=
  (∃ payload, requireAdmin server bearer = .ok payload) ∧ Filled req ∧
    validatePassword req.password = none ∧ ¬ Taken server uid req.email

/-- A new account's email has no space around it, a profile update sends the account's own email
back, and a chat is saved by a user who is still there.  Requests that are refused may be
anything. -/
def Keeps (server : Server) : Request → Prop
  | .adminAddUser bearer req uid _ => Adds server bearer req uid → strip req.email = req.email
  | .updateProfile bearer req =>
    ∀ payload, requireAuth server bearer = .ok payload →
      ∀ user ∈ server.users, user.id = payload.sub →
        ¬ EmailTaken server payload.sub req.email → req.email = user.email
  | .saveChatRecord bearer _ _ rid =>
    ∀ payload, requireAuth server bearer = .ok payload →
      (∀ record ∈ server.chatRecords, record.id ≠ rid) →
        ∃ user ∈ server.users, user.id = payload.sub
  | _ => True

structure WellFormed (bcrypt : Bcrypt) (server : Server) : Prop where
  ids_nodup : (server.users.map User.id).Nodup
  emails_nodup : (server.users.map User.email).Nodup
  codes_nodup : (server.verifyCodes.map VerifyCode.email).Nodup
  password_fits : ∀ user ∈ server.users, bcrypt.checkpw user.password user.passwordHash = true
  filled : ∀ user ∈ server.users, strip user.createdWith ≠ ""

theorem wellFormed_initDb (bcrypt : Bcrypt) (admin : Admin) (now : ℚ) :
    WellFormed bcrypt (initDb admin now) := by
  constructor <;> simp [initDb]

variable {bcrypt : Bcrypt} {server : Server}

theorem WellFormed.eq_of_id (wellFormed : WellFormed bcrypt server) {user other : User}
    (stored : user ∈ server.users) (otherStored : other ∈ server.users)
    (sameId : user.id = other.id) : user = other :=
  List.inj_on_of_nodup_map wellFormed.ids_nodup stored otherStored sameId

theorem WellFormed.userByEmail_eq_some (wellFormed : WellFormed bcrypt server) {email : String}
    {user : User} :
    userByEmail server email = some user ↔ user ∈ server.users ∧ user.email = email := by
  constructor
  · intro found
    exact ⟨List.mem_of_find?_eq_some found, by simpa using List.find?_some found⟩
  · rintro ⟨stored, rfl⟩
    have isSome : (userByEmail server user.email).isSome := by
      apply List.find?_isSome.mpr
      exact ⟨user, stored, by simp⟩
    obtain ⟨other, found⟩ := Option.isSome_iff_exists.mp isSome
    have sameEmail : other.email = user.email := by simpa using List.find?_some found
    have otherStored : other ∈ server.users := List.mem_of_find?_eq_some found
    obtain rfl := List.inj_on_of_nodup_map wellFormed.emails_nodup otherStored stored sameEmail
    exact found

theorem strip_codeOf (random : Fin 900000) : strip (codeOf random) = codeOf random := by
  apply strip_of_forall
  intro char membership
  have isDigit : char.isDigit = true := by
    rw [codeOf, Nat.toString_eq_ofList_toDigits, String.toList_ofList] at membership
    exact Nat.isDigit_of_mem_toDigits (by decide) (by decide) membership
  simp only [Char.isDigit, Bool.and_eq_true, decide_eq_true_eq, ge_iff_le,
    UInt32.le_iff_toNat_le] at isDigit
  obtain ⟨lower, upper⟩ : 48 ≤ char.toNat ∧ char.toNat ≤ 57 := isDigit
  simp only [isSpace, Bool.or_eq_false_iff, Bool.and_eq_false_iff, decide_eq_false_iff_not]
  omega

def AsCreated (user : User) : Prop :=
  user.email = user.createdWith ∧ strip user.createdWith = user.createdWith

theorem WellFormed.byPassword_iff (wellFormed : WellFormed bcrypt server) {user : User}
    (stored : user ∈ server.users) :
    LoggedInAs (login bcrypt server user.createdWith user.password).2 user.id ↔
      user.email = strip user.createdWith := by
  have fits := wellFormed.password_fits user stored
  constructor
  · rintro ⟨token, accepted, sameId, -⟩
    unfold login at accepted
    split at accepted
    · cases accepted
    · next found foundEq =>
        split at accepted
        · obtain ⟨foundStored, email⟩ := wellFormed.userByEmail_eq_some.mp foundEq
          obtain rfl : makeToken server found.id false = token := by simpa using accepted
          obtain rfl := wellFormed.eq_of_id foundStored stored sameId
          exact email
        · cases accepted
  · intro email
    have found := wellFormed.userByEmail_eq_some.mpr ⟨stored, email⟩
    simp [login, found, fits, LoggedInAs, makeToken]

theorem WellFormed.byCode (wellFormed : WellFormed bcrypt server) {user : User}
    (stored : user ∈ server.users) (asCreated : AsCreated user) (random : Fin 900000) :
    LoggedInAs (codeLogin (sendCode server user.createdWith random).1 user.createdWith
      (codeOf random)).2 user.id := by
  obtain ⟨email, stripped⟩ := asCreated
  have notBlank := wellFormed.filled user stored
  have found : userByEmail (sendCode server user.createdWith random).1 user.createdWith =
      some user := by
    have same : (sendCode server user.createdWith random).1.users = server.users := by
      simp [sendCode, notBlank]
    unfold userByEmail
    rw [same]
    exact wellFormed.userByEmail_eq_some.mpr ⟨stored, email⟩
  unfold codeLogin
  rw [if_pos]
  · rw [stripped, found]
    exact ⟨_, rfl, rfl, rfl⟩
  · rw [stripped] at notBlank
    simp [sendCode, stripped, strip_codeOf, notBlank]

theorem WellFormed.stripped_of_byCode (wellFormed : WellFormed bcrypt server) {user : User}
    (stored : user ∈ server.users)
    (byCode : ∀ random, LoggedInAs (codeLogin (sendCode server user.createdWith random).1
      user.createdWith (codeOf random)).2 user.id) :
    strip user.createdWith = user.createdWith := by
  by_contra spaced
  have notBlank := wellFormed.filled user stored
  have older : ∀ random, ∃ row ∈ server.verifyCodes,
      row.email = strip user.createdWith ∧ row.code = codeOf random := by
    intro random
    obtain ⟨token, accepted, -⟩ := byCode random
    unfold codeLogin at accepted
    split at accepted
    · next someRow =>
        obtain ⟨row, present, rowEmail, rowCode, -⟩ :
            ∃ row ∈ (sendCode server user.createdWith random).1.verifyCodes,
              row.email = strip user.createdWith ∧ row.code = strip (codeOf random) ∧ _ := by
          simpa using someRow
        rw [strip_codeOf] at rowCode
        simp only [sendCode, if_neg notBlank, List.mem_append, List.mem_singleton] at present
        rcases present with old | rfl
        · exact ⟨row, List.mem_of_mem_filter old, rowEmail, rowCode⟩
        · exact absurd rowEmail.symm spaced
    · cases accepted
  obtain ⟨first, firstStored, firstEmail, firstCode⟩ := older 0
  obtain ⟨second, secondStored, secondEmail, secondCode⟩ := older 1
  obtain rfl := List.inj_on_of_nodup_map wellFormed.codes_nodup firstStored secondStored
    (firstEmail.trans secondEmail.symm)
  exact absurd (firstCode.symm.trans secondCode) (by decide)

theorem WellFormed.usable_iff (wellFormed : WellFormed bcrypt server) {user : User}
    (stored : user ∈ server.users) : Usable bcrypt server user ↔ AsCreated user := by
  constructor
  · intro usable
    have stripped := wellFormed.stripped_of_byCode stored usable.byCode
    exact ⟨((wellFormed.byPassword_iff stored).mp usable.byPassword).trans stripped, stripped⟩
  · intro asCreated
    exact ⟨(wellFormed.byPassword_iff stored).mpr (asCreated.1.trans asCreated.2.symm),
      wellFormed.byCode stored asCreated⟩

/-- Soundness in terms of the two tables alone. -/
structure Kept (server : Server) : Prop where
  chats : ∀ record ∈ server.chatRecords, ∃ user ∈ server.users, user.id = record.userId
  accounts : ∀ user ∈ server.users, AsCreated user

theorem WellFormed.sound_iff (wellFormed : WellFormed bcrypt server) :
    Sound bcrypt server ↔ Kept server := by
  constructor
  · intro sound
    exact ⟨sound.chats, fun user stored =>
      (wellFormed.usable_iff stored).mp (sound.accounts user stored)⟩
  · intro kept
    exact ⟨kept.chats, fun user stored =>
      (wellFormed.usable_iff stored).mpr (kept.accounts user stored)⟩

theorem mem_updateUser {users : List User} {id : String} {change : User → User} {user : User} :
    user ∈ updateUser users id change ↔
      ∃ old ∈ users, (if old.id = id then change old else old) = user :=
  List.mem_map

theorem updateUser_ids {users : List User} {id : String} {change : User → User}
    (same : ∀ user, (change user).id = user.id) :
    (updateUser users id change).map User.id = users.map User.id := by
  unfold updateUser
  rw [List.map_map]
  apply List.map_congr_left
  intro user _
  dsimp only [Function.comp]
  split_ifs
  · exact same user
  · rfl

theorem WellFormed.of_users (wellFormed : WellFormed bcrypt server) {after : Server}
    (sameUsers : after.users = server.users)
    (codes : (after.verifyCodes.map VerifyCode.email).Nodup) : WellFormed bcrypt after where
  ids_nodup := sameUsers ▸ wellFormed.ids_nodup
  emails_nodup := sameUsers ▸ wellFormed.emails_nodup
  codes_nodup := codes
  password_fits := sameUsers ▸ wellFormed.password_fits
  filled := sameUsers ▸ wellFormed.filled

theorem codes_nodup_keptCodes {codes : List VerifyCode} (nodup : (codes.map VerifyCode.email).Nodup)
    (email : String) : ((keptCodes codes email).map VerifyCode.email).Nodup :=
  nodup.sublist (List.filter_sublist.map _)

theorem wellFormed_sendCode (wellFormed : WellFormed bcrypt server) (email : String)
    (random : Fin 900000) : WellFormed bcrypt (sendCode server email random).1 := by
  unfold sendCode
  split_ifs with blank
  · exact wellFormed
  · refine wellFormed.of_users rfl ?_
    rw [List.map_append]
    apply List.Nodup.append (codes_nodup_keptCodes wellFormed.codes_nodup email)
      (List.nodup_singleton _)
    intro other kept new
    obtain rfl : other = email := by simpa using new
    obtain ⟨row, rowKept, rowEmail⟩ := List.mem_map.mp kept
    exact absurd rowEmail (by simpa using (List.mem_filter.mp rowKept).2)

theorem login_tables (email password : String) :
    (login bcrypt server email password).1.users = server.users ∧
      (login bcrypt server email password).1.chatRecords = server.chatRecords ∧
      (login bcrypt server email password).1.verifyCodes = server.verifyCodes := by
  unfold login
  split
  · exact ⟨rfl, rfl, rfl⟩
  · split <;> exact ⟨rfl, rfl, rfl⟩

theorem adminLogin_tables (username password : String) :
    (adminLogin bcrypt server username password).1.users = server.users ∧
      (adminLogin bcrypt server username password).1.chatRecords = server.chatRecords ∧
      (adminLogin bcrypt server username password).1.verifyCodes = server.verifyCodes := by
  unfold adminLogin
  split
  · exact ⟨rfl, rfl, rfl⟩
  · split <;> exact ⟨rfl, rfl, rfl⟩

theorem codeLogin_tables (email code : String) :
    (codeLogin server email code).1.users = server.users ∧
      (codeLogin server email code).1.chatRecords = server.chatRecords ∧
      ((codeLogin server email code).1.verifyCodes = server.verifyCodes ∨
        (codeLogin server email code).1.verifyCodes =
          keptCodes server.verifyCodes (strip email)) := by
  unfold codeLogin
  split
  · split
    · exact ⟨rfl, rfl, .inl rfl⟩
    · exact ⟨rfl, rfl, .inr rfl⟩
  · exact ⟨rfl, rfl, .inl rfl⟩

theorem WellFormed.updateUser (wellFormed : WellFormed bcrypt server) {id : String}
    (change : User → User) (sameId : ∀ user, (change user).id = user.id)
    (sameCreation : ∀ user, (change user).createdWith = user.createdWith)
    (free : (∃ user ∈ server.users, user.id = id) → ∀ other ∈ server.users, other.id ≠ id →
      ∀ user ∈ server.users, user.id = id → (change user).email ≠ other.email)
    (fits : ∀ user ∈ server.users, bcrypt.checkpw (change user).password
      (change user).passwordHash = true) :
    WellFormed bcrypt { server with users := updateUser server.users id change } where
  ids_nodup := by
    rw [updateUser_ids sameId]
    exact wellFormed.ids_nodup
  emails_nodup := by
    have idsNodup : ((Accounts.updateUser server.users id change).map User.id).Nodup := by
      rw [updateUser_ids sameId]
      exact wellFormed.ids_nodup
    apply (List.nodup_map_iff_inj_on (List.Nodup.of_map _ idsNodup)).mpr
    intro user stored other otherStored sameEmail
    obtain ⟨old, oldStored, rfl⟩ := mem_updateUser.mp stored
    obtain ⟨oldOther, oldOtherStored, rfl⟩ := mem_updateUser.mp otherStored
    by_cases isOld : old.id = id
    · by_cases isOther : oldOther.id = id
      · rw [wellFormed.eq_of_id oldStored oldOtherStored (isOld.trans isOther.symm)]
      · rw [if_pos isOld, if_neg isOther] at sameEmail
        exact absurd sameEmail
          (free ⟨old, oldStored, isOld⟩ oldOther oldOtherStored isOther old oldStored isOld)
    · by_cases isOther : oldOther.id = id
      · rw [if_neg isOld, if_pos isOther] at sameEmail
        exact absurd sameEmail.symm
          (free ⟨oldOther, oldOtherStored, isOther⟩ old oldStored isOld oldOther oldOtherStored
            isOther)
      · rw [if_neg isOld, if_neg isOther] at sameEmail
        obtain rfl := List.inj_on_of_nodup_map wellFormed.emails_nodup oldStored oldOtherStored
          sameEmail
        rfl
  codes_nodup := wellFormed.codes_nodup
  password_fits user stored := by
    obtain ⟨old, oldStored, rfl⟩ := mem_updateUser.mp stored
    split_ifs
    · exact fits old oldStored
    · exact wellFormed.password_fits old oldStored
  filled user stored := by
    obtain ⟨old, oldStored, rfl⟩ := mem_updateUser.mp stored
    split_ifs
    · rw [sameCreation]
      exact wellFormed.filled old oldStored
    · exact wellFormed.filled old oldStored

theorem wellFormed_updateProfile (wellFormed : WellFormed bcrypt server) (bearer : Option Token)
    (req : UpdateProfileReq) : WellFormed bcrypt (updateProfile server bearer req).1 := by
  unfold updateProfile
  split
  · exact wellFormed
  · next payload authorised =>
      split_ifs with conflict
      · exact wellFormed
      · refine wellFormed.updateUser (·.update req) (fun _ => rfl) (fun _ => rfl) ?_ ?_
        · intro present other otherStored isOther user stored isUser sameEmail
          exact conflict ⟨present, other, otherStored, isOther, sameEmail.symm⟩
        · exact wellFormed.password_fits

theorem wellFormed_changePassword (wellFormed : WellFormed bcrypt server) (bearer : Option Token)
    (oldPassword newPassword salt : String) :
    WellFormed bcrypt (changePassword bcrypt server bearer oldPassword newPassword salt).1 := by
  unfold changePassword
  split
  · exact wellFormed
  · next payload authorised =>
      split
      · exact wellFormed
      · split
        · exact wellFormed
        · split
          · refine wellFormed.updateUser (·.setPassword newPassword _)
              (fun _ => rfl) (fun _ => rfl) ?_ ?_
            · intro present other otherStored isOther user stored isUser sameEmail
              apply isOther
              rw [← isUser, List.inj_on_of_nodup_map wellFormed.emails_nodup stored otherStored
                sameEmail]
            · exact fun user stored => bcrypt.checkpw_hashpw newPassword salt
          · exact wellFormed

theorem wellFormed_saveChatRecord (wellFormed : WellFormed bcrypt server) (bearer : Option Token)
    (title messages rid : String) :
    WellFormed bcrypt (saveChatRecord server bearer title messages rid).1 := by
  unfold saveChatRecord
  split
  · exact wellFormed
  · split_ifs
    · exact wellFormed
    · exact wellFormed.of_users rfl wellFormed.codes_nodup

theorem wellFormed_deleteChatRecord (wellFormed : WellFormed bcrypt server) (bearer : Option Token)
    (recordId : String) : WellFormed bcrypt (deleteChatRecord server bearer recordId).1 := by
  unfold deleteChatRecord
  split
  · exact wellFormed
  · exact wellFormed.of_users rfl wellFormed.codes_nodup

theorem adminAddUser_cases (bearer : Option Token) (req : AdminAddUserReq) (uid salt : String) :
    (¬ Adds server bearer req uid ∧ (adminAddUser bcrypt server bearer req uid salt).1 = server) ∨
      (Adds server bearer req uid ∧ (adminAddUser bcrypt server bearer req uid salt).1 =
        { server with users := server.users ++ [newUser bcrypt req uid salt] }) := by
  unfold adminAddUser Adds
  cases authorised : requireAdmin server bearer with
  | error reply => simp
  | ok payload =>
    by_cases filled : Filled req
    · cases checked : validatePassword req.password with
      | some err => simp [filled]
      | none => by_cases taken : Taken server uid req.email <;> simp [filled, taken]
    · simp [filled]

theorem wellFormed_adminAddUser (wellFormed : WellFormed bcrypt server) (bearer : Option Token)
    (req : AdminAddUserReq) (uid salt : String) :
    WellFormed bcrypt (adminAddUser bcrypt server bearer req uid salt).1 := by
  rcases @adminAddUser_cases bcrypt server bearer req uid salt with ⟨-, same⟩ | ⟨adds, added⟩
  · rw [same]
    exact wellFormed
  · rw [added]
    obtain ⟨-, filled, -, free⟩ := adds
    constructor
    case ids_nodup =>
      rw [List.map_append]
      apply List.Nodup.append wellFormed.ids_nodup (List.nodup_singleton _)
      intro id old new
      obtain ⟨user, stored, rfl⟩ := List.mem_map.mp old
      exact free ⟨user, stored, .inl (by simpa [newUser] using new)⟩
    case emails_nodup =>
      rw [List.map_append]
      apply List.Nodup.append wellFormed.emails_nodup (List.nodup_singleton _)
      intro email old new
      obtain ⟨user, stored, rfl⟩ := List.mem_map.mp old
      exact free ⟨user, stored, .inr (by simpa [newUser] using new)⟩
    case codes_nodup => exact wellFormed.codes_nodup
    case password_fits =>
      intro user stored
      rcases List.mem_append.mp stored with old | new
      · exact wellFormed.password_fits user old
      · rw [List.mem_singleton.mp new]
        exact bcrypt.checkpw_hashpw req.password salt
    case filled =>
      intro user stored
      rcases List.mem_append.mp stored with old | new
      · exact wellFormed.filled user old
      · rw [List.mem_singleton.mp new]
        exact filled.2.1

theorem wellFormed_adminDeleteUser (wellFormed : WellFormed bcrypt server) (bearer : Option Token)
    (userId : String) : WellFormed bcrypt (adminDeleteUser server bearer userId).1 := by
  unfold adminDeleteUser
  split
  · exact wellFormed
  · exact
      { ids_nodup := wellFormed.ids_nodup.sublist (List.filter_sublist.map _)
        emails_nodup := wellFormed.emails_nodup.sublist (List.filter_sublist.map _)
        codes_nodup := wellFormed.codes_nodup
        password_fits := fun user stored =>
          wellFormed.password_fits user (List.mem_of_mem_filter stored)
        filled := fun user stored => wellFormed.filled user (List.mem_of_mem_filter stored) }

theorem wellFormed_step (server : Server) (request : Request)
    (wellFormed : WellFormed bcrypt server) : WellFormed bcrypt (step bcrypt server request) := by
  cases request with
  | sendCode email random => exact wellFormed_sendCode wellFormed email random
  | login email password =>
    obtain ⟨users, -, codes⟩ := @login_tables bcrypt server email password
    exact wellFormed.of_users users (codes ▸ wellFormed.codes_nodup)
  | codeLogin email code =>
    obtain ⟨users, -, codes⟩ := @codeLogin_tables server email code
    apply wellFormed.of_users users
    rcases codes with same | cleared
    · exact same ▸ wellFormed.codes_nodup
    · exact cleared ▸ codes_nodup_keptCodes wellFormed.codes_nodup (strip email)
  | updateProfile bearer req => exact wellFormed_updateProfile wellFormed bearer req
  | changePassword bearer oldPassword newPassword salt =>
    exact wellFormed_changePassword wellFormed bearer oldPassword newPassword salt
  | saveChatRecord bearer title messages rid =>
    exact wellFormed_saveChatRecord wellFormed bearer title messages rid
  | deleteChatRecord bearer recordId =>
    exact wellFormed_deleteChatRecord wellFormed bearer recordId
  | adminLogin username password =>
    obtain ⟨users, -, codes⟩ := @adminLogin_tables bcrypt server username password
    exact wellFormed.of_users users (codes ▸ wellFormed.codes_nodup)
  | adminAddUser bearer req uid salt =>
    exact wellFormed_adminAddUser wellFormed bearer req uid salt
  | adminDeleteUser bearer userId => exact wellFormed_adminDeleteUser wellFormed bearer userId
  | tick elapsed => exact wellFormed.of_users rfl wellFormed.codes_nodup

theorem kept_congr {before after : Server} (sameUsers : after.users = before.users)
    (sameChats : after.chatRecords = before.chatRecords) : Kept after ↔ Kept before := by
  constructor
  · rintro ⟨chats, accounts⟩
    exact ⟨sameChats ▸ sameUsers ▸ chats, sameUsers ▸ accounts⟩
  · rintro ⟨chats, accounts⟩
    exact ⟨sameChats ▸ sameUsers ▸ chats, sameUsers ▸ accounts⟩

theorem kept_sendCode (kept : Kept server) (email : String) (random : Fin 900000) :
    Kept (sendCode server email random).1 := by
  unfold sendCode
  split_ifs
  · exact kept
  · exact ⟨kept.chats, kept.accounts⟩

theorem kept_updateUser (kept : Kept server) {id : String} (change : User → User)
    (sameId : ∀ user, (change user).id = user.id) :
    Kept { server with users := updateUser server.users id change } ↔
      ∀ user ∈ server.users, user.id = id → AsCreated (change user) := by
  constructor
  · intro after user stored isUser
    apply after.accounts (change user)
    exact mem_updateUser.mpr ⟨user, stored, if_pos isUser⟩
  · intro changed
    constructor
    · intro record recordStored
      obtain ⟨user, stored, sameUser⟩ := kept.chats record recordStored
      refine ⟨_, mem_updateUser.mpr ⟨user, stored, rfl⟩, ?_⟩
      split_ifs
      · exact (sameId user).trans sameUser
      · exact sameUser
    · intro user stored
      obtain ⟨old, oldStored, rfl⟩ := mem_updateUser.mp stored
      split_ifs with isOld
      · exact changed old oldStored isOld
      · exact kept.accounts old oldStored

theorem kept_updateProfile (kept : Kept server) (bearer : Option Token) (req : UpdateProfileReq) :
    Kept (updateProfile server bearer req).1 ↔ Keeps server (.updateProfile bearer req) := by
  unfold updateProfile Keeps
  cases authorised : requireAuth server bearer with
  | error reply =>
    refine iff_of_true kept fun payload accepted => ?_
    rw [authorised] at accepted
    cases accepted
  | ok payload =>
    dsimp only
    split_ifs with conflict
    · refine iff_of_true kept fun other sameToken user stored isUser free => ?_
      obtain rfl := Except.ok.inj (authorised.symm.trans sameToken)
      exact absurd conflict.2 free
    · refine (kept_updateUser kept (·.update req) fun user => rfl).trans ?_
      constructor
      · intro changed other sameToken user stored isUser free
        obtain rfl := Except.ok.inj (authorised.symm.trans sameToken)
        exact (changed user stored isUser).1.trans (kept.accounts user stored).1.symm
      · intro keeps user stored isUser
        have free : ¬ EmailTaken server payload.sub req.email :=
          fun taken => conflict ⟨⟨user, stored, isUser⟩, taken⟩
        obtain ⟨email, stripped⟩ := kept.accounts user stored
        exact ⟨(keeps payload authorised user stored isUser free).trans email, stripped⟩

theorem kept_changePassword (kept : Kept server) (bearer : Option Token)
    (oldPassword newPassword salt : String) :
    Kept (changePassword bcrypt server bearer oldPassword newPassword salt).1 := by
  unfold changePassword
  split
  · exact kept
  · next payload authorised =>
      split
      · exact kept
      · split
        · exact kept
        · split
          · refine (kept_updateUser kept (·.setPassword newPassword _) fun user => rfl).mpr ?_
            exact fun user stored isUser => kept.accounts user stored
          · exact kept

theorem kept_saveChatRecord (kept : Kept server) (bearer : Option Token)
    (title messages rid : String) :
    Kept (saveChatRecord server bearer title messages rid).1 ↔
      Keeps server (.saveChatRecord bearer title messages rid) := by
  unfold saveChatRecord Keeps
  cases authorised : requireAuth server bearer with
  | error reply =>
    refine iff_of_true kept fun payload accepted => ?_
    rw [authorised] at accepted
    cases accepted
  | ok payload =>
    dsimp only
    split_ifs with present
    · refine iff_of_true kept fun other sameToken fresh => ?_
      obtain ⟨record, stored, sameId⟩ := present
      exact absurd sameId (fresh record stored)
    · have fresh : ∀ record ∈ server.chatRecords, record.id ≠ rid :=
        fun record stored sameId => present ⟨record, stored, sameId⟩
      constructor
      · intro after other sameToken _
        obtain rfl := Except.ok.inj (authorised.symm.trans sameToken)
        exact after.chats _ (List.mem_append_right _ (List.mem_singleton_self _))
      · intro keeps
        refine ⟨fun record stored => ?_, kept.accounts⟩
        rcases List.mem_append.mp stored with old | new
        · exact kept.chats record old
        · rw [List.mem_singleton.mp new]
          exact keeps payload authorised fresh

theorem kept_deleteChatRecord (kept : Kept server) (bearer : Option Token) (recordId : String) :
    Kept (deleteChatRecord server bearer recordId).1 := by
  unfold deleteChatRecord
  split
  · exact kept
  · exact ⟨fun record stored => kept.chats record (List.mem_of_mem_filter stored), kept.accounts⟩

theorem kept_adminAddUser (kept : Kept server) (bearer : Option Token) (req : AdminAddUserReq)
    (uid salt : String) :
    Kept (adminAddUser bcrypt server bearer req uid salt).1 ↔
      Keeps server (.adminAddUser bearer req uid salt) := by
  unfold Keeps
  rcases @adminAddUser_cases bcrypt server bearer req uid salt with ⟨refused, same⟩ | ⟨adds, added⟩
  · rw [same]
    exact iff_of_true kept fun adds => absurd adds refused
  · rw [added]
    constructor
    · intro after _
      exact (after.accounts (newUser bcrypt req uid salt) (by simp)).2
    · intro keeps
      constructor
      · intro record stored
        obtain ⟨user, userStored, sameId⟩ := kept.chats record stored
        exact ⟨user, List.mem_append_left _ userStored, sameId⟩
      · intro user stored
        rcases List.mem_append.mp stored with old | new
        · exact kept.accounts user old
        · rw [List.mem_singleton.mp new]
          exact ⟨rfl, keeps adds⟩

theorem kept_adminDeleteUser (kept : Kept server) (bearer : Option Token) (userId : String) :
    Kept (adminDeleteUser server bearer userId).1 := by
  unfold adminDeleteUser
  split
  · exact kept
  · constructor
    · intro record stored
      obtain ⟨wasStored, other⟩ := List.mem_filter.mp stored
      obtain ⟨user, userStored, sameId⟩ := kept.chats record wasStored
      refine ⟨user, List.mem_filter.mpr ⟨userStored, ?_⟩, sameId⟩
      rw [sameId]
      exact other
    · exact fun user stored => kept.accounts user (List.mem_of_mem_filter stored)

theorem kept_step (kept : Kept server) (request : Request) :
    Kept (step bcrypt server request) ↔ Keeps server request := by
  cases request with
  | sendCode email random => exact iff_of_true (kept_sendCode kept email random) trivial
  | login email password =>
    obtain ⟨users, chats, -⟩ := @login_tables bcrypt server email password
    exact iff_of_true ((kept_congr users chats).mpr kept) trivial
  | codeLogin email code =>
    obtain ⟨users, chats, -⟩ := @codeLogin_tables server email code
    exact iff_of_true ((kept_congr users chats).mpr kept) trivial
  | updateProfile bearer req => exact kept_updateProfile kept bearer req
  | changePassword bearer oldPassword newPassword salt =>
    exact iff_of_true (kept_changePassword kept bearer oldPassword newPassword salt) trivial
  | saveChatRecord bearer title messages rid =>
    exact kept_saveChatRecord kept bearer title messages rid
  | deleteChatRecord bearer recordId =>
    exact iff_of_true (kept_deleteChatRecord kept bearer recordId) trivial
  | adminLogin username password =>
    obtain ⟨users, chats, -⟩ := @adminLogin_tables bcrypt server username password
    exact iff_of_true ((kept_congr users chats).mpr kept) trivial
  | adminAddUser bearer req uid salt => exact kept_adminAddUser kept bearer req uid salt
  | adminDeleteUser bearer userId =>
    exact iff_of_true (kept_adminDeleteUser kept bearer userId) trivial
  | tick elapsed => exact iff_of_true ⟨kept.chats, kept.accounts⟩ trivial

/-- From a fresh database, every stored chat has its user and every account can be logged into as
it was created, in all states of exactly the runs whose requests all keep this. -/
theorem always_sound_iff (bcrypt : Bcrypt) (admin : Admin) (now : ℚ) (requests : List Request) :
    (∀ before, before <+: requests →
        Sound bcrypt (Runs.run (step bcrypt) (initDb admin now) before)) ↔
      Runs.Along (step bcrypt) Keeps (initDb admin now) requests := by
  have initially := wellFormed_initDb bcrypt admin now
  apply Runs.always_iff_along (WellFormed bcrypt) (Sound bcrypt) initially
  · exact fun server request wellFormed => wellFormed_step server request wellFormed
  · apply initially.sound_iff.mpr
    constructor <;> simp [initDb]
  · intro server request wellFormed sound
    rw [(wellFormed_step server request wellFormed).sound_iff]
    exact kept_step (wellFormed.sound_iff.mp sound) request

def plainBcrypt : Bcrypt where
  hashpw password _ := password
  checkpw password hash := password = hash
  checkpw_hashpw password salt := by simp

def someAdmin : Admin := { id := "root", username := "admin", passwordHash := "admin123" }

def adminToken : Token := { sub := "root", admin := true, exp := 259200 }

def userToken : Token := { sub := "u1", admin := false, exp := 259200 }

def added (email : String) : List Request :=
  [.adminLogin "admin" "admin123",
    .adminAddUser (some adminToken) { nickname := "A", email := email, password := "secret12" }
      "u1" ""]

def addedUser (nickname email createdWith : String) : User where
  id := "u1"
  nickname := nickname
  email := email
  phone := ""
  passwordHash := "secret12"
  avatar := ""
  org := ""
  createdWith := createdWith
  password := "secret12"

theorem not_usable_of_refused {user : User}
    (refused : (login bcrypt server user.createdWith user.password).2 = .refused 401 "账号不存在") :
    ¬ Usable bcrypt server user := by
  intro usable
  obtain ⟨token, accepted, -⟩ := usable.byPassword
  rw [refused] at accepted
  cases accepted

/-- An email with a space before it, a profile update that leaves the email out, and a chat saved
with the token of a deleted user. -/
theorem not_sound_of_space_or_update_or_stale_token :
    ¬ Sound plainBcrypt (Runs.run (step plainBcrypt) (initDb someAdmin 0) (added " a@b")) ∧
    ¬ Sound plainBcrypt (Runs.run (step plainBcrypt) (initDb someAdmin 0)
      (added "a@b" ++ [.login "a@b" "secret12",
        .updateProfile (some userToken) { nickname := "B" }])) ∧
    ¬ Sound plainBcrypt (Runs.run (step plainBcrypt) (initDb someAdmin 0)
      (added "a@b" ++ [.login "a@b" "secret12", .adminDeleteUser (some adminToken) "u1",
        .saveChatRecord (some userToken) "" "[]" "r1"])) := by
  refine ⟨fun sound => ?_, fun sound => ?_, fun sound => ?_⟩
  · apply not_usable_of_refused _ (sound.accounts (addedUser "A" " a@b" " a@b") ?_) <;>
      decide +kernel
  · apply not_usable_of_refused _ (sound.accounts (addedUser "B" "" "a@b") ?_) <;>
      decide +kernel
  · obtain ⟨user, stored, -⟩ := sound.chats
      { id := "r1", userId := "u1", title := "", messages := "[]" } (by decide +kernel)
    have empty : (Runs.run (step plainBcrypt) (initDb someAdmin 0)
      (added "a@b" ++ [.login "a@b" "secret12", .adminDeleteUser (some adminToken) "u1",
        .saveChatRecord (some userToken) "" "[]" "r1"])).users = [] := by decide +kernel
    rw [empty] at stored
    exact List.not_mem_nil stored

end RagFlow.Overseas.Accounts
