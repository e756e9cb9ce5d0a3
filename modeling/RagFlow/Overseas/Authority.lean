import RagFlow.Overseas.Accounts

/-!
# Who can change an account

Tokens are signed by the three logins only.  A row changes or goes only with a token of its account
or of an administrator, and a password changes only where the old one was given.
-/

namespace RagFlow.Overseas.Accounts

open Lib

variable {bcrypt : Bcrypt} {server : Server}

/-- A token that the request signs is in its reply, and good for 72 hours. -/
def Replies (server : Server) (result : Server × Reply) : Prop :=
  ∀ token ∈ result.1.issued, token ∈ server.issued ∨
    result.2 = .accepted (some token) ∧ token.exp = ⌊server.now + jwtExpireHours * 3600⌋

theorem replies_of_same {result : Server × Reply} (same : result.1.issued = server.issued) :
    Replies server result :=
  fun _ isIssued => .inl (same ▸ isIssued)

theorem replies_issue {other : Server} (same : other.issued = server.issued) (id : String)
    (isAdmin : Bool) : Replies server (other.issue (makeToken server id isAdmin),
      .accepted (some (makeToken server id isAdmin))) := by
  intro token isIssued
  rcases List.mem_append.mp isIssued with old | new
  · exact .inl (same ▸ old)
  · obtain rfl := List.mem_singleton.mp new
    exact .inr ⟨rfl, rfl⟩

theorem replies_handle (request : Request) : Replies server (handle bcrypt server request) := by
  cases request with
  | login email password =>
    rw [handle, login]
    split
    · exact replies_of_same rfl
    · split
      · exact replies_issue rfl _ _
      · exact replies_of_same rfl
  | codeLogin email code =>
    rw [handle, codeLogin]
    split
    · split
      · exact replies_of_same rfl
      · exact replies_issue rfl _ _
    · exact replies_of_same rfl
  | adminLogin username password =>
    rw [handle, adminLogin]
    split
    · exact replies_of_same rfl
    · split
      · exact replies_issue rfl _ _
      · exact replies_of_same rfl
  | _ =>
    apply replies_of_same
    simp only [handle, sendCode, updateProfile, changePassword, saveChatRecord, deleteChatRecord,
      adminAddUser, adminDeleteUser]
    repeat' split
    all_goals rfl

/-- The token comes from a login less than 72 hours before. -/
def FreshLogin (bcrypt : Bcrypt) (start : Server) (requests : List Request)
    (token : Token) : Prop :=
  ∃ before login after, requests = before ++ login :: after ∧
    (handle bcrypt (Runs.run (step bcrypt) start before) login).2 = .accepted (some token) ∧
    (Runs.run (step bcrypt) start requests).now <
      (Runs.run (step bcrypt) start before).now + jwtExpireHours * 3600

def Good (server : Server) (token : Token) : Prop :=
  token ∈ server.issued ∧ server.now < token.exp

theorem freshLogin_of_good {start : Server} {requests : List Request} {token : Token}
    (unissued : start.issued = []) (good : Good (Runs.run (step bcrypt) start requests) token) :
    FreshLogin bcrypt start requests token := by
  have provenance : ∀ token ∈ (Runs.run (step bcrypt) start requests).issued,
      ∃ before login after, requests = before ++ login :: after ∧
        (handle bcrypt (Runs.run (step bcrypt) start before) login).2 = .accepted (some token) ∧
        token.exp = ⌊(Runs.run (step bcrypt) start before).now + jwtExpireHours * 3600⌋ := by
    clear good
    induction requests using List.reverseRecOn with
    | nil => simp [unissued]
    | append_singleton requests last ih =>
      intro token isIssued
      rw [Runs.run_concat] at isIssued
      rcases replies_handle last token isIssued with old | ⟨reply, expires⟩
      · obtain ⟨before, login, after, rfl, reply, expires⟩ := ih token old
        exact ⟨before, login, after ++ [last], by simp, reply, expires⟩
      · exact ⟨requests, last, [], rfl, reply, expires⟩
  obtain ⟨before, login, after, split, reply, expires⟩ := provenance token good.1
  refine ⟨before, login, after, split, reply, ?_⟩
  have expiry := good.2
  rw [expires] at expiry
  exact expiry.trans_le (Int.floor_le _)

theorem requireAuth_ok {bearer : Option Token} {payload : Token}
    (authorised : requireAuth server bearer = .ok payload) :
    bearer = some payload ∧ Good server payload := by
  cases bearer with
  | none => cases authorised
  | some token =>
    rw [requireAuth] at authorised
    split_ifs at authorised with signed expired
    cases authorised
    exact ⟨rfl, signed, not_le.mp expired⟩

theorem requireAdmin_ok {bearer : Option Token} {payload : Token}
    (authorised : requireAdmin server bearer = .ok payload) :
    Good server payload ∧ payload.admin = true := by
  unfold requireAdmin at authorised
  cases isAuth : requireAuth server bearer with
  | error reply =>
    rw [isAuth] at authorised
    cases authorised
  | ok other =>
    rw [isAuth] at authorised
    cases isAdmin : other.admin with
    | false => simp [bind, Except.bind, isAdmin] at authorised
    | true =>
      obtain rfl : other = payload := by simpa [bind, Except.bind, isAdmin, pure, Except.pure]
        using authorised
      exact ⟨(requireAuth_ok isAuth).2, isAdmin⟩

/-- What becomes of a row in a step. -/
inductive Fate (bcrypt : Bcrypt) (server : Server) (request : Request) (user : User) : Prop
  | kept (stays : user ∈ (step bcrypt server request).users)
  | updated {token : Token} {req : UpdateProfileReq} (good : Good server token)
    (own : token.sub = user.id) (stays : user.update req ∈ (step bcrypt server request).users)
  | password {token : Token} {old new salt : String} (good : Good server token)
    (own : token.sub = user.id) (isRequest : request = .changePassword (some token) old new salt)
    (known : bcrypt.checkpw old user.passwordHash = true)
  | removed {token : Token} (good : Good server token) (isAdmin : token.admin = true)
    (gone : ∀ other ∈ (step bcrypt server request).users, other.id ≠ user.id)

theorem fate_step (wellFormed : WellFormed bcrypt server) (request : Request) {user : User}
    (stored : user ∈ server.users) : Fate bcrypt server request user := by
  cases request with
  | sendCode email random =>
    apply Fate.kept
    simp only [step, handle, sendCode]
    split <;> exact stored
  | login email password =>
    exact .kept ((@login_tables bcrypt server email password).1 ▸ stored)
  | codeLogin email code => exact .kept ((@codeLogin_tables server email code).1 ▸ stored)
  | adminLogin username password =>
    exact .kept ((@adminLogin_tables bcrypt server username password).1 ▸ stored)
  | updateProfile bearer req =>
    cases isAuth : requireAuth server bearer with
    | error reply => exact .kept (by simpa [step, handle, updateProfile, isAuth] using stored)
    | ok payload =>
      obtain ⟨-, good⟩ := requireAuth_ok isAuth
      by_cases taken : (∃ user ∈ server.users, user.id = payload.sub) ∧
          EmailTaken server payload.sub req.email
      · exact .kept (by simpa [step, handle, updateProfile, isAuth, taken] using stored)
      · have after : (step bcrypt server (.updateProfile bearer req)).users =
            updateUser server.users payload.sub (·.update req) := by
          simp [step, handle, updateProfile, isAuth, taken]
        by_cases own : user.id = payload.sub
        · exact .updated good own.symm (after ▸ mem_updateUser.mpr ⟨user, stored, if_pos own⟩)
        · exact .kept (after ▸ mem_updateUser.mpr ⟨user, stored, if_neg own⟩)
  | changePassword bearer oldPassword newPassword salt =>
    cases isAuth : requireAuth server bearer with
    | error reply => exact .kept (by simpa [step, handle, changePassword, isAuth] using stored)
    | ok payload =>
      obtain ⟨rfl, good⟩ := requireAuth_ok isAuth
      by_cases own : user.id = payload.sub
      · have found : server.users.find? (fun other => other.id = payload.sub) = some user := by
          cases found : server.users.find? fun other => other.id = payload.sub with
          | none => exact absurd own (by simpa using List.find?_eq_none.mp found user stored)
          | some other =>
            have same : other.id = payload.sub := by simpa using List.find?_some found
            rw [wellFormed.eq_of_id stored (List.mem_of_find?_eq_some found) (own.trans same.symm)]
        by_cases known : bcrypt.checkpw oldPassword user.passwordHash = true
        · exact .password good own.symm rfl known
        · apply Fate.kept
          simp only [step, handle, changePassword, isAuth, found, known]
          split <;> exact stored
      · apply Fate.kept
        simp only [step, handle, changePassword, isAuth]
        repeat' split
        all_goals first
          | exact stored
          | exact mem_updateUser.mpr ⟨user, stored, if_neg own⟩
  | saveChatRecord bearer title messages rid =>
    apply Fate.kept
    simp only [step, handle, saveChatRecord]
    repeat' split
    all_goals exact stored
  | deleteChatRecord bearer recordId =>
    apply Fate.kept
    simp only [step, handle, deleteChatRecord]
    split <;> exact stored
  | adminAddUser bearer req uid salt =>
    apply Fate.kept
    rcases @adminAddUser_cases bcrypt server bearer req uid salt with ⟨_, same⟩ | ⟨_, added⟩
    · simpa only [step, handle, same] using stored
    · simpa only [step, handle, added] using List.mem_append_left _ stored
  | adminDeleteUser bearer userId =>
    cases authorised : requireAdmin server bearer with
    | error reply => exact .kept (by simpa [step, handle, adminDeleteUser, authorised] using stored)
    | ok payload =>
      obtain ⟨good, isAdmin⟩ := requireAdmin_ok authorised
      by_cases isDeleted : user.id = userId
      · refine .removed good isAdmin fun other => ?_
        simp [step, handle, adminDeleteUser, authorised, isDeleted]
      · exact .kept (by simp [step, handle, adminDeleteUser, authorised, stored, isDeleted])
  | tick elapsed => exact .kept stored

/-- The row of an account or a chat of it is changed or removed. -/
def Touches (before after : Server) (id : String) : Prop :=
  (∃ user ∈ before.users, user.id = id ∧ user ∉ after.users) ∨
    ∃ record ∈ before.chatRecords, record.userId = id ∧ record ∉ after.chatRecords

theorem chat_kept {request : Request} {record : ChatRecord} (stored : record ∈ server.chatRecords) :
    record ∈ (step bcrypt server request).chatRecords ∨
      ∃ token, Good server token ∧ (token.sub = record.userId ∨ token.admin = true) := by
  cases request with
  | login email password =>
    exact .inl ((@login_tables bcrypt server email password).2.1 ▸ stored)
  | codeLogin email code => exact .inl ((@codeLogin_tables server email code).2.1 ▸ stored)
  | adminLogin username password =>
    exact .inl ((@adminLogin_tables bcrypt server username password).2.1 ▸ stored)
  | adminAddUser bearer req uid salt =>
    left
    rcases @adminAddUser_cases bcrypt server bearer req uid salt with ⟨_, same⟩ | ⟨_, added⟩
    · simpa only [step, handle, same] using stored
    · simpa only [step, handle, added] using stored
  | deleteChatRecord bearer recordId =>
    cases isAuth : requireAuth server bearer with
    | error reply => exact .inl (by simpa [step, handle, deleteChatRecord, isAuth] using stored)
    | ok payload =>
      by_cases own : record.userId = payload.sub
      · exact .inr ⟨payload, (requireAuth_ok isAuth).2, .inl own.symm⟩
      · exact .inl (by simp [step, handle, deleteChatRecord, isAuth, stored, own])
  | adminDeleteUser bearer userId =>
    cases authorised : requireAdmin server bearer with
    | error reply => exact .inl (by simpa [step, handle, adminDeleteUser, authorised] using stored)
    | ok payload => exact .inr ⟨payload, (requireAdmin_ok authorised).imp_right .inr⟩
  | _ =>
    left
    simp only [step, handle, sendCode, updateProfile, changePassword, saveChatRecord]
    repeat' split
    all_goals first
      | exact stored
      | exact List.mem_append_left _ stored

/-- From a fresh database, the password of an account changes only when the old one is given with a
token of the account that a login returned less than 72 hours ago. -/
theorem password_needs_old (bcrypt : Bcrypt) (admin : Admin) (now : ℚ) (requests : List Request)
    (request : Request) {user other : User}
    (stored : user ∈ (Runs.run (step bcrypt) (initDb admin now) requests).users)
    (later : other ∈
      (step bcrypt (Runs.run (step bcrypt) (initDb admin now) requests) request).users)
    (same : other.id = user.id) (changed : other.passwordHash ≠ user.passwordHash) :
    ∃ token old new salt, request = .changePassword (some token) old new salt ∧
      bcrypt.checkpw old user.passwordHash = true ∧ token.sub = user.id ∧
      FreshLogin bcrypt (initDb admin now) requests token := by
  have wellFormed :=
    Runs.invariant_run (wellFormed_initDb bcrypt admin now) wellFormed_step requests
  have after := wellFormed_step _ request wellFormed
  cases fate_step wellFormed request stored with
  | kept stays => exact absurd (after.eq_of_id later stays same ▸ rfl) changed
  | updated good own stays => exact absurd (after.eq_of_id later stays same ▸ rfl) changed
  | password good own isRequest known =>
    exact ⟨_, _, _, _, isRequest, known, own, freshLogin_of_good rfl good⟩
  | removed good isAdmin gone => exact absurd same (gone other later)

theorem password_needs_old_new :
    ∃ token old new salt, Request.changePassword (some userToken) "secret12" "secret34" "" =
        .changePassword (some token) old new salt ∧
      plainBcrypt.checkpw old (addedUser "A" "a@b" "a@b").passwordHash = true ∧
      token.sub = (addedUser "A" "a@b" "a@b").id ∧
      FreshLogin plainBcrypt (initDb someAdmin 0) (added "a@b" ++ [.login "a@b" "secret12"]) token :=
  @password_needs_old plainBcrypt someAdmin 0 _ _ (addedUser "A" "a@b" "a@b")
    ((addedUser "A" "a@b" "a@b").setPassword "secret34" "secret34") (by decide +kernel)
    (by decide +kernel) rfl (by decide)

end RagFlow.Overseas.Accounts
