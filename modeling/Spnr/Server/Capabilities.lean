import Mathlib.Data.List.Induction
import Spnr.Lib.Run
import Spnr.Server.Auth

/-! The tables keep track of the history: an account for each signup that succeeded, and a
session for each token that was issued and not revoked since. -/
namespace Spnr.Server

open RustStd

variable {A : Argon2}

theorem findAccountByEmail_none {conn : AuthDb} {email : String} :
    conn.findAccountByEmail email = none ↔ ∀ a ∈ conn.accounts, a.email ≠ email := by
  simp [AuthDb.findAccountByEmail]

theorem findAccountByEmail_some {conn : AuthDb} {email : String} {a : Account}
    (found : conn.findAccountByEmail email = some a) : a ∈ conn.accounts ∧ a.email = email :=
  ⟨List.mem_of_find?_eq_some found, by simpa using List.find?_some found⟩

theorem findAccountByEmail_of_mem {conn : AuthDb} (apart : (conn.accounts.map Account.email).Nodup)
    {a : Account} (mem : a ∈ conn.accounts) : conn.findAccountByEmail a.email = some a := by
  cases found : conn.findAccountByEmail a.email with
  | none => exact absurd rfl (findAccountByEmail_none.mp found a mem)
  | some b =>
    obtain ⟨there, email⟩ := findAccountByEmail_some found
    rw [List.inj_on_of_nodup_map apart there mem email]

theorem findAccountById_some {conn : AuthDb} {id : String} {a : Account}
    (found : conn.findAccountById id = some a) : a ∈ conn.accounts ∧ a.accountId = id :=
  ⟨List.mem_of_find?_eq_some found, by simpa using List.find?_some found⟩

def AuthDb.enrolled (conn : AuthDb) (req : AuthReq) (draw : Draw) (now : Int) (phc : String) :
    AuthDb where
  accounts := conn.accounts ++ [⟨newAccountId draw.id, trim req.email, phc⟩]
  sessions := conn.sessions.insert (newToken draw.token) (newAccountId draw.id, now)

theorem signup_cases {conn : AuthDb} (req : AuthReq) (draw : Draw) (now : Int)
    (newId : ∀ a ∈ conn.accounts, a.accountId ≠ newAccountId draw.id)
    (unused : newToken draw.token ∉ conn.sessions) :
    (∃ refusal, signup A (some conn) req draw now = (some conn, .error refusal)) ∨
      ∃ phc, (∀ a ∈ conn.accounts, a.email ≠ trim req.email) ∧
      A.hashPassword draw.salt req.password = some phc ∧
        signup A (some conn) req draw now =
          (some (conn.enrolled req draw now phc),
            .ok ⟨newToken draw.token, newAccountId draw.id, trim req.email⟩) := by
  unfold signup
  dsimp only
  split
  · exact .inl ⟨_, rfl⟩
  split
  · exact .inl ⟨_, rfl⟩
  split
  · exact .inl ⟨_, rfl⟩
  · rename_i free
    split
    · exact .inl ⟨_, rfl⟩
    · rename_i phc hashed
      have others := findAccountByEmail_none.mp free
      have insert_ : conn.insertAccount ⟨newAccountId draw.id, trim req.email, phc⟩ =
          some { conn with accounts := conn.accounts ++
            [⟨newAccountId draw.id, trim req.email, phc⟩] } := by
        refine if_neg ?_
        simpa using fun a mem => ⟨newId a mem, others a mem⟩
      right
      refine ⟨phc, others, hashed, ?_⟩
      rw [insert_]
      simp only [AuthDb.insertSession, if_neg unused, AuthDb.enrolled]

theorem login_cases {conn : AuthDb} (req : AuthReq) (token : List UInt8) (now : Int)
    (unused : newToken token ∉ conn.sessions) :
    (∃ refusal, login A (some conn) req token now = (some conn, .error refusal) ∧
        ∀ a, conn.findAccountByEmail (trim req.email) = some a →
        A.verifyPassword req.password a.passwordPhc = false) ∨
      ∃ a, conn.findAccountByEmail (trim req.email) = some a ∧
      A.verifyPassword req.password a.passwordPhc = true ∧
        login A (some conn) req token now =
          (some { conn with sessions := conn.sessions.insert (newToken token) (a.accountId, now) },
            .ok ⟨newToken token, a.accountId, a.email⟩) := by
  unfold login
  dsimp only
  cases found : conn.findAccountByEmail (trim req.email) with
  | none => exact .inl ⟨_, rfl, nofun⟩
  | some a =>
    cases verified : A.verifyPassword req.password a.passwordPhc with
    | false =>
      refine .inl ⟨(401, "invalid credentials"), by simp [verified], fun b same => ?_⟩
      cases same
      exact verified
    | true =>
      refine .inr ⟨a, rfl, verified, ?_⟩
      simp [AuthDb.insertSession, unused, verified]

theorem holds_concat {history : History} {x : AuthRequest × Response} {token id : String} :
    Holds (history ++ [x]) token id ↔ Issued token id x ∨ Holds history token id ∧
    ¬ Revoked token x := by
  constructor
  · rintro ⟨before, y, after, split, issued, kept⟩
    rcases Transition.split_concat split with ⟨rfl, rfl, rfl⟩ | ⟨rest, rfl, rfl⟩
    · exact .inl issued
    · exact .inr ⟨⟨before, y, rest, rfl, issued, fun y mem => kept y (List.mem_append_left _ mem)⟩,
        kept x (List.mem_append_right _ List.mem_cons_self)⟩
  · rintro (issued | ⟨⟨before, y, after, rfl, issued, kept⟩, last⟩)
    · exact ⟨history, x, [], rfl, issued, nofun⟩
    · refine ⟨before, y, after ++ [x], by simp, issued, fun z mem => ?_⟩
      rcases List.mem_append.mp mem with old | new
      · exact kept z old
      · rw [List.mem_singleton.mp new]
        exact last

theorem Holds.issued {history : History} {token id : String} (holds : Holds history token id) :
    ∃ x ∈ history, Issued token id x := by
  obtain ⟨before, x, after, rfl, issued, -⟩ := holds
  exact ⟨x, by simp, issued⟩

/-- What the tables know of the history of the requests. -/
structure Remembers (A : Argon2) (conn : AuthDb) (history : History)
    (reqs : List AuthRequest) : Prop where
  emails : (conn.accounts.map Account.email).Nodup
  account : ∀ a ∈ conn.accounts, ∃ req draw now resp,
    (AuthRequest.signup req draw now, Response.session (.ok resp)) ∈ history ∧
    trim req.email = a.email ∧ A.hashPassword draw.salt req.password = some a.passwordPhc
  signedUp : ∀ req draw now resp,
    (AuthRequest.signup req draw now, Response.session (.ok resp)) ∈ history →
    ∃ a ∈ conn.accounts, a.email = trim req.email ∧
      A.hashPassword draw.salt req.password = some a.passwordPhc
  session : ∀ token id, conn.findSession token = some id ↔ Holds history token id
  owner : ∀ token id, conn.findSession token = some id → ∃ a ∈ conn.accounts, a.accountId = id
  tokens : ∀ x ∈ history, ∀ token id, Issued token id x → token ∈ reqs.filterMap AuthRequest.token
  ids : ∀ a ∈ conn.accounts, a.accountId ∈ reqs.filterMap AuthRequest.accountId

theorem remembers_fresh : Remembers A .fresh [] [] := by
  constructor
  · exact List.nodup_nil
  · exact fun a mem => absurd mem List.not_mem_nil
  · exact fun req draw now resp mem => absurd mem List.not_mem_nil
  · intro token id
    constructor
    · intro found
      simp [AuthDb.findSession, AuthDb.fresh] at found
    · rintro ⟨before, x, after, split, -⟩
      simp at split
  · intro token id found
    simp [AuthDb.findSession, AuthDb.fresh] at found
  · exact fun x mem => absurd mem List.not_mem_nil
  · exact fun a mem => absurd mem List.not_mem_nil

theorem mem_filterMap_concat {β : Type} {f : AuthRequest → Option β}
    {reqs : List AuthRequest} {b : β}
    (mem : b ∈ reqs.filterMap f) (r : AuthRequest) : b ∈ (reqs ++ [r]).filterMap f := by
  rw [List.filterMap_append]
  exact List.mem_append_left _ mem

theorem not_mem_of_nodup {β : Type} {f : AuthRequest → Option β} {reqs : List AuthRequest}
    {r : AuthRequest} {b : β}
    (apart : ((reqs ++ [r]).filterMap f).Nodup) (drawn : f r = some b) : b ∉ reqs.filterMap f := by
  intro mem
  rw [List.filterMap_append, List.filterMap_cons_some drawn] at apart
  exact (List.nodup_append.mp apart).2.2 b mem b List.mem_cons_self rfl

theorem mem_filterMap_last {β : Type} {f : AuthRequest → Option β} {r : AuthRequest} {b : β}
    (drawn : f r = some b) (reqs : List AuthRequest) : b ∈ (reqs ++ [r]).filterMap f :=
  List.mem_filterMap.mpr ⟨r, by simp, drawn⟩

theorem findSession_insert (conn : AuthDb) (accounts : List Account) (token accountId : String)
    (now : Int) (t : String) :
    AuthDb.findSession ⟨accounts, conn.sessions.insert token (accountId, now)⟩ t =
      if t = token then some accountId else conn.findSession t := by
  rw [AuthDb.findSession, HashMap.lookup_insert]
  split
  · rfl
  · rfl

theorem findSession_delete (conn : AuthDb) (token t : String) :
    (conn.deleteSession token).findSession t = if t = token then none else conn.findSession t := by
  rw [AuthDb.findSession, AuthDb.deleteSession, HashMap.lookup_erase]
  split
  · rfl
  · rfl

section

variable {conn : AuthDb} {history : History} {reqs : List AuthRequest}

theorem Remembers.unused (remembers : Remembers A conn history reqs) {token : String}
    (new : token ∉ reqs.filterMap AuthRequest.token) : token ∉ conn.sessions := by
  intro mem
  obtain ⟨entry, found⟩ := Finmap.mem_iff.mp mem
  have holds := (remembers.session token entry.1).mp (by rw [AuthDb.findSession, found]; rfl)
  obtain ⟨x, there, issued⟩ := holds.issued
  exact new (remembers.tokens x there token entry.1 issued)

theorem Remembers.tokens_concat (remembers : Remembers A conn history reqs)
    {x : AuthRequest × Response}
    {r : AuthRequest} (drawn : ∀ t id, Issued t id x → r.token = some t) :
    ∀ y ∈ history ++ [x], ∀ t id, Issued t id y →
    t ∈ (reqs ++ [r]).filterMap AuthRequest.token := by
  intro y mem t id issued
  rcases List.mem_append.mp mem with old | new
  · exact mem_filterMap_concat (remembers.tokens y old t id issued) r
  · rw [List.mem_singleton.mp new] at issued
    exact mem_filterMap_last (drawn t id issued) reqs

theorem Remembers.beside (remembers : Remembers A conn history reqs)
    {sessions : HashMap String (String × Int)} {x : AuthRequest × Response} {r : AuthRequest}
    (other : ∀ req draw now resp, x ≠ (.signup req draw now, .session (.ok resp)))
    (session : ∀ t id, AuthDb.findSession ⟨conn.accounts, sessions⟩ t = some id ↔
      Holds (history ++ [x]) t id)
    (owner : ∀ t id, AuthDb.findSession ⟨conn.accounts, sessions⟩ t = some id → ∃ a ∈ conn.accounts,
      a.accountId = id)
    (drawn : ∀ t id, Issued t id x → r.token = some t) :
    Remembers A ⟨conn.accounts, sessions⟩ (history ++ [x]) (reqs ++ [r]) := by
  constructor
  · exact remembers.emails
  · intro a mem
    obtain ⟨req, draw, now, resp, there, rest⟩ := remembers.account a mem
    exact ⟨req, draw, now, resp, List.mem_append_left _ there, rest⟩
  · intro req draw now resp mem
    rcases List.mem_append.mp mem with old | new
    · exact remembers.signedUp req draw now resp old
    · exact absurd (List.mem_singleton.mp new).symm (other req draw now resp)
  · exact session
  · exact owner
  · exact remembers.tokens_concat drawn
  · exact fun a mem => mem_filterMap_concat (remembers.ids a mem) r

theorem Remembers.still (remembers : Remembers A conn history reqs) {x : AuthRequest × Response}
    (silent : ∀ t id, ¬ Issued t id x) (kept : ∀ t, ¬ Revoked t x) (r : AuthRequest) :
    Remembers A conn (history ++ [x]) (reqs ++ [r]) := by
  refine @Remembers.beside A conn history reqs remembers conn.sessions x r ?_ ?_ remembers.owner
    fun t id issued => absurd issued (silent t id)
  · rintro req draw now resp rfl
    exact silent resp.token resp.accountId ⟨rfl, rfl⟩
  · intro t id
    rw [holds_concat]
    simpa [silent, kept] using remembers.session t id

theorem Remembers.session_insert (remembers : Remembers A conn history reqs)
    {token accountId : String}
    (new : token ∉ reqs.filterMap AuthRequest.token) {x : AuthRequest × Response}
    (issued : ∀ t id, Issued t id x ↔ token = t ∧ accountId = id) (kept : ∀ t, ¬ Revoked t x)
    (accounts : List Account) (now : Int) (t id : String) :
    AuthDb.findSession ⟨accounts, conn.sessions.insert token (accountId, now)⟩ t = some id ↔
      Holds (history ++ [x]) t id := by
  rw [holds_concat, issued, findSession_insert]
  by_cases same : t = token
  · subst same
    have none_ : ¬ Holds history t id := by
      intro holds
      obtain ⟨y, there, was⟩ := holds.issued
      exact new (remembers.tokens y there t id was)
    simp [none_]
  · rw [if_neg same, remembers.session]
    simp [kept, Ne.symm same]

theorem Remembers.owner_insert (remembers : Remembers A conn history reqs) {accounts : List Account}
    (older : ∀ a ∈ conn.accounts, a ∈ accounts) {a : Account} (mem : a ∈ accounts)
    (token : String) (now : Int)
    (t id : String) (found :
      AuthDb.findSession ⟨accounts, conn.sessions.insert token (a.accountId, now)⟩ t = some id) :
    ∃ b ∈ accounts, b.accountId = id := by
  rw [findSession_insert] at found
  split at found
  · exact ⟨a, mem, Option.some.inj found⟩
  · obtain ⟨b, there, owned⟩ := remembers.owner t id found
    exact ⟨b, older b there, owned⟩

theorem Remembers.enrolled (remembers : Remembers A conn history reqs) {req : AuthReq}
    {draw : Draw} {now : Int} {phc : String} (apart : NeverRepeat (reqs ++ [.signup req draw now]))
    (others : ∀ a ∈ conn.accounts, a.email ≠ trim req.email)
    (hashed : A.hashPassword draw.salt req.password = some phc) :
    Remembers A (conn.enrolled req draw now phc)
      (history ++ [(.signup req draw now,
        .session (.ok ⟨newToken draw.token, newAccountId draw.id, trim req.email⟩))])
      (reqs ++ [.signup req draw now]) := by
  have newToken_ : newToken draw.token ∉ reqs.filterMap AuthRequest.token :=
    not_mem_of_nodup apart.tokens rfl
  have newest : (⟨newAccountId draw.id, trim req.email, phc⟩ : Account) ∈
    (conn.enrolled req draw now phc).accounts :=
    List.mem_append_right _ (List.mem_singleton.mpr rfl)
  have older : ∀ a ∈ conn.accounts, a ∈ (conn.enrolled req draw now phc).accounts :=
    fun a => List.mem_append_left _
  constructor
  · rw [AuthDb.enrolled, List.map_append, List.nodup_append]
    refine ⟨remembers.emails, List.nodup_singleton _, ?_⟩
    rintro email mem _ last rfl
    obtain ⟨a, there, rfl⟩ := List.mem_map.mp mem
    exact others a there (List.mem_singleton.mp last)
  · intro a mem
    rcases List.mem_append.mp mem with old | new
    · obtain ⟨req', draw', now', resp', there, rest⟩ := remembers.account a old
      exact ⟨req', draw', now', resp', List.mem_append_left _ there, rest⟩
    · rw [List.mem_singleton.mp new]
      exact ⟨req, draw, now, _, List.mem_append_right _ (List.mem_singleton.mpr rfl), rfl, hashed⟩
  · intro req' draw' now' resp' mem
    rcases List.mem_append.mp mem with old | new
    · obtain ⟨a, there, rest⟩ := remembers.signedUp req' draw' now' resp' old
      exact ⟨a, older a there, rest⟩
    · cases List.mem_singleton.mp new
      exact ⟨_, newest, rfl, hashed⟩
  · exact remembers.session_insert newToken_ (fun t id => Iff.rfl) (fun t => id) _ now
  · exact remembers.owner_insert older newest _ now
  · exact remembers.tokens_concat fun t id issued => congrArg some issued.1
  · intro a mem
    rcases List.mem_append.mp mem with old | new
    · exact mem_filterMap_concat (remembers.ids a old) _
    · rw [List.mem_singleton.mp new]
      exact mem_filterMap_last (f := AuthRequest.accountId) (r := .signup req draw now) rfl reqs

theorem Remembers.signup (remembers : Remembers A conn history reqs)
    (req : AuthReq) (draw : Draw) (now : Int)
    (apart : NeverRepeat (reqs ++ [.signup req draw now])) :
    ∃ conn', (serveAuth A (some conn, history) (.signup req draw now)).1 = some conn' ∧
      Remembers A conn' (serveAuth A (some conn, history) (.signup req draw now)).2
        (reqs ++ [.signup req draw now]) := by
  have newToken_ : newToken draw.token ∉ reqs.filterMap AuthRequest.token :=
    not_mem_of_nodup apart.tokens rfl
  have newId_ : newAccountId draw.id ∉ reqs.filterMap AuthRequest.accountId :=
    not_mem_of_nodup apart.ids rfl
  have newId : ∀ a ∈ conn.accounts, a.accountId ≠ newAccountId draw.id :=
    fun a mem same => newId_ (same ▸ remembers.ids a mem)
  rcases signup_cases (A := A) req draw now newId (remembers.unused newToken_) with
    ⟨refusal, h⟩ | ⟨phc, others, hashed, h⟩
  · refine ⟨conn, by simp only [serveAuth, respond, h], ?_⟩
    simp only [serveAuth, respond, h]
    exact remembers.still (fun _ _ => id) (fun _ => id) _
  · refine ⟨conn.enrolled req draw now phc, by simp only [serveAuth, respond, h], ?_⟩
    simp only [serveAuth, respond, h]
    exact remembers.enrolled apart others hashed

theorem Remembers.loggedIn (remembers : Remembers A conn history reqs) {req : AuthReq}
    {token : List UInt8} {now : Int}
    {a : Account} (apart : NeverRepeat (reqs ++ [.login req token now])) (mem : a ∈ conn.accounts) :
    Remembers A { conn with sessions := conn.sessions.insert (newToken token) (a.accountId, now) }
      (history ++ [(.login req token now, .session (.ok ⟨newToken token, a.accountId, a.email⟩))])
      (reqs ++ [.login req token now]) := by
  have newToken_ : newToken token ∉ reqs.filterMap AuthRequest.token :=
    not_mem_of_nodup apart.tokens rfl
  apply remembers.beside
  · exact fun req' draw now' resp same => nomatch same
  · exact remembers.session_insert newToken_ (fun t id => Iff.rfl) (fun t => id) _ now
  · exact remembers.owner_insert (fun _ => id) mem _ now
  · exact fun t id issued => congrArg some issued.1

theorem Remembers.login (remembers : Remembers A conn history reqs)
    (req : AuthReq) (token : List UInt8) (now : Int)
    (apart : NeverRepeat (reqs ++ [.login req token now])) :
    ∃ conn', (serveAuth A (some conn, history) (.login req token now)).1 = some conn' ∧
      Remembers A conn' (serveAuth A (some conn, history) (.login req token now)).2
        (reqs ++ [.login req token now]) := by
  have newToken_ : newToken token ∉ reqs.filterMap AuthRequest.token :=
    not_mem_of_nodup apart.tokens rfl
  rcases login_cases (A := A) req token now (remembers.unused newToken_) with ⟨refusal, h, -⟩ | ⟨a,
    found, -, h⟩
  · refine ⟨conn, by simp only [serveAuth, respond, h], ?_⟩
    simp only [serveAuth, respond, h]
    exact remembers.still (fun _ _ => id) (fun _ => id) _
  · refine ⟨_, congrArg Prod.fst h, ?_⟩
    simp only [serveAuth, respond, h]
    exact remembers.loggedIn apart (findAccountByEmail_some found).1

theorem Remembers.loggedOut (remembers : Remembers A conn history reqs)
    {authorization : Option String} {token : String}
    (carried : bearerToken authorization = some token) :
    Remembers A (conn.deleteSession token) (history ++ [(.logout authorization, .logout (.ok ()))])
      (reqs ++ [.logout authorization]) := by
  refine remembers.beside (fun _ _ _ _ same => nomatch same) ?_ ?_ fun t id issued => issued.elim
  · intro t id
    have revoked : Revoked t (.logout authorization, .logout (.ok ())) ↔ t = token := by
      rw [Revoked, carried, Option.some.injEq]
      exact eq_comm
    rw [holds_concat, revoked, ← remembers.session]
    change (conn.deleteSession token).findSession t = some id ↔ _
    rw [findSession_delete]
    by_cases same : t = token <;> simp [same, Issued]
  · intro t id found
    change (conn.deleteSession token).findSession t = some id at found
    rw [findSession_delete] at found
    split at found
    · contradiction
    · exact remembers.owner t id found

theorem Remembers.logout (remembers : Remembers A conn history reqs)
    (authorization : Option String) :
    ∃ conn', (serveAuth A (some conn, history) (.logout authorization)).1 = some conn' ∧
      Remembers A conn' (serveAuth A (some conn, history) (.logout authorization)).2
        (reqs ++ [.logout authorization]) := by
  cases carried : bearerToken authorization with
  | none =>
    refine ⟨conn, by simp only [serveAuth, respond, Server.logout, carried], ?_⟩
    simp only [serveAuth, respond, Server.logout, carried]
    exact remembers.still (fun _ _ => id) (fun _ => id) _
  | some token =>
    refine ⟨conn.deleteSession token, by simp only [serveAuth, respond, Server.logout, carried], ?_⟩
    simp only [serveAuth, respond, Server.logout, carried]
    exact remembers.loggedOut carried

theorem Remembers.serve (remembers : Remembers A conn history reqs)
    (r : AuthRequest) (apart : NeverRepeat (reqs ++ [r])) :
    ∃ conn', (serveAuth A (some conn, history) r).1 = some conn' ∧
      Remembers A conn' (serveAuth A (some conn, history) r).2 (reqs ++ [r]) := by
  cases r with
  | signup req draw now => exact remembers.signup req draw now apart
  | login req token now => exact remembers.login req token now apart
  | me authorization => exact ⟨conn, rfl, remembers.still (fun _ _ => id) (fun _ => id) _⟩
  | logout authorization => exact remembers.logout authorization

theorem NeverRepeat.of_concat {reqs : List AuthRequest} {r : AuthRequest}
    (apart : NeverRepeat (reqs ++ [r])) : NeverRepeat reqs := by
  obtain ⟨tokens, ids⟩ := apart
  rw [List.filterMap_append] at tokens ids
  exact ⟨(List.nodup_append.mp tokens).1, (List.nodup_append.mp ids).1⟩

theorem remembers_run {reqs : List AuthRequest} (apart : NeverRepeat reqs) :
    ∃ conn, (authRun A reqs).1 = some conn ∧ Remembers A conn (authRun A reqs).2 reqs := by
  induction reqs using List.reverseRecOn with
  | nil => exact ⟨.fresh, rfl, remembers_fresh⟩
  | append_singleton reqs r ih =>
    obtain ⟨conn, tables, remembers⟩ := ih apart.of_concat
    have last : authRun A (reqs ++ [r]) = serveAuth A (some conn, (authRun A reqs).2) r := by
      rw [authRun, List.foldl_append, ← tables]
      rfl
    rw [last]
    exact remembers.serve r apart

theorem Remembers.login_iff (remembers : Remembers A conn history reqs)
    (req : AuthReq) (token : List UInt8) (now : Int) (unused : newToken token ∉ conn.sessions) :
    (∃ resp, (Server.login A (some conn) req token now).2 = .ok resp) ↔
    SignedUp history req.email req.password := by
  constructor
  · rintro ⟨resp, ok⟩
    rcases login_cases (A := A) req token now unused with ⟨refusal, h, -⟩ | ⟨a, found, verified, -⟩
    · rw [h] at ok
      contradiction
    · obtain ⟨mem, email⟩ := findAccountByEmail_some found
      obtain ⟨req', draw, now', resp', there, same, hashed⟩ := remembers.account a mem
      exact ⟨req', draw, now', resp', there, same.trans email,
        ((A.verify_hash _ _ _ hashed _).mp verified).symm⟩
  · rintro ⟨req', draw, now', resp', there, same, password⟩
    obtain ⟨a, mem, email, hashed⟩ := remembers.signedUp req' draw now' resp' there
    rcases login_cases (A := A) req token now unused with ⟨refusal, -, wrong⟩ | ⟨b, -, -, h⟩
    · have found : conn.findAccountByEmail (trim req.email) = some a := by
        rw [← same, ← email]
        exact findAccountByEmail_of_mem remembers.emails mem
      have verified := (A.verify_hash _ _ _ hashed req.password).mpr password.symm
      rw [wrong a found] at verified
      contradiction
    · exact ⟨_, congrArg Prod.snd h⟩

theorem Remembers.me_iff (remembers : Remembers A conn history reqs)
    {authorization : Option String} {token : String}
    (carried : bearerToken authorization = some token) (id : String) :
    (∃ resp, Server.me (some conn) authorization = .ok resp ∧ resp.accountId = id) ↔
    Holds history token id := by
  rw [← remembers.session]
  simp only [Server.me, carried]
  constructor
  · rintro ⟨resp, ok, rfl⟩
    split at ok
    · contradiction
    · rename_i a owned
      cases ok
      obtain ⟨id, session, found⟩ := Option.bind_eq_some_iff.mp owned
      rw [session, (findAccountById_some found).2]
  · intro session
    rw [session, Option.bind_some]
    cases found : conn.findAccountById id with
    | none =>
      obtain ⟨a, mem, owned⟩ := remembers.owner token id session
      exact absurd owned (by simpa using List.find?_eq_none.mp found a mem)
    | some a => exact ⟨_, rfl, (findAccountById_some found).2⟩

end

/-- Login sessions are capabilities that signup and login issue and logout revokes. -/
theorem sessions_capabilities (A : Argon2) (reqs : List AuthRequest) (apart : NeverRepeat reqs) :
    ∃ conn, (authRun A reqs).1 = some conn ∧ (conn.accounts.map fun a => trim a.email).Nodup ∧
      (∀ req token now, NeverRepeat (reqs ++ [.login req token now]) →
        ((∃ resp, (login A (some conn) req token now).2 = .ok resp) ↔
          SignedUp (authRun A reqs).2 req.email req.password)) ∧
      ∀ authorization id, (∃ resp, me (some conn) authorization = .ok resp ∧ resp.accountId = id) ↔
        ∃ token, bearerToken authorization = some token ∧ Holds (authRun A reqs).2 token id := by
  obtain ⟨conn, tables, remembers⟩ := @remembers_run A reqs apart
  refine ⟨conn, tables, ?_, ?_, ?_⟩
  · have trimmed : ∀ a ∈ conn.accounts, trim a.email = a.email := by
      intro a mem
      obtain ⟨req, draw, now, resp, -, email, -⟩ := remembers.account a mem
      rw [← email, trim_trim]
    rw [List.map_congr_left trimmed]
    exact remembers.emails
  · intro req token now next
    exact remembers.login_iff req token now (remembers.unused (not_mem_of_nodup next.tokens rfl))
  · intro authorization id
    cases carried : bearerToken authorization with
    | none => simp [me, carried]
    | some token => rw [remembers.me_iff carried]; simp

def plainly : Argon2 where
  hashPassword _ password := some ("$argon2id$" ++ password)
  verifyPassword plain phc := "$argon2id$" ++ plain == phc
  verify_hash := by
    intro salt password phc hashed plain
    cases hashed
    simp

theorem sessions_capabilities_twice :
    NeverRepeat [.signup ⟨" a@b.co ", "long enough"⟩ ⟨[1], [2], [3]⟩ 10,
      .login ⟨"a@b.co", "long enough"⟩ [4] 20, .logout (some "Bearer 03")] ∧
    ∃ conn, (authRun plainly [.signup ⟨" a@b.co ", "long enough"⟩ ⟨[1], [2], [3]⟩ 10,
        .login ⟨"a@b.co", "long enough"⟩ [4] 20, .logout (some "Bearer 03")]).1 = some conn ∧
      (conn.accounts.map fun a => trim a.email).Nodup := by
  have apart : NeverRepeat [.signup ⟨" a@b.co ", "long enough"⟩ ⟨[1], [2], [3]⟩ 10,
      .login ⟨"a@b.co", "long enough"⟩ [4] 20, .logout (some "Bearer 03")] := by
    constructor <;> decide
  obtain ⟨conn, tables, emails, -⟩ := sessions_capabilities plainly _ apart
  exact ⟨apart, conn, tables, emails⟩

end Spnr.Server
