import LinkShortener.Credentials.Model

/-!
# What an execution can do

`Takes cfg v op pc a` lists what the next statement of an execution of `op` at `pc` may be, one constructor for each
outcome, with what it has found (`takes_of_next`). The statements that work on many rows are told apart by the row they
come to: it is retired, or passed over. Everything that holds along the runs of the system is shown by cases on it.
-/

namespace LinkShortener.Credentials

open ReadCommitted Transactions
open Accounts (Account)

/-- **What the next statement of an execution is.** -/
inductive Takes (cfg : Config) (v : Seen) (op : Operation) : Pc → Act → Prop
  | refuse {pc} : pc.ended = false → Takes cfg v op pc (.rollback ⟨op, .refused⟩)
  -- `LoginUseCase.execute` and `create_session_tokens`
  | compare {u password a} : v.row (.user u) = some a → cfg.verifyPassword password a.passwordHash = true →
      Takes cfg v op (.authenticate u password) (.goto ⟨op, .recordLogin u v.moment⟩)
  | recordLogin {u origin a} : v.row (.user u) = some a → Takes cfg v op (.recordLogin u origin)
      (.write (.user u) (some { a with lastLogin := some v.now }) ⟨op, .recordedLogin u origin⟩)
  | recordNothing {u origin} : Takes cfg v op (.recordLogin u origin) (.goto ⟨op, .recordedLogin u origin⟩)
  | recorded {u origin} : Takes cfg v op (.recordedLogin u origin) (.commit ⟨op, .openSession u origin⟩)
  | openSession {u origin} : .session u v.fresh ∉ v.keys → Takes cfg v op (.openSession u origin)
      (.write (.session u v.fresh) (some (.create u v.fresh (v.now + cfg.refreshExpire) v.now none origin))
        ⟨op, .opened u v.fresh origin⟩)
  | opened {u tokenId origin} : Takes cfg v op (.opened u tokenId origin) (.commit ⟨op, .done⟩)
  -- `refresh_access_token`
  | useSession {token u tokenId chain} : Takes cfg v op (.findSession token) (.goto ⟨op, .loadUser u tokenId chain⟩)
  | replay {token chain} : Takes cfg v op (.findSession token) (.goto ⟨op, .revokeChain chain⟩)
  | loadUser {u tokenId chain} : Takes cfg v op (.loadUser u tokenId chain)
      (.goto ⟨op, .claimForRotation u tokenId v.fresh chain (v.now + cfg.refreshExpire)⟩)
  | claimForRotation {u tokenId new chain expiresAt r} : v.row (.session u tokenId) = some r →
      r.row.isUsable v.now = true → Takes cfg v op (.claimForRotation u tokenId new chain expiresAt)
        (.write (.session u tokenId) (some (r.replace new)) ⟨op, .rotate u tokenId new chain expiresAt r.origin⟩)
  | rotate {u tokenId new chain expiresAt origin} : .session u new ∉ v.keys →
      Takes cfg v op (.rotate u tokenId new chain expiresAt origin)
        (.write (.session u new) (some (.create u new expiresAt v.now (some chain) origin))
          ⟨op, .rotated u tokenId new origin⟩)
  | rotated {u tokenId new origin} : Takes cfg v op (.rotated u tokenId new origin) (.commit ⟨op, .done⟩)
  | revokeChain {chain} : Takes cfg v op (.revokeChain chain)
      (.goto ⟨op, .revokingChain chain v.now (v.targets (revokeChain chain v.now))⟩)
  | revokeOfChain {chain now todo u tokenId r} : v.row (.session u tokenId) = some r →
      Takes cfg v op (.revokingChain chain now todo)
        (.write (.session u tokenId) (some (r.revoke now)) ⟨op, .revokingChain chain now (todo.erase (.session u tokenId))⟩)
  | passOfChain {chain now todo k} : Takes cfg v op (.revokingChain chain now todo)
      (.goto ⟨op, .revokingChain chain now (todo.erase k)⟩)
  | revokedChain {chain now} : Takes cfg v op (.revokingChain chain now []) (.commit ⟨op, .refused⟩)
  -- `claim`
  | findOwner {kind hash tok} : op.presents = some (kind, hash) → v.row (.token kind hash) = some tok →
      Takes cfg v op .findOwner (.goto ⟨op, .claim tok.userId v.now⟩)
  | claim {kind hash tok owner now} : op.presents = some (kind, hash) → v.row (.token kind hash) = some tok →
      tok.isUsable now = true → Takes cfg v op (.claim owner now)
        (.write (.token kind hash) (some (tok.spend now)) ⟨op, .findById owner⟩)
  -- `find_by_id` and `save`
  | findById {u a a'} : v.row (.user u) = some a → change cfg v ⟨op, .findById u⟩ a = some a' →
      Takes cfg v op (.findById u) (.goto ⟨op, .save u a'⟩)
  | save {u entity} : Takes cfg v op (.save u entity) (.goto ⟨op, .flush u (flushOf entity (v.row (.user u)))⟩)
  | flushNothing {u} : Takes cfg v op (.flush u .nothing) (.goto ⟨op, afterSave ⟨op, .flush u .nothing⟩ u⟩)
  | flushRow {u w a} : Takes cfg v op (.flush u w) (.write (.user u) (some a) ⟨op, afterSave ⟨op, .flush u w⟩ u⟩)
  | confirmed : Takes cfg v op .confirmed (.commit ⟨op, .done⟩)
  -- `invalidate_for_user` and what follows it
  | findByEmail {u} : Takes cfg v op (.findByEmail u) (.goto ⟨op, .invalidate u⟩)
  | nothingToSend {u} : Takes cfg v op (.findByEmail u) (.rollback ⟨op, .done⟩)
  | invalidate {u} : Takes cfg v op (.invalidate u)
      (.goto ⟨op, .invalidating u v.moment v.now (v.targets (invalidateForUser u v.now))⟩)
  | invalidateRow {u asOf now todo hash tok} : v.row (.token .reset hash) = some tok → tok.usedAt = none →
      Takes cfg v op (.invalidating u asOf now todo) (.write (.token .reset hash) (some (tok.spend now))
        ⟨op, .invalidating u asOf now (todo.erase (.token .reset hash))⟩)
  | passInvalidated {u asOf now todo k} : (∀ row, v.row k = some row → unspentOf u k row = false) →
      Takes cfg v op (.invalidating u asOf now todo) (.goto ⟨op, .invalidating u asOf now (todo.erase k)⟩)
  | invalidated {u asOf now} : Takes cfg v op (.invalidating u asOf now [])
      (.goto ⟨op, afterInvalidate ⟨op, .invalidating u asOf now []⟩ u asOf⟩)
  | issue {u asOf} : .token .reset v.fresh ∉ v.keys → Takes cfg v op (.issue u asOf)
      (.write (.token .reset v.fresh) (some (.issue u cfg.resetTtl v.now v.moment))
        ⟨op, .issued u v.fresh asOf v.moment⟩)
  | issued {u hash asOf issued} : Takes cfg v op (.issued u hash asOf issued) (.commit ⟨op, .done⟩)
  -- `revoke_all_for_user`
  | revoke {u since} : Takes cfg v op (.revoke u since)
      (.goto ⟨op, .revoking u since v.moment v.now (v.targets (revokeAllForUser u v.now))⟩)
  | revokeRow {u since asOf now todo tokenId r} : v.row (.session u tokenId) = some r →
      Takes cfg v op (.revoking u since asOf now todo) (.write (.session u tokenId) (some (r.revoke now))
        ⟨op, .revoking u since asOf now (todo.erase (.session u tokenId))⟩)
  | passRevoked {u since asOf now todo k} : (∀ row, v.row k = some row → unrevokedOf u k row = false) →
      Takes cfg v op (.revoking u since asOf now todo) (.goto ⟨op, .revoking u since asOf now (todo.erase k)⟩)
  | revoked {u since asOf now} : Takes cfg v op (.revoking u since asOf now [])
      (.commit ⟨op, afterChange v ⟨op, .revoking u since asOf now []⟩ u⟩)
  -- `SQLAlchemyUserRepository.delete`
  | getUser {u} : Takes cfg v op (.getUser u) (.goto ⟨op, .deleting u⟩)
  | cascade {u k} : Takes cfg v op (.deleting u) (.write k none ⟨op, .deleting u⟩)
  | deleteUser {u} : Takes cfg v op (.deleting u) (.write (.user u) none ⟨op, .deleted⟩)
  | deleted : Takes cfg v op .deleted (.commit ⟨op, .done⟩)

section Inversion

variable {cfg : Config} {v : Seen} {p : Proc} {op : Operation} {a : Act}

/-- The work of a statement on a row: the row is written, or passed over. -/
theorem work_cases {u : Stmt Value} {todo : List Key} {pc : List Key → Pc} (h : work v p u todo pc = some a) :
    (∃ k row, v.row k = some row ∧ u.cond k row = true ∧ a = .write k (u.set k row) (p.at_ (pc (todo.erase k)))) ∨
      ∃ k, (∀ row, v.row k = some row → u.cond k row = false) ∧ a = .goto (p.at_ (pc (todo.erase k))) := by
  unfold work at h
  split at h
  · cases hrow : (v.row v.pick).filter (u.cond v.pick) with
    | some row =>
      rw [hrow] at h
      cases h
      obtain ⟨hsome, hcond⟩ := Option.filter_eq_some_iff.mp hrow
      exact .inl ⟨v.pick, row, hsome, hcond, rfl⟩
    | none =>
      rw [hrow] at h
      cases h
      refine .inr ⟨v.pick, ?_, rfl⟩
      intro row hsome
      rw [hsome] at hrow
      simpa using Option.filter_eq_none_iff.mp hrow row rfl
  · cases h

theorem takes_of_revokingChain {chain : Uuid} {now : Instant} {todo : List Key}
    (h : work v ⟨op, .revokingChain chain now todo⟩ (revokeChain chain now) todo (.revokingChain chain now) = some a) :
    Takes cfg v op (.revokingChain chain now todo) a := by
  obtain ⟨k, row, hrow, hcond, rfl⟩ | ⟨k, -, rfl⟩ := work_cases h
  · cases k with
    | session u tokenId => exact .revokeOfChain hrow
    | user u => cases hcond
    | token kind hash => cases hcond
  · exact .passOfChain

theorem takes_of_invalidating {u : Uuid} {asOf : Nat} {now : Instant} {todo : List Key}
    (h : work v ⟨op, .invalidating u asOf now todo⟩ (invalidateForUser u now) todo (.invalidating u asOf now) = some a) :
    Takes cfg v op (.invalidating u asOf now todo) a := by
  obtain ⟨k, row, hrow, hcond, rfl⟩ | ⟨k, hpass, rfl⟩ := work_cases h
  · cases k with
    | token kind hash =>
      cases kind with
      | reset =>
        have hunspent : row.usedAt = none := by
          simp only [invalidateForUser, unspentOf, Bool.and_eq_true, Option.isNone_iff_eq_none] at hcond
          exact hcond.2
        exact .invalidateRow hrow hunspent
      | verification => cases hcond
    | user u => cases hcond
    | session u tokenId => cases hcond
  · exact .passInvalidated hpass

theorem takes_of_revoking {u : Uuid} {since : Option Nat} {asOf : Nat} {now : Instant} {todo : List Key}
    (h : work v ⟨op, .revoking u since asOf now todo⟩ (revokeAllForUser u now) todo (.revoking u since asOf now) = some a) :
    Takes cfg v op (.revoking u since asOf now todo) a := by
  obtain ⟨k, row, hrow, hcond, rfl⟩ | ⟨k, hpass, rfl⟩ := work_cases h
  · cases k with
    | session u' tokenId =>
      have howner : u' = u := by
        simp only [revokeAllForUser, unrevokedOf, Bool.and_eq_true, decide_eq_true_eq] at hcond
        exact hcond.1
      subst howner
      exact .revokeRow hrow
    | user u => cases hcond
    | token kind hash => cases hcond
  · exact .passRevoked hpass

theorem takes_of_nextClaim {pc : Pc} {kind : Kind} {hash : TokenHash} (hpresents : op.presents = some (kind, hash))
    (h : nextClaim v ⟨op, pc⟩ kind hash pc = some a) : Takes cfg v op pc a := by
  cases pc with
  | findOwner =>
    simp only [nextClaim] at h
    cases hrow : v.row (.token kind hash) with
    | none =>
      rw [hrow] at h
      cases h
      exact .refuse rfl
    | some tok =>
      rw [hrow] at h
      cases h
      exact .findOwner hpresents hrow
  | claim owner now =>
    simp only [nextClaim] at h
    cases hrow : (v.row (.token kind hash)).filter (Token.isUsable now) with
    | none =>
      rw [hrow] at h
      cases h
      exact .refuse rfl
    | some tok =>
      rw [hrow] at h
      cases h
      obtain ⟨hsome, husable⟩ := Option.filter_eq_some_iff.mp hrow
      exact .claim hpresents hsome husable
  | _ => cases h

theorem insertRow_cases {k : Key} {row : Value k} {pc : Pc} :
    insertRow v p k row pc = .rollback (p.at_ .refused) ∨
      k ∉ v.keys ∧ insertRow v p k row pc = .write k (some row) (p.at_ pc) := by
  unfold insertRow
  split
  · exact .inl rfl
  · rename_i hk
    exact .inr ⟨hk, rfl⟩

theorem takes_of_nextSession {pc : Pc} (h : nextSession cfg v ⟨op, pc⟩ pc = some a) : Takes cfg v op pc a := by
  cases pc with
  | authenticate u password =>
    simp only [nextSession] at h
    cases hrow : v.row (.user u) with
    | none =>
      rw [hrow] at h
      cases h
      exact .refuse rfl
    | some account =>
      simp only [hrow] at h
      split at h
      · rename_i hcheck
        cases h
        simp only [Bool.and_eq_true] at hcheck
        exact .compare hrow hcheck.1.1
      · cases h
        exact .refuse rfl
  | recordLogin u origin =>
    simp only [nextSession] at h
    cases hrow : v.row (.user u) with
    | none =>
      rw [hrow] at h
      cases h
      exact .recordNothing
    | some account =>
      rw [hrow] at h
      cases h
      exact .recordLogin hrow
  | recordedLogin u origin => cases h; exact .recorded
  | openSession u origin =>
    simp only [nextSession, Option.some.injEq] at h
    subst h
    rcases insertRow_cases with heq | ⟨hnew, heq⟩
    · rw [heq]
      exact .refuse rfl
    · rw [heq]
      exact .openSession hnew
  | opened u tokenId origin => cases h; exact .opened
  | findSession token =>
    simp only [nextSession] at h
    split at h
    · cases h
      unfold refreshFound
      split
      · exact .refuse rfl
      · split
        · exact .useSession
        · split
          · exact .replay
          · exact .refuse rfl
    · cases h
      exact .refuse rfl
  | loadUser u tokenId chain =>
    simp only [nextSession] at h
    cases hrow : v.row (.user u) with
    | none =>
      rw [hrow] at h
      cases h
      exact .refuse rfl
    | some account =>
      simp only [hrow] at h
      split at h
      · cases h
        exact .loadUser
      · cases h
        exact .refuse rfl
  | claimForRotation u tokenId new chain expiresAt =>
    simp only [nextSession] at h
    cases hrow : (v.row (.session u tokenId)).filter fun r => r.row.isUsable v.now with
    | none =>
      rw [hrow] at h
      cases h
      exact .refuse rfl
    | some r =>
      rw [hrow] at h
      cases h
      obtain ⟨hsome, husable⟩ := Option.filter_eq_some_iff.mp hrow
      exact .claimForRotation hsome husable
  | rotate u tokenId new chain expiresAt origin =>
    simp only [nextSession, Option.some.injEq] at h
    subst h
    rcases insertRow_cases with heq | ⟨hnew, heq⟩
    · rw [heq]
      exact .refuse rfl
    · rw [heq]
      exact .rotate hnew
  | rotated u tokenId new origin => cases h; exact .rotated
  | revokeChain chain => cases h; exact .revokeChain
  | revokingChain chain now todo =>
    cases todo with
    | nil => cases h; exact .revokedChain
    | cons k todo => exact takes_of_revokingChain h
  | _ => cases h

theorem takes_of_nextAccount {pc : Pc} (h : nextAccount cfg v ⟨op, pc⟩ pc = some a) : Takes cfg v op pc a := by
  cases pc with
  | findById u =>
    simp only [nextAccount] at h
    cases hrow : (v.row (.user u)).bind (change cfg v ⟨op, .findById u⟩) with
    | none =>
      rw [hrow] at h
      cases h
      exact .refuse rfl
    | some account =>
      rw [hrow] at h
      cases h
      obtain ⟨account₀, hsome, hchange⟩ := Option.bind_eq_some_iff.mp hrow
      exact .findById hsome hchange
  | save u entity => cases h; exact .save
  | flush u w =>
    cases w with
    | nothing => cases h; exact .flushNothing
    | update δ =>
      simp only [nextAccount] at h
      cases hrow : v.row (.user u) with
      | none =>
        rw [hrow] at h
        cases h
        exact .refuse rfl
      | some account =>
        rw [hrow] at h
        cases h
        exact .flushRow
    | insert account =>
      simp only [nextAccount] at h
      cases hrow : v.row (.user u) with
      | none =>
        rw [hrow] at h
        cases h
        exact .flushRow
      | some account' =>
        rw [hrow] at h
        cases h
        exact .refuse rfl
  | confirmed => cases h; exact .confirmed
  | findByEmail u =>
    simp only [nextAccount] at h
    cases hrow : v.row (.user u) with
    | none =>
      rw [hrow] at h
      cases h
      exact .nothingToSend
    | some account =>
      simp only [hrow] at h
      split at h
      · cases h
        exact .findByEmail
      · cases h
        exact .nothingToSend
  | invalidate u => cases h; exact .invalidate
  | invalidating u asOf now todo =>
    cases todo with
    | nil => cases h; exact .invalidated
    | cons k todo => exact takes_of_invalidating h
  | issue u asOf =>
    simp only [nextAccount, Option.some.injEq] at h
    subst h
    rcases insertRow_cases with heq | ⟨hnew, heq⟩
    · rw [heq]
      exact .refuse rfl
    · rw [heq]
      exact .issue hnew
  | issued u hash asOf issued => cases h; exact .issued
  | revoke u since => cases h; exact .revoke
  | revoking u since asOf now todo =>
    cases todo with
    | nil => cases h; exact .revoked
    | cons k todo => exact takes_of_revoking h
  | getUser u =>
    simp only [nextAccount] at h
    cases hrow : v.row (.user u) with
    | none =>
      rw [hrow] at h
      cases h
      exact .refuse rfl
    | some account =>
      rw [hrow] at h
      cases h
      exact .getUser
  | deleting u =>
    simp only [nextAccount] at h
    cases hfind : v.keys.find? fun k => (v.row k).any (hangsOn u k) with
    | some k =>
      rw [hfind] at h
      cases h
      exact .cascade
    | none =>
      simp only [hfind] at h
      cases hrow : v.row (.user u) with
      | none =>
        rw [hrow] at h
        cases h
        exact .refuse rfl
      | some account =>
        rw [hrow] at h
        cases h
        exact .deleteUser
  | deleted => cases h; exact .deleted
  | _ => cases h

/-- **Every statement is one of those listed.** -/
theorem takes_of_next (h : next cfg v p = some a) : Takes cfg v p.op p.pc a := by
  obtain ⟨op, pc⟩ := p
  rcases Option.or_eq_some_iff.mp h with h | ⟨-, h⟩
  · rcases Option.or_eq_some_iff.mp h with h | ⟨-, h⟩
    · obtain ⟨⟨kind, hash⟩, hpresents, h⟩ := Option.bind_eq_some_iff.mp h
      exact takes_of_nextClaim hpresents h
    · exact takes_of_nextSession h
  · exact takes_of_nextAccount h

theorem Takes.not_ended {pc : Pc} (h : Takes cfg v op pc a) : pc.ended = false := by
  cases h with
  | refuse hended => exact hended
  | _ => rfl

theorem Takes.op_point {pc : Pc} (h : Takes cfg v op pc a) : a.point.op = op := by
  cases h <;> rfl

end Inversion

/-! ## Steps of the system -/

/-- What a statement adds to the log. -/
def logged (p : Proc) : Act → List Entry
  | .commit _ => p.publishes
  | _ => []

/-- What a commit is remembered for, and the point it is committed at. -/
theorem publishes_cases {p : Proc} {x : Entry} (h : x ∈ p.publishes) :
    (∃ u tokenId, x = .opened u tokenId) ∨
      (∃ u hash asOf issued, x = .requested u hash ∧ p.pc = .issued u hash asOf issued) ∨
      (∃ u asOf asOf' now, x = .passwordChanged u ∧ p.pc = .revoking u (some asOf) asOf' now []) ∨
      ∃ u asOf now, x = .deactivated u ∧ p.pc = .revoking u none asOf now [] := by
  unfold Proc.publishes at h
  split at h
  · exact .inl ⟨_, _, List.mem_singleton.mp h⟩
  · exact .inl ⟨_, _, List.mem_singleton.mp h⟩
  · rename_i hpc
    exact .inr (.inl ⟨_, _, _, _, List.mem_singleton.mp h, hpc⟩)
  · rename_i hpc
    exact .inr (.inr (.inl ⟨_, _, _, _, List.mem_singleton.mp h, hpc⟩))
  · rename_i hpc
    exact .inr (.inr (.inr ⟨_, _, _, List.mem_singleton.mp h, hpc⟩))
  · cases h

theorem logged_of_next {cfg : Config} {v : Seen} {p : Proc} {a : Act} (h : next cfg v p = some a) :
    logged p a = p.publishes := by
  obtain ⟨op, pc⟩ := p
  have hcommit : ∀ q, a = .commit q → logged ⟨op, pc⟩ a = Proc.publishes ⟨op, pc⟩ := by
    rintro q rfl
    rfl
  have hnone : Proc.publishes ⟨op, pc⟩ = [] → logged ⟨op, pc⟩ a = Proc.publishes ⟨op, pc⟩ := by
    intro hnil
    cases a with
    | commit q => rfl
    | _ => exact hnil.symm
  cases pc with
  | opened u tokenId origin =>
    refine hcommit ⟨op, .done⟩ ?_
    cases op <;> exact (Option.some.inj h).symm
  | rotated u tokenId new origin =>
    refine hcommit ⟨op, .done⟩ ?_
    cases op <;> exact (Option.some.inj h).symm
  | issued u hash asOf issued =>
    refine hcommit ⟨op, .done⟩ ?_
    cases op <;> exact (Option.some.inj h).symm
  | revoking u since asOf now todo =>
    cases todo with
    | nil =>
      refine hcommit ⟨op, afterChange v ⟨op, .revoking u since asOf now []⟩ u⟩ ?_
      cases op <;> exact (Option.some.inj h).symm
    | cons k todo => cases since <;> exact hnone rfl
  | _ => exact hnone rfl

/-- **What a step of the system is.** -/
theorem step_takes {T : Type} [DecidableEq T] {cfg : Config} {s s' : System T} {e : Event T}
    (h : step cfg s e = some s') :
    ∃ input a, Takes cfg (seenBy s e.proc input) (s.state.procs e.proc).op (s.state.procs e.proc).pc a ∧
      act s.state e.proc a = some s'.state ∧ s'.log = logged (s.state.procs e.proc) a ++ s.log := by
  obtain ⟨t, input, a, rfl, hnext, hact, hlog⟩ | ⟨t, rfl, hended, hact, hlog⟩ := step_cases cfg h
  · refine ⟨input, a, takes_of_next hnext, hact, ?_⟩
    rw [hlog, ← logged_of_next hnext]
    rfl
  · exact ⟨⟨0, 0, .user 0⟩, _, .refuse hended, hact, hlog⟩

/-- The snapshot of a statement has the rows of its kind. -/
theorem covered_snapshot {T : Type} [DecidableEq T] {s : System T} {t : T} {input : Input} (u : Stmt Value) :
    Covered u.cond ((seenBy s t input).targets u) t s.state.store := by
  refine covered_targets ?_
  intro k v hv hcond
  have hkey : k ∈ s.state.store.keys := Store.mem_keys_of_view (t := t) (by rw [hv]; rfl)
  refine List.mem_filter.mpr ⟨hkey, ?_⟩
  show (s.state.store.view t k).any _ = true
  rw [hv]
  exact hcond

/-- **What a step commits**: everything its execution has written, or nothing. -/
theorem step_commits {T : Type} [DecidableEq T] {cfg : Config} {s s' : System T} {e : Event T}
    (h : step cfg s e = some s') :
    (∃ t input, e = .step t input ∧ s'.state.store = s.state.store.commit t ∧
      s'.log = (s.state.procs t).publishes ++ s.log) ∨
      ((∀ k, s'.state.store.committed k = s.state.store.committed k) ∧ s'.log = s.log) := by
  obtain ⟨t, input, a, rfl, hnext, hact, hlog⟩ | ⟨t, rfl, hended, hact, hlog⟩ := step_cases cfg h
  · by_cases hcommit : ∃ q, a = .commit q
    · obtain ⟨q, rfl⟩ := hcommit
      exact .inl ⟨t, input, rfl, act_commit_store hact, hlog⟩
    · have hnone : logged (s.state.procs t) a = [] := by
        cases a with
        | commit q => exact absurd ⟨q, rfl⟩ hcommit
        | _ => rfl
      rw [← logged_of_next hnext, hnone] at hlog
      exact .inr ⟨act_committed hact fun q hq => hcommit ⟨q, hq⟩, hlog⟩
  · exact .inr ⟨act_committed hact (by rintro q ⟨⟩), hlog⟩

/-- An execution goes on with its operation. -/
theorem step_op {T : Type} [DecidableEq T] {cfg : Config} {s s' : System T} {e : Event T} (h : step cfg s e = some s')
    (t : T) : (s'.state.procs t).op = (s.state.procs t).op := by
  obtain ⟨input, a, htakes, hact, -⟩ := step_takes h
  by_cases ht : t = e.proc
  · subst ht
    rw [act_procs_self hact]
    exact htakes.op_point
  · rw [act_procs_ne hact ht]

end LinkShortener.Credentials
