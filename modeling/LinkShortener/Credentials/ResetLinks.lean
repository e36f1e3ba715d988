import LinkShortener.Credentials.Retirement

/-!
# One reset link at a time

`RequestPasswordReset` retires the links outstanding with one statement and inserts its own with another, and a password
change retires them all. A statement does not see what is committed after its snapshot.

* `OneLink`: an unspent link of an account is that of the last committed request, and has been issued after the last
  committed password change.
* `InTurn`: the condition. A request, or a password change, commits only when no request of the account has been committed
  since it took its snapshot, and a request only when no password change has been since it issued its token.
* `one_reset_link_is_outstanding`: runs in which every commit is in turn keep `OneLink`.
* `two_links_are_outstanding`: two requests at once leave two links.
-/

namespace LinkShortener.Credentials

open ReadCommitted Transactions Runs

/-! ## What is outstanding -/

def Entry.isRequestOf (u : Uuid) : Entry → Bool
  | .requested u' _ => decide (u' = u)
  | _ => false

def Entry.changesPasswordOf (u : Uuid) : Entry → Bool
  | .passwordChanged u' => decide (u' = u)
  | _ => false

/-- The link of the last committed request of an account. -/
def lastRequest (u : Uuid) (log : List Entry) : Option TokenHash :=
  log.findSome? fun
    | .requested u' hash => if u' = u then some hash else none
    | _ => none

/-- An unspent link is that of the last request of its account, and no password change has been committed since it was
issued. -/
def OneLink {T : Type} (s : System T) : Prop :=
  ∀ hash tok, s.state.store.committed (.token .reset hash) = some tok → tok.usedAt = none →
    lastRequest tok.userId s.log = some hash ∧ noneSince (Entry.changesPasswordOf tok.userId) s.log tok.issued = true

/-- Whether the commit of an execution is in turn: of a request, and of a password change. -/
def Pc.inTurn (log : List Entry) : Pc → Bool
  | .issued u _ asOf moment =>
    noneSince (Entry.isRequestOf u) log asOf && noneSince (Entry.changesPasswordOf u) log moment
  | .revoking u (some asOf) _ _ [] => noneSince (Entry.isRequestOf u) log asOf
  | _ => true

/-- The commits of requests and password changes are in turn. -/
def InTurn {T : Type} (s : System T) : Event T → Prop
  | .step t _ => (s.state.procs t).pc.inTurn s.log = true
  | .fail _ => True

instance decidableInTurn {T : Type} (s : System T) : ∀ e, Decidable (InTurn s e)
  | .step t _ => inferInstanceAs (Decidable ((s.state.procs t).pc.inTurn s.log = true))
  | .fail _ => isTrue trivial

theorem lastRequest_append {u : Uuid} {es log : List Entry} (h : ∀ e ∈ es, e.isRequestOf u = false) :
    lastRequest u (es ++ log) = lastRequest u log := by
  induction es with
  | nil => rfl
  | cons e es ih =>
    have hrest := ih fun e' he' => h e' (List.mem_cons_of_mem e he')
    have hhead := h e List.mem_cons_self
    rw [← hrest]
    cases e with
    | requested u' hash =>
      simp only [Entry.isRequestOf, decide_eq_false_iff_not] at hhead
      simp [lastRequest, hhead]
    | _ => rfl

/-! ## What the executions have written -/

/-- An unspent link that is not committed has just been issued. -/
def Issued (p : Proc) : (k : Key) → Option (Value k) → Option (Value k) → Prop
  | .token .reset hash, _, w => ∀ tok, w = some tok → tok.usedAt = none →
    ∃ asOf, p.pc = .issued tok.userId hash asOf tok.issued
  | _, _, _ => True

/-- The account whose links an execution retires, how much had been committed when it took its snapshot, and the links it
has not come to. -/
def Pc.retires : Pc → Option (Uuid × Nat × List Key)
  | .invalidating u asOf _ todo => some (u, asOf, todo)
  | .issue u asOf | .issued u _ asOf _ | .revoke u (some asOf) | .revoking u (some asOf) _ _ _ => some (u, asOf, [])
  | _ => none

section Steps

variable {T : Type} [DecidableEq T] {cfg : Config} {s s' : System T} {t : T} {input : Input} {v : Seen} {op : Operation}
  {pc : Pc} {a : Act}

theorem afterInvalidate_retires (p : Proc) (u : Uuid) (asOf : Nat) :
    (afterInvalidate p u asOf).retires = some (u, asOf, []) := by
  unfold afterInvalidate
  split <;> rfl

theorem afterSave_retires (p : Proc) (u : Uuid) : (afterSave p u).retires = none := by
  unfold afterSave
  split <;> rfl

theorem afterChange_retires (p : Proc) (u : Uuid) : (afterChange v p u).retires = none := by
  unfold afterChange
  split <;> rfl

theorem Takes.writes_reset {hash : TokenHash} {tok : Token} {q : Proc}
    (h : Takes cfg v op pc (.write (.token .reset hash) (some tok) q)) (hunspent : tok.usedAt = none) :
    ∃ asOf, q.pc = .issued tok.userId hash asOf tok.issued := by
  cases h with
  | claim hop hrow husable => cases hunspent
  | invalidateRow hrow hunspent' => cases hunspent
  | issue hnew => exact ⟨_, rfl⟩

theorem Takes.ends_of_issued {u : Uuid} {hash : TokenHash} {asOf issued : Nat}
    (h : Takes cfg v op (.issued u hash asOf issued) a) : a.ends = true := by
  cases h <;> rfl

/-- What an execution writes, it may have written. -/
theorem Takes.allowed_issued (h : Takes cfg (seenBy s t input) (s.state.procs t).op (s.state.procs t).pc a) :
    Allowed Issued s.state t a := by
  have hkeep : a.ends = false → ∀ k c w, Issued (s.state.procs t) k c w → Issued a.point k c w := by
    intro hends k c w hissued
    cases k with
    | token kind hash =>
      cases kind with
      | reset =>
        intro tok hw hunspent
        obtain ⟨asOf, hpc⟩ := hissued tok hw hunspent
        rw [hpc] at h
        rw [h.ends_of_issued] at hends
        cases hends
      | verification => trivial
    | user u => trivial
    | session u tokenId => trivial
  refine Allowed.of_keeps hkeep ?_
  rintro k w q rfl
  cases k with
  | token kind hash =>
    cases kind with
    | reset =>
      rintro tok rfl hunspent
      exact h.writes_reset hunspent
    | verification => trivial
  | user u => trivial
  | session u tokenId => trivial

/-- **How an execution comes to retire links**: it takes its snapshot, goes on, passes a row, or writes one. -/
theorem Takes.retires {u : Uuid} {asOf : Nat} {todo' : List Key} (h : Takes cfg v op pc a)
    (hq : a.point.pc.retires = some (u, asOf, todo')) :
    (∃ q, a = .goto q ∧ asOf = v.moment ∧ todo' = v.targets (invalidateForUser u v.now)) ∨
      ∃ todo, pc.retires = some (u, asOf, todo) ∧ Advances (unspentOf u) v todo todo' a := by
  cases h with
  | invalidate =>
    cases hq
    exact .inl ⟨_, rfl, rfl, rfl⟩
  | invalidateRow hrow hunspent =>
    cases hq
    refine .inr ⟨_, rfl, .retire ?_⟩
    intro row hw
    cases hw
    simp [unspentOf, Token.spend]
  | passInvalidated hpass =>
    cases hq
    exact .inr ⟨_, rfl, .pass hpass⟩
  | invalidated =>
    have hq := (afterInvalidate_retires _ _ _).symm.trans hq
    cases hq
    exact .inr ⟨_, rfl, .goto⟩
  | issue hnew =>
    cases hq
    exact .inr ⟨_, rfl, .insert hnew⟩
  | @revoke u since =>
    cases since with
    | none => cases hq
    | some asOf =>
      cases hq
      exact .inr ⟨_, rfl, .goto⟩
  | @revokeRow u since asOf now todo tokenId r hrow =>
    cases since with
    | none => cases hq
    | some asOf =>
      cases hq
      -- Nothing is left to do about the links while the sessions are revoked.
      exact .inr ⟨[], rfl, .retire fun row hw => rfl⟩
  | @passRevoked u since asOf now todo k hpass =>
    cases since with
    | none => cases hq
    | some asOf =>
      cases hq
      exact .inr ⟨_, rfl, .goto⟩
  | revoked =>
    have hq := (afterChange_retires _ _).symm.trans hq
    cases hq
  | flushNothing =>
    have hq := (afterSave_retires _ _).symm.trans hq
    cases hq
  | flushRow =>
    have hq := (afterSave_retires _ _).symm.trans hq
    cases hq
  | _ => cases hq

end Steps

/-- `invalidate_for_user`. -/
def retirement : Retirement where
  kind := unspentOf
  adds := Entry.isRequestOf
  under := Pc.retires
  begins op := by cases op <;> rfl
  goesOn := Takes.retires

/-! ## Runs -/

/-- What holds along the runs whose commits are in turn. -/
structure Outstanding {T : Type} [DecidableEq T] (s : System T) : Prop where
  written : Written Issued s.state
  current : OneLink s
  covered : retirement.Covers s

section Runs

variable {T : Type} [DecidableEq T] {cfg : Config} {s s' : System T} {e : Event T} {t t' : T} {input : Input} {a : Act}
  {u : Uuid} {asOf : Nat} {todo : List Key} {p : Proc}

theorem publishes_request {x : Entry} (hx : x ∈ p.publishes) (hrequest : x.isRequestOf u = true) :
    ∃ hash asOf issued, p.pc = .issued u hash asOf issued := by
  rcases publishes_cases hx with ⟨u', tokenId, rfl⟩ | ⟨u', hash, asOf, issued, rfl, hpc⟩ | ⟨u', asOf, asOf', now, rfl, -⟩ |
    ⟨u', asOf, now, rfl, -⟩
  · cases hrequest
  · have hu : u' = u := by simpa [Entry.isRequestOf] using hrequest
    subst hu
    exact ⟨hash, asOf, issued, hpc⟩
  · cases hrequest
  · cases hrequest

theorem publishes_passwordChange {x : Entry} (hx : x ∈ p.publishes) (hchange : x.changesPasswordOf u = true) :
    ∃ asOf asOf' now, p.pc = .revoking u (some asOf) asOf' now [] := by
  rcases publishes_cases hx with ⟨u', tokenId, rfl⟩ | ⟨u', hash, asOf, issued, rfl, -⟩ |
    ⟨u', asOf, asOf', now, rfl, hpc⟩ | ⟨u', asOf, now, rfl, -⟩
  · cases hchange
  · cases hchange
  · have hu : u' = u := by simpa [Entry.changesPasswordOf] using hchange
    subst hu
    exact ⟨asOf, asOf', now, hpc⟩
  · cases hchange

theorem AtRest.outstanding (h : AtRest s) (hone : OneLink s) : Outstanding s :=
  ⟨.of_clean h.1, hone, Retirement.covers_of_atRest h⟩

/-- A link that is committed unspent is logged as requested. -/
theorem logs_of_issued (hwritten : Written Issued s.state) : retirement.Logs s := by
  intro t u k row hd hunspent
  cases k with
  | token kind hash =>
    cases kind with
    | reset =>
      have hkind := hunspent
      simp only [retirement, unspentOf, Bool.and_eq_true, decide_eq_true_eq, Option.isNone_iff_eq_none] at hkind
      obtain ⟨rfl, hunused⟩ := hkind
      obtain ⟨asOf, hpc⟩ := hwritten t _ _ hd row rfl hunused
      refine .inr ⟨.requested row.userId hash, ?_, ?_⟩
      · unfold Proc.publishes
        rw [hpc]
        exact List.mem_singleton.mpr rfl
      · simp [retirement, Entry.isRequestOf]
    | verification => cases hunspent
  | user u' => cases hunspent
  | session u' tokenId => cases hunspent

/-- A commit that is in turn leaves one link. -/
theorem Outstanding.current_step (hs : Outstanding s) (hturn : InTurn s e) (h : step cfg s e = some s') :
    OneLink s' := by
  intro hash tok htok hunspent
  obtain ⟨t, input, rfl, hstore, hlog⟩ | ⟨hsame, hlog⟩ := step_commits h
  · -- The account is not that of the commit unless the link is its own: all others of the account have been retired.
    have hretired : ∀ asOf, (s.state.procs t).pc.retires = some (tok.userId, asOf, []) →
        noneSince (Entry.isRequestOf tok.userId) s.log asOf = true →
          s.state.store.dirtyBy t (.token .reset hash) = some (some tok) := by
      intro asOf hretires hnone
      have hcovered := (hs.covered t _ asOf [] hretires).2 hnone
      refine hcovered.commit (by rw [← hstore]; exact htok) ?_
      simp [retirement, unspentOf, hunspent]
    rw [hstore, Store.committed_commit] at htok
    rw [hlog]
    cases hd : s.state.store.dirtyBy t (.token .reset hash) with
    | some w =>
      rw [hd] at htok
      obtain ⟨asOf, hpc⟩ := hs.written t _ w hd tok htok hunspent
      simp only [InTurn, hpc, Pc.inTurn, Bool.and_eq_true] at hturn
      have hpublishes : (s.state.procs t).publishes = [.requested tok.userId hash] := by
        unfold Proc.publishes
        rw [hpc]
      rw [hpublishes]
      refine ⟨by simp [lastRequest], noneSince_append hturn.2 ?_⟩
      intro x hx
      cases List.mem_singleton.mp hx
      rfl
    | none =>
      rw [hd] at htok hretired
      obtain ⟨hlast, hnone⟩ := hs.current hash tok htok hunspent
      have hrequests : ∀ x ∈ (s.state.procs t).publishes, x.isRequestOf tok.userId = false := by
        intro x hx
        by_contra hrequest
        obtain ⟨hash', asOf, issued, hpc⟩ := publishes_request hx (by simpa using hrequest)
        simp only [InTurn, hpc, Pc.inTurn, Bool.and_eq_true] at hturn
        cases hretired asOf (by rw [hpc]; rfl) hturn.1
      have hchanges : ∀ x ∈ (s.state.procs t).publishes, x.changesPasswordOf tok.userId = false := by
        intro x hx
        by_contra hchange
        obtain ⟨asOf, asOf', now, hpc⟩ := publishes_passwordChange hx (by simpa using hchange)
        simp only [InTurn, hpc, Pc.inTurn] at hturn
        cases hretired asOf (by rw [hpc]; rfl) hturn
      rw [lastRequest_append hrequests]
      exact ⟨hlast, noneSince_append hnone hchanges⟩
  · rw [hlog]
    exact hs.current hash tok ((hsame _).symm.trans htok) hunspent

/-- **Step lemma.** -/
theorem Outstanding.step (hs : Outstanding s) (hturn : InTurn s e) (h : Credentials.step cfg s e = some s') :
    Outstanding s' := by
  obtain ⟨input, a, htakes, hact, -⟩ := step_takes h
  exact ⟨hs.written.act htakes.allowed_issued hact, hs.current_step hturn h, hs.covered.step (logs_of_issued hs.written) h⟩

end Runs

/-- **One reset link is outstanding.** Where this is so to begin with, and every commit is in turn, it stays so, in
whatever order the statements come. -/
theorem one_reset_link_is_outstanding {T : Type} [DecidableEq T] (cfg : Config) {s s' : System T} {es : List (Event T)}
    (hrest : AtRest s) (hone : OneLink s) (hturn : Meets (step cfg) InTurn s es)
    (hrun : run (step cfg) s es = some s') : OneLink s' :=
  (run_inv_of_meets (fun hturn h hs => Outstanding.step hs hturn h) hturn hrun (hrest.outstanding hone)).current

/-! ## Two links -/

section Samples

/-- Two requests for the account, which has one link outstanding. -/
def twoRequests : System Bool := sampleSystem (.requestPasswordReset 1) (.requestPasswordReset 1)

theorem twoRequests_oneLink : OneLink twoRequests := by
  intro hash tok htok hunspent
  have hrow : twoRequests.state.store.committed (.token .reset hash) =
      if Key.token .reset hash ∈ [Key.user 1, .session 1 5, .token .reset 7] then some (.issue 1 100 0 0) else none :=
    Store.committed_load _
  rw [hrow] at htok
  split at htok
  · rename_i hmem
    cases htok
    have hhash : hash = 7 := by simpa using hmem
    subst hhash
    decide
  · cases htok

/-- Both requests take their snapshot before either is committed. -/
def atOnce : List (Event Bool) :=
  statements false 2 0 (.user 1) ++ statements true 2 0 (.user 1) ++ statements false 2 0 (.token .reset 7) ++
    statements false 2 11 (.user 1) ++ statements true 2 0 (.token .reset 7) ++ statements true 2 12 (.user 1)

/-- **Two requests at once leave two links**, neither spent nor expired. -/
theorem two_links_are_outstanding :
    (run (step sampleConfig) twoRequests atOnce).map (fun s =>
      ((s.state.procs false).pc, (s.state.procs true).pc,
        [11, 12].map fun hash => (s.state.store.committed (.token .reset hash)).any fun tok =>
          decide (tok.userId = 1) && tok.isUsable 10)) =
      some (.done, .done, [true, true]) := by
  decide +kernel

/-- The second request takes its snapshot after the first has been committed. -/
def oneAfterTheOther : List (Event Bool) :=
  statements false 4 0 (.token .reset 7) ++ statements false 2 11 (.user 1) ++ statements true 4 0 (.token .reset 11) ++
    statements true 2 12 (.user 1)

theorem second_link_replaces_the_first :
    ∃ s', run (step sampleConfig) twoRequests oneAfterTheOther = some s' ∧
      s'.log = [.requested 1 12, .requested 1 11, .requested 1 7] ∧ OneLink s' := by
  have hruns : (run (step sampleConfig) twoRequests oneAfterTheOther).map (·.log) =
      some [.requested 1 12, .requested 1 11, .requested 1 7] := by decide +kernel
  have hturn : Meets (step sampleConfig) InTurn twoRequests oneAfterTheOther := by decide +kernel
  obtain ⟨s', hrun, hlog⟩ := Option.map_eq_some_iff.mp hruns
  exact ⟨s', hrun, hlog, one_reset_link_is_outstanding sampleConfig (sampleSystem_atRest _ _) twoRequests_oneLink hturn hrun⟩

end Samples

end LinkShortener.Credentials
