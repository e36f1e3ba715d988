import LinkShortener.Lib.Seals
import LinkShortener.Races.Removals

/-!
# Deletion tokens

A link that is made without an account has no owner who could delete it. Its maker is told a token instead, the signed
identifier of the link, in the answer to the request that made it and nowhere else. Callers present what they like.

* `Desk`: the service, whom each process serves, and what has been made and handed out. `Desk.step` is what happens at it.
* `Honest`: a token that is presented opens to nothing that was not handed out.
* `Accounted`: every row of the table was made by somebody, and every token that was handed out names a link of whoever has
  it. `links_are_taken_by_their_makers` is about whole runs, `handle_takes_its_link` about what the token is good for.
-/

namespace LinkShortener.Races.Handles

open ReadCommitted Transactions Links Runs Seals

/-! ## Tokens -/

/-- `URLSafeSerializer` with the key of the application. -/
structure Serializer where
  dumps : Uuid → String
  loads : String → Option Uuid

/-- A token that was issued can be read. -/
def Serializer.Faithful (z : Serializer) : Prop := ∀ id, z.loads (z.dumps id) = some id

namespace Serializer

variable (z : Serializer)

def linkIdFrom : Option String → Option Uuid
  | none => none
  | some token => if token = "" then none else z.loads token

end Serializer

/-- What comes with a request to delete a link: a token, and who asks, among the accounts. Only the command line does not
enforce ownership. -/
structure Deletion where
  token : Option String
  accounts : Db
  ctx : Context
  enforceOwnership : Bool

/-- Whoever asks is asked about when the token does not name the link. -/
def Deletion.permits (z : Serializer) (q : Deletion) (link : Link) : Bool :=
  (onlyIf (q.enforceOwnership && decide (some link.id ≠ z.linkIdFrom q.token))
    (requireMayDelete q.accounts q.ctx link)).toBool

/-! ## The service and its callers -/

/-- What somebody asks of the service. -/
inductive Request
  | createShortLink (q : Creation) (draws : Draws)
  | batchCreate (q : Batch) (draws : Draws)
  | deleteLink (c : ShortCode) (q : Deletion)
  | redirect (c : ShortCode) (enqueued : Bool)
  | linkAccessed (c : ShortCode)
  | getLinkInfo (c : ShortCode)
  | cleanExpiredLinks

def Request.operation (z : Serializer) : Request → Operation
  | .createShortLink q draws => .createShortLink q draws
  | .batchCreate q draws => .batchCreateLinks q draws
  | .deleteLink c q => .deleteLink c (q.permits z)
  | .redirect c enqueued => .redirectLink c enqueued
  | .linkAccessed c => .updateLinkStats c
  | .getLinkInfo c => .getLinkInfo c
  | .cleanExpiredLinks => .cleanExpiredLinks

/-- The links that the next step makes. -/
def stored : Pc → List Link
  | .create _ (.commit link) => [link]
  | .batch _ (.insert done []) => done
  | _ => []

/-- The links whose tokens are in the answer that the next step gives: new ones, and only to a guest. -/
def answered : Pc → List Link
  | .create _ (.fillNew link) => if link.owner = none then [link] else []
  | .batch j (.insert done []) => if j.q.owner = none then done.reverse else []
  | _ => []

/-- The service with whom its processes serve, who has made which link, and who was handed which token. -/
structure Desk (K T : Type) where
  system : System T
  serving : T → K
  made : List (K × Link)
  handed : List (K × String)

inductive Call (K T : Type)
  /-- A process that has nothing to do takes up somebody's request. -/
  | request (t : T) (caller : K) (r : Request)
  /-- A process takes its next step. -/
  | step (t : T)
  /-- The clock moves on. -/
  | tick (now : Instant)

def Call.event {K T : Type} (z : Serializer) : Call K T → Event T
  | .request t _ r => .start t (r.operation z)
  | .step t => .step t
  | .tick now => .tick now

section Desk

variable {K T : Type} [DecidableEq T]

/-- The books after an event. -/
def Desk.note (z : Serializer) (d : Desk K T) (system : System T) : Call K T → Desk K T
  | .request t caller _ => { d with system := system, serving := Function.update d.serving t caller }
  | .step t =>
    { d with
      system := system
      made := (stored (d.system.state.procs t)).map (d.serving t, ·) ++ d.made
      handed := (answered (d.system.state.procs t)).map (fun link => (d.serving t, z.dumps link.id)) ++ d.handed }
  | .tick _ => { d with system := system }

/-- **One step of the service.** -/
def Desk.step (svc : LinkServices) (lockKey : String → Int) (z : Serializer) (d : Desk K T) (call : Call K T) :
    Option (Desk K T) :=
  (Races.step svc lockKey d.system (call.event z)).map fun system => d.note z system call

/-- No links, and nothing has been handed out. -/
def Desk.empty (nobody : K) (now : Instant) : Desk K T := ⟨System.empty now, fun _ => nobody, [], []⟩

/-- The identifiers whose tokens were handed out. -/
def Desk.issued (z : Serializer) (d : Desk K T) : List Uuid := d.handed.filterMap fun h => z.loads h.2

/-- What is presented can be copied or made up, but not forged. -/
def Honest (z : Serializer) (d : Desk K T) : Call K T → Prop
  | .request _ _ (.deleteLink _ q) => ∀ token ∈ q.token, Genuine (fun text id => z.loads text = some id) (d.issued z) token
  | _ => True

instance decidableHonest (z : Serializer) (d : Desk K T) : ∀ call, Decidable (Honest z d call)
  | .request _ _ (.deleteLink _ q) =>
    decidable_of_iff (∀ token ∈ q.token, ∀ id ∈ z.loads token, id ∈ d.issued z) Iff.rfl
  | .request _ _ (.createShortLink _ _) => isTrue trivial
  | .request _ _ (.batchCreate _ _) => isTrue trivial
  | .request _ _ (.redirect _ _) => isTrue trivial
  | .request _ _ (.linkAccessed _) => isTrue trivial
  | .request _ _ (.getLinkInfo _) => isTrue trivial
  | .request _ _ .cleanExpiredLinks => isTrue trivial
  | .step _ => isTrue trivial
  | .tick _ => isTrue trivial

variable {svc : LinkServices} {lockKey : String → Int} {z : Serializer} {d d' d₁ d₂ : Desk K T} {call : Call K T}
  {calls past later : List (Call K T)} {t : T}

theorem step_system (h : d.step svc lockKey z call = some d') :
    step svc lockKey d.system (call.event z) = some d'.system := by
  obtain ⟨system, hstep, rfl⟩ := Option.map_eq_some_iff.mp h
  cases call <;> exact hstep

theorem run_system (h : run (Desk.step svc lockKey z) d calls = some d') :
    run (step svc lockKey) d.system (calls.map (Call.event z)) = some d'.system := by
  induction calls generalizing d with
  | nil =>
    cases h
    rfl
  | cons call calls ih =>
    obtain ⟨d₁, hstep, hrest⟩ := run_cons h
    rw [List.map_cons, run, step_system hstep]
    exact ih hrest

/-! ## What has been made and handed out -/

/-- What was made and handed out stays so. -/
theorem step_suffix (h : d.step svc lockKey z call = some d') : d.made <:+ d'.made ∧ d.handed <:+ d'.handed := by
  obtain ⟨system, -, rfl⟩ := Option.map_eq_some_iff.mp h
  cases call with
  | step t => exact ⟨List.suffix_append _ _, List.suffix_append _ _⟩
  | _ => exact ⟨List.suffix_rfl, List.suffix_rfl⟩

theorem run_suffix (h : run (Desk.step svc lockKey z) d calls = some d') : d.made <:+ d'.made ∧ d.handed <:+ d'.handed := by
  induction calls generalizing d with
  | nil =>
    cases h
    exact ⟨List.suffix_rfl, List.suffix_rfl⟩
  | cons call calls ih =>
    obtain ⟨d₁, hstep, hrest⟩ := run_cons h
    exact ⟨(step_suffix hstep).1.trans (ih hrest).1, (step_suffix hstep).2.trans (ih hrest).2⟩

/-- What a process has made and not yet answered. -/
def owing : Pc → List Link
  | .create _ (.fillNew link) => [link]
  | _ => []

/-- The requests that are being served, and the books. -/
structure Accounted (z : Serializer) (d : Desk K T) : Prop where
  wrote : Written Wrote d.system.state
  rows : ∀ c row, d.system.state.store.committed c = some row → ∃ k link, (k, link) ∈ d.made ∧ SameLink link row.val
  owed : ∀ t, ∀ link ∈ owing (d.system.state.procs t), (d.serving t, link) ∈ d.made
  handed : ∀ k token, (k, token) ∈ d.handed → ∃ link, (k, link) ∈ d.made ∧ token = z.dumps link.id
  asked : ∀ t c permitted p, d.system.state.procs t = .delete c permitted p → ∃ q : Deletion,
    permitted = q.permits z ∧ ∀ id, z.linkIdFrom q.token = some id → id ∈ d.issued z

theorem accounted_empty (nobody : K) (now : Instant) : Accounted z (Desk.empty nobody now : Desk K T) where
  wrote := (atRest_empty now).written
  rows c row h := by cases h
  owed t link h := by cases h
  handed k token h := by cases h
  asked t c permitted p h := by cases h

omit [DecidableEq T] in
theorem issued_mono (h : d.handed <:+ d'.handed) : d.issued z ⊆ d'.issued z :=
  (h.sublist.filterMap _).subset

/-- An operation that commits what it has added is making it. -/
theorem stored_of_commit {s : System T} {q : Pc} (h : nextOf svc lockKey s t = some (.commit q)) :
    stored (s.state.procs t) = adding (s.state.procs t) := by
  unfold nextOf at h
  cases hp : s.state.procs t with
  | create j p => cases p <;> rfl
  | batch j p =>
    cases p with
    | insert done links =>
      cases links with
      | nil => rfl
      | cons link links =>
        rw [hp] at h
        simp only [next, nextBatch, insertRow, retryBatch] at h
        split at h
        · cases h
        · split at h <;> cases h
    | _ => rfl
  | _ => rfl

/-- A link is owed an answer once it is made. -/
theorem next_owing {s : System T} {a : Act} (h : nextOf svc lockKey s t = some a) :
    owing a.point ⊆ owing (s.state.procs t) ∨ owing a.point ⊆ stored (s.state.procs t) := by
  unfold nextOf at h
  cases hp : s.state.procs t with
  | idle =>
    rw [hp] at h
    cases h
  | create j p =>
    rw [hp] at h
    cases p with
    | commit link =>
      cases h
      exact .inr (List.Subset.refl _)
    | pick codes =>
      left
      cases codes <;> simp only [next, nextCreate] at h <;> grind [owing, Action.point]
    | _ =>
      left
      simp only [next, nextCreate, insertRow, retryCreate] at h
      grind [owing, Action.point]
  | batch j p =>
    rw [hp] at h
    left
    cases p with
    | dropStale stale missing => cases stale <;> simp only [next, nextBatch] at h <;> grind [owing, Action.point]
    | build planned links => cases planned <;> simp only [next, nextBatch] at h <;> grind [owing, Action.point]
    | insert done links =>
      cases links <;> simp only [next, nextBatch, insertRow, retryBatch] at h <;> grind [owing, Action.point]
    | _ =>
      simp only [next, nextBatch, resolveFrom] at h
      grind [owing, Action.point]
  | redirect c enqueued p =>
    rw [hp] at h
    cases h
    left
    cases enqueued <;> cases p <;> simp only [nextRedirect] <;> (repeat' split) <;> exact List.nil_subset _
  | count c p =>
    rw [hp] at h
    cases h
    left
    cases p <;> simp only [nextCount] <;> (repeat' split) <;> exact List.nil_subset _
  | info c =>
    rw [hp] at h
    cases h
    exact .inl (List.nil_subset _)
  | delete c permitted p =>
    rw [hp] at h
    cases h
    left
    cases p <;> simp only [nextDelete] <;> (repeat' split) <;> exact List.nil_subset _
  | sweep p =>
    rw [hp] at h
    cases h
    left
    cases p with
    | remove now chunk deleted =>
      cases chunk <;> simp only [nextSweep] <;> (repeat' split) <;> exact List.nil_subset _
    | drop deleted => cases deleted <;> exact List.nil_subset _
    | _ =>
      simp only [nextSweep]
      repeat' split
      all_goals exact List.nil_subset _

omit [DecidableEq T] in
/-- What is presented opens to nothing that was not handed out. -/
theorem Honest.issued {c : ShortCode} {q : Deletion} {caller : K} {id : Uuid}
    (h : Honest z d (.request t caller (.deleteLink c q))) (hid : z.linkIdFrom q.token = some id) : id ∈ d.issued z := by
  unfold Serializer.linkIdFrom at hid
  split at hid
  · cases hid
  · rename_i token htoken
    split at hid
    · cases hid
    · exact h token htoken id hid

/-- A deletion goes on as the deletion it was. -/
theorem next_asked {s : System T} {a : Act} {c : ShortCode} {permitted : Link → Bool} {p : DeletePc}
    (h : nextOf svc lockKey s t = some a) (hp : a.point = .delete c permitted p) :
    ∃ p', s.state.procs t = .delete c permitted p' := by
  cases hpc : s.state.procs t with
  | delete c' permitted' p' =>
    unfold nextOf at h
    rw [hpc] at h
    cases h
    refine ⟨p', ?_⟩
    cases p' <;> simp only [nextDelete] at hp <;> (repeat' split at hp) <;> cases hp <;> rfl
  | sweep p' =>
    unfold nextOf at h
    rw [hpc] at h
    cases h
    cases p' with
    | remove now chunk deleted => cases chunk <;> simp only [nextSweep] at hp <;> (repeat' split at hp) <;> cases hp
    | drop deleted => cases deleted <;> cases hp
    | _ =>
      simp only [nextSweep] at hp
      repeat' split at hp
      all_goals cases hp
  | _ =>
    have hno : takes a.point = false := next_takes h (by rw [hpc]; rfl)
    rw [hp] at hno
    cases hno

/-- A row that a step leaves in the table was there before, opened once less or as often, or is made by this step. -/
theorem rows_of_step {s s' : System T} {a : Act} {c : ShortCode} {row : Row c} (hw : Written Wrote s.state)
    (hnext : nextOf svc lockKey s t = some a) (hact : act s.state t a = some s'.state)
    (hrow : s'.state.store.committed c = some row) :
    (∃ row', s.state.store.committed c = some row' ∧ SameLink row'.val row.val) ∨ row.val ∈ stored (s.state.procs t) := by
  by_cases hcommit : ∃ q, a = .commit q
  · obtain ⟨q, rfl⟩ := hcommit
    rw [act_commit_store hact] at hrow
    rcases hw.committed t c with hpublished | hleft
    · rw [hrow] at hpublished
      rcases hpublished with ⟨-, row', now, hold, hnew⟩ | ⟨hno, -⟩ | ⟨-, row', hnew, hadded⟩
      · cases hnew
        exact .inl ⟨row', hold, rfl, Nat.le_succ _⟩
      · cases hno
      · cases hnew
        rw [stored_of_commit hnext]
        exact .inr hadded
    · exact .inl ⟨row, hleft ▸ hrow, .refl _⟩
  · rw [act_committed hact (fun q hq => hcommit ⟨q, hq⟩) c] at hrow
    exact .inl ⟨row, hrow, .refl _⟩

theorem step_start {s s' : System T} {op : Operation} (h : step svc lockKey s (.start t op) = some s') :
    act s.state t (.goto (begin op)) = some s'.state := by
  simp only [step] at h
  split at h
  · obtain ⟨state, hact, rfl⟩ := Option.map_eq_some_iff.mp h
    exact hact
  · cases h

theorem step_tick {s s' : System T} {now : Instant} (h : step svc lockKey s (.tick now) = some s') : s'.state = s.state := by
  simp only [step] at h
  split at h
  · cases h
    rfl
  · cases h

theorem owing_begin (op : Operation) : owing (begin op) = [] := by
  cases op <;> rfl

theorem accounted_request {caller : K} {r : Request} (hhonest : Honest z d (.request t caller r))
    (hstep : d.step svc lockKey z (.request t caller r) = some d') (h : Accounted z d) : Accounted z d' := by
  have hsystem := step_system hstep
  have hact := step_start hsystem
  obtain ⟨system, -, rfl⟩ := Option.map_eq_some_iff.mp hstep
  have hown : system.state.procs t = begin (r.operation z) := act_procs_self hact
  have hothers : ∀ t', t' ≠ t → system.state.procs t' = d.system.state.procs t' := fun t' hne => act_procs_ne hact hne
  refine ⟨step_written hsystem h.wrote, ?_, ?_, h.handed, ?_⟩
  · intro c row hrow
    rw [show (d.note z system (.request t caller r)).system.state.store.committed c = d.system.state.store.committed c from
      act_committed hact (fun _ hno => by cases hno) c] at hrow
    exact h.rows c row hrow
  · intro t' link hlink
    by_cases ht : t' = t
    · subst ht
      rw [show owing ((d.note z system (.request t' caller r)).system.state.procs t') = [] from
        hown ▸ owing_begin _] at hlink
      cases hlink
    · have hserving : (d.note z system (.request t caller r)).serving t' = d.serving t' := Function.update_of_ne ht _ _
      rw [hserving]
      exact h.owed t' link (hothers t' ht ▸ hlink)
  · intro t' c permitted p hpc
    by_cases ht : t' = t
    · subst ht
      rw [show (d.note z system (.request t' caller r)).system.state.procs t' = begin (r.operation z) from hown] at hpc
      cases r with
      | deleteLink c' q =>
        cases hpc
        exact ⟨q, rfl, fun id hid => hhonest.issued hid⟩
      | _ => cases hpc
    · exact h.asked t' c permitted p ((hothers t' ht).symm.trans hpc)

omit [DecidableEq T] in
/-- Whoever is answered about a link has made it. -/
theorem answered_made {link : Link} (hlink : link ∈ answered (d.system.state.procs t))
    (howed : ∀ t, ∀ link ∈ owing (d.system.state.procs t), (d.serving t, link) ∈ d.made) (hmade : d.made <:+ d'.made)
    (hstored : ∀ link ∈ stored (d.system.state.procs t), (d.serving t, link) ∈ d'.made) : (d.serving t, link) ∈ d'.made := by
  cases hpc : d.system.state.procs t with
  | create j p =>
    cases p with
    | fillNew link' =>
      rw [hpc] at hlink
      refine hmade.subset (howed t link ?_)
      rw [hpc]
      simp only [answered] at hlink
      split at hlink
      · exact hlink
      · cases hlink
    | _ =>
      rw [hpc] at hlink
      cases hlink
  | batch j p =>
    cases p with
    | insert done links =>
      cases links with
      | nil =>
        rw [hpc] at hlink
        refine hstored link ?_
        rw [hpc]
        simp only [answered] at hlink
        split at hlink
        · exact List.mem_reverse.mp hlink
        · cases hlink
      | cons link' links =>
        rw [hpc] at hlink
        cases hlink
    | _ =>
      rw [hpc] at hlink
      cases hlink
  | _ =>
    rw [hpc] at hlink
    cases hlink

theorem accounted_next (hstep : d.step svc lockKey z (.step t) = some d') (h : Accounted z d) : Accounted z d' := by
  obtain ⟨hmade, hhanded⟩ := step_suffix hstep
  have hissued : d.issued z ⊆ d'.issued z := issued_mono hhanded
  have hsystem := step_system hstep
  obtain ⟨a, hnext, hact⟩ := step_next hsystem
  have hserving : d'.serving = d.serving := by
    obtain ⟨system, -, rfl⟩ := Option.map_eq_some_iff.mp hstep
    rfl
  have hstored : ∀ link ∈ stored (d.system.state.procs t), (d.serving t, link) ∈ d'.made := by
    obtain ⟨system, -, rfl⟩ := Option.map_eq_some_iff.mp hstep
    exact fun link hlink => List.mem_append_left _ (List.mem_map.mpr ⟨link, hlink, rfl⟩)
  have hself : d'.system.state.procs t = a.point := act_procs_self hact
  have hothers : ∀ t', t' ≠ t → d'.system.state.procs t' = d.system.state.procs t' := fun t' hne => act_procs_ne hact hne
  refine ⟨step_written hsystem h.wrote, ?_, ?_, ?_, ?_⟩
  · intro c row hrow
    rcases rows_of_step h.wrote hnext hact hrow with ⟨row', hrow', hsame⟩ | hadded
    · obtain ⟨k, link, hlink, hsame'⟩ := h.rows c row' hrow'
      exact ⟨k, link, hmade.subset hlink, hsame'.trans hsame⟩
    · exact ⟨d.serving t, row.val, hstored _ hadded, .refl _⟩
  · intro t' link hlink
    rw [hserving]
    by_cases ht : t' = t
    · subst ht
      rw [hself] at hlink
      rcases next_owing hnext with hbefore | hnow
      · exact hmade.subset (h.owed t' link (hbefore hlink))
      · exact hstored link (hnow hlink)
    · rw [hothers t' ht] at hlink
      exact hmade.subset (h.owed t' link hlink)
  · intro k token hin
    have hcases : (k, token) ∈ d.handed ∨ k = d.serving t ∧ ∃ link ∈ answered (d.system.state.procs t), token = z.dumps link.id := by
      obtain ⟨system, -, rfl⟩ := Option.map_eq_some_iff.mp hstep
      rcases List.mem_append.mp hin with hnew | hold
      · obtain ⟨link, hlink, heq⟩ := List.mem_map.mp hnew
        cases heq
        exact .inr ⟨rfl, link, hlink, rfl⟩
      · exact .inl hold
    rcases hcases with hold | ⟨rfl, link, hlink, rfl⟩
    · obtain ⟨link, hlink, htoken⟩ := h.handed k token hold
      exact ⟨link, hmade.subset hlink, htoken⟩
    · exact ⟨link, answered_made hlink h.owed hmade hstored, rfl⟩
  · intro t' c permitted p hpc
    obtain ⟨p', hbefore⟩ : ∃ p', d.system.state.procs t' = .delete c permitted p' := by
      by_cases ht : t' = t
      · subst ht
        exact next_asked hnext (hself.symm.trans hpc)
      · exact ⟨p, (hothers t' ht).symm.trans hpc⟩
    obtain ⟨q, hpermitted, hgenuine⟩ := h.asked t' c permitted p' hbefore
    exact ⟨q, hpermitted, fun id hid => hissued (hgenuine id hid)⟩

theorem step_accounted (hhonest : Honest z d call) (hstep : d.step svc lockKey z call = some d') (h : Accounted z d) :
    Accounted z d' := by
  cases call with
  | request t caller r => exact accounted_request hhonest hstep h
  | step t => exact accounted_next hstep h
  | tick now =>
    have hsystem := step_system hstep
    have hsame := step_tick hsystem
    have hwrote := step_written hsystem h.wrote
    obtain ⟨system, -, rfl⟩ := Option.map_eq_some_iff.mp hstep
    have hstate : system.state = d.system.state := hsame
    exact ⟨hwrote, fun c row hrow => h.rows c row (hstate ▸ hrow), fun t link hlink => h.owed t link (hstate ▸ hlink), h.handed,
      fun t c permitted p hpc => h.asked t c permitted p (hstate ▸ hpc)⟩

theorem accounted_run (hhonest : Meets (Desk.step svc lockKey z) (Honest z) d calls)
    (hrun : run (Desk.step svc lockKey z) d calls = some d') (h : Accounted z d) : Accounted z d' :=
  run_inv_of_meets step_accounted hhonest hrun h

/-! ## Who takes a link away -/

theorem meets_append (h : Meets (Desk.step svc lockKey z) (Honest z) d (past ++ later))
    (hpast : run (Desk.step svc lockKey z) d past = some d₁) :
    Meets (Desk.step svc lockKey z) (Honest z) d past ∧ Meets (Desk.step svc lockKey z) (Honest z) d₁ later := by
  induction past generalizing d with
  | nil =>
    cases hpast
    exact ⟨trivial, h⟩
  | cons call past ih =>
    obtain ⟨d₂, hstep, hrest⟩ := run_cons hpast
    rw [List.cons_append, Meets, hstep] at h
    obtain ⟨hbefore, hafter⟩ := ih h.2 hrest
    rw [Meets, hstep]
    exact ⟨⟨h.1, hbefore⟩, hafter⟩

/-- A token of the link was handed out, and to nobody but `k`. -/
def HandedOnlyTo (z : Serializer) (handed : List (K × String)) (k : K) (id : Uuid) : Prop :=
  (∃ token, (k, token) ∈ handed ∧ z.loads token = some id) ∧
    ∀ k' token, (k', token) ∈ handed → z.loads token = some id → k' = k

/-- By what right a process takes a link away that `k` has made: the link is over, the command line is used, the requester
has the permission, or the token is presented that `k` was handed. -/
def Rightly (z : Serializer) (d : Desk K T) (t : T) (k : K) (link : Link) : Prop :=
  (∃ now deleted old, d.system.state.procs t = .sweep (.select now deleted) ∧ old ∈ deleted ∧ old.id = link.id ∧
      old.isExpired now = true) ∨
    ∃ q old, d.system.state.procs t = .delete link.shortCode (Deletion.permits z q) (.commit old) ∧ old.id = link.id ∧
      (q.enforceOwnership = false ∨ requireMayDelete q.accounts q.ctx old = .ok () ∨
        z.linkIdFrom q.token = some link.id ∧ HandedOnlyTo z d.handed k link.id)

theorem Deletion.permits_cases {q : Deletion} {link : Link} (h : q.permits z link = true) :
    q.enforceOwnership = false ∨ requireMayDelete q.accounts q.ctx link = .ok () ∨ z.linkIdFrom q.token = some link.id := by
  unfold permits onlyIf at h
  split at h
  · cases hmay : requireMayDelete q.accounts q.ctx link with
    | ok => exact .inr (.inl rfl)
    | error e =>
      rw [hmay] at h
      cases h
  · rename_i hno
    cases henforce : q.enforceOwnership with
    | false => exact .inl rfl
    | true =>
      refine .inr (.inr ?_)
      by_contra hne
      exact hno (by rw [henforce, Bool.true_and]; exact decide_eq_true fun heq => hne heq.symm)

/-- An identifier that was issued was issued to whoever made the link. -/
theorem handedOnlyTo_of_issued {k : K} {link : Link} (hfaithful : z.Faithful) (h : Accounted z d)
    (hfresh : (d.made.map fun m => m.2.id).Nodup) (hmade : (k, link) ∈ d.made) (hissued : link.id ∈ d.issued z) :
    HandedOnlyTo z d.handed k link.id := by
  have honly : ∀ k' token, (k', token) ∈ d.handed → z.loads token = some link.id → k' = k := by
    intro k' token hin hloads
    obtain ⟨link', hmade', rfl⟩ := h.handed k' token hin
    rw [hfaithful, Option.some.injEq] at hloads
    have hsame := List.inj_on_of_nodup_map hfresh hmade' hmade hloads
    exact congrArg Prod.fst hsame
  obtain ⟨⟨k', token⟩, hin, hloads⟩ := List.mem_filterMap.mp hissued
  obtain rfl := honly k' token hin hloads
  exact ⟨⟨token, hin, hloads⟩, honly⟩

/-- **A link is taken away by its maker, by right, or when it is over.** Callers ask for whatever they like, present tokens
they were handed, were given or have made up, and their requests are served in any order of steps. Every row of the table was
made by somebody. When it is gone at a later moment, then a sweep had found the link over, or a deletion came from the command
line, or from an account that may delete this very link, or it presented a token that names this link. That token was handed
to whoever made the link, and to nobody else: not to the callers who were answered with the same link afterwards, and not to
whoever has had the code before or after. -/
theorem links_are_taken_rightly (hfaithful : z.Faithful) {nobody : K} {now : Instant}
    (hhonest : Meets (Desk.step svc lockKey z) (Honest z) (Desk.empty nobody now) (past ++ later))
    (hpast : run (Desk.step svc lockKey z) (Desk.empty nobody now) past = some d₁)
    (hlater : run (Desk.step svc lockKey z) d₁ later = some d₂) (hfresh : (d₂.made.map fun m => m.2.id).Nodup) {c : ShortCode}
    {row : Row c} (hrow : d₁.system.state.store.committed c = some row) :
    ∃ k link, (k, link) ∈ d₁.made ∧ SameLink link row.val ∧
      ((∃ row', d₂.system.state.store.committed c = some row' ∧ SameLink link row'.val) ∨
        ∃ before t after d, later = before ++ .step t :: after ∧ run (Desk.step svc lockKey z) d₁ before = some d ∧
          Rightly z d t k link) := by
  obtain ⟨hpastHonest, hlaterHonest⟩ := meets_append hhonest hpast
  have haccounted : Accounted z d₁ := accounted_run hpastHonest hpast (accounted_empty nobody now)
  obtain ⟨k, link, hmade, hsame⟩ := haccounted.rows c row hrow
  refine ⟨k, link, hmade, hsame, ?_⟩
  rcases links_stay_until_taken_by_right (atRest_empty now) (run_system hpast) (run_system hlater) hrow with
    ⟨row', hrow', hlink⟩ | ⟨before', e, after', s, s', hsplit, hbefore, -, -, t, old, rfl, hcode, hid, -, hright⟩
  · exact .inl ⟨row', hrow', hsame.trans hlink⟩
  · right
    obtain ⟨before, rest, rfl, rfl, hrest⟩ := List.map_eq_append_iff.mp hsplit
    obtain ⟨call, after, rfl, hcall, rfl⟩ := List.map_eq_cons_iff.mp hrest
    obtain ⟨d, hd, hd₂⟩ := Option.bind_eq_some_iff.mp ((run_append before (call :: after) d₁).symm.trans hlater)
    obtain rfl : d.system = s := by
      rw [run_system hd] at hbefore
      exact Option.some.inj hbefore
    have hcall : call = .step t := by
      cases call <;> cases hcall
      rfl
    subst hcall
    refine ⟨before, t, after, d, rfl, hd, ?_⟩
    have haccounted : Accounted z d := accounted_run (meets_append hlaterHonest hd).1 hd haccounted
    have hid' : old.id = link.id := hid.trans hsame.id
    rcases hright with ⟨permitted, hpc, hpermitted⟩ | ⟨now, deleted, hpc, hmem, hexpired⟩
    · right
      obtain ⟨q, rfl, hgenuine⟩ := haccounted.asked t _ permitted _ hpc
      have hlinkCode : link.shortCode = old.shortCode := by
        rw [hcode, ← row.property, hsame.1]
      refine ⟨q, old, hlinkCode ▸ hpc, hid', ?_⟩
      rcases Deletion.permits_cases hpermitted with hline | hmay | htoken
      · exact .inl hline
      · exact .inr (.inl hmay)
      · rw [hid'] at htoken
        have hmadeThen : (k, link) ∈ d.made := (run_suffix hd).1.subset hmade
        have hfreshThen : (d.made.map fun m => m.2.id).Nodup :=
          hfresh.sublist ((run_suffix hd₂).1.sublist.map _)
        exact .inr (.inr ⟨htoken, handedOnlyTo_of_issued hfaithful haccounted hfreshThen hmadeThen (hgenuine _ htoken)⟩)
    · exact .inl ⟨now, deleted, old, hpc, hmem, hid', hexpired⟩

/-! ## What a token is good for -/

/-- A process goes from one point to the next. -/
theorem step_of {a : Act} {p : Pc} {state : State T Int Row Cache Pc} (hpc : d.system.state.procs t = p)
    (hnext : next svc lockKey (seenBy d.system t) p = some a) (hact : act d.system.state t a = some state) :
    ∃ d', d.step svc lockKey z (.step t) = some d' ∧ d'.system = ⟨state, d.system.now⟩ := by
  have hnextOf : nextOf svc lockKey d.system t = some a := by
    unfold nextOf
    rw [hpc]
    exact hnext
  refine ⟨d.note z ⟨state, d.system.now⟩ (.step t), ?_, rfl⟩
  unfold Desk.step Call.event
  rw [step, hnextOf, Option.bind_some, hact]
  rfl

/-- A row that nobody is writing is free. -/
theorem free_of_clean {S : Store T Row} {c : ShortCode} (h : ∀ t, S.dirtyBy t c = none) (t : T) : S.free t c = true := by
  cases hdirty : (S.cells c).dirty with
  | none => simp only [Store.free, Cell.free, hdirty]
  | some w =>
    have hown := h w.1
    simp [Store.dirtyBy, Cell.dirtyBy, hdirty] at hown

/-- What is left in the cache of a link that was deleted. -/
theorem cache_of_deleted (b : Backend) (cache : Cache) (now : Instant) (link : Link) :
    ((cache.delete b link).deleteRedirect b link.shortCode).getByCode b link.shortCode = none ∧
      ((cache.delete b link).deleteRedirect b link.shortCode).getRedirect b now link.shortCode = none := by
  cases b <;> simp [Cache.delete, Cache.deleteRedirect, Cache.getByCode, Cache.getRedirect]

theorem deletion_runs {link : Link} {q : Deletion} {caller : K}
    (hrow : d.system.state.store.committed link.shortCode = some (.own link)) (hpermits : q.permits z link = true)
    (hidle : d.system.state.procs t = .idle) (hclean : ∀ t', d.system.state.store.dirtyBy t' link.shortCode = none) :
    ∃ d', run (Desk.step svc lockKey z) d
        (.request t caller (.deleteLink link.shortCode q) :: List.replicate 5 (.step t)) = some d' ∧
      d'.system.state.store.committed link.shortCode = none ∧
      d'.system.state.mem = (d.system.state.mem.delete svc.backend link).deleteRedirect svc.backend link.shortCode := by
  have hview : d.system.state.store.view t link.shortCode = some (.own link) := (Store.view_of_clean (hclean t)).trans hrow
  have hlink : ∀ system : System T, system.state.store = d.system.state.store →
      (seenBy system t).link link.shortCode = some link := by
    intro system hstore
    show (system.state.store.view t link.shortCode).map Subtype.val = some link
    rw [hstore, hview]
    rfl
  let point (p : DeletePc) : Pc := .delete link.shortCode (q.permits z) p
  have htaken : ∃ d₁, d.step svc lockKey z (.request t caller (.deleteLink link.shortCode q)) = some d₁ ∧
      d₁.system = ⟨{ d.system.state with procs := Function.update d.system.state.procs t (point .find) }, d.system.now⟩ := by
    unfold Desk.step Call.event
    rw [step, hidle]
    exact ⟨_, rfl, rfl⟩
  obtain ⟨d₁, h₁, hs₁⟩ := htaken
  -- The link is found, and may be deleted.
  have hfind : next svc lockKey (seenBy d₁.system t) (point .find) = some (.goto (point (.remove link))) := by
    simp only [point, next, nextDelete, hlink d₁.system (by rw [hs₁]), hpermits, if_true]
  obtain ⟨d₂, h₂, hs₂⟩ := step_of (z := z) (by rw [hs₁]; exact Function.update_self _ _ _) hfind rfl
  have hstore₂ : d₂.system.state.store = d.system.state.store := by rw [hs₂, hs₁]
  -- The row is removed, and the removal committed.
  have hremove : next svc lockKey (seenBy d₂.system t) (point (.remove link)) =
      some (.write link.shortCode none (point (.commit link))) := by
    simp only [point, next, nextDelete, hlink d₂.system hstore₂, if_true]
  have hwrite : act d₂.system.state t (.write link.shortCode none (point (.commit link))) =
      some { d₂.system.state with
        store := d₂.system.state.store.put t link.shortCode none
        procs := Function.update d₂.system.state.procs t (point (.commit link)) } := by
    simp only [act]
    rw [if_pos (by rw [hstore₂]; exact free_of_clean hclean t)]
  obtain ⟨d₃, h₃, hs₃⟩ := step_of (z := z) (by rw [hs₂]; exact Function.update_self _ _ _) hremove hwrite
  have hcommit : next svc lockKey (seenBy d₃.system t) (point (.commit link)) = some (.commit (point (.drop link))) := rfl
  obtain ⟨d₄, h₄, hs₄⟩ := step_of (z := z) (by rw [hs₃]; exact Function.update_self _ _ _) hcommit rfl
  -- The link is dropped from the cache.
  have hdrop : next svc lockKey (seenBy d₄.system t) (point (.drop link)) =
      some (.touch (d₄.system.state.mem.delete svc.backend link) (point .dropRedirect)) := rfl
  obtain ⟨d₅, h₅, hs₅⟩ := step_of (z := z) (by rw [hs₄]; exact Function.update_self _ _ _) hdrop rfl
  have hdropRedirect : next svc lockKey (seenBy d₅.system t) (point .dropRedirect) =
      some (.touch (d₅.system.state.mem.deleteRedirect svc.backend link.shortCode) (point .close)) := rfl
  obtain ⟨d₆, h₆, hs₆⟩ := step_of (z := z) (by rw [hs₅]; exact Function.update_self _ _ _) hdropRedirect rfl
  refine ⟨d₆, ?_, ?_, ?_⟩
  · simp only [List.replicate, run, h₁, h₂, h₃, h₄, h₅, h₆, Option.bind_some]
  · rw [hs₆, hs₅, hs₄, hs₃]
    show (Store.commit _ t).committed link.shortCode = none
    rw [Store.committed_commit, Store.dirtyBy_put_self]
    rfl
  · rw [hs₆, hs₅, hs₄, hs₃, hs₂, hs₁]

theorem row_is_deleted (caller : K) {c : ShortCode} {row : Row c} {q : Deletion}
    (hrow : d.system.state.store.committed c = some row) (hpermits : q.permits z row.val = true)
    (hidle : d.system.state.procs t = .idle) (hclean : ∀ t', d.system.state.store.dirtyBy t' c = none) :
    ∃ d', run (Desk.step svc lockKey z) d (.request t caller (.deleteLink c q) :: List.replicate 5 (.step t)) = some d' ∧
      d'.system.state.store.committed c = none ∧ d'.system.state.mem.getByCode svc.backend c = none ∧
      d'.system.state.mem.getRedirect svc.backend d'.system.now c = none := by
  obtain ⟨link, rfl⟩ := row
  obtain ⟨d', hrun, hgone, hmem⟩ := deletion_runs hrow hpermits hidle hclean
  obtain ⟨hbyCode, hredirect⟩ := cache_of_deleted svc.backend d.system.state.mem d'.system.now link
  exact ⟨d', hrun, hgone, hmem ▸ hbyCode, hmem ▸ hredirect⟩

end Desk

/-! ### A link that is made and taken away -/

section Sample

/-- Tokens that are as long as their identifier says. -/
def countingSerializer : Serializer where
  dumps id := String.ofList (List.replicate (id + 1) 'x')
  loads token := if token.toList.all (· = 'x') then some (token.toList.length - 1) else none

theorem countingSerializer_faithful : countingSerializer.Faithful := by
  intro id
  simp [countingSerializer, String.toList_ofList]

/-- Caller 1 has a link made under a code of their choice, and is answered. -/
def madeCalls : List (Call Nat Bool) :=
  .request true 1 (.createShortLink ⟨"https://one.example", "https://one.example", .guest (some "192.0.2.1"), none,
    some "192.0.2.1", 0, some ownCode⟩ ⟨fun n => n, fun _ _ => ownCode⟩) :: List.replicate 9 (.step true)

/-- Caller 2, behind the same address, is answered with the same link; caller 1 deletes it. -/
def takenCalls : List (Call Nat Bool) :=
  .request true 2 (.createShortLink ⟨"https://one.example", "https://one.example", .guest (some "192.0.2.1"), none,
    some "192.0.2.1", 0, none⟩ ⟨fun n => n + 1, fun _ _ => ownCode⟩) :: List.replicate 3 (.step true) ++
    .request false 1 (.deleteLink ownCode ⟨some "x", Db.empty [], ⟨none, some "192.0.2.1"⟩, true⟩) ::
      List.replicate 3 (.step false)

def openDesk : Desk Nat Bool := Desk.empty 0 0

abbrev sampleRun : Desk Nat Bool → List (Call Nat Bool) → Option (Desk Nat Bool) :=
  run (Desk.step sampleServices (fun _ => 0) countingSerializer)

theorem madeCalls_run : (sampleRun openDesk madeCalls).any (fun d => (d.system.state.store.committed ownCode).isSome &&
    decide (d.handed = [(1, "x")])) = true := by
  decide +kernel

theorem takenCalls_run : (sampleRun openDesk (madeCalls ++ takenCalls)).any (fun d =>
    (d.system.state.store.committed ownCode).isNone && decide (d.handed = [(1, "x")]) &&
      decide (d.made.map fun m => m.2.id).Nodup) = true := by
  decide +kernel

theorem takenCalls_honest : Meets (Desk.step sampleServices (fun _ => 0) countingSerializer) (Honest countingSerializer)
    openDesk (madeCalls ++ takenCalls) := by
  decide +kernel

/-- The link is gone because its maker took it away, or had the token that only they were handed presented. -/
theorem own_link_is_taken_rightly : ∃ d₁ k link before t after d, sampleRun openDesk madeCalls = some d₁ ∧
    (k, link) ∈ d₁.made ∧ takenCalls = before ++ .step t :: after ∧ sampleRun d₁ before = some d ∧
    Rightly countingSerializer d t k link := by
  obtain ⟨d₁, hmade, hthere⟩ := (Option.any_eq_true _ _).mp madeCalls_run
  obtain ⟨d₂, hall, hgone⟩ := (Option.any_eq_true _ _).mp takenCalls_run
  rw [Bool.and_eq_true, Bool.and_eq_true] at hgone
  obtain ⟨row, hrow⟩ := Option.isSome_iff_exists.mp ((Bool.and_eq_true _ _).mp hthere).1
  rw [sampleRun, run_append, ← sampleRun, hmade, Option.bind_some] at hall
  rcases links_are_taken_rightly countingSerializer_faithful takenCalls_honest hmade hall (of_decide_eq_true hgone.2) hrow with
    ⟨k, link, hlink, -, ⟨row', hrow', -⟩ | ⟨before, t, after, d, hsplit, hd, hright⟩⟩
  · rw [hrow'] at hgone
    cases hgone.1.1
  · exact ⟨d₁, k, link, before, t, after, d, hmade, hlink, hsplit, hd, hright⟩

theorem madeCalls_standing : (sampleRun openDesk madeCalls).any (fun d =>
    decide (d.handed = [(1, "x")]) && decide (d.made.map (·.2.shortCode) = [ownCode]) &&
      ((d.system.state.store.committed ownCode).any fun row => decide (d.made.map (·.2.id) = [row.val.id])) &&
      (d.system.state.procs false).isIdle && decide (d.system.state.store.dirtyBy true ownCode = none) &&
      decide (d.system.state.store.dirtyBy false ownCode = none)) = true := by
  decide +kernel

end Sample

end LinkShortener.Races.Handles
