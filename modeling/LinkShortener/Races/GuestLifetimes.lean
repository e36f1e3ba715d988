import LinkShortener.Races.ExpiredLinks
import LinkShortener.Races.GuestQuota

/-!
# Guest links expire

Zero means forever in one place and the default in another, so what a guest asked for is followed from the request to the
row, among any other operations and through every attempt.

* `guestTtl_bounds`: the lifetime of a guest's creation is positive and at most the guest lifetime.
* `Makes`: what a creation has made is made of its request, at every point; `step_makes` keeps it.
* `running_started`: what a process is creating is what it was started on last.
* `guest_links_expire`: every row that is inserted for a guest expires within the guest lifetime.
-/

namespace LinkShortener.Races

open ReadCommitted Transactions Links Runs

/-! ## Requests -/

/-- A request for one link, or for a batch. -/
inductive Request
  | createShortLink (ctx : Context) (url : String) (ttlSeconds : Int) (customCode : Option String) (draws : Draws)
  | batchCreateLinks (ctx : Context) (urls : List String) (draws : Draws)

namespace Request

def context : Request → Context
  | .createShortLink ctx _ _ _ _ => ctx
  | .batchCreateLinks ctx _ _ => ctx

/-- The operation a request comes to, unless it is refused, or answered without looking anything up. -/
def operation (svc : LinkServices) : Request → Option Operation
  | .createShortLink ctx url ttlSeconds customCode draws =>
    match readCreation svc ctx url ttlSeconds customCode with
    | .ok q => some (.createShortLink q draws)
    | .error _ => none
  | .batchCreateLinks ctx urls draws =>
    if urls.isEmpty ∨ svc.batchLimit < urls.length then none
    else
      match (groupUrls svc urls).1 with
      | [] => none
      | groups => some (.batchCreateLinks (readBatch svc ctx groups) draws)

/-- Nobody is signed in, and the request comes from an address, however it reads. -/
def FromGuest (r : Request) (address : String) : Prop :=
  r.context.currentUser = none ∧ r.context.remoteAddr = some address

end Request

/-- Whose link a creation makes, and for how long. -/
structure Terms where
  owner : Option Uuid
  guestId : Option String
  ttlSeconds : Int

def terms : Operation → Option Terms
  | .createShortLink q _ => some ⟨q.owner, q.guestId, q.ttlSeconds⟩
  | .batchCreateLinks q _ => some ⟨q.owner, q.guestId, q.ttlSeconds⟩
  | _ => none

section Reading

variable {svc : LinkServices}

/-- **Whatever a guest asks for**: a lifetime that is not refused becomes one within the guest lifetime. -/
theorem guestTtl_bounds (hpos : 0 < svc.defaultGuestTtlSeconds) {address : String} {ttlSeconds : Int}
    (hvalid : validateTtl svc ttlSeconds = .ok ()) :
    0 < guestTtl svc (some address) ttlSeconds ∧ guestTtl svc (some address) ttlSeconds ≤ svc.defaultGuestTtlSeconds := by
  obtain ⟨hnonneg, -⟩ := check_bind_eq_ok.mp hvalid
  rw [require_eq_ok, decide_eq_true_iff] at hnonneg
  unfold guestTtl
  dsimp only
  split
  · omega
  · omega

/-- What is read of a guest's request. -/
theorem terms_of_guest (hpos : 0 < svc.defaultGuestTtlSeconds) {r : Request} {op : Operation}
    (hop : r.operation svc = some op) {address : String} (hguest : r.FromGuest address) :
    ∃ ttlSeconds, terms op = some ⟨none, some address, ttlSeconds⟩ ∧ 0 < ttlSeconds ∧
      ttlSeconds ≤ svc.defaultGuestTtlSeconds := by
  obtain ⟨huser, haddress⟩ := hguest
  cases r with
  | createShortLink ctx url ttlSeconds customCode draws =>
    simp only [Request.context] at huser haddress
    simp only [Request.operation] at hop
    split at hop
    · rename_i q hread
      cases hop
      obtain ⟨hvalid, hread⟩ := check_bind_eq_ok.mp hread
      obtain ⟨code, -, hread⟩ := bind_eq_ok.mp hread
      obtain ⟨originalUrl, -, hread⟩ := bind_eq_ok.mp hread
      cases hread
      refine ⟨guestTtl svc (some address) ttlSeconds, ?_, guestTtl_bounds hpos hvalid⟩
      simp [terms, huser, haddress]
    · cases hop
  | batchCreateLinks ctx urls draws =>
    simp only [Request.context] at huser haddress
    simp only [Request.operation] at hop
    split at hop
    · cases hop
    · split at hop
      · cases hop
      · cases hop
        refine ⟨svc.defaultGuestTtlSeconds, ?_, hpos, le_refl _⟩
        simp [terms, readBatch, huser, haddress]

end Reading

/-! ## Rows made of a request -/

/-- A link that was made on these terms. -/
def MadeOn (terms : Terms) (link : Link) : Prop :=
  ∃ id urlHash code originalUrl now,
    Link.create id urlHash code originalUrl terms.owner terms.guestId terms.ttlSeconds now = .ok link

/-- A guest's row: the address, nobody's account, and an expiry within the guest lifetime. -/
structure GuestRow (svc : LinkServices) (address : String) (link : Link) : Prop where
  owner : link.owner = none
  address : link.guestIdentifier = some address
  expires : ∃ expiresAt, link.expiresAt = some expiresAt ∧ link.createdAt < expiresAt ∧
    expiresAt ≤ link.createdAt + svc.defaultGuestTtlSeconds * Link.second

theorem MadeOn.guestRow {svc : LinkServices} {address : String} {ttlSeconds : Int} {link : Link}
    (h : MadeOn ⟨none, some address, ttlSeconds⟩ link) (hpos : 0 < ttlSeconds)
    (hle : ttlSeconds ≤ svc.defaultGuestTtlSeconds) : GuestRow svc address link := by
  obtain ⟨id, urlHash, code, originalUrl, now, hcreate⟩ := h
  obtain ⟨-, hcreated, howner, hguest⟩ := Link.create_ok hcreate
  refine ⟨howner, hguest, ?_⟩
  unfold Link.create at hcreate
  dsimp only at hcreate
  rw [if_pos hpos] at hcreate
  split at hcreate
  · cases hcreate
    refine ⟨_, rfl, ?_, ?_⟩
    · have hsecond : 0 < ttlSeconds * Link.second := Int.mul_pos hpos (by decide)
      exact Int.lt_add_of_pos_right now hsecond
    · exact Int.add_le_add_left (Int.mul_le_mul_of_nonneg_right hle (by decide)) now
  · cases hcreate

/-! ## The operation under way -/

/-- The creation a process is running. -/
def running : Pc → Option Operation
  | .create j _ => some (.createShortLink j.q j.draws)
  | .batch j _ => some (.batchCreateLinks j.q j.draws)
  | _ => none

/-- What a creation has made so far is made on its terms. -/
def Makes : Pc → Prop
  | .create j (.insert link) => MadeOn ⟨j.q.owner, j.q.guestId, j.q.ttlSeconds⟩ link
  | .batch j (.build _ links) => ∀ l ∈ links, MadeOn ⟨j.q.owner, j.q.guestId, j.q.ttlSeconds⟩ l
  | .batch j (.insert _ links) => ∀ l ∈ links, MadeOn ⟨j.q.owner, j.q.guestId, j.q.ttlSeconds⟩ l
  | _ => True

section Steps

variable {T : Type} [DecidableEq T] {svc : LinkServices} {lockKey : String → Int} {s s' : System T} {t : T} {v : Seen}

/-- Where a creation may go from its point: on with its request, or to its end, with what it has made on its terms. -/
def GoesOn (p : Pc) (a : Act) : Prop := (running a.point = none ∨ running a.point = running p) ∧ Makes a.point

theorem goesOn_insertRow {link : Link} {p p' : Pc} {conflict a : Act} (ha : insertRow v link p' conflict = some a)
    (hp : running p' = running p ∧ Makes p') (hconflict : GoesOn p conflict) : GoesOn p a := by
  rcases insertRow_cases ha with rfl | rfl
  · exact ⟨.inr hp.1, hp.2⟩
  · exact hconflict

/-- The next attempt has the same request. -/
theorem goesOn_retryCreate (j : Creating) (p : CreatePc) : GoesOn (.create j p) (retryCreate svc j) := by
  unfold GoesOn
  simp only [retryCreate, Action.point]
  split
  · exact ⟨.inr rfl, trivial⟩
  · exact ⟨.inl rfl, trivial⟩

theorem goesOn_retryBatch (j : Batching) (p : BatchPc) : GoesOn (.batch j p) (retryBatch svc j) := by
  unfold GoesOn
  simp only [retryBatch, Action.point]
  split
  · exact ⟨.inr rfl, trivial⟩
  · exact ⟨.inl rfl, trivial⟩

theorem goesOn_create {j : Creating} {p : CreatePc} {a : Act} (hm : Makes (.create j p))
    (ha : nextCreate svc lockKey v j p = some a) : GoesOn (.create j p) a := by
  have hquiet : ∀ p', Makes (.create j p') → GoesOn (.create j p) (.goto (.create j p')) := fun p' h => ⟨.inr rfl, h⟩
  have hend : GoesOn (.create j p) (.rollback .idle) := ⟨.inl rfl, trivial⟩
  cases p with
  | askHash =>
    simp only [nextCreate] at ha
    split at ha <;> cases ha <;> exact hquiet _ trivial
  | confirm cached =>
    simp only [nextCreate] at ha
    split at ha <;> cases ha <;> exact hquiet _ trivial
  | dropStale cached => cases ha; exact ⟨.inr rfl, trivial⟩
  | search =>
    simp only [nextCreate] at ha
    split at ha
    · cases ha; exact hquiet _ trivial
    · split at ha <;> cases ha <;> exact hquiet _ trivial
  | fillExisting existing => cases ha; exact ⟨.inr rfl, trivial⟩
  | lock g => cases ha; exact ⟨.inr rfl, trivial⟩
  | count g =>
    simp only [nextCreate] at ha
    split at ha
    · cases ha; exact hquiet _ trivial
    · cases ha; exact hend
  | pick codes =>
    cases codes with
    | nil => cases ha; exact hend
    | cons code codes =>
      simp only [nextCreate] at ha
      split at ha <;> cases ha <;> exact hquiet _ trivial
  | build code =>
    simp only [nextCreate] at ha
    split at ha
    · rename_i link hcreate
      cases ha
      exact hquiet (.insert link) ⟨_, _, _, _, _, hcreate⟩
    · cases ha; exact hend
  | insert link => exact goesOn_insertRow ha ⟨rfl, trivial⟩ (goesOn_retryCreate j _)
  | commit link => cases ha; exact ⟨.inr rfl, trivial⟩
  | fillNew link => cases ha; exact ⟨.inl rfl, trivial⟩
  | close => cases ha; exact hend

theorem goesOn_batch {j : Batching} {p : BatchPc} {a : Act} (hm : Makes (.batch j p))
    (ha : nextBatch svc lockKey v j p = some a) : GoesOn (.batch j p) a := by
  have hquiet : ∀ p', Makes (.batch j p') → GoesOn (.batch j p) (.goto (.batch j p')) := fun p' h => ⟨.inr rfl, h⟩
  have hend : GoesOn (.batch j p) (.rollback .idle) := ⟨.inl rfl, trivial⟩
  cases p with
  | askHashes => cases ha; exact hquiet _ trivial
  | confirm cached => cases ha; exact hquiet _ trivial
  | dropStale stale missing =>
    cases stale with
    | nil => cases ha; exact hquiet _ trivial
    | cons link stale => cases ha; exact ⟨.inr rfl, trivial⟩
  | search missing =>
    simp only [nextBatch] at ha
    split at ha <;> cases ha <;> exact hquiet _ trivial
  | lock g groups => cases ha; exact ⟨.inr rfl, trivial⟩
  | count g groups => cases ha; exact hquiet _ trivial
  | resolve groups r =>
    simp only [nextBatch] at ha
    split at ha
    · cases ha
      refine hquiet (.build _ []) ?_
      intro l hl
      cases hl
    · cases ha; exact hquiet _ trivial
  | build planned links =>
    cases planned with
    | nil => cases ha; exact hquiet (.insert [] links) hm
    | cons p planned =>
      simp only [nextBatch] at ha
      split at ha
      · rename_i link hcreate
        cases ha
        refine hquiet (.build planned (links ++ [link])) ?_
        intro l hl
        rcases List.mem_append.mp hl with hl | hl
        · exact hm l hl
        · cases List.mem_singleton.mp hl
          exact ⟨_, _, _, _, _, hcreate⟩
      · cases ha; exact hend
  | insert done links =>
    cases links with
    | nil => cases ha; exact ⟨.inl rfl, trivial⟩
    | cons link links =>
      exact goesOn_insertRow ha ⟨rfl, fun l hl => hm l (List.mem_cons_of_mem link hl)⟩ (goesOn_retryBatch j _)

/-- An operation that creates nothing goes on creating nothing. -/
theorem goesOn_of_not_creates {p : Pc} {a : Act} (h : creates a.point = false) : GoesOn p a := by
  unfold GoesOn
  cases hp : a.point with
  | create j p =>
    rw [hp] at h
    cases h
  | batch j p =>
    rw [hp] at h
    cases h
  | _ => exact ⟨.inl rfl, trivial⟩

theorem goesOn_next {a : Act} (hm : Makes (s.state.procs t)) (ha : nextOf svc lockKey s t = some a) :
    GoesOn (s.state.procs t) a := by
  unfold nextOf at ha
  cases hp : s.state.procs t with
  | create j p =>
    rw [hp] at ha hm
    exact goesOn_create hm ha
  | batch j p =>
    rw [hp] at ha hm
    exact goesOn_batch hm ha
  | idle =>
    rw [hp] at ha
    cases ha
  | redirect c enqueued p =>
    rw [hp] at ha
    cases ha
    exact goesOn_of_not_creates (creates_redirect _ c enqueued p)
  | count c p =>
    rw [hp] at ha
    cases ha
    exact goesOn_of_not_creates (creates_count _ c p)
  | info c =>
    rw [hp] at ha
    cases ha
    exact goesOn_of_not_creates rfl
  | delete c permitted p =>
    rw [hp] at ha
    cases ha
    exact goesOn_of_not_creates (creates_delete _ c permitted p)
  | sweep p =>
    rw [hp] at ha
    cases ha
    exact goesOn_of_not_creates (creates_sweep _ p)

theorem makes_begin (op : Operation) : Makes (begin op) := by
  cases op <;> trivial

/-- **Every step keeps what is made on the terms of the requests.** -/
theorem step_makes {e : Event T} (h : step svc lockKey s e = some s') (hm : ∀ t, Makes (s.state.procs t)) :
    ∀ t, Makes (s'.state.procs t) := by
  intro t'
  rcases step_cases h with ⟨t, op, -, hact, -⟩ | ⟨t, a, -, hnext, hact, -⟩ | ⟨hstate, -⟩
  · by_cases ht : t' = t
    · subst ht
      rw [act_procs_self hact]
      exact makes_begin op
    · rw [act_procs_ne hact ht]
      exact hm t'
  · by_cases ht : t' = t
    · subst ht
      rw [act_procs_self hact]
      exact (goesOn_next (hm t') hnext).2
    · rw [act_procs_ne hact ht]
      exact hm t'
  · rw [hstate]
    exact hm t'

theorem running_begin {op op' : Operation} (h : running (begin op) = some op') : op = op' := by
  cases op <;> simp_all [running, begin]

/-- What a process is creating after a step it was creating before, or was started on in the step. -/
theorem step_running {e : Event T} {op : Operation} (h : step svc lockKey s e = some s')
    (hm : ∀ t, Makes (s.state.procs t)) (hop : running (s'.state.procs t) = some op) :
    e = .start t op ∨ (running (s.state.procs t) = some op ∧ ∀ op', e ≠ .start t op') := by
  cases e with
  | start t' op' =>
    simp only [step] at h
    split at h
    · obtain ⟨state, hact, rfl⟩ := Option.map_eq_some_iff.mp h
      by_cases ht : t = t'
      · subst ht
        rw [act_procs_self hact] at hop
        cases running_begin hop
        exact .inl rfl
      · rw [act_procs_ne hact ht] at hop
        refine .inr ⟨hop, ?_⟩
        rintro op'' ⟨⟩
        exact ht rfl
    · cases h
  | step t' =>
    obtain ⟨a, state, hnext, hact, rfl⟩ := take_some h
    refine .inr ⟨?_, fun op' he => by cases he⟩
    by_cases ht : t = t'
    · subst ht
      rw [act_procs_self hact] at hop
      rcases (goesOn_next (hm t) hnext).1 with hnone | hsame
      · rw [hnone] at hop
        cases hop
      · rw [← hsame]
        exact hop
    · rw [act_procs_ne hact ht] at hop
      exact hop
  | tick now =>
    simp only [step] at h
    split at h
    · cases h
      exact .inr ⟨hop, fun op' he => by cases he⟩
    · cases h

/-- A process is creating what it was started on last, in the run or before it. -/
theorem running_started {events : List (Event T)} {op : Operation} (h : run (step svc lockKey) s events = some s')
    (hm : ∀ t, Makes (s.state.procs t)) (hop : running (s'.state.procs t) = some op) :
    (∃ before after, events = before ++ .start t op :: after ∧ ∀ op', .start t op' ∉ after) ∨
      (running (s.state.procs t) = some op ∧ ∀ op', .start t op' ∉ events) := by
  induction events generalizing s with
  | nil =>
    cases h
    refine .inr ⟨hop, ?_⟩
    intro op' hin
    cases hin
  | cons e events ih =>
    obtain ⟨s₁, hstep, hrun⟩ := run_cons h
    rcases ih hrun (step_makes hstep hm) with ⟨before, after, rfl, hlast⟩ | ⟨hfirst, hnone⟩
    · exact .inl ⟨e :: before, after, rfl, hlast⟩
    · rcases step_running hstep hm hfirst with rfl | ⟨hbefore, hother⟩
      · exact .inl ⟨[], events, rfl, hnone⟩
      · refine .inr ⟨hbefore, ?_⟩
        intro op' hin
        rcases List.mem_cons.mp hin with he | hin
        · exact hother op' he.symm
        · exact hnone op' hin

/-! ## Inserted rows -/

/-- The row that a creation inserts with its next step. -/
def inserts (svc : LinkServices) (lockKey : String → Int) (s : System T) (t : T) : Option Link :=
  match running (s.state.procs t), nextOf svc lockKey s t with
  | some _, some (.write _ (some row) _) => some row.val
  | _, _ => none

/-- What a creation inserts is made on the terms of its request. -/
theorem inserts_madeOn {link : Link} (hm : Makes (s.state.procs t)) (h : inserts svc lockKey s t = some link) :
    ∃ op request, running (s.state.procs t) = some op ∧ terms op = some request ∧ MadeOn request link := by
  unfold inserts at h
  split at h
  · rename_i op c row p hrunning hnext
    cases h
    unfold nextOf at hnext
    cases hp : s.state.procs t with
    | create j q =>
      rw [hp] at hnext hm
      refine ⟨_, _, rfl, rfl, ?_⟩
      obtain ⟨link, rfl⟩ := insert_of_write_create hnext
      obtain ⟨-, -, row', hrow, hlink⟩ := insertRow_write hnext retryCreate_ne_write
      cases hrow
      rw [hlink]
      exact hm
    | batch j q =>
      rw [hp] at hnext hm
      refine ⟨_, _, rfl, rfl, ?_⟩
      obtain ⟨done, link, links, rfl⟩ := insert_of_write_batch hnext
      obtain ⟨-, -, row', hrow, hlink⟩ := insertRow_write hnext retryBatch_ne_write
      cases hrow
      rw [hlink]
      exact hm link List.mem_cons_self
    | _ =>
      rw [hp] at hrunning
      cases hrunning
  · cases h

/-- **Every guest link expires within the guest lifetime.** In every run of any number of processes, whatever is stored
and cached at the start: a row that a creation inserts, in its first attempt or in a later one, is for the request the
process was started on; and when that request came from an address and from nobody who is signed in, the row has the
address, no owner, and an expiry after its creation and within the guest lifetime. -/
theorem guest_links_expire (svc : LinkServices) (hpos : 0 < svc.defaultGuestTtlSeconds) (lockKey : String → Int)
    (start s : System T) (hrest : AtRest start) (events : List (Event T))
    (h : run (step svc lockKey) start events = some s) (t : T) (link : Link)
    (hinsert : inserts svc lockKey s t = some link) :
    ∃ op before after, events = before ++ .start t op :: after ∧ (∀ op', .start t op' ∉ after) ∧
      ∀ r : Request, r.operation svc = some op → ∀ address, r.FromGuest address → GuestRow svc address link := by
  have hidle : ∀ t, Makes (start.state.procs t) := by
    intro t
    rw [hrest.idle t]
    trivial
  have hmakes : ∀ t, Makes (s.state.procs t) :=
    run_inv (I := fun s : System T => ∀ t, Makes (s.state.procs t)) step_makes h hidle
  obtain ⟨op, request, hrunning, hterms, hmade⟩ := inserts_madeOn (hmakes t) hinsert
  rcases running_started h hidle hrunning with ⟨before, after, hevents, hlast⟩ | ⟨hbefore, -⟩
  · refine ⟨op, before, after, hevents, hlast, ?_⟩
    intro r hop address hguest
    obtain ⟨ttlSeconds, hterms', hlow, hhigh⟩ := terms_of_guest hpos hop hguest
    rw [hterms] at hterms'
    cases hterms'
    exact hmade.guestRow hlow hhigh
  · rw [hrest.idle t] at hbefore
    cases hbefore

end Steps

/-! A guest without a readable address asks for a link that never expires. -/

def guestRequest : Request :=
  .createShortLink ⟨none, some ""⟩ "https://one.example" 0 none ⟨fun _ => 1, fun _ _ => ⟨"cccccc", isCode_cccccc⟩⟩

def guestOperation : Operation :=
  .createShortLink ⟨"https://one.example", "https://one.example", .guest (some ""), none, some "", 604800, none⟩
    ⟨fun _ => 1, fun _ _ => ⟨"cccccc", isCode_cccccc⟩⟩

theorem guest_links_expire_without_address : ∃ (s : System Bool) (link : Link),
    run (step sampleServices fun _ => 0) (System.empty 0) (.start false guestOperation :: steps false 6) = some s ∧
      inserts sampleServices (fun _ => 0) s false = some link ∧ link.expiresAt = some 604800000000 ∧
      GuestRow sampleServices "" link := by
  have hrun : ((run (step sampleServices fun _ => 0) (System.empty 0 : System Bool)
      (.start false guestOperation :: steps false 6)).bind fun s => inserts sampleServices (fun _ => 0) s false).map
        (·.expiresAt) = some (some 604800000000) := by decide +kernel
  obtain ⟨link, hlink, hexpires⟩ := Option.map_eq_some_iff.mp hrun
  obtain ⟨s, hs, hinsert⟩ := Option.bind_eq_some_iff.mp hlink
  refine ⟨s, link, hs, hinsert, hexpires, ?_⟩
  obtain ⟨op, before, after, hevents, -, hrow⟩ := guest_links_expire sampleServices (by decide) _ _ s (atRest_empty 0) _ hs
    false link hinsert
  have hop : op = guestOperation := by
    have hin : Event.start false op ∈ Event.start false guestOperation :: steps false 6 := by
      rw [hevents]
      exact List.mem_append_right _ List.mem_cons_self
    rcases List.mem_cons.mp hin with he | hin
    · cases he
      rfl
    · cases (List.mem_replicate.mp hin).2
  exact hrow guestRequest (by rw [hop]; rfl) "" ⟨rfl, rfl⟩

end LinkShortener.Races
