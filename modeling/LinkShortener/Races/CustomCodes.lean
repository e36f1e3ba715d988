import LinkShortener.Links.Deduplication
import LinkShortener.Races.Model

/-!
# Creating a link under a chosen code

A creation that asks for a code either gets a new link under that code, or is told of the live link the caller already
has for the URL, or is refused; a refused creation leaves nothing behind.

* On its own, `createShortLink` from any database and any cache (`Settled`, `findOrCreateRetrying_settled`).
* Among others, `Course`: the steps of one creation, each taken from whatever the others have left at that moment, so
  that lookups go stale, insertions lose their race and attempts are repeated. `course_outcome` says how it can end.
-/

namespace LinkShortener.Races

open ReadCommitted Transactions Links

/-! ## On its own -/

section Alone

variable {svc : LinkServices} {w w' : World} {now : Instant} {q : Creation} {draws : Draws} {c : ShortCode}

theorem readCustomCode_chosen {value : String} {chosen : Option ShortCode} (hne : value ≠ "")
    (h : readCustomCode (some value) = .ok chosen) : ∃ code : ShortCode, chosen = some code ∧ code.val = value := by
  unfold readCustomCode at h
  split at h
  · rename_i hnone
    cases hnone
  · rename_i hempty
    exact absurd (Option.some.inj hempty) hne
  · rename_i v hnonempty hv
    cases hv
    obtain ⟨code, hparse, h⟩ := bind_eq_ok.mp h
    obtain ⟨-, -, h⟩ := bind_eq_ok.mp h
    cases h
    unfold ShortCode.parse at hparse
    split at hparse
    · cases hparse
      exact ⟨_, rfl, rfl⟩
    · cases hparse

/-- A request that is read asks for the code it names. -/
theorem readCreation_chosen {ctx : Context} {url value : String} {ttlSeconds : Int} (hne : value ≠ "")
    (h : readCreation svc ctx url ttlSeconds (some value) = .ok q) :
    ∃ code : ShortCode, q.chosenCode = some code ∧ code.val = value := by
  unfold readCreation at h
  obtain ⟨-, -, h⟩ := bind_eq_ok.mp h
  obtain ⟨chosen, hchosen, h⟩ := bind_eq_ok.mp h
  obtain ⟨originalUrl, -, h⟩ := bind_eq_ok.mp h
  cases h
  exact readCustomCode_chosen hne hchosen

/-- A new link carries the code that was asked for. -/
theorem newLink_chosen {db db' : Db} {link : Link} {attempt : Nat} (hq : q.chosenCode = some c)
    (h : newLink svc db now q draws attempt = .ok (db', link)) : link.shortCode = c := by
  unfold newLink at h
  obtain ⟨-, -, h⟩ := bind_eq_ok.mp h
  obtain ⟨code, hpick, h⟩ := bind_eq_ok.mp h
  obtain ⟨link', hcreate, h⟩ := bind_eq_ok.mp h
  obtain ⟨db₁, -, h⟩ := bind_eq_ok.mp h
  cases h
  unfold pickCode at hpick
  rw [hq] at hpick
  dsimp only at hpick
  split at hpick
  · cases hpick
  · cases hpick
    exact (Link.create_ok hcreate).1

/-- How a creation under a chosen code ends, and what it leaves behind. -/
def Settled (svc : LinkServices) (w : World) (now : Instant) (q : Creation) (c : ShortCode) :
    World × Except DomainError ShortLinkResponse → Prop
  | (w', .ok r) => r.isNew = true ∧ r.shortCode = c.val ∨
      r.isNew = false ∧ w'.db = w.db ∧ ∃ link ∈ w.db.links.rows, link.liveIn q.urlHash q.scope now = true ∧
        r = .fromLink link svc.baseUrl false r.fromCache
  | (w', .error _) => w'.db = w.db ∧ w'.cache.Within w.cache

theorem findOrCreate_settled (hq : q.chosenCode = some c) (attempt : Nat) :
    Settled svc w now q c (findOrCreate svc w now q draws attempt) := by
  unfold findOrCreate
  dsimp only
  split
  · rename_i stored hconfirm
    obtain ⟨⟨cached, -, hstored⟩, hlive⟩ := confirm_some hconfirm
    exact .inr ⟨rfl, rfl, stored, (Rows.get_eq_some.mp hstored).1, hlive, rfl⟩
  · split
    · rename_i existing hexisting
      obtain ⟨hrow, hlive⟩ := Link.firstLive_some hexisting
      exact .inr ⟨rfl, rfl, existing, hrow, hlive, rfl⟩
    · split
      · refine ⟨rfl, ?_⟩
        dsimp only
        split
        · exact .delete _ _ _
        · exact .refl _
      · rename_i link hnew
        exact .inl ⟨rfl, congrArg Subtype.val (newLink_chosen hq hnew)⟩

/-- An attempt from what a failed attempt has left counts from where that one began. -/
theorem Settled.after (hdb : w'.db = w.db) (hcache : w'.cache.Within w.cache)
    {r : World × Except DomainError ShortLinkResponse} (h : Settled svc w' now q c r) : Settled svc w now q c r := by
  obtain ⟨w'', r⟩ := r
  cases r with
  | error e =>
    obtain ⟨hdb', hcache'⟩ := h
    exact ⟨hdb'.trans hdb, hcache'.trans hcache⟩
  | ok r =>
    rcases h with hnew | ⟨hold, hdb', hlink⟩
    · exact .inl hnew
    · rw [hdb] at hdb' hlink
      exact .inr ⟨hold, hdb', hlink⟩

theorem findOrCreateRetrying_settled (hq : q.chosenCode = some c) (n : Nat) (w : World) :
    Settled svc w now q c (findOrCreateRetrying svc now q draws n w) := by
  induction n generalizing w with
  | zero => exact ⟨rfl, .refl _⟩
  | succ n ih =>
    have hone : Settled svc w now q c (findOrCreate svc w now q draws (svc.maxCollisionAttempts - (n + 1))) :=
      findOrCreate_settled hq _
    unfold findOrCreateRetrying
    split
    · rename_i w' e hattempt
      rw [hattempt] at hone
      split
      · exact (ih w').after hone.1 hone.2
      · exact hone
    · exact hone

end Alone

/-! ## Among others -/

/-- One step of a creation: what it saw, where it stood and what it did. -/
structure Move where
  seen : Seen
  job : Creating
  point : CreatePc
  act : Act

/-- The link a step settles the answer on, and whether it is new. -/
def Move.answer (m : Move) : Option (Link × Bool) :=
  match m.point with
  | .confirm cached => (confirm m.seen.now m.seen.link m.job.q.urlHash m.job.q.scope cached).map fun link => (link, false)
  | .fillExisting link => some (link, false)
  | .fillNew link => some (link, true)
  | _ => none

def answers (moves : List Move) : List (Link × Bool) := moves.filterMap Move.answer

/-- The steps of a creation from one point to another, each from what it happens to see. -/
inductive Course (svc : LinkServices) (lockKey : String → Int) : Pc → List Move → Pc → Prop
  | stop (p : Pc) : Course svc lockKey p [] p
  | step {v : Seen} {j : Creating} {p : CreatePc} {a : Act} {moves : List Move} {p' : Pc}
      (h : nextCreate svc lockKey v j p = some a) (rest : Course svc lockKey a.point moves p') :
      Course svc lockKey (.create j p) (⟨v, j, p, a⟩ :: moves) p'

/-- The link was seen, live. -/
def SeenLive (q : Creation) (moves : List Move) (link : Link) : Prop :=
  ∃ m ∈ moves, (link ∈ m.seen.rows ∨ m.seen.link link.shortCode = some link) ∧
    link.liveIn q.urlHash q.scope m.seen.now = true

/-- Nothing is committed. -/
def Uncommitted (moves : List Move) : Prop := ∀ m ∈ moves, ∀ p, m.act ≠ .commit p

/-- Nothing is added to the cache. -/
def Unfilled (moves : List Move) : Prop := ∀ m ∈ moves, ∀ cache p, m.act = .touch cache p → cache.Within m.seen.cache

/-- How a creation under a chosen code ends: with a new link under it, with the caller's live link, or with a refusal that
leaves nothing behind. -/
inductive Outcome (q : Creation) (c : ShortCode) (moves : List Move) : Prop
  | issued (link : Link) (hanswer : answers moves = [(link, true)]) (hcode : link.shortCode = c)
  | found (link : Link) (hanswer : answers moves = [(link, false)]) (hlive : SeenLive q moves link)
      (huncommitted : Uncommitted moves)
  | refused (hanswer : answers moves = []) (huncommitted : Uncommitted moves) (hunfilled : Unfilled moves)

section Courses

variable {svc : LinkServices} {lockKey : String → Int} {moves : List Move} {j : Creating} {link : Link} {v : Seen}
  {q : Creation} {c : ShortCode} {p : CreatePc} {a : Act}

theorem course_idle {p : Pc} (h : Course svc lockKey .idle moves p) : moves = [] := by
  cases h with
  | stop => rfl

/-- What is left of a creation that has its answer. -/
theorem course_close (h : Course svc lockKey (.create j .close) moves .idle) :
    ∃ v, moves = [⟨v, j, .close, .rollback .idle⟩] := by
  cases h with
  | step hstep rest =>
    rename_i v a moves
    cases hstep
    cases course_idle rest
    exact ⟨v, rfl⟩

theorem course_fillExisting (h : Course svc lockKey (.create j (.fillExisting link)) moves .idle) :
    answers moves = [(link, false)] ∧ Uncommitted moves := by
  cases h with
  | step hstep rest =>
    cases hstep
    obtain ⟨v', rfl⟩ := course_close rest
    refine ⟨rfl, ?_⟩
    intro m hm p hcommit
    simp only [List.mem_cons, List.not_mem_nil, or_false] at hm
    rcases hm with rfl | rfl
    · cases hcommit
    · cases hcommit

/-- What is left of a creation that has inserted its row. -/
theorem course_commit (h : Course svc lockKey (.create j (.commit link)) moves .idle) :
    answers moves = [(link, true)] := by
  cases h with
  | step hstep rest =>
    cases hstep
    cases rest with
    | step hfill rest =>
      cases hfill
      cases course_idle rest
      rfl

/-- A creation that has no answer yet, and inserts nothing but the chosen code. -/
def Open (q : Creation) (c : ShortCode) : Pc → Prop
  | .idle => True
  | .create j p => j.q = q ∧
    match p with
    | .askHash | .confirm _ | .dropStale _ | .search | .lock _ | .count _ => True
    | .pick codes => ∀ code ∈ codes, code = c
    | .build code => code = c
    | .insert link => link.shortCode = c
    | _ => False
  | _ => False

/-- A step that answers nothing, commits nothing and adds nothing to the cache. -/
structure Silent (m : Move) : Prop where
  answer : m.answer = none
  uncommitted : ∀ p, m.act ≠ .commit p
  unfilled : ∀ cache p, m.act = .touch cache p → cache.Within m.seen.cache

/-- The outcome of what follows a silent step is the outcome. -/
theorem Outcome.cons {m : Move} (hm : Silent m) (h : Outcome q c moves) : Outcome q c (m :: moves) := by
  have hanswers : answers (m :: moves) = answers moves := List.filterMap_cons_none hm.answer
  have huncommit : Uncommitted moves → Uncommitted (m :: moves) := by
    intro h m' hm'
    rcases List.mem_cons.mp hm' with rfl | hm'
    · exact hm.uncommitted
    · exact h m' hm'
  cases h with
  | issued link hanswer hcode => exact .issued link (hanswers.trans hanswer) hcode
  | found link hanswer hlive huncommitted =>
    obtain ⟨m', hm', hseen⟩ := hlive
    exact .found link (hanswers.trans hanswer) ⟨m', List.mem_cons_of_mem m hm', hseen⟩ (huncommit huncommitted)
  | refused hanswer huncommitted hunfilled =>
    refine .refused (hanswers.trans hanswer) (huncommit huncommitted) ?_
    intro m' hm'
    rcases List.mem_cons.mp hm' with rfl | hm'
    · exact hm.unfilled
    · exact hunfilled m' hm'

theorem silent_goto {p' : Pc} (h : Move.answer ⟨v, j, p, .goto p'⟩ = none) : Silent ⟨v, j, p, .goto p'⟩ := by
  refine ⟨h, ?_, ?_⟩
  · intro p' h
    cases h
  · intro cache p' h
    cases h

theorem silent_lock {l : Int} {p' : Pc} (h : Move.answer ⟨v, j, p, .lock l p'⟩ = none) :
    Silent ⟨v, j, p, .lock l p'⟩ := by
  refine ⟨h, ?_, ?_⟩
  · intro p' h
    cases h
  · intro cache p' h
    cases h

theorem silent_rollback {p' : Pc} (h : Move.answer ⟨v, j, p, .rollback p'⟩ = none) :
    Silent ⟨v, j, p, .rollback p'⟩ := by
  refine ⟨h, ?_, ?_⟩
  · intro p' h
    cases h
  · intro cache p' h
    cases h

theorem shortCode_of_link {code : ShortCode} (h : v.link code = some link) : link.shortCode = code := by
  obtain ⟨row, -, rfl⟩ := Option.map_eq_some_iff.mp h
  exact row.property

theorem codesToTry_chosen (hq : j.q.chosenCode = some c) : ∀ code ∈ codesToTry svc j, code = c := by
  intro code hcode
  simp only [codesToTry, hq, List.mem_singleton] at hcode
  exact hcode

/-- **What a step of an open creation is**: it stays open, the cached link is confirmed, a live link is found, or the row is
inserted. -/
theorem open_step (hopen : Open q c (.create j p)) (hq : q.chosenCode = some c)
    (h : nextCreate svc lockKey v j p = some a) :
    (Silent ⟨v, j, p, a⟩ ∧ Open q c a.point) ∨
      (∃ link, a = .goto (.create j .close) ∧ Move.answer ⟨v, j, p, a⟩ = some (link, false) ∧
        v.link link.shortCode = some link ∧ link.liveIn q.urlHash q.scope v.now = true) ∨
      (∃ link, a = .goto (.create j (.fillExisting link)) ∧ Move.answer ⟨v, j, p, a⟩ = none ∧ link ∈ v.rows ∧
        link.liveIn q.urlHash q.scope v.now = true) ∨
      (∃ link k w, a = .write k w (.create j (.commit link)) ∧ Move.answer ⟨v, j, p, a⟩ = none ∧ link.shortCode = c) := by
  obtain ⟨rfl, hpoint⟩ := hopen
  cases p with
  | askHash =>
    simp only [nextCreate] at h
    split at h
    · cases h
      exact .inl ⟨silent_goto rfl, rfl, trivial⟩
    · cases h
      exact .inl ⟨silent_goto rfl, rfl, trivial⟩
  | confirm cached =>
    simp only [nextCreate] at h
    split at h
    · rename_i link hconfirm
      cases h
      obtain ⟨hstored, hlive⟩ := Option.filter_eq_some_iff.mp hconfirm
      refine .inr (.inl ⟨link, rfl, ?_, ?_, hlive⟩)
      · simp only [Move.answer, hconfirm, Option.map_some]
      · rw [shortCode_of_link hstored]
        exact hstored
    · rename_i hconfirm
      cases h
      refine .inl ⟨silent_goto ?_, rfl, trivial⟩
      simp only [Move.answer, hconfirm, Option.map_none]
  | dropStale cached =>
    cases h
    refine .inl ⟨⟨rfl, ?_, ?_⟩, rfl, trivial⟩
    · intro p' h
      cases h
    · intro cache p' h
      cases h
      exact .delete _ _ _
  | search =>
    simp only [nextCreate] at h
    split at h
    · rename_i existing hexisting
      cases h
      obtain ⟨hrow, hlive⟩ := Link.firstLive_some hexisting
      exact .inr (.inr (.inl ⟨existing, rfl, rfl, hrow, hlive⟩))
    · split at h
      · cases h
        exact .inl ⟨silent_goto rfl, rfl, trivial⟩
      · cases h
        exact .inl ⟨silent_goto rfl, rfl, codesToTry_chosen hq⟩
  | lock guestId =>
    cases h
    exact .inl ⟨silent_lock rfl, rfl, trivial⟩
  | count guestId =>
    simp only [nextCreate] at h
    split at h
    · cases h
      exact .inl ⟨silent_goto rfl, rfl, codesToTry_chosen hq⟩
    · cases h
      exact .inl ⟨silent_rollback rfl, trivial⟩
  | pick codes =>
    cases codes with
    | nil =>
      cases h
      exact .inl ⟨silent_rollback rfl, trivial⟩
    | cons code codes =>
      simp only [nextCreate] at h
      split at h
      · cases h
        exact .inl ⟨silent_goto rfl, rfl, hpoint code List.mem_cons_self⟩
      · cases h
        exact .inl ⟨silent_goto rfl, rfl, fun x hx => hpoint x (List.mem_cons_of_mem code hx)⟩
  | build code =>
    simp only [nextCreate] at h
    split at h
    · rename_i link hcreate
      cases h
      exact .inl ⟨silent_goto rfl, rfl, (Link.create_ok hcreate).1.trans hpoint⟩
    · cases h
      exact .inl ⟨silent_rollback rfl, trivial⟩
  | insert link =>
    simp only [nextCreate, insertRow] at h
    split at h
    · cases h
      exact .inr (.inr (.inr ⟨link, _, _, rfl, rfl, hpoint⟩))
    · -- the race is lost: begin again, or give up
      split at h
      · cases h
        refine .inl ⟨silent_rollback rfl, ?_⟩
        simp only [retryCreate, Action.point]
        split
        · exact ⟨rfl, trivial⟩
        · trivial
      · cases h
  | fillExisting link => exact hpoint.elim
  | commit link => exact hpoint.elim
  | fillNew link => exact hpoint.elim
  | close => exact hpoint.elim

/-- **How a creation under a chosen code ends.** -/
theorem course_outcome (hq : q.chosenCode = some c) {p p' : Pc} (h : Course svc lockKey p moves p') (hend : p' = .idle)
    (hopen : Open q c p) : Outcome q c moves := by
  induction h with
  | stop p =>
    refine .refused rfl ?_ ?_
    · intro m hm
      cases hm
    · intro m hm
      cases hm
  | step hstep rest ih =>
    subst hend
    rename_i v j p a moves
    rcases open_step hopen hq hstep with ⟨hsilent, hopen'⟩ | ⟨link, rfl, hanswer, hseen, hlive⟩ |
      ⟨link, rfl, hanswer, hseen, hlive⟩ | ⟨link, k, w, rfl, hanswer, hcode⟩
    · exact (ih rfl hopen').cons hsilent
    · obtain ⟨v', rfl⟩ := course_close rest
      refine .found link ?_ ⟨_, List.mem_cons_self, .inr hseen, hlive⟩ ?_
      · exact List.filterMap_cons_some hanswer
      · intro m hm p' hcommit
        simp only [List.mem_cons, List.not_mem_nil, or_false] at hm
        rcases hm with rfl | rfl
        · cases hcommit
        · cases hcommit
    · obtain ⟨hanswers, huncommitted⟩ := course_fillExisting rest
      refine .found link ((List.filterMap_cons_none hanswer).trans hanswers)
        ⟨_, List.mem_cons_self, .inl hseen, hlive⟩ ?_
      intro m hm
      rcases List.mem_cons.mp hm with rfl | hm
      · intro p' hcommit
        cases hcommit
      · exact huncommitted m hm
    · have hanswers := course_commit rest
      exact .issued link ((List.filterMap_cons_none hanswer).trans hanswers) hcode

end Courses

/-- **A chosen code is issued, or no code is.** On its own, from any database and cache, a creation that names a code
answers with a new link under that code, or with the live link the caller has for the URL and stores nothing; when it is
refused, the database is as it was and nothing has been added to the cache. The same holds when others step in between,
whatever they do: a creation that ends without an answer has committed nothing and filled nothing. -/
theorem custom_code_is_issued_or_no_code_is (svc : LinkServices) (ctx : Context) (url : String) (ttlSeconds : Int)
    (value : String) (hvalue : value ≠ "") (draws : Draws) :
    (∀ w now w' r, createShortLink svc w now ctx url ttlSeconds (some value) draws = (w', .ok r) →
        r.isNew = true ∧ r.shortCode = value ∨
          r.isNew = false ∧ w'.db = w.db ∧ ∃ q link, readCreation svc ctx url ttlSeconds (some value) = .ok q ∧
            link ∈ w.db.links.rows ∧ link.liveIn q.urlHash q.scope now = true ∧
            r = .fromLink link svc.baseUrl false r.fromCache) ∧
      (∀ w now w' e, createShortLink svc w now ctx url ttlSeconds (some value) draws = (w', .error e) →
        w'.db = w.db ∧ w'.cache.Within w.cache) ∧
      ∀ q, readCreation svc ctx url ttlSeconds (some value) = .ok q →
        ∃ c : ShortCode, c.val = value ∧ ∀ lockKey moves,
          Course svc lockKey (begin (.createShortLink q draws)) moves .idle → Outcome q c moves := by
  refine ⟨?_, ?_, ?_⟩
  · intro w now w' r h
    unfold createShortLink at h
    cases hread : readCreation svc ctx url ttlSeconds (some value) with
    | error e =>
      rw [hread] at h
      cases h
    | ok q =>
      obtain ⟨c, hq, rfl⟩ := readCreation_chosen hvalue hread
      rw [hread] at h
      have hsettled : Settled svc w now q c (w', .ok r) := h ▸ findOrCreateRetrying_settled hq _ w
      rcases hsettled with hnew | ⟨hold, hdb, link, hrow, hlive, hr⟩
      · exact .inl hnew
      · exact .inr ⟨hold, hdb, q, link, rfl, hrow, hlive, hr⟩
  · intro w now w' e h
    unfold createShortLink at h
    cases hread : readCreation svc ctx url ttlSeconds (some value) with
    | error e' =>
      rw [hread] at h
      cases h
      exact ⟨rfl, .refl _⟩
    | ok q =>
      obtain ⟨c, hq, rfl⟩ := readCreation_chosen hvalue hread
      rw [hread] at h
      have hsettled : Settled svc w now q c (w', .error e) := h ▸ findOrCreateRetrying_settled hq _ w
      exact hsettled
  · intro q hread
    obtain ⟨c, hq, rfl⟩ := readCreation_chosen hvalue hread
    refine ⟨c, rfl, ?_⟩
    intro lockKey moves hcourse
    exact course_outcome hq hcourse rfl ⟨rfl, trivial⟩

/-! A caller asks for a code, and then for another one for the same URL. -/

def callerWithoutAddress : Context := ⟨none, none⟩

def chosenDraws : Draws := ⟨fun _ => 1, fun _ _ => ⟨"cccccc", isCode_cccccc⟩⟩

/-- The database and the cache after the caller has shortened `url` under `value`. -/
def shortened (url value : String) : World :=
  (createShortLink sampleServices ⟨Db.empty [], .empty⟩ 0 callerWithoutAddress url 0 (some value) chosenDraws).1

/-- The second time the code is free and well formed, and the link of the first time comes back. -/
theorem another_code_for_the_same_url :
    ∃ svc w now ctx url ttlSeconds value draws, value ≠ "" ∧ ∃ w' r,
      createShortLink svc w now ctx url ttlSeconds (some value) draws = (w', .ok r) ∧ r.shortCode ≠ value := by
  refine ⟨sampleServices, shortened "https://one.example" "my-link", 0, callerWithoutAddress, "https://one.example", 0,
    "my-code", chosenDraws, by decide, ?_⟩
  have hanswer : ∃ r, (createShortLink sampleServices (shortened "https://one.example" "my-link") 0 callerWithoutAddress
      "https://one.example" 0 (some "my-code") chosenDraws).2 = .ok r ∧ r.shortCode = "my-link" :=
    ⟨⟨"my-link", "https://sho.rt/my-link", "https://one.example", 0, 0, none, none, false, true, none, 1⟩,
      by decide +kernel, rfl⟩
  obtain ⟨r, hr, hcode⟩ := hanswer
  refine ⟨_, r, Prod.ext rfl hr, ?_⟩
  rw [hcode]
  decide

theorem custom_code_is_issued_or_no_code_is_for_a_new_url : "my-code" ≠ "" ∧
    ∃ w' r, createShortLink sampleServices (shortened "https://one.example" "my-link") 0 callerWithoutAddress
      "https://two.example" 0 (some "my-code") ⟨fun _ => 2, chosenDraws.generateFresh⟩ = (w', .ok r) ∧
      r.isNew = true ∧ r.shortCode = "my-code" := by
  refine ⟨by decide, ?_⟩
  have hnew : ∃ r, (createShortLink sampleServices (shortened "https://one.example" "my-link") 0 callerWithoutAddress
      "https://two.example" 0 (some "my-code") ⟨fun _ => 2, chosenDraws.generateFresh⟩).2 = .ok r ∧ r.isNew = true :=
    ⟨⟨"my-code", "https://sho.rt/my-code", "https://two.example", 0, 0, none, none, true, false, none, 2⟩,
      by decide +kernel, rfl⟩
  obtain ⟨r, hr, hisNew⟩ := hnew
  obtain ⟨hreturns, -, -⟩ := custom_code_is_issued_or_no_code_is sampleServices callerWithoutAddress "https://two.example" 0
    "my-code" (by decide) ⟨fun _ => 2, chosenDraws.generateFresh⟩
  refine ⟨_, r, Prod.ext rfl hr, ?_⟩
  rcases hreturns _ 0 _ r (Prod.ext rfl hr) with hissued | ⟨hold, -⟩
  · exact hissued
  · rw [hisNew] at hold
    cases hold

end LinkShortener.Races
