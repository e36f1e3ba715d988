import LinkShortener.Links.Records

/-!
# Entries of a cache

* `CachedRedirect`: a redirect with the expiry of its link. A timestamp without its zone cannot be compared with the
  clock, which has one; asking such an entry raises.
* `CacheKeyBuilder`: the keys, a prefix, the kind of the entry and what it is for, with colons between them.
  `buildKey_inj` says that the kind can be read off a key.
* `Subject`: what a key may be for, and `cache_keys_never_collide`: no two of them have the same key. A scope may hold
  colons of its own; it stands between a kind, which has none, and a hash, which is as long as any other.
-/

namespace LinkShortener.Caches

/-- `can't compare offset-naive and offset-aware datetimes`. -/
inductive TypeError
  | naive
  deriving DecidableEq, Repr

/-- How much time is left until a timestamp. -/
def remaining (d : Datetime) (now : Instant) : Except TypeError Int :=
  if d.tzinfo.isSome then .ok (d.instant - now) else .error .naive

/-- A redirect that can answer for itself whether it may be served. -/
structure CachedRedirect where
  shortCode : String
  originalUrl : String
  expiresAt : Option Datetime
  deriving DecidableEq, Repr

namespace CachedRedirect

def isExpired (entry : CachedRedirect) (now : Instant) : Except TypeError Bool :=
  match entry.expiresAt with
  | none => .ok false
  | some d => (remaining d now).map fun left => decide (left ≤ 0)

def isFor (entry : CachedRedirect) (shortCode : ShortCode) : Bool := decide (entry.shortCode = shortCode.val)

end CachedRedirect

/-! ## Keys -/

structure CacheKeyBuilder where
  keyPrefix : String

namespace CacheKeyBuilder

variable (k : CacheKeyBuilder)

/-- The parts of a key with colons between them, behind the prefix. -/
def buildKey (parts : List String) : String := ":".intercalate (k.keyPrefix :: parts)

def forRedirect (shortCode : String) : String := k.buildKey ["redirect", shortCode]

def forShortCode (shortCode : String) : String := k.buildKey ["code", shortCode]

def forUrlHash (urlHash scope : String) : String := k.buildKey ["hash", scope, urlHash]

def forStats : String := k.buildKey ["stats", "global"]

variable {k}

theorem toList_buildKey (kind : String) {parts : List String} (hparts : parts ≠ []) :
    (k.buildKey (kind :: parts)).toList =
      k.keyPrefix.toList ++ ':' :: (kind.toList ++ ':' :: (":".intercalate parts).toList) := by
  unfold buildKey
  rw [String.intercalate_cons_cons, String.intercalate_cons_of_ne_nil hparts]
  simp

/-- **The kind of an entry can be read off its key**, and what follows it. -/
theorem buildKey_inj {kind kind' : String} {parts parts' : List String} (hkind : ':' ∉ kind.toList)
    (hkind' : ':' ∉ kind'.toList) (hparts : parts ≠ []) (hparts' : parts' ≠ [])
    (h : k.buildKey (kind :: parts) = k.buildKey (kind' :: parts')) :
    kind = kind' ∧ ":".intercalate parts = ":".intercalate parts' := by
  have hlist := congrArg String.toList h
  rw [toList_buildKey kind hparts, toList_buildKey kind' hparts'] at hlist
  have hrest := (List.cons_eq_cons.mp (List.append_cancel_left hlist)).2
  have hcut := congrArg (Text.cut ':') hrest
  rw [Text.cut_append hkind, Text.cut_append hkind'] at hcut
  obtain ⟨hkinds, hparts⟩ := Prod.mk.inj hcut
  exact ⟨String.toList_inj.mp hkinds, String.toList_inj.mp hparts⟩

theorem buildKey_pair_inj {kind a b : String} (hkind : ':' ∉ kind.toList)
    (h : k.buildKey [kind, a] = k.buildKey [kind, b]) :
    a = b := by
  obtain ⟨-, hparts⟩ := buildKey_inj hkind hkind (List.cons_ne_nil _ _) (List.cons_ne_nil _ _) h
  rwa [String.intercalate_singleton, String.intercalate_singleton] at hparts

theorem forRedirect_inj {a b : String} (h : k.forRedirect a = k.forRedirect b) : a = b :=
  buildKey_pair_inj (by decide) h

theorem forShortCode_inj {a b : String} (h : k.forShortCode a = k.forShortCode b) : a = b :=
  buildKey_pair_inj (by decide) h

end CacheKeyBuilder

/-! ## No two keys are the same -/

/-- The scope a token names. -/
def readToken (token : String) : Scope :=
  match token.toList with
  | 'u' :: ':' :: ownerId => .forOwner (String.ofList ownerId)
  | 'g' :: ':' :: guestIdentifier => .forGuest (some (String.ofList guestIdentifier))
  | _ => .forGuest none

/-- The kind of a scope stands in front of its identifier, which may be anything. -/
theorem readToken_token : Function.LeftInverse readToken Scope.token := by
  rintro ⟨owner, guest, howned⟩
  cases owner with
  | some owner =>
    obtain rfl := howned rfl
    simp [readToken, Scope.token, Scope.forOwner, Scope.make]
  | none =>
    cases guest with
    | some guest => simp [readToken, Scope.token, Scope.forGuest, Scope.make]
    | none => simp [readToken, Scope.token, Scope.forGuest, Scope.make]

/-- What a key is for. -/
inductive Subject
  | redirect (shortCode : ShortCode)
  | shortCode (shortCode : ShortCode)
  | urlHash (urlHash : UrlHash) (scope : Scope)
  | stats

namespace CacheKeyBuilder

variable (k : CacheKeyBuilder)

/-- The key of a subject, as the caches ask for it. -/
def keyFor : Subject → String
  | .redirect shortCode => k.forRedirect shortCode.val
  | .shortCode shortCode => k.forShortCode shortCode.val
  | .urlHash urlHash scope => k.forUrlHash urlHash.val scope.token
  | .stats => k.forStats

variable {k}

/-- All hashes are of one length, so that the scope is what stands in front of the last of them. -/
theorem forUrlHash_inj {a b : UrlHash} {scope scope' : String}
    (h : k.forUrlHash a.val scope = k.forUrlHash b.val scope') :
    a = b ∧ scope = scope' := by
  obtain ⟨-, hparts⟩ := buildKey_inj (by decide) (by decide) (List.cons_ne_nil _ _) (List.cons_ne_nil _ _) h
  have hlength : ∀ hash : UrlHash, hash.val.toList.length = 64 := by
    intro hash
    have hvalid := hash.property
    unfold isHash at hvalid
    rw [Bool.and_eq_true, decide_eq_true_eq] at hvalid
    rw [String.length_toList]
    exact hvalid.2
  have hlist := congrArg String.toList hparts
  simp only [String.intercalate_cons_cons, String.intercalate_singleton, String.toList_append] at hlist
  obtain ⟨hfront, hhash⟩ := List.append_inj' hlist ((hlength a).trans (hlength b).symm)
  refine ⟨Subtype.ext (String.toList_inj.mp hhash), String.toList_inj.mp ?_⟩
  exact List.append_cancel_right hfront

/-- The word of a kind. -/
def kindOf : Subject → String
  | .redirect _ => "redirect"
  | .shortCode _ => "code"
  | .urlHash _ _ => "hash"
  | .stats => "stats"

theorem exists_keyFor_eq (s : Subject) : ∃ parts, parts ≠ [] ∧ k.keyFor s = k.buildKey (kindOf s :: parts) := by
  cases s with
  | redirect c => exact ⟨_, List.cons_ne_nil _ _, rfl⟩
  | shortCode c => exact ⟨_, List.cons_ne_nil _ _, rfl⟩
  | urlHash hash scope => exact ⟨_, List.cons_ne_nil _ _, rfl⟩
  | stats => exact ⟨_, List.cons_ne_nil _ _, rfl⟩

theorem colon_not_mem_kindOf (s : Subject) : ':' ∉ (kindOf s).toList := by
  unfold kindOf
  split
  · decide
  · decide
  · decide
  · decide

/-- Subjects of one key are of one kind. -/
theorem kindOf_eq {a b : Subject} (h : k.keyFor a = k.keyFor b) : kindOf a = kindOf b := by
  obtain ⟨parts, hparts, ha⟩ := exists_keyFor_eq (k := k) a
  obtain ⟨parts', hparts', hb⟩ := exists_keyFor_eq (k := k) b
  rw [ha, hb] at h
  exact (buildKey_inj (colon_not_mem_kindOf a) (colon_not_mem_kindOf b) hparts hparts' h).1

/-- The kinds of two subjects with the same key are the same, and then what they are for. -/
theorem keyFor_injective : Function.Injective k.keyFor := by
  intro a b h
  have hkind := kindOf_eq h
  cases a with
  | redirect c =>
    cases b with
    | redirect c' => rw [Subtype.ext (forRedirect_inj h)]
    | shortCode _ => simp [kindOf] at hkind
    | urlHash _ _ => simp [kindOf] at hkind
    | stats => simp [kindOf] at hkind
  | shortCode c =>
    cases b with
    | redirect _ => simp [kindOf] at hkind
    | shortCode c' => rw [Subtype.ext (forShortCode_inj h)]
    | urlHash _ _ => simp [kindOf] at hkind
    | stats => simp [kindOf] at hkind
  | urlHash hash scope =>
    cases b with
    | redirect _ => simp [kindOf] at hkind
    | shortCode _ => simp [kindOf] at hkind
    | urlHash hash' scope' =>
      obtain ⟨rfl, htoken⟩ := forUrlHash_inj h
      rw [readToken_token.injective htoken]
    | stats => simp [kindOf] at hkind
  | stats =>
    cases b with
    | redirect _ => simp [kindOf] at hkind
    | shortCode _ => simp [kindOf] at hkind
    | urlHash _ _ => simp [kindOf] at hkind
    | stats => rfl

/-- **Keys never collide.** Under any prefix, different subjects have different keys, whatever their identifiers hold; and
the name of a scope names no other. -/
theorem cache_keys_never_collide (k : CacheKeyBuilder) :
    Function.Injective k.keyFor ∧ Function.Injective Scope.token :=
  ⟨keyFor_injective, readToken_token.injective⟩

end CacheKeyBuilder

end LinkShortener.Caches
