import Mathlib.Data.List.Sort
import LinkShortener.Lib.Dictionary
import LinkShortener.Lib.Utf8

/-!
# Journals

A journal is a file that is written to and, beside it, what rotation has left of it. It is read from its end: a plain file
in blocks backwards, a packed one forwards with the last lines kept.

* `JournalFilter.matchesFields`: whether a record answers a filter. The service's own probes are hidden unless they are
  asked for by name.
* `linesBackwards`: the last lines of a file, and whether its start was reached.
* `tailOnce`, `tail`: a page of a journal. A page that was asked for without a filter reads as many lines as it may return,
  and looks further only when the probes have taken some of them.

`json.loads` may raise anything; a `ValueError` is caught and every other exception ends the read (`parse`).
-/

namespace LinkShortener.Journals

open Lines Utf8

/-! ## Records -/

/-- The value of a field. Only texts are compared with anything. -/
inductive JsonValue
  | string (s : String)
  | other
  deriving DecidableEq

abbrev Fields := Dictionary String JsonValue

/-- What `json.loads` makes of a line that parses. -/
inductive Loaded
  | object (fields : Fields)
  | other

/-- What `json.loads` raises. -/
inductive LoadError
  | valueError
  | other (e : String)

def HEALTH_PROBE_EVENT_TYPE : String := "LOGGING_CHAIN_PROBE"

/-- What a caller is looking for. -/
structure JournalFilter where
  eventType : Option String
  account : Option String
  remoteAddr : Option String
  shortCode : Option String
  since : Option String
  until_ : Option String
  deriving DecidableEq

/-- A term that is set, and not to the empty text. -/
def asked (term : Option String) : Option String := term.filter fun t => decide (t ≠ "")

def holds (fields : Fields) (name value : String) : Bool := decide (fields.lookup name = some (.string value))

namespace JournalFilter

def empty : JournalFilter := ⟨none, none, none, none, none, none⟩

variable (f : JournalFilter)

def isEmpty : Bool :=
  [f.eventType, f.account, f.remoteAddr, f.shortCode, f.since, f.until_].all fun term => (asked term).isNone

/-- Whether a stamp is within both bounds, each compared with as much of the stamp as it has characters. -/
def withinTheRange (stamp : Option JsonValue) : Bool :=
  if (asked f.since).isNone && (asked f.until_).isNone then true
  else
    match stamp with
    | some (.string s) =>
      (asked f.since).all (fun bound => decide ¬ s.toList.take bound.length < bound.toList) &&
        (asked f.until_).all fun bound => decide ¬ bound.toList < s.toList.take bound.length
    | _ => false

/-- Whether one record answers this filter. -/
def matchesFields (fields : Fields) : Bool :=
  if holds fields "event_type" HEALTH_PROBE_EVENT_TYPE && decide (f.eventType ≠ some HEALTH_PROBE_EVENT_TYPE) then false
  else if f.isEmpty then true
  else if fields.rows.isEmpty then false
  else if (asked f.eventType).any fun v => !holds fields "event_type" v then false
  else if (asked f.account).any fun v => !(holds fields "user_id" v || holds fields "target_user_id" v) then false
  else if (asked f.remoteAddr).any fun v => !holds fields "remote_addr" v then false
  else if (asked f.shortCode).any fun v => !holds fields "short_code" v then false
  else f.withinTheRange (fields.lookup "timestamp")

end JournalFilter

/-- One line of a journal, parsed as far as it can be. -/
structure JournalLine where
  raw : String
  fields : Fields
  parsed : Bool
  source : String

structure JournalPage where
  lines : List JournalLine
  totalScanned : Nat
  reachedStart : Bool
  filesRead : List String
  oldestAvailable : Option String

/-- A line that is no record is shown as it stands. Only a `ValueError` says so. -/
def parse (loads : String → Except LoadError Loaded) (raw source : String) : Except String JournalLine :=
  match loads raw with
  | .ok (.object fields) => .ok ⟨raw, fields, true, source⟩
  | .ok .other => .ok ⟨raw, Rows.empty, false, source⟩
  | .error .valueError => .ok ⟨raw, Rows.empty, false, source⟩
  | .error (.other e) => .error e

/-! ## Files -/

/-- How much is read per step. -/
def BLOCK : Nat := 64 * 1024

/-- Most lines one read will look at. -/
def SCAN_LIMIT : Nat := 50000

/-- Most lines one call may return. -/
def HARD_LIMIT : Nat := 2000

/-- The files of a directory, with the bytes a reader finds in them: those of a packed file are unpacked. -/
abbrev Directory := Dictionary String (List UInt8)

def isPacked (name : String) : Bool := ['.', 'g', 'z'].isSuffixOf name.toList

section Archives

variable (decimal : Char → Option Nat)

/-- The generation of an archive, `<live>.<generation>` or `<live>.<generation>.gz`. `decimal` has the digits of all scripts,
as `\d` and `int` have them. `$` lets a newline at the end pass, and `.` matches none. -/
def generationOf (live name : String) : Option Nat :=
  let stem := live.toList ++ ['.']
  let rest := name.toList.drop stem.length
  let rest := if rest.getLast? = some '\n' then rest.dropLast else rest
  let digits := if ['.', 'g', 'z'].isSuffixOf rest then rest.dropLast.dropLast.dropLast else rest
  if 4 < live.length ∧ '\n' ∉ live.toList ∧ stem.isPrefixOf name.toList ∧ digits ≠ [] then
    (digits.mapM decimal).map fun values => values.foldl (fun n value => n * 10 + value) 0
  else none

/-- The rotated generations beside a journal, newest first. -/
def archivesOf (dir : Directory) (live : String) : List String :=
  let found := dir.keys.filterMap fun name => (generationOf decimal live name).map fun generation => (generation, name)
  (found.insertionSort fun a b => a.1 < b.1 ∨ (a.1 = b.1 ∧ ¬ b.2 < a.2)).map (·.2)

end Archives

/-- Go backwards block by block until there is one newline more than lines are wanted: the bytes that were read, and the
position they begin at. -/
def blocksBackwards (block : Nat) (hblock : 0 < block) (content : List UInt8) (wanted position newlines : Nat)
    (buffer : List UInt8) : List UInt8 × Nat :=
  if _h : 0 < position ∧ newlines ≤ wanted then
    let size := min block position
    let chunk := (content.drop (position - size)).take size
    blocksBackwards block hblock content wanted (position - size) (newlines + chunk.count newline) (chunk ++ buffer)
  else (buffer, position)
  termination_by position
  decreasing_by omega

/-- The last lines of a file, oldest of them first, and whether the read reached the start of it. -/
def linesBackwards (block : Nat) (hblock : 0 < block) (name : String) (content : List UInt8) (wanted : Nat) :
    List String × Bool :=
  if isPacked name then
    let window := (rawLines newline content).map fun raw => (decode raw).rdropWhile (· = '\n')
    ((window.rtake wanted).map String.ofList, true)
  else
    let (buffer, position) := blocksBackwards block hblock content wanted content.length 0 []
    ((lastSlice (lines '\n' (decode buffer)) wanted).map String.ofList, decide (position = 0))

/-! ## Pages -/

inductive Journal
  | application
  | error
  | audit
  deriving DecidableEq

/-- Where the journals live and what they are called, how a line is parsed, and which characters are decimal digits. -/
structure FileJournalReader where
  logDir : Directory
  fileNames : Journal → String
  loads : String → Except LoadError Loaded
  decimal : Char → Option Nat

/-- What has been read so far. -/
structure Scan where
  collected : List JournalLine
  filesRead : List String
  reachedStart : Bool
  scanned : Nat

namespace FileJournalReader

variable (r : FileJournalReader)

def pathOf (journal : Journal) : String := r.fileNames journal ++ ".log"

/-- Read the files that are there, newest first, until the page is full or the budget is spent; whether the loop was left
before its end. -/
def scanFiles (wanted budget : Nat) (lookingFor : JournalFilter) : List String → Scan → Except String (Scan × Bool)
  | [], s => .ok (s, false)
  | name :: names, s =>
    match r.logDir.lookup name with
    | none => scanFiles wanted budget lookingFor names s
    | some content =>
      if budget ≤ s.scanned then .ok (s, true)
      else
        let (raws, hitStart) := linesBackwards BLOCK (by decide) name content (budget - s.scanned)
        match raws.mapM fun raw => parse r.loads raw name with
        | .error e => .error e
        | .ok lines =>
          let found := lines.filter fun line => lookingFor.matchesFields line.fields
          let s : Scan := ⟨found ++ s.collected, s.filesRead ++ [name], hitStart, s.scanned + raws.length⟩
          if wanted ≤ s.collected.length ∨ budget ≤ s.scanned then .ok ({ s with reachedStart := false }, true)
          else scanFiles wanted budget lookingFor names s

/-- Whether a read asked for nothing in particular. -/
def isPlain (where_ : Option JournalFilter) : Bool := where_.all (·.isEmpty)

/-- The archives beside a journal. -/
def archives (journal : Journal) : List String := archivesOf r.decimal r.logDir (r.pathOf journal)

def tailOnce (journal : Journal) (limit : Int) (includeArchives : Bool) (where_ : Option JournalFilter) (deep : Bool) :
    Except String JournalPage := do
  let wanted := (min limit HARD_LIMIT).toNat
  let lookingFor := where_.getD JournalFilter.empty
  let archives := r.archives journal
  if wanted = 0 then return ⟨[], 0, false, [], archives.getLast?⟩
  let budget := if deep || !isPlain where_ then SCAN_LIMIT else wanted
  let (s, left) ←
    r.scanFiles wanted budget lookingFor (r.pathOf journal :: if includeArchives then archives else []) ⟨[], [], false, 0⟩
  let reachedStart :=
    if left then s.reachedStart
    else if s.filesRead = [] ∧ archives = [] then true
    else s.reachedStart && (includeArchives || archives.isEmpty)
  return ⟨s.collected.rtake wanted, s.scanned, reachedStart, s.filesRead, archives.getLast?⟩

/-- **The most recent lines of a journal.** -/
def tail (journal : Journal) (limit : Int) (includeArchives : Bool) (where_ : Option JournalFilter) :
    Except String JournalPage := do
  let page ← r.tailOnce journal limit includeArchives where_ false
  if page.lines.length < (min limit HARD_LIMIT).toNat ∧ page.reachedStart = false ∧ isPlain where_ = true then
    r.tailOnce journal limit includeArchives where_ true
  else return page

end FileJournalReader

end LinkShortener.Journals
