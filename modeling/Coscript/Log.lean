/-!
# Log entries

What a run reports about itself: lines of text with a level of detail. A threshold names the most
detailed level that is still of interest.
-/

namespace Coscript

/-- Levels of detail, the most urgent first. -/
inductive Level
  | error
  | warn
  | info
  | debug
  | trace
  deriving Repr, DecidableEq

namespace Level

/-- The place of a level; more detail is a higher number. -/
def detail : Level → Nat
  | error => 0
  | warn => 1
  | info => 2
  | debug => 3
  | trace => 4

/-- The name of a level in capitals. -/
def name : Level → String
  | error => "ERROR"
  | warn => "WARN"
  | info => "INFO"
  | debug => "DEBUG"
  | trace => "TRACE"

end Level

/-- One line of a log. -/
structure LogEntry where
  level : Level
  text : String
  deriving Repr, DecidableEq

/-- The most detailed level that is recorded; `none` records nothing. -/
abbrev Threshold := Option Level

/-- Whether entries of a level are recorded. -/
def Threshold.records (t : Threshold) (l : Level) : Bool :=
  match t with
  | none => false
  | some most => l.detail ≤ most.detail

/-- What was recorded, up to a threshold. -/
structure Journal where
  threshold : Threshold
  /-- The entries, the latest first. -/
  latest : List LogEntry

namespace Journal

/-- The journal without entries. -/
def empty (threshold : Threshold) : Journal := ⟨threshold, []⟩

/-- Records an entry if its level is of interest; only then its text is made. -/
def note (j : Journal) (level : Level) (text : Unit → String) : Journal :=
  if j.threshold.records level then { j with latest := ⟨level, text ()⟩ :: j.latest } else j

/-- Records those entries of a list that are of interest. -/
def noteAll (j : Journal) (entries : List LogEntry) : Journal :=
  entries.foldl (fun j e => j.note e.level fun _ => e.text) j

/-- Records entries of one level if that is of interest; only then they are made. -/
def noteMany (j : Journal) (level : Level) (entries : Unit → List LogEntry) : Journal :=
  if j.threshold.records level then j.noteAll (entries ()) else j

/-- The entries in their order. -/
def entries (j : Journal) : List LogEntry := j.latest.reverse

/-- The journal with its entries taken out. -/
def cleared (j : Journal) : Journal := .empty j.threshold

end Journal

end Coscript
