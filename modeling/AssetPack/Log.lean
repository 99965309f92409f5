/-!
# Log records

A record is a severity and a line of text. Which records are shown is decided by the reader of the
log, who names the least severe level of interest.
-/

namespace AssetPack

/-- How severe a record is, the most severe first. -/
inductive Level where
  | error
  | warn
  | info
  | debug
  | trace
  deriving DecidableEq, Repr

namespace Level

/-- The place of a level in the order of severity, zero for the most severe. -/
def rank : Level → Nat
  | error => 0
  | warn => 1
  | info => 2
  | debug => 3
  | trace => 4

/-- The level as written in a log line. -/
def name : Level → String
  | error => "ERROR"
  | warn => "WARN"
  | info => "INFO"
  | debug => "DEBUG"
  | trace => "TRACE"

/-- Whether a record of this level is shown by a log that goes down to `threshold`. -/
def shownAt (level threshold : Level) : Bool := level.rank ≤ threshold.rank

end Level

end AssetPack
