/-!
# Log records

What the library reports while it works. A record has a level, the part of the library that
reports it, and a text. Work that reports runs in a state with a `Sink` for records.
-/

namespace Stylesheet
namespace Log

/-- How much a record matters, the most important first. -/
inductive Level where
  | warn
  | info
  | debug
  | trace
  deriving DecidableEq, Repr

namespace Level

def rank : Level → Nat
  | warn => 0
  | info => 1
  | debug => 2
  | trace => 3

def name : Level → String
  | warn => "WARN"
  | info => "INFO"
  | debug => "DEBUG"
  | trace => "TRACE"

end Level

/-- The part of the library that reports. -/
inductive Part where
  | evaluator
  | extractor
  | exporter
  | importer
  | lookup
  deriving DecidableEq, Repr

/-- How a part is named in a log. -/
def Part.target : Part → String
  | evaluator => "sass_var_extract::engine::evaluator"
  | extractor => "sass_var_extract::extract::extractor"
  | exporter => "sass_var_extract::extract::rewriter"
  | importer => "sass_var_extract::extract::importer"
  | lookup => "sass_var_extract::extract::fs_resolver"

structure Record where
  level : Level
  part : Part
  text : String
  deriving DecidableEq, Repr

/-- A record as a line of a log. -/
def Record.line (r : Record) : String :=
  "[" ++ r.level.name ++ "] [" ++ r.part.target ++ "] " ++ r.text

/-- The records that matter at least as much as a level. -/
def upTo (level : Level) (records : List Record) : List Record :=
  records.filter fun r => r.level.rank ≤ level.rank

/-- A state that takes records. -/
class Sink (σ : Type) where
  write : Record → σ → σ

variable {σ : Type} [Sink σ]

/-- Report a text. -/
def report (level : Level) (part : Part) (text : String) : StateM σ Unit :=
  modify (Sink.write ⟨level, part, text⟩)

end Log
end Stylesheet
