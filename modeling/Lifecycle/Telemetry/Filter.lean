import Lifecycle.Telemetry.Directive
import Lifecycle.Telemetry.Report

/-!
# Log filters

A filter is a list of directives. Directives that expect no value and are bound to no
unit of work speak of reports as such: of those that cover a report the most exact one
decides, and a report that none of them covers is silent. A directive is more exact with
a longer target, then with a field, and of several for the same the last one counts.

Directives that are bound to units of work or fields open such work: a report from within
it passes also if one of them lets its level through. For that the work has to be shown
itself, and work that such a directive speaks of is shown unless its level is beyond
everything that the filter could let through.

A filter is written as directives with commas between them, where empty ones do not count.
-/

namespace Lifecycle.Telemetry

namespace Expected

/-- Whether a value is what is expected; numbers meet no pattern. -/
def accepts : Expected → FieldValue → Bool
  | number n, .number m => n = m
  | text pattern, .quoted s | text pattern, .plain s =>
    (Text.Pattern.read? pattern).any (·.meets s)
  | _, _ => false

end Expected

namespace Directive

def covers (d : Directive) (target : String) : Bool := d.target.isPrefixOf target.toList

def hasValue (d : Directive) : Bool := d.field.any fun b => b.value.isSome

/-- Whether a directive speaks of reports as such. -/
def isGeneral (d : Directive) : Bool := d.work.isNone && !d.hasValue

def isOpener (d : Directive) : Bool := d.work.isSome || d.field.isSome

/-- Whether two directives differ in their thresholds at most. -/
def agrees (d e : Directive) : Bool := d.target = e.target && d.work = e.work && d.field = e.field

/-- Whether a directive speaks of a unit of work, with whatever value in its field. -/
def concerns (d : Directive) (p : WorkSpan) : Bool :=
  d.covers p.target && d.work.all (· = p.name) &&
    d.field.all fun b => (p.fields.lookup b.name).isSome

def fits (d : Directive) (p : WorkSpan) : Bool :=
  d.concerns p && d.field.all fun b =>
    (p.fields.lookup b.name).any fun v => b.value.all (·.accepts v)

/--
Whether a directive is at least as exact as another that covers the same target; two fields are
ordered by their names.
-/
def isAsExactAs (d e : Directive) : Bool :=
  e.target.length < d.target.length || e.target.length = d.target.length &&
    e.field.all fun b => d.field.any fun c => b.name ≤ c.name

end Directive

abbrev Filter := List Directive

def splitCommas : List Char → List (List Char)
  | [] => [[]]
  | c :: cs =>
    if c = ',' then [] :: splitCommas cs
    else
      match splitCommas cs with
      | [] => [[c]]
      | p :: ps => (c :: p) :: ps

/-- The filter that a text writes, or what is wrong with its first wrong directive. -/
def readFilter (text : String) : Except FilterError Filter :=
  ((splitCommas text.toList).filter fun p => !p.isEmpty).mapM readDirective

namespace Filter

/-- The general directive that counts for a target and those fields that a test tells of. -/
def directive? (f : Filter) (target : String) (hasField : String → Bool) : Option Directive :=
  f.foldl
    (fun best d =>
      if d.isGeneral && d.covers target && (d.field.all fun b => hasField b.name) &&
          best.all d.isAsExactAs then
        some d
      else best)
    none

def lets (f : Filter) (target : String) (hasField : String → Bool) (l : Level) : Bool :=
  (f.directive? target hasField).any fun d => d.threshold.allows l

/-- The directives that open work; one that comes again replaces what was before. -/
def openers : Filter → List Directive
  | [] => []
  | d :: f => if d.isOpener && !f.any d.agrees then d :: openers f else openers f

/-- Whether a filter could let a level through at all; one that expects values looks at them all. -/
def reaches (f : Filter) (l : Level) : Bool := f.any fun d => d.hasValue || d.threshold.allows l

/-- Whether a unit of work lets through what is reported within it at a level. -/
def opens (f : Filter) (p : WorkSpan) (l : Level) : Bool :=
  f.openers.any fun d => d.fits p && d.threshold.allows l

/-- Whether a unit of work is shown within others that are. -/
def shows (f : Filter) (around : List WorkSpan) (p : WorkSpan) : Bool :=
  (f.openers.any (·.concerns p) && f.reaches p.level) ||
    f.lets p.target (fun _ => true) p.level || around.any (f.opens · p.level)

/-- The units of work that are shown, from the outermost. -/
def shown (f : Filter) (spans : List WorkSpan) : List WorkSpan :=
  spans.foldl (fun around p => if f.shows around p then around ++ [p] else around) []

/-- Whether a report is let through within units of work that are shown. -/
def allows (f : Filter) (r : Report) (around : List WorkSpan) : Bool :=
  around.any (f.opens · r.level) ||
    f.lets r.target (fun name => name = "message" || (r.fields.lookup name).isSome) r.level

end Filter

/-- The filter that is used when none is given. -/
def defaultFilterText : String := "info,trellis=debug,kube=info,tower=warn,hyper=warn"

end Lifecycle.Telemetry
