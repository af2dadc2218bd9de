import TableMarkup.Markup.Element
import TableMarkup.Table.Config
import TableMarkup.Version

/-!
# Renderers

A renderer takes an element and the configuration of its table, and gives a handle for what it made
of them, or refuses. It may leave marks among the attributes of the element; the tag and the children
of the element stay as they are. A renderer also says which version it is, if it is there at all.

* `Renderer.initialise` is one try at an element; `Attempt` is what comes of a try.
* `Renderer.refusing` is a renderer that turns some elements away unseen.
* `Incompatibility.of` is the check of a renderer's version.
-/

namespace TableMarkup

inductive Refusal where
  /-- The table of this key is there already, and is not to give way. -/
  | occupied (key : String)
  /-- The element is turned away for a reason of the renderer's own. -/
  | rejected (tag reason : String)
deriving DecidableEq

def Refusal.message : Refusal → String
  | .occupied key => "cannot reinitialise table '" ++ key ++ "' without destroy"
  | .rejected tag reason => "cannot initialise <" ++ tag ++ ">: " ++ reason

/-- What comes of trying something on an element: the outcome, and how the attributes of the element
and the renderer are afterwards, whether the try failed or not. -/
structure Attempt (ε ρ α : Type) where
  outcome : Except ε α
  attributes : Attributes
  renderer : ρ

/-- A renderer with states `ρ` that gives handles `η`. -/
structure Renderer (ρ η : Type) where
  /-- The version of a renderer that is there. -/
  version : ρ → Option Version
  /-- Tries to make a table of an element. -/
  initialise : ρ → Element → TableConfig → Attempt Refusal ρ η

/-- The renderer that turns elements away, for the reason given, before the other one sees them. -/
def Renderer.refusing {ρ η : Type} (r : Renderer ρ η) (reason? : Element → Option String) :
    Renderer ρ η where
  version := r.version
  initialise state e config :=
    match reason? e with
    | some reason => ⟨.error (.rejected e.tag reason), e.attributes, state⟩
    | none => r.initialise state e config

/-- Why a renderer may not do what is asked of it. It is asked nevertheless. -/
inductive Incompatibility where
  | missing (required : Version)
  | outdated (found required : Version)
deriving DecidableEq

namespace Incompatibility

def of (required : Version) : Option Version → Option Incompatibility
  | none => some (.missing required)
  | some found => if found.isBefore required then some (.outdated found required) else none

def message : Incompatibility → String
  | .missing required =>
    "Warning: initiatable requires DataTables " ++ required.render ++
      " or newer - www.datatables.net/download"
  | .outdated found required =>
    "Warning: initiatable requires DataTables " ++ required.render ++
      " or newer (found " ++ found.render ++ ") - www.datatables.net/download"

end Incompatibility

end TableMarkup
