import Mathlib.Data.Prod.Lex
import OpenAvc.Data.Chains
import OpenAvc.Data.Double
import OpenAvc.Data.Json
import OpenAvc.Data.StableSort

/-! Which elements of a page become children of which group when its grid gives way to containers. -/

namespace OpenAvc.Migration

/-- A cell rectangle. -/
structure CellArea where
  col : Nat
  row : Nat
  colSpan : Nat
  rowSpan : Nat
  deriving DecidableEq

/-- `int(x)` of a float, which raises on infinities. -/
def truncated : Double.Extended → Option Int
  | ⊥ => none
  | (⊤ : WithTop ℚ) => none
  | ((q : ℚ) : WithTop ℚ) => some (if 0 ≤ q then ⌊q⌋ else ⌈q⌉)

/-- `max(1, int(_num(value, 1) or 1))`; `none` where it raises. -/
def cellNumber (value : Option Json) : Option Nat :=
  let read : Option Int :=
    match value with
    | some (.int n) => truncated (Double.nearest n)
    | some (.float d) => truncated (Double.nearest d.value)
    | some (.constant _) => none
    | _ => some 1
  read.map fun n => (max 1 (if n = 0 then 1 else n)).toNat

/-- `_cell_area` of what stands under `grid_area`. -/
def cellArea (area : Json) : Option CellArea := do
  return ⟨← cellNumber (area.get? (text "col")), ← cellNumber (area.get? (text "row")),
    ← cellNumber (area.get? (text "col_span")), ← cellNumber (area.get? (text "row_span"))⟩

/-- `_contains` -/
def contains (outer inner : CellArea) : Bool :=
  inner.col ≥ outer.col ∧ inner.row ≥ outer.row ∧ inner.col + inner.colSpan ≤ outer.col + outer.colSpan ∧
    inner.row + inner.rowSpan ≤ outer.row + outer.rowSpan

/-- An element of a page, its id empty where it has none. -/
structure Element where
  id : Text := []
  type : Text
  gridArea : Json := .null

def Element.isGroup (el : Element) : Bool :=
  el.type = text "group"

/-- An element with its area and its place in the list, by which it is told from others. -/
structure Placed where
  index : Nat
  id : Text
  group : Bool
  area : CellArea
  deriving DecidableEq

def CellArea.cells (a : CellArea) : Nat :=
  a.colSpan * a.rowSpan

/-- The sizes of `areas`, for each element. -/
def place (elements : List Element) : Option (List Placed) :=
  elements.zipIdx.mapM fun u => do
    return ⟨u.2, u.1.id, u.1.isGroup, ← cellArea u.1.gridArea⟩

abbrev Parents := List (Text × Text)

/-- The groups, the smallest first. -/
def ranked (els : List Placed) : List Placed :=
  StableSort.sortedBy (fun g : Placed => toLex (g.area.cells, g.index)) (els.filter (·.group))

/-- The first of the ranked groups that an element is inside of. -/
def innermost (els : List Placed) (el : Placed) : Option Placed :=
  (ranked els).find? fun g => g.index ≠ el.index ∧ g.id ≠ [] ∧ contains g.area el.area

/-- The first loop: the parents that the containing groups suggest. -/
def suggested (els : List Placed) : Parents :=
  els.foldl (fun parents el =>
    if el.id = [] then parents
    else match innermost els el with
      | some g => Dict.set parents el.id g.id
      | none => parents) []

/-- The second loop, for one key: a chain that comes back to where it has been costs the key its parent. -/
def breakLoop (parents : Parents) (el : Text) : Parents :=
  if Chains.closes (fun x => parents.lookup x) parents.length [el] (parents.lookup el) then parents.filter fun u => u.1 ≠ el
  else parents

/-- `_adopt_into_containers_0_7_to_0_8` of elements whose areas are known. -/
def adopted (els : List Placed) : Parents :=
  ((suggested els).map Prod.fst).foldl breakLoop (suggested els)

/-- `_adopt_into_containers_0_7_to_0_8`; `none` where a grid area cannot be read. -/
def adopt (elements : List Element) : Option Parents :=
  if elements.all fun el => !el.isGroup then some [] else (place elements).map adopted

end OpenAvc.Migration
