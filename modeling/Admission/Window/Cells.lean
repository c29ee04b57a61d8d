import Admission.Window.Basic

/-!
# Windows of counter cells

A window whose accumulators are counter cells that a caller can keep and write to at any time. A
cell is known by its identity; one that no bucket shows is detached.

Making a new cell may itself add to the same window, before the cell is handed out: the *nested*
additions are listed for each cell that is made, in the order in which their making begins. A
position that such an addition has changed is looked at afresh, and the cell that was meant for it
is dropped.

## Main definitions

* `CellWindow`: a window of cells, the nested additions still to come, and the cells themselves
* `CellWindow.current`: the cell of a slot, made if need be; detached if the slot's position has
  moved on
* `CellWindow.add`: an addition to the cell of a slot
-/

namespace Admission

/-- An addition to a window of cells. -/
structure Addition where
  now : UInt64
  delta : UInt64
deriving DecidableEq, Repr

/-- A window of counter cells together with the cells. -/
structure CellWindow where
  /-- The identity of the cell for each slot. -/
  window : Window Nat
  /-- The additions that making each of the next cells brings about, in order. -/
  nested : List (List Addition)
  cells : Array UInt64

namespace CellWindow

/-- A new cell with count zero, in no bucket. -/
def fresh (s : CellWindow) : CellWindow × Nat :=
  ({ s with cells := s.cells.push 0 }, s.cells.size)

/-- The count of a cell. -/
def count (s : CellWindow) (cell : Nat) : UInt64 := s.cells.getD cell 0

/-- Adds to a cell, around the end of its range if need be. -/
def bump (s : CellWindow) (cell : Nat) (delta : UInt64) : CellWindow :=
  { s with cells := s.cells.modify cell (· + delta) }

/-- Looks for the cell of a slot, and stores one made by `make` if the position is vacant. If making
it changed the position, the position is looked at again, up to the given number of times. -/
def locate (make : CellWindow → CellWindow × Nat) :
    Nat → UInt64 → CellWindow → CellWindow × Option Nat
  | 0, _, s => (s, none)
  | tries + 1, slot, s =>
    match s.window.place slot with
    | .held cell => (s, some cell)
    | .passed => (s, none)
    | .vacant =>
      let (made, cell) := make s
      if made.window.bucketAt slot = s.window.bucketAt slot then
        ({ made with window := made.window.put slot cell }, some cell)
      else
        locate make tries slot made

/-- The cell of the slot of `now`, or a detached one if its position has moved on. Making a cell
that changes a position uses up an entry of the nested additions, so one more try than there are of
them suffices. -/
def currentWith (make : CellWindow → CellWindow × Nat) (now : UInt64) (s : CellWindow) :
    CellWindow × Nat :=
  match locate make (s.nested.length + 1) (s.window.shape.slotOf now) s with
  | (s, some cell) => (s, cell)
  | (s, none) => make s

/-- Adds to the cell of a slot and tells its count before. -/
def addWith (make : CellWindow → CellWindow × Nat) (a : Addition) (s : CellWindow) :
    CellWindow × UInt64 :=
  let (s, cell) := currentWith make a.now s
  (s.bump cell a.delta, s.count cell)

/-- Makes a cell after its nested additions, whose own cells may have nested additions up to `depth`
deep. -/
def make : Nat → CellWindow → CellWindow × Nat
  | 0, s => s.fresh
  | depth + 1, s =>
    match s.nested with
    | [] => s.fresh
    | additions :: rest =>
      (additions.foldl (fun s a => (addWith (make depth) a s).1) { s with nested := rest }).fresh

/-- The cell of the slot of `now`, or a detached one if its position has moved on. -/
def current (now : UInt64) (s : CellWindow) : CellWindow × Nat :=
  currentWith (make s.nested.length) now s

/-- Adds to the cell of a slot and tells its count before. -/
def add (a : Addition) (s : CellWindow) : CellWindow × UInt64 :=
  addWith (make s.nested.length) a s

end CellWindow

end Admission
