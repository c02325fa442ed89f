import Playground.Decimal.Style

/-!
# The split view

Two panels with a separator between them that the pointer drags.  A width is a share
of the window less half a separator.  Neither panel gets a width below zero, since
the way of the separator is limited by the widths at the start of the drag.
-/

namespace Playground

/-- A width, `percent` of the window less `minusPx` pixels. -/
structure CalcWidth where
  /-- The share of the window, in percent. -/
  percent : Float
  /-- The pixels taken off. -/
  minusPx : Float

/-- The style text of a width. -/
def CalcWidth.css (w : CalcWidth) : String :=
  "calc(" ++ Decimal.Style.plain.text (.ofFloat w.percent) ++ "% - "
    ++ Decimal.Style.plain.text (.ofFloat w.minusPx) ++ "px)"

/-- The widths of the two panels. -/
structure PanelWidths where
  /-- The panel before the separator. -/
  first : CalcWidth
  /-- The panel behind the separator. -/
  second : CalcWidth

namespace Split

/-- Bounds that leave no room between them. -/
structure EmptyRange where
  /-- The lower bound. -/
  least : Float
  /-- The upper bound. -/
  greatest : Float

/-- The text shown for bounds without room. -/
def EmptyRange.message (e : EmptyRange) : String :=
  "min > max, or either was NaN. min = " ++ Decimal.Style.pointed16.text (.ofFloat e.least)
    ++ ", max = " ++ Decimal.Style.pointed16.text (.ofFloat e.greatest)

/-- The number, or the bound that it is beyond. -/
def clamp (x least greatest : Float) : Except EmptyRange Float :=
  if least ≤ greatest then
    .ok (if x < least then least else if greatest < x then greatest else x)
  else .error ⟨least, greatest⟩

/-- The widths when the separator has been dragged by `delta` pixels. -/
def resize (first second delta separator window : Float) : Except EmptyRange PanelWidths := do
  let delta ← clamp delta (-first) second
  let minusPx := separator / 2
  return {
    first := ⟨(first + delta + separator) / window * 100, minusPx⟩
    second := ⟨(second - delta + 2 * separator) / window * 100, minusPx⟩ }

/-- The start of a drag. -/
structure Grip where
  /-- The place of the pointer. -/
  x : Float
  /-- The width of the first panel. -/
  first : Float
  /-- The width of the second panel. -/
  second : Float

end Split

/-- A separator, and the drag that is going on. -/
structure Split where
  /-- The width of the separator. -/
  separator : Float
  /-- The start of the drag. -/
  grip : Option Split.Grip

namespace Split

/-- The pointer is pressed on the separator. -/
def press (s : Split) (x first second : Float) : Split := { s with grip := some ⟨x, first, second⟩ }

/-- The widths when the pointer has moved, if it is dragging. -/
def move (s : Split) (x window : Float) : Except EmptyRange (Option PanelWidths) :=
  match s.grip with
  | none => .ok none
  | some g => (resize g.first g.second (x - g.x) s.separator window).map some

/-- The pointer is released. -/
def release (s : Split) : Split := { s with grip := none }

end Split

end Playground
