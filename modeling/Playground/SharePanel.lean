import Playground.Error
import Playground.Share.Link

/-!
# The share panel

A popup with a link to the current state.  A short link comes from a shortener,
which is asked with the long one.  What the panel shows is made anew each time it
opens and each time the kind of link is chosen, and stays as it is in between.
-/

namespace Playground

/-- The kind of link that is shown. -/
inductive LinkLength where
  | short
  | long
deriving DecidableEq, Repr

/-- The name of a kind of link. -/
def LinkLength.name : LinkLength → String
  | .short => "short"
  | .long => "long"

/-- What a click lands on. -/
inductive ClickTarget where
  /-- The button that opens and closes the panel. -/
  | button
  /-- The panel itself. -/
  | panel
  /-- Anything else. -/
  | outside
deriving DecidableEq, Repr

/-- What a shortener answers for a link. -/
abbrev Shortener := String → Except PlaygroundError String

/-- What is shown when there is no short link. -/
def noShortLink : String := "Failed to load."

/-- The panel. -/
structure SharePanel where
  /-- The panel is shown. -/
  isOpen : Bool
  /-- The kind of link. -/
  length : LinkLength
  /-- The link that is shown. -/
  link : String
deriving DecidableEq, Repr

namespace SharePanel

/-- The panel of a new playground. -/
def start : SharePanel := ⟨false, .short, ""⟩

instance : Inhabited SharePanel := ⟨start⟩

/-- The panel after a click. -/
def click (p : SharePanel) : ClickTarget → SharePanel
  | .button => { p with isOpen := !p.isOpen }
  | .panel => p
  | .outside => { p with isOpen := false }

/-- The click opens the panel. -/
def opens (p : SharePanel) (t : ClickTarget) : Bool := t = .button && !p.isOpen

/-- The links that the shortener is asked for when the panel is made anew. -/
def asks (p : SharePanel) (url : String) : List String :=
  match p.length with
  | .short => [url]
  | .long => []

/-- The link that the panel shows for a long link. -/
def linkFor (p : SharePanel) (shorten : Shortener) (url : String) : String :=
  match p.length with
  | .long => url
  | .short =>
    match shorten url with
    | .ok short => short
    | .error _ => noShortLink

/-- The panel with the link made anew. -/
def refresh (p : SharePanel) (shorten : Shortener) (url : String) : SharePanel :=
  { p with link := p.linkFor shorten url }

end SharePanel

/-- The share panel of a page, with the links that the shortener has been asked
for. -/
structure ControlPanel where
  /-- The panel. -/
  share : SharePanel
  /-- The address of the page. -/
  base : String
  /-- What the shortener answers. -/
  shorten : Shortener
  /-- The links it has been asked for. -/
  asked : List String

namespace ControlPanel

/-- The panel of a new page. -/
def start (base : String) (shorten : Shortener) : ControlPanel := ⟨.start, base, shorten, []⟩

/-- The panel with the link to a state made anew. -/
def refresh (c : ControlPanel) (s : State) : ControlPanel :=
  let url := Share.link c.base s
  { c with share := c.share.refresh c.shorten url, asked := c.asked ++ c.share.asks url }

/-- The panel after a click, and the new link if it opened. -/
def click (c : ControlPanel) (t : ClickTarget) (s : State) : ControlPanel × Option String :=
  let clicked := { c with share := c.share.click t }
  if c.share.opens t then
    let c := clicked.refresh s
    (c, some c.share.link)
  else (clicked, none)

/-- The panel with another kind of link. -/
def selectLength (c : ControlPanel) (l : LinkLength) (s : State) : ControlPanel :=
  { c with share := { c.share with length := l } }.refresh s

end ControlPanel

end Playground
