/-!
# Windows that come and go

How the surface of a window is set up, and what the log says when windows are prepared and torn
down.
-/

set_option autoImplicit false

namespace RetainedScene

/-- How finished frames replace each other on the screen. -/
inductive PresentMode
  | autoVsync
  | autoNoVsync
  | fifo
  | fifoRelaxed
  | immediate
  | mailbox
deriving DecidableEq, Repr

def PresentMode.name : PresentMode → String
  | .autoVsync => "AutoVsync"
  | .autoNoVsync => "AutoNoVsync"
  | .fifo => "Fifo"
  | .fifoRelaxed => "FifoRelaxed"
  | .immediate => "Immediate"
  | .mailbox => "Mailbox"

def PresentMode.all : List PresentMode :=
  [.autoVsync, .autoNoVsync, .fifo, .fifoRelaxed, .immediate, .mailbox]

def PresentMode.ofName? (name : String) : Option PresentMode :=
  PresentMode.all.find? (·.name == name)

structure SurfaceOptions where
  preferSrgb : Bool := true
  presentMode : PresentMode := .fifo
  /-- Hint for the number of frames in flight. -/
  latency : Nat := 2
deriving DecidableEq, Repr

structure SceneWindow where
  surface : SurfaceOptions := {}
  runs : Nat := 0

def SceneWindow.preparedNote (w : SceneWindow) : String :=
  "component window prepared (" ++ w.surface.presentMode.name ++ ")"

def SceneWindow.tornDownNote (w : SceneWindow) : String :=
  let runs := w.runs
  s!"component window torn down after {runs} run(s)"

/-- Windows that are there, the newest first, and the log, the latest first. -/
structure WindowStack where
  windows : List SceneWindow := []
  log : List String := []

namespace WindowStack

def push (s : WindowStack) (w : SceneWindow) : WindowStack :=
  ⟨w :: s.windows, w.preparedNote :: s.log⟩

/-- Drops the newest window, if there is one. -/
def drop (s : WindowStack) : WindowStack :=
  match s.windows with
  | [] => s
  | newest :: rest => ⟨rest, newest.tornDownNote :: s.log⟩

/-- The whole log, once the windows that are left were dropped from the oldest on. -/
def finish (s : WindowStack) : List String :=
  s.log.reverse ++ s.windows.reverse.map SceneWindow.tornDownNote

end WindowStack

end RetainedScene
