import RetainedScene.Logging.Blank

/-!
# Log filters

A filter is a list of directives. Each sets the most verbose level that passes, for all targets
or for those that begin with a name. Of the directives that fit a target the one with the
longest name decides.
-/

set_option autoImplicit false

namespace RetainedScene

/-- From nothing to everything. -/
inductive LogLevel
  | off
  | error
  | warn
  | info
  | debug
  | trace
deriving DecidableEq, Repr

namespace LogLevel

def all : List LogLevel :=
  [.off, .error, .warn, .info, .debug, .trace]

def name : LogLevel → String
  | .off => "OFF"
  | .error => "ERROR"
  | .warn => "WARN"
  | .info => "INFO"
  | .debug => "DEBUG"
  | .trace => "TRACE"

def verbosity : LogLevel → Nat
  | .off => 0
  | .error => 1
  | .warn => 2
  | .info => 3
  | .debug => 4
  | .trace => 5

/-- Reads a level word in any mixture of ASCII cases. -/
def ofWord? (word : List Char) : Option LogLevel :=
  all.find? fun level => level.name.toList == word.map Char.toUpper

def louder (a b : LogLevel) : LogLevel :=
  if a.verbosity < b.verbosity then b else a

end LogLevel

namespace Logging

structure Directive where
  /-- What a target begins with. Without a name every target fits. -/
  name : Option (List Char)
  level : LogLevel
deriving DecidableEq

namespace Directive

/-- Length of the name in UTF-8 bytes. -/
def nameLength (d : Directive) : Nat :=
  match d.name with
  | some name => (String.ofList name).utf8ByteSize
  | none => 0

def fits (target : List Char) (d : Directive) : Bool :=
  d.name.all (·.isPrefixOf target)

/-- Reads a directive such as `info`, `name` or `name=info`. A name alone lets everything pass.
    Nothing comes of an unknown level or of more than one sign of equality. -/
def ofText? (text : List Char) : Option Directive :=
  match pieces '=' text with
  | [only] =>
    match LogLevel.ofWord? only with
    | some level => some ⟨none, level⟩
    | none => some ⟨some only, .trace⟩
  | [name, word] =>
    match trim word with
    | [] => some ⟨some name, .trace⟩
    | word => (LogLevel.ofWord? word).map fun level => ⟨some name, level⟩
  | _ => none

end Directive

/-- Adds a directive in place of an earlier one with the same name. -/
def insert (d : Directive) : List Directive → List Directive
  | [] => [d]
  | earlier :: rest =>
    if earlier.name = d.name then d :: rest else earlier :: insert d rest

/-- Directives between commas. What follows a slash is no part of them, and a second slash
    spoils the whole. -/
def directives (spec : List Char) : List Directive :=
  match pieces '/' spec with
  | [modules] | [modules, _] =>
    (((pieces ',' modules).map trim).filter (· ≠ [])).filterMap Directive.ofText?
  | _ => []

/-- The most verbose level that passes for a target. The longest name wins, and of names of the
    same length the later one. -/
def levelFor (directives : List Directive) (target : List Char) : LogLevel :=
  let byLength := directives.mergeSort fun a b => a.nameLength ≤ b.nameLength
  match byLength.reverse.find? (Directive.fits target) with
  | some d => d.level
  | none => .off

/-- The most verbose level that passes for any target. -/
def loudest (directives : List Directive) : LogLevel :=
  (directives.map Directive.level).foldl LogLevel.louder .off

end Logging

/-- How logging is set up. The graphics libraries log a lot and have a level of their own,
    unless the filter names them. -/
structure LogSettings where
  filter : Option String := none
  defaultLevel : LogLevel := .info
  graphicsLevel : LogLevel := .warn

namespace LogSettings

def graphicsTargets : List String := ["wgpu_core", "wgpu_hal", "naga"]

/-- The filter that takes effect. One in the configuration goes before that of the
    environment. -/
def directives (c : LogSettings) (environment : Option String) : List Logging.Directive :=
  let own := ⟨none, c.defaultLevel⟩ ::
    graphicsTargets.map fun target => ⟨some target.toList, c.graphicsLevel⟩
  let spec := c.filter <|> environment
  let read := (spec.map fun text => Logging.directives text.toList).getD []
  (own ++ read).foldl (fun known d => Logging.insert d known) []

end LogSettings

/-- Logging is set up once. Later configurations change nothing. -/
def Logging.setUp (current : Option (List Logging.Directive)) (c : LogSettings)
    (environment : Option String) : List Logging.Directive :=
  current.getD (c.directives environment)

end RetainedScene
