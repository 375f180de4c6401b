import Stevedore.LogValue
import Stevedore.Text.Bytes
import Stevedore.Text.Pieces

/-!
Which log lines are shown. A filter is a list of directives, written with commas between them, such
as `info,engine::client=trace`. A directive gives a level to one part of the program, or to spans
and fields named in brackets (`engine[run{task}]=debug`), or to everything. In a filter the
directives are ordered so that the first one that applies is the most specific.
-/

namespace Stevedore

/-- How detailed the log is. -/
inductive LogLevel where
  | off
  | error
  | warn
  | info
  | debug
  | trace
deriving DecidableEq, Repr, Inhabited

namespace LogLevel

/-- The levels, from the least to the most detailed. -/
def all : List LogLevel := [off, error, warn, info, debug, trace]

/-- The name of a level. -/
def name : LogLevel → String
  | off => "off"
  | error => "error"
  | warn => "warn"
  | info => "info"
  | debug => "debug"
  | trace => "trace"

/-- The level that a directive names, in either case or by its number. -/
def ofText? (s : List Char) : Option LogLevel :=
  match Text.readNat? s with
  | some n => all[n]?
  | none => all.find? fun level => level.name.toList = s.map Char.toLower

end LogLevel

/-- A field that a directive asks for, perhaps with a value. -/
structure LogField where
  name : String
  value : Option LogValue
deriving DecidableEq, Repr

namespace LogField

/-- The order of fields: those with a value come after those without. -/
def order (a b : LogField) : Ordering :=
  (compare a.value.isSome b.value.isSome).then
    ((compare a.name b.name).then (compare a.value b.value))

instance : Ord LogField := ⟨order⟩

/-- Reads a field. What follows a second equals sign is passed over. -/
def read? (s : List Char) : Option LogField :=
  match Text.pieces '=' s with
  | [] | [[]] => none
  | [name] => some ⟨String.ofList name, none⟩
  | name :: value :: _ =>
    (LogValue.read? value).map fun v => ⟨String.ofList name, some v⟩

/-- The field as it is written. -/
def text (f : LogField) : String := f.name ++ (f.value.map ("=" ++ ·.text)).getD ""

end LogField

/-- One directive. -/
structure LogDirective where
  /-- The part of the program that it is about. -/
  target : Option String := none
  span : Option String := none
  field : Option LogField := none
  level : LogLevel
deriving DecidableEq, Repr

namespace LogDirective

/-! ## Reading -/

/-- Where a reader stands in a directive. Positions count bytes, and are those at which the current
part began. -/
inductive Place where
  | start
  | word (start : Nat)
  | span (start : Nat)
  | field (start : Nat)
  | afterField
  | afterBracket
  | level (start : Nat)
deriving DecidableEq, Repr

/-- What has been read of a directive, and where the reader stands. -/
structure Draft where
  directive : LogDirective := { level := .trace }
  place : Place := .start

/-- Whether a directive may start with the character: a letter or number of any script, or one of
the marks that stand in names. -/
def mayStart (c : Char) : Bool := c = '-' || c = ':' || c = '_' || Text.isWordChar c

/-- A part that may be empty. -/
def nonempty? (s : List Char) : Option String :=
  if s.isEmpty then none else some (String.ofList s)

/-- The level after an equals sign. -/
def levelAfter? (s : List Char) : Option LogLevel :=
  if s.isEmpty then some .trace else LogLevel.ofText? s

/-- Reads the character `c` at position `i`. The parts of the directive are taken from `s`. -/
def step? (s : List Char) (d : Draft) (c : Char) (i : Nat) : Option Draft :=
  match d.place with
  | .start =>
    if c = '[' then some { d with place := .span (i + 1) }
    else if mayStart c then some { d with place := .word i }
    else none
  | .word start =>
    if c = '=' || c = '[' then
      (Text.slice? s start i).map fun target =>
        ⟨{ d.directive with target := some (String.ofList target) },
          if c = '=' then .level (i + 1) else .span (i + 1)⟩
    else some d
  | .span start =>
    if c = ']' then
      (Text.slice? s start i).map fun span =>
        ⟨{ d.directive with span := some (String.ofList span) }, .afterBracket⟩
    else if c = '\x7b' then
      (Text.slice? s start i).map fun span =>
        ⟨{ d.directive with span := nonempty? span }, .field (i + 1)⟩
    else some d
  | .field start =>
    if c = '\x7d' then
      ((Text.slice? s start i).bind LogField.read?).map fun field =>
        ⟨{ d.directive with field := some field }, .afterField⟩
    else some d
  | .afterField => if c = ']' then some { d with place := .afterBracket } else none
  | .afterBracket => if c = '=' then some { d with place := .level (i + 1) } else none
  | .level _ => some d

/-- Reads the characters from position `i` on. -/
def scan? (s : List Char) (d : Draft) : List Char → Nat → Option Draft
  | [], _ => some d
  | c :: rest, i => (step? s d c i).bind fun d => scan? s d rest (i + c.utf8Size)

/-- What a directive says at its end. A word by itself is a level if there is one of that name, and
else the target of everything. -/
def finish? (s : List Char) (d : Draft) : Option LogDirective :=
  match d.place with
  | .word start =>
    (Text.dropBytes? s start).map fun word =>
      match LogLevel.ofText? word with
      | some level => { d.directive with level }
      | none => { d.directive with target := some (String.ofList word) }
  | .level start =>
    ((Text.dropBytes? s start).bind levelAfter?).map fun level => { d.directive with level }
  | .afterBracket => some d.directive
  | _ => none

/-- Reads a directive. White space around it is not read, but positions are counted without it and
looked up with it, so a directive after a space is not the one that was meant. -/
def read? (s : List Char) : Option LogDirective :=
  (scan? s {} (Text.trimChars s) 0).bind (finish? s)

/-! ## Order -/

/-- Whether it is about a span or a field, which only a running program can tell. -/
def isDynamic (d : LogDirective) : Bool := d.span.isSome || d.field.isSome

/-- Whether it can be decided from the place of a log line alone. -/
def isStatic (d : LogDirective) : Bool := d.span.isNone && d.field.all (·.value.isNone)

/-- How specific a directive is: a longer target first, then a span, then a field. -/
def weight (d : LogDirective) : List Nat :=
  [(d.target.map (·.utf8ByteSize + 1)).getD 0, d.span.isSome.toNat, d.field.isSome.toNat]

/-- Compares how specific two directives are, and directives that are equally specific by their
parts. -/
def specificity (a b : LogDirective) : Ordering :=
  (compare a.weight b.weight).then
    ((compare (a.target.getD "") (b.target.getD "")).then
      ((compare (a.span.getD "") (b.span.getD "")).then (compare a.field b.field)))

/-- Puts a directive among others, the most specific first. One about the same thing is replaced. -/
def place (d : LogDirective) : List LogDirective → List LogDirective
  | [] => [d]
  | e :: rest =>
    match specificity d e with
    | .gt => d :: e :: rest
    | .eq => d :: rest
    | .lt => e :: place d rest

/-- Directives in order. -/
def ordered (l : List LogDirective) : List LogDirective := l.foldl (fun l d => place d l) []

/-- The directive as it is written. -/
def text (d : LogDirective) : String :=
  let field := (d.field.map fun f => "\x7b" ++ f.text ++ "\x7d").getD ""
  let bracket := if d.isDynamic then "[" ++ d.span.getD "" ++ field ++ "]" else ""
  let subject := d.target.getD "" ++ bracket
  if d.target.isSome || d.isDynamic then subject ++ "=" ++ d.level.name else d.level.name

end LogDirective

/-- Which log lines are shown. -/
structure LogFilter where
  /-- The directives about places in the program. -/
  statics : List LogDirective
  /-- The directives about spans and fields. -/
  dynamics : List LogDirective
deriving DecidableEq, Repr

namespace LogFilter

/-- The filter of some directives. -/
def ofDirectives (l : List LogDirective) : LogFilter :=
  ⟨LogDirective.ordered (l.filter (·.isStatic)), LogDirective.ordered (l.filter (·.isDynamic))⟩

/-- Reads a filter. -/
def read? (s : String) : Option LogFilter := do
  let written := (Text.pieces ',' s.toList).filter (!·.isEmpty)
  return ofDirectives (← written.mapM LogDirective.read?)

/-- The filter when nothing is asked for. -/
def standard : LogFilter :=
  .ofDirectives [{ level := .warn }, { target := some "dockhand::exec", level := .info }]

/-- The filter for a level that was asked for. -/
def ofLevel (level : LogLevel) : LogFilter :=
  .ofDirectives [{ level := .warn }, { target := some "dockhand", level }]

/-- A filter that cannot be read. -/
structure Malformed where
  filter : String
deriving DecidableEq, Repr

/-- The problem in words. -/
def Malformed.message (m : Malformed) : String := s!"invalid DOCKHAND_LOG filter '{m.filter}'"

/-- The filter for a level from the command line and one from the surroundings. The level counts
first, and a filter that is malformed is not passed over. -/
def choose (level : Option LogLevel) (written : Option String) : Except Malformed LogFilter :=
  match level, written.map Text.trim with
  | some level, _ => .ok (ofLevel level)
  | none, none => .ok standard
  | none, some s =>
    if s.isEmpty then .ok standard
    else
      match read? s with
      | some f => .ok f
      | none => .error ⟨s⟩

/-- The filter as it is written. -/
def text (f : LogFilter) : String := ",".intercalate ((f.statics ++ f.dynamics).map (·.text))

end LogFilter

end Stevedore
