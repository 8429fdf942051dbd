import ModuleLoader.SourceMap.Vlq
import ModuleLoader.Text.Position
import ModuleLoader.Text.Segment

/-! # Source maps

A source map tells for each line of generated text where it comes from. Lines are separated by
semicolons and hold segments of numbers; source, line and column are written as differences to the
segment before.
-/

namespace ModuleLoader

/-- A source map document. -/
structure SourceMap where
  version : UInt8
  file : String
  sources : List String
  contents : List (Option String)
  names : List String
  mappings : String
deriving DecidableEq

namespace SourceMap

/-- A place in one of the sources. -/
structure Origin where
  source : String
  line : Nat
  column : Nat
deriving DecidableEq, Repr

/-! ## Writing -/

/-- The mappings of generated lines. The place before is given with lines and columns from zero. -/
def mappingsFrom (line column : Int) : List (Option Position) → List (List Char)
  | [] => []
  | none :: rest => [] :: mappingsFrom line column rest
  | some p :: rest =>
    let l := Vlq.word (p.line - 1)
    let c := Vlq.word (p.column - 1)
    (Vlq.encode 0 ++ Vlq.encode 0 ++ Vlq.encode (Vlq.word (l - line)) ++
        Vlq.encode (Vlq.word (c - column))) ::
      mappingsFrom l c rest

/-- The map of generated lines that come from one source. -/
def ofLines (file source content : String) (lines : List (Option Position)) : SourceMap :=
  ⟨3, file, [source], [some content], [],
    String.ofList (Text.joined ';' (mappingsFrom 0 0 lines))⟩

/-! ## Reading -/

/-- Source, line and column, all from zero, as words of 64 bits. -/
structure Place where
  source : Int
  line : Int
  column : Int
deriving DecidableEq, Repr

/-- A word as a number without a sign. -/
def unsigned (n : Int) : Nat := (n % Vlq.wordCount).toNat

/-- The segments of a line: places, except where a segment has fewer than four numbers. -/
def decodeLine? (here : Place) : List (List Char) → Option (List (Option Place) × Place)
  | [] => some ([], here)
  | raw :: rest =>
    (Vlq.decode? 0 0 raw).bind fun
      | _ :: s :: l :: c :: _ =>
        let next : Place :=
          ⟨Vlq.word (here.source + s), Vlq.word (here.line + l), Vlq.word (here.column + c)⟩
        (decodeLine? next rest).map fun r => (some next :: r.1, r.2)
      | _ => (decodeLine? here rest).map fun r => (none :: r.1, r.2)

/-- The segments of lines. -/
def decodeLines? (here : Place) : List (List Char) → Option (List (List (Option Place)))
  | [] => some []
  | line :: rest =>
    (decodeLine? here ((Text.segments ',' line).filter (· ≠ []))).bind fun r =>
      (decodeLines? r.2 rest).map (r.1 :: ·)

/-- The segments of all lines. One character out of place leaves no line readable. -/
def decode? (mappings : String) : Option (List (List (Option Place))) :=
  decodeLines? ⟨0, 0, 0⟩ (Text.segments ';' mappings.toList)

/-- Where a generated line comes from: the place of its first segment. Lines start at one. -/
def originOf? (m : SourceMap) (line : Nat) : Option Origin := do
  let lines ← decode? m.mappings
  if line = 0 then none
  else
    let segments ← lines[line - 1]?
    let place ← (← segments.head?)
    let source ← m.sources[unsigned place.source]?
    return ⟨source, (unsigned place.line + 1) % Vlq.wordCount,
      (unsigned place.column + 1) % Vlq.wordCount⟩

/-- The text of a source, if the map holds it. The first of equal sources counts. -/
def contentOf? (m : SourceMap) (source : String) : Option String := do
  let i ← m.sources.findIdx? (· = source)
  (← m.contents[i]?)

end SourceMap

end ModuleLoader
