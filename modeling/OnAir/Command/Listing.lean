import OnAir.Publisher
import OnAir.Snapshot.Basic

set_option autoImplicit false

namespace OnAir.Command

def reachLabel : Reach → String
  | .ownLine => "None"
  | .nextItem => "ToNextLine"
  | .segmentEnd => "ToEndOfSegment"
  | .rundownEnd => "ToEndOfRundown"

def millis (ms : Int) : String := toString ms ++ " ms"

def describe : Option Airing → String
  | none => "-"
  | some airing =>
    let reach := reachLabel airing.reach
    if airing.continued then
      airing.origin.text ++ " (continues from " ++ airing.originLine.text ++ ", +" ++
        millis airing.elapsed.toNat ++ ", " ++ reach ++ ")"
    else
      let duration := match airing.duration with
        | some duration => millis duration.toInt
        | none => "open"
      airing.origin.text ++ " (" ++ duration ++ ", " ++ reach ++ ")"

def pad (width : Nat) (s : String) : String :=
  s ++ String.ofList (List.replicate (width - s.length) ' ')

def layerLine (layer : String) (airing : Option Airing) : String :=
  "    " ++ pad 24 layer ++ " " ++ describe airing

def lineLines (rundown : Rundown) (board : Board) (line : Line) : List String :=
  ("  " ++ line.id.text ++ " " ++ line.title ++ " (" ++ millis line.duration.toNat ++ ")") ::
    rundown.layers.map fun layer => layerLine layer.name (board.onAir? line.id layer.id)

def segmentLines (rundown : Rundown) (board : Board) (segment : Segment) : List String :=
  if segment.lines.isEmpty then []
  else
    ("[" ++ segment.id.text ++ "] " ++ segment.name) ::
      segment.lines.flatMap (lineLines rundown board)

def rundownLines (rundown : Rundown) (board : Board) : List String :=
  let title := if rundown.name.isEmpty then rundown.id.text else rundown.name
  "" :: ("=== " ++ title ++ " ===") :: rundown.segments.flatMap (segmentLines rundown board)

def resolvedLine (report : Report) : String :=
  "Resolved " ++ toString report.visited ++ " lines (" ++ toString report.changed ++
    " changed), table version " ++ toString report.version.toNat

def editLine (index : Nat) (result : Except Fault Report) : String :=
  let outcome := match result with
    | .ok report =>
      "ok: visited " ++ toString report.visited ++ ", changed " ++ toString report.changed ++
        ", pruned " ++ toString report.pruned ++ (if report.early then ", converged early" else "")
    | .error fault => "rejected: " ++ fault.message
  "  [" ++ toString index ++ "] " ++ outcome

def snapshotLines (snapshot : Snapshot) : List String :=
  let header := snapshot.header
  let lines := snapshot.board.lines.entries
  let line (entry : Id .line × Lineup) : List String :=
    ("  " ++ entry.1.text) :: entry.2.entries.map fun e => layerLine e.1.text e.2
  ["", "=== Snapshot Information ===",
    "Format version: " ++ toString header.format.toNat,
    "Table version: " ++ toString header.boardVersion.toNat,
    "Lines: " ++ toString header.lineCount.toNat,
    "Lines with an item in effect: " ++ toString snapshot.board.activeLines,
    "", "=== Lines (first 10) ==="] ++
    (lines.take 10).flatMap line ++
    (if lines.length > 10 then ["  ... and " ++ toString (lines.length - 10) ++ " more lines"]
    else [])

end OnAir.Command
